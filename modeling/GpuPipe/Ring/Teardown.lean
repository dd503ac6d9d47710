import Mathlib.Data.Set.Card
import GpuPipe.Ring.Unreadable
import GpuPipe.Sys.Owner

/-!
# Teardown of a ring

`RingQueue::unlink` in any state a run leaves behind, with puts and pops cut off between two stores. It walks
the records from `head` to `tail`, empties the pending table and the ring, and removes what it found, the
spill directory, and whatever else `/dev/shm` lists under the ring's prefix. Nobody else is taken to run
between its critical section and its end.
-/

namespace GpuPipe.Ring

def spillName (record : Bytes) : Bytes := record.drop 8

/-- The loop of `unlink` from `head` to `tail`: the names that spill records give, and the number of records
whose payload is in a file. -/
def walk (queue : RingQueue) (bytes : Memory) (tail head : ℕ) : List Bytes × ℕ :=
  if head < tail then
    let pos := head % queue.cap
    let header := readHeader bytes pos
    if header.2 = kindPad then walk queue bytes tail (head + (queue.cap - pos))
    else
      let found := walk queue bytes tail (head + (recHdr + align8 header.1))
      if header.2 = kindSpill then (spillName (bytes.read (pos + recHdr) header.1) :: found.1, found.2)
      else if header.2 = kindFile then (found.1, found.2 + 1)
      else found
  else ([], 0)
termination_by tail - head
decreasing_by
  · have hcap := queue.min_le_cap
    have hpos : pos < queue.cap := Nat.mod_lt _ (by omega)
    omega
  · have hhdr : 0 < recHdr := by decide
    omega

/-- `take_pending`: the names in the table, which is empty after. -/
def takePending (shared : Shared) : List Bytes × Shared :=
  ((List.range 48).filterMap shared.pending,
    { shared with pending := fun i ↦ if i < 48 then none else shared.pending i })

structure Unlinked where
  state : State
  /-- The names under which it removes shared memory, beside that of the ring. -/
  names : List Bytes
  /-- What it returns. -/
  removed : ℕ

/-- `unlink`, when `listing` is what `/dev/shm` holds. It waits for the lock. -/
def unlink (queue : RingQueue) (pid : ℕ → UInt32) (state : State) (listing : List Bytes) : Option Unlinked :=
  if lockable pid state then
    let found := walk queue state.shared.bytes state.shared.tail state.shared.head
    let pending := takePending { state.shared with head := state.shared.tail, count := 0 }
    let names := found.1 ++ pending.1
    let swept := Sys.prefixSweep queue.name names listing
    let unlinked := names ++ swept.map fun file ↦ Sys.slash :: file
    some
      { state :=
          { state with
            shared := pending.2
            lock := none
            objects := fun place ↦
              match place with
              | (.shm, name) => if name ∈ unlinked then none else state.objects (.shm, name)
              -- `remove_dir_all`
              | (.disk, _) => none }
        names := unlinked
        removed := names.length + found.2 + swept.length }
  else none

/-! ## The walk -/

/-- The shared-memory object a record names. -/
def Record.shmName (record : Record) : Option Bytes :=
  if record.kind = kindSpill then some (spillName record.payload) else none

def Record.onDisk (record : Record) : Bool := record.kind = kindFile

section Walk

variable {queue : RingQueue} {bytes : Memory} {tail head : ℕ} {record : Record}

theorem walk_end : walk queue bytes tail tail = ([], 0) := by
  rw [walk, if_neg (lt_irrefl tail)]

/-- The loop of `unlink` notes the object that a record names and goes on behind it. -/
theorem walk_record (h : RecordAt queue.cap bytes head record) (hlt : head < tail) :
    walk queue bytes tail head =
      (record.shmName.toList ++ (walk queue bytes tail (head + record.size)).1,
        (walk queue bytes tail (head + record.size)).2 + if record.onDisk then 1 else 0) := by
  rw [walk, if_pos hlt]
  simp only [h.header, h.payload, Record.shmName, Record.onDisk, Record.size]
  rcases h.kind with hkind | hkind | hkind <;> simp [hkind, kindData, kindPad, kindSpill, kindFile]

/-- A pad sends the walk to the start of the ring. -/
theorem walk_pad (h : PadAt queue.cap bytes head) (hlt : head < tail) :
    walk queue bytes tail head = walk queue bytes tail (head + (queue.cap - head % queue.cap)) := by
  rw [walk, if_pos hlt]
  simp only [h.header, if_true]

/-- One record of the chain, behind a pad or not. -/
theorem walk_published {next : ℕ} (h : Published queue.cap bytes head record next) (hle : next ≤ tail) :
    walk queue bytes tail head =
      (record.shmName.toList ++ (walk queue bytes tail next).1,
        (walk queue bytes tail next).2 + if record.onDisk then 1 else 0) := by
  have hlt := h.lt.trans_le hle
  have hsize : 0 < record.size := Nat.lt_of_lt_of_le (show 0 < recHdr by decide) (Nat.le_add_right _ _)
  cases h with
  | direct hrecord => exact walk_record hrecord hlt
  | wrapped hpad hrecord =>
    calc
      walk queue bytes tail head = walk queue bytes tail (head + (queue.cap - head % queue.cap)) :=
        walk_pad hpad hlt
      _ = _ := walk_record hrecord (by omega)

/-- The walk meets the unread records and nothing else. -/
theorem walk_chain {records : List Record} (h : Chain queue.cap bytes tail head records) :
    walk queue bytes tail head = (records.filterMap Record.shmName, records.countP Record.onDisk) := by
  induction h with
  | nil => exact walk_end
  | @cons offset next record rest hfirst hrest ih =>
    rw [walk_published hfirst hrest.le, ih, List.countP_cons]
    congr 1
    cases hname : record.shmName with
    | none => rw [List.filterMap_cons_none hname]; rfl
    | some name => rw [List.filterMap_cons_some hname]; rfl

end Walk

/-! ## Whose names these are -/

/-- A name that some writer made for a spill of this ring. -/
def SpillOf (queue : RingQueue) (name : Bytes) : Prop := ∃ pid n, name = Sys.spillObjectName queue.name pid n

/-- Whatever the ring has in shared memory or in its tables bears the ring's name. -/
structure Named (queue : RingQueue) (state : State) : Prop where
  objects : ∀ name object, state.objects (.shm, name) = some object → SpillOf queue name
  pending : ∀ i name, state.shared.pending i = some name → i < 48 ∧ SpillOf queue name
  spilled : ∀ thread put record, (state.phase thread).pre = some put → put.spilled = some record →
    record.kind = kindSpill → SpillOf queue (spillName record.payload)

section Names

variable {queue : RingQueue} {pid : ℕ → UInt32} {state next : State} {thread : ℕ} {move : Move}

theorem Named.keeps (h : Named queue state) {phase : Phase}
    (hphase : next.phase = Function.update state.phase thread phase)
    (hobjects : ∀ place object, next.objects place = some object → state.objects place = some object)
    (hpending : ∀ i name, next.shared.pending i = some name → i < 48 ∧ SpillOf queue name)
    (hspilled : ∀ put, phase.pre = some put → put.spilled = none ∨
      ∃ old, (state.phase thread).pre = some old ∧ put.spilled = old.spilled) : Named queue next where
  objects name object hobject := h.objects name object (hobjects _ _ hobject)
  pending := hpending
  spilled other put record hput hrecord hkind := by
    rw [hphase] at hput
    by_cases hother : other = thread
    · rw [hother, Function.update_self] at hput
      rcases hspilled put hput with hnone | ⟨old, hold, hsame⟩
      · rw [hnone] at hrecord
        cases hrecord
      · rw [hsame] at hrecord
        exact h.spilled thread old record hold hrecord hkind
    · rw [Function.update_of_ne hother] at hput
      exact h.spilled other put record hput hrecord hkind

theorem clearPending_some {shared : Shared} {slot : Option ℕ} {i : ℕ} {name : Bytes}
    (h : (clearPending shared slot).pending i = some name) : shared.pending i = some name := by
  cases slot with
  | none => exact h
  | some slot =>
    change Function.update shared.pending slot none i = some name at h
    by_cases hi : i = slot
    · rw [hi, Function.update_self] at h
      cases h
    · rwa [Function.update_of_ne hi] at h

theorem notePending_some {shared : Shared} {noted : Bytes} {i : ℕ} {name : Bytes}
    (h : (notePending shared noted).2.pending i = some name) :
    shared.pending i = some name ∨ i < 48 ∧ name = noted := by
  unfold notePending at h
  split at h
  · exact .inl h
  · split at h
    · rename_i slot hslot
      change Function.update shared.pending slot (some noted) i = some name at h
      by_cases hi : i = slot
      · rw [hi, Function.update_self, Option.some.injEq] at h
        exact .inr ⟨hi ▸ List.mem_range.mp (List.mem_of_find?_eq_some hslot), h.symm⟩
      · rw [Function.update_of_ne hi] at h
        exact .inl h
    · exact .inl h

/-- Files and shared memory have names of their own. -/
theorem Named.file (h : Named queue state) {file : Bytes} {created : Option Object}
    (hobjects : next.objects = Function.update state.objects (.disk, file) created) :
    ∀ name object, next.objects (.shm, name) = some object → SpillOf queue name := by
  intro name object hobject
  rw [hobjects, Function.update_of_ne (by simp)] at hobject
  exact h.objects name object hobject

theorem leaveFile_named (h : Named queue state) (put : PutCall) (left : Option Bytes) :
    Named queue (leaveFile pid state thread put left) := by
  cases left with
  | none => exact h
  | some bytes =>
    exact ⟨h.file rfl, h.pending, h.spilled⟩

theorem Named.spill (h : Named queue state) {put : PutCall} {result : SpillResult}
    (hput : state.phase thread = .put put) (hspill : spill queue pid state thread put result = some next) :
    Named queue next := by
  have hpre : (state.phase thread).pre = some put := by
    rw [hput]
    rfl
  cases result with
  | shm =>
    simp only [Ring.spill, Option.ite_none_left_eq_some, Option.some.injEq] at hspill
    obtain ⟨-, rfl⟩ := hspill
    constructor
    · intro name object hobject
      rcases create_some hobject with hold | ⟨hplace, -⟩
      · exact h.objects name object hold
      · cases hplace
        exact ⟨_, _, rfl⟩
    · exact h.pending
    · intro other put' record hput' hrecord hkind
      by_cases hother : other = thread
      · rw [hother, goto_phase] at hput'
        cases hput'
        cases hrecord
        exact ⟨_, _, rfl⟩
      · rw [goto_other _ _ _ hother] at hput'
        exact h.spilled other put' record hput' hrecord hkind
  | file =>
    simp only [Ring.spill, Option.ite_none_left_eq_some, Option.some.injEq] at hspill
    obtain ⟨-, rfl⟩ := hspill
    constructor
    · exact h.file rfl
    · exact h.pending
    · intro other put' record hput' hrecord hkind
      by_cases hother : other = thread
      · rw [hother, goto_phase] at hput'
        cases hput'
        cases hrecord
        cases hkind
      · rw [goto_other _ _ _ hother] at hput'
        exact h.spilled other put' record hput' hrecord hkind
  | noSpace left clock =>
    have hleft := @leaveFile_named queue pid state thread h put left
    simp only [Ring.spill] at hspill
    split at hspill
    · cases hspill
      exact hleft.keeps rfl (fun _ _ hobject ↦ hobject) hleft.pending (by rintro _ ⟨⟩)
    · cases hspill
      refine hleft.keeps rfl (fun _ _ hobject ↦ hobject) hleft.pending ?_
      rintro put' ⟨⟩
      rw [leaveFile_phase]
      exact .inr ⟨put, hpre, rfl⟩
  | failed left =>
    cases hspill
    have hleft := @leaveFile_named queue pid state thread h put left
    exact hleft.keeps rfl (fun _ _ hobject ↦ hobject) hleft.pending (by rintro _ ⟨⟩)

theorem Named.putDecide (h : Named queue state) {put : PutCall} (hput : state.phase thread = .putLocked put)
    (clock : Bool) : Named queue (putDecide queue state thread put clock) := by
  have hpre : (state.phase thread).pre = some put := by
    rw [hput]
    rfl
  have hsame {phase : Phase} {put' : PutCall} (hphase : phase.pre = some put') (hspilled : put'.spilled = put.spilled) :
      ∀ new, phase.pre = some new → new.spilled = none ∨
        ∃ old, (state.phase thread).pre = some old ∧ new.spilled = old.spilled := by
    intro new hnew
    rw [hphase, Option.some.injEq] at hnew
    exact .inr ⟨put, hpre, hnew ▸ hspilled⟩
  unfold Ring.putDecide
  dsimp only
  split
  · exact h.keeps rfl (fun _ _ hobject ↦ hobject) h.pending (hsame rfl rfl)
  · split
    · exact h.keeps rfl (fun _ _ hobject ↦ hobject) h.pending (hsame rfl rfl)
    · split
      · exact h.keeps rfl (fun _ _ ↦ discard_some) (fun i name hname ↦ h.pending i name (clearPending_some hname)) nofun
      · split
        · rename_i record hpending hspilled
          split
          · rename_i hkind
            refine h.keeps rfl (fun _ _ hobject ↦ hobject) ?_ (hsame rfl rfl)
            intro i name hname
            rcases notePending_some hname with hold | ⟨hlt, rfl⟩
            · exact h.pending i name hold
            · exact ⟨hlt, h.spilled thread put record hpre hspilled hkind⟩
          · exact h.keeps rfl (fun _ _ hobject ↦ hobject) h.pending (hsame rfl rfl)
        · exact h.keeps rfl (fun _ _ hobject ↦ hobject) h.pending (hsame rfl rfl)

/-- A move makes no object, table entry or file that does not bear the ring's name. -/
theorem Named.moveStep (h : Named queue state) (hnext : moveStep queue pid state thread move = some next) :
    Named queue next := by
  cases moveStep_cases hnext with
  | putBegin data deadline disk hphase =>
    refine h.keeps rfl (fun _ _ hobject ↦ hobject) h.pending ?_
    rintro put ⟨⟩
    exact .inl rfl
  | spill put result hphase _ _ hspill => exact h.spill hphase hspill
  | acquirePut put hphase | interrupted put hphase | wake put hphase =>
    refine h.keeps rfl (fun _ _ hobject ↦ hobject) h.pending ?_
    rintro put' ⟨⟩
    exact .inr ⟨put, by rw [hphase]; rfl, rfl⟩
  | putDecide put clock hphase => exact h.putDecide hphase clock
  | store put record address byte todo hphase =>
    refine h.keeps rfl (fun _ _ hobject ↦ hobject) h.pending ?_
    rintro put' ⟨⟩
    exact .inr ⟨put, by rw [hphase]; rfl, rfl⟩
  | putDone put hphase =>
    exact h.keeps rfl (fun _ _ hobject ↦ hobject) (fun i name hname ↦ h.pending i name (clearPending_some hname)) nofun
  | putAbort put hphase =>
    exact h.keeps rfl (fun _ _ ↦ discard_some) (fun i name hname ↦ h.pending i name (clearPending_some hname)) nofun
  | materialize popped rest hphase =>
    obtain ⟨phase, hnextPhase, hpre, hobjects, hshared⟩ : ∃ phase,
        (materializeNext state thread popped rest).phase = Function.update state.phase thread phase ∧
          phase.pre = none ∧
          (∀ place object, (materializeNext state thread popped rest).objects place = some object →
            state.objects place = some object) ∧
          (materializeNext state thread popped rest).shared = state.shared := by
      have hremoved : ∀ place object, (Ring.materialize state.objects popped.record).2 place = some object →
          state.objects place = some object := fun _ _ ↦ materialize_some
      unfold materializeNext
      split
      · rename_i payload objects hread
        rw [hread] at hremoved
        refine ⟨_, rfl, ?_, hremoved, rfl⟩
        split <;> rfl
      · rename_i objects hread
        rw [hread] at hremoved
        exact ⟨_, rfl, rfl, hremoved, rfl⟩
    refine h.keeps hnextPhase hobjects ?_ ?_
    · rw [hshared]
      exact h.pending
    · intro put hput
      rw [hpre] at hput
      cases hput
  | storeTail | addCount | acquireGet | getBegin | getItems | getExpired | getAgain | popEnough | popEmpty | pop
  | storeCount | resync | finishRead | finishMany | finishAgain =>
    exact h.keeps rfl (fun _ _ hobject ↦ hobject) h.pending nofun

/-- Nor does a whole run. -/
theorem named_of_reachable (h : (machine queue pid).Reachable state) : Named queue state := by
  apply h.invariant (Named queue)
  · exact ⟨nofun, nofun, nofun⟩
  · intro before action after hbefore hstep
    cases action with
    | act thread move => exact hbefore.moveStep (moveStep_of_step hstep)
    | die process =>
      cases hstep
      exact ⟨hbefore.objects, hbefore.pending, hbefore.spilled⟩

end Names

/-! ## What is left -/

/-- An empty ring: the offsets meet, nothing is counted, and the pending table is clear. -/
structure Emptied (queue : RingQueue) (state : State) : Prop where
  ring : RingOk queue state.objects state.shared []
  offsets : state.shared.head = state.shared.tail
  count : state.shared.count = 0
  pending : ∀ i, state.shared.pending i = none
  objects : ∀ place, state.objects place = none

section Teardown

variable {queue : RingQueue} {pid : ℕ → UInt32} {state : State} {listing : List Bytes} {unlinked : Unlinked}

theorem SpillOf.slashed {creator : Sys.Creator} (hname : queue.name = Sys.uniqueName "gpq" creator) {name : Bytes}
    (h : SpillOf queue name) : Sys.slash :: Sys.trimSlashes name = name ∧
      (Sys.trimSlashes queue.name ++ ascii "s").isPrefixOf (Sys.trimSlashes name) = true := by
  obtain ⟨pid, n, rfl⟩ := h
  have hspill : Sys.spillObjectName queue.name pid n = (Sys.Object.spill creator pid n).name := by
    rw [hname]
    rfl
  constructor
  · rw [hspill, Sys.name_eq]
    rfl
  · rw [hname, Sys.trimSlashes_gpq, ← hname, hspill, ← Sys.Object.file, Sys.file_eq, List.isPrefixOf_iff_prefix]
    refine ⟨Sys.fileSpillName pid n, ?_⟩
    rw [List.append_assoc, List.cons_append, Sys.tagged_append]
    rfl

/-- A name of the ring that is listed is one of those the walk or the table gave, or the sweep takes it. -/
theorem unlinked_of_listed {creator : Sys.Creator} (hname : queue.name = Sys.uniqueName "gpq" creator)
    {names : List Bytes} (hnames : ∀ name ∈ names, SpillOf queue name) {name : Bytes} (hspill : SpillOf queue name)
    (hlisted : Sys.trimSlashes name ∈ listing) :
    name ∈ names ++ (Sys.prefixSweep queue.name names listing).map (Sys.slash :: ·) := by
  obtain ⟨hslash, hprefix⟩ := hspill.slashed hname
  by_cases hnamed : ∃ other ∈ names, Sys.trimSlashes other = Sys.trimSlashes name
  · obtain ⟨other, hother, htrim⟩ := hnamed
    have hsame : other = name := by
      rw [← ((hnames other hother).slashed hname).1, htrim, hslash]
    exact List.mem_append_left _ (hsame ▸ hother)
  · rw [List.mem_append]
    right
    rw [List.mem_map]
    refine ⟨Sys.trimSlashes name, ?_, hslash⟩
    rw [Sys.prefixSweep, List.mem_filter, Bool.and_eq_true]
    refine ⟨hlisted, hprefix, ?_⟩
    simpa using hnamed

theorem unlink_eq (h : unlink queue pid state listing = some unlinked) :
    ∃ names, names = (walk queue state.shared.bytes state.shared.tail state.shared.head).1 ++
        (takePending state.shared).1 ∧
      unlinked.names = names ++ (Sys.prefixSweep queue.name names listing).map (Sys.slash :: ·) ∧
      unlinked.removed = unlinked.names.length +
        (walk queue state.shared.bytes state.shared.tail state.shared.head).2 ∧
      unlinked.state.shared =
        (takePending { state.shared with head := state.shared.tail, count := 0 }).2 ∧
      ∀ place, unlinked.state.objects place ≠ none → ∃ name, place = (.shm, name) ∧
        (state.objects (.shm, name)).isSome = true ∧ name ∉ unlinked.names := by
  rw [unlink, Option.ite_none_right_eq_some, Option.some.injEq] at h
  obtain ⟨-, rfl⟩ := h
  refine ⟨_, rfl, rfl, ?_, rfl, ?_⟩
  · simp only [List.length_append, List.length_map]
    exact Nat.add_right_comm _ _ _
  · rintro ⟨medium, name⟩ hplace
    cases medium with
    | disk => exact absurd rfl hplace
    | shm =>
      dsimp only at hplace
      split at hplace
      · exact absurd rfl hplace
      · rename_i hname
        exact ⟨name, rfl, Option.isSome_iff_ne_none.mpr hplace, hname⟩

/-- Every name that the walk or the table gives is one of this ring's spills. -/
theorem spillOf_of_found {records : List Record} (h : Named queue state)
    (hcarries : List.Forall₂ (Carries state.objects) (state.puts.drop state.pops.length) records) {name : Bytes}
    (hname : name ∈ records.filterMap Record.shmName ++ (takePending state.shared).1) : SpillOf queue name := by
  rcases List.mem_append.mp hname with hwalked | hpending
  · obtain ⟨record, hrecord, hshm⟩ := List.mem_filterMap.mp hwalked
    obtain ⟨entry, -, hcarried⟩ : ∃ entry ∈ state.puts.drop state.pops.length, Carries state.objects entry record := by
      obtain ⟨i, hi, rfl⟩ := List.mem_iff_getElem.mp hrecord
      exact ⟨_, List.getElem_mem (hcarries.length_eq ▸ hi), hcarries.get _ hi⟩
    cases hcarried with
    | inline => cases hshm
    | spilled medium other hobject =>
      cases medium with
      | disk => cases hshm
      | shm =>
        simp only [Record.shmName, spillRecord, Medium.kind, if_true, spillName, Option.some.injEq] at hshm
        rw [List.drop_left' (leBytes_length 8 _)] at hshm
        rw [← hshm]
        exact h.objects other _ hobject
  · obtain ⟨i, -, hi⟩ := List.mem_filterMap.mp hpending
    exact (h.pending i name hi).2

/-- `unlink` leaves the ring empty and nothing of it behind, in shared memory or in its spill directory. It
meets the unread records, returns how many names it removed and how many unread records were in files, and
removes no name of anything but a spill of this ring. -/
theorem unlink_leaves_nothing {creator : Sys.Creator} (hname : queue.name = Sys.uniqueName "gpq" creator)
    (h : ((machine queue pid).restrict (ridesWhole queue)).Reachable state)
    (hlisting : ∀ name, (state.objects (.shm, name)).isSome = true → Sys.trimSlashes name ∈ listing)
    (hunlink : unlink queue pid state listing = some unlinked) :
    Emptied queue unlinked.state ∧
      (∃ records, Chain queue.cap state.shared.bytes state.shared.tail state.shared.head records ∧
        List.Forall₂ (Carries state.objects) (state.puts.drop state.pops.length) records ∧
        (∀ record ∈ records, ∀ name, record.shmName = some name → name ∈ unlinked.names) ∧
        {name | (state.objects (.shm, name)).isSome = true}.ncard ≤ unlinked.names.length ∧
        unlinked.removed = unlinked.names.length + records.countP Record.onDisk) ∧
      ∀ host, Sys.Once host → .ring creator ∈ host → ∀ object ∈ host, object.name ∈ unlinked.names →
        ∃ pid n, object = .spill creator pid n := by
  have hinv := inv_of_reachable h
  obtain ⟨actions, hrun⟩ := h
  have hnamed := named_of_reachable ⟨actions, Machine.runFrom_of_restrict hrun⟩
  obtain ⟨records, hchain, hcarries⟩ := hinv.ring.chain
  obtain ⟨names, hnames, hunlinked, hremoved, hshared, hobjects⟩ := unlink_eq hunlink
  rw [walk_chain hchain] at hnames hremoved
  have hfound : ∀ name ∈ names, SpillOf queue name := by
    rw [hnames]
    exact fun name ↦ spillOf_of_found hnamed hcarries
  have hall : ∀ name, (state.objects (.shm, name)).isSome = true → name ∈ unlinked.names := by
    intro name hobject
    obtain ⟨object, hsome⟩ := Option.isSome_iff_exists.mp hobject
    rw [hunlinked]
    exact unlinked_of_listed hname hfound (hnamed.objects name object hsome) (hlisting name hobject)
  refine ⟨?_, ⟨records, hchain, hcarries, ?_, ?_, hremoved⟩, ?_⟩
  · constructor
    · rw [hshared]
      exact ⟨hinv.ring.tail_aligned, hinv.ring.tail_aligned, le_rfl, Nat.le_add_right _ _, [], .nil, .nil⟩
    · rw [hshared]
      rfl
    · rw [hshared]
      rfl
    · intro i
      rw [hshared]
      show (if i < 48 then none else state.shared.pending i) = none
      split
      · rfl
      · rename_i hi
        by_contra hsome
        obtain ⟨name, hpending⟩ := Option.ne_none_iff_exists'.mp hsome
        exact hi (hnamed.pending i name hpending).1
    · intro place
      by_contra hsome
      obtain ⟨name, -, hobject, hleft⟩ := hobjects place hsome
      exact hleft (hall name hobject)
  · intro record hrecord name hshm
    rw [hunlinked, hnames]
    apply List.mem_append_left
    apply List.mem_append_left
    exact List.mem_filterMap.mpr ⟨record, hrecord, hshm⟩
  · calc
      {name | (state.objects (.shm, name)).isSome = true}.ncard ≤ (unlinked.names.toFinset : Set Bytes).ncard := by
        apply Set.ncard_le_ncard _ (Finset.finite_toSet _)
        intro name hobject
        rw [Finset.mem_coe, List.mem_toFinset]
        exact hall name hobject
      _ = unlinked.names.toFinset.card := Set.ncard_coe_finset _
      _ ≤ unlinked.names.length := List.toFinset_card_le _
  · intro host honce hring object hobject hremovedName
    rw [← Sys.isPrefixOf_iff honce hring hobject, ← hname]
    rw [hunlinked, List.mem_append] at hremovedName
    rcases hremovedName with hmem | hmem
    · exact ((hfound _ hmem).slashed hname).2
    · obtain ⟨file, hswept, hfile⟩ := List.mem_map.mp hmem
      rw [Sys.prefixSweep, List.mem_filter, Bool.and_eq_true] at hswept
      have hlisted : object.file = file := by
        rw [Sys.name_eq, List.cons.injEq] at hfile
        rw [Sys.file_eq]
        exact hfile.2.symm
      rw [hlisted]
      exact hswept.2.1

/-- Thread 0 makes an object for its payload and is killed before it has a record. -/
def killedPut : List Action := [.act 0 (.putBegin [7] .forever false), .act 0 (.spill .shm), .die 0]

def orphan : Bytes := Sys.spillObjectName spillQueue.name 0 0

/-- An object whose writer was killed before it had a record is found by its name. -/
theorem unlink_leaves_nothing_killedPut : ∃ state unlinked,
    ((machine spillQueue fun _ ↦ 0).restrict (ridesWhole spillQueue)).Reachable state ∧
      (state.objects (.shm, orphan)).isSome = true ∧
      unlink spillQueue (fun _ ↦ 0) state [Sys.trimSlashes orphan] = some unlinked ∧
      Emptied spillQueue unlinked.state := by
  have hrun : (((machine spillQueue fun _ ↦ 0).restrict (ridesWhole spillQueue)).runFrom .start killedPut).map
      (fun state ↦ (state.objects, state.lock)) =
        some (Function.update (fun _ ↦ none) (.shm, orphan) (some ⟨0, [7]⟩), none) := rfl
  obtain ⟨state, hstate, hseen⟩ := Option.map_eq_some_iff.mp hrun
  rw [Prod.mk.injEq] at hseen
  obtain ⟨hobjects, hlock⟩ := hseen
  have hreachable : ((machine spillQueue fun _ ↦ 0).restrict (ridesWhole spillQueue)).Reachable state :=
    ⟨killedPut, hstate⟩
  have hlisting : ∀ name, (state.objects (.shm, name)).isSome = true →
      Sys.trimSlashes name ∈ [Sys.trimSlashes orphan] := by
    intro name hname
    by_cases hsame : name = orphan
    · rw [hsame]
      exact List.mem_singleton_self _
    · rw [hobjects, Function.update_of_ne (by simpa using hsame)] at hname
      cases hname
  have hlockable : lockable (fun _ ↦ 0) state = true := by
    rw [lockable, hlock]
  refine ⟨state, _, hreachable, ?_, if_pos hlockable, ?_⟩
  · rw [hobjects, Function.update_self]
    rfl
  · exact (unlink_leaves_nothing rfl hreachable hlisting (if_pos hlockable)).1

end Teardown

end GpuPipe.Ring
