import GpuPipe.Ring.Chain
import GpuPipe.Ring.Process

/-!
# The ring invariant

In every state, also between two stores of a put or a pop and after any number of
deaths, the bytes between `head` and `tail` are the records of the payloads published
and not yet popped. The thread that is storing a record knows that completing its
remaining byte stores puts the record behind the chain; a dead thread's phase no
longer matters, because whoever takes the lock over starts from the chain itself.
-/

namespace GpuPipe.Ring

/-! ## What a phase holds -/

/-- Popped records not yet handed to the caller. -/
def Phase.held : Phase → List Popped
  | .popping _ got | .popCount _ got | .resyncing _ got | .finishing _ got | .reading got => got
  | _ => []

/-- The put in progress, before its record is published. -/
def Phase.pre : Phase → Option PutCall
  | .put call | .putLocked call | .storing call _ _ | .waiting call | .aborting call => some call
  | _ => none

/-- Phases inside a critical section. -/
def Phase.locked : Phase → Bool
  | .putLocked _ | .storing _ _ _ | .counting _ | .putRelease _ | .getLocked _ | .popping _ _
  | .popCount _ _ | .resyncing _ _ | .finishing _ _ => true
  | _ => false

/-- The record stands for this published payload: inline, or through its spill object. -/
inductive Carries (objects : Objects) (entry : PutEntry) : Record → Prop
  | inline : Carries objects entry ⟨kindData, entry.payload⟩
  | spilled (medium : Medium) (name : Bytes)
      (hobject : objects (medium, name) = some ⟨entry.call, entry.payload⟩) :
      Carries objects entry (spillRecord medium name entry.payload.length)

def PutCall.entry (put : PutCall) : PutEntry := ⟨put.call, put.data⟩

/-- What holds of a put until it publishes. -/
structure PutOk (objects : Objects) (put : PutCall) : Prop where
  length : put.data.length < 2 ^ 63
  inline : put.spilled = none → put.mustSpill = false → put.data.length < 2 ^ 32
  spilled : ∀ record, put.spilled = some record →
    Carries objects put.entry record ∧ record.Fits

/-- What the lock holder knows while its process lives. -/
def LockedOk (queue : RingQueue) (objects : Objects) (shared : Shared) : Phase → Prop
  | .putLocked put => (put.mustSpill && put.spilled.isNone) = false
  | .storing put record todo =>
    hasRoom queue shared record = true ∧ Carries objects put.entry record ∧
      (∀ store ∈ todo, store ∈ publishStores queue shared record) ∧
      Published queue.cap (shared.bytes.applyStores todo) shared.tail record
        (nextTail queue shared record)
  | _ => True

/-- The bytes between `head` and `tail` are a chain that carries these payloads. -/
structure RingOk (queue : RingQueue) (objects : Objects) (shared : Shared)
    (unread : List PutEntry) : Prop where
  head_aligned : 8 ∣ shared.head
  tail_aligned : 8 ∣ shared.tail
  head_le_tail : shared.head ≤ shared.tail
  tail_le_cap : shared.tail ≤ shared.head + queue.cap
  chain : ∃ records, Chain queue.cap shared.bytes shared.tail shared.head records ∧
    List.Forall₂ (Carries objects) unread records

/-- What holds of a popped record until its consumer gets the payload. -/
structure HeldOk (state : State) (thread : ℕ) (popped : Popped) : Prop where
  popped_by : state.pops[popped.index]? = some thread
  carries : ∃ entry, state.puts[popped.index]? = some entry ∧ Carries state.objects entry popped.record
  not_returned : popped.index ∉ state.returned.map Delivery.index

/-- What holds of a put that has not published, next to the history so far. -/
structure PreOk (state : State) (put : PutCall) : Prop where
  lt : put.call < state.calls
  new : put.call ∉ state.puts.map PutEntry.call
  ok : PutOk state.objects put

/-- All that the invariant says about one thread in one phase. -/
structure ThreadOk (queue : RingQueue) (pid : ℕ → UInt32) (state : State) (thread : ℕ)
    (phase : Phase) : Prop where
  pre : ∀ put, phase.pre = some put → PreOk state put
  held : ∀ popped ∈ phase.held, HeldOk state thread popped
  held_nodup : (phase.held.map Popped.index).Nodup
  accounted : ∀ index, state.pops[index]? = some thread →
    index ∈ state.returned.map Delivery.index ∨ index ∈ phase.held.map Popped.index
  locked : state.dead (pid thread) = false → phase.locked = true → state.lock = some thread
  locked_ok : state.dead (pid thread) = false → LockedOk queue state.objects state.shared phase

/-- No two threads run the same put call. -/
def PreInj (phases : ℕ → Phase) : Prop :=
  ∀ first second put put', (phases first).pre = some put → (phases second).pre = some put' →
    put.call = put'.call → first = second

structure Inv (queue : RingQueue) (pid : ℕ → UInt32) (state : State) : Prop where
  ring : RingOk queue state.objects state.shared (state.puts.drop state.pops.length)
  pops_le : state.pops.length ≤ state.puts.length
  puts_nodup : (state.puts.map PutEntry.call).Nodup
  puts_lt : ∀ entry ∈ state.puts, entry.call < state.calls
  puts_length : ∀ entry ∈ state.puts, entry.payload.length < 2 ^ 63
  returned_ok : ∀ delivery ∈ state.returned, state.pops[delivery.index]? = some delivery.consumer ∧
    (state.puts[delivery.index]?).map PutEntry.payload = some delivery.payload
  returned_nodup : (state.returned.map Delivery.index).Nodup
  files_fresh : ∀ process n, state.fileSpills process ≤ n →
    state.objects (.disk, Sys.fileSpillName process.toNat n) = none
  pre_inj : PreInj state.phase
  threads : ∀ thread, ThreadOk queue pid state thread (state.phase thread)

variable {queue : RingQueue} {pid : ℕ → UInt32}

/-- An empty ring with nobody in it. -/
theorem inv_start : Inv queue pid .start where
  ring := {
    head_aligned := Nat.dvd_zero 8
    tail_aligned := Nat.dvd_zero 8
    head_le_tail := le_rfl
    tail_le_cap := Nat.zero_le _
    chain := ⟨[], .nil, .nil⟩ }
  pops_le := le_rfl
  puts_nodup := List.nodup_nil
  puts_lt := by simp [State.start]
  puts_length := by simp [State.start]
  returned_ok := by simp [State.start]
  returned_nodup := List.nodup_nil
  files_fresh := by simp [State.start]
  pre_inj := by simp [PreInj, State.start, Phase.pre]
  threads := by
    intro thread
    constructor <;> simp [State.start, Phase.pre, Phase.held, Phase.locked, LockedOk]

/-! ## Frames -/

variable {state next : State} {thread : ℕ} {phase : Phase}

theorem RingOk.congr {objects : Objects} {shared shared' : Shared} {unread : List PutEntry}
    (h : RingOk queue objects shared unread) (hhead : shared'.head = shared.head)
    (htail : shared'.tail = shared.tail) (hbytes : shared'.bytes = shared.bytes) :
    RingOk queue objects shared' unread := by
  cases shared
  cases shared'
  dsimp only at hhead htail hbytes
  subst hhead htail hbytes
  exact ⟨h.head_aligned, h.tail_aligned, h.head_le_tail, h.tail_le_cap, h.chain⟩

theorem LockedOk.congr {objects : Objects} {shared shared' : Shared}
    (h : LockedOk queue objects shared phase) (hhead : shared'.head = shared.head)
    (htail : shared'.tail = shared.tail) (hbytes : shared'.bytes = shared.bytes) :
    LockedOk queue objects shared' phase := by
  cases shared
  cases shared'
  dsimp only at hhead htail hbytes
  subst hhead htail hbytes
  cases phase <;> exact h

/-- Phases outside `storing` do not depend on the ring. -/
theorem LockedOk.of_not_locked {objects : Objects} {shared : Shared} (h : phase.locked = false) :
    LockedOk queue objects shared phase := by
  cases phase <;> trivial

theorem PreInj.update {phases : ℕ → Phase} (h : PreInj phases)
    (halone : ∀ put, phase.pre = some put → ∀ other put', other ≠ thread →
      (phases other).pre = some put' → put'.call ≠ put.call) :
    PreInj (Function.update phases thread phase) := by
  intro first second put put' hput hput' hcall
  by_cases hfirst : first = thread <;> by_cases hsecond : second = thread
  · rw [hfirst, hsecond]
  · subst hfirst
    rw [Function.update_self] at hput
    rw [Function.update_of_ne hsecond] at hput'
    exact absurd hcall.symm (halone put hput second put' hsecond hput')
  · subst hsecond
    rw [Function.update_self] at hput'
    rw [Function.update_of_ne hfirst] at hput
    exact absurd hcall (halone put' hput' first put hfirst hput)
  · rw [Function.update_of_ne hfirst] at hput
    rw [Function.update_of_ne hsecond] at hput'
    exact h first second put put' hput hput' hcall

/-- A thread that keeps its put call keeps it to itself. -/
theorem PreInj.alone {phases : ℕ → Phase} (h : PreInj phases) {old put : PutCall}
    (hold : (phases thread).pre = some old) (hcall : put.call = old.call) :
    ∀ other put', other ≠ thread → (phases other).pre = some put' → put'.call ≠ put.call := by
  intro other put' hne hput' heq
  exact hne (h other thread put' old hput' hold (heq.trans hcall))

/-- While a live thread holds the lock, no other live thread is in a critical section. -/
theorem Inv.not_locked (h : Inv queue pid state) (halive : state.dead (pid thread) = false)
    (hlocked : (state.phase thread).locked = true) {other : ℕ} (hne : other ≠ thread)
    (hother : state.dead (pid other) = false) : (state.phase other).locked = false := by
  by_contra hcontra
  have hmine := (h.threads thread).locked halive hlocked
  have htheirs := (h.threads other).locked hother (by simpa using hcontra)
  rw [hmine, Option.some.injEq] at htheirs
  exact hne htheirs.symm

theorem Inv.not_locked_of_lockable (h : Inv queue pid state) (hlockable : lockable pid state = true)
    {other : ℕ} (hother : state.dead (pid other) = false) : (state.phase other).locked = false := by
  by_contra hcontra
  have hlock := (h.threads other).locked hother (by simpa using hcontra)
  simp [lockable, hlock, hother] at hlockable

/-! ## What a step of one thread leaves to the others -/

/-- The call that wrote an object is neither this thread's put nor that of a record it holds. -/
def Foreign (state : State) (thread : ℕ) (call : ℕ) : Prop :=
  (∀ put, (state.phase thread).pre = some put → call ≠ put.call) ∧
    ∀ popped ∈ (state.phase thread).held, ∀ entry, state.puts[popped.index]? = some entry →
      call ≠ entry.call

/-- A step of `thread`: history grows by its own entries, other calls' objects stay. -/
structure Frame (state next : State) (thread : ℕ) : Prop where
  dead : next.dead = state.dead
  calls : state.calls ≤ next.calls
  puts : ∃ new, next.puts = state.puts ++ new ∧
    ∀ entry ∈ new, ∃ put, (state.phase thread).pre = some put ∧ entry.call = put.call
  pops : ∃ new, next.pops = state.pops ++ new ∧ ∀ owner ∈ new, owner = thread
  returned : ∃ new, next.returned = state.returned ++ new ∧
    ∀ delivery ∈ new, state.pops[delivery.index]? = some thread
  objects : ∀ place object, state.objects place = some object → Foreign state thread object.call →
    next.objects place = some object

theorem Carries.frame {entry : PutEntry} {record : Record} (h : Carries state.objects entry record)
    (hframe : Frame state next thread) (hforeign : Foreign state thread entry.call) :
    Carries next.objects entry record := by
  cases h with
  | inline => exact .inline
  | spilled medium name hobject => exact .spilled medium name (hframe.objects _ _ hobject hforeign)

theorem PutOk.frame {put : PutCall} (h : PutOk state.objects put)
    (hframe : Frame state next thread) (hforeign : Foreign state thread put.call) :
    PutOk next.objects put where
  length := h.length
  inline := h.inline
  spilled record hrecord :=
    ⟨(h.spilled record hrecord).1.frame hframe hforeign, (h.spilled record hrecord).2⟩

theorem LockedOk.frame (h : LockedOk queue state.objects state.shared phase)
    (hframe : Frame state next thread)
    (hforeign : ∀ put, phase.pre = some put → Foreign state thread put.call)
    (hhead : next.shared.head = state.shared.head) (htail : next.shared.tail = state.shared.tail)
    (hbytes : next.shared.bytes = state.shared.bytes) :
    LockedOk queue next.objects next.shared phase := by
  refine LockedOk.congr ?_ hhead htail hbytes
  cases phase with
  | storing put record todo =>
    exact ⟨h.1, h.2.1.frame hframe (hforeign put rfl), h.2.2⟩
  | _ => exact h

theorem getElem?_call_inj {entries : List PutEntry} (h : (entries.map PutEntry.call).Nodup)
    {first second : ℕ} {entry entry' : PutEntry} (hfirst : entries[first]? = some entry)
    (hsecond : entries[second]? = some entry') (hcall : entry.call = entry'.call) : first = second := by
  have hlt : first < (entries.map PutEntry.call).length := by
    rw [List.length_map]
    exact (List.getElem?_eq_some_iff.mp hfirst).1
  apply (List.getElem?_inj hlt h).mp
  rw [List.getElem?_map, List.getElem?_map, hfirst, hsecond]
  simp [hcall]

/-- Another thread's put has written none of this thread's objects. -/
theorem Inv.foreign_pre (h : Inv queue pid state) {other : ℕ} (hne : other ≠ thread) {put : PutCall}
    (hput : (state.phase other).pre = some put) : Foreign state thread put.call := by
  refine ⟨fun mine hmine hcall ↦ hne (h.pre_inj other thread put mine hput hmine hcall), ?_⟩
  intro popped _ entry hentry hcall
  apply ((h.threads other).pre put hput).new
  rw [hcall]
  exact List.mem_map_of_mem (List.mem_of_getElem? hentry)

/-- A published entry that this thread has not popped is foreign to it. -/
theorem Inv.foreign_entry (h : Inv queue pid state) {index : ℕ} {entry : PutEntry}
    (hentry : state.puts[index]? = some entry) (hindex : state.pops[index]? ≠ some thread) :
    Foreign state thread entry.call := by
  constructor
  · intro put hput hcall
    apply ((h.threads thread).pre put hput).new
    rw [← hcall]
    exact List.mem_map_of_mem (List.mem_of_getElem? hentry)
  · intro popped hpopped entry' hentry' hcall
    have heq := getElem?_call_inj h.puts_nodup hentry hentry' hcall
    rw [heq] at hindex
    exact hindex ((h.threads thread).held popped hpopped).popped_by

/-- Nor has the put of an unread record. -/
theorem Inv.foreign_unread (h : Inv queue pid state) {entry : PutEntry}
    (hentry : entry ∈ state.puts.drop state.pops.length) : Foreign state thread entry.call := by
  obtain ⟨offset, hoffset⟩ := List.mem_iff_getElem?.mp hentry
  rw [List.getElem?_drop] at hoffset
  apply h.foreign_entry hoffset
  rw [List.getElem?_eq_none (Nat.le_add_right _ _)]
  nofun

/-- The ring after a step that keeps offsets, bytes and puts, whatever it does to its objects. -/
theorem Inv.ring_frame (h : Inv queue pid state) (hframe : Frame state next thread)
    (hhead : next.shared.head = state.shared.head) (htail : next.shared.tail = state.shared.tail)
    (hbytes : next.shared.bytes = state.shared.bytes) :
    RingOk queue next.objects next.shared (state.puts.drop state.pops.length) := by
  refine RingOk.congr ?_ hhead htail hbytes
  obtain ⟨records, hchain, hcarries⟩ := h.ring.chain
  refine ⟨h.ring.head_aligned, h.ring.tail_aligned, h.ring.head_le_tail, h.ring.tail_le_cap,
    records, hchain, ?_⟩
  have hboth := (List.forall₂_and_left (p := fun entry ↦ Foreign state thread entry.call) _ _).mpr
    ⟨fun entry hentry ↦ h.foreign_unread hentry, hcarries⟩
  exact hboth.imp fun entry record hold ↦ hold.2.frame hframe hold.1

/-- What the invariant says of one thread stands when another moves. -/
theorem ThreadOk.frame (h : Inv queue pid state) (hframe : Frame state next thread) {other : ℕ}
    (hne : other ≠ thread)
    (hlock : state.dead (pid other) = false → (state.phase other).locked = true →
      next.lock = some other ∧ next.shared.head = state.shared.head ∧
        next.shared.tail = state.shared.tail ∧ next.shared.bytes = state.shared.bytes) :
    ThreadOk queue pid next other (state.phase other) := by
  have hold := h.threads other
  obtain ⟨newPuts, hputs, hnewPuts⟩ := hframe.puts
  obtain ⟨newPops, hpops, hnewPops⟩ := hframe.pops
  obtain ⟨newReturned, hreturned, hnewReturned⟩ := hframe.returned
  have hforeign : ∀ put, (state.phase other).pre = some put → Foreign state thread put.call :=
    fun put hput ↦ h.foreign_pre hne hput
  refine ⟨?_, ?_, hold.held_nodup, ?_, ?_, ?_⟩
  · intro put hput
    refine ⟨(hold.pre put hput).lt.trans_le hframe.calls, ?_,
      (hold.pre put hput).ok.frame hframe (hforeign put hput)⟩
    rw [hputs, List.map_append, List.mem_append, not_or]
    refine ⟨(hold.pre put hput).new, fun hmem ↦ ?_⟩
    obtain ⟨entry, hentry, hcall⟩ := List.mem_map.mp hmem
    obtain ⟨mine, hmine, hcall'⟩ := hnewPuts entry hentry
    exact hne (h.pre_inj other thread put mine hput hmine (hcall.symm.trans hcall'))
  · intro popped hpopped
    have hheld := hold.held popped hpopped
    obtain ⟨entry, hentry, hcarries⟩ := hheld.carries
    have hindex : state.pops[popped.index]? ≠ some thread := by
      rw [hheld.popped_by, ne_eq, Option.some.injEq]
      exact hne
    refine ⟨?_, ⟨entry, ?_, hcarries.frame hframe (h.foreign_entry hentry hindex)⟩, ?_⟩
    · rw [hpops, List.getElem?_append_left (List.getElem?_eq_some_iff.mp hheld.popped_by).1]
      exact hheld.popped_by
    · rw [hputs, List.getElem?_append_left (List.getElem?_eq_some_iff.mp hentry).1]
      exact hentry
    · rw [hreturned, List.map_append, List.mem_append, not_or]
      refine ⟨hheld.not_returned, fun hmem ↦ ?_⟩
      obtain ⟨delivery, hdelivery, heq⟩ := List.mem_map.mp hmem
      exact hindex (heq ▸ hnewReturned delivery hdelivery)
  · intro index hindex
    rw [hpops] at hindex
    rw [hreturned, List.map_append, List.mem_append]
    rcases lt_or_ge index state.pops.length with hlt | hge
    · rw [List.getElem?_append_left hlt] at hindex
      exact (hold.accounted index hindex).imp_left Or.inl
    · rw [List.getElem?_append_right hge] at hindex
      exact absurd (hnewPops _ (List.mem_of_getElem? hindex)) hne
  · intro halive hlocked
    rw [hframe.dead] at halive
    exact (hlock halive hlocked).1
  · intro halive
    rw [hframe.dead] at halive
    cases hlocked : (state.phase other).locked with
    | false => exact .of_not_locked hlocked
    | true =>
      obtain ⟨_, hhead, htail, hbytes⟩ := hlock halive hlocked
      exact (hold.locked_ok halive).frame hframe hforeign hhead htail hbytes

end GpuPipe.Ring
