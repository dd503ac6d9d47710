import GpuPipe.Ring.Invariant

/-!
# Every step keeps the ring invariant

Steps fall into a few kinds: those that touch neither the ring nor the objects, one
byte store, the tail store that publishes a record, the head store that takes one,
reading a popped record outside the lock, and the creation or removal of a spill
object. A death changes nothing but who may still act.
-/

namespace GpuPipe.Ring

variable {queue : RingQueue} {pid : ℕ → UInt32} {state next : State} {thread : ℕ} {phase : Phase}

@[simp] theorem clearPending_head (shared : Shared) (slot : Option ℕ) :
    (clearPending shared slot).head = shared.head := by cases slot <;> rfl

@[simp] theorem clearPending_tail (shared : Shared) (slot : Option ℕ) :
    (clearPending shared slot).tail = shared.tail := by cases slot <;> rfl

@[simp] theorem clearPending_bytes (shared : Shared) (slot : Option ℕ) :
    (clearPending shared slot).bytes = shared.bytes := by cases slot <;> rfl

theorem notePending_ring (shared : Shared) (name : Bytes) :
    (notePending shared name).2.head = shared.head ∧ (notePending shared name).2.tail = shared.tail ∧
      (notePending shared name).2.bytes = shared.bytes := by
  unfold notePending
  split
  · exact ⟨rfl, rfl, rfl⟩
  · split <;> exact ⟨rfl, rfl, rfl⟩

/-! ## Moves that leave ring, history and foreign objects alone -/

/-- Same offsets, bytes and history; objects and file counters may change. -/
structure SameRing (state next : State) : Prop where
  head : next.shared.head = state.shared.head
  tail : next.shared.tail = state.shared.tail
  bytes : next.shared.bytes = state.shared.bytes
  dead : next.dead = state.dead
  puts : next.puts = state.puts
  pops : next.pops = state.pops
  returned : next.returned = state.returned
  calls : state.calls ≤ next.calls

theorem SameRing.frame (h : SameRing state next)
    (hobjects : ∀ place object, state.objects place = some object →
      Foreign state thread object.call → next.objects place = some object) :
    Frame state next thread where
  dead := h.dead
  calls := h.calls
  puts := ⟨[], by simp [h.puts], by simp⟩
  pops := ⟨[], by simp [h.pops], by simp⟩
  returned := ⟨[], by simp [h.returned], by simp⟩
  objects := hobjects

theorem Inv.move (h : Inv queue pid state) (hsame : SameRing state next)
    (hobjects : ∀ place object, state.objects place = some object →
      Foreign state thread object.call → next.objects place = some object)
    (hfiles : ∀ process n, next.fileSpills process ≤ n →
      next.objects (.disk, Sys.fileSpillName process.toNat n) = none)
    (hphase : next.phase = Function.update state.phase thread phase)
    (hself : ThreadOk queue pid next thread phase)
    (halone : ∀ put, phase.pre = some put → ∀ other put', other ≠ thread →
      (state.phase other).pre = some put' → put'.call ≠ put.call)
    (hlock : ∀ other, other ≠ thread → state.dead (pid other) = false →
      (state.phase other).locked = true → next.lock = some other) : Inv queue pid next where
  ring := by
    rw [hsame.puts, hsame.pops]
    exact h.ring_frame (hsame.frame hobjects) hsame.head hsame.tail hsame.bytes
  pops_le := by
    rw [hsame.puts, hsame.pops]
    exact h.pops_le
  puts_nodup := hsame.puts ▸ h.puts_nodup
  puts_lt := by
    rw [hsame.puts]
    exact fun entry hentry ↦ (h.puts_lt entry hentry).trans_le hsame.calls
  puts_length := hsame.puts ▸ h.puts_length
  returned_ok := by
    rw [hsame.returned, hsame.pops, hsame.puts]
    exact h.returned_ok
  returned_nodup := hsame.returned ▸ h.returned_nodup
  files_fresh := hfiles
  pre_inj := hphase ▸ h.pre_inj.update halone
  threads := by
    rw [hphase]
    refine (Function.forall_update_iff _ (ThreadOk queue pid next)).mpr ⟨hself, fun other hne ↦ ?_⟩
    exact ThreadOk.frame h (hsame.frame hobjects) hne fun halive hlocked ↦
      ⟨hlock other hne halive hlocked, hsame.head, hsame.tail, hsame.bytes⟩

/-- A thread with no popped record in hand, before and after. -/
theorem Inv.self_of_put (h : Inv queue pid state) (hsame : SameRing state next)
    (hheld : (state.phase thread).held = []) (hheld' : phase.held = [])
    (hpre : ∀ put, phase.pre = some put → PreOk next put)
    (hlock : phase.locked = true → next.lock = some thread)
    (hok : LockedOk queue next.objects next.shared phase) : ThreadOk queue pid next thread phase where
  pre := hpre
  held := by simp [hheld']
  held_nodup := by simp [hheld']
  accounted := by
    intro index hindex
    rw [hsame.pops] at hindex
    have hold := (h.threads thread).accounted index hindex
    rw [hheld] at hold
    rw [hsame.returned, hheld']
    exact hold
  locked := fun _ ↦ hlock
  locked_ok := fun _ ↦ hok

/-- A move that changes only its own phase, the lock, the item count or the pending table. -/
theorem Inv.quiet (h : Inv queue pid state) (hsame : SameRing state next)
    (hobjects : next.objects = state.objects) (hfiles : next.fileSpills = state.fileSpills)
    (hphase : next.phase = Function.update state.phase thread phase)
    (hheld : phase.held = (state.phase thread).held)
    (hpre : ∀ put, phase.pre = some put → ∃ old, (state.phase thread).pre = some old ∧
      put.call = old.call ∧ PutOk state.objects put)
    (hlock : phase.locked = true → next.lock = some thread)
    (hothers : ∀ other, other ≠ thread → state.dead (pid other) = false →
      (state.phase other).locked = true → next.lock = some other)
    (hok : LockedOk queue state.objects state.shared phase) : Inv queue pid next := by
  have hold := h.threads thread
  refine h.move hsame (fun place object hobject _ ↦ hobjects ▸ hobject)
    (fun process n hn ↦ ?_) hphase ?_ ?_ hothers
  · rw [hobjects]
    exact h.files_fresh process n (hfiles ▸ hn)
  · refine ⟨?_, ?_, hheld ▸ hold.held_nodup, ?_, fun _ ↦ hlock, fun _ ↦ ?_⟩
    · intro put hput
      obtain ⟨old, hpre', hcall, hput'⟩ := hpre put hput
      refine ⟨?_, ?_, hobjects ▸ hput'⟩
      · rw [hcall]
        exact (hold.pre old hpre').lt.trans_le hsame.calls
      · rw [hcall, hsame.puts]
        exact (hold.pre old hpre').new
    · intro popped hpopped
      have hpopped' := hold.held popped (hheld ▸ hpopped)
      refine ⟨hsame.pops ▸ hpopped'.popped_by, ?_, hsame.returned ▸ hpopped'.not_returned⟩
      rw [hsame.puts, hobjects]
      exact hpopped'.carries
    · rw [hsame.pops, hsame.returned, hheld]
      exact hold.accounted
    · rw [hobjects]
      exact hok.congr hsame.head hsame.tail hsame.bytes
  · intro put hput
    obtain ⟨old, hpre', hcall, _⟩ := hpre put hput
    exact h.pre_inj.alone hpre' hcall

theorem Inv.keep_lock (h : Inv queue pid state) (hlock : next.lock = state.lock) :
    ∀ other, other ≠ thread → state.dead (pid other) = false →
      (state.phase other).locked = true → next.lock = some other := by
  intro other _ halive hlocked
  rw [hlock]
  exact (h.threads other).locked halive hlocked

/-- The holder may do as it likes with the lock: no other live thread is inside. -/
theorem Inv.holder (h : Inv queue pid state) (halive : state.dead (pid thread) = false)
    (hlocked : (state.phase thread).locked = true) {lock : Option ℕ} :
    ∀ other, other ≠ thread → state.dead (pid other) = false →
      (state.phase other).locked = true → lock = some other := by
  intro other hne hother hcontra
  rw [h.not_locked halive hlocked hne hother] at hcontra
  cases hcontra

theorem Inv.taker (h : Inv queue pid state) (hlockable : lockable pid state = true)
    {lock : Option ℕ} :
    ∀ other, other ≠ thread → state.dead (pid other) = false →
      (state.phase other).locked = true → lock = some other := by
  intro other _ hother hcontra
  rw [h.not_locked_of_lockable hlockable hother] at hcontra
  cases hcontra

/-! ## Stores of a put -/

theorem padding_dvd {shared : Shared} (htail : 8 ∣ shared.tail) (record : Record) :
    8 ∣ padding queue shared record := by
  unfold padding
  split
  · exact Nat.dvd_sub queue.eight_dvd_cap ((Nat.dvd_mod_iff queue.eight_dvd_cap).mpr htail)
  · exact Nat.dvd_zero 8

/-- One byte of a record: unread bytes stay, and one store fewer remains. -/
theorem Inv.store (h : Inv queue pid state) (halive : state.dead (pid thread) = false)
    {put : PutCall} {record : Record} {address : ℕ} {byte : UInt8} {todo : List (ℕ × UInt8)}
    (hphase : state.phase thread = .storing put record ((address, byte) :: todo)) :
    Inv queue pid (State.goto { state with shared := { state.shared with
      bytes := Function.update state.shared.bytes address byte } } thread (.storing put record todo)) := by
  have hthread := h.threads thread
  have hlocked : (state.phase thread).locked = true := by rw [hphase]; rfl
  rw [hphase] at hthread
  obtain ⟨hroom, hcarries, htodo, hpublished⟩ := hthread.locked_ok halive
  have hframe : Frame state (State.goto { state with shared := { state.shared with
      bytes := Function.update state.shared.bytes address byte } } thread (.storing put record todo))
      thread :=
    ⟨rfl, le_rfl, ⟨[], by simp [State.goto], by simp⟩, ⟨[], by simp [State.goto], by simp⟩,
      ⟨[], by simp [State.goto], by simp⟩, fun _ _ hobject _ ↦ hobject⟩
  obtain ⟨records, hchain, hmatch⟩ := h.ring.chain
  have hagree := publishStores_agree hroom h.ring.tail_aligned
    ⟨h.ring.head_le_tail, h.ring.tail_le_cap⟩ [(address, byte)]
    (by simpa using htodo _ List.mem_cons_self) state.shared.bytes
  refine ⟨⟨h.ring.head_aligned, h.ring.tail_aligned, h.ring.head_le_tail, h.ring.tail_le_cap,
    records, hchain.congr hagree, hmatch⟩, h.pops_le, h.puts_nodup, h.puts_lt, h.puts_length,
    h.returned_ok, h.returned_nodup, h.files_fresh, h.pre_inj.update ?_, ?_⟩
  · intro put' hput'
    exact h.pre_inj.alone (by rw [hphase]; rfl) (by rw [← Option.some.inj hput'])
  · refine (Function.forall_update_iff _ (ThreadOk queue pid _)).mpr ⟨?_, fun other hne ↦ ?_⟩
    · refine ⟨fun put' hput' ↦ ?_, by simp [Phase.held], by simp [Phase.held], hthread.accounted,
        fun halive _ ↦ hthread.locked halive rfl, fun _ ↦ ?_⟩
      · have hold := hthread.pre put' hput'
        exact ⟨hold.lt, hold.new, hold.ok⟩
      · exact ⟨hroom, hcarries, fun store hstore ↦ htodo store (List.mem_cons_of_mem _ hstore), hpublished⟩
    · refine ThreadOk.frame h hframe hne fun hother hcontra ↦ ?_
      rw [h.not_locked halive hlocked hne hother] at hcontra
      cases hcontra

/-- The tail store publishes the record behind the chain. -/
theorem RingOk.publish {objects : Objects} {shared : Shared} {unread : List PutEntry}
    (h : RingOk queue objects shared unread) {record : Record} {entry : PutEntry}
    (hroom : hasRoom queue shared record = true) (hcarries : Carries objects entry record)
    (hpublished : Published queue.cap shared.bytes shared.tail record (nextTail queue shared record)) :
    RingOk queue objects { shared with tail := nextTail queue shared record } (unread ++ [entry]) := by
  have hroom' := hasRoom_iff.mp hroom
  obtain ⟨records, hchain, hmatch⟩ := h.chain
  have hlt := hpublished.lt
  have hle := h.head_le_tail
  refine ⟨h.head_aligned, ?_, ?_, ?_, records ++ [record], hchain.snoc hpublished, ?_⟩
  · exact Nat.dvd_add (Nat.dvd_add h.tail_aligned (padding_dvd h.tail_aligned record))
      record.eight_dvd_size
  · exact hle.trans hlt.le
  · simp only [nextTail]
    omega
  · exact List.rel_append hmatch (.cons hcarries .nil)

/-- The store of `tail` publishes the record that the bytes behind it make. -/
theorem Inv.storeTail (h : Inv queue pid state) (halive : state.dead (pid thread) = false)
    {put : PutCall} {record : Record} (hphase : state.phase thread = .storing put record []) :
    Inv queue pid (State.goto { state with
      shared := { state.shared with tail := nextTail queue state.shared record }
      puts := state.puts ++ [⟨put.call, put.data⟩] } thread (.counting put)) := by
  have hthread := h.threads thread
  have hlocked : (state.phase thread).locked = true := by rw [hphase]; rfl
  have hpre : (state.phase thread).pre = some put := by rw [hphase]; rfl
  obtain ⟨hlt, hnew, hok⟩ := hthread.pre put hpre
  have hframe : Frame state (State.goto { state with
      shared := { state.shared with tail := nextTail queue state.shared record }
      puts := state.puts ++ [⟨put.call, put.data⟩] } thread (.counting put)) thread :=
    ⟨rfl, le_rfl, ⟨[_], rfl, by simp [hpre]⟩, ⟨[], by simp [State.goto], by simp⟩,
      ⟨[], by simp [State.goto], by simp⟩, fun _ _ hobject _ ↦ hobject⟩
  have hlocked_ok := hthread.locked_ok halive
  rw [hphase] at hlocked_ok
  obtain ⟨hroom, hcarries, _, hpublished⟩ := hlocked_ok
  refine ⟨?_, ?_, ?_, ?_, ?_, ?_, h.returned_nodup, h.files_fresh, h.pre_inj.update (by simp [Phase.pre]), ?_⟩
  · have hring := h.ring.publish hroom hcarries hpublished
    simp only [State.goto]
    rw [List.drop_append_of_le_length h.pops_le]
    exact hring
  · simp only [State.goto, List.length_append]
    exact h.pops_le.trans (Nat.le_add_right _ _)
  · simp only [State.goto, List.map_append, List.map_cons, List.map_nil]
    exact h.puts_nodup.append (List.nodup_singleton _) (by simpa using hnew)
  · intro entry hentry
    rcases List.mem_append.mp hentry with hentry | hentry
    · exact h.puts_lt entry hentry
    · rw [List.mem_singleton.mp hentry]
      exact hlt
  · intro entry hentry
    rcases List.mem_append.mp hentry with hentry | hentry
    · exact h.puts_length entry hentry
    · rw [List.mem_singleton.mp hentry]
      exact hok.length
  · intro delivery hdelivery
    obtain ⟨hpopped, hpayload⟩ := h.returned_ok delivery hdelivery
    refine ⟨hpopped, ?_⟩
    obtain ⟨entry, hentry, heq⟩ := Option.map_eq_some_iff.mp hpayload
    simp only [State.goto]
    rw [List.getElem?_append_left (List.getElem?_eq_some_iff.mp hentry).1, hentry, Option.map_some, heq]
  · refine (Function.forall_update_iff _ (ThreadOk queue pid _)).mpr ⟨?_, fun other hne ↦ ?_⟩
    · rw [hphase] at hthread
      exact ⟨by simp [Phase.pre], by simp [Phase.held], by simp [Phase.held], hthread.accounted,
        fun halive _ ↦ hthread.locked halive rfl, fun _ ↦ trivial⟩
    · refine ThreadOk.frame h hframe hne fun hother hcontra ↦ ?_
      rw [h.not_locked halive hlocked hne hother] at hcontra
      cases hcontra

/-! ## Pops -/

/-- The head store takes the oldest record off the chain. -/
theorem RingOk.pop {objects : Objects} {shared : Shared} {unread : List PutEntry}
    (h : RingOk queue objects shared unread) (hne : shared.head ≠ shared.tail) :
    ∃ entry rest, unread = entry :: rest ∧ Carries objects entry (nextRecord queue shared).1 ∧
      RingOk queue objects { shared with head := (nextRecord queue shared).2 } rest := by
  obtain ⟨records, hchain, hmatch⟩ := h.chain
  obtain ⟨record, next, records', rfl, hfirst, hrest⟩ := hchain.uncons hne
  obtain ⟨entry, rest, hcarries, hmatch', rfl⟩ := List.forall₂_cons_right_iff.mp hmatch
  rw [hfirst.nextRecord]
  have hlt := hfirst.lt
  have hcap := h.tail_le_cap
  exact ⟨entry, rest, rfl, hcarries, hfirst.next_aligned queue.eight_dvd_cap h.head_aligned,
    h.tail_aligned, hrest.le, by dsimp only; omega, records', hrest, hmatch'⟩

theorem Inv.held_lt (h : Inv queue pid state) {popped : Popped}
    (hpopped : popped ∈ (state.phase thread).held) : popped.index < state.pops.length :=
  (List.getElem?_eq_some_iff.mp ((h.threads thread).held popped hpopped).popped_by).1

/-- The store of `head` gives the oldest record to its consumer. -/
theorem Inv.pop (h : Inv queue pid state) (halive : state.dead (pid thread) = false)
    {get : GetCall} {got : List Popped} (hphase : state.phase thread = .popping get got)
    (hne : state.shared.head ≠ state.shared.tail) :
    Inv queue pid (State.goto { state with
      shared := { state.shared with head := (nextRecord queue state.shared).2 }
      pops := state.pops ++ [thread] } thread
        (.popCount get (got ++ [⟨state.pops.length, (nextRecord queue state.shared).1⟩]))) := by
  have hthread := h.threads thread
  have hlocked : (state.phase thread).locked = true := by rw [hphase]; rfl
  have hheld : (state.phase thread).held = got := by rw [hphase]; rfl
  obtain ⟨entry, rest, hunread, hcarries, hring⟩ := h.ring.pop hne
  -- where the record was read from no longer matters
  generalize nextRecord queue state.shared = front at hcarries hring ⊢
  obtain ⟨record, head⟩ := front
  have hentry : state.puts[state.pops.length]? = some entry := by
    have hhead := congrArg (fun entries ↦ entries[0]?) hunread
    simpa [List.getElem?_drop] using hhead
  have hlength : state.pops.length < state.puts.length := (List.getElem?_eq_some_iff.mp hentry).1
  have hfresh : state.pops.length ∉ state.returned.map Delivery.index := by
    intro hmem
    obtain ⟨delivery, hdelivery, heq⟩ := List.mem_map.mp hmem
    have hlt := (List.getElem?_eq_some_iff.mp (h.returned_ok delivery hdelivery).1).1
    omega
  have hframe : Frame state (State.goto { state with
      shared := { state.shared with head := head }
      pops := state.pops ++ [thread] } thread (.popCount get (got ++ [⟨state.pops.length, record⟩]))) thread :=
    ⟨rfl, le_rfl, ⟨[], by simp [State.goto], by simp⟩, ⟨[thread], rfl, by simp⟩,
      ⟨[], by simp [State.goto], by simp⟩, fun _ _ hobject _ ↦ hobject⟩
  have hpops {index owner : ℕ} (hindex : state.pops[index]? = some owner) :
      (state.pops ++ [thread])[index]? = some owner := by
    rw [List.getElem?_append_left (List.getElem?_eq_some_iff.mp hindex).1]
    exact hindex
  refine ⟨?_, ?_, h.puts_nodup, h.puts_lt, h.puts_length, ?_, h.returned_nodup, h.files_fresh,
    h.pre_inj.update (by simp [Phase.pre]), ?_⟩
  · simp only [State.goto, List.length_append, List.length_singleton]
    rw [← List.drop_drop, hunread]
    exact hring
  · simp only [State.goto, List.length_append, List.length_singleton]
    exact hlength
  · intro delivery hdelivery
    exact ⟨hpops (h.returned_ok delivery hdelivery).1, (h.returned_ok delivery hdelivery).2⟩
  · refine (Function.forall_update_iff _ (ThreadOk queue pid _)).mpr ⟨?_, fun other hother ↦ ?_⟩
    · refine ⟨by simp [Phase.pre], ?_, ?_, ?_, fun halive _ ↦ hthread.locked halive hlocked, fun _ ↦ trivial⟩
      · intro popped hpopped
        rcases List.mem_append.mp hpopped with hold | hnew
        · have hold' := hthread.held popped (hheld ▸ hold)
          exact ⟨hpops hold'.popped_by, hold'.carries, hold'.not_returned⟩
        · rw [List.mem_singleton.mp hnew]
          exact ⟨by simp [State.goto], ⟨entry, hentry, hcarries⟩, hfresh⟩
      · simp only [Phase.held, List.map_append, List.map_cons, List.map_nil]
        refine (hheld ▸ hthread.held_nodup).append (List.nodup_singleton _) ?_
        simp only [List.disjoint_singleton]
        intro hmem
        obtain ⟨popped, hpopped, heq⟩ := List.mem_map.mp hmem
        have hlt := h.held_lt (hheld ▸ hpopped)
        omega
      · intro index hindex
        simp only [Phase.held, List.map_append, List.mem_append, List.map_cons, List.map_nil,
          List.mem_singleton]
        rcases lt_or_ge index state.pops.length with hlt | hge
        · simp only [State.goto, List.getElem?_append_left hlt] at hindex
          rcases hthread.accounted index hindex with hret | hgot
          · exact .inl hret
          · exact .inr (.inl (hheld ▸ hgot))
        · have hlast := (List.getElem?_eq_some_iff.mp hindex).1
          simp only [State.goto, List.length_append, List.length_singleton] at hlast
          exact .inr (.inr (by omega))
    · refine ThreadOk.frame h hframe hother fun halive' hcontra ↦ ?_
      rw [h.not_locked halive hlocked hother halive'] at hcontra
      cases hcontra

/-! ## Reading a popped record outside the lock -/

theorem place_data (payload : Bytes) : Record.place ⟨kindData, payload⟩ = none := rfl

theorem place_spillRecord (medium : Medium) (name : Bytes) (length : ℕ) :
    (spillRecord medium name length).place = some (medium, name) := by
  have hdrop : (leBytes 8 length ++ name).drop 8 = name := by
    rw [List.drop_append_of_le_length (by simp), List.drop_of_length_le (by simp), List.nil_append]
  cases medium with
  | shm => simp [Record.place, spillRecord, Medium.kind, hdrop]
  | disk => simp [Record.place, spillRecord, Medium.kind, hdrop, kindFile, kindSpill]

/-- A carried record materialises as exactly the payload that was put. -/
theorem materialize_carries {objects : Objects} {entry : PutEntry} {record : Record}
    (h : Carries objects entry record) (hlength : entry.payload.length < 2 ^ 63) :
    materialize objects record = (some entry.payload, discard objects (some record)) := by
  cases h with
  | inline => simp [materialize, discard, place_data]
  | spilled medium name hobject =>
    have htake : leValue ((spillRecord medium name entry.payload.length).payload.take 8) =
        entry.payload.length := by
      simp only [spillRecord]
      rw [List.take_append_of_le_length (by simp), List.take_of_length_le (by simp)]
      exact leValue_leBytes_of_lt (hlength.trans (by norm_num))
    simp [materialize, discard, place_spillRecord, hobject, htake]

/-- Discarding a record removes only the object of its own call. -/
theorem discard_keeps {objects : Objects} {entry : PutEntry} {spilled : Option Record}
    (hcarries : ∀ record, spilled = some record → Carries objects entry record)
    {place : Medium × Bytes} {object : Object} (hobject : objects place = some object)
    (hcall : object.call ≠ entry.call) : discard objects spilled place = some object := by
  cases htarget : spilled.bind Record.place with
  | none => simpa only [discard, htarget] using hobject
  | some target =>
    simp only [discard, htarget]
    obtain ⟨record, hrecord, hplace⟩ := Option.bind_eq_some_iff.mp htarget
    rw [Function.update_of_ne, hobject]
    rintro rfl
    cases hcarries record hrecord with
    | inline => simp [place_data] at hplace
    | spilled medium name hown =>
      rw [place_spillRecord, Option.some.injEq] at hplace
      rw [hplace, hobject, Option.some.injEq] at hown
      exact hcall (by rw [hown])

/-- Records of other calls survive a discard. -/
theorem Carries.discard {objects : Objects} {entry entry' : PutEntry} {record : Record}
    {spilled : Option Record} (h : Carries objects entry' record)
    (hcarries : ∀ record, spilled = some record → Carries objects entry record)
    (hcall : entry'.call ≠ entry.call) : Carries (discard objects spilled) entry' record := by
  cases h with
  | inline => exact .inline
  | spilled medium name hobject => exact .spilled medium name (discard_keeps hcarries hobject hcall)

theorem discard_none {objects : Objects} {place : Medium × Bytes} (h : objects place = none)
    (spilled : Option Record) : discard objects spilled place = none := by
  cases htarget : spilled.bind Record.place with
  | none => simpa only [discard, htarget] using h
  | some target =>
    simp only [discard, htarget]
    rcases eq_or_ne place target with rfl | hne
    · simp
    · rw [Function.update_of_ne hne, h]

/-- A record that is read back leaves its consumer's hand, and its object goes. -/
theorem Inv.materialize (h : Inv queue pid state) {popped : Popped} {rest : List Popped}
    (hphase : state.phase thread = .reading (popped :: rest)) :
    Inv queue pid (materializeNext state thread popped rest) := by
  have hthread := h.threads thread
  have hheld : (state.phase thread).held = popped :: rest := by rw [hphase]; rfl
  have hmem : popped ∈ (state.phase thread).held := by rw [hheld]; exact List.mem_cons_self
  have hpopped := hthread.held popped hmem
  obtain ⟨entry, hentry, hcarries⟩ := hpopped.carries
  have hresult := materialize_carries hcarries (h.puts_length entry (List.mem_of_getElem? hentry))
  unfold materializeNext
  rw [hresult]
  dsimp only
  have hnodup : (popped.index :: rest.map Popped.index).Nodup := by
    have hnodup := hthread.held_nodup
    rwa [hheld] at hnodup
  have hphase' : (if rest.isEmpty then Phase.idle else .reading rest).held = rest := by
    cases rest <;> rfl
  have hpre' : (if rest.isEmpty then Phase.idle else .reading rest).pre = none := by
    cases rest <;> rfl
  have hlocked' : (if rest.isEmpty then Phase.idle else .reading rest).locked = false := by
    cases rest <;> rfl
  generalize (if rest.isEmpty then Phase.idle else .reading rest) = after at hphase' hpre' hlocked'
  have hkeeps : ∀ place object, state.objects place = some object →
      Foreign state thread object.call → discard state.objects (some popped.record) place = some object :=
    fun place object hobject hforeign ↦ discard_keeps
      (fun record hrecord ↦ Option.some.inj hrecord ▸ hcarries) hobject (hforeign.2 popped hmem entry hentry)
  have hframe : Frame state (State.goto { state with
      objects := discard state.objects (some popped.record)
      returned := state.returned ++ [⟨popped.index, thread, entry.payload⟩] } thread after) thread :=
    ⟨rfl, le_rfl, ⟨[], by simp [State.goto], by simp⟩, ⟨[], by simp [State.goto], by simp⟩,
      ⟨[_], rfl, by simpa using hpopped.popped_by⟩, hkeeps⟩
  refine ⟨h.ring_frame hframe rfl rfl rfl, h.pops_le, h.puts_nodup, h.puts_lt, h.puts_length, ?_, ?_,
    fun process n hn ↦ discard_none (h.files_fresh process n hn) _,
    h.pre_inj.update (by simp [hpre']), ?_⟩
  · intro delivery hdelivery
    rcases List.mem_append.mp hdelivery with hold | hnew
    · exact h.returned_ok delivery hold
    · rw [List.mem_singleton.mp hnew]
      exact ⟨hpopped.popped_by, by simp [State.goto, hentry]⟩
  · simp only [State.goto, List.map_append, List.map_cons, List.map_nil]
    exact h.returned_nodup.append (List.nodup_singleton _) (by simpa using hpopped.not_returned)
  · refine (Function.forall_update_iff _ (ThreadOk queue pid _)).mpr ⟨?_, fun other hother ↦ ?_⟩
    · refine ⟨by simp [hpre'], ?_, ?_, ?_, by simp [hlocked'], fun _ ↦ .of_not_locked hlocked'⟩
      · intro other hrest
        rw [hphase'] at hrest
        have hother := hthread.held other (by rw [hheld]; exact List.mem_cons_of_mem _ hrest)
        have hindex : other.index ≠ popped.index := by
          intro heq
          exact (List.nodup_cons.mp hnodup).1 (heq ▸ List.mem_map_of_mem hrest)
        obtain ⟨entry', hentry', hcarries'⟩ := hother.carries
        refine ⟨hother.popped_by, ⟨entry', hentry', ?_⟩, ?_⟩
        · refine hcarries'.discard (fun record hrecord ↦ Option.some.inj hrecord ▸ hcarries) fun hcall ↦ ?_
          exact hindex (getElem?_call_inj h.puts_nodup hentry' hentry hcall)
        · simp only [State.goto, List.map_append, List.map_cons, List.map_nil, List.mem_append,
            List.mem_singleton, not_or]
          exact ⟨hother.not_returned, hindex⟩
      · rw [hphase']
        exact (List.nodup_cons.mp hnodup).2
      · intro index hindex
        rw [hphase']
        simp only [State.goto, List.map_append, List.map_cons, List.map_nil, List.mem_append,
          List.mem_singleton]
        rcases hthread.accounted index hindex with hret | hgot
        · exact .inl (.inl hret)
        · rw [hheld, List.map_cons, List.mem_cons] at hgot
          exact hgot.imp_left Or.inr
    · exact ThreadOk.frame h hframe hother fun halive hlocked ↦
        ⟨(h.threads other).locked halive hlocked, rfl, rfl, rfl⟩

/-! ## Spill objects come and go -/

/-- A thread at the top of `put` creates one object where there was none. -/
theorem Inv.create (h : Inv queue pid state) {put : PutCall} (hput : state.phase thread = .put put)
    {place : Medium × Bytes} {object : Object} (hfresh : state.objects place = none)
    (hsame : SameRing state next)
    (hobjects : next.objects = Function.update state.objects place (some object))
    (hfiles : ∀ process n, next.fileSpills process ≤ n → state.fileSpills process ≤ n ∧
      place ≠ (.disk, Sys.fileSpillName process.toNat n))
    (hphase : next.phase = Function.update state.phase thread phase) (hlock : next.lock = state.lock)
    (hheld : phase.held = []) (hlocked : phase.locked = false)
    (hpre : ∀ put', phase.pre = some put' → put'.call = put.call ∧ PutOk next.objects put') :
    Inv queue pid next := by
  have hold : (state.phase thread).pre = some put := by rw [hput]; rfl
  have hother {place' : Medium × Bytes} {object' : Object} (hobject : state.objects place' = some object') :
      next.objects place' = some object' := by
    rw [hobjects, Function.update_of_ne, hobject]
    rintro rfl
    rw [hfresh] at hobject
    cases hobject
  refine h.move hsame (fun _ _ hobject _ ↦ hother hobject) ?_ hphase ?_ ?_ (h.keep_lock hlock)
  · intro process n hn
    obtain ⟨hle, hne⟩ := hfiles process n hn
    rw [hobjects, Function.update_of_ne hne.symm]
    exact h.files_fresh process n hle
  · refine h.self_of_put hsame (by rw [hput]; rfl) hheld ?_ (by simp [hlocked]) (.of_not_locked hlocked)
    intro put' hput'
    obtain ⟨hcall, hok⟩ := hpre put' hput'
    have hold' := (h.threads thread).pre put hold
    exact ⟨hcall ▸ hold'.lt.trans_le hsame.calls, hcall ▸ hsame.puts ▸ hold'.new, hok⟩
  · intro put' hput'
    exact h.pre_inj.alone hold (hpre put' hput').1

/-- The name of the file a process writes next is beyond all names it has used. -/
theorem Inv.file_fresh (h : Inv queue pid state) (process : UInt32) :
    state.objects (.disk, Sys.fileSpillName process.toNat (state.fileSpills process)) = none :=
  h.files_fresh process _ le_rfl

theorem files_beyond (state : State) (owner process : UInt32) (n : ℕ)
    (h : Function.update state.fileSpills owner (state.fileSpills owner + 1) process ≤ n) :
    state.fileSpills process ≤ n ∧ ((.disk, Sys.fileSpillName owner.toNat (state.fileSpills owner)) :
      Medium × Bytes) ≠ (.disk, Sys.fileSpillName process.toNat n) := by
  rcases eq_or_ne process owner with rfl | hne
  · rw [Function.update_self] at h
    refine ⟨by omega, fun heq ↦ ?_⟩
    have := (Sys.fileSpillName_inj (Prod.mk.inj heq).2).2
    omega
  · rw [Function.update_of_ne hne] at h
    refine ⟨h, fun heq ↦ hne ?_⟩
    exact UInt32.toNat_inj.mp (Sys.fileSpillName_inj (Prod.mk.inj heq).2).1.symm

theorem spillRecord_fits {medium : Medium} {name : Bytes} (length : ℕ) (h : name.length ≤ 77) :
    (spillRecord medium name length).Fits where
  kind := by cases medium <;> simp [spillRecord, Medium.kind]
  length := by
    simp only [spillRecord, List.length_append, leBytes_length]
    omega

theorem PutOk.spill {objects : Objects} {put : PutCall} (h : PutOk objects put) {medium : Medium}
    {name : Bytes} (hname : name.length ≤ 77) :
    PutOk (Function.update objects (medium, name) (some ⟨put.call, put.data⟩))
      { put with spilled := some (spillRecord medium name put.data.length) } where
  length := h.length
  inline := nofun
  spilled record hrecord := by
    cases hrecord
    exact ⟨.spilled medium name (by simp [PutCall.entry]), spillRecord_fits _ hname⟩

theorem PutOk.unspilled {objects objects' : Objects} {put : PutCall} (h : PutOk objects put)
    (hnone : put.spilled = none) : PutOk objects' put where
  length := h.length
  inline := h.inline
  spilled record hrecord := by
    rw [hnone] at hrecord
    cases hrecord

theorem Inv.leaveFile (h : Inv queue pid state) {put : PutCall} (hput : state.phase thread = .put put)
    (hnone : put.spilled = none) (left : Option Bytes) :
    Inv queue pid (leaveFile pid state thread put left) := by
  cases left with
  | none => exact h
  | some bytes =>
    have hok := ((h.threads thread).pre put (by rw [hput]; rfl)).ok
    have hphase : (Ring.leaveFile pid state thread put (some bytes)).phase =
        Function.update state.phase thread (.put put) := by
      rw [← hput, Function.update_eq_self]
      rfl
    refine h.create hput (h.file_fresh (pid thread)) ⟨rfl, rfl, rfl, rfl, rfl, rfl, rfl, le_rfl⟩ rfl
      (files_beyond state (pid thread)) hphase rfl rfl rfl ?_
    rintro put' ⟨⟩
    exact ⟨rfl, hok.unspilled hnone⟩

theorem leaveFile_phase (put : PutCall) (left : Option Bytes) :
    (leaveFile pid state thread put left).phase = state.phase := by
  cases left <;> rfl

/-- A thread gives up its put outside the critical section. -/
theorem Inv.giveUp (h : Inv queue pid state) {put : PutCall} (hput : state.phase thread = .put put)
    (putReturns : List (ℕ × Bool)) :
    Inv queue pid (State.goto { state with putReturns := putReturns } thread .idle) :=
  h.quiet ⟨rfl, rfl, rfl, rfl, rfl, rfl, rfl, le_rfl⟩ rfl rfl rfl
    (by rw [hput]; rfl) nofun nofun (h.keep_lock rfl) trivial

/-- A spill gives the put an object of its own, or leaves it as it was. -/
theorem Inv.spill (h : Inv queue pid state) {put : PutCall} (hput : state.phase thread = .put put)
    (hnone : put.spilled = none) {result : SpillResult}
    (hnext : spill queue pid state thread put result = some next) : Inv queue pid next := by
  have hok := ((h.threads thread).pre put (by rw [hput]; rfl)).ok
  cases result with
  | shm =>
    simp only [Ring.spill, Option.ite_none_left_eq_some, Bool.or_eq_true, not_or, Bool.not_eq_true,
      Option.isSome_eq_false_iff, Option.isNone_iff_eq_none, decide_eq_false_iff_not, not_le,
      Option.some.injEq] at hnext
    obtain ⟨⟨⟨_, hfresh⟩, hcounter⟩, rfl⟩ := hnext
    refine h.create hput hfresh ⟨rfl, rfl, rfl, rfl, rfl, rfl, rfl, le_rfl⟩ rfl
      (fun process n hn ↦ ⟨hn, nofun⟩) rfl rfl rfl rfl ?_
    rintro put' ⟨⟩
    refine ⟨rfl, hok.spill ?_⟩
    have hname : (Sys.spillObjectName queue.name _ _).length ≤ _ :=
      Sys.spillObjectName_length_le (pid thread).toNat_lt hcounter
    have := queue.name_length_le
    omega
  | file =>
    simp only [Ring.spill, Option.ite_none_left_eq_some, not_le, Option.some.injEq] at hnext
    obtain ⟨hcounter, rfl⟩ := hnext
    refine h.create hput (h.file_fresh (pid thread)) ⟨rfl, rfl, rfl, rfl, rfl, rfl, rfl, le_rfl⟩ rfl
      (files_beyond state (pid thread)) rfl rfl rfl rfl ?_
    rintro put' ⟨⟩
    refine ⟨rfl, hok.spill ?_⟩
    have hname := Sys.fileSpillName_length_le (pid thread).toNat_lt hcounter
    omega
  | noSpace left clock =>
    have hleft := h.leaveFile hput hnone left
    have hput' : (Ring.leaveFile pid state thread put left).phase thread = .put put := by
      rw [leaveFile_phase, hput]
    simp only [Ring.spill] at hnext
    split at hnext
    · cases hnext
      exact hleft.giveUp hput' _
    · cases hnext
      rw [State.goto, ← hput', Function.update_eq_self]
      exact hleft
  | failed left =>
    have hput' : (Ring.leaveFile pid state thread put left).phase thread = .put put := by
      rw [leaveFile_phase, hput]
    cases hnext
    exact (h.leaveFile hput hnone left).giveUp hput' _

/-- A put that ends without publishing removes its own object. -/
theorem Inv.abandon (h : Inv queue pid state) {put : PutCall} (hpre : (state.phase thread).pre = some put)
    (hheld : (state.phase thread).held = []) (hsame : SameRing state next)
    (hobjects : next.objects = discard state.objects put.spilled)
    (hfiles : next.fileSpills = state.fileSpills)
    (hphase : next.phase = Function.update state.phase thread .idle)
    (hothers : ∀ other, other ≠ thread → state.dead (pid other) = false →
      (state.phase other).locked = true → next.lock = some other) : Inv queue pid next := by
  have hok := ((h.threads thread).pre put hpre).ok
  refine h.move hsame ?_ ?_ hphase (h.self_of_put hsame hheld rfl nofun nofun trivial) nofun hothers
  · intro place object hobject hforeign
    rw [hobjects]
    have hcarries : ∀ record, put.spilled = some record → Carries state.objects put.entry record :=
      fun record hrecord ↦ (hok.spilled record hrecord).1
    exact discard_keeps hcarries hobject (hforeign.1 put hpre)
  · intro process n hn
    rw [hobjects]
    exact discard_none (h.files_fresh process n (hfiles ▸ hn)) _

/-! ## The critical section of a put -/

theorem PutOk.record {objects : Objects} {put : PutCall} (h : PutOk objects put)
    (hspill : (put.mustSpill && put.spilled.isNone) = false) :
    Carries objects put.entry put.record ∧ put.record.Fits := by
  cases hspilled : put.spilled with
  | none =>
    have hmust : put.mustSpill = false := by simpa [hspilled] using hspill
    simp only [PutCall.record, hspilled, Option.getD_none]
    exact ⟨.inline, .inl rfl, h.inline hspilled hmust⟩
  | some record =>
    simp only [PutCall.record, hspilled, Option.getD_some]
    exact h.spilled record hspilled

/-- The phases a put moves through while nothing of it is published. -/
theorem Inv.putDecide (h : Inv queue pid state) (halive : state.dead (pid thread) = false)
    {put : PutCall} (hput : state.phase thread = .putLocked put) (clock : Bool) :
    Inv queue pid (putDecide queue state thread put clock) := by
  have hthread := h.threads thread
  have hlocked : (state.phase thread).locked = true := by rw [hput]; rfl
  have hpre : (state.phase thread).pre = some put := by rw [hput]; rfl
  have hheld : (state.phase thread).held = [] := by rw [hput]; rfl
  have hok := (hthread.pre put hpre).ok
  have hspill : (put.mustSpill && put.spilled.isNone) = false := by
    have hlocked_ok := hthread.locked_ok halive
    rwa [hput] at hlocked_ok
  have hkeep (mustSpill : Bool) (pending : Option ℕ) (hmust : mustSpill = false → put.mustSpill = false) :
      PutOk state.objects { put with mustSpill := mustSpill, pending := pending } :=
    ⟨hok.length, fun hspilled hfalse ↦ hok.inline hspilled (hmust hfalse), hok.spilled⟩
  unfold Ring.putDecide
  dsimp only
  split
  · rename_i hroom
    obtain ⟨hcarries, hfits⟩ := hok.record hspill
    rw [Bool.and_eq_true] at hroom
    refine h.quiet ⟨rfl, rfl, rfl, rfl, rfl, rfl, rfl, le_rfl⟩ rfl rfl rfl hheld.symm ?_
      (fun _ ↦ hthread.locked halive hlocked) (h.holder halive hlocked)
      ⟨hroom.2, hcarries, fun _ hstore ↦ hstore, published_of_stores hfits hroom.2 h.ring.tail_aligned _⟩
    rintro put' ⟨⟩
    exact ⟨put, hpre, rfl, hok⟩
  · split
    · refine h.quiet ⟨rfl, rfl, rfl, rfl, rfl, rfl, rfl, le_rfl⟩ rfl rfl rfl hheld.symm ?_ nofun
        (h.holder halive hlocked) trivial
      rintro put' ⟨⟩
      exact ⟨put, hpre, rfl, hkeep true put.pending nofun⟩
    · split
      · exact h.abandon hpre hheld ⟨clearPending_head _ _, clearPending_tail _ _, clearPending_bytes _ _,
          rfl, rfl, rfl, rfl, le_rfl⟩ rfl rfl rfl (h.holder halive hlocked)
      · have hwait (shared : Shared) (pending : Option ℕ) (hhead : shared.head = state.shared.head)
            (htail : shared.tail = state.shared.tail) (hbytes : shared.bytes = state.shared.bytes) :
            Inv queue pid (State.goto { state with shared := shared, lock := none } thread
              (.waiting { put with pending := pending })) := by
          refine h.quiet ⟨hhead, htail, hbytes, rfl, rfl, rfl, rfl, le_rfl⟩ rfl rfl rfl hheld.symm ?_ nofun
            (h.holder halive hlocked) trivial
          rintro put' ⟨⟩
          exact ⟨put, hpre, rfl, hkeep put.mustSpill pending id⟩
        split
        · rename_i record _ _
          split
          · obtain ⟨hhead, htail, hbytes⟩ := notePending_ring state.shared (record.payload.drop 8)
            exact hwait _ _ hhead htail hbytes
          · exact hwait _ put.pending rfl rfl rfl
        · exact hwait _ put.pending rfl rfl rfl

/-! ## Whole steps -/

/-- A payload that does not spill by size has a length its record header can hold. Without
this, a ring of 2^34 bytes takes a payload of 2^32 bytes and truncates its length word. -/
def ridesWhole (queue : Header) (_ : State) : Action → Bool
  | .act _ (.putBegin data _ _) => queue.spillAt < data.length || data.length < 2 ^ 32
  | _ => true

def noDeath (_ : State) : Action → Bool
  | .die _ => false
  | _ => true

theorem ridesWhole_of_spillAt (h : queue.spillAt < 2 ^ 32) (state : State) (action : Action) :
    ridesWhole queue state action = true := by
  unfold ridesWhole
  split
  · simp only [Bool.or_eq_true, decide_eq_true_eq]
    omega
  · rfl

theorem Inv.putBegin (h : Inv queue pid state) (hidle : state.phase thread = .idle) {data : Bytes}
    (hlength : data.length < 2 ^ 63) (hrides : queue.spillAt < data.length ∨ data.length < 2 ^ 32)
    (deadline : Deadline) (disk : Bool) :
    Inv queue pid (State.goto { state with calls := state.calls + 1 } thread
      (.put ⟨state.calls, data, deadline, disk, queue.spillAt < data.length, none, none⟩)) := by
  have hsame : SameRing state (State.goto { state with calls := state.calls + 1 } thread
      (.put ⟨state.calls, data, deadline, disk, queue.spillAt < data.length, none, none⟩)) :=
    ⟨rfl, rfl, rfl, rfl, rfl, rfl, rfl, Nat.le_succ _⟩
  refine h.move hsame (fun _ _ hobject _ ↦ hobject) h.files_fresh rfl ?_ ?_ (h.keep_lock rfl)
  · refine h.self_of_put hsame (by rw [hidle]; rfl) rfl ?_ nofun trivial
    rintro put ⟨⟩
    refine ⟨Nat.lt_succ_self _, fun hmem ↦ ?_, hlength, fun _ hfalse ↦ ?_, nofun⟩
    · obtain ⟨entry, hentry, hcall⟩ := List.mem_map.mp hmem
      exact (h.puts_lt entry hentry).ne hcall
    · simp only [decide_eq_false_iff_not] at hfalse
      exact hrides.resolve_left hfalse
  · rintro put ⟨⟩ other put' _ hput'
    exact ((h.threads other).pre put' hput').lt.ne

/-- A critical section entered by `get` changes nothing until it pops. -/
theorem Inv.taken (h : Inv queue pid state) (hphase : (state.phase thread).locked = true)
    (halive : state.dead (pid thread) = false) (hsame : SameRing state next) (hobjects : next.objects = state.objects)
    (hfiles : next.fileSpills = state.fileSpills)
    (hnext : next.phase = Function.update state.phase thread phase)
    (hheld : phase.held = (state.phase thread).held) (hpre' : phase.pre = none)
    (hlock : phase.locked = true → next.lock = state.lock) : Inv queue pid next := by
  refine h.quiet hsame hobjects hfiles hnext hheld (by simp [hpre']) ?_ (h.holder halive hphase) ?_
  · intro hlocked
    rw [hlock hlocked]
    exact (h.threads thread).locked halive hphase
  · cases phase with
    | putLocked | storing => cases hpre'
    | _ => trivial

/-- Every move of a live thread keeps the invariant. -/
theorem Inv.moveStep (h : Inv queue pid state) (halive : state.dead (pid thread) = false) {move : Move}
    (hrides : ridesWhole queue state (.act thread move) = true)
    (hnext : moveStep queue pid state thread move = some next) : Inv queue pid next := by
  cases moveStep_cases hnext with
  | putBegin data deadline disk hphase hlength =>
    simp only [ridesWhole, Bool.or_eq_true, decide_eq_true_eq] at hrides
    exact h.putBegin hphase hlength hrides deadline disk
  | spill put result hphase hmust hunspilled hspill => exact h.spill hphase hunspilled hspill
  | acquirePut put hphase hready hlockable =>
    have hpre : (state.phase thread).pre = some put := by rw [hphase]; rfl
    refine h.quiet ⟨rfl, rfl, rfl, rfl, rfl, rfl, rfl, le_rfl⟩ rfl rfl rfl (by rw [hphase]; rfl) ?_
      (fun _ ↦ rfl) (h.taker hlockable) hready
    rintro put' ⟨⟩
    exact ⟨put, hpre, rfl, ((h.threads thread).pre put hpre).ok⟩
  | acquireGet get hphase hlockable =>
    exact h.quiet ⟨rfl, rfl, rfl, rfl, rfl, rfl, rfl, le_rfl⟩ rfl rfl rfl (by rw [hphase]; rfl)
      (by intros; contradiction)
      (fun _ ↦ rfl) (h.taker hlockable) trivial
  | putDecide put clock hphase => exact h.putDecide halive hphase clock
  | store put record address byte todo hphase => exact h.store halive hphase
  | storeTail put record hphase => exact h.storeTail halive hphase
  | putDone put hphase =>
    exact h.taken (by rw [hphase]; rfl) halive
      ⟨clearPending_head _ _, clearPending_tail _ _, clearPending_bytes _ _, rfl, rfl, rfl, rfl, le_rfl⟩
      rfl rfl rfl (by rw [hphase]; rfl) rfl (by intros; contradiction)
  | interrupted put hphase | wake put hphase =>
    have hpre : (state.phase thread).pre = some put := by rw [hphase]; rfl
    refine h.quiet ⟨rfl, rfl, rfl, rfl, rfl, rfl, rfl, le_rfl⟩ rfl rfl rfl (by rw [hphase]; rfl) ?_
      (by intros; contradiction) (h.keep_lock rfl) (.of_not_locked rfl)
    rintro put' ⟨⟩
    exact ⟨put, hpre, rfl, ((h.threads thread).pre put hpre).ok⟩
  | putAbort put hphase hlockable =>
    have hpre : (state.phase thread).pre = some put := by rw [hphase]; rfl
    exact h.abandon hpre (by rw [hphase]; rfl)
      ⟨clearPending_head _ _, clearPending_tail _ _, clearPending_bytes _ _, rfl, rfl, rfl, rfl, le_rfl⟩
      rfl rfl rfl (h.taker hlockable)
  | getBegin get hphase =>
    exact h.quiet ⟨rfl, rfl, rfl, rfl, rfl, rfl, rfl, le_rfl⟩ rfl rfl rfl (by rw [hphase]; rfl)
      (by intros; contradiction)
      (by intros; contradiction) (h.keep_lock rfl) trivial
  | getExpired get clock hphase | getAgain get clock hphase | finishRead get popped rest hphase
    | finishMany get hphase | finishAgain get hphase =>
    exact h.taken (by rw [hphase]; rfl) halive ⟨rfl, rfl, rfl, rfl, rfl, rfl, rfl, le_rfl⟩ rfl rfl rfl
      (by rw [hphase]; rfl) rfl (by intros; contradiction)
  | pop get got hphase hne => exact h.pop halive hphase hne
  | addCount put hphase | getItems get clock hphase | popEnough get got hphase | popEmpty get got hphase
    | storeCount get got hphase | resync get got hphase =>
    exact h.taken (by rw [hphase]; rfl) halive
      ⟨rfl, rfl, rfl, rfl, rfl, rfl, rfl, le_rfl⟩ rfl rfl rfl (by rw [hphase]; rfl) rfl fun _ ↦ rfl
  | materialize popped rest hphase => exact h.materialize hphase

/-- A death only takes obligations away. -/
theorem Inv.die (h : Inv queue pid state) (process : UInt32) :
    Inv queue pid { state with dead := Function.update state.dead process true } := by
  refine ⟨h.ring, h.pops_le, h.puts_nodup, h.puts_lt, h.puts_length, h.returned_ok, h.returned_nodup,
    h.files_fresh, h.pre_inj, fun thread ↦ ?_⟩
  have hthread := h.threads thread
  have halive (hafter : Function.update state.dead process true (pid thread) = false) :
      state.dead (pid thread) = false := by
    rcases eq_or_ne (pid thread) process with heq | hne
    · simp [heq] at hafter
    · rwa [Function.update_of_ne hne] at hafter
  exact ⟨fun put hput ↦ ⟨(hthread.pre put hput).lt, (hthread.pre put hput).new, (hthread.pre put hput).ok⟩,
    fun popped hpopped ↦ ⟨(hthread.held popped hpopped).popped_by, (hthread.held popped hpopped).carries,
      (hthread.held popped hpopped).not_returned⟩,
    hthread.held_nodup, hthread.accounted, fun hafter ↦ hthread.locked (halive hafter),
    fun hafter ↦ hthread.locked_ok (halive hafter)⟩

/-- So does every step, deaths included. -/
theorem Inv.step (h : Inv queue pid state) {action : Action}
    (hrides : ridesWhole queue state action = true)
    (hnext : step queue pid state action = some next) : Inv queue pid next := by
  cases action with
  | act thread move =>
    simp only [Ring.step, Option.ite_none_left_eq_some, Bool.not_eq_true] at hnext
    exact h.moveStep hnext.1 hrides hnext.2
  | die process =>
    cases hnext
    exact h.die process

/-- The invariant holds in every state of every run whose payloads ride whole. -/
theorem inv_of_reachable (h : ((machine queue pid).restrict (ridesWhole queue)).Reachable state) :
    Inv queue pid state := by
  refine h.invariant (Inv queue pid) inv_start ?_
  intro state action next hinv hstep
  obtain ⟨hrides, hnext⟩ := Machine.restrict_step hstep
  exact hinv.step hrides hnext

end GpuPipe.Ring
