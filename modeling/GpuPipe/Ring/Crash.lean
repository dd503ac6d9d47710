import GpuPipe.Ring.Refinement

/-!
# Crash tolerance of the ring

Any process may die between any two stores of a put or a pop, with the lock in its
hands, and whoever takes the lock over goes on from the stored `head` and `tail`. All
that a death can cost is what the dead consumer had popped, as long as every payload
that rides in the ring has a length its 32-bit header word can hold.
-/

namespace GpuPipe.Ring

variable {queue : RingQueue} {pid : ℕ → UInt32} {state : State}

/-- The payloads calls have returned, listed in the order they were popped. -/
def State.returnedInOrder (state : State) : List Bytes :=
  (List.range state.pops.length).filterMap fun index ↦
    (state.returned.find? fun delivery ↦ delivery.index == index).map Delivery.payload

theorem filterMap_sublist {α β : Type} {first second : α → Option β} {items : List α}
    (h : ∀ item result, first item = some result → second item = some result) :
    (items.filterMap first).Sublist (items.filterMap second) := by
  induction items with
  | nil => exact .slnil
  | cons item rest ih =>
    cases hfirst : first item with
    | some result =>
      rw [List.filterMap_cons_some hfirst, List.filterMap_cons_some (h item result hfirst)]
      exact ih.cons_cons result
    | none =>
      rw [List.filterMap_cons_none hfirst]
      exact ih.trans ((List.sublist_cons_self item rest).filterMap second)

theorem filterMap_getElem? {β : Type} (items : List β) (n : ℕ) :
    ((List.range n).filterMap fun index ↦ items[index]?) = items.take n := by
  induction n with
  | zero => simp
  | succ n ih =>
    rw [List.range_succ, List.filterMap_append, ih, List.take_add_one, List.filterMap_cons]
    cases items[n]? <;> rfl

/-- What is returned comes in the order it was put, with gaps at most. -/
theorem Inv.returnedInOrder_sublist (h : Inv queue pid state) :
    state.returnedInOrder.Sublist (state.puts.map PutEntry.payload) := by
  have htake := filterMap_getElem? (state.puts.map PutEntry.payload) state.pops.length
  refine (filterMap_sublist ?_).trans (htake ▸ List.take_sublist _ _)
  intro index payload hfound
  obtain ⟨delivery, hdelivery, rfl⟩ := Option.map_eq_some_iff.mp hfound
  have hindex : delivery.index = index := by simpa using List.find?_some hdelivery
  have hpayload := (h.returned_ok delivery (List.mem_of_find?_eq_some hdelivery)).2
  rw [List.getElem?_map, ← hindex]
  exact hpayload

/-- What survives any number of deaths. -/
structure CrashTolerant (queue : Header) (pid : ℕ → UInt32) (state : State) : Prop where
  /-- The bytes of `[head, tail)` parse as whole records inside the ring, and these are
  still the payloads published and not popped. -/
  parses : ∃ records, Chain queue.cap state.shared.bytes state.shared.tail state.shared.head records ∧
    records.map (readable state.objects) =
      (state.puts.drop state.pops.length).map fun entry ↦ some entry.payload
  /-- A get reads only inside the ring. -/
  reads_inside : state.shared.head ≠ state.shared.tail →
    ∀ read ∈ popReads queue state.shared, read.1 + read.2 ≤ queue.cap
  in_order : state.returnedInOrder.Sublist (state.puts.map PutEntry.payload)
  /-- Every returned payload belongs to a pop and a put of its own. -/
  once : (state.returned.map Delivery.index).Nodup ∧ (state.puts.map PutEntry.call).Nodup
  from_put : ∀ delivery ∈ state.returned, ∃ entry, state.puts[delivery.index]? = some entry ∧
    entry.payload = delivery.payload ∧ state.pops[delivery.index]? = some delivery.consumer
  /-- A put that has not stored `tail` is not among the puts, dead or alive. -/
  unpublished : ∀ thread put, (state.phase thread).pre = some put →
    put.call ∉ state.puts.map PutEntry.call
  /-- What a pop took is returned, or its consumer, who stored the head past it, still holds
  it: a live one can go on to return it, so only a dead one loses it. -/
  missing : ∀ index entry, state.puts[index]? = some entry → index < state.pops.length →
    (∃ delivery ∈ state.returned, delivery.index = index ∧ delivery.payload = entry.payload) ∨
      ∃ consumer, state.pops[index]? = some consumer ∧ ∃ popped ∈ (state.phase consumer).held,
        popped.index = index ∧ (state.dead (pid consumer) = true ∨
          readable state.objects popped.record = some entry.payload)

theorem Inv.reads_inside (h : Inv queue pid state) (hne : state.shared.head ≠ state.shared.tail) :
    ∀ read ∈ popReads queue state.shared, read.1 + read.2 ≤ queue.cap := by
  obtain ⟨records, hchain, _⟩ := h.ring.chain
  obtain ⟨record, next, rest, rfl, hfirst, _⟩ := hchain.uncons hne
  exact hfirst.popReads

theorem Inv.missing (h : Inv queue pid state) {index : ℕ} {entry : PutEntry}
    (hentry : state.puts[index]? = some entry) (hlt : index < state.pops.length) :
    (∃ delivery ∈ state.returned, delivery.index = index ∧ delivery.payload = entry.payload) ∨
      ∃ consumer, state.pops[index]? = some consumer ∧ ∃ popped ∈ (state.phase consumer).held,
        popped.index = index ∧ readable state.objects popped.record = some entry.payload := by
  have hpop := List.getElem?_eq_getElem hlt
  have htaken : state.fifo.taken[index]? = some (state.pops.get ⟨index, hlt⟩, entry.payload) :=
    taken_getElem?.mpr ⟨hpop, by rw [hentry]; rfl⟩
  rcases h.handed htaken with hreturned | ⟨popped, hpopped, hindex, hread⟩
  · exact .inl ⟨_, hreturned, rfl, rfl⟩
  · exact .inr ⟨_, hpop, popped, hpopped, hindex, hread⟩

/-- All that survives deaths can be read off the invariant. -/
theorem Inv.crashTolerant (h : Inv queue pid state) : CrashTolerant queue pid state where
  parses := by
    obtain ⟨records, hchain, hcarries⟩ := h.ring.chain
    refine ⟨records, hchain, ?_⟩
    rw [map_readable hcarries fun entry hentry ↦ h.puts_length entry (List.mem_of_mem_drop hentry),
      List.map_map]
    rfl
  reads_inside := h.reads_inside
  in_order := h.returnedInOrder_sublist
  once := ⟨h.returned_nodup, h.puts_nodup⟩
  from_put delivery hdelivery := by
    obtain ⟨hpop, hput⟩ := h.returned_ok delivery hdelivery
    obtain ⟨entry, hentry, heq⟩ := Option.map_eq_some_iff.mp hput
    exact ⟨entry, hentry, heq, hpop⟩
  unpublished thread put hput := ((h.threads thread).pre put hput).new
  missing index entry hentry hlt := by
    rcases h.missing hentry hlt with hreturned | ⟨consumer, hpop, popped, hpopped, hindex, hread⟩
    · exact .inl hreturned
    · exact .inr ⟨consumer, hpop, popped, hpopped, hindex, .inr hread⟩

/-- In every ring that lies in its map and every run, with any deaths, whose in-ring payloads are shorter than
2^32 bytes. -/
theorem crash_tolerant_of_ridesWhole (maxsize ringBytes : ℕ) (spillAt : Option ℕ) (creator : Sys.Creator)
    (hmap : hdr + align8 (max ringBytes (64 * 1024)) < 2 ^ 64) (pid : ℕ → UInt32) (state : State)
    (h : ((machine (RingQueue.new maxsize ringBytes spillAt creator) pid).restrict
      (ridesWhole (RingQueue.new maxsize ringBytes spillAt creator))).Reachable state) :
    CrashTolerant (RingQueue.new maxsize ringBytes spillAt creator) pid state :=
  (@inv_of_reachable (.ofNew maxsize ringBytes spillAt creator hmap) _ _ h).crashTolerant

/-- Thread 0 dies with the lock after four bytes of its record; thread 1, of another
process, takes the lock over and finds the ring empty. -/
def deathInPut : List Action :=
  [Action.act 0 (.putBegin [7] .forever false), .act 0 .acquire, .act 0 (.putDecide false)] ++
    List.replicate 4 (Action.act 0 .store) ++
    [Action.die 0, .act 1 (.getBegin ⟨1, false, .nonblocking⟩), .act 1 .acquire, .act 1 (.getCheck true)]

/-- A process dies between two stores of its put. -/
theorem crash_tolerant_deathInPut : ∃ state,
    ((machine smallQueue UInt32.ofNat).restrict (ridesWhole smallQueue)).Reachable state ∧
      state.dead 0 = true ∧ state.puts = [] ∧ CrashTolerant smallQueue UInt32.ofNat state := by
  have hrun : (((machine smallQueue UInt32.ofNat).restrict (ridesWhole smallQueue)).runFrom .start
      deathInPut).map (fun state ↦ (state.dead 0, state.puts)) = some (true, []) := by decide +kernel
  obtain ⟨state, hstate, hends⟩ := Option.map_eq_some_iff.mp hrun
  have hreachable : ((machine smallQueue UInt32.ofNat).restrict (ridesWhole smallQueue)).Reachable state :=
    ⟨deathInPut, hstate⟩
  exact ⟨state, hreachable, (Prod.mk.inj hends).1, (Prod.mk.inj hends).2,
    crash_tolerant_of_ridesWhole 4 65536 none someCreator (by decide) _ state hreachable⟩

/-! ## A payload of 2^32 bytes breaks the chain -/

theorem readHeader_of_zeros {bytes : Memory} {pos n : ℕ} (hn : 8 ≤ n)
    (h : bytes.read pos n = List.replicate n 0) : readHeader bytes pos = (0, 0) := by
  obtain ⟨more, rfl⟩ := Nat.exists_eq_add_of_le hn
  rw [show 8 + more = 4 + (4 + more) by omega, Memory.read_add, Memory.read_add, List.replicate_add,
    List.replicate_add] at h
  have hfirst := List.append_inj h (by simp)
  have hsecond := List.append_inj hfirst.2 (by simp)
  rw [readHeader, hfirst.1, hsecond.1]
  rfl

/-- A payload whose length is a multiple of 2^32 is stored with length word 0, and the
zeros behind that header are no record. -/
theorem truncated_not_chain {n : ℕ} (hmod : n % 2 ^ 32 = 0) (hn : 8 ≤ n) (hspill : n ≤ queue.spillAt) :
    ¬∃ records, Chain queue.cap (publish queue .empty ⟨kindData, List.replicate n 0⟩).bytes
      (publish queue .empty ⟨kindData, List.replicate n 0⟩).tail 0 records := by
  have hcap := cap_pos queue
  have hquarter := queue.spillAt_le
  have hmin := queue.min_le_cap
  have hsize : (⟨kindData, List.replicate n 0⟩ : Record).size ≤ queue.cap := by
    simp only [Record.size, List.length_replicate, recHdr, align8]
    omega
  have hpad : padding queue .empty ⟨kindData, List.replicate n 0⟩ = 0 := by
    rw [padding, if_neg]
    simpa [Shared.empty] using hsize
  have hbytes : (publish queue .empty ⟨kindData, List.replicate n 0⟩).bytes =
      Memory.applyStores (fun _ ↦ 0) (writeRecord 0 ⟨kindData, List.replicate n 0⟩) := by
    simp only [publish, publishStores, hpad, lt_irrefl, if_false]
    rw [show Shared.empty.tail % queue.cap = 0 from Nat.zero_mod _]
    rfl
  have htail : 8 < (publish queue .empty ⟨kindData, List.replicate n 0⟩).tail := by
    simp only [publish, nextTail, Record.size, List.length_replicate, recHdr, align8]
    omega
  generalize (publish queue .empty ⟨kindData, List.replicate n 0⟩).tail = tail at htail
  rw [hbytes]
  have hread := read_record (Memory.read_copy (fun _ ↦ 0) 0 (Record.bytes ⟨kindData, List.replicate n 0⟩))
  change readHeader (Memory.applyStores _ (writeRecord 0 _)) 0 = _ ∧
    (Memory.applyStores _ (writeRecord 0 _)).read (0 + recHdr) _ = _ at hread
  generalize Memory.applyStores (fun _ ↦ 0) (writeRecord 0 ⟨kindData, List.replicate n 0⟩) = bytes at hread
  simp only [List.length_replicate, hmod] at hread
  obtain ⟨hfirst, hpayload⟩ := hread
  have hsecond : readHeader bytes 8 = (0, 0) := readHeader_of_zeros hn hpayload
  rintro ⟨records, hchain⟩
  obtain ⟨record, next, rest, -, hpublished, hrest⟩ := hchain.uncons (by omega)
  have hnext : next = 8 := by
    cases hpublished with
    | direct hrecord =>
      have hlength := hrecord.header
      rw [Nat.zero_mod, hfirst, Prod.mk.injEq] at hlength
      simp [Record.size, ← hlength.1, recHdr, align8]
    | wrapped hpad _ =>
      have hkind := hpad.header
      rw [Nat.zero_mod, hfirst] at hkind
      exact absurd hkind (by decide)
  subst hnext
  have hpos : 8 % queue.cap = 8 := Nat.mod_eq_of_lt (by omega)
  obtain ⟨record', next, rest', -, hpublished', -⟩ := hrest.uncons htail.ne
  cases hpublished' with
  | direct hrecord =>
    have hheader := hrecord.header
    have hkind := hrecord.kind
    rw [hpos, hsecond, Prod.mk.injEq] at hheader
    rw [← hheader.2] at hkind
    revert hkind
    decide
  | wrapped hpad _ =>
    have hkind := hpad.header
    rw [hpos, hsecond] at hkind
    exact absurd hkind (by decide)

/-- One put of such a payload, alone on a fresh ring, reaches the broken chain. -/
theorem truncated_reachable {n : ℕ} (hspill : n ≤ queue.spillAt) (hlength : n < 2 ^ 63) :
    ∃ state, (machine queue pid).Reachable state ∧
      state.shared = publish queue .empty ⟨kindData, List.replicate n 0⟩ := by
  have hquarter := queue.spillAt_le
  have hmin := queue.min_le_cap
  have hroom : hasRoom queue .empty ⟨kindData, List.replicate n 0⟩ = true := by
    rw [hasRoom_iff]
    unfold padding
    simp only [Shared.empty, Nat.zero_mod, Record.size, List.length_replicate, recHdr, align8]
    split <;> omega
  have hslot : hasSlot queue .empty = true := by
    rw [hasSlot, Bool.or_eq_true, beq_iff_eq]
    exact (Nat.eq_zero_or_pos _).imp_right decide_eq_true
  have hbegin : moveStep queue pid .start 0 (.putBegin (List.replicate n 0) .forever false) =
      some (State.goto { State.start with calls := 1 } 0
        (.put ⟨0, List.replicate n 0, .forever, false, false, none, none⟩)) := by
    have hlength' : (List.replicate n (0 : UInt8)).length < 2 ^ 63 := by rwa [List.length_replicate]
    have hfits : decide (queue.spillAt < (List.replicate n (0 : UInt8)).length) = false := by
      rw [List.length_replicate]
      exact decide_eq_false (by omega)
    show (if _ then _ else _) = _
    rw [if_pos hlength', hfits]
    rfl
  have hfirst := Machine.Reachable.refl.tail (step_act rfl hbegin)
  exact ⟨_, hfirst.run (run_publish rfl rfl (goto_phase _ _ _) rfl rfl hslot hroom), rfl⟩

def hugeQueue : RingQueue :=
  .ofNew 0 (2 ^ 34) none someCreator (by decide)

/-- It takes a payload of 2^32 zero bytes into the ring, after which its bytes no longer parse. -/
theorem not_crash_tolerant : ¬∀ (maxsize ringBytes : ℕ) (spillAt : Option ℕ) (creator : Sys.Creator)
    (pid : ℕ → UInt32) (state : State),
    (machine (RingQueue.new maxsize ringBytes spillAt creator) pid).Reachable state →
      CrashTolerant (RingQueue.new maxsize ringBytes spillAt creator) pid state := by
  intro hall
  have hspill : 2 ^ 32 ≤ hugeQueue.spillAt := by decide
  obtain ⟨state, hreachable, hshared⟩ := truncated_reachable hspill (by norm_num)
  obtain ⟨records, hchain, _⟩ := (hall 0 (2 ^ 34) none someCreator (fun _ ↦ 0) state hreachable).parses
  rw [hshared] at hchain
  exact @truncated_not_chain hugeQueue _ (by norm_num) (by norm_num) hspill ⟨records, hchain⟩

end GpuPipe.Ring
