import GpuPipe.Ring.Record

/-!
# Chains of records in the ring

Offsets between `head` and `head + cap` name different positions, so the stores of
a put, which all fall between `tail` and the new tail, leave every unread record
as it is. A completed put extends the chain by its record, and a pop reads the
first record of the chain without leaving the ring.
-/

namespace GpuPipe.Ring

/-! ## Positions -/

theorem add_mod_of_lt {cap offset i : ℕ} (h : offset % cap + i < cap) :
    (offset + i) % cap = offset % cap + i := by
  rw [Nat.add_mod, Nat.mod_eq_of_lt (show i < cap by omega), Nat.mod_eq_of_lt h]

theorem mod_ne_of_window {cap first second : ℕ} (hlt : first < second)
    (hwindow : second < first + cap) : first % cap ≠ second % cap := by
  intro h
  have hdvd := (Nat.modEq_iff_dvd' hlt.le).mp h
  have := Nat.le_of_dvd (by omega) hdvd
  omega

theorem wrap_mod {cap offset : ℕ} (hcap : 0 < cap) : (offset + (cap - offset % cap)) % cap = 0 := by
  have hlt := Nat.mod_lt offset hcap
  have hdiv := Nat.div_add_mod offset cap
  rw [show offset + (cap - offset % cap) = cap * (offset / cap + 1) by rw [Nat.mul_add]; omega]
  exact Nat.mul_mod_right cap _

theorem align8_dvd (n : ℕ) : 8 ∣ align8 n := Nat.dvd_mul_left 8 _

theorem le_align8 (n : ℕ) : n ≤ align8 n := by
  unfold align8
  omega

theorem Record.eight_dvd_size (record : Record) : 8 ∣ record.size :=
  Nat.dvd_add (by decide) (align8_dvd _)

theorem Record.length_bytes (record : Record) :
    record.bytes.length = recHdr + record.payload.length := by
  simp only [Record.bytes, List.length_append, leBytes_length, recHdr]

theorem Record.length_bytes_le_size (record : Record) : record.bytes.length ≤ record.size := by
  rw [record.length_bytes, Record.size]
  exact Nat.add_le_add_left (le_align8 _) _

/-! ## Frame: a chain depends only on the bytes it covers -/

/-- The two memories hold the same bytes at the positions of these offsets. -/
def Agree (cap first last : ℕ) (bytes bytes' : Memory) : Prop :=
  ∀ offset, first ≤ offset → offset < last → bytes (offset % cap) = bytes' (offset % cap)

theorem Agree.mono {cap first last first' last' : ℕ} {bytes bytes' : Memory}
    (h : Agree cap first last bytes bytes') (hfirst : first ≤ first') (hlast : last' ≤ last) :
    Agree cap first' last' bytes bytes' :=
  fun offset hle hlt ↦ h offset (hfirst.trans hle) (hlt.trans_le hlast)

theorem Agree.at {cap offset size i : ℕ} {bytes bytes' : Memory}
    (h : Agree cap offset (offset + size) bytes bytes') (hi : i < size)
    (hinside : offset % cap + size ≤ cap) :
    bytes (offset % cap + i) = bytes' (offset % cap + i) := by
  rw [← add_mod_of_lt (show offset % cap + i < cap by omega)]
  exact h _ (by omega) (by omega)

theorem Agree.read {cap offset size : ℕ} {bytes bytes' : Memory}
    (h : Agree cap offset (offset + size) bytes bytes') (hinside : offset % cap + size ≤ cap)
    (start length : ℕ) (hlength : start + length ≤ size) :
    bytes.read (offset % cap + start) length = bytes'.read (offset % cap + start) length := by
  apply Memory.read_congr
  intro place hle hlt
  have hplace := h.at (i := place - offset % cap) (by omega) hinside
  rwa [show offset % cap + (place - offset % cap) = place by omega] at hplace

/-- Memories that agree on a record have the same header there. -/
theorem Agree.readHeader {cap offset size : ℕ} {bytes bytes' : Memory}
    (h : Agree cap offset (offset + size) bytes bytes') (hinside : offset % cap + size ≤ cap)
    (hsize : recHdr ≤ size) : readHeader bytes (offset % cap) = readHeader bytes' (offset % cap) := by
  unfold recHdr at hsize
  have hlength := h.read hinside 0 4 (by omega)
  have hkind := h.read hinside 4 4 (by omega)
  rw [Nat.add_zero] at hlength
  rw [Ring.readHeader, Ring.readHeader, hlength, hkind]

theorem RecordAt.congr {cap offset : ℕ} {bytes bytes' : Memory} {record : Record}
    (h : RecordAt cap bytes offset record)
    (hagree : Agree cap offset (offset + record.size) bytes bytes') :
    RecordAt cap bytes' offset record where
  kind := h.kind
  inside := h.inside
  header := by
    rw [← hagree.readHeader h.inside (Nat.le_add_right _ _)]
    exact h.header
  payload := by
    rw [← hagree.read h.inside _ _ (Nat.add_le_add_left (le_align8 _) _)]
    exact h.payload

theorem PadAt.congr {cap offset : ℕ} {bytes bytes' : Memory} (h : PadAt cap bytes offset)
    (hagree : Agree cap offset (offset + recHdr) bytes bytes') : PadAt cap bytes' offset where
  inside := h.inside
  header := by
    rw [← hagree.readHeader h.inside le_rfl]
    exact h.header

theorem Published.congr {cap offset next : ℕ} {bytes bytes' : Memory} {record : Record}
    (h : Published cap bytes offset record next) (hagree : Agree cap offset next bytes bytes') :
    Published cap bytes' offset record next := by
  cases h with
  | direct hrecord => exact .direct (hrecord.congr hagree)
  | wrapped hpad hrecord =>
    have hinside := hpad.inside
    refine .wrapped (hpad.congr (hagree.mono le_rfl ?_)) (hrecord.congr (hagree.mono ?_ le_rfl))
    · omega
    · omega

theorem Published.size_le {cap offset next : ℕ} {bytes : Memory} {record : Record}
    (h : Published cap bytes offset record next) : offset + record.size ≤ next := by
  cases h with
  | direct => omega
  | wrapped => omega

theorem Published.lt {cap offset next : ℕ} {bytes : Memory} {record : Record}
    (h : Published cap bytes offset record next) : offset < next := by
  have hsize : 0 < record.size := Nat.lt_of_lt_of_le (show 0 < recHdr by decide) (Nat.le_add_right _ _)
  have hnext := h.size_le
  omega

theorem Chain.le {cap offset tail : ℕ} {bytes : Memory} {records : List Record}
    (h : Chain cap bytes tail offset records) : offset ≤ tail := by
  induction h with
  | nil => exact le_rfl
  | cons hfirst _ ih => exact hfirst.lt.le.trans ih

theorem Chain.eq_nil {cap tail : ℕ} {bytes : Memory} {records : List Record}
    (h : Chain cap bytes tail tail records) : records = [] := by
  cases h with
  | nil => rfl
  | cons hfirst hrest =>
    have := hfirst.lt
    have := hrest.le
    omega

/-- A chain that does not start at its end has a first record. -/
theorem Chain.uncons {cap offset tail : ℕ} {bytes : Memory} {records : List Record}
    (h : Chain cap bytes tail offset records) (hne : offset ≠ tail) :
    ∃ record next rest, records = record :: rest ∧ Published cap bytes offset record next ∧
      Chain cap bytes tail next rest := by
  cases h with
  | nil => exact absurd rfl hne
  | cons hfirst hrest => exact ⟨_, _, _, rfl, hfirst, hrest⟩

/-- A chain depends on the bytes between its ends alone. -/
theorem Chain.congr {cap offset tail : ℕ} {bytes bytes' : Memory} {records : List Record}
    (h : Chain cap bytes tail offset records) (hagree : Agree cap offset tail bytes bytes') :
    Chain cap bytes' tail offset records := by
  induction h with
  | nil => exact .nil
  | cons hfirst hrest ih =>
    exact .cons (hfirst.congr (hagree.mono le_rfl hrest.le)) (ih (hagree.mono hfirst.lt.le le_rfl))

/-- A record published at the end of a chain makes it longer. -/
theorem Chain.snoc {cap offset tail next : ℕ} {bytes : Memory} {records : List Record}
    {record : Record} (h : Chain cap bytes tail offset records)
    (hlast : Published cap bytes tail record next) :
    Chain cap bytes next offset (records ++ [record]) := by
  induction h with
  | nil => exact .cons hlast .nil
  | cons hfirst _ ih => exact .cons hfirst ih

/-- The next header is aligned if this one is. -/
theorem Published.next_aligned {cap offset next : ℕ} {bytes : Memory} {record : Record}
    (h : Published cap bytes offset record next) (hcap : 8 ∣ cap) (hoffset : 8 ∣ offset) : 8 ∣ next := by
  cases h with
  | direct => exact Nat.dvd_add hoffset record.eight_dvd_size
  | wrapped =>
    refine Nat.dvd_add (Nat.dvd_add hoffset ?_) record.eight_dvd_size
    exact Nat.dvd_sub hcap ((Nat.dvd_mod_iff hcap).mpr hoffset)

/-! ## Pops read the first record -/

section Pop

variable {queue : RingQueue} {shared : Shared} {record : Record} {next : ℕ}

/-- A pop of a nonempty chain copies out its first record and moves `head` past it. -/
theorem Published.nextRecord (h : Published queue.cap shared.bytes shared.head record next) :
    nextRecord queue shared = (record, next) := by
  cases h with
  | direct hrecord =>
    have hkind : record.kind ≠ kindPad := by
      rcases hrecord.kind with hkind | hkind | hkind <;> rw [hkind] <;> decide
    simp only [Ring.nextRecord, hrecord.header, hkind, if_false, hrecord.payload, Record.size,
      Nat.add_assoc]
  | wrapped hpad hrecord =>
    have hpos : (shared.head + (queue.cap - shared.head % queue.cap)) % queue.cap = 0 :=
      wrap_mod (Nat.lt_of_lt_of_le (by decide) queue.min_le_cap)
    have hheader := hrecord.header
    have hpayload := hrecord.payload
    rw [hpos] at hheader hpayload
    simp only [Ring.nextRecord, hpad.header, if_true, hheader, hpayload, Record.size, Nat.add_assoc]

/-- Every read of a pop stays inside the ring. -/
theorem Published.popReads (h : Published queue.cap shared.bytes shared.head record next) :
    ∀ read ∈ popReads queue shared, read.1 + read.2 ≤ queue.cap := by
  have hlength := le_align8 record.payload.length
  cases h with
  | direct hrecord =>
    have hkind : record.kind ≠ kindPad := by
      rcases hrecord.kind with hkind | hkind | hkind <;> rw [hkind] <;> decide
    have hinside := hrecord.inside
    simp only [Record.size] at hinside
    simp only [Ring.popReads, hrecord.header, hkind, if_false, List.mem_cons, List.not_mem_nil,
      or_false, forall_eq_or_imp, forall_eq]
    omega
  | wrapped hpad hrecord =>
    have hpos : (shared.head + (queue.cap - shared.head % queue.cap)) % queue.cap = 0 :=
      wrap_mod (Nat.lt_of_lt_of_le (by decide) queue.min_le_cap)
    have hheader := hrecord.header
    have hinside := hrecord.inside
    have hpadInside := hpad.inside
    rw [hpos] at hheader hinside
    simp only [Record.size] at hinside
    simp only [Ring.popReads, hpad.header, if_true, hheader, List.mem_cons, List.not_mem_nil,
      or_false, forall_eq_or_imp, forall_eq]
    omega

end Pop

/-! ## Puts append a record -/

section Put

variable {queue : RingQueue} {shared : Shared} {record : Record}

theorem cap_pos (queue : RingQueue) : 0 < queue.cap :=
  Nat.lt_of_lt_of_le (by decide) queue.min_le_cap

/-- Kinds and payload lengths a record header represents exactly. -/
structure Record.Fits (record : Record) : Prop where
  kind : record.kind = kindData ∨ record.kind = kindSpill ∨ record.kind = kindFile
  length : record.payload.length < 2 ^ 32

/-- The stored words of a record are its header. -/
theorem read_record {bytes : Memory} {pos : ℕ}
    (h : bytes.read pos record.bytes.length = record.bytes) :
    readHeader bytes pos = (record.payload.length % 2 ^ 32, record.kind % 2 ^ 32) ∧
      bytes.read (pos + recHdr) record.payload.length = record.payload := by
  have hlength : record.bytes.length = (4 + 4) + record.payload.length := record.length_bytes
  rw [hlength, Memory.read_add, Memory.read_add, Record.bytes] at h
  have hsplit := List.append_inj h (by simp)
  have hwords := List.append_inj hsplit.1 (by simp)
  refine ⟨?_, hsplit.2⟩
  rw [readHeader, hwords.1, hwords.2, leValue_leBytes, leValue_leBytes]
  norm_num

theorem recordAt_of_read {bytes : Memory} {cap offset : ℕ} (hfits : record.Fits)
    (hinside : offset % cap + record.size ≤ cap)
    (h : bytes.read (offset % cap) record.bytes.length = record.bytes) :
    RecordAt cap bytes offset record where
  kind := hfits.kind
  inside := hinside
  header := by
    have hkind : record.kind < 2 ^ 32 := by
      rcases hfits.kind with hkind | hkind | hkind <;> rw [hkind] <;> decide
    rw [(read_record h).1, Nat.mod_eq_of_lt hfits.length, Nat.mod_eq_of_lt hkind]
  payload := (read_record h).2

theorem eight_le_gap (queue : RingQueue) (htail : 8 ∣ shared.tail) :
    8 ≤ queue.cap - shared.tail % queue.cap := by
  have hpos := Nat.mod_lt shared.tail (cap_pos queue)
  have hdvd : 8 ∣ queue.cap - shared.tail % queue.cap :=
    Nat.dvd_sub queue.eight_dvd_cap ((Nat.dvd_mod_iff queue.eight_dvd_cap).mpr htail)
  exact Nat.le_of_dvd (by omega) hdvd

theorem hasRoom_iff : hasRoom queue shared record = true ↔
    shared.tail - shared.head + padding queue shared record + record.size ≤ queue.cap := by
  simp [hasRoom]

theorem padding_of_pos (h : 0 < padding queue shared record) :
    padding queue shared record = queue.cap - shared.tail % queue.cap := by
  unfold padding at h ⊢
  split
  · rfl
  · rw [if_neg ‹_›] at h
    omega

theorem size_le_gap (h : ¬0 < padding queue shared record) :
    record.size ≤ queue.cap - shared.tail % queue.cap := by
  have hpos := Nat.mod_lt shared.tail (cap_pos queue)
  unfold padding at h
  split at h <;> omega

/-- Where a put writes: only at positions between the old tail and the new one. -/
theorem publishStores_offset (hroom : hasRoom queue shared record = true)
    (htail : 8 ∣ shared.tail) {store : ℕ × UInt8} (h : store ∈ publishStores queue shared record) :
    ∃ offset, shared.tail ≤ offset ∧ offset < nextTail queue shared record ∧
      store.1 = offset % queue.cap := by
  have hcap := cap_pos queue
  have hpos := Nat.mod_lt shared.tail hcap
  have hbytes := record.length_bytes_le_size
  have hroom' := hasRoom_iff.mp hroom
  have hgap := eight_le_gap queue htail
  simp only [nextTail]
  unfold publishStores at h
  split at h
  · have hpad := padding_of_pos ‹0 < padding queue shared record›
    rcases List.mem_append.mp h with h | h
    · have hstore := Memory.copyStores_address h
      rw [Record.length_bytes, List.length_nil, recHdr] at hstore
      refine ⟨shared.tail + (store.1 - shared.tail % queue.cap), by omega, by omega, ?_⟩
      rw [add_mod_of_lt (by omega)]
      omega
    · have hstore := Memory.copyStores_address h
      refine ⟨shared.tail + (queue.cap - shared.tail % queue.cap) + store.1, by omega, by omega, ?_⟩
      rw [Nat.add_mod, wrap_mod hcap, Nat.zero_add, Nat.mod_mod, Nat.mod_eq_of_lt (by omega)]
  · have hfit := size_le_gap ‹¬0 < padding queue shared record›
    have hstore := Memory.copyStores_address h
    refine ⟨shared.tail + (store.1 - shared.tail % queue.cap), by omega, by omega, ?_⟩
    rw [add_mod_of_lt (by omega)]
    omega

/-- No store of a put touches an unread byte. -/
theorem publishStores_agree (hroom : hasRoom queue shared record = true) (htail : 8 ∣ shared.tail)
    (hbounds : shared.head ≤ shared.tail ∧ shared.tail ≤ shared.head + queue.cap)
    (stores : List (ℕ × UInt8)) (hstores : ∀ store ∈ stores, store ∈ publishStores queue shared record)
    (bytes : Memory) : Agree queue.cap shared.head shared.tail bytes (bytes.applyStores stores) := by
  have hroom' := hasRoom_iff.mp hroom
  intro offset hle hlt
  rw [Memory.applyStores_of_notMem]
  intro store hstore
  obtain ⟨written, hfirst, hlast, hwritten⟩ := publishStores_offset hroom htail (hstores store hstore)
  rw [hwritten]
  simp only [nextTail] at hlast
  exact (mod_ne_of_window (by omega) (by omega)).symm

/-- Once all the byte stores are made, the new record follows the chain. -/
theorem published_of_stores (hfits : record.Fits) (hroom : hasRoom queue shared record = true)
    (htail : 8 ∣ shared.tail) (bytes : Memory) :
    Published queue.cap (bytes.applyStores (publishStores queue shared record)) shared.tail record
      (nextTail queue shared record) := by
  have hcap := cap_pos queue
  have hpos := Nat.mod_lt shared.tail hcap
  have hbytes := record.length_bytes_le_size
  have hroom' := hasRoom_iff.mp hroom
  have hgap := eight_le_gap queue htail
  unfold publishStores nextTail
  split
  · have hpad := padding_of_pos ‹0 < padding queue shared record›
    rw [hpad]
    refine .wrapped ⟨by rw [recHdr]; omega, ?_⟩ (recordAt_of_read hfits ?_ ?_)
    · -- The record at position 0 ends before the pad header, so the header survives it.
      have hheader : (Memory.applyStores bytes (writeRecord (shared.tail % queue.cap) ⟨kindPad, []⟩ ++
          writeRecord 0 record)).read (shared.tail % queue.cap) (Record.bytes ⟨kindPad, []⟩).length =
          Record.bytes ⟨kindPad, []⟩ := by
        refine Eq.trans ?_ (Memory.read_copy bytes (shared.tail % queue.cap) (Record.bytes ⟨kindPad, []⟩))
        rw [Memory.applyStores_append]
        apply Memory.read_congr
        intro place hle _
        rw [Memory.applyStores_of_notMem]
        · rfl
        · intro store hstore
          have := Memory.copyStores_address hstore
          omega
      rw [(read_record hheader).1]
      decide
    · rw [wrap_mod hcap]
      omega
    · rw [wrap_mod hcap, Memory.applyStores_append]
      exact Memory.read_copy _ _ _
  · have hfit := size_le_gap ‹¬0 < padding queue shared record›
    have hpad : padding queue shared record = 0 := by omega
    rw [hpad, Nat.add_zero]
    exact .direct (recordAt_of_read hfits (by omega) (Memory.read_copy _ _ _))

end Put

end GpuPipe.Ring
