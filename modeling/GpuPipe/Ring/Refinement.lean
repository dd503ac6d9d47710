import GpuPipe.Library.Fifo
import GpuPipe.Ring.Solo

/-!
# The ring refines a FIFO of byte strings

The abstract queue takes a put when `tail` is stored and a take when `head` is stored.
What a consumer holds after a pop, and what it later hands to its caller, is the payload
the abstract queue gave it, whether the payload rode in the ring or through a spill object.
-/

namespace GpuPipe.Ring

variable {queue : RingQueue} {pid : ℕ → UInt32} {state next : State} {thread : ℕ} {action : Action}

/-! ## What one step does to the history and to the bytes -/

/-- Nothing, one put behind the others, or one pop. -/
inductive HistoryStep (state next : State) : Prop
  | same (hputs : next.puts = state.puts) (hpops : next.pops = state.pops)
  | put (entry : PutEntry) (hputs : next.puts = state.puts ++ [entry]) (hpops : next.pops = state.pops)
  | pop (consumer : ℕ) (hputs : next.puts = state.puts) (hpops : next.pops = state.pops ++ [consumer])

/-- A spill leaves the ring, the lock and the history alone; the thread goes on with its put or returns. -/
structure SpillFrame (state next : State) (thread : ℕ) : Prop where
  shared : next.shared = state.shared
  lock : next.lock = state.lock
  puts : next.puts = state.puts
  pops : next.pops = state.pops
  dead : next.dead = state.dead
  phase : next.phase = Function.update state.phase thread .idle ∨
    ∃ put, next.phase = Function.update state.phase thread (.put put)

theorem spill_frame {put : PutCall} {result : SpillResult}
    (h : spill queue pid state thread put result = some next) : SpillFrame state next thread := by
  cases result with
  | shm =>
    simp only [spill, Option.ite_none_left_eq_some, Option.some.injEq] at h
    obtain ⟨_, rfl⟩ := h
    exact ⟨rfl, rfl, rfl, rfl, rfl, .inr ⟨_, rfl⟩⟩
  | file =>
    simp only [spill, Option.ite_none_left_eq_some, Option.some.injEq] at h
    obtain ⟨_, rfl⟩ := h
    exact ⟨rfl, rfl, rfl, rfl, rfl, .inr ⟨_, rfl⟩⟩
  | noSpace left clock =>
    simp only [spill] at h
    split at h <;> cases h <;> cases left
    · exact ⟨rfl, rfl, rfl, rfl, rfl, .inl rfl⟩
    · exact ⟨rfl, rfl, rfl, rfl, rfl, .inl rfl⟩
    · exact ⟨rfl, rfl, rfl, rfl, rfl, .inr ⟨_, rfl⟩⟩
    · exact ⟨rfl, rfl, rfl, rfl, rfl, .inr ⟨_, rfl⟩⟩
  | failed left =>
    cases h
    cases left <;> exact ⟨rfl, rfl, rfl, rfl, rfl, .inl rfl⟩

theorem putDecide_history (put : PutCall) (clock : Bool) :
    (putDecide queue state thread put clock).puts = state.puts ∧
      (putDecide queue state thread put clock).pops = state.pops ∧
        (putDecide queue state thread put clock).shared.bytes = state.shared.bytes := by
  unfold putDecide
  dsimp only
  split
  · exact ⟨rfl, rfl, rfl⟩
  · split
    · exact ⟨rfl, rfl, rfl⟩
    · split
      · exact ⟨rfl, rfl, clearPending_bytes _ _⟩
      · split
        · split
          · exact ⟨rfl, rfl, (notePending_ring _ _).2.2⟩
          · exact ⟨rfl, rfl, rfl⟩
        · exact ⟨rfl, rfl, rfl⟩

theorem materializeNext_history (popped : Popped) (rest : List Popped) :
    (materializeNext state thread popped rest).puts = state.puts ∧
      (materializeNext state thread popped rest).pops = state.pops ∧
        (materializeNext state thread popped rest).shared = state.shared := by
  unfold materializeNext
  split <;> exact ⟨rfl, rfl, rfl⟩

/-- A move puts one payload at the end, pops the oldest one, or leaves the history as it is. -/
theorem moveStep_history {move : Move} (h : moveStep queue pid state thread move = some next) :
    HistoryStep state next := by
  cases moveStep_cases h with
  | spill put result hphase hmust hunspilled hspill =>
    exact .same (spill_frame hspill).puts (spill_frame hspill).pops
  | putDecide put clock hphase => exact .same (putDecide_history put clock).1 (putDecide_history put clock).2.1
  | storeTail put record hphase => exact .put _ rfl rfl
  | pop get got hphase hne => exact .pop thread rfl rfl
  | materialize popped rest hphase =>
    exact .same (materializeNext_history popped rest).1 (materializeNext_history popped rest).2.1
  | _ => exact .same rfl rfl

theorem step_history (h : step queue pid state action = some next) : HistoryStep state next := by
  cases action with
  | act thread move =>
    simp only [step, Option.ite_none_left_eq_some] at h
    exact moveStep_history h.2
  | die process =>
    cases h
    exact .same rfl rfl

/-- Only the byte stores of a put write into the ring. -/
theorem moveStep_bytes {move : Move} (h : moveStep queue pid state thread move = some next) :
    next.shared.bytes = state.shared.bytes ∨
      ∃ put record address byte todo, state.phase thread = .storing put record ((address, byte) :: todo) ∧
        next.shared.bytes = Function.update state.shared.bytes address byte := by
  cases moveStep_cases h with
  | spill put result hphase hmust hunspilled hspill => exact .inl (by rw [(spill_frame hspill).shared])
  | putDecide put clock hphase => exact .inl (putDecide_history put clock).2.2
  | store put record address byte todo hphase => exact .inr ⟨put, record, address, byte, todo, hphase, rfl⟩
  | putDone put hphase | putAbort put hphase => exact .inl (clearPending_bytes _ _)
  | materialize popped rest hphase => exact .inl (by rw [(materializeNext_history popped rest).2.2])
  | _ => exact .inl rfl

/-- No step changes a byte of an unread record. -/
theorem Inv.unread_bytes (hinv : Inv queue pid state) (h : Ring.step queue pid state action = some next) :
    Agree queue.cap state.shared.head state.shared.tail state.shared.bytes next.shared.bytes := by
  cases action with
  | die process =>
    cases h
    exact fun _ _ _ ↦ rfl
  | act thread move =>
    simp only [Ring.step, Option.ite_none_left_eq_some, Bool.not_eq_true] at h
    obtain ⟨halive, hnext⟩ := h
    rcases moveStep_bytes hnext with hsame | ⟨put, record, address, byte, todo, hphase, hbytes⟩
    · rw [hsame]
      exact fun _ _ _ ↦ rfl
    · have hlocked := (hinv.threads thread).locked_ok halive
      rw [hphase] at hlocked
      obtain ⟨hroom, _, htodo, _⟩ := hlocked
      rw [hbytes]
      exact publishStores_agree hroom hinv.ring.tail_aligned
        ⟨hinv.ring.head_le_tail, hinv.ring.tail_le_cap⟩ [(address, byte)]
        (by simpa using htodo _ List.mem_cons_self) state.shared.bytes

/-! ## The abstract queue -/

/-- The FIFO that the stores of `tail` and `head` so far have driven. -/
def State.fifo (state : State) : Fifo Bytes ℕ :=
  .ofHistory (state.puts.map PutEntry.payload) state.pops

/-- The payload a consumer gets from a record, if reading it succeeds. -/
def readable (objects : Objects) (record : Record) : Option Bytes := (materialize objects record).1

theorem Carries.readable {objects : Objects} {entry : PutEntry} {record : Record}
    (h : Carries objects entry record) (hlength : entry.payload.length < 2 ^ 63) :
    Ring.readable objects record = some entry.payload := by
  rw [Ring.readable, materialize_carries h hlength]

/-- A step of the ring is at most one step of the FIFO. -/
theorem Inv.fifo_step (hinv : Inv queue pid state) (hnext : Inv queue pid next)
    (h : HistoryStep state next) :
    ∃ actions, (Fifo.machine Bytes ℕ).runFrom state.fifo actions = some next.fifo := by
  cases h with
  | same hputs hpops =>
    refine ⟨[], ?_⟩
    rw [State.fifo, State.fifo, hputs, hpops]
    rfl
  | put entry hputs hpops =>
    refine ⟨[.put entry.payload], ?_⟩
    have hle : state.pops.length ≤ (state.puts.map PutEntry.payload).length := by
      simpa using hinv.pops_le
    have hstep := Fifo.step_put hle entry.payload
    rw [State.fifo, State.fifo, hputs, hpops, List.map_append, List.map_singleton, ← hstep]
    simp [Fifo.machine]
  | pop consumer hputs hpops =>
    refine ⟨[.take consumer], ?_⟩
    have hlt : state.pops.length < (state.puts.map PutEntry.payload).length := by
      have hle := hnext.pops_le
      rw [hputs, hpops, List.length_append, List.length_singleton] at hle
      simpa using hle
    have hstep := Fifo.step_take (List.getElem?_eq_getElem hlt) consumer
    rw [State.fifo, State.fifo, hputs, hpops, ← hstep]
    simp [Fifo.machine]

theorem map_readable {objects : Objects} {entries : List PutEntry} {records : List Record}
    (h : List.Forall₂ (Carries objects) entries records)
    (hlength : ∀ entry ∈ entries, entry.payload.length < 2 ^ 63) :
    records.map (readable objects) = (entries.map PutEntry.payload).map some := by
  induction h with
  | nil => rfl
  | cons hfirst _ ih =>
    simp only [List.mem_cons, forall_eq_or_imp] at hlength
    simp only [List.map_cons, hfirst.readable hlength.1, ih hlength.2]

/-- The unread bytes decode, record by record, to the payloads that wait in the FIFO. -/
theorem Inv.decodes (h : Inv queue pid state) :
    ∃ records, Chain queue.cap state.shared.bytes state.shared.tail state.shared.head records ∧
      records.map (readable state.objects) = state.fifo.waiting.map some := by
  obtain ⟨records, hchain, hcarries⟩ := h.ring.chain
  refine ⟨records, hchain, ?_⟩
  rw [map_readable hcarries fun entry hentry ↦ h.puts_length entry (List.mem_of_mem_drop hentry)]
  rw [List.map_drop]
  rfl

theorem taken_getElem? {index consumer : ℕ} {payload : Bytes} :
    state.fifo.taken[index]? = some (consumer, payload) ↔ state.pops[index]? = some consumer ∧
      (state.puts[index]?).map PutEntry.payload = some payload := by
  simp [State.fifo, Fifo.ofHistory, List.getElem?_zip_eq_some]

/-- A popped payload has been handed to its consumer, or the consumer holds its record. -/
theorem Inv.handed (h : Inv queue pid state) {index consumer : ℕ} {payload : Bytes}
    (htaken : state.fifo.taken[index]? = some (consumer, payload)) :
    ⟨index, consumer, payload⟩ ∈ state.returned ∨ ∃ popped ∈ (state.phase consumer).held,
      popped.index = index ∧ readable state.objects popped.record = some payload := by
  obtain ⟨hpop, hput⟩ := taken_getElem?.mp htaken
  rcases (h.threads consumer).accounted index hpop with hreturned | hheld
  · obtain ⟨delivery, hdelivery, rfl⟩ := List.mem_map.mp hreturned
    obtain ⟨hconsumer, hpayload⟩ := h.returned_ok delivery hdelivery
    rw [hpop, Option.some.injEq] at hconsumer
    rw [hput, Option.some.injEq] at hpayload
    rw [hconsumer, hpayload]
    exact .inl hdelivery
  · obtain ⟨popped, hpopped, rfl⟩ := List.mem_map.mp hheld
    obtain ⟨entry, hentry, hcarries⟩ := ((h.threads consumer).held popped hpopped).carries
    have hread := hcarries.readable (h.puts_length entry (List.mem_of_getElem? hentry))
    rw [hentry, Option.map_some, Option.some.injEq] at hput
    exact .inr ⟨popped, hpopped, rfl, hput ▸ hread⟩

/-- The ring in this state is a FIFO of byte strings. -/
structure RefinesFifo (queue : Header) (pid : ℕ → UInt32) (state : State) : Prop where
  /-- The puts and pops so far are a run of the abstract queue. -/
  reachable : (Fifo.machine Bytes ℕ).Reachable state.fifo
  head_le_tail : state.shared.head ≤ state.shared.tail
  tail_le_cap : state.shared.tail ≤ state.shared.head + queue.cap
  decodes : ∃ records, Chain queue.cap state.shared.bytes state.shared.tail state.shared.head records ∧
    records.map (readable state.objects) = state.fifo.waiting.map some
  unread_kept : ∀ action next, step queue pid state action = some next →
    Agree queue.cap state.shared.head state.shared.tail state.shared.bytes next.shared.bytes
  /-- What a consumer's call returned is what the abstract queue gave that consumer. -/
  delivered : ∀ delivery ∈ state.returned,
    state.fifo.taken[delivery.index]? = some (delivery.consumer, delivery.payload)
  once : (state.returned.map Delivery.index).Nodup
  handed : ∀ index consumer payload, state.fifo.taken[index]? = some (consumer, payload) →
    ⟨index, consumer, payload⟩ ∈ state.returned ∨ ∃ popped ∈ (state.phase consumer).held,
      popped.index = index ∧ readable state.objects popped.record = some payload

/-- The FIFO follows every run of the ring. -/
theorem fifo_reachable (h : ((machine queue pid).restrict (ridesWhole queue)).Reachable state) :
    (Fifo.machine Bytes ℕ).Reachable state.fifo := by
  have hrelated : ∃ model, (Fifo.machine Bytes ℕ).Reachable model ∧
      Inv queue pid state ∧ model = state.fifo := by
    refine h.simulation (fun state model ↦ Inv queue pid state ∧ model = state.fifo) ?_ ?_
    · exact ⟨inv_start, rfl⟩
    · rintro state action next model ⟨hinv, rfl⟩ hstep
      obtain ⟨hrides, hnext⟩ := Machine.restrict_step hstep
      have hinv' := hinv.step hrides hnext
      obtain ⟨actions, hrun⟩ := hinv.fifo_step hinv' (step_history hnext)
      exact ⟨actions, next.fifo, hrun, hinv', rfl⟩
  obtain ⟨model, hmodel, -, rfl⟩ := hrelated
  exact hmodel

/-- While nobody dies, the ring is a FIFO whose waiting items can be read back from its bytes. -/
theorem refinesFifo_of_reachable (hspill : queue.spillAt < 2 ^ 32)
    (h : ((machine queue pid).restrict noDeath).Reachable state) : RefinesFifo queue pid state := by
  have hrides : ((machine queue pid).restrict (ridesWhole queue)).Reachable state :=
    h.restrict_mono fun state action _ ↦ ridesWhole_of_spillAt hspill state action
  have hinv := inv_of_reachable hrides
  exact {
    reachable := fifo_reachable hrides
    head_le_tail := hinv.ring.head_le_tail
    tail_le_cap := hinv.ring.tail_le_cap
    decodes := hinv.decodes
    unread_kept := fun _ _ hstep ↦ hinv.unread_bytes hstep
    delivered := fun delivery hdelivery ↦ taken_getElem?.mpr (hinv.returned_ok delivery hdelivery)
    once := hinv.returned_nodup
    handed := fun _ _ _ htaken ↦ hinv.handed htaken }

/-- Every interleaving of puts and gets without deaths refines the FIFO, in every ring that lies in its map. -/
theorem ring_refines_fifo (maxsize ringBytes : ℕ) (spillAt : Option ℕ) (creator : Sys.Creator)
    (hmap : hdr + align8 (max ringBytes (64 * 1024)) < 2 ^ 64)
    (hspill : (RingQueue.new maxsize ringBytes spillAt creator).spillAt < 2 ^ 32) (pid : ℕ → UInt32)
    (state : State)
    (h : ((machine (RingQueue.new maxsize ringBytes spillAt creator) pid).restrict noDeath).Reachable state) :
    RefinesFifo (RingQueue.new maxsize ringBytes spillAt creator) pid state :=
  @refinesFifo_of_reachable (.ofNew maxsize ringBytes spillAt creator hmap) _ _ hspill h

def someCreator : Sys.Creator := ⟨0, 0, 0, 0, Sys.zero_lt_word, Sys.zero_lt_half, Sys.zero_lt_word⟩

theorem small_lt_word : hdr + align8 (max 65536 (64 * 1024)) < 2 ^ 64 := by decide

def smallQueue : RingQueue := .ofNew 4 65536 none someCreator small_lt_word

/-- The longest payload of this byte that rides in the small ring. -/
def quarter (byte : UInt8) : Bytes := List.replicate 16384 byte

theorem quarter_size (byte : UInt8) : (⟨kindData, quarter byte⟩ : Record).size = 16392 := by
  simp only [Record.size, quarter, List.length_replicate, recHdr, align8]

theorem quarter_padding {shared : Shared} {tail : ℕ} (byte : UInt8) (htail : shared.tail = tail) :
    padding smallQueue shared ⟨kindData, quarter byte⟩ =
      if 65536 - tail % 65536 < 16392 then 65536 - tail % 65536 else 0 := by
  rw [padding, quarter_size, htail]
  rfl

/-- A get before any spill takes a long payload out of the ring. -/
theorem Got.quarter {next : State} {entry : PutEntry} {record : Record} (h : Got state next thread entry record)
    (hnone : state.objects = fun _ ↦ none) {call : ℕ} {byte : UInt8}
    (hentry : state.puts[state.pops.length]? = some ⟨call, quarter byte⟩) :
    entry = ⟨call, Ring.quarter byte⟩ ∧ next.objects = (fun _ ↦ none) ∧
      state.shared.head + 16392 ≤ next.shared.head := by
  obtain rfl : entry = ⟨call, Ring.quarter byte⟩ := Option.some.inj (h.oldest.symm.trans hentry)
  have hrecord : record = ⟨kindData, Ring.quarter byte⟩ := by
    cases h.carries with
    | inline => rfl
    | spilled medium name hobject =>
      rw [hnone] at hobject
      cases hobject
  have hhead := h.head
  rw [hrecord, quarter_size] at hhead
  refine ⟨rfl, ?_, hhead⟩
  rw [h.objects, hrecord, ← hnone]
  rfl

theorem Got.returned_map {next : State} {entry oldest : PutEntry} {record : Record}
    (h : Got state next thread entry record) (hentry : state.puts[state.pops.length]? = some oldest) :
    next.returned.map Delivery.payload = state.returned.map Delivery.payload ++ [oldest.payload] := by
  obtain rfl := Option.some.inj (h.oldest.symm.trans hentry)
  rw [h.returned, List.map_append]
  rfl

/-- Three long payloads go into the ring and two come out; between these gets a fourth goes round the end of
the ring, and a fifth, a byte longer, spills. The gets after them return the rest. -/
theorem ring_refines_fifo_roundTrip : ∃ state,
    ((machine smallQueue fun _ ↦ 0).restrict noDeath).Reachable state ∧
      state.returned.map Delivery.payload =
        [quarter 1, quarter 2, quarter 3, quarter 4, 5 :: quarter 5] ∧
      65536 < state.shared.tail ∧ state.spills 0 = 1 ∧ RefinesFifo smallQueue (fun _ ↦ 0) state := by
  have hspill : smallQueue.spillAt < 2 ^ 32 := by decide
  have hcap : smallQueue.cap = 65536 := by decide
  have hsecond := (@rests_start smallQueue fun _ ↦ 0).put 0 (quarter 1)
    (by decide +kernel) (by decide +kernel) (by decide) (by decide +kernel)
  have hthird := hsecond.put 0 (quarter 2)
    (by decide +kernel) (by decide +kernel) (by decide) (by decide +kernel)
  have hfull := hthird.put 0 (quarter 3)
    (by decide +kernel) (by decide +kernel) (by decide) (by decide +kernel)
  obtain ⟨one, entry₁, record₁, hone, hgot₁⟩ := hfull.get hspill 1 (by decide)
  have holdest₁ : [(⟨0, quarter 1⟩ : PutEntry), ⟨1, quarter 2⟩, ⟨2, quarter 3⟩][0]? = some ⟨0, quarter 1⟩ := rfl
  obtain ⟨-, hobjects₁, hhead₁⟩ := hgot₁.quarter rfl holdest₁
  have htail₁ : one.shared.tail = 49176 := hgot₁.tail.trans (by decide +kernel)
  have hcount₁ : one.shared.count = 2 := hgot₁.count.trans (by decide +kernel)
  have hputs₁ : one.puts = [⟨0, quarter 1⟩, ⟨1, quarter 2⟩, ⟨2, quarter 3⟩] := hgot₁.puts
  have hpops₁ : one.pops = [1] := hgot₁.pops
  have hreturned₁ := hgot₁.returned_map holdest₁
  have hspills₁ : one.spills 0 = 0 := congrFun hgot₁.spills 0
  replace hhead₁ : 0 + 16392 ≤ one.shared.head := hhead₁
  -- the fourth payload no longer fits behind the third
  have hpadding : padding smallQueue one.shared ⟨kindData, quarter 4⟩ = 16360 :=
    (quarter_padding 4 htail₁).trans (by decide)
  have hwrapped := hone.put 0 (quarter 4)
    (by decide +kernel) (by decide +kernel) (by rw [hasSlot, hcount₁]; decide) (by
      rw [hasRoom_iff, hpadding, quarter_size, htail₁, hcap]
      omega)
  have holdest₂ : (one.puts ++ [⟨one.calls, quarter 4⟩])[one.pops.length]? = some ⟨1, quarter 2⟩ := by
    rw [hputs₁, hpops₁]
    rfl
  obtain ⟨two, entry₂, record₂, htwo, hgot₂⟩ := hwrapped.get hspill 1 (List.getElem?_eq_some_iff.mp holdest₂).1
  obtain ⟨-, hobjects₂, hhead₂⟩ := hgot₂.quarter hobjects₁ holdest₂
  have htail₂ : two.shared.tail = 81928 := by
    rw [hgot₂.tail]
    show nextTail _ _ _ = _
    rw [nextTail, hpadding, quarter_size, htail₁]
  have hcount₂ : two.shared.count = 2 := hgot₂.count.trans (congrArg (· + 1 - 1) hcount₁)
  have hputs₂ : two.puts = one.puts ++ [⟨one.calls, quarter 4⟩] := hgot₂.puts
  have hpops₂ : two.pops = one.pops ++ [1] := hgot₂.pops
  have hreturned₂ := hgot₂.returned_map holdest₂
  have hspills₂ : two.spills 0 = 0 := (congrFun hgot₂.spills 0).trans hspills₁
  simp only [publish] at hhead₂
  rw [hputs₁] at hputs₂
  rw [hpops₁] at hpops₂
  -- the fifth is too long for the ring
  have hsize : (spillRecord .shm (Sys.spillObjectName smallQueue.name 0 0) (5 :: quarter 5).length).size ≤ 16392 := by
    decide +kernel
  have hspilled := htwo.spill 0 (5 :: quarter 5) (by decide +kernel) (by decide +kernel)
    (congrArg (Sys.spillObjectName smallQueue.name 0) hspills₂) (congrFun hobjects₂ _)
    (by rw [hspills₂]; decide) (by rw [hasSlot, hcount₂]; decide) (by
      rw [hasRoom_iff, padding, htail₂, hcap]
      split <;> omega)
  have holdest₃ : (two.puts ++ [⟨two.calls, 5 :: quarter 5⟩])[two.pops.length]? = some ⟨2, quarter 3⟩ := by
    rw [hputs₂, hpops₂]
    rfl
  obtain ⟨three, entry₃, record₃, hthree, hgot₃⟩ :=
    hspilled.get hspill 1 (List.getElem?_eq_some_iff.mp holdest₃).1
  have holdest₄ : three.puts[three.pops.length]? = some ⟨one.calls, quarter 4⟩ := by
    rw [hgot₃.puts, hgot₃.pops]
    show (two.puts ++ _)[(two.pops ++ [1]).length]? = _
    rw [hputs₂, hpops₂]
    rfl
  obtain ⟨four, entry₄, record₄, hfour, hgot₄⟩ := hthree.get hspill 1 (List.getElem?_eq_some_iff.mp holdest₄).1
  have holdest₅ : four.puts[four.pops.length]? = some ⟨two.calls, 5 :: quarter 5⟩ := by
    rw [hgot₄.puts, hgot₄.pops, hgot₃.puts, hgot₃.pops]
    show (two.puts ++ _)[(two.pops ++ [1] ++ [1]).length]? = _
    rw [hputs₂, hpops₂]
    rfl
  obtain ⟨state, entry₅, record₅, hstate, hgot₅⟩ := hfour.get hspill 1 (List.getElem?_eq_some_iff.mp holdest₅).1
  have hreturned := (hgot₅.returned_map holdest₅).trans
    (congrArg (· ++ _) ((hgot₄.returned_map holdest₄).trans (congrArg (· ++ _) (hgot₃.returned_map holdest₃))))
  refine ⟨state, hstate.reachable, ?_, ?_, ?_,
    ring_refines_fifo 4 65536 none someCreator (by decide) (by decide) _ state hstate.reachable⟩
  · rw [hreturned, hreturned₂, hreturned₁]
    rfl
  · rw [hgot₅.tail, hgot₄.tail, hgot₃.tail]
    show 65536 < two.shared.tail + _ + _
    omega
  · rw [hgot₅.spills, hgot₄.spills, hgot₃.spills]
    show Function.update two.spills 0 (two.spills 0 + 1) 0 = 1
    rw [Function.update_self, hspills₂]

/-! ## A ring outside its map -/

def oneByte : List Action :=
  [Action.act 0 (.putBegin [7] .forever false), .act 0 .acquire, .act 0 (.putDecide false)] ++
    List.replicate 9 (Action.act 0 .store) ++
    [Action.act 0 .storeTail, .act 0 .addCount, .act 0 .putDone,
      .act 1 (.getBegin ⟨1, false, .forever⟩), .act 1 .acquire, .act 1 (.getCheck false), .act 1 .pop,
      .act 1 .storeCount, .act 1 .pop, .act 1 .finishPops, .act 1 .materialize]

/-- The map of this ring is eight bytes long: the put returns, but its byte is not given back. -/
theorem not_ring_refines_fifo : ¬∀ (maxsize ringBytes : ℕ) (spillAt : Option ℕ) (creator : Sys.Creator),
    ringBytes < 2 ^ 64 → 0 < (RingQueue.new maxsize ringBytes spillAt creator).mapLen →
      (RingQueue.new maxsize ringBytes spillAt creator).spillAt < 2 ^ 32 → ∀ (pid : ℕ → UInt32) (state : State),
        ((machine (RingQueue.new maxsize ringBytes spillAt creator) pid).restrict noDeath).Reachable state →
          state.shared.tail < 2 ^ 64 → RefinesFifo (RingQueue.new maxsize ringBytes spillAt creator) pid state := by
  intro hall
  have hrun : (((machine (RingQueue.new 0 (2 ^ 64 - 4088) (some 1) someCreator) UInt32.ofNat).restrict
      noDeath).runFrom .start oneByte).map (fun state ↦ (state.shared.tail, state.returned, state.fifo.taken)) =
        some (16, [⟨0, 1, []⟩], [(1, [7])]) := by decide +kernel
  obtain ⟨state, hstate, hends⟩ := Option.map_eq_some_iff.mp hrun
  simp only [Prod.mk.injEq] at hends
  obtain ⟨htail, hreturned, htaken⟩ := hends
  have hfifo := hall 0 (2 ^ 64 - 4088) (some 1) someCreator (by norm_num) (by decide) (by decide) UInt32.ofNat
    state ⟨oneByte, hstate⟩ (by rw [htail]; norm_num)
  have hdelivered := hfifo.delivered ⟨0, 1, []⟩ (by rw [hreturned]; exact List.mem_singleton.mpr rfl)
  rw [htaken] at hdelivered
  simp at hdelivered

end GpuPipe.Ring
