import Mathlib.Data.List.Flatten
import GpuPipe.Library.Totals
import GpuPipe.Transport.Channel

/-!
# Chunked transport is transparent

What is sent is read once, whole and in the order its producer sent it, whatever the chunk size, the
chunk time, the clock and the order of the moves. A message put after a producer's flush stays behind
what that producer sent before.
-/

namespace GpuPipe.Channel

section Invariant

variable {Producer Reader Payload : Type*} [DecidableEq Producer] [DecidableEq Reader]
  {chunkSize maxsize : ℕ} {chunkS : ℚ} {state next : State Producer Reader Payload}
  {producer : Producer}

/-- Items are numbered in the order they were sent. -/
def Numbered (state : State Producer Reader Payload) : Prop :=
  state.sent.map Stamped.serial = List.range state.sent.length

omit [DecidableEq Producer] [DecidableEq Reader] in
theorem numbered_snoc (h : Numbered state) {new : List (Stamped Producer Payload)}
    (hnew : new = [] ∨ ∃ producer direct payload, new = [state.stamp producer direct payload]) :
    (state.sent ++ new).map Stamped.serial = List.range (state.sent ++ new).length := by
  rcases hnew with rfl | ⟨producer, direct, payload, rfl⟩
  · rwa [List.append_nil]
  · rw [List.map_append, h, List.length_append, List.length_singleton, List.range_succ]
    rfl

theorem numbered_effect (h : Numbered state) (heffect : Effect chunkSize state next) :
    Numbered next := by
  cases heffect with
  | call producer hidle hnew hmade =>
    apply numbered_snoc h
    rcases hnew with hnew | ⟨payload, hnew⟩
    · exact .inl hnew
    · exact .inr ⟨producer, false, payload, hnew⟩
  | direct producer payload hidle => exact numbered_snoc h (.inr ⟨producer, true, payload, rfl⟩)
  | placed | buffered | took | raised => exact h

/-- What a producer sent through its channel went onto the queue first to last, the rest is in its hand
or pending, in that order. -/
def InOrder (state : State Producer Reader Payload) : Prop :=
  ∀ producer, state.sent.filter (Stamped.through producer) =
    state.placed.filter (Stamped.through producer) ++
      (handItems (state.hand producer)).filter (Stamped.through producer) ++
      (state.channel producer).pending

theorem filter_through_of_other {items : List (Stamped Producer Payload)} {other : Producer}
    (h : ∀ item ∈ items, item.producer = producer) (hne : other ≠ producer) :
    items.filter (Stamped.through other) = [] := by
  rw [List.filter_eq_nil_iff]
  intro item hitem hthrough
  exact hne ((producer_of_through hthrough).symm.trans (h item hitem))

theorem filter_through_self {items : List (Stamped Producer Payload)}
    (h : ∀ item ∈ items, item.through producer = true) :
    items.filter (Stamped.through producer) = items :=
  List.filter_eq_self.mpr h

omit [DecidableEq Reader] in
theorem placed_put (state : State Producer Reader Payload) (producer : Producer)
    (message : Message (Stamped Producer Payload)) :
    State.placed { state with
      hand := Function.update state.hand producer none
      queue := { state.queue with waiting := state.queue.waiting ++ [message] } } =
      state.placed ++ message.items := by
  rw [State.placed, Fifo.history_put, List.flatMap_append, List.flatMap_singleton]
  rfl

/-- A step keeps each producer's items in their order. -/
theorem inOrder_effect (h : InOrder state) (hstocked : Stocked chunkSize state)
    (heffect : Effect chunkSize state next) : InOrder next := by
  cases heffect with
  | @call producer made new hidle hnew hmade =>
    have hordered := hmade.ordered (hstocked.holds producer).size
    have hnewThrough : ∀ item ∈ new, item.through producer = true := by
      rcases hnew with rfl | ⟨payload, rfl⟩
      · simp
      · simpa using stamp_through state producer payload
    intro other
    show (state.sent ++ new).filter _ = state.placed.filter _ ++
      (handItems (Function.update state.hand producer made.2 other)).filter _ ++
      (Function.update state.channel producer made.1 other).pending
    rcases eq_or_ne other producer with rfl | hne
    · have hthrough : ∀ item ∈ handItems made.2, item.through other = true := by
        intro item hitem
        have hmem : item ∈ handItems made.2 ++ made.1.pending := List.mem_append_left _ hitem
        rw [hordered, List.mem_append] at hmem
        exact hmem.elim ((hstocked.holds other).own item) (hnewThrough item)
      rw [Function.update_self, Function.update_self, List.filter_append, h other, hidle,
        filter_through_self hnewThrough, filter_through_self hthrough]
      simp only [handItems_none, List.filter_nil, List.append_nil, List.append_assoc, hordered]
    · have hnone := filter_through_of_other (fun item hitem ↦ producer_of_through (hnewThrough item hitem))
        hne
      rw [Function.update_of_ne hne, Function.update_of_ne hne, List.filter_append, hnone,
        List.append_nil]
      exact h other
  | direct producer payload hidle =>
    have hdirect : ∀ other, (state.stamp producer true payload).through other = false := by
      intro other
      simp [State.stamp, Stamped.through]
    intro other
    show (state.sent ++ [state.stamp producer true payload]).filter _ = state.placed.filter _ ++
      (handItems (Function.update state.hand producer _ other)).filter _ ++
      (Function.update state.channel producer (state.channel producer) other).pending
    rw [Function.update_eq_self, List.filter_append, h other]
    rcases eq_or_ne other producer with rfl | hne
    · rw [Function.update_self, hidle]
      simp [hdirect]
    · rw [Function.update_of_ne hne]
      simp [hdirect]
  | @placed producer message hhand =>
    intro other
    rw [placed_put, List.filter_append]
    show state.sent.filter _ = state.placed.filter _ ++ message.items.filter _ ++
      (handItems (Function.update state.hand producer none other)).filter _ ++
      (state.channel other).pending
    rw [h other]
    rcases eq_or_ne other producer with rfl | hne
    · simp [hhand]
    · have hown := (hstocked.offers producer).own
      rw [hhand, handItems_some] at hown
      simp [filter_through_of_other hown hne, Function.update_of_ne hne]
  | buffered => exact h
  | took reader _ hwaiting =>
    intro other
    rw [State.placed, Fifo.history_take hwaiting]
    exact h other
  | raised reader hwaiting =>
    intro other
    rw [State.placed, Fifo.history_take hwaiting]
    exact h other

/-- A reader has read, and still holds, the messages it took, chunks opened, in their order. -/
def Dealt (state : State Producer Reader Payload) : Prop :=
  ∀ reader, state.reads reader ++ state.buffer reader =
    (state.queue.takenBy reader).flatMap Message.items

/-- A reader reads its messages in the order it took them. -/
theorem dealt_effect (h : Dealt state) (heffect : Effect chunkSize state next) : Dealt next := by
  cases heffect with
  | call | direct | placed => exact h
  | @buffered reader item rest hbuffer =>
    intro other
    rw [← h other]
    rcases eq_or_ne other reader with rfl | hne
    · simp [hbuffer]
    · simp [Function.update_of_ne hne]
  | @took reader message waiting item rest hbuffer hwaiting hitems =>
    intro other
    rw [Fifo.takenBy_take, List.flatMap_append, ← h other]
    rcases eq_or_ne other reader with rfl | hne
    · simp [hbuffer, hitems]
    · simp [Function.update_of_ne hne, Ne.symm hne]
  | raised reader hwaiting =>
    intro other
    rw [Fifo.takenBy_take, List.flatMap_append, ← h other]
    rcases eq_or_ne other reader with rfl | hne
    · simp
    · simp [Ne.symm hne]

end Invariant

section Totals

variable {Item : Type*} {ι : Type*} [DecidableEq ι] [Fintype ι]

def totalPending (channel : ι → OutputChannel Item) : Multiset Item :=
  ∑ index, ↑(channel index).pending

def totalHands (hand : ι → Option (Message Item)) : Multiset Item :=
  ∑ index, ↑(handItems (hand index))

def totalItems (family : ι → List Item) : Multiset Item :=
  ∑ index, ↑(family index)

theorem totalPending_update (channel : ι → OutputChannel Item) (index : ι) (value : OutputChannel Item) :
    totalPending (Function.update channel index value) + ↑(channel index).pending =
      totalPending channel + ↑value.pending :=
  sum_update_comp (fun value : OutputChannel Item ↦ (↑value.pending : Multiset Item)) _ _ _

theorem totalHands_update (hand : ι → Option (Message Item)) (index : ι) (value : Option (Message Item)) :
    totalHands (Function.update hand index value) + ↑(handItems (hand index)) =
      totalHands hand + ↑(handItems value) :=
  sum_update_comp (fun value : Option (Message Item) ↦ (↑(handItems value) : Multiset Item)) _ _ _

theorem totalItems_update (family : ι → List Item) (index : ι) (value : List Item) :
    totalItems (Function.update family index value) + ↑(family index) = totalItems family + ↑value :=
  sum_update_comp (fun value : List Item ↦ (↑value : Multiset Item)) _ _ _

/-- Items move from the front of one list to the end of another. -/
theorem totalItems_snoc (family : ι → List Item) (index : ι) (item : Item) :
    totalItems (Function.update family index (family index ++ [item])) = totalItems family + {item} := by
  have hupdate := totalItems_update family index (family index ++ [item])
  rw [← Multiset.coe_add, ← add_assoc, add_right_comm] at hupdate
  exact add_right_cancel hupdate

end Totals

section Conservation

variable {Producer Reader Payload : Type*} [DecidableEq Producer] [DecidableEq Reader]
  [Fintype Producer] [Fintype Reader] {chunkSize maxsize : ℕ} {chunkS : ℚ}
  {state next : State Producer Reader Payload} {producer : Producer} {reader : Reader}

/-- Every item sent is pending, in a put or placed on the queue, and of those placed every one waits, is
buffered or was read. -/
structure Kept (state : State Producer Reader Payload) : Prop where
  sent : (↑state.sent : Multiset (Stamped Producer Payload)) =
    totalPending state.channel + totalHands state.hand + ↑state.placed
  placed : (↑state.placed : Multiset (Stamped Producer Payload)) =
    ↑(state.queue.waiting.flatMap Message.items) + totalItems state.buffer + totalItems state.reads

omit [DecidableEq Reader] in
theorem Kept.make (h : Kept state) {made : OutputChannel (Stamped Producer Payload) ×
    Option (Message (Stamped Producer Payload))} {new : List (Stamped Producer Payload)}
    (hidle : state.hand producer = none)
    (hmade : (handItems made.2 ++ made.1.pending).Perm ((state.channel producer).pending ++ new)) :
    Kept (state.make producer made new) := by
  have hpending := totalPending_update state.channel producer made.1
  have hhand := totalHands_update state.hand producer made.2
  rw [hidle, handItems_none, Multiset.coe_nil, add_zero] at hhand
  have hperm := Multiset.coe_eq_coe.mpr hmade
  rw [← Multiset.coe_add, ← Multiset.coe_add] at hperm
  refine ⟨?_, h.placed⟩
  have hsent : (↑(state.sent ++ new) : Multiset (Stamped Producer Payload)) =
      totalPending (Function.update state.channel producer made.1) +
        totalHands (Function.update state.hand producer made.2) + ↑state.placed := by
    rw [← Multiset.coe_add, h.sent, hhand]
    apply add_right_cancel (b := (↑(state.channel producer).pending : Multiset _))
    generalize totalPending (Function.update state.channel producer made.1) = after at hpending ⊢
    generalize totalPending state.channel = before at hpending ⊢
    generalize totalHands state.hand = hands
    calc before + hands + ↑state.placed + ↑new + ↑(state.channel producer).pending
        = before + hands + ↑state.placed + (↑(state.channel producer).pending + ↑new) := by abel
      _ = (before + ↑made.1.pending) + hands + ↑(handItems made.2) + ↑state.placed := by
          rw [← hperm]; abel
      _ = after + (hands + ↑(handItems made.2)) + ↑state.placed + ↑(state.channel producer).pending := by
          rw [← hpending]; abel
  exact hsent

/-- No step loses an item or makes a second one of it. -/
theorem Kept.effect (h : Kept state) (hstocked : Stocked chunkSize state)
    (heffect : Effect chunkSize state next) : Kept next := by
  cases heffect with
  | call producer hidle _ hmade => exact h.make hidle (.of_eq (hmade.ordered (hstocked.holds producer).size))
  | direct producer payload hidle => exact h.make hidle List.perm_append_comm
  | @placed producer message hhand =>
    have hhands := totalHands_update state.hand producer none
    rw [hhand, handItems_none, Multiset.coe_nil, add_zero, handItems_some] at hhands
    constructor
    · rw [placed_put, ← Multiset.coe_add, h.sent, ← hhands]
      abel
    · rw [placed_put, ← Multiset.coe_add, h.placed]
      simp only [List.flatMap_append, List.flatMap_singleton, ← Multiset.coe_add]
      abel
  | @buffered reader item rest hbuffer =>
    have hbuffers := totalItems_update state.buffer reader rest
    rw [hbuffer, ← Multiset.cons_coe, ← Multiset.singleton_add, ← add_assoc] at hbuffers
    have hbuffers' := add_right_cancel hbuffers
    refine ⟨h.sent, ?_⟩
    refine h.placed.trans ?_
    simp only [totalItems_snoc, ← hbuffers']
    abel
  | @took reader message waiting item rest hbuffer hwaiting hitems =>
    have hbuffers := totalItems_update state.buffer reader rest
    rw [hbuffer, Multiset.coe_nil, add_zero] at hbuffers
    have hplaced : State.placed { state with
        queue := ⟨waiting, state.queue.taken ++ [(reader, message)]⟩
        buffer := Function.update state.buffer reader rest
        reads := Function.update state.reads reader (state.reads reader ++ [item]) } = state.placed := by
      rw [State.placed, Fifo.history_take hwaiting]
      rfl
    constructor
    · rw [hplaced]
      exact h.sent
    · rw [hplaced, h.placed]
      simp only [totalItems_snoc, hbuffers, hwaiting, List.flatMap_cons, hitems, ← Multiset.coe_add,
        ← Multiset.cons_coe, ← Multiset.singleton_add]
      abel
  | @raised reader waiting hwaiting =>
    have hplaced : State.placed { state with
        queue := ⟨waiting, state.queue.taken ++ [(reader, .chunk [])]⟩ } = state.placed := by
      rw [State.placed, Fifo.history_take hwaiting]
      rfl
    constructor
    · rw [hplaced]
      exact h.sent
    · rw [hplaced, h.placed]
      simp [hwaiting]

/-- A producer's flush is done: nothing is pending and no put of its own is under way. -/
def State.flushed (state : State Producer Reader Payload) (producer : Producer) : Prop :=
  state.hand producer = none ∧ (state.channel producer).pending = []

structure State.drained (state : State Producer Reader Payload) : Prop where
  flushed : ∀ producer, state.flushed producer
  queue : state.queue.waiting = []
  buffers : ∀ reader, state.buffer reader = []

structure Inv (chunkSize : ℕ) (state : State Producer Reader Payload) : Prop where
  stocked : Stocked chunkSize state
  numbered : Numbered state
  inOrder : InOrder state
  dealt : Dealt state
  kept : Kept state

theorem inv_start :
    Inv chunkSize (machine Producer Reader Payload chunkSize maxsize chunkS).start where
  stocked := ⟨fun _ ↦ ⟨by simp [machine], .inl rfl⟩, fun _ ↦ ⟨by simp [machine], by simp [machine]⟩,
    by simp [machine, Fifo.history]⟩
  numbered := rfl
  inOrder := fun _ ↦ rfl
  dealt := fun _ ↦ rfl
  kept := by
    constructor <;>
      simp [machine, State.placed, Fifo.history, totalPending, totalHands, totalItems]

/-- What every step preserves. -/
theorem Inv.next_of_step {action : Action Producer Reader Payload} (h : Inv chunkSize state)
    (hstep : step chunkSize maxsize chunkS state action = some next) : Inv chunkSize next := by
  have heffect := step_effect hstep
  exact ⟨h.stocked.effect heffect, numbered_effect h.numbered heffect,
    inOrder_effect h.inOrder h.stocked heffect, dealt_effect h.dealt heffect,
    h.kept.effect h.stocked heffect⟩

/-- The invariant of the chunked transport. -/
theorem inv_of_reachable
    (h : (machine Producer Reader Payload chunkSize maxsize chunkS).Reachable state) :
    Inv chunkSize state :=
  h.invariant (Inv chunkSize) inv_start fun _ _ _ hstate hstep ↦ hstate.next_of_step hstep

theorem Inv.increasing (h : Inv chunkSize state) :
    state.sent.Pairwise fun first second ↦ first.serial < second.serial := by
  have hrange := List.pairwise_lt_range (n := state.sent.length)
  rwa [← h.numbered, List.pairwise_map] at hrange

theorem Inv.sent_nodup (h : Inv chunkSize state) : state.sent.Nodup :=
  h.increasing.imp fun hlt heq ↦ by simp [heq] at hlt

theorem Inv.placed_le (h : Inv chunkSize state) :
    (↑state.placed : Multiset (Stamped Producer Payload)) ≤ ↑state.sent := by
  rw [h.kept.sent]
  exact Multiset.le_add_left _ _

/-- Nothing is read that was not sent, and nothing twice. -/
theorem Inv.reads_le (h : Inv chunkSize state) :
    totalItems state.reads ≤ (↑state.sent : Multiset (Stamped Producer Payload)) := by
  refine le_trans ?_ h.placed_le
  rw [h.kept.placed]
  exact Multiset.le_add_left _ _

/-- A reader reads in the order of the puts. -/
theorem Inv.reads_sublist (h : Inv chunkSize state) (reader : Reader) :
    (state.reads reader).Sublist state.placed := by
  have hdealt : (state.reads reader).Sublist ((state.queue.takenBy reader).flatMap Message.items) := by
    rw [← h.dealt reader]
    exact List.sublist_append_left _ _
  exact hdealt.trans ((state.queue.takenBy_sublist reader).flatMap _)

/-- Of one producer's channel a reader reads in the order of the sends. -/
theorem Inv.reads_increasing (h : Inv chunkSize state) (reader : Reader) (producer : Producer) :
    ((state.reads reader).filter (Stamped.through producer)).Pairwise
      fun first second ↦ first.serial < second.serial := by
  have hplaced : (state.placed.filter (Stamped.through producer)).Sublist state.sent := by
    refine List.Sublist.trans ?_ (List.filter_sublist (p := Stamped.through producer))
    rw [h.inOrder producer, List.append_assoc]
    exact List.sublist_append_left _ _
  exact h.increasing.sublist (((h.reads_sublist reader).filter _).trans hplaced)

/-- Once nothing is on the way, everything that was sent has been read. -/
theorem Inv.drained_reads (h : Inv chunkSize state) (hdrained : state.drained) :
    totalItems state.reads = (↑state.sent : Multiset (Stamped Producer Payload)) := by
  have hpending : totalPending state.channel = 0 :=
    Finset.sum_eq_zero fun producer _ ↦ by rw [(hdrained.flushed producer).2]; rfl
  have hhands : totalHands state.hand = 0 :=
    Finset.sum_eq_zero fun producer _ ↦ by rw [(hdrained.flushed producer).1]; rfl
  have hbuffers : totalItems state.buffer = 0 :=
    Finset.sum_eq_zero fun reader _ ↦ by rw [hdrained.buffers reader]; rfl
  rw [h.kept.sent, h.kept.placed, hpending, hhands, hbuffers, hdrained.queue]
  simp

/-- What a producer has sent is on the queue once its flush is done. -/
theorem Inv.placed_of_flushed (h : Inv chunkSize state) (hflushed : state.flushed producer)
    {item : Stamped Producer Payload} (hitem : item ∈ state.sent) (hown : item.producer = producer) :
    item ∈ state.placed := by
  have hmem : item ∈ (↑state.sent : Multiset (Stamped Producer Payload)) := hitem
  rw [h.kept.sent, Multiset.mem_add, Multiset.mem_add, totalPending, totalHands, Multiset.mem_sum,
    Multiset.mem_sum] at hmem
  rcases hmem with (⟨other, -, hother⟩ | ⟨other, -, hother⟩) | hplaced
  · have hproducer := producer_of_through ((h.stocked.holds other).own item hother)
    rw [← hproducer, hown, hflushed.2] at hother
    cases hother
  · have hproducer := (h.stocked.offers other).own item hother
    rw [← hproducer, hown, hflushed.1] at hother
    cases hother
  · exact hplaced

omit [Fintype Producer] [Fintype Reader] in
theorem Effect.grows (heffect : Effect chunkSize state next) :
    state.sent <+: next.sent ∧ state.placed <+: next.placed := by
  cases heffect with
  | call | direct => exact ⟨List.prefix_append _ _, List.prefix_rfl⟩
  | placed producer hhand =>
    refine ⟨List.prefix_rfl, ?_⟩
    rw [placed_put]
    exact List.prefix_append _ _
  | buffered => exact ⟨List.prefix_rfl, List.prefix_rfl⟩
  | took reader _ hwaiting | raised reader hwaiting =>
    refine ⟨List.prefix_rfl, ?_⟩
    rw [State.placed, State.placed, Fifo.history_take hwaiting]

omit [Fintype Producer] [Fintype Reader] in
theorem run_grows {actions : List (Action Producer Reader Payload)}
    (h : (machine Producer Reader Payload chunkSize maxsize chunkS).runFrom state actions = some next) :
    state.sent <+: next.sent ∧ state.placed <+: next.placed := by
  refine Machine.run_invariant (fun later ↦ state.sent <+: later.sent ∧ state.placed <+: later.placed) ?_
    ⟨List.prefix_rfl, List.prefix_rfl⟩ h
  intro middle action later hmiddle hstep
  have hgrows := (step_effect hstep).grows
  exact ⟨hmiddle.1.trans hgrows.1, hmiddle.2.trans hgrows.2⟩

/-- The serials of what was sent are below the next one. -/
theorem Inv.serial_lt (h : Inv chunkSize state) {item : Stamped Producer Payload}
    (hitem : item ∈ state.sent) : item.serial < state.sent.length := by
  have hmem := List.mem_map_of_mem (f := Stamped.serial) hitem
  rwa [h.numbered, List.mem_range] at hmem

/-- Whoever reads an item sent before a flush and a bare message put after it reads them in this order. -/
theorem Inv.behind_flush (h : Inv chunkSize state) (hflushed : state.flushed producer)
    {before last : State Producer Reader Payload} (hlast : Inv chunkSize last)
    (hbefore : state.sent <+: before.sent) (hgrows : state.placed <+: last.placed)
    {other : Producer} {payload : Payload} {item : Stamped Producer Payload} (hitem : item ∈ state.sent)
    (hown : item.producer = producer) (hread : item ∈ last.reads reader)
    (hbare : before.stamp other true payload ∈ last.reads reader) :
    [item, before.stamp other true payload].Sublist (last.reads reader) := by
  have hplaced := h.placed_of_flushed hflushed hitem hown
  obtain ⟨later, hlater⟩ := hgrows
  have hnodup : (state.placed ++ later).Nodup := by
    rw [hlater]
    exact Multiset.coe_nodup.mp (Multiset.nodup_of_le hlast.placed_le hlast.sent_nodup)
  have hnotLater : item ∉ later := (List.disjoint_of_nodup_append hnodup) hplaced
  have hnotPlaced : before.stamp other true payload ∉ state.placed := by
    intro hmem
    have hlt := h.serial_lt (Multiset.mem_of_le h.placed_le hmem)
    have hle := hbefore.length_le
    simp only [State.stamp] at hlt
    omega
  have hreads := hlast.reads_sublist reader
  rw [← hlater, List.sublist_append_iff] at hreads
  obtain ⟨first, second, hsplit, hfirst, hsecond⟩ := hreads
  rw [hsplit, List.mem_append] at hread hbare
  have hitemFirst : item ∈ first := hread.resolve_right fun hmem ↦ hnotLater (hsecond.subset hmem)
  have hbareSecond := hbare.resolve_left fun hmem ↦ hnotPlaced (hfirst.subset hmem)
  rw [hsplit]
  exact (List.singleton_sublist.mpr hitemFirst).append (List.singleton_sublist.mpr hbareSecond)

end Conservation

section Draining

variable {Producer Reader Payload : Type*} [DecidableEq Producer] [DecidableEq Reader]
  [Fintype Producer] [Fintype Reader] {chunkSize maxsize : ℕ} {chunkS : ℚ}
  {state next : State Producer Reader Payload} {producer : Producer}

/-- How far all items together are from being read. -/
def State.left (state : State Producer Reader Payload) : ℕ :=
  4 * (totalPending state.channel).card + 3 * (totalHands state.hand).card +
    2 * (state.queue.waiting.flatMap Message.items).length + (totalItems state.buffer).card

theorem Message.Sized.items_cons {Item : Type*} {message : Message Item} (h : message.Sized chunkSize) :
    ∃ item rest, message.items = item :: rest := by
  cases message with
  | bare item => exact ⟨item, [], rfl⟩
  | chunk items => exact List.exists_cons_of_length_pos h.1

omit [Fintype Producer] [Fintype Reader] in
theorem step_get_buffered {reader : Reader} {item : Stamped Producer Payload}
    {rest : List (Stamped Producer Payload)} (hbuffer : state.buffer reader = item :: rest) :
    step chunkSize maxsize chunkS state (.get reader) = some { state with
      buffer := Function.update state.buffer reader rest
      reads := Function.update state.reads reader (state.reads reader ++ [item]) } := by
  simp only [step, get, hbuffer]

omit [Fintype Producer] [Fintype Reader] in
theorem step_get_took {reader : Reader} {message : Message (Stamped Producer Payload)}
    {waiting : List (Message (Stamped Producer Payload))} {item : Stamped Producer Payload}
    {rest : List (Stamped Producer Payload)} (hbuffer : state.buffer reader = [])
    (hwaiting : state.queue.waiting = message :: waiting) (hitems : message.items = item :: rest) :
    step chunkSize maxsize chunkS state (.get reader) = some { state with
      queue := ⟨waiting, state.queue.taken ++ [(reader, message)]⟩
      buffer := Function.update state.buffer reader rest
      reads := Function.update state.reads reader (state.reads reader ++ [item]) } := by
  cases message with
  | bare bare =>
    simp only [Message.items_bare, List.cons.injEq] at hitems
    obtain ⟨rfl, rfl⟩ := hitems
    have hsame : Function.update state.buffer reader [] = state.buffer := by
      rw [← hbuffer, Function.update_eq_self]
    simp only [step, get, hbuffer, hwaiting, hsame]
  | chunk items =>
    rw [Message.items_chunk] at hitems
    subst hitems
    simp only [step, get, hbuffer, hwaiting]

omit [Fintype Reader] [DecidableEq Reader] in
theorem left_make_flush (hidle : state.hand producer = none) (hpending : (state.channel producer).pending ≠ []) :
    totalPending (state.make producer (state.channel producer).flush []).channel +
        ↑(state.channel producer).pending = totalPending state.channel ∧
      totalHands (state.make producer (state.channel producer).flush []).hand =
        totalHands state.hand + ↑(state.channel producer).pending := by
  have hflush : (state.channel producer).flush =
      ({ state.channel producer with pending := [] }, some (.chunk (state.channel producer).pending)) := by
    simp [OutputChannel.flush, hpending]
  have hchannel := totalPending_update state.channel producer { state.channel producer with pending := [] }
  have hhand := totalHands_update state.hand producer (some (.chunk (state.channel producer).pending))
  rw [hidle, handItems_none, Multiset.coe_nil, add_zero, handItems_some, Message.items_chunk] at hhand
  rw [Multiset.coe_nil, add_zero] at hchannel
  rw [State.make, hflush]
  exact ⟨hchannel, hhand⟩

/-- Unless all is read, some put, flush or get brings an item closer to it. -/
theorem Inv.exists_progress [Nonempty Reader] (h : Inv chunkSize state) (hleft : ¬ state.drained) :
    ∃ action next, step chunkSize maxsize chunkS state action = some next ∧
      next.sent = state.sent ∧ next.left < state.left := by
  by_cases hbuffers : ∀ reader, state.buffer reader = []
  · cases hwaiting : state.queue.waiting with
    | cons message waiting =>
      obtain ⟨reader⟩ := ‹Nonempty Reader›
      have hsized : message.Sized chunkSize := by
        apply h.stocked.sizes
        rw [Fifo.history, hwaiting]
        simp
      obtain ⟨item, rest, hitems⟩ := hsized.items_cons
      refine ⟨.get reader, _, step_get_took (hbuffers reader) hwaiting hitems, rfl, ?_⟩
      have hcard := congrArg Multiset.card (totalItems_update state.buffer reader rest)
      rw [hbuffers reader] at hcard
      simp only [Multiset.card_add, Multiset.coe_card, List.length_nil] at hcard
      simp only [State.left, hwaiting, List.flatMap_cons, hitems, List.length_append, List.length_cons]
      omega
    | nil =>
      by_cases hhands : ∀ producer, state.hand producer = none
      · have hpending : ∃ producer, (state.channel producer).pending ≠ [] := by
          by_contra hnone
          push Not at hnone
          exact hleft ⟨fun producer ↦ ⟨hhands producer, hnone producer⟩, hwaiting, hbuffers⟩
        obtain ⟨producer, hproducer⟩ := hpending
        refine ⟨.flush producer, state.make producer (state.channel producer).flush [], ?_, ?_, ?_⟩
        · simp only [step, hhands producer]
        · simp [State.make]
        · obtain ⟨hchannel, hhand⟩ := left_make_flush (hhands producer) hproducer
          have hchannel' := congrArg Multiset.card hchannel
          have hhand' := congrArg Multiset.card hhand
          have hpos := List.length_pos_of_ne_nil hproducer
          simp only [Multiset.card_add, Multiset.coe_card] at hchannel' hhand'
          have hqueue : (state.make producer (state.channel producer).flush []).queue = state.queue := rfl
          have hbuffer : (state.make producer (state.channel producer).flush []).buffer = state.buffer := rfl
          rw [State.left, State.left, hqueue, hbuffer]
          omega
      · push Not at hhands
        obtain ⟨producer, hproducer⟩ := hhands
        obtain ⟨message, hmessage⟩ := Option.ne_none_iff_exists'.mp hproducer
        have hroom : maxsize = 0 ∨ state.queue.waiting.length < maxsize := by
          rw [hwaiting, List.length_nil]
          omega
        obtain ⟨item, rest, hitems⟩ := ((h.stocked.offers producer).size message hmessage).items_cons
        refine ⟨.placed producer, { state with
          hand := Function.update state.hand producer none
          queue := { state.queue with waiting := state.queue.waiting ++ [message] } }, ?_, rfl, ?_⟩
        · simp only [step, hmessage, if_pos hroom]
        · have hhand := congrArg Multiset.card (totalHands_update state.hand producer none)
          rw [hmessage] at hhand
          simp only [Multiset.card_add, Multiset.coe_card, List.length_nil, handItems_none,
            handItems_some, hitems, List.length_cons] at hhand
          simp only [State.left, hwaiting, List.nil_append, List.flatMap_singleton, hitems,
            List.length_cons, List.flatMap_nil, List.length_nil]
          omega
  · push Not at hbuffers
    obtain ⟨reader, hreader⟩ := hbuffers
    obtain ⟨item, rest, hbuffer⟩ := List.exists_cons_of_ne_nil hreader
    refine ⟨.get reader, _, step_get_buffered hbuffer, rfl, ?_⟩
    have hcard := congrArg Multiset.card (totalItems_update state.buffer reader rest)
    rw [hbuffer] at hcard
    simp only [Multiset.card_add, Multiset.coe_card, List.length_cons] at hcard
    simp only [State.left]
    omega

/-- From everywhere, with nothing more sent, the flushes, puts and gets can bring all of it to a reader. -/
theorem Inv.exists_drained [Nonempty Reader] (h : Inv chunkSize state) :
    ∃ actions last, (machine Producer Reader Payload chunkSize maxsize chunkS).runFrom state actions =
      some last ∧ last.sent = state.sent ∧ last.drained := by
  induction hn : state.left using Nat.strong_induction_on generalizing state with
  | _ n ih =>
    by_cases hdrained : state.drained
    · exact ⟨[], state, rfl, rfl, hdrained⟩
    · have hprogress : ∃ action next, step chunkSize maxsize chunkS state action = some next ∧
          next.sent = state.sent ∧ next.left < state.left := h.exists_progress hdrained
      obtain ⟨action, next, hstep, hsent, hlt⟩ := hprogress
      obtain ⟨actions, last, hrun, hsent', hlast⟩ := ih next.left (hn ▸ hlt) (h.next_of_step hstep) rfl
      exact ⟨action :: actions, last, Machine.runFrom_step hstep hrun, hsent'.trans hsent, hlast⟩

/-- What the chunked transport promises in a state, and of every run that goes on from it. -/
structure Transparent (chunkSize maxsize : ℕ) (chunkS : ℚ) (state : State Producer Reader Payload) :
    Prop where
  distinct : state.sent.Nodup
  within : totalItems state.reads ≤ (↑state.sent : Multiset (Stamped Producer Payload))
  complete : state.drained → totalItems state.reads = (↑state.sent : Multiset (Stamped Producer Payload))
  drains : Nonempty Reader → ∃ actions last,
    (machine Producer Reader Payload chunkSize maxsize chunkS).runFrom state actions = some last ∧
      last.sent = state.sent ∧ last.drained
  order : ∀ reader producer, ((state.reads reader).filter (Stamped.through producer)).Pairwise
    fun first second ↦ first.serial < second.serial
  sizes : ∀ items, .chunk items ∈ state.queue.history → 1 ≤ items.length ∧ items.length ≤ chunkSize
  behind : ∀ producer, state.flushed producer → ∀ actions before other payload after actions' last,
    (machine Producer Reader Payload chunkSize maxsize chunkS).runFrom state actions = some before →
    step chunkSize maxsize chunkS before (.putDirect other payload) = some after →
    (machine Producer Reader Payload chunkSize maxsize chunkS).runFrom after actions' = some last →
    ∀ reader, ∀ item ∈ state.sent, item.producer = producer → item ∈ last.reads reader →
      before.stamp other true payload ∈ last.reads reader →
      [item, before.stamp other true payload].Sublist (last.reads reader)

/-- The transport is transparent in every reachable state. -/
theorem transparent_of_reachable
    (h : (machine Producer Reader Payload chunkSize maxsize chunkS).Reachable state) :
    Transparent chunkSize maxsize chunkS state := by
  have hinv := inv_of_reachable h
  constructor
  case distinct => exact hinv.sent_nodup
  case within => exact hinv.reads_le
  case complete => exact hinv.drained_reads
  case drains =>
    intro hreader
    exact hinv.exists_drained
  case order => exact fun reader producer ↦ hinv.reads_increasing reader producer
  case sizes => exact fun items hitems ↦ hinv.stocked.sizes _ hitems
  case behind =>
    intro producer hflushed actions before other payload after actions' last hbefore hput hafter reader
      item hitem hown hread hbare
    have hput' : (machine Producer Reader Payload chunkSize maxsize chunkS).step before
        (.putDirect other payload) = some after := hput
    have hlast := ((h.run hbefore).tail hput').run hafter
    have hgrows : state.placed <+: last.placed :=
      ((run_grows hbefore).2.trans (step_effect hput).grows.2).trans (run_grows hafter).2
    exact hinv.behind_flush hflushed (inv_of_reachable hlast) (run_grows hbefore).1 hgrows hitem hown
      hread hbare

/-- Two producers and two readers with lists as payloads: a full chunk, a flushed one, a bare message. -/
def listsRun : List (Action Bool Bool (List ℕ)) :=
  [.send true [1, 2] 0 0, .send false [3] 0 0, .send true [] 0 0, .placed true, .get false, .flush false,
    .placed false, .putDirect true [4], .get true, .placed true, .get true, .get false]

/-- Lists as payloads, in chunks and bare: they are not mixed up with chunks. -/
theorem transparent_lists : ∃ state : State Bool Bool (List ℕ),
    (machine Bool Bool (List ℕ) 2 0 1).runFrom (machine Bool Bool (List ℕ) 2 0 1).start listsRun =
      some state ∧ state.drained ∧ Transparent 2 0 1 state := by
  have hends : ((machine Bool Bool (List ℕ) 2 0 1).runFrom (machine Bool Bool (List ℕ) 2 0 1).start
      listsRun).map (fun state ↦ state.queue.waiting.isEmpty && [true, false].all fun index ↦
        (state.hand index).isNone && (state.channel index).pending.isEmpty &&
          (state.buffer index).isEmpty) = some true := by
    decide +kernel
  obtain ⟨state, hrun, hstate⟩ := Option.map_eq_some_iff.mp hends
  simp only [List.all_cons, List.all_nil, Bool.and_true, Bool.and_eq_true, List.isEmpty_iff,
    Option.isNone_iff_eq_none] at hstate
  obtain ⟨hwaiting, ⟨⟨hhand, hpending⟩, hbuffer⟩, ⟨hhand', hpending'⟩, hbuffer'⟩ := hstate
  refine ⟨state, hrun, ⟨?_, hwaiting, ?_⟩, transparent_of_reachable ⟨listsRun, hrun⟩⟩
  · intro producer
    cases producer
    · exact ⟨hhand', hpending'⟩
    · exact ⟨hhand, hpending⟩
  · intro reader
    cases reader
    · exact hbuffer'
    · exact hbuffer

end Draining

end GpuPipe.Channel
