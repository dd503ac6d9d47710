import Mathlib.Data.Rat.Defs
import Mathlib.Data.Multiset.Basic
import GpuPipe.Library.Fifo

/-!
# Chunked transport

`_OutputChannel` bundles what a producer sends into chunks, by number and by age, and
`_InputChannel` hands the payloads of a chunk out one at a time. Any number of producers and
readers share one bounded queue. The channels are polymorphic in what they carry, so in the machine
every payload travels with a stamp of who sent it and when, which no channel can look at.
-/

namespace GpuPipe.Channel

/-- A message of an edge, as `type(msg) is Chunk` tells them apart: a payload or a sentinel on its
own, or a bundle of payloads. -/
inductive Message (Item : Type*)
  | bare (item : Item)
  | chunk (items : List Item)

namespace Message

variable {Item : Type*}

def items : Message Item → List Item
  | bare item => [item]
  | chunk items => items

@[simp] theorem items_bare (item : Item) : (bare item).items = [item] := rfl

@[simp] theorem items_chunk (items : List Item) : (chunk items).items = items := rfl

end Message

/-- `_pending` and `_oldest` of an `_OutputChannel`. -/
structure OutputChannel (Item : Type*) where
  pending : List Item
  oldest : ℚ

namespace OutputChannel

variable {Item : Type*} (chunkSize : ℕ) (chunkS : ℚ) (channel : OutputChannel Item)

def flush : OutputChannel Item × Option (Message Item) :=
  if channel.pending.isEmpty then (channel, none)
  else ({ channel with pending := [] }, some (.chunk channel.pending))

/-- `send`: the clock is read as `now` for a first pending item and as `later` for its age. -/
def send (item : Item) (now later : ℚ) : OutputChannel Item × Option (Message Item) :=
  if chunkSize = 0 then (channel, some (.bare item))
  else
    let appended : OutputChannel Item :=
      ⟨channel.pending ++ [item], if channel.pending.isEmpty then now else channel.oldest⟩
    if chunkSize ≤ appended.pending.length ∨ chunkS ≤ later - appended.oldest then appended.flush
    else (appended, none)

def maybeFlush (now : ℚ) : OutputChannel Item × Option (Message Item) :=
  if ¬ channel.pending.isEmpty ∧ chunkS ≤ now - channel.oldest then channel.flush else (channel, none)

end OutputChannel

/-- A payload or sentinel with the producer that sent it, whether that was a put of its own beside the
channel, and its number among all that was sent. -/
structure Stamped (Producer Payload : Type*) where
  producer : Producer
  direct : Bool
  serial : ℕ
  payload : Payload

/-- `hand` is the message a producer's blocking put is trying to place; `buffer` is a reader's `_buf`.
`sent` and `reads` are history. -/
structure State (Producer Reader Payload : Type*) where
  channel : Producer → OutputChannel (Stamped Producer Payload)
  hand : Producer → Option (Message (Stamped Producer Payload))
  queue : Fifo (Message (Stamped Producer Payload)) Reader
  buffer : Reader → List (Stamped Producer Payload)
  sent : List (Stamped Producer Payload)
  reads : Reader → List (Stamped Producer Payload)

inductive Action (Producer Reader Payload : Type*)
  | send (producer : Producer) (payload : Payload) (now later : ℚ)
  | maybeFlush (producer : Producer) (now : ℚ)
  | flush (producer : Producer)
  | putDirect (producer : Producer) (payload : Payload)
  | placed (producer : Producer)
  | get (reader : Reader)

section Steps

variable {Producer Reader Payload : Type*} [DecidableEq Producer] [DecidableEq Reader]
  (chunkSize maxsize : ℕ) (chunkS : ℚ) (state : State Producer Reader Payload)

def State.stamp (producer : Producer) (direct : Bool) (payload : Payload) : Stamped Producer Payload :=
  ⟨producer, direct, state.sent.length, payload⟩

/-- What a call of the channel leaves: the channel, and the message its put has in hand. -/
def State.make (producer : Producer)
    (made : OutputChannel (Stamped Producer Payload) × Option (Message (Stamped Producer Payload)))
    (new : List (Stamped Producer Payload)) : State Producer Reader Payload :=
  { state with
    channel := Function.update state.channel producer made.1
    hand := Function.update state.hand producer made.2
    sent := state.sent ++ new }

/-- `get` and `get_nowait` when they find something: from the buffer, else from the queue. -/
def get (reader : Reader) : Option (State Producer Reader Payload) :=
  match state.buffer reader, state.queue.waiting with
  | item :: rest, _ => some { state with
      buffer := Function.update state.buffer reader rest
      reads := Function.update state.reads reader (state.reads reader ++ [item]) }
  | [], .bare item :: waiting => some { state with
      queue := ⟨waiting, state.queue.taken ++ [(reader, .bare item)]⟩
      reads := Function.update state.reads reader (state.reads reader ++ [item]) }
  | [], .chunk (item :: rest) :: waiting => some { state with
      queue := ⟨waiting, state.queue.taken ++ [(reader, .chunk (item :: rest))]⟩
      buffer := Function.update state.buffer reader rest
      reads := Function.update state.reads reader (state.reads reader ++ [item]) }
  -- `popleft` of the empty buffer raises
  | [], .chunk [] :: waiting => some { state with
      queue := ⟨waiting, state.queue.taken ++ [(reader, .chunk [])]⟩ }
  | [], [] => none

/-- A producer calls only with no put of its own under way; a put waits for room. -/
def step : Action Producer Reader Payload → Option (State Producer Reader Payload)
  | .send producer payload now later =>
    match state.hand producer with
    | none =>
      let item := state.stamp producer false payload
      some (state.make producer ((state.channel producer).send chunkSize chunkS item now later) [item])
    | some _ => none
  | .maybeFlush producer now =>
    match state.hand producer with
    | none => some (state.make producer ((state.channel producer).maybeFlush chunkS now) [])
    | some _ => none
  | .flush producer =>
    match state.hand producer with
    | none => some (state.make producer (state.channel producer).flush [])
    | some _ => none
  | .putDirect producer payload =>
    match state.hand producer with
    | none =>
      let item := state.stamp producer true payload
      some (state.make producer (state.channel producer, some (.bare item)) [item])
    | some _ => none
  | .placed producer =>
    match state.hand producer with
    | some message =>
      if maxsize = 0 ∨ state.queue.waiting.length < maxsize then
        some { state with
          hand := Function.update state.hand producer none
          queue := { state.queue with waiting := state.queue.waiting ++ [message] } }
      else none
    | none => none
  | .get reader => get state reader

end Steps

def machine (Producer Reader Payload : Type*) [DecidableEq Producer] [DecidableEq Reader]
    (chunkSize maxsize : ℕ) (chunkS : ℚ) :
    Machine (State Producer Reader Payload) (Action Producer Reader Payload) where
  start := ⟨fun _ ↦ ⟨[], 0⟩, fun _ ↦ none, ⟨[], []⟩, fun _ ↦ [], [], fun _ ↦ []⟩
  step := step chunkSize maxsize chunkS

section Calls

variable {Item : Type*} {chunkSize : ℕ} {chunkS : ℚ}

/-- What a call of the channel does with what was pending and what is new: it holds all of it, makes one
chunk of all of it, or passes the one new item by. -/
inductive Made (chunkSize : ℕ) (pending new : List Item) :
    OutputChannel Item × Option (Message Item) → Prop
  | held {channel : OutputChannel Item} (hpending : channel.pending = pending ++ new)
      (hsize : new = [] ∨ channel.pending.length < chunkSize) : Made chunkSize pending new (channel, none)
  | bundled {channel : OutputChannel Item} (hpending : channel.pending = []) (hne : pending ++ new ≠ [])
      (hsize : new = [] ∨ new.length = 1 ∧ 0 < chunkSize) :
      Made chunkSize pending new (channel, some (.chunk (pending ++ new)))
  | passed {channel : OutputChannel Item} {item : Item} (hpending : channel.pending = pending)
      (hnew : new = [item]) (hsize : chunkSize = 0) :
      Made chunkSize pending new (channel, some (.bare item))

theorem OutputChannel.made_flush (channel : OutputChannel Item) :
    Made chunkSize channel.pending [] channel.flush := by
  rw [OutputChannel.flush]
  split
  · exact .held (by simp) (.inl rfl)
  · rename_i hpending
    have hmade : Made chunkSize channel.pending []
        ({ channel with pending := [] }, some (.chunk (channel.pending ++ []))) :=
      .bundled rfl (by simpa using hpending) (.inl rfl)
    simpa using hmade

theorem OutputChannel.made_maybeFlush (channel : OutputChannel Item) (now : ℚ) :
    Made chunkSize channel.pending [] (channel.maybeFlush chunkS now) := by
  rw [OutputChannel.maybeFlush]
  split
  · exact channel.made_flush
  · exact .held (by simp) (.inl rfl)

theorem OutputChannel.made_append (channel : OutputChannel Item) (item : Item) (oldest : ℚ)
    (h : 0 < chunkSize) :
    Made chunkSize channel.pending [item] (OutputChannel.flush ⟨channel.pending ++ [item], oldest⟩) := by
  have hflush : OutputChannel.flush ⟨channel.pending ++ [item], oldest⟩ =
      (⟨[], oldest⟩, some (.chunk (channel.pending ++ [item]))) := by
    simp [OutputChannel.flush]
  rw [hflush]
  exact .bundled rfl (by simp) (.inr ⟨rfl, h⟩)

/-- `send` makes a full chunk, or one that is old enough, or keeps the item. -/
theorem OutputChannel.made_send (channel : OutputChannel Item) (item : Item) (now later : ℚ) :
    Made chunkSize channel.pending [item] (channel.send chunkSize chunkS item now later) := by
  rw [OutputChannel.send]
  split
  · rename_i hsize
    exact .passed rfl rfl hsize
  · rename_i hsize
    generalize (if channel.pending.isEmpty then now else channel.oldest) = oldest
    dsimp only
    split
    · exact channel.made_append item oldest (Nat.pos_of_ne_zero hsize)
    · rename_i hfull
      exact .held rfl (.inr (by simpa using (not_or.mp hfull).1))

end Calls

section Stock

variable {Producer Reader Payload : Type*} [DecidableEq Producer] {chunkSize : ℕ}
  {state : State Producer Reader Payload} {producer : Producer}

/-- The items of a message, for the blocking put's hand and for the messages of the queue. -/
def handItems {Item : Type*} (hand : Option (Message Item)) : List Item :=
  (hand.map Message.items).getD []

@[simp] theorem handItems_none {Item : Type*} : handItems (none : Option (Message Item)) = [] := rfl

@[simp] theorem handItems_some {Item : Type*} (message : Message Item) :
    handItems (some message) = message.items := rfl

/-- Every `Chunk` holds between one and `chunk_size` payloads. -/
def Message.Sized {Item : Type*} (chunkSize : ℕ) : Message Item → Prop
  | bare _ => True
  | chunk items => 1 ≤ items.length ∧ items.length ≤ chunkSize

/-- Sent by this producer through its channel. -/
def Stamped.through (producer : Producer) (item : Stamped Producer Payload) : Bool :=
  item.producer = producer && !item.direct

/-- Everything put on the queue so far, chunks opened. -/
def State.placed (state : State Producer Reader Payload) : List (Stamped Producer Payload) :=
  state.queue.history.flatMap Message.items

theorem Made.sized {Item : Type*} {pending new : List Item}
    {made : OutputChannel Item × Option (Message Item)} {message : Message Item}
    (h : Made chunkSize pending new made) (hnew : new.length ≤ 1)
    (hpending : pending = [] ∨ pending.length < chunkSize) (hmessage : made.2 = some message) :
    message.Sized chunkSize := by
  cases h with
  | held => cases hmessage
  | passed => cases hmessage; trivial
  | bundled _ hne hsize =>
    cases hmessage
    have hlength : (pending ++ new).length ≠ 0 := fun hzero ↦ hne (List.length_eq_zero_iff.mp hzero)
    rw [List.length_append] at hlength
    rw [Message.Sized, List.length_append]
    rcases hpending with rfl | hpending
    · rcases hsize with rfl | hsize
      · simp at hlength
      · rw [List.length_nil]
        omega
    · omega

theorem Made.items_ne_nil {Item : Type*} {pending new : List Item}
    {made : OutputChannel Item × Option (Message Item)} {message : Message Item}
    (h : Made chunkSize pending new made) (hmessage : made.2 = some message) : message.items ≠ [] := by
  cases h with
  | held => cases hmessage
  | passed =>
    cases hmessage
    exact List.cons_ne_nil _ _
  | bundled _ hne =>
    cases hmessage
    exact hne

theorem Made.pending_size {Item : Type*} {pending new : List Item}
    {made : OutputChannel Item × Option (Message Item)} (h : Made chunkSize pending new made)
    (hpending : pending = [] ∨ pending.length < chunkSize) :
    made.1.pending = [] ∨ made.1.pending.length < chunkSize := by
  cases h with
  | held hkept hsize =>
    rcases hsize with rfl | hsize
    · rwa [hkept, List.append_nil]
    · exact .inr hsize
  | bundled hempty => exact .inl hempty
  | passed hkept => rwa [hkept]

/-- A call keeps the order: what it puts comes before what it holds. -/
theorem Made.ordered {Item : Type*} {pending new : List Item}
    {made : OutputChannel Item × Option (Message Item)} (h : Made chunkSize pending new made)
    (hpending : pending = [] ∨ pending.length < chunkSize) :
    handItems made.2 ++ made.1.pending = pending ++ new := by
  cases h with
  | held hkept => rw [hkept]; rfl
  | bundled hempty => rw [hempty]; simp
  | passed hkept hnew hsize =>
    have hnone : pending = [] := by
      rcases hpending with hnone | hlt
      · exact hnone
      · omega
    rw [hkept, hnew, hnone]
    rfl

/-- What a channel holds is its producer's, and short of a full chunk. -/
structure Holds (chunkSize : ℕ) (producer : Producer)
    (channel : OutputChannel (Stamped Producer Payload)) : Prop where
  own : ∀ item ∈ channel.pending, item.through producer = true
  size : channel.pending = [] ∨ channel.pending.length < chunkSize

/-- The message of a blocking put is its producer's and of a legal size. -/
structure Offers (chunkSize : ℕ) (producer : Producer)
    (hand : Option (Message (Stamped Producer Payload))) : Prop where
  own : ∀ item ∈ handItems hand, item.producer = producer
  size : ∀ message, hand = some message → message.Sized chunkSize

structure Stocked (chunkSize : ℕ) (state : State Producer Reader Payload) : Prop where
  holds : ∀ producer, Holds chunkSize producer (state.channel producer)
  offers : ∀ producer, Offers chunkSize producer (state.hand producer)
  sizes : ∀ message ∈ state.queue.history, message.Sized chunkSize

theorem stamp_through (state : State Producer Reader Payload) (producer : Producer) (payload : Payload) :
    (state.stamp producer false payload).through producer = true := by
  simp [State.stamp, Stamped.through]

theorem producer_of_through {item : Stamped Producer Payload} (h : item.through producer = true) :
    item.producer = producer := by
  simp only [Stamped.through, Bool.and_eq_true, decide_eq_true_eq] at h
  exact h.1

theorem Stocked.make (h : Stocked chunkSize state)
    {made : OutputChannel (Stamped Producer Payload) × Option (Message (Stamped Producer Payload))}
    (new : List (Stamped Producer Payload)) (hholds : Holds chunkSize producer made.1)
    (hoffers : Offers chunkSize producer made.2) :
    Stocked chunkSize (state.make producer made new) where
  holds := (Function.forall_update_iff _ fun producer ↦ Holds chunkSize producer).mpr
    ⟨hholds, fun other _ ↦ h.holds other⟩
  offers := (Function.forall_update_iff _ fun producer ↦ Offers chunkSize producer).mpr
    ⟨hoffers, fun other _ ↦ h.offers other⟩
  sizes := h.sizes

/-- The put of a producer found room. -/
theorem Stocked.placed (h : Stocked chunkSize state) {message : Message (Stamped Producer Payload)}
    (hhand : state.hand producer = some message) :
    Stocked chunkSize { state with
      hand := Function.update state.hand producer none
      queue := { state.queue with waiting := state.queue.waiting ++ [message] } } where
  holds := h.holds
  offers := (Function.forall_update_iff _ fun producer ↦ Offers chunkSize producer).mpr
    ⟨⟨by simp, by simp⟩, fun other _ ↦ h.offers other⟩
  sizes := by
    intro other hother
    rw [Fifo.history_put, List.mem_append, List.mem_singleton] at hother
    rcases hother with hother | rfl
    · exact h.sizes other hother
    · exact (h.offers producer).size other hhand

end Stock

section Invariant

variable {Producer Reader Payload : Type*} [DecidableEq Producer] [DecidableEq Reader]
  {chunkSize maxsize : ℕ} {chunkS : ℚ} {state next : State Producer Reader Payload}
  {action : Action Producer Reader Payload} {producer : Producer} {reader : Reader}

inductive Effect (chunkSize : ℕ) (state : State Producer Reader Payload) :
    State Producer Reader Payload → Prop
  | call (producer : Producer)
      {made : OutputChannel (Stamped Producer Payload) × Option (Message (Stamped Producer Payload))}
      {new : List (Stamped Producer Payload)} (hidle : state.hand producer = none)
      (hnew : new = [] ∨ ∃ payload, new = [state.stamp producer false payload])
      (hmade : Made chunkSize (state.channel producer).pending new made) :
      Effect chunkSize state (state.make producer made new)
  | direct (producer : Producer) (payload : Payload) (hidle : state.hand producer = none) :
      Effect chunkSize state (state.make producer
        (state.channel producer, some (.bare (state.stamp producer true payload)))
        [state.stamp producer true payload])
  | placed (producer : Producer) {message : Message (Stamped Producer Payload)}
      (hhand : state.hand producer = some message) :
      Effect chunkSize state { state with
        hand := Function.update state.hand producer none
        queue := { state.queue with waiting := state.queue.waiting ++ [message] } }
  | buffered (reader : Reader) {item : Stamped Producer Payload} {rest : List (Stamped Producer Payload)}
      (hbuffer : state.buffer reader = item :: rest) :
      Effect chunkSize state { state with
        buffer := Function.update state.buffer reader rest
        reads := Function.update state.reads reader (state.reads reader ++ [item]) }
  | took (reader : Reader) {message : Message (Stamped Producer Payload)}
      {waiting : List (Message (Stamped Producer Payload))} {item : Stamped Producer Payload}
      {rest : List (Stamped Producer Payload)} (hbuffer : state.buffer reader = [])
      (hwaiting : state.queue.waiting = message :: waiting) (hitems : message.items = item :: rest) :
      Effect chunkSize state { state with
        queue := ⟨waiting, state.queue.taken ++ [(reader, message)]⟩
        buffer := Function.update state.buffer reader rest
        reads := Function.update state.reads reader (state.reads reader ++ [item]) }
  | raised (reader : Reader) {waiting : List (Message (Stamped Producer Payload))}
      (hwaiting : state.queue.waiting = .chunk [] :: waiting) :
      Effect chunkSize state { state with
        queue := ⟨waiting, state.queue.taken ++ [(reader, .chunk [])]⟩ }

theorem get_effect (h : get state reader = some next) : Effect chunkSize state next := by
  rw [get] at h
  split at h
  case h_1 hbuffer =>
    cases h
    exact .buffered reader hbuffer
  case h_2 item waiting hbuffer hwaiting =>
    cases h
    have hsame : Function.update state.buffer reader [] = state.buffer := by
      rw [← hbuffer, Function.update_eq_self]
    have htook : Effect chunkSize state _ := .took reader hbuffer hwaiting (Message.items_bare item)
    rwa [hsame] at htook
  case h_3 item rest waiting hbuffer hwaiting =>
    cases h
    exact .took reader hbuffer hwaiting rfl
  case h_4 waiting hbuffer hwaiting =>
    cases h
    exact .raised reader hwaiting
  case h_5 => cases h

/-- What one step can do. -/
theorem step_effect (h : step chunkSize maxsize chunkS state action = some next) :
    Effect chunkSize state next := by
  cases action with
  | send producer payload now later =>
    simp only [step] at h
    split at h
    · rename_i hidle
      cases h
      exact .call producer hidle (.inr ⟨payload, rfl⟩) (OutputChannel.made_send _ _ now later)
    · cases h
  | maybeFlush producer now =>
    simp only [step] at h
    split at h
    · rename_i hidle
      cases h
      exact .call producer hidle (.inl rfl) (OutputChannel.made_maybeFlush _ now)
    · cases h
  | flush producer =>
    simp only [step] at h
    split at h
    · rename_i hidle
      cases h
      exact .call producer hidle (.inl rfl) (OutputChannel.made_flush _)
    · cases h
  | putDirect producer payload =>
    simp only [step] at h
    split at h
    · rename_i hidle
      cases h
      exact .direct producer payload hidle
    · cases h
  | placed producer =>
    simp only [step] at h
    split at h
    · rename_i message hhand
      split at h
      · cases h
        exact .placed producer hhand
      · cases h
    · cases h
  | get reader => exact get_effect h

/-- No message exceeds the chunk size, and none is empty. -/
theorem Stocked.effect (h : Stocked chunkSize state) (heffect : Effect chunkSize state next) :
    Stocked chunkSize next := by
  cases heffect with
  | @call producer made new hidle hnew hmade =>
    have hordered := hmade.ordered (h.holds producer).size
    have hthrough : ∀ item ∈ handItems made.2 ++ made.1.pending, item.through producer = true := by
      intro item hitem
      rw [hordered, List.mem_append] at hitem
      rcases hitem with hitem | hitem
      · exact (h.holds producer).own item hitem
      · rcases hnew with rfl | ⟨payload, rfl⟩
        · cases hitem
        · rw [List.mem_singleton.mp hitem]
          exact stamp_through state producer payload
    have hlength : new.length ≤ 1 := by
      rcases hnew with rfl | ⟨payload, rfl⟩ <;> simp
    apply h.make new
    · exact ⟨fun item hitem ↦ hthrough item (List.mem_append_right _ hitem),
        hmade.pending_size (h.holds producer).size⟩
    · exact ⟨fun item hitem ↦ producer_of_through (hthrough item (List.mem_append_left _ hitem)),
        fun message ↦ hmade.sized hlength (h.holds producer).size⟩
  | direct producer payload hidle =>
    apply h.make _ (h.holds producer)
    constructor
    · intro item hitem
      rw [handItems_some, Message.items_bare, List.mem_singleton] at hitem
      rw [hitem]
      rfl
    · intro message hmessage
      cases hmessage
      trivial
  | placed producer hhand => exact h.placed hhand
  | buffered => exact ⟨h.holds, h.offers, h.sizes⟩
  | took reader _ hwaiting =>
    refine ⟨h.holds, h.offers, ?_⟩
    intro message hmessage
    rw [Fifo.history_take hwaiting] at hmessage
    exact h.sizes message hmessage
  | raised reader hwaiting =>
    refine ⟨h.holds, h.offers, ?_⟩
    intro message hmessage
    rw [Fifo.history_take hwaiting] at hmessage
    exact h.sizes message hmessage

end Invariant

end GpuPipe.Channel
