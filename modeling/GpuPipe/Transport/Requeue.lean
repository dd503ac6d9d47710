import Mathlib.Algebra.Order.Group.Multiset
import GpuPipe.Library.Totals
import GpuPipe.Transport.Channel

/-!
# A channel whose buffer goes back to the queue

Any number of `_InputChannel`s and writers on one queue. A channel may put its buffered payloads back as
one chunk, which leaves a list where a deque was: the payloads are all kept, but `popleft` is gone.
-/

namespace GpuPipe.Requeue

open Channel (Message)

/-- `_buf`: a deque at first, a list once it has been put back. -/
inductive Buffer (Item : Type*)
  | deque (items : List Item)
  | list (items : List Item)

inductive Error
  | empty
  | indexError
  | attributeError
  deriving DecidableEq

section Calls

variable {Item : Type*}

namespace Buffer

def items : Buffer Item → List Item
  | deque items | list items => items

@[simp] theorem items_deque (items : List Item) : (deque items).items = items := rfl

@[simp] theorem items_list (items : List Item) : (list items).items = items := rfl

def extend (more : List Item) : Buffer Item → Buffer Item
  | deque items => deque (items ++ more)
  | list items => list (items ++ more)

/-- `popleft()`, which a list does not have. -/
def popleft : Buffer Item → Except Error Item × Buffer Item
  | deque (item :: rest) => (.ok item, deque rest)
  | deque [] => (.error .indexError, deque [])
  | list items => (.error .attributeError, list items)

end Buffer

/-- `get` and `get_nowait`: what the call returns or raises, the buffer and the queue after it. -/
def get (buffer : Buffer Item) (waiting : List (Message Item)) :
    Except Error Item × Buffer Item × List (Message Item) :=
  match buffer.items, waiting with
  | _ :: _, _ => (buffer.popleft.1, buffer.popleft.2, waiting)
  | [], [] => (.error .empty, buffer, [])
  | [], .bare item :: rest => (.ok item, buffer, rest)
  | [], .chunk items :: rest => ((buffer.extend items).popleft.1, (buffer.extend items).popleft.2, rest)

end Calls

/-- A channel, with the chunk its `requeue_buffered` is trying to put. -/
structure Slot (Item : Type*) where
  buffer : Buffer Item
  hand : Option (List Item)

/-- `put`, `returned` and `raised` are history. -/
structure State (Reader Item : Type*) where
  slot : Reader → Slot Item
  waiting : List (Message Item)
  put : List Item
  returned : List (Reader × Item)
  raised : List (Reader × Error)

inductive Action (Reader Item : Type*)
  | put (message : Message Item)
  | get (reader : Reader)
  | requeue (reader : Reader)
  | placed (reader : Reader)

section Steps

variable {Reader Item : Type*} [DecidableEq Reader] (maxsize : ℕ) (state : State Reader Item)

def State.hasRoom : Bool := maxsize = 0 ∨ state.waiting.length < maxsize

def stepGet (reader : Reader) : State Reader Item :=
  let result := get (state.slot reader).buffer state.waiting
  { state with
    slot := Function.update state.slot reader ⟨result.2.1, none⟩
    waiting := result.2.2
    returned :=
      match result.1 with
      | .ok item => state.returned ++ [(reader, item)]
      | .error _ => state.returned
    raised :=
      match result.1 with
      | .ok _ => state.raised
      | .error error => state.raised ++ [(reader, error)] }

/-- `requeue_buffered` up to its put. -/
def stepRequeue (reader : Reader) : State Reader Item :=
  match (state.slot reader).buffer.items with
  | [] => state
  | item :: rest =>
    { state with slot := Function.update state.slot reader ⟨.list [], some (item :: rest)⟩ }

/-- A channel is used by one thread, which is in at most one call. -/
def step : Action Reader Item → Option (State Reader Item)
  | .put message =>
    if state.hasRoom maxsize then
      some { state with waiting := state.waiting ++ [message], put := state.put ++ message.items }
    else none
  | .get reader =>
    match (state.slot reader).hand with
    | none => some (stepGet state reader)
    | some _ => none
  | .requeue reader =>
    match (state.slot reader).hand with
    | none => some (stepRequeue state reader)
    | some _ => none
  | .placed reader =>
    match (state.slot reader).hand with
    | some items =>
      if state.hasRoom maxsize then
        some { state with
          slot := Function.update state.slot reader ⟨(state.slot reader).buffer, none⟩
          waiting := state.waiting ++ [.chunk items] }
      else none
    | none => none

end Steps

/-- New channels on a queue with these messages. -/
def machine (Reader : Type*) {Item : Type*} [DecidableEq Reader] (maxsize : ℕ)
    (content : List (Message Item)) : Machine (State Reader Item) (Action Reader Item) where
  start := ⟨fun _ ↦ ⟨.deque [], none⟩, content, content.flatMap Message.items, [], []⟩
  step := step maxsize

section Conservation

variable {Reader Item : Type*} [DecidableEq Reader] {maxsize : ℕ} {state next : State Reader Item}
  {action : Action Reader Item} {reader : Reader}

/-- The payloads a channel has taken and not returned. -/
def Slot.items (slot : Slot Item) : List Item := slot.buffer.items ++ slot.hand.getD []

def State.queued (state : State Reader Item) : List Item := state.waiting.flatMap Message.items

/-- What is returned, buffered and queued is what was put, each once. -/
def Conserved [Fintype Reader] (state : State Reader Item) : Prop :=
  (state.returned.map Prod.snd : Multiset Item) + ∑ reader, ((state.slot reader).items : Multiset Item) +
    state.queued = state.put

def gotItems : Except Error Item → List Item
  | .ok item => [item]
  | .error _ => []

@[simp] theorem Buffer.items_extend (buffer : Buffer Item) (more : List Item) :
    (buffer.extend more).items = buffer.items ++ more := by
  cases buffer <;> rfl

/-- `popleft()` returns the first item or leaves the buffer as it was. -/
theorem Buffer.popleft_items (buffer : Buffer Item) :
    gotItems buffer.popleft.1 ++ buffer.popleft.2.items = buffer.items := by
  rcases buffer with (_ | ⟨item, rest⟩) | items <;> rfl

/-- A call of `get` moves payloads from the queue to the buffer to the caller, in their order. -/
theorem get_items (buffer : Buffer Item) (waiting : List (Message Item)) :
    gotItems (get buffer waiting).1 ++ (get buffer waiting).2.1.items ++
      (get buffer waiting).2.2.flatMap Message.items =
        buffer.items ++ waiting.flatMap Message.items := by
  unfold get
  split
  · rw [buffer.popleft_items]
  · simp [gotItems]
  · rename_i hitems
    simp [gotItems, hitems]
  · rename_i hitems
    rw [Buffer.popleft_items, Buffer.items_extend, hitems]
    simp

inductive Effect (state : State Reader Item) : State Reader Item → Prop
  | none : Effect state state
  | wrote (message : Message Item) :
      Effect state { state with waiting := state.waiting ++ [message], put := state.put ++ message.items }
  | moved (reader : Reader) (raised : List (Reader × Error)) {slot : Slot Item}
      {waiting : List (Message Item)} {got : List Item}
      (hsame : (got : Multiset Item) + slot.items + (waiting.flatMap Message.items : Multiset Item) =
        ((state.slot reader).items + state.queued : Multiset Item)) :
      Effect state { state with
        slot := Function.update state.slot reader slot
        waiting := waiting
        returned := state.returned ++ got.map (reader, ·)
        raised := raised }

theorem stepGet_effect (hidle : (state.slot reader).hand = none) :
    Effect state (stepGet state reader) := by
  have hitems := get_items (state.slot reader).buffer state.waiting
  have hsame : (gotItems (get (state.slot reader).buffer state.waiting).1 : Multiset Item) +
      Slot.items ⟨(get (state.slot reader).buffer state.waiting).2.1, none⟩ +
      ((get (state.slot reader).buffer state.waiting).2.2.flatMap Message.items : Multiset Item) =
        ((state.slot reader).items + state.queued : Multiset Item) := by
    simp only [Slot.items, hidle, Option.getD_none, List.append_nil, State.queued, Multiset.coe_add, hitems]
  have heffect := Effect.moved reader (stepGet state reader).raised hsame
  rw [stepGet]
  cases hresult : (get (state.slot reader).buffer state.waiting).1 <;>
    simpa [hresult, gotItems, stepGet] using heffect

theorem stepRequeue_effect (hidle : (state.slot reader).hand = none) :
    Effect state (stepRequeue state reader) := by
  rw [stepRequeue]
  split
  · exact .none
  · rename_i item rest hitems
    have hsame : (([] : List Item) : Multiset Item) + Slot.items ⟨.list [], some (item :: rest)⟩ +
        (state.waiting.flatMap Message.items : Multiset Item) =
          ((state.slot reader).items + state.queued : Multiset Item) := by
      simp [Slot.items, hidle, hitems, State.queued]
    have heffect := Effect.moved reader state.raised hsame
    simpa using heffect

theorem placed_effect {items : List Item} (hhand : (state.slot reader).hand = some items) :
    Effect state { state with
      slot := Function.update state.slot reader ⟨(state.slot reader).buffer, none⟩
      waiting := state.waiting ++ [.chunk items] } := by
  have hsame : (([] : List Item) : Multiset Item) + Slot.items ⟨(state.slot reader).buffer, none⟩ +
      ((state.waiting ++ [Message.chunk items]).flatMap Message.items : Multiset Item) =
        ((state.slot reader).items + state.queued : Multiset Item) := by
    simp only [Slot.items, hhand, Option.getD_none, Option.getD_some, State.queued, List.flatMap_append,
      List.append_nil, ← Multiset.coe_add, Multiset.coe_nil, zero_add, List.flatMap_singleton,
      Channel.Message.items_chunk]
    abel
  have heffect := Effect.moved reader state.raised hsame
  simpa using heffect

/-- What one step does with the payloads. -/
theorem step_effect (h : step maxsize state action = some next) : Effect state next := by
  cases action with
  | put message =>
    simp only [step] at h
    split at h
    · cases h
      exact .wrote message
    · cases h
  | get reader =>
    simp only [step] at h
    split at h
    · rename_i hidle
      cases h
      exact stepGet_effect hidle
    · cases h
  | requeue reader =>
    simp only [step] at h
    split at h
    · rename_i hidle
      cases h
      exact stepRequeue_effect hidle
    · cases h
  | placed reader =>
    simp only [step] at h
    split at h
    · rename_i items hhand
      split at h
      · cases h
        exact placed_effect hhand
      · cases h
    · cases h

/-- No step loses a payload or makes a second one of it. -/
theorem Conserved.effect [Fintype Reader] (h : Conserved state) (heffect : Effect state next) :
    Conserved next := by
  cases heffect with
  | none => exact h
  | wrote message =>
    rw [Conserved] at h ⊢
    simp only [State.queued, List.flatMap_append, List.flatMap_singleton, ← Multiset.coe_add] at h ⊢
    rw [← add_assoc, h]
  | @moved reader raised slot waiting got hsame =>
    have hbalance : (slot.items : Multiset Item) +
        ((got : Multiset Item) + (waiting.flatMap Message.items : Multiset Item)) =
          ((state.slot reader).items : Multiset Item) + state.queued := by
      rw [← hsame]
      abel
    have htotal := sum_update_add_of_balance (fun slot : Slot Item ↦ (slot.items : Multiset Item)) state.slot
      reader slot hbalance
    rw [Conserved] at h ⊢
    have hreturned : ((state.returned ++ got.map (reader, ·)).map Prod.snd : Multiset Item) =
        (state.returned.map Prod.snd : Multiset Item) + got := by
      simp [Function.comp_def]
    rw [hreturned]
    calc
      (state.returned.map Prod.snd : Multiset Item) + got +
            ∑ other, ((Function.update state.slot reader slot other).items : Multiset Item) +
            (waiting.flatMap Message.items : Multiset Item) =
          (state.returned.map Prod.snd : Multiset Item) +
            (∑ other, ((Function.update state.slot reader slot other).items : Multiset Item) +
              ((got : Multiset Item) + (waiting.flatMap Message.items : Multiset Item))) := by abel
      _ = (state.put : Multiset Item) := by rw [htotal, ← add_assoc, h]

theorem conserved_start [Fintype Reader] (content : List (Message Item)) :
    Conserved (machine Reader maxsize content).start := by
  simp [Conserved, machine, Slot.items, State.queued]

/-- Nothing is lost or doubled, whatever the calls raise. -/
theorem conserved_of_run [Fintype Reader] {content : List (Message Item)} {actions : List (Action Reader Item)}
    (hrun : (machine Reader maxsize content).runFrom (machine Reader maxsize content).start actions =
      some next) : Conserved next :=
  Machine.run_invariant Conserved (fun _ _ _ hstate hstep ↦ hstate.effect (step_effect hstep))
    (conserved_start content) hrun

end Conservation

section Raises

variable {Reader Item : Type*} [DecidableEq Reader] {maxsize : ℕ} {state next : State Reader Item}
  {action : Action Reader Item} {reader : Reader} {buffer : Buffer Item} {waiting : List (Message Item)}

/-- A chunk is taken only into a deque, and only with something in it. -/
def takesSoundly : Buffer Item → List (Message Item) → Bool
  | .list _, .chunk _ :: _ => false
  | .deque [], .chunk [] :: _ => false
  | _, _ => true

/-- The call does not take a chunk on a channel that has put its buffer back, nor an empty one. -/
def sound (state : State Reader Item) : Action Reader Item → Bool
  | .get reader => takesSoundly (state.slot reader).buffer state.waiting
  | _ => true

/-- What became a list is empty. -/
def Buffer.Tidy (buffer : Buffer Item) : Prop := ∀ items, buffer = .list items → items = []

/-- The calls have raised nothing but `Empty`. -/
def OnlyEmpty (state : State Reader Item) : Prop := ∀ entry ∈ state.raised, entry.2 = .empty

theorem tidy_deque (items : List Item) : (Buffer.deque items).Tidy := fun _ h ↦ nomatch h

theorem tidy_list : (Buffer.list ([] : List Item)).Tidy := by
  intro items h
  cases h
  rfl

/-- A `get` raises nothing but `Empty` exactly if it takes soundly. -/
theorem get_raises (h : buffer.Tidy) :
    (∀ error, (get buffer waiting).1 = .error error → error = .empty) ↔
      takesSoundly buffer waiting = true := by
  rcases buffer with (_ | ⟨item, rest⟩) | items
  · rcases waiting with _ | ⟨item | (_ | ⟨item, items⟩), rest⟩ <;>
      simp [get, takesSoundly, Buffer.extend, Buffer.popleft]
  · simp [get, takesSoundly, Buffer.popleft]
  · obtain rfl := h items rfl
    rcases waiting with _ | ⟨item | items, rest⟩ <;>
      simp [get, takesSoundly, Buffer.extend, Buffer.popleft]

theorem get_tidy (h : buffer.Tidy) (hsound : takesSoundly buffer waiting = true) :
    (get buffer waiting).2.1.Tidy := by
  rcases buffer with (_ | ⟨item, rest⟩) | items
  · rcases waiting with _ | ⟨item | (_ | ⟨item, items⟩), rest⟩
    · exact tidy_deque []
    · exact tidy_deque []
    · cases hsound
    · exact tidy_deque items
  · exact tidy_deque rest
  · obtain rfl := h items rfl
    rcases waiting with _ | ⟨item | items, rest⟩
    · exact tidy_list
    · exact tidy_list
    · cases hsound

theorem onlyEmpty_stepGet : OnlyEmpty (stepGet state reader) ↔ OnlyEmpty state ∧
    ∀ error, (get (state.slot reader).buffer state.waiting).1 = .error error → error = .empty := by
  rw [stepGet, OnlyEmpty, OnlyEmpty]
  cases (get (state.slot reader).buffer state.waiting).1 with
  | ok item => simp
  | error error => simp [or_imp, forall_and]

/-- While nothing but `Empty` has been raised, what became a list is empty. -/
def TidyWhileSound (state : State Reader Item) : Prop :=
  OnlyEmpty state → ∀ reader, (state.slot reader).buffer.Tidy

theorem tidy_update {slot : Slot Item} (h : ∀ reader, (state.slot reader).buffer.Tidy)
    (hslot : slot.buffer.Tidy) (other : Reader) :
    (Function.update state.slot reader slot other).buffer.Tidy := by
  rcases eq_or_ne other reader with rfl | hne
  · rwa [Function.update_self]
  · rw [Function.update_of_ne hne]
    exact h other

/-- A step raises something else than `Empty` exactly when it is not sound. -/
theorem step_sound (h : TidyWhileSound state) (hstep : step maxsize state action = some next) :
    TidyWhileSound next ∧ (OnlyEmpty next ↔ OnlyEmpty state ∧ sound state action = true) := by
  cases action with
  | put message =>
    simp only [step] at hstep
    split at hstep
    · cases hstep
      exact ⟨h, by simp [sound, OnlyEmpty]⟩
    · cases hstep
  | get reader =>
    simp only [step] at hstep
    split at hstep
    · cases hstep
      have hraises : OnlyEmpty (stepGet state reader) ↔ OnlyEmpty state ∧
          sound state (.get reader) = true := by
        rw [onlyEmpty_stepGet]
        exact and_congr_right fun hclean ↦ get_raises (h hclean reader)
      refine ⟨fun hclean ↦ ?_, hraises⟩
      obtain ⟨hbefore, hsound⟩ := hraises.mp hclean
      exact tidy_update (h hbefore) (get_tidy (h hbefore reader) hsound)
    · cases hstep
  | requeue reader =>
    simp only [step] at hstep
    split at hstep
    · cases hstep
      rw [stepRequeue]
      split
      · exact ⟨h, by simp [sound]⟩
      · exact ⟨fun hclean ↦ tidy_update (h hclean) tidy_list, by simp [sound, OnlyEmpty]⟩
    · cases hstep
  | placed reader =>
    simp only [step] at hstep
    split at hstep
    · split at hstep
      · cases hstep
        exact ⟨fun hclean ↦ tidy_update (h hclean) (h hclean reader), by simp [sound, OnlyEmpty]⟩
      · cases hstep
    · cases hstep

/-- Payloads are kept in every run, and nothing but `Empty` is raised in exactly those runs where no
channel takes a chunk after it has put its buffer back, nor an empty chunk. -/
theorem requeue_sound_iff [Fintype Reader] (content : List (Message Item))
    (actions : List (Action Reader Item))
    (hrun : (machine Reader maxsize content).runFrom (machine Reader maxsize content).start actions =
      some next) :
    (Conserved next ∧ OnlyEmpty next) ↔
      ((machine Reader maxsize content).restrict sound).runFrom (machine Reader maxsize content).start
        actions = some next := by
  have hclean : OnlyEmpty next ↔ OnlyEmpty (machine Reader maxsize content).start ∧
      ((machine Reader maxsize content).restrict sound).runFrom (machine Reader maxsize content).start
        actions = some next :=
    Machine.clean_iff_restrict TidyWhileSound OnlyEmpty
      (fun _ _ _ hstate hstep ↦ step_sound hstate hstep) (fun _ _ ↦ tidy_deque []) hrun
  have hstart : OnlyEmpty (machine Reader maxsize content).start := nofun
  rw [and_iff_right (conserved_of_run hrun), hclean, and_iff_right hstart]

/-- One channel puts back what another one then takes. -/
theorem requeue_sound_twoReaders :
    ∃ last, (machine Bool 4 [.chunk [1, 2, 3]]).runFrom (machine Bool 4 [.chunk [1, 2, 3]]).start
        [.get true, .requeue true, .placed true, .get false] = some last ∧
      ((Conserved last ∧ OnlyEmpty last) ↔
        ((machine Bool 4 [.chunk [1, 2, 3]]).restrict sound).runFrom
          (machine Bool 4 [.chunk [1, 2, 3]]).start
          [.get true, .requeue true, .placed true, .get false] = some last) :=
  ⟨_, rfl, requeue_sound_iff [.chunk [1, 2, 3]] [.get true, .requeue true, .placed true, .get false] rfl⟩

/-- A channel that takes back what it put back raises. -/
theorem not_requeue_sound :
    ∃ last, (machine Unit 4 [.chunk [1, 2, 3]]).runFrom (machine Unit 4 [.chunk [1, 2, 3]]).start
        [.get (), .requeue (), .placed (), .get ()] = some last ∧
      last.raised = [((), .attributeError)] ∧ ¬ (Conserved last ∧ OnlyEmpty last) := by
  refine ⟨_, rfl, rfl, ?_⟩
  rintro ⟨-, hclean⟩
  exact absurd (hclean ((), .attributeError) (List.mem_singleton_self _)) nofun

end Raises

end GpuPipe.Requeue
