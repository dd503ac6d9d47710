import GpuPipe.Library.Machine

/-!
# The abstract FIFO queue

What a multi-producer, multi-consumer queue is for: items wait in the order they
were put, and each take hands the oldest one to the consumer that asked for it.
-/

namespace GpuPipe

/-- Waiting items, oldest first, and the items taken so far with their consumers. -/
structure Fifo (Item Consumer : Type*) where
  waiting : List Item
  taken : List (Consumer × Item)

namespace Fifo

variable {Item Consumer : Type*}

inductive Action (Item Consumer : Type*)
  | put (item : Item)
  | take (consumer : Consumer)

def step (fifo : Fifo Item Consumer) : Action Item Consumer → Option (Fifo Item Consumer)
  | .put item => some { fifo with waiting := fifo.waiting ++ [item] }
  | .take consumer =>
    match fifo.waiting with
    | [] => none
    | item :: rest => some ⟨rest, fifo.taken ++ [(consumer, item)]⟩

def machine (Item Consumer : Type*) : Machine (Fifo Item Consumer) (Action Item Consumer) where
  start := ⟨[], []⟩
  step := step

/-- The queue after these puts, of which the first ones were taken by these consumers. -/
def ofHistory (items : List Item) (consumers : List Consumer) : Fifo Item Consumer :=
  ⟨items.drop consumers.length, consumers.zip items⟩

theorem zip_append_left {first : List Consumer} {second : List Item}
    (h : first.length ≤ second.length) (more : List Item) :
    first.zip (second ++ more) = first.zip second := by
  induction first generalizing second with
  | nil => simp
  | cons consumer rest ih =>
    cases second with
    | nil => simp at h
    | cons item items => simp [ih (Nat.le_of_succ_le_succ h)]

theorem step_put {items : List Item} {consumers : List Consumer}
    (h : consumers.length ≤ items.length) (item : Item) :
    step (ofHistory items consumers) (.put item) = some (ofHistory (items ++ [item]) consumers) := by
  simp only [step, ofHistory, List.drop_append_of_le_length h, zip_append_left h]

theorem zip_snoc {consumers : List Consumer} {items : List Item} {item : Item}
    (h : items[consumers.length]? = some item) (consumer : Consumer) :
    (consumers ++ [consumer]).zip items = consumers.zip items ++ [(consumer, item)] := by
  induction consumers generalizing items with
  | nil =>
    cases items with
    | nil => cases h
    | cons first rest => simpa using h
  | cons other consumers ih =>
    cases items with
    | nil => cases h
    | cons first rest => simpa using ih h

theorem step_take {items : List Item} {consumers : List Consumer} {item : Item}
    (h : items[consumers.length]? = some item) (consumer : Consumer) :
    step (ofHistory items consumers) (.take consumer) =
      some (ofHistory items (consumers ++ [consumer])) := by
  obtain ⟨hlt, hitem⟩ := List.getElem?_eq_some_iff.mp h
  have hdrop : items.drop consumers.length = item :: items.drop (consumers.length + 1) := by
    rw [List.drop_eq_getElem_cons hlt, hitem]
  simp only [step, ofHistory, hdrop, List.length_append, List.length_singleton, zip_snoc h]

/-- Everything that was put, in the order it was put. -/
def history (fifo : Fifo Item Consumer) : List Item :=
  fifo.taken.map Prod.snd ++ fifo.waiting

def takenBy [DecidableEq Consumer] (fifo : Fifo Item Consumer) (consumer : Consumer) : List Item :=
  (fifo.taken.filter fun entry ↦ entry.1 = consumer).map Prod.snd

theorem history_put (fifo : Fifo Item Consumer) (item : Item) :
    history { fifo with waiting := fifo.waiting ++ [item] } = fifo.history ++ [item] := by
  simp [history]

theorem history_take {fifo : Fifo Item Consumer} {item : Item} {rest : List Item}
    (h : fifo.waiting = item :: rest) (consumer : Consumer) :
    history ⟨rest, fifo.taken ++ [(consumer, item)]⟩ = fifo.history := by
  simp [history, h]

theorem takenBy_take [DecidableEq Consumer] (fifo : Fifo Item Consumer) (rest : List Item) (item : Item)
    (consumer other : Consumer) :
    takenBy ⟨rest, fifo.taken ++ [(consumer, item)]⟩ other =
      fifo.takenBy other ++ if consumer = other then [item] else [] := by
  by_cases hother : consumer = other <;> simp [takenBy, List.filter_append, hother]

/-- A consumer takes in the order of the puts. -/
theorem takenBy_sublist [DecidableEq Consumer] (fifo : Fifo Item Consumer) (consumer : Consumer) :
    (fifo.takenBy consumer).Sublist fifo.history :=
  (List.filter_sublist.map Prod.snd).trans (List.sublist_append_left _ _)

end Fifo

end GpuPipe
