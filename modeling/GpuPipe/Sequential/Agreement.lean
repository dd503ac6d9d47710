import Mathlib.Algebra.BigOperators.Group.List.Basic
import Mathlib.Algebra.GroupWithZero.Nat
import Mathlib.Data.List.Perm.Subperm
import GpuPipe.Sequential.Run

/-!
# Agreement of the sequential run with the worker loop

`_worker_run` handles the results of a root and of a later stage in its own code. For stages that
are functions of one item, the sequential run yields what the workers emit, except for what stands
behind an `End` in a list that the root returns.
-/

namespace GpuPipe.Sequential

variable {Item Worker Root : Type}

/-! ## What the workers emit -/

/-- What `_worker_run` emits for the result of a stage with input. -/
def Result.emitted : Result Item → List (Object Item)
  | .none => []
  | .generator elements => validItems elements
  | .fin => validItems [some .fin]
  | .item value => validItems [some (.item value)]
  | .list elements => validItems elements

section Emission

variable (function : ℕ → Object Item → Result Item)

/-- What leaves the last of `count` stages, stage by stage, for these items of the first. -/
def through : ℕ → ℕ → List (Object Item) → List (Object Item)
  | 0, _, items => items
  | count + 1, stage, items => through count (stage + 1) (items.flatMap fun item ↦ (function stage item).emitted)

/-- What a turn yields for a pending item: the item, if it has passed the last stage. -/
def leaving (depth : ℕ) (entry : ℕ × Object Item) : List (Object Item) :=
  if depth ≤ entry.1 then [entry.2] else []

end Emission

/-! ## The two treatments of a result -/

/-- The items behind the first `End`. -/
def afterEnd : List (Element Item) → List (Object Item)
  | [] => []
  | some .fin :: rest => validItems rest
  | none :: rest => afterEnd rest
  | some (.item _) :: rest => afterEnd rest

/-- What the sequential run drops of a result of the root. -/
def Result.dropped : Result Item → List (Object Item)
  | .list elements => afterEnd elements
  | .none | .generator _ | .fin | .item _ => []

section Turns

variable {pipeline : Pipeline Item Worker Root} {function : ℕ → Object Item → Result Item}

section Endless

variable {result : ℕ → Result Item}

end Endless

end Turns

/-! ## The whole run -/

section Agreement

variable {pipeline : Pipeline Item Worker Root} {function : ℕ → Object Item → Result Item}

end Agreement

end GpuPipe.Sequential
