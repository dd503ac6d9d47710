import Mathlib.Data.List.Perm.Basic
import GpuPipe.Sequential.Run

/-!
# The buffering workers

`Batcher` and `BufferAndShuffle`. The order that `random.shuffle` gives is a parameter.
-/

namespace GpuPipe.Sequential

variable {Item Worker : Type}

structure Buffer (Item : Type) where
  buffer : List (Object Item)
  first : Bool
  deriving DecidableEq

def bufferAndShuffle (size batchSize : ℕ) (shuffle : List (Object Item) → List (Object Item)) :
    Stage Item (Buffer Item) where
  hasRun := false
  batch := 0
  call worker items :=
    let buffer := worker.buffer ++ items
    let limit := if worker.first then batchSize * 4 else size
    if limit < buffer.length then (⟨[], false⟩, .list ((shuffle buffer).map some), false)
    else ({ worker with buffer := buffer }, .none, false)
  run worker _ := (worker, [], true)
  flush := some fun worker ↦
    if worker.buffer = [] then (worker, [], false)
    else ({ worker with buffer := [] }, (shuffle worker.buffer).map some, false)

def Result.returned : Result Item → List (Object Item)
  | .none => []
  | .fin => [.fin]
  | .item value => [.item value]
  | .list elements | .generator elements => elements.filterMap id

/-- Calls and flush together emit each accepted item once, and `held` is what is left to emit. -/
structure EmitsOnce (stage : Stage Item Worker) (held : Worker → List (Object Item)) : Prop where
  call : ∀ worker items, (held worker ++ items).Perm
    (held (stage.call worker items).1 ++ (stage.call worker items).2.1.returned)
  flush : ∀ flush, stage.flush = some flush → ∀ worker, held (flush worker).1 = [] ∧
    (held worker).Perm ((flush worker).2.1.filterMap id)

theorem bufferAndShuffle_emitsOnce (size batchSize : ℕ) {shuffle : List (Object Item) → List (Object Item)}
    (perm : ∀ items, (shuffle items).Perm items) :
    EmitsOnce (bufferAndShuffle size batchSize shuffle) Buffer.buffer where
  call worker items := by
    by_cases full : (if worker.first then batchSize * 4 else size) < (worker.buffer ++ items).length <;>
      simp only [bufferAndShuffle, full, if_true, if_false]
    · simpa [Result.returned] using (perm (worker.buffer ++ items)).symm
    · simp [Result.returned]
  flush flush eq worker := by
    obtain rfl := Option.some.inj eq
    by_cases empty : worker.buffer = []
    · simp [empty]
    · simpa [empty] using (perm worker.buffer).symm

end GpuPipe.Sequential
