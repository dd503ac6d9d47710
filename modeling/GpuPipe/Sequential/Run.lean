import Mathlib.Data.Nat.Notation
import Mathlib.Logic.Function.Basic
import Mathlib.Logic.Function.Iterate

/-!
# Sequential execution

`_sequential_run`: one process calls the root and passes items through a list of pending work,
oldest first, until the root has ended and nothing is pending; then it flushes the stages and
processes what the flushes gave. A step is one turn of a loop of the source. `push` is left out.
`trace` is history that no branch reads.
-/

namespace GpuPipe.Sequential

variable {Item Worker Root : Type}

/-- A Python object other than `None`. -/
inductive Object (Item : Type)
  | fin
  | item (value : Item)
  deriving DecidableEq

/-- An element of a list or generator; `none` is `None`. -/
abbrev Element (Item : Type) := Option (Object Item)

/-- What a stage's call returns. -/
inductive Result (Item : Type)
  | none
  | fin
  | item (value : Item)
  | list (elements : List (Element Item))
  | generator (elements : List (Element Item))
  deriving DecidableEq

def valid : Element Item → Bool
  | some (.item _) => true
  | _ => false

/-- The valid elements, in order. -/
def validItems (elements : List (Element Item)) : List (Object Item) := (elements.filter valid).filterMap id

def Result.added : Result Item → List (Object Item)
  | .none => []
  | .generator elements => validItems elements
  | .fin => []
  | .list elements => validItems elements
  | .item value => [.item value]

/-- The root's list up to its first `End`. -/
def untilEnd : List (Element Item) → List (Object Item)
  | [] => []
  | some .fin :: _ => []
  | none :: rest => untilEnd rest
  | some (.item value) :: rest => .item value :: untilEnd rest

/-- What the loop appends for a result of the root. -/
def Result.rooted : Result Item → List (Object Item)
  | .generator elements => validItems elements
  | .none => []
  | .fin => []
  | .list elements => untilEnd elements
  | .item value => [.item value]

def isEnd : Element Item → Bool
  | some .fin => true
  | _ => false

/-- The root has ended with this result. -/
def Result.endsRoot : Result Item → Bool
  | .generator _ | .fin => true
  | .list elements => elements.any isEnd
  | .none | .item _ => false

/-- A stage after the root: whether it has a `run`, its `batch`, and what its `__call__`, `run` and
`flush` do to the worker's own state. The last component says that it raised; what it had put or
yielded before counts. -/
structure Stage (Item Worker : Type) where
  hasRun : Bool
  batch : ℕ
  call : Worker → List (Object Item) → Worker × Result Item × Bool
  run : Worker → List (Object Item) → Worker × List (Element Item) × Bool
  flush : Option (Worker → Worker × List (Element Item) × Bool)

/-- The jobs: a root and `depth - 1` stages, numbered from 1. -/
structure Pipeline (Item Worker Root : Type) where
  root : Root → Root × Result Item × Bool
  rootStart : Root
  depth : ℕ
  stage : ℕ → Stage Item Worker
  start : ℕ → Worker
  raiseErrors : Bool

inductive Phase
  | looping
  | draining
  | ended
  | failed
  deriving DecidableEq

inductive Event (Item : Type)
  | call (stage : ℕ) (items : List (Object Item))
  | run (stage : ℕ) (items : List (Object Item))
  | flush (stage : ℕ)

structure State (Item Worker Root : Type) where
  phase : Phase
  root : Root
  rootEnded : Bool
  worker : ℕ → Worker
  pending : List (ℕ × Object Item)
  yielded : List (Object Item)
  trace : List (Event Item)

/-- The items of a batch: more pending ones are taken while the first of them is for this stage. -/
def gather (size stage : ℕ) : List (Object Item) → List (ℕ × Object Item) →
    List (Object Item) × List (ℕ × Object Item)
  | batch, [] => (batch, [])
  | batch, (other, item) :: rest =>
    if batch.length < size && other == stage then gather size stage (batch ++ [item]) rest
    else (batch, (other, item) :: rest)

section Steps

variable (pipeline : Pipeline Item Worker Root) (state : State Item Worker Root)

def State.start : State Item Worker Root where
  phase := .looping
  root := pipeline.rootStart
  rootEnded := false
  worker := pipeline.start
  pending := []
  yielded := []
  trace := []

/-- Call the root unless it has ended. Nothing catches what it raises. -/
def callRoot : State Item Worker Root :=
  if state.rootEnded then state
  else
    let (root, result, raised) := pipeline.root state.root
    { state with
      phase := if raised then .failed else state.phase
      root := root
      rootEnded := result.endsRoot
      pending := state.pending ++ result.rooted.map (1, ·) }

/-- The phase after a stage was called. -/
def phaseAfter (raised : Bool) : Phase := if raised && pipeline.raiseErrors then .failed else state.phase

/-- The items of the next call of a stage and what then is pending. -/
def taken (stage : ℕ) (item : Object Item) (rest : List (ℕ × Object Item)) :
    List (Object Item) × List (ℕ × Object Item) :=
  if 0 < (pipeline.stage stage).batch then gather (pipeline.stage stage).batch stage [item] rest
  else ([item], rest)

/-- `_process_callable` with the `try` around it; the item is off the list already. -/
def processCallable (stage : ℕ) (item : Object Item) (rest : List (ℕ × Object Item)) : State Item Worker Root :=
  let (batch, rest) := taken pipeline stage item rest
  let (after, result, raised) := (pipeline.stage stage).call (state.worker stage) batch
  { state with
    phase := phaseAfter pipeline state raised
    worker := Function.update state.worker stage after
    pending := rest ++ result.added.map (stage + 1, ·)
    trace := state.trace ++ [Event.call stage batch] }

/-- A `run()` stage gets all items pending for it. -/
def processRun (stage : ℕ) (item : Object Item) (rest : List (ℕ × Object Item)) : State Item Worker Root :=
  let buffer := item :: (rest.filter fun entry ↦ entry.1 == stage).map Prod.snd
  let remaining := rest.filter fun entry ↦ entry.1 != stage
  let (after, puts, raised) := (pipeline.stage stage).run (state.worker stage) buffer
  { state with
    phase := phaseAfter pipeline state raised
    worker := Function.update state.worker stage after
    pending := remaining ++ (puts.filterMap id).map (stage + 1, ·)
    trace := state.trace ++ [Event.run stage buffer] }

/-- Take the oldest pending item; `main` tells the two loops of the source apart. -/
def processNext (main : Bool) : State Item Worker Root :=
  match state.pending with
  | [] => state
  | (stage, item) :: rest =>
    if pipeline.depth ≤ stage then { state with pending := rest, yielded := state.yielded ++ [item] }
    else if main && (pipeline.stage stage).hasRun then processRun pipeline state stage item rest
    else processCallable pipeline state stage item rest

/-- The flush of one stage; `run()` workers manage their own. -/
def flushStage (stage : ℕ) : State Item Worker Root :=
  match (pipeline.stage stage).hasRun, (pipeline.stage stage).flush with
  | false, some flush =>
    let (after, flushed, raised) := flush (state.worker stage)
    { state with
      phase := if raised then .failed else state.phase
      worker := Function.update state.worker stage after
      pending := state.pending ++ (flushed.filterMap id).map (stage + 1, ·)
      trace := state.trace ++ [Event.flush stage] }
  | _, _ => state

/-- The flushes of the stages up to this one, in order, until one raises. -/
def flushUpTo : ℕ → State Item Worker Root
  | 0 => state
  | stage + 1 =>
    let flushed := flushUpTo stage
    if flushed.phase = .failed then flushed else flushStage pipeline flushed (stage + 1)

/-- A turn of one of the loops, or all the flushes. -/
def step : State Item Worker Root :=
  match state.phase with
  | .looping =>
    if state.rootEnded && state.pending.isEmpty then
      let flushed := flushUpTo pipeline state (pipeline.depth - 1)
      if flushed.phase = .failed then flushed else { flushed with phase := .draining }
    else
      let called := callRoot pipeline state
      if called.phase = .failed then called else processNext pipeline called true
  | .draining =>
    if state.pending.isEmpty then { state with phase := .ended } else processNext pipeline state false
  | .ended | .failed => state

def run (turns : ℕ) : State Item Worker Root := (step pipeline)^[turns] (.start pipeline)

end Steps

end GpuPipe.Sequential
