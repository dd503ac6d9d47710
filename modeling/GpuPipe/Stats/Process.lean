import GpuPipe.Stats.Duration

/-!
# One call of a stage

A turn of `_worker_run` or of `_thread_loop` from the call of the stage to the next turn: what comes out is
sent on, and with a `timing_dict` its seconds are added up. What statistics take an item to last is a
parameter here, so that the code can be run with another answer in place of `extract_audio_duration`.
-/

namespace GpuPipe.Stats

/-- What is raised: `ConnectionError` or `FileNotFoundError`, or anything else. -/
inductive Exc
  | connection
  | error
  deriving DecidableEq

structure Stage where
  /-- A `timing_dict` and a `worker_id`. -/
  timing : Bool
  outQueue : Bool
  raiseErrors : Bool
  /-- The frames that the recursion limit leaves to what the loop calls. -/
  frames : ℕ

variable (F A : Type)

/-- What a call meets outside the stage. -/
structure World where
  /-- The stop flags, as read at each item of a generator. -/
  stops : ℕ → Bool
  /-- What sending each item raises. -/
  send : ℕ → Value F A → Option Exc
  /-- What writing to `timing_dict` raises. -/
  record : Option Exc

/-- The variables of the loop. -/
structure Locals where
  /-- `items_processed` -/
  items : ℕ
  /-- `total_audio_duration` -/
  audio : Value F A
  /-- The items and the seconds last written to `timing_dict`. -/
  timingDict : Option (ℕ × Value F A)
  /-- `sent` of `_drain_source_generator`. -/
  drained : ℕ
  /-- The items of this call that were sent. -/
  sent : List (Value F A)

/-- What a middle stage is called with. -/
inductive Inputs
  | batch (items : List (Value F A))
  | single (item : Value F A)

/-- What the call gives: a generator yields its items and may raise at the end. -/
inductive Answer
  | value (result : Value F A)
  | generator (items : List (Value F A)) (fin : Option Exc)
  | raises (exc : Exc)

inductive Call
  | root (answer : Answer F A)
  | middle (inputs : Inputs F A) (answer : Answer F A)

inductive Ending
  | next
  /-- The generator has raised, and the source is called again; whether it had yielded anything. -/
  | again (progress : Bool)
  | leave
  /-- `should_stop.value = 2` -/
  | stop
  | raise
  deriving DecidableEq

abbrev Body := EStateM Exc (Locals F A)

/-- What statistics take a value to last, with so many frames left. -/
abbrev Extract := ℕ → Value F A → Option (Value F A)

variable {F A}

def Ending.continues : Ending → Bool
  | .next | .again _ => true
  | _ => false

def Inputs.items : Inputs F A → List (Value F A)
  | .batch items => items
  | .single item => [item]

def validItems (items : List (Value F A)) : List (Value F A) :=
  items.filter fun item ↦ !(item.isNull || item.isEnd)

theorem validItems_cons (item : Value F A) (items : List (Value F A)) :
    validItems (item :: items) =
      if item.isNull || item.isEnd then validItems items else item :: validItems items := by
  unfold validItems
  rw [List.filter_cons]
  cases item.isNull || item.isEnd <;> rfl

def orRaise {α : Type} : Option α → Body F A α
  | some a => pure a
  | none => throw .error

/-- What is done for the statistics only. -/
def Stage.keepStats (stage : Stage) (act : Body F A PUnit) : Body F A PUnit :=
  if stage.timing then act else pure ⟨⟩

def countItems (n : ℕ) : Body F A PUnit :=
  modify fun s ↦ { s with items := s.items + n }

def publish (world : World F A) : Body F A PUnit :=
  match world.record with
  | some exc => throw exc
  | none => modify fun s ↦ { s with timingDict := some (s.items, s.audio) }

/-- `if items_processed % 10 == 0` -/
def publishTenth (world : World F A) : Body F A PUnit :=
  get >>= fun s ↦ if s.items % 10 == 0 then publish world else pure ⟨⟩

def emit (world : World F A) (index : ℕ) (item : Value F A) : Body F A PUnit :=
  match world.send index item with
  | some exc => throw exc
  | none => modify fun s ↦ { s with sent := s.sent ++ [item] }

def Stage.emit (stage : Stage) (world : World F A) (index : ℕ) (item : Value F A) : Body F A PUnit :=
  if stage.outQueue then Stats.emit world index item else pure ⟨⟩

/-- A result's items, one by one. -/
def emitAll (stage : Stage) (world : World F A) : List (Value F A × ℕ) → Body F A PUnit
  | [] => pure ⟨⟩
  | (item, index) :: rest => do
    stage.emit world index item
    emitAll stage world rest

/-- A middle stage's generator, item by item. -/
def emitGenerated (stage : Stage) (world : World F A) (fin : Option Exc) :
    List (Value F A × ℕ) → Body F A PUnit
  | [] => match fin with
    | some exc => throw exc
    | none => pure ⟨⟩
  | (item, index) :: rest =>
    if world.stops index then pure ⟨⟩
    else if item.isNull || item.isEnd then emitGenerated stage world fin rest
    else do
      stage.emit world index item
      emitGenerated stage world fin rest

section

variable [Floats F] [Objects F A]

/-- `total_audio_duration += d` -/
def addAudio (d : Value F A) : Body F A PUnit := do
  let s ← get
  let total ← orRaise (s.audio.add d)
  set { s with audio := total }

variable (extract : Extract F A) (stage : Stage) (world : World F A)

/-- `_count`, the `on_item` of a root stage's generator, two calls down. -/
def count (item : Value F A) : Body F A PUnit :=
  stage.keepStats do
    countItems 1
    addAudio (← orRaise (extract (stage.frames - 2) item))

/-- The loop of `_drain_source_generator`; an item that cannot be sent is dropped. -/
def drainLoop (fin : Option Exc) : List (Value F A × ℕ) → Body F A PUnit
  | [] => match fin with
    | some exc => throw exc
    | none => pure ⟨⟩
  | (item, index) :: rest =>
    if world.stops index then pure ⟨⟩
    else if item.isNull || item.isEnd then drainLoop fin rest
    else do
      count extract stage item
      modify fun s ↦ { s with drained := s.drained + 1 }
      tryCatch (stage.emit world index item) fun exc ↦
        if exc = .connection ∨ stage.raiseErrors then throw exc else pure ⟨⟩
      drainLoop fin rest

def drainSourceGenerator (items : List (Value F A)) (fin : Option Exc) : Body F A (Bool × ℕ) := do
  modify fun s ↦ { s with drained := 0 }
  let raised ← tryCatch (drainLoop extract stage world fin items.zipIdx >>= fun _ ↦ pure false) fun exc ↦
    if exc = .connection ∨ stage.raiseErrors then throw exc else pure true
  get >>= fun s ↦ pure (raised, s.drained)

/-- A root stage's generator, sent on item by item. -/
def rootGenerator (items : List (Value F A)) (fin : Option Exc) : Body F A Ending := do
  let (raised, sent) ← drainSourceGenerator extract stage world items fin
  if raised then return .again (0 < sent)
  else do
    stage.keepStats (publish world)
    return .leave

/-- Another result of a root stage; only `_worker_run` writes to `timing_dict` here. -/
def rootValue (writesLists : Bool) (result : Value F A) : Body F A Ending :=
  if result.isNull then return .next
  else if result.isEnd then return .leave
  else do
    let valid := validItems result.toList
    stage.keepStats (if valid.isEmpty then pure ⟨⟩ else do
      countItems valid.length
      addAudio (← orRaise (extract stage.frames (.list valid)))
      if writesLists then publish world else pure ⟨⟩)
    emitAll stage world valid.zipIdx
    return if result.toList.any Value.isEnd then .leave else .next

/-- `input_audio`; a batch is gone through by a generator expression. -/
def Inputs.audio : Inputs F A → Option (Value F A)
  | .batch items => do Value.sum (← items.mapM (extract (stage.frames - 1)))
  | .single item => extract stage.frames item

/-- A middle stage's generator; the inputs are looked at with or without statistics. -/
def middleGenerator (inputs : Inputs F A) (items : List (Value F A)) (fin : Option Exc) :
    Body F A Ending := do
  let inputAudio ← orRaise (inputs.audio extract stage)
  emitGenerated stage world fin items.zipIdx
  stage.keepStats do
    countItems inputs.items.length
    addAudio inputAudio
    publishTenth world
  return .next

/-- Another result of a middle stage. -/
def middleValue (inputs : Inputs F A) (result : Value F A) : Body F A Ending := do
  let inputAudio ← orRaise (inputs.audio extract stage)
  if result.isNull then return .next
  else do
    stage.keepStats do
      countItems inputs.items.length
      let d ← orRaise (extract stage.frames (.list result.toList))
      addAudio (if ← orRaise d.truth then d else inputAudio)
      publishTenth world
    emitAll stage world (validItems result.toList).zipIdx
    return .next

/-- The body of the loop, from the call on. -/
def Call.body (writesLists : Bool) : Call F A → Body F A Ending
  | .root (.raises exc) | .middle _ (.raises exc) => throw exc
  | .root (.generator items fin) => rootGenerator extract stage world items fin
  | .root (.value result) => rootValue extract stage world writesLists result
  | .middle inputs (.generator items fin) => middleGenerator extract stage world inputs items fin
  | .middle inputs (.value result) => middleValue extract stage world inputs result

/-- The handlers around the body of the loop. -/
def turn (writesLists : Bool) (call : Call F A) (s : Locals F A) : Ending × Locals F A :=
  match call.body extract stage world writesLists { s with sent := [] } with
  | .ok ending s => (ending, s)
  | .error .connection s => (.stop, s)
  | .error .error s => (if stage.raiseErrors then .raise else .next, s)

def workerRun : Call F A → Locals F A → Ending × Locals F A := turn extract stage world true

def threadLoop : Call F A → Locals F A → Ending × Locals F A := turn extract stage world false

end

end GpuPipe.Stats
