import GpuPipe.Library.Machine
import GpuPipe.Pipeline.Loop

/-!
# A running pipeline

Stages, their worker processes and threads, the queues between them, the per-stage end
counters and done events, and the reader of `Pipe.__iter__`. Every queue operation, event
test, event set and counter increment is a step of its own. How long a queue stays full, what
a stage's calls produce and when clocks run out is left to the actions. `log`, `made`, `taken`
and `counted` are history that no branch reads.
-/

namespace GpuPipe.Pipeline

variable {Payload : Type}

/-- Stages in order, `EMPTY_THRESHOLD` of the worker loops, and `expected_consumers`. -/
structure Config where
  depth : ℕ
  stage : ℕ → Stage
  threshold : ℕ
  consumers : ℕ

namespace Config

variable (config : Config)

def root (stage : ℕ) : Bool := stage = 0

def loops (stage : ℕ) : ℕ := (config.stage stage).loops (root stage)

def custom (stage : ℕ) : Bool := (config.stage stage).custom (root stage)

def hasSlot (stage slot : ℕ) : Bool := stage < config.depth && slot < (config.stage stage).workers

def ends (stage : ℕ) : ℕ := if stage + 1 = config.depth then config.consumers else 1

end Config

/-- The main thread of a worker process: the threaded worker's `flush()`, the steps of
`_finish_worker`, `_park_release_gpu`, and the wait until the pipeline stops. -/
inductive Main (Payload : Type)
  | working
  | flushing
  | counting
  | counted (number : ℕ)
  | ending (left : ℕ)
  | signalling
  | releasing
  | parking (todo pending : List Payload)
  | parked
  | dead
  deriving DecidableEq

def Main.past : Main Payload → Bool
  | .counted _ | .ending _ | .signalling | .releasing | .parking _ _ | .parked => true
  | _ => false

def Main.alive : Main Payload → Bool
  | .dead => false
  | _ => true

/-- A worker slot. `stop` is `thread_stop`; `counted` remembers that some process of the slot
has added itself to the end counter. -/
structure Slot (Payload : Type) where
  main : Main Payload
  loop : ℕ → Loop Payload
  stop : Bool
  counted : Bool

def Slot.start (custom : Bool) : Slot Payload where
  main := .working
  loop := fun _ ↦ .start custom
  stop := false
  counted := false

/-- Who put a message: a thread of a worker process, or its main thread. -/
structure Producer where
  stage : ℕ
  slot : ℕ
  thread : Option ℕ
  deriving DecidableEq

/-- What happened on a stage's output, in order. -/
inductive Entry (Payload : Type)
  | put (producer : Producer) (payloads : List Payload)
  | fin
  | done
  deriving DecidableEq

def Entry.payloads : Entry Payload → List Payload
  | .put _ payloads => payloads
  | _ => []

def Entry.payloadsOf (producer : Producer) : Entry Payload → List Payload
  | .put other payloads => if other = producer then payloads else []
  | _ => []

/-- An `End` put or the done event set. -/
def Entry.closes : Entry Payload → Bool
  | .put _ _ => false
  | _ => true

inductive ReaderPc
  | head
  | polled (wasDone : Bool)
  | returned
  deriving DecidableEq

structure Reader (Payload : Type) where
  pc : ReaderPc
  buffer : List Payload
  empties : ℕ
  yielded : List Payload

structure State (Payload : Type) where
  slot : ℕ × ℕ → Slot Payload
  queue : ℕ → List (Message Payload)
  count : ℕ → ℕ
  done : ℕ → Bool
  reader : Reader Payload
  log : ℕ → List (Entry Payload)
  made : Producer → List Payload
  taken : ℕ → List Payload

def State.start (config : Config) : State Payload where
  slot := fun place ↦ .start (config.custom place.1)
  queue := fun _ ↦ []
  count := fun _ ↦ 0
  done := fun _ ↦ false
  reader := { pc := .head, buffer := [], empties := 0, yielded := [] }
  log := fun _ ↦ []
  made := fun _ ↦ []
  taken := fun _ ↦ []

inductive MainMove (Payload : Type)
  | leave
  | flushItem (payload : Payload) (accepted : Bool)
  | flushed
  | count
  | compare
  | putEnd (accepted : Bool)
  | allEnds
  | setDone
  | release (results : List Payload)
  | parkSend
  | parkFlush
  | parkDone

inductive ReaderMove
  | get
  | empty
  | test

inductive Action (Payload : Type)
  | thread (stage slot thread : ℕ) (move : Move Payload)
  | main (stage slot : ℕ) (move : MainMove Payload)
  | reader (move : ReaderMove)
  | die (stage slot : ℕ)
  | respawn (stage slot : ℕ)

section Steps

variable (config : Config) (state : State Payload)

def State.take (stage : ℕ) : State Payload :=
  { state with
    queue := Function.update state.queue stage (state.queue stage).tail
    taken := Function.update state.taken stage
      (state.taken stage ++ (state.queue stage).head?.elim [] Message.payloads) }

def State.send (producer : Producer) (payloads : List Payload) : State Payload :=
  { state with
    queue := Function.update state.queue producer.stage (state.queue producer.stage ++ [.items payloads])
    log := Function.update state.log producer.stage (state.log producer.stage ++ [.put producer payloads]) }

def State.make (producer : Producer) (payloads : List Payload) : State Payload :=
  { state with made := Function.update state.made producer (state.made producer ++ payloads) }

def State.setSlot (stage slot : ℕ) (value : Slot Payload) : State Payload :=
  { state with slot := Function.update state.slot (stage, slot) value }

def State.setMain (stage slot : ℕ) (main : Main Payload) : State Payload :=
  state.setSlot stage slot { state.slot (stage, slot) with main := main }

/-- What a thread of a stage sees: the previous stage's queue and done event. -/
def State.view (stage slot : ℕ) : View Payload where
  input := state.queue (stage - 1)
  upstreamDone := state.done (stage - 1)
  stop := (state.slot (stage, slot)).stop

/-- Do to the shared objects what a thread's move does. -/
def State.apply (stage slot thread : ℕ) (outcome : Outcome Payload) : State Payload :=
  let producer : Producer := { stage := stage, slot := slot, thread := some thread }
  let taken := if outcome.took then state.take (stage - 1) else state
  let sent := outcome.sent.elim taken (taken.send producer)
  let before := state.slot (stage, slot)
  (sent.make producer outcome.made).setSlot stage slot
    { before with
      loop := Function.update before.loop thread outcome.loop
      stop := before.stop || outcome.stops }

def stepThread (stage slot thread : ℕ) (move : Move Payload) : Option (State Payload) :=
  if (state.slot (stage, slot)).main.alive && thread < config.loops stage then
    (loopStep (config.stage stage) (Config.root stage) config.threshold (state.view stage slot)
      ((state.slot (stage, slot)).loop thread) move).map (state.apply stage slot thread)
  else none

/-- Every pool thread's future is done. -/
def State.allEnded (stage slot : ℕ) : Bool :=
  (List.range (config.loops stage)).all fun thread ↦
    match ((state.slot (stage, slot)).loop thread).pc with
    | .ended => true
    | _ => false

def stepMain (stage slot : ℕ) (move : MainMove Payload) : Option (State Payload) :=
  let producer : Producer := { stage := stage, slot := slot, thread := none }
  match move, (state.slot (stage, slot)).main with
  | .leave, .working =>
    if (config.stage stage).threaded && !config.custom stage then
      -- The main thread of a pool also goes on when a thread has set `thread_stop`.
      if state.allEnded config stage slot || (state.slot (stage, slot)).stop then
        some (state.setSlot stage slot { state.slot (stage, slot) with main := .flushing, stop := true })
      else none
    else if state.allEnded config stage slot then some (state.setMain stage slot .counting)
    else none
  | .flushItem payload accepted, .flushing =>
    -- `out_queue.put(item, timeout=1)`: a full queue ends the flush.
    if accepted then some ((state.send producer [payload]).make producer [payload])
    else some ((state.make producer [payload]).setMain stage slot .counting)
  | .flushed, .flushing => some (state.setMain stage slot .counting)
  | .count, .counting =>
    some (State.setSlot
      { state with count := Function.update state.count stage (state.count stage + 1) } stage slot
      { state.slot (stage, slot) with main := .counted (state.count stage + 1), counted := true })
  | .compare, .counted number =>
    some (state.setMain stage slot
      (if number < (config.stage stage).workers then .releasing else .ending (config.ends stage)))
  | .putEnd accepted, .ending (left + 1) =>
    if accepted then
      some (State.setMain
        { state with
          queue := Function.update state.queue stage (state.queue stage ++ [.fin])
          log := Function.update state.log stage (state.log stage ++ [.fin]) } stage slot (.ending left))
    else some (state.setMain stage slot .signalling)
  | .allEnds, .ending 0 => some (state.setMain stage slot .signalling)
  | .setDone, .signalling =>
    some (State.setMain
      { state with
        done := Function.update state.done stage true
        log := Function.update state.log stage (state.log stage ++ [.done]) } stage slot .releasing)
  | .release results, .releasing =>
    -- A threaded worker has no channel for what `on_park` returns.
    if (config.stage stage).threaded then some (state.setMain stage slot .parked)
    else some ((state.make producer results).setMain stage slot (.parking results []))
  | .parkSend, .parking (payload :: todo) pending =>
    if !pending.isEmpty && (config.stage stage).chunk ≤ pending.length then none
    else some (state.setMain stage slot (.parking todo (pending ++ [payload])))
  | .parkFlush, .parking todo (payload :: pending) =>
    some ((state.send producer (payload :: pending)).setMain stage slot (.parking todo []))
  | .parkDone, .parking [] [] => some (state.setMain stage slot .parked)
  | _, _ => none

/-- `Pipe.__iter__` over the final queue; its own threshold is five polls. -/
def stepReader (move : ReaderMove) : Option (State Payload) :=
  let final := config.depth - 1
  let reader := state.reader
  match move, reader.pc with
  | .get, .head =>
    match receive reader.buffer (state.queue final) with
    | none => none
    | some (payload, buffer, took) =>
      let taken := if took then state.take final else state
      some { taken with
        reader := { reader with
          buffer := buffer, empties := 0, yielded := reader.yielded ++ payload.toList } }
  | .empty, .head =>
    match reader.buffer, state.queue final with
    | [], [] =>
      some { state with
        reader := { reader with pc := .polled (state.done final), empties := reader.empties + 1 } }
    | _, _ => none
  | .test, .polled _ =>
    some { state with
      reader := { reader with pc := if state.done final && 5 ≤ reader.empties then .returned else .head } }
  | _, _ => none

def step : Action Payload → Option (State Payload)
  | .thread stage slot thread move =>
    if config.hasSlot stage slot then stepThread config state stage slot thread move else none
  | .main stage slot move =>
    if config.hasSlot stage slot then stepMain config state stage slot move else none
  | .reader move => stepReader config state move
  | .die stage slot =>
    -- Everything the process had in its memory goes with it.
    if config.hasSlot stage slot && (state.slot (stage, slot)).main.alive then
      some (state.setSlot stage slot
        { state.slot (stage, slot) with main := .dead, loop := fun _ ↦ .gone, stop := false })
    else none
  | .respawn stage slot =>
    -- `_restart_worker`: a new process with the slot's old arguments.
    if config.hasSlot stage slot && !(state.slot (stage, slot)).main.alive then
      some (state.setSlot stage slot
        { Slot.start (config.custom stage) with counted := (state.slot (stage, slot)).counted })
    else none

end Steps

/-- A pipeline whose workers may die and be respawned. -/
def machine (Payload : Type) (config : Config) : Machine (State Payload) (Action Payload) where
  start := .start config
  step := step config

/-! ## What the updates leave alone -/

section Frame

variable {config : Config} {state next : State Payload} {stage slot thread : ℕ} {outcome : Outcome Payload}

@[simp] theorem setSlot_slot (value : Slot Payload) :
    (state.setSlot stage slot value).slot = Function.update state.slot (stage, slot) value := rfl

@[simp] theorem setSlot_count (value : Slot Payload) : (state.setSlot stage slot value).count = state.count := rfl

@[simp] theorem send_log (producer : Producer) (payloads : List Payload) : (state.send producer payloads).log =
    Function.update state.log producer.stage (state.log producer.stage ++ [.put producer payloads]) := rfl

/-- A thread's move changes its own loop and its process's `thread_stop`. -/
theorem apply_slot : (state.apply stage slot thread outcome).slot =
    Function.update state.slot (stage, slot)
      { state.slot (stage, slot) with
        loop := Function.update (state.slot (stage, slot)).loop thread outcome.loop
        stop := (state.slot (stage, slot)).stop || outcome.stops } := by
  rcases outcome with ⟨loop, took, sent, made, stops⟩
  cases took <;> cases sent <;> rfl

theorem apply_count : (state.apply stage slot thread outcome).count = state.count := by
  rcases outcome with ⟨loop, took, sent, made, stops⟩
  cases took <;> cases sent <;> rfl

theorem apply_done : (state.apply stage slot thread outcome).done = state.done := by
  rcases outcome with ⟨loop, took, sent, made, stops⟩
  cases took <;> cases sent <;> rfl

theorem apply_reader : (state.apply stage slot thread outcome).reader = state.reader := by
  rcases outcome with ⟨loop, took, sent, made, stops⟩
  cases took <;> cases sent <;> rfl

theorem apply_made : (state.apply stage slot thread outcome).made =
    Function.update state.made ⟨stage, slot, some thread⟩
      (state.made ⟨stage, slot, some thread⟩ ++ outcome.made) := by
  rcases outcome with ⟨loop, took, sent, made, stops⟩
  cases took <;> cases sent <;> rfl

theorem apply_log : (state.apply stage slot thread outcome).log =
    Function.update state.log stage
      (state.log stage ++ (outcome.sent.map (Entry.put ⟨stage, slot, some thread⟩)).toList) := by
  rcases outcome with ⟨loop, took, sent, made, stops⟩
  cases took <;> cases sent <;> simp [State.apply, State.take, State.send, State.make, State.setSlot]

/-- A thread step is a local move of a thread that exists, done to the shared objects. -/
theorem step_thread_cases {move : Move Payload} (h : step config state (.thread stage slot thread move) = some next) :
    stage < config.depth ∧ slot < (config.stage stage).workers ∧ thread < config.loops stage ∧
      ∃ outcome, loopStep (config.stage stage) (Config.root stage) config.threshold (state.view stage slot)
        ((state.slot (stage, slot)).loop thread) move = some outcome ∧
        next = state.apply stage slot thread outcome := by
  simp only [step] at h
  split at h
  · rename_i hbounds
    simp only [Config.hasSlot, Bool.and_eq_true, decide_eq_true_eq] at hbounds
    simp only [stepThread] at h
    split at h
    · rename_i halive
      simp only [Bool.and_eq_true, decide_eq_true_eq] at halive
      rw [Option.map_eq_some_iff] at h
      obtain ⟨outcome, houtcome, rfl⟩ := h
      exact ⟨hbounds.1, hbounds.2, halive.2, outcome, houtcome, rfl⟩
    · cases h
  · cases h

theorem step_main_cases {move : MainMove Payload} (h : step config state (.main stage slot move) = some next) :
    stage < config.depth ∧ slot < (config.stage stage).workers ∧
      stepMain config state stage slot move = some next := by
  simp only [step] at h
  split at h
  · rename_i hbounds
    simp only [Config.hasSlot, Bool.and_eq_true, decide_eq_true_eq] at hbounds
    exact ⟨hbounds.1, hbounds.2, h⟩
  · cases h

/-- What a main thread can do. -/
inductive MainStep (config : Config) (state : State Payload) (stage slot : ℕ) :
    MainMove Payload → State Payload → Prop
  | leavePool (hmain : (state.slot (stage, slot)).main = .working)
      (hpool : ((config.stage stage).threaded && !config.custom stage) = true)
      (hended : state.allEnded config stage slot = true ∨ (state.slot (stage, slot)).stop = true) :
      MainStep config state stage slot .leave
        (state.setSlot stage slot { state.slot (stage, slot) with main := .flushing, stop := true })
  | leave (hmain : (state.slot (stage, slot)).main = .working)
      (hpool : ((config.stage stage).threaded && !config.custom stage) = false)
      (hended : state.allEnded config stage slot = true) :
      MainStep config state stage slot .leave (state.setMain stage slot .counting)
  | flushItem (payload : Payload) (hmain : (state.slot (stage, slot)).main = .flushing) :
      MainStep config state stage slot (.flushItem payload true)
        ((state.send ⟨stage, slot, none⟩ [payload]).make ⟨stage, slot, none⟩ [payload])
  | flushFull (payload : Payload) (hmain : (state.slot (stage, slot)).main = .flushing) :
      MainStep config state stage slot (.flushItem payload false)
        ((state.make ⟨stage, slot, none⟩ [payload]).setMain stage slot .counting)
  | flushed (hmain : (state.slot (stage, slot)).main = .flushing) :
      MainStep config state stage slot .flushed (state.setMain stage slot .counting)
  | count (hmain : (state.slot (stage, slot)).main = .counting) :
      MainStep config state stage slot .count
        (State.setSlot { state with count := Function.update state.count stage (state.count stage + 1) } stage slot
          { state.slot (stage, slot) with main := .counted (state.count stage + 1), counted := true })
  | compareFew (number : ℕ) (hmain : (state.slot (stage, slot)).main = .counted number)
      (hfew : number < (config.stage stage).workers) :
      MainStep config state stage slot .compare (state.setMain stage slot .releasing)
  | compareAll (number : ℕ) (hmain : (state.slot (stage, slot)).main = .counted number)
      (hall : (config.stage stage).workers ≤ number) :
      MainStep config state stage slot .compare (state.setMain stage slot (.ending (config.ends stage)))
  | putEnd (left : ℕ) (hmain : (state.slot (stage, slot)).main = .ending (left + 1)) :
      MainStep config state stage slot (.putEnd true)
        (State.setMain
          { state with
            queue := Function.update state.queue stage (state.queue stage ++ [Message.fin])
            log := Function.update state.log stage (state.log stage ++ [Entry.fin]) } stage slot (.ending left))
  | endFull (left : ℕ) (hmain : (state.slot (stage, slot)).main = .ending (left + 1)) :
      MainStep config state stage slot (.putEnd false) (state.setMain stage slot .signalling)
  | allEnds (hmain : (state.slot (stage, slot)).main = .ending 0) :
      MainStep config state stage slot .allEnds (state.setMain stage slot .signalling)
  | setDone (hmain : (state.slot (stage, slot)).main = .signalling) :
      MainStep config state stage slot .setDone
        (State.setMain
          { state with
            done := Function.update state.done stage true
            log := Function.update state.log stage (state.log stage ++ [Entry.done]) } stage slot .releasing)
  | releasePool (results : List Payload) (hmain : (state.slot (stage, slot)).main = .releasing)
      (hthreaded : (config.stage stage).threaded = true) :
      MainStep config state stage slot (.release results) (state.setMain stage slot .parked)
  | release (results : List Payload) (hmain : (state.slot (stage, slot)).main = .releasing)
      (hthreaded : (config.stage stage).threaded = false) :
      MainStep config state stage slot (.release results)
        ((state.make ⟨stage, slot, none⟩ results).setMain stage slot (.parking results []))
  | parkSend (payload : Payload) (todo pending : List Payload)
      (hmain : (state.slot (stage, slot)).main = .parking (payload :: todo) pending)
      (hroom : (!pending.isEmpty && decide ((config.stage stage).chunk ≤ pending.length)) = false) :
      MainStep config state stage slot .parkSend (state.setMain stage slot (.parking todo (pending ++ [payload])))
  | parkFlush (todo : List Payload) (payload : Payload) (pending : List Payload)
      (hmain : (state.slot (stage, slot)).main = .parking todo (payload :: pending)) :
      MainStep config state stage slot .parkFlush
        ((state.send ⟨stage, slot, none⟩ (payload :: pending)).setMain stage slot (.parking todo []))
  | parkDone (hmain : (state.slot (stage, slot)).main = .parking [] []) :
      MainStep config state stage slot .parkDone (state.setMain stage slot .parked)

/-- Every move of a main thread has one of the branches of `MainStep`. -/
theorem stepMain_cases {move : MainMove Payload} (h : stepMain config state stage slot move = some next) :
    MainStep config state stage slot move next := by
  simp only [stepMain] at h
  split at h
  · rename_i hmain
    split at h
    · rename_i hpool
      split at h <;> cases h
      rename_i hended
      exact .leavePool hmain hpool (by simpa using hended)
    · rename_i hpool
      split at h <;> cases h
      rename_i hended
      exact .leave hmain (Bool.eq_false_iff.mpr hpool) hended
  · rename_i payload accepted hmain
    cases accepted <;> cases h
    · exact .flushFull payload hmain
    · exact .flushItem payload hmain
  · cases h
    exact .flushed ‹_›
  · cases h
    exact .count ‹_›
  · rename_i number hmain
    cases h
    split
    · exact .compareFew number hmain ‹_›
    · exact .compareAll number hmain (Nat.le_of_not_lt ‹_›)
  · rename_i accepted left hmain
    cases accepted <;> cases h
    · exact .endFull left hmain
    · exact .putEnd left hmain
  · cases h
    exact .allEnds ‹_›
  · cases h
    exact .setDone ‹_›
  · rename_i results hmain
    split at h <;> cases h
    · exact .releasePool results hmain ‹_›
    · rename_i hthreaded
      exact .release results hmain (by simpa using hthreaded)
  · rename_i payload todo pending hmain
    split at h <;> cases h
    rename_i hroom
    exact .parkSend payload todo pending hmain (Bool.eq_false_iff.mpr hroom)
  · rename_i todo payload pending hmain
    cases h
    exact .parkFlush todo payload pending hmain
  · cases h
    exact .parkDone ‹_›
  · cases h

/-- A main step changes only the main thread and `thread_stop` of its slot, and leaves the
threads behind only by `leave`. -/
theorem stepMain_slot {move : MainMove Payload} (h : stepMain config state stage slot move = some next) :
    ∃ value : Slot Payload, next.slot = Function.update state.slot (stage, slot) value ∧
      value.loop = (state.slot (stage, slot)).loop ∧ value.main ≠ .working ∧
      ((state.slot (stage, slot)).main = .working → move = .leave) := by
  cases stepMain_cases h with
  | leavePool hmain | leave hmain => exact ⟨_, rfl, rfl, by simp, by simp⟩
  | flushItem payload hmain =>
    exact ⟨state.slot (stage, slot), by simp [State.send, State.make], rfl, by simp [hmain], by simp [hmain]⟩
  | flushFull _ hmain | flushed hmain | count hmain | compareFew _ hmain | compareAll _ hmain | putEnd _ hmain
    | endFull _ hmain | allEnds hmain | setDone hmain | releasePool _ hmain | release _ hmain
    | parkSend _ _ _ hmain | parkFlush _ _ _ hmain | parkDone hmain =>
    exact ⟨_, rfl, rfl, by simp, by simp [hmain]⟩

/-- What a main step does to its stage's output: nothing, a put of a `flush()` or `on_park`
payload, an `End`, or the done event. -/
theorem stepMain_output {move : MainMove Payload} (h : stepMain config state stage slot move = some next) :
    next.taken = state.taken ∧ next.reader = state.reader ∧
      ((next.queue = state.queue ∧ next.log = state.log ∧ next.done = state.done) ∨
      (∃ payloads, payloads ≠ [] ∧ ((state.slot (stage, slot)).main = .flushing ∨
          ∃ todo payload pending, (state.slot (stage, slot)).main = .parking todo (payload :: pending)) ∧
        next.queue = (state.send ⟨stage, slot, none⟩ payloads).queue ∧
        next.log = (state.send ⟨stage, slot, none⟩ payloads).log ∧ next.done = state.done) ∨
      (next.queue = Function.update state.queue stage (state.queue stage ++ [Message.fin]) ∧
        next.log = Function.update state.log stage (state.log stage ++ [Entry.fin]) ∧ next.done = state.done) ∨
      (next.queue = state.queue ∧ next.log = Function.update state.log stage (state.log stage ++ [Entry.done]) ∧
        next.done = Function.update state.done stage true)) := by
  cases stepMain_cases h with
  | flushItem payload hmain => exact ⟨rfl, rfl, .inr (.inl ⟨[payload], by simp, .inl hmain, rfl, rfl, rfl⟩)⟩
  | putEnd left hmain => exact ⟨rfl, rfl, .inr (.inr (.inl ⟨rfl, rfl, rfl⟩))⟩
  | setDone hmain => exact ⟨rfl, rfl, .inr (.inr (.inr ⟨rfl, rfl, rfl⟩))⟩
  | parkFlush todo payload pending hmain =>
    exact ⟨rfl, rfl, .inr (.inl ⟨payload :: pending, by simp, .inr ⟨todo, payload, pending, hmain⟩, rfl, rfl, rfl⟩)⟩
  | _ => exact ⟨rfl, rfl, .inl ⟨rfl, rfl, rfl⟩⟩

/-- A main thread holds payloads behind its finish if `on_park` returned some, or if it held some. -/
theorem stepMain_parking {move : MainMove Payload} (h : stepMain config state stage slot move = some next)
    {todo pending : List Payload} (hnext : (next.slot (stage, slot)).main = .parking todo pending) :
    ((config.stage stage).threaded = false ∧ move = .release todo ∧ pending = []) ∨
      ∃ todo' pending', (state.slot (stage, slot)).main = .parking todo' pending' ∧ (todo' ≠ [] ∨ pending' ≠ []) := by
  cases stepMain_cases h with
  | flushItem payload hmain => simp [State.send, State.make, hmain] at hnext
  | release results hmain hthreaded =>
    simp only [State.setMain, setSlot_slot, Function.update_self, Main.parking.injEq] at hnext
    obtain ⟨rfl, rfl⟩ := hnext
    exact .inl ⟨hthreaded, rfl, rfl⟩
  | parkSend payload todo pending hmain => exact .inr ⟨payload :: todo, pending, hmain, .inl (by simp)⟩
  | parkFlush todo payload pending hmain => exact .inr ⟨todo, payload :: pending, hmain, .inr (by simp)⟩
  | _ => simp [State.setMain] at hnext

/-- The reader takes messages and changes nothing else of the pipeline. -/
theorem stepReader_frame {move : ReaderMove} (h : stepReader config state move = some next) :
    next.slot = state.slot ∧ next.count = state.count ∧ next.done = state.done ∧
      next.log = state.log ∧ next.made = state.made := by
  simp only [stepReader] at h
  split at h
  · split at h
    · cases h
    · rename_i took _
      cases h
      cases took <;> simp [State.take]
  · split at h <;> cases h
    simp
  · cases h
    simp
  · cases h

theorem allEnded_iff : state.allEnded config stage slot = true ↔
    ∀ thread, thread < config.loops stage → ((state.slot (stage, slot)).loop thread).pc = .ended := by
  simp only [State.allEnded, List.all_eq_true, List.mem_range]
  refine forall_congr' fun thread ↦ imp_congr_right fun _ ↦ ?_
  split <;> simp_all

end Frame

/-! ## Pieces of runs -/

/-- A stage of process workers, or one threaded worker with one thread. -/
def Stage.plain (threaded : Bool) (workers chunk : ℕ) : Stage where
  threaded := threaded
  hasRun := false
  drain := true
  workers := workers
  threads := 1
  chunk := chunk
  batch := 0
  threads_pos := Nat.one_pos

/-- A source call returns one payload and `End`, and the payload is put. -/
def sourceRun (payload : Payload) : List (Action Payload) :=
  [.thread 0 0 0 .call, .thread 0 0 0 (.returns [payload] true), .thread 0 0 0 .send,
    .thread 0 0 0 .flush, .thread 0 0 0 .next]

def pollRun (stage slot : ℕ) : List (Action Payload) :=
  [.thread stage slot 0 .empty, .thread stage slot 0 .test]

/-- A process worker that has left its loop goes through `_finish_worker`. -/
def finishRun (stage slot : ℕ) : List (Action Payload) :=
  [.thread stage slot 0 (.flushes []), .thread stage slot 0 .next, .thread stage slot 0 .closes,
    .main stage slot .leave, .main stage slot .count, .main stage slot .compare]

/-- The last finisher puts `End` and sets the event. -/
def endRun (stage slot : ℕ) : List (Action Payload) :=
  [.main stage slot (.putEnd true), .main stage slot .allEnds, .main stage slot .setDone]

end GpuPipe.Pipeline
