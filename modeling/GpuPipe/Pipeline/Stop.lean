import GpuPipe.Pipeline.Readers

/-!
# Stopping a running pipeline

`_stop(force=False)` beside the workers it stops. A worker reads `should_stop` at the head of its
loop, after a yield, after a pool thread's get and in its last wait, and nowhere in a put. `_stop`
sets the flag, puts an `End` on every queue, joins every process for two seconds and again for one,
empties the queues and clears the flag. `SIGTERM` only sets the flag once more.
-/

namespace GpuPipe.Pipeline

variable {Payload : Type}

/-- What a thread has read of `should_stop`: nothing in this round, the `while` of a process worker, all
there is to read; `unparked` is behind `_maybe_park`, and `back` must return what it got to its input. -/
inductive Gate
  | test
  | tested
  | passed
  | unparked
  | back
  deriving DecidableEq

/-- The next statement of `_stop`; before it has begun, the pipeline runs. -/
inductive StopPc
  | running
  | ending (queues : List ℕ)
  | joining (processes : List (ℕ × ℕ))
  | joiningAgain (processes : List (ℕ × ℕ))
  | closing (queues : List ℕ)
  | resetting
  | returned
  deriving DecidableEq

/-- A pipeline and its `_stop`. `signalled` processes have a `SIGTERM` pending, `returning` ones are past
their last wait, `exited` ones are gone without a crash. `late` is history: who called its stage or put
an item when `_stop` had returned. -/
structure Stopping (Payload : Type) where
  pipe : State Payload
  shouldStop : ℕ
  gate : ℕ × ℕ × ℕ → Gate
  signalled : ℕ × ℕ → Bool
  returning : ℕ × ℕ → Bool
  exited : ℕ × ℕ → Bool
  stop : StopPc
  late : List (ℕ × ℕ)

inductive StopAction (Payload : Type)
  | work (action : Action Payload)
  | test (stage slot thread : ℕ)
  | putBack (stage slot thread : ℕ)
  | push (stage slot thread target : ℕ) (payload : Payload)
  | fails (stage slot thread : ℕ)
  | heed (stage slot : ℕ)
  | exit (stage slot : ℕ)
  | signal (stage slot : ℕ)
  | stop (timedOut : Bool)
  | later (value : ℕ)

/-- `self.processes`, in the order they were started. -/
def Config.processes (config : Config) : List (ℕ × ℕ) :=
  (List.range config.depth).flatMap fun stage ↦
    (List.range (config.stage stage).workers).map fun slot ↦ (stage, slot)

def Stopping.start (config : Config) : Stopping Payload where
  pipe := .start config
  shouldStop := 0
  gate := fun _ ↦ .test
  signalled := fun _ ↦ false
  returning := fun _ ↦ false
  exited := fun _ ↦ false
  stop := .running
  late := []

/-- Whether a thread has read what it must before this move. -/
def Gate.admits (stage : Stage) (gate : Gate) (pc : Pc Payload) (move : Move Payload) : Bool :=
  match pc, move with
  | .head, .flush => if stage.threaded then gate = .passed else gate = .tested
  | .head, .park _ => gate = .passed
  | .head, .stopped => false
  | .head, _ => gate = .passed || gate = .unparked
  | .batching _, _ => !stage.threaded || gate = .passed
  | .running _, .get => gate = .passed
  | _, _ => true

/-- A new round of a loop begins with its test. -/
def Gate.after (gate : Gate) (pc : Pc Payload) : Move Payload → Gate
  | .flush | .send | .next => gate
  | .park _ => .unparked
  | .get =>
    match pc with
    | .batching _ => gate
    | _ => .test
  | _ => .test

/-- How a put of a main thread ends, on a queue that is full or not. -/
def MainMove.fits (isFull : Bool) : MainMove Payload → Bool
  | .flushItem _ accepted | .putEnd accepted => accepted != isFull
  | .parkFlush => !isFull
  | _ => true

/-- A main thread's step that puts an item. -/
def MainMove.puts : MainMove Payload → Bool
  | .flushItem _ accepted => accepted
  | .parkFlush => true
  | _ => false

section Steps

variable (config : Config) (maxsize : ℕ → ℕ) (state : Stopping Payload)

/-- Record who calls or puts when `_stop` has returned. -/
def Stopping.note (stage slot : ℕ) (active : Bool) : List (ℕ × ℕ) :=
  if active && state.stop = .returned then state.late ++ [(stage, slot)] else state.late

def Stopping.hasThread (stage slot thread : ℕ) : Bool :=
  config.hasSlot stage slot && (state.pipe.slot (stage, slot)).main.alive && thread < config.loops stage

def Stopping.loop (stage slot thread : ℕ) : Loop Payload := (state.pipe.slot (stage, slot)).loop thread

/-- The stop a thread sees in its generator's loop. -/
def Stopping.view (stage slot : ℕ) : View Payload :=
  { state.pipe.view stage slot with
    stop := (state.pipe.slot (stage, slot)).stop || state.shouldStop ≠ 0 }

def Stopping.setLoop (stage slot thread : ℕ) (loop : Loop Payload) (gate : Gate) : Stopping Payload :=
  { state with
    pipe := state.pipe.setSlot stage slot
      { state.pipe.slot (stage, slot) with
        loop := Function.update (state.pipe.slot (stage, slot)).loop thread loop }
    gate := Function.update state.gate (stage, slot, thread) gate }

/-- A move of a thread; it waits while it has something to put and the queue is full. -/
def stepLoop (stage slot thread : ℕ) (move : Move Payload) : Option (Stopping Payload) :=
  let loop := state.loop stage slot thread
  let gate := state.gate (stage, slot, thread)
  if state.hasThread config stage slot thread && gate.admits (config.stage stage) loop.pc move then
    match loopStep (config.stage stage) (Config.root stage) config.threshold (state.view stage slot) loop move with
    | none => none
    | some outcome =>
      if outcome.sent.isSome && full (maxsize stage) (state.pipe.queue stage) then none
      else
        some
          { state with
            pipe := state.pipe.apply stage slot thread outcome
            gate := Function.update state.gate (stage, slot, thread) (gate.after loop.pc move)
            late := state.note stage slot
              (outcome.sent.isSome || match move with
                | .call => true
                | _ => false) }
  else none

/-- A step of the pipeline as it is without a stop. -/
def stepWork : Action Payload → Option (Stopping Payload)
  | .thread stage slot thread move => stepLoop config maxsize state stage slot thread move
  | .main stage slot move =>
    if config.hasSlot stage slot && move.fits (full (maxsize stage) (state.pipe.queue stage)) then
      (stepMain config state.pipe stage slot move).map fun pipe ↦
        { state with pipe := pipe, late := state.note stage slot move.puts }
    else none
  | .reader move => (stepReader config state.pipe move).map fun pipe ↦ { state with pipe := pipe }
  | .die stage slot =>
    (step config state.pipe (.die stage slot)).map fun pipe ↦ { state with pipe := pipe }
  | .respawn stage slot =>
    -- A restart that has read its slot before `_stop` cleared `worker_configs` may spawn behind it.
    if state.exited (stage, slot) then none
    else
      (step config state.pipe (.respawn stage slot)).map fun pipe ↦
        { state with
          pipe := pipe
          gate := fun place ↦ if place.1 = stage && place.2.1 = slot then .test else state.gate place
          signalled := Function.update state.signalled (stage, slot) false
          returning := Function.update state.returning (stage, slot) false }

/-- A thread reads `should_stop`. -/
def stepTest (stage slot thread : ℕ) : Option (Stopping Payload) :=
  let loop := state.loop stage slot thread
  let leaves := { loop with pc := exit (config.stage stage) }
  let stopping : Bool := state.shouldStop ≠ 0
  if state.hasThread config stage slot thread then
    match loop.pc, state.gate (stage, slot, thread) with
    | .head, .test =>
      if (config.stage stage).threaded then
        if stopping || (state.pipe.slot (stage, slot)).stop then some (state.setLoop stage slot thread leaves .test)
        else some (state.setLoop stage slot thread loop .passed)
      else if stopping then some (state.setLoop stage slot thread leaves .test)
      else some (state.setLoop stage slot thread loop .tested)
    | .head, .tested =>
      -- `if should_stop.value == 1`, where the `while` before it goes by any value.
      if state.shouldStop = 1 then some (state.setLoop stage slot thread leaves .test)
      else some (state.setLoop stage slot thread loop .passed)
    | .batching _, .test =>
      if (config.stage stage).threaded then
        some (state.setLoop stage slot thread loop (if stopping then .back else .passed))
      else none
    | .running _, .test =>
      if stopping || (config.stage stage).threaded && (state.pipe.slot (stage, slot)).stop then none
      else some (state.setLoop stage slot thread loop .passed)
    | _, _ => none
  else none

/-- A pool thread that sees the stop behind its get puts the item back on its input, then what its
channel holds. -/
def stepPutBack (stage slot thread : ℕ) : Option (Stopping Payload) :=
  let loop := state.loop stage slot thread
  let input := state.pipe.queue (stage - 1)
  if state.hasThread config stage slot thread && !full (maxsize (stage - 1)) input then
    match loop.pc, state.gate (stage, slot, thread) with
    | .batching (payload :: batch), .back =>
      let next : Loop Payload :=
        if loop.buffer.isEmpty then { loop with pc := .closing } else { loop with pc := .batching [] }
      some
        { state.setLoop stage slot thread next .back with
          pipe :=
            { (state.setLoop stage slot thread next .back).pipe with
              queue := Function.update state.pipe.queue (stage - 1) (input ++ [.items (payload :: batch)]) }
          late := state.note stage slot true }
    | .batching [], .back =>
      let next : Loop Payload := { loop with pc := .closing, buffer := [] }
      some
        { state.setLoop stage slot thread next .back with
          pipe :=
            { (state.setLoop stage slot thread next .back).pipe with
              queue := Function.update state.pipe.queue (stage - 1) (input ++ [.items loop.buffer]) }
          late := state.note stage slot true }
    | _, _ => none
  else none

/-- `push` from within a call; a push that finds no room gives up or tries again. -/
def stepPush (stage slot thread target : ℕ) (payload : Payload) : Option (Stopping Payload) :=
  let queue := state.pipe.queue target
  if state.hasThread config stage slot thread && !Config.root stage && target < config.depth &&
      !full (maxsize target) queue then
    match (state.loop stage slot thread).pc with
    | .calling _ | .yielding | .running _ =>
      some
        { state with
          pipe := { state.pipe with queue := Function.update state.pipe.queue target (queue ++ [.items [payload]]) }
          late := state.note stage slot true }
    | _ => none
  else none

/-- A connection error of the stage: `should_stop` becomes 2 and the thread leaves its loop. -/
def stepFails (stage slot thread : ℕ) : Option (Stopping Payload) :=
  let loop := state.loop stage slot thread
  if state.hasThread config stage slot thread && !blocked (config.stage stage) loop then
    match loop.pc with
    | .calling _ | .emitting _ _ | .yielding =>
      some { state.setLoop stage slot thread { loop with pc := exit (config.stage stage) } .test with shouldStop := 2 }
    | _ => none
  else none

/-- A main thread reads `should_stop`: that of a pool goes on to `flush()`, a parked one returns. -/
def stepHeed (stage slot : ℕ) : Option (Stopping Payload) :=
  if config.hasSlot stage slot && state.shouldStop ≠ 0 then
    match (state.pipe.slot (stage, slot)).main with
    | .working =>
      if (config.stage stage).threaded && !config.custom stage then
        some
          { state with
            pipe := state.pipe.setSlot stage slot
              { state.pipe.slot (stage, slot) with main := .flushing, stop := true } }
      else none
    | .parked => some { state with returning := Function.update state.returning (stage, slot) true }
    | _ => none
  else none

/-- A process whose main thread has returned is gone when its threads have ended. -/
def stepExit (stage slot : ℕ) : Option (Stopping Payload) :=
  if config.hasSlot stage slot && state.returning (stage, slot) && (state.pipe.slot (stage, slot)).main.alive &&
      state.pipe.allEnded config stage slot then
    some
      { state with
        pipe := state.pipe.setMain stage slot .dead
        exited := Function.update state.exited (stage, slot) true }
  else none

def stepSignal (stage slot : ℕ) : Option (Stopping Payload) :=
  if config.hasSlot stage slot && state.signalled (stage, slot) && (state.pipe.slot (stage, slot)).main.alive then
    some
      { state with
        shouldStop := 1
        signalled := Function.update state.signalled (stage, slot) false
        pipe := state.pipe.setSlot stage slot
          { state.pipe.slot (stage, slot) with
            stop := (state.pipe.slot (stage, slot)).stop || (config.stage stage).threaded } }
  else none

/-- The next statement of `_stop(force=False)`. A join ends when its process is gone or when its time
is up. -/
def stepStop (timedOut : Bool) : Option (Stopping Payload) :=
  match state.stop with
  | .running => some { state with shouldStop := 1, stop := .ending (List.range config.depth) }
  | .ending (queue :: rest) =>
    if full (maxsize queue) (state.pipe.queue queue) then some { state with stop := .ending rest }
    else
      some
        { state with
          pipe :=
            { state.pipe with queue := Function.update state.pipe.queue queue (state.pipe.queue queue ++ [.fin]) }
          stop := .ending rest }
  | .ending [] => some { state with stop := .joining config.processes }
  | .joining (process :: rest) =>
    if !(state.pipe.slot process).main.alive then some { state with stop := .joining rest }
    else if timedOut then
      some
        { state with
          signalled := Function.update state.signalled process true
          stop := .joining rest }
    else none
  | .joining [] => some { state with stop := .joiningAgain config.processes }
  | .joiningAgain (process :: rest) =>
    if !(state.pipe.slot process).main.alive || timedOut then some { state with stop := .joiningAgain rest } else none
  | .joiningAgain [] => some { state with stop := .closing (List.range config.depth) }
  | .closing (queue :: rest) =>
    -- `unlink` drops what nobody will read, and who has the ring mapped goes on using it.
    some
      { state with
        pipe := { state.pipe with queue := Function.update state.pipe.queue queue [] }
        stop := .closing rest }
  | .closing [] => some { state with stop := .resetting }
  | .resetting =>
    some
      { state with
        shouldStop := 0
        pipe := { state.pipe with count := fun _ ↦ 0, done := fun _ ↦ false }
        stop := .returned }
  | .returned => none

def stepStopping : StopAction Payload → Option (Stopping Payload)
  | .work action => stepWork config maxsize state action
  | .test stage slot thread => stepTest config state stage slot thread
  | .putBack stage slot thread => stepPutBack config maxsize state stage slot thread
  | .push stage slot thread target payload => stepPush config maxsize state stage slot thread target payload
  | .fails stage slot thread => stepFails config state stage slot thread
  | .heed stage slot => stepHeed config state stage slot
  | .exit stage slot => stepExit config state stage slot
  | .signal stage slot => stepSignal config state stage slot
  | .stop timedOut => stepStop config maxsize state timedOut
  | .later value =>
    -- Later runs of the pipeline use the same flag.
    if state.stop = .returned then some { state with shouldStop := value } else none

end Steps

def stopMachine (Payload : Type) (config : Config) (maxsize : ℕ → ℕ) :
    Machine (Stopping Payload) (StopAction Payload) where
  start := .start config
  step := stepStopping config maxsize

/-- A main thread that has no more items to put. -/
def Main.rests (threaded : Bool) : Main Payload → Bool
  | .counting | .counted _ | .ending _ | .signalling | .releasing => threaded
  | .parking todo pending => todo.isEmpty && pending.isEmpty
  | .parked | .dead => true
  | _ => false

/-- A process that is gone, or whose threads have ended and whose main thread has no more to put. -/
def Stopping.rests (config : Config) (state : Stopping Payload) (place : ℕ × ℕ) : Bool :=
  (state.pipe.slot place).main.rests (config.stage place.1).threaded && state.pipe.allEnded config place.1 place.2

/-- `_stop` clears the flag when every process is done, and the monitor spawns none behind it. -/
def outwaits (config : Config) (state : Stopping Payload) : StopAction Payload → Bool
  | .stop _ => state.stop ≠ .resetting || config.processes.all (state.rests config)
  | .work (.respawn _ _) => state.stop ≠ .returned
  | _ => true

/-! ## Processes that are done -/

section Silence

variable {config : Config} {maxsize : ℕ → ℕ} {state next : Stopping Payload} {stage slot thread : ℕ}

theorem mem_processes : (stage, slot) ∈ config.processes ↔ config.hasSlot stage slot = true := by
  simp [Config.processes, Config.hasSlot]

/-- Every process is done. -/
def AtRest (config : Config) (state : Stopping Payload) : Prop :=
  ∀ stage slot, config.hasSlot stage slot = true →
    (state.pipe.slot (stage, slot)).main.rests (config.stage stage).threaded = true ∧
      ∀ thread < config.loops stage, ((state.pipe.slot (stage, slot)).loop thread).pc = .ended

theorem atRest_iff : config.processes.all (state.rests config) = true ↔ AtRest config state := by
  rw [List.all_eq_true]
  constructor
  · intro rests stage slot exists'
    have this := rests (stage, slot) (mem_processes.mpr exists')
    rw [Stopping.rests, Bool.and_eq_true, allEnded_iff] at this
    exact this
  · rintro rests ⟨stage, slot⟩ member
    have this := rests stage slot (mem_processes.mp member)
    rw [Stopping.rests, Bool.and_eq_true, allEnded_iff]
    exact this

theorem AtRest.congr (h : AtRest config state) (slots : next.pipe.slot = state.pipe.slot) : AtRest config next := by
  intro stage slot exists'
  rw [slots]
  exact h stage slot exists'

theorem AtRest.update (h : AtRest config state) {value : Slot Payload}
    (slots : next.pipe.slot = Function.update state.pipe.slot (stage, slot) value)
    (main : value.main.rests (config.stage stage).threaded = true)
    (loops : ∀ thread < config.loops stage, (value.loop thread).pc = .ended) : AtRest config next := by
  intro stage' slot' exists'
  rw [slots]
  rcases eq_or_ne (stage', slot') (stage, slot) with same | different
  · cases same
    rw [Function.update_self]
    exact ⟨main, loops⟩
  · rw [Function.update_of_ne different]
    exact h stage' slot' exists'

theorem AtRest.ended (h : AtRest config state) (thread' : state.hasThread config stage slot thread = true) :
    (state.loop stage slot thread).pc = .ended := by
  simp only [Stopping.hasThread, Bool.and_eq_true, decide_eq_true_eq] at thread'
  exact (h stage slot thread'.1.1).2 thread thread'.2

/-- A main thread that has no more to put puts no more. -/
theorem stepMain_rests {pipe pipe' : State Payload} {move : MainMove Payload}
    (h : stepMain config pipe stage slot move = some pipe')
    (rests : (pipe.slot (stage, slot)).main.rests (config.stage stage).threaded = true) :
    move.puts = false ∧ (pipe'.slot (stage, slot)).main.rests (config.stage stage).threaded = true := by
  cases stepMain_cases h with
  | leavePool hmain | leave hmain | flushItem _ hmain | flushFull _ hmain | flushed hmain | parkSend _ _ _ hmain
    | parkFlush _ _ _ hmain =>
    simp [hmain, Main.rests] at rests
  | release results hmain process => simp [hmain, Main.rests, process] at rests
  | releasePool _ _ | parkDone _ => exact ⟨rfl, by simp [State.setMain, Main.rests]⟩
  | count hmain | compareFew _ hmain | compareAll _ hmain | putEnd _ hmain | endFull _ hmain | allEnds hmain
    | setDone hmain =>
    exact ⟨rfl, by simpa [State.setMain, hmain, Main.rests] using rests⟩

/-- When every process is done, no step of one calls or puts, and every process stays done. -/
theorem AtRest.work (h : AtRest config state) (returned : state.stop = .returned) {action : Action Payload}
    (allowed : outwaits config state (.work action) = true)
    (hstep : stepWork config maxsize state action = some next) :
    next.late = state.late ∧ AtRest config next := by
  cases action with
  | thread stage slot thread move =>
    simp only [stepWork, stepLoop] at hstep
    split at hstep
    · rename_i allowed
      rw [Bool.and_eq_true] at allowed
      rw [loopStep_of_ended (h.ended allowed.1)] at hstep
      cases hstep
    · cases hstep
  | main stage slot move =>
    simp only [stepWork] at hstep
    split at hstep
    · rename_i allowed
      rw [Bool.and_eq_true] at allowed
      rw [Option.map_eq_some_iff] at hstep
      obtain ⟨pipe, hmain, rfl⟩ := hstep
      obtain ⟨rests, ended⟩ := h stage slot allowed.1
      obtain ⟨puts, rests'⟩ := stepMain_rests hmain rests
      obtain ⟨value, slots, loops, -, -⟩ := stepMain_slot hmain
      refine ⟨by simp [Stopping.note, puts], h.update slots ?_ (by rwa [loops])⟩
      rwa [slots, Function.update_self] at rests'
    · cases hstep
  | reader move =>
    simp only [stepWork, Option.map_eq_some_iff] at hstep
    obtain ⟨pipe, hreader, rfl⟩ := hstep
    exact ⟨rfl, h.congr (stepReader_frame hreader).1⟩
  | die stage slot =>
    simp only [stepWork, Option.map_eq_some_iff, step] at hstep
    obtain ⟨pipe, hdie, rfl⟩ := hstep
    split at hdie <;> cases hdie
    exact ⟨rfl, h.update rfl rfl fun _ _ ↦ rfl⟩
  | respawn stage slot => simp [outwaits, returned] at allowed

/-- The same for the steps that a stop adds to the workers. -/
theorem AtRest.step (h : AtRest config state) (returned : state.stop = .returned) {action : StopAction Payload}
    (allowed : outwaits config state action = true)
    (hstep : stepStopping config maxsize state action = some next) :
    next.late = state.late ∧ AtRest config next := by
  cases action with
  | work action => exact h.work returned allowed hstep
  | test stage slot thread =>
    simp only [stepStopping, stepTest] at hstep
    split at hstep
    · rename_i exists'
      simp [h.ended exists'] at hstep
    · cases hstep
  | putBack stage slot thread =>
    simp only [stepStopping, stepPutBack] at hstep
    split at hstep
    · rename_i allowed
      rw [Bool.and_eq_true] at allowed
      simp [h.ended allowed.1] at hstep
    · cases hstep
  | push stage slot thread target payload =>
    simp only [stepStopping, stepPush] at hstep
    split at hstep
    · rename_i allowed
      simp only [Bool.and_eq_true] at allowed
      simp [h.ended allowed.1.1.1] at hstep
    · cases hstep
  | fails stage slot thread =>
    simp only [stepStopping, stepFails] at hstep
    split at hstep
    · rename_i allowed
      rw [Bool.and_eq_true] at allowed
      simp [h.ended allowed.1] at hstep
    · cases hstep
  | heed stage slot =>
    simp only [stepStopping, stepHeed] at hstep
    split at hstep
    · rename_i allowed
      rw [Bool.and_eq_true] at allowed
      have rests := (h stage slot allowed.1).1
      split at hstep
      · rename_i hmain
        simp [hmain, Main.rests] at rests
      · cases hstep
        exact ⟨rfl, h.congr rfl⟩
      · cases hstep
    · cases hstep
  | exit stage slot =>
    simp only [stepStopping, stepExit] at hstep
    split at hstep
    · rename_i allowed
      cases hstep
      simp only [Bool.and_eq_true] at allowed
      exact ⟨rfl, h.update rfl rfl (h stage slot allowed.1.1.1).2⟩
    · cases hstep
  | signal stage slot =>
    simp only [stepStopping, stepSignal] at hstep
    split at hstep
    · rename_i allowed
      cases hstep
      simp only [Bool.and_eq_true] at allowed
      obtain ⟨rests, ended⟩ := h stage slot allowed.1.1
      exact ⟨rfl, h.update rfl rests ended⟩
    · cases hstep
  | stop timedOut => simp [stepStopping, stepStop, returned] at hstep
  | later value =>
    simp only [stepStopping, returned, if_true] at hstep
    cases hstep
    exact ⟨rfl, h.congr rfl⟩

theorem note_of_running (running : state.stop ≠ .returned) (active : Bool) :
    state.note stage slot active = state.late := by
  simp [Stopping.note, running]

/-- The workers leave `_stop` where it is, and until it has returned nobody is late. -/
theorem stop_of_work {action : Action Payload} (h : stepWork config maxsize state action = some next) :
    next.stop = state.stop ∧ (state.stop ≠ .returned → next.late = state.late) := by
  cases action with
  | thread stage slot thread move =>
    simp only [stepWork, stepLoop] at h
    split at h
    · split at h
      · cases h
      · split at h <;> cases h
        exact ⟨rfl, fun running ↦ note_of_running running _⟩
    · cases h
  | main stage slot move =>
    simp only [stepWork] at h
    split at h
    · rw [Option.map_eq_some_iff] at h
      obtain ⟨pipe, -, rfl⟩ := h
      exact ⟨rfl, fun running ↦ note_of_running running _⟩
    · cases h
  | reader move =>
    simp only [stepWork, Option.map_eq_some_iff] at h
    obtain ⟨pipe, -, rfl⟩ := h
    exact ⟨rfl, fun _ ↦ rfl⟩
  | die stage slot =>
    simp only [stepWork, Option.map_eq_some_iff] at h
    obtain ⟨pipe, -, rfl⟩ := h
    exact ⟨rfl, fun _ ↦ rfl⟩
  | respawn stage slot =>
    simp only [stepWork] at h
    split at h
    · cases h
    · rw [Option.map_eq_some_iff] at h
      obtain ⟨pipe, -, rfl⟩ := h
      exact ⟨rfl, fun _ ↦ rfl⟩

theorem stepTest_cases (h : stepTest config state stage slot thread = some next) :
    ∃ loop gate, next = state.setLoop stage slot thread loop gate := by
  simp only [stepTest] at h
  split at h
  · split at h
    · split at h
      · split at h <;> exact ⟨_, _, (Option.some.inj h).symm⟩
      · split at h <;> exact ⟨_, _, (Option.some.inj h).symm⟩
    · split at h <;> exact ⟨_, _, (Option.some.inj h).symm⟩
    · split at h
      · exact ⟨_, _, (Option.some.inj h).symm⟩
      · cases h
    · split at h
      · cases h
      · exact ⟨_, _, (Option.some.inj h).symm⟩
    · cases h
  · cases h

/-- Nothing is late before `_stop` has returned, and it returns in a statement of its own. -/
theorem stop_of_step {action : StopAction Payload} (h : stepStopping config maxsize state action = some next) :
    (state.stop ≠ .returned → next.late = state.late) ∧
      (next.stop = .returned → state.stop = .returned ∨
        state.stop = .resetting ∧ (∃ timedOut, action = .stop timedOut) ∧ next.pipe.slot = state.pipe.slot) := by
  cases action with
  | work action =>
    obtain ⟨stop, late⟩ := stop_of_work h
    exact ⟨late, fun returned ↦ .inl (stop ▸ returned)⟩
  | test stage slot thread =>
    obtain ⟨loop, gate, rfl⟩ := stepTest_cases h
    exact ⟨fun _ ↦ rfl, .inl⟩
  | putBack stage slot thread =>
    simp only [stepStopping, stepPutBack] at h
    split at h
    · split at h <;> cases h
      · exact ⟨fun running ↦ note_of_running running _, .inl⟩
      · exact ⟨fun running ↦ note_of_running running _, .inl⟩
    · cases h
  | push stage slot thread target payload =>
    simp only [stepStopping, stepPush] at h
    split at h
    · split at h <;> cases h <;> exact ⟨fun running ↦ note_of_running running _, .inl⟩
    · cases h
  | fails stage slot thread =>
    simp only [stepStopping, stepFails] at h
    split at h
    · split at h <;> cases h <;> exact ⟨fun _ ↦ rfl, .inl⟩
    · cases h
  | heed stage slot =>
    simp only [stepStopping, stepHeed] at h
    split at h
    · split at h
      · split at h <;> cases h
        exact ⟨fun _ ↦ rfl, .inl⟩
      · cases h
        exact ⟨fun _ ↦ rfl, .inl⟩
      · cases h
    · cases h
  | exit stage slot =>
    simp only [stepStopping, stepExit] at h
    split at h <;> cases h
    exact ⟨fun _ ↦ rfl, .inl⟩
  | signal stage slot =>
    simp only [stepStopping, stepSignal] at h
    split at h <;> cases h
    exact ⟨fun _ ↦ rfl, .inl⟩
  | stop timedOut =>
    simp only [stepStopping, stepStop] at h
    split at h
    · cases h
      exact ⟨fun _ ↦ rfl, by simp⟩
    · split at h <;> cases h <;> exact ⟨fun _ ↦ rfl, by simp⟩
    · cases h
      exact ⟨fun _ ↦ rfl, by simp⟩
    · split at h
      · cases h
        exact ⟨fun _ ↦ rfl, by simp⟩
      · split at h <;> cases h
        exact ⟨fun _ ↦ rfl, by simp⟩
    · cases h
      exact ⟨fun _ ↦ rfl, by simp⟩
    · split at h <;> cases h
      exact ⟨fun _ ↦ rfl, by simp⟩
    · cases h
      exact ⟨fun _ ↦ rfl, by simp⟩
    · cases h
      exact ⟨fun _ ↦ rfl, by simp⟩
    · cases h
      exact ⟨fun _ ↦ rfl, by simp⟩
    · rename_i resetting
      cases h
      exact ⟨fun _ ↦ rfl, fun _ ↦ .inr ⟨resetting, ⟨timedOut, rfl⟩, rfl⟩⟩
    · cases h
  | later value =>
    simp only [stepStopping] at h
    split at h <;> cases h
    exact ⟨fun _ ↦ rfl, .inl⟩

/-- Nobody has called or put behind `_stop`, and nobody can. -/
structure Silent (config : Config) (state : Stopping Payload) : Prop where
  late : state.late = []
  rests : state.stop = .returned → AtRest config state

theorem silent_start : Silent config (Stopping.start config : Stopping Payload) where
  late := rfl
  rests returned := by cases returned

/-- What a step of a run in which the joins outwait the workers preserves. -/
theorem Silent.step (h : Silent config state) {action : StopAction Payload}
    (allowed : outwaits config state action = true)
    (hstep : stepStopping config maxsize state action = some next) : Silent config next := by
  obtain ⟨late, returns⟩ := stop_of_step hstep
  by_cases returned : state.stop = .returned
  · obtain ⟨late', rests⟩ := (h.rests returned).step returned allowed hstep
    exact ⟨late'.trans h.late, fun _ ↦ rests⟩
  · refine ⟨(late returned).trans h.late, fun returned' ↦ ?_⟩
    rcases returns returned' with before | ⟨resetting, ⟨timedOut, rfl⟩, slots⟩
    · exact absurd before returned
    · -- The flag is cleared in this step: the condition says that every process is done.
      have done : config.processes.all (state.rests config) = true := by simpa [outwaits, resetting] using allowed
      exact (atRest_iff.mp done).congr slots

/-- In every run in which `_stop` clears the flag only when every worker process is done, and no restart of
the monitor spawns a process behind it, no worker process calls its stage or puts an item when `_stop` has
returned. -/
theorem no_late_of_outwaits (h : ((stopMachine Payload config maxsize).restrict (outwaits config)).Reachable state) :
    state.late = [] := by
  suffices silent : Silent config state from silent.late
  refine h.invariant (Silent config) silent_start ?_
  intro state action next silent hstep
  obtain ⟨allowed, hnext⟩ := Machine.restrict_step hstep
  exact silent.step allowed hnext

end Silence

def oneSource : Config where
  depth := 1
  stage := fun _ ↦ .plain false 1 1
  threshold := 1
  consumers := 1

def callRun (payload : ℕ) : List (StopAction ℕ) :=
  [.test 0 0 0, .test 0 0 0, .work (.thread 0 0 0 .call), .work (.thread 0 0 0 (.returns [payload] false)),
    .work (.thread 0 0 0 .send)]

/-- The worker sees the flag at the head of its loop and exits before the joins. -/
def stopsInTime : List (StopAction ℕ) :=
  callRun 7 ++ [StopAction.work (.thread 0 0 0 .flush), .work (.thread 0 0 0 .next), .stop false, .test 0 0 0] ++
    (finishRun 0 0 ++ endRun 0 0).map StopAction.work ++
    [StopAction.work (.main 0 0 (.release [])), .work (.main 0 0 .parkDone), .heed 0 0, .exit 0 0] ++
    List.replicate 9 (StopAction.stop false)

/-- A worker that sees the flag in time: nothing is late. -/
theorem no_late_stopsInTime : ∃ state : Stopping ℕ,
    ((stopMachine ℕ oneSource fun _ ↦ 4).restrict (outwaits oneSource)).runFrom (Stopping.start oneSource) stopsInTime =
      some state ∧ state.stop = .returned ∧ state.late = [] := by
  have hstop : ∃ state : Stopping ℕ,
      ((stopMachine ℕ oneSource fun _ ↦ 4).restrict (outwaits oneSource)).runFrom (Stopping.start oneSource)
        stopsInTime = some state ∧ state.stop = .returned := ⟨_, rfl, rfl⟩
  obtain ⟨state, hrun, returned⟩ := hstop
  exact ⟨state, hrun, returned, no_late_of_outwaits ⟨stopsInTime, hrun⟩⟩

/-- The worker is in a put on a full queue that nobody reads. Both joins time out; `unlink` makes room
and the cleared flag lets the worker go on. -/
def outlivesStop : List (StopAction ℕ) :=
  callRun 7 ++ [StopAction.work (.thread 0 0 0 .flush), .work (.thread 0 0 0 .next)] ++ callRun 8 ++
    [StopAction.stop false, .stop false, .stop false, .stop true, .signal 0 0] ++
    List.replicate 6 (StopAction.stop true) ++
    [StopAction.work (.thread 0 0 0 .flush), .work (.thread 0 0 0 .next)] ++ callRun 9

/-- A worker in a put on a full queue outlives both joins; `unlink` makes room, and it puts and calls again behind
`_stop`. -/
theorem not_no_late : ¬ ∀ (config : Config) (maxsize : ℕ → ℕ) (state : Stopping ℕ),
    (stopMachine ℕ config maxsize).Reachable state → state.late = [] := by
  intro noLate
  have hstop : ∃ state : Stopping ℕ, (stopMachine ℕ oneSource fun _ ↦ 1).runFrom (Stopping.start oneSource)
      outlivesStop = some state ∧ state.late = [(0, 0), (0, 0)] := ⟨_, rfl, rfl⟩
  obtain ⟨state, hrun, late⟩ := hstop
  have none := noLate oneSource (fun _ ↦ 1) state ⟨outlivesStop, hrun⟩
  rw [late] at none
  cases none

end GpuPipe.Pipeline
