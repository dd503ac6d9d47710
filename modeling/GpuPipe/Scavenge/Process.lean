import Mathlib.Data.Nat.Notation
import GpuPipe.Library.Machine

/-!
# Scavenging one slot

The scavenger's passes over one slot, the worker's `_maybe_park`, and the driver state that
`cuda-checkpoint` changes. Every read or write of `park` or `hold`, every query and every
`cuda-checkpoint` action is a step of its own, so that the two parties interleave between any two of
them. What the clock, `nvidia-smi` and the driver answer is part of the action. The worker process
lives on and is not told to stop; texts and logs are left out.
-/

namespace GpuPipe.Scavenge

inductive Park
  | run
  | requested
  | parked
  | refused
  deriving DecidableEq

/-- The CUDA state of the worker process. -/
inductive Driver
  | running
  | locked
  | checkpointed
  deriving DecidableEq

inductive DriverAction
  | lock
  | checkpoint
  | restore
  | unlock
  deriving DecidableEq

/-- The state that a valid action leads to. -/
def Driver.next : Driver → DriverAction → Option Driver
  | .running, .lock => some .locked
  | .locked, .checkpoint => some .checkpointed
  | .checkpointed, .restore => some .locked
  | .locked, .unlock => some .running
  | _, _ => none

/-- `_run` of an action: whether it returned zero, and the state after it. An action that is invalid
or fails changes nothing. -/
def Driver.act (driver : Driver) (action : DriverAction) (succeeds : Bool) : Bool × Driver :=
  match driver.next action with
  | some next => if succeeds then (true, next) else (false, driver)
  | none => (false, driver)

inductive WorkerPc
  /-- In `_scavenge_hold_wait`. -/
  | held
  /-- In its loop, outside `_maybe_park`. -/
  | running
  /-- In `on_park`, or sending what it returned. -/
  | parking
  /-- About to store the ack. -/
  | acking
  /-- In the loop that waits for `park` to leave 2. -/
  | waiting
  /-- In `on_unpark` or `load`. -/
  | rebuilding
  deriving DecidableEq

inductive WorkerMove
  | release
  | look
  | finish
  /-- `on_park` raises. -/
  | refuse
  /-- Sending an item of `on_park` raises. -/
  | fail
  | ack
  | check
  | rebuild
  deriving DecidableEq

/-- What the scavenger does next with the slot. -/
inductive Pc
  | idle
  -- The GPU is claimed: `_park_worker`,
  | holding
  | requesting
  | awaiting
  | testing
  | timing
  | withdrawing
  | measuring
  | remeasuring
  -- the tests before a checkpoint,
  | judging
  | securing
  -- `_freeze_worker`,
  | weighing
  | locking
  | checkpointing
  | unlocking
  -- and `_keep_acked_park`.
  | keeping
  -- The GPU is free: a parked worker is resumed,
  | resuming
  -- a frozen one thawed by `_thaw_worker`,
  | thawing
  | restoring
  | reviving
  | thawed
  | checking
  | clearing
  -- and the hold ends.
  | lowering
  deriving DecidableEq

/-- What does not change during a run of the scavenger thread. -/
structure Config where
  supportsPark : Bool
  /-- A `cuda-checkpoint` binary was found. -/
  ckptBin : Bool
  /-- `max(1, round(free_secs / poll))` -/
  needFreePolls : ℕ
  /-- `PARK_RESIDUAL_MIB` -/
  residual : ℕ

def restoreMargin : ℕ := 256

structure State where
  park : Park
  hold : Bool
  parked : Bool
  frozen : Bool
  frozenMib : ℕ
  driver : Driver
  worker : WorkerPc
  scavenger : Pc
  /-- `used_by_pid.get(pid)` of this pass. -/
  used : Option ℕ
  /-- `free_streak` of the slot's GPU. -/
  streak : ℕ
  deriving DecidableEq

/-- What `nvidia-smi` shows at the start of a pass: whether a foreign process is on the GPU, and what
the worker uses. -/
structure Sight where
  isForeign : Bool
  used : Option ℕ

/-- What a query, a test or a command gives: whether it came out well, and an amount of memory. -/
structure Answer where
  ok : Bool
  mib : Option ℕ

inductive Action
  | worker (move : WorkerMove)
  | poll (sight : Sight)
  | scavenge (answer : Answer)

/-- `hold` is up if the GPU was busy at the start. -/
def State.start (busy : Bool) : State where
  park := .run
  hold := busy
  parked := false
  frozen := false
  frozenMib := 0
  driver := .running
  worker := .held
  scavenger := .idle
  used := none
  streak := 0

variable (config : Config) (state : State)

/-- The worker's steps. Without `on_park` there is no `park` word. -/
def moveWorker : WorkerMove → Option State
  | .release =>
    if state.worker = .held ∧ state.hold = false then some { state with worker := .running } else none
  | .look =>
    if state.worker = .running ∧ config.supportsPark = true ∧ state.park = .requested then
      some { state with worker := .parking }
    else none
  | .finish => if state.worker = .parking then some { state with worker := .acking } else none
  | .refuse =>
    if state.worker = .parking then some { state with worker := .running, park := .refused } else none
  | .fail => if state.worker = .parking then some { state with worker := .running } else none
  | .ack => if state.worker = .acking then some { state with worker := .waiting, park := .parked } else none
  | .check =>
    if state.worker = .waiting ∧ state.park ≠ .parked then some { state with worker := .rebuilding } else none
  | .rebuild => if state.worker = .rebuilding then some { state with worker := .running } else none

/-- The branch of the pass over the slot. -/
def branch (isForeign : Bool) (used : Option ℕ) (streak : ℕ) : Pc :=
  if isForeign then
    if state.frozen || state.parked then .idle
    else if config.supportsPark && used.isSome then .holding
    else .judging
  else if config.needFreePolls ≤ streak then
    if state.parked then .resuming
    else if state.frozen then .thawing
    else if state.hold then .lowering
    else .idle
  else .idle

/-- The pass begins: the streak is counted and the branch chosen. -/
def poll (sight : Sight) : State :=
  let streak := if sight.isForeign then 0 else state.streak + 1
  { state with
    streak := streak
    used := sight.used
    scavenger := branch config state sight.isForeign sight.used streak }

/-- `free < frozen_mib + RESTORE_MARGIN_MIB`, if both are known. -/
def lacksVram (frozenMib : ℕ) : Option ℕ → Bool
  | some free => 0 < frozenMib && free < frozenMib + restoreMargin
  | none => false

/-- `avail < used_mib`, if both are known. -/
def lacksRam (usedMib : ℕ) : Option ℕ → Bool
  | some avail => 0 < usedMib && avail < usedMib
  | none => false

/-- The next statement of the pass. -/
def scavenge (answer : Answer) : State :=
  match state.scavenger with
  | .idle => state
  | .holding => { state with hold := true, scavenger := .requesting }
  | .requesting => { state with park := .requested, scavenger := .awaiting }
  | .awaiting => { state with scavenger := if state.park = .parked then .measuring else .testing }
  | .testing => { state with scavenger := if state.park = .refused then .withdrawing else .timing }
  | .timing => { state with scavenger := if answer.ok then .awaiting else .withdrawing }
  | .withdrawing => { state with park := .run, scavenger := .remeasuring }
  | .measuring =>
    if config.residual < answer.mib.getD 0 then { state with scavenger := .remeasuring }
    else { state with parked := true, scavenger := .idle }
  | .remeasuring => { state with used := answer.mib <|> state.used, scavenger := .judging }
  | .judging => { state with scavenger := if answer.ok then .securing else .keeping }
  | .securing =>
    { state with
      hold := true
      scavenger := if state.used.isNone then .idle else if config.ckptBin then .weighing else .keeping }
  | .weighing =>
    { state with scavenger := if lacksRam (state.used.getD 0) answer.mib then .keeping else .locking }
  | .locking =>
    let (done, driver) := state.driver.act .lock answer.ok
    { state with driver := driver, scavenger := if done then .checkpointing else .unlocking }
  | .checkpointing =>
    let (done, driver) := state.driver.act .checkpoint answer.ok
    if done then
      { state with driver := driver, frozen := true, frozenMib := state.used.getD 0, scavenger := .idle }
    else { state with driver := driver, scavenger := .unlocking }
  | .unlocking =>
    { state with driver := (state.driver.act .unlock answer.ok).2, scavenger := .keeping }
  | .keeping =>
    { state with
      parked := state.parked || (config.supportsPark && state.park = .parked)
      scavenger := .idle }
  | .resuming => { state with park := .run, parked := false, scavenger := .lowering }
  | .thawing =>
    { state with scavenger := if lacksVram state.frozenMib answer.mib then .idle else .restoring }
  | .restoring =>
    let (done, driver) := state.driver.act .restore answer.ok
    { state with driver := driver, scavenger := if done then .reviving else .idle }
  | .reviving =>
    let (done, driver) := state.driver.act .unlock answer.ok
    { state with driver := driver, scavenger := if done then .thawed else .idle }
  | .thawed => { state with frozen := false, scavenger := .checking }
  | .checking =>
    { state with scavenger := if config.supportsPark && state.park = .parked then .clearing else .lowering }
  | .clearing => { state with park := .run, scavenger := .lowering }
  | .lowering => { state with hold := false, scavenger := .idle }

def step : Action → Option State
  | .worker move => moveWorker config state move
  | .poll sight => if state.scavenger = .idle then some (poll config state sight) else none
  | .scavenge answer => if state.scavenger ≠ .idle then some (scavenge config state answer) else none

def machine (config : Config) (busy : Bool) : Machine State Action where
  start := .start busy
  step := step config

/-- A pass that finds the GPU free for long enough, begun in an idle state: the number of the
scavenger's steps so far and the state it has come to. The driver's valid actions do not fail, there
is enough memory for a restore, and the worker moves in between as it likes. -/
inductive FreePass (config : Config) (before : State) : ℕ → State → Prop
  | begins {sight : Sight} (idle : before.scavenger = .idle) (free : sight.isForeign = false)
      (long : config.needFreePolls ≤ before.streak + 1) : FreePass config before 0 (poll config before sight)
  | goes {count : ℕ} {state : State} {answer : Answer} (pass : FreePass config before count state)
      (busy : state.scavenger ≠ .idle) (ok : answer.ok = true)
      (vram : lacksVram state.frozenMib answer.mib = false) :
      FreePass config before (count + 1) (scavenge config state answer)
  | works {count : ℕ} {state next : State} {move : WorkerMove} (pass : FreePass config before count state)
      (moves : moveWorker config state move = some next) : FreePass config before count next

end GpuPipe.Scavenge
