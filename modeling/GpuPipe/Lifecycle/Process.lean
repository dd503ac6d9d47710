import Mathlib.Data.Nat.Notation
import Mathlib.Logic.Function.Basic
import GpuPipe.Library.Machine

/-!
# Starting, stopping and restarting a pipeline

The parent process: `start`, `_stop` and `restart` step by step, the health monitor and
scavenger threads they start and retire, the workers the monitor respawns, and the generator
of `Pipe.__iter__`. Threads are retired by an event that the next `start` clears and joined for
two seconds at most. The objects of the `n`-th `start` (its queues, counters and done events)
are numbered `n`. `busy`, `up`, `rebuilds` and `respawned` are history that no branch reads.
-/

namespace GpuPipe.Lifecycle

/-- Health checks on, some stage scavenges, `allow_full_restart`, and the number of workers. -/
structure Config where
  monitored : Bool
  scavenged : Bool
  fullRestart : Bool
  width : ℕ

/-- Who runs a lifecycle call: a thread of the user, the generator, or a monitor thread. -/
inductive Caller
  | user (id : ℕ)
  | reader
  | monitor (id : ℕ)
  deriving DecidableEq

inductive Op
  | start
  | stop
  | restart
  deriving DecidableEq

/-- The next statement of a call: those of `_stop` (`again` in a restart), then of `start`. -/
inductive Call
  | stopping (again : Bool)
  | retiring (again : Bool)
  | joining (again : Bool) (target : ℕ)
  | joined (again : Bool)
  | retiringScavenger (again : Bool)
  | joiningScavenger (again : Bool) (target : ℕ)
  | joinedScavenger (again : Bool)
  | resetting (again : Bool)
  | building
  | clearing
  | spawning
  | clearingScavenger
  | spawningScavenger
  deriving DecidableEq

/-- `_health_monitor_thread`. A crash is a worker slot with the process that was seen dead. -/
inductive Monitor
  | test
  | waiting
  | checking
  | scanning
  | deciding (crashes : List (ℕ × ℕ))
  | respawning (crashes : List (ℕ × ℕ))
  | restarting
  | exited
  deriving DecidableEq

inductive Scavenger
  | test
  | passing
  | waiting
  | exited
  deriving DecidableEq

/-- `Pipe.__iter__`; `capturing` reads `final_done`, `opening` makes `out_ch`. -/
inductive ReaderPc
  | fresh
  | starting
  | capturing
  | opening
  | head
  | reading
  | polled
  | restarting
  | stopping
  | returned
  | failed
  deriving DecidableEq

structure Reader where
  pc : ReaderPc
  event : Option ℕ
  queue : Option ℕ

structure Worker where
  process : ℕ
  crashed : Bool

structure State where
  shouldStop : ℕ
  monitor : Option ℕ
  monitorStop : Bool
  monitors : ℕ → Monitor
  nextMonitor : ℕ
  scavenger : Option ℕ
  scavengerStop : Bool
  scavengers : ℕ → Scavenger
  nextScavenger : ℕ
  width : ℕ
  workers : ℕ → Worker
  nextProcess : ℕ
  run : ℕ
  queue : Option ℕ
  event : Option ℕ
  done : ℕ → Bool
  started : Bool
  call : Caller → Option Call
  reader : Reader
  busy : Option Caller
  up : Bool
  rebuilds : ℕ
  respawned : List ℕ

def State.start : State where
  shouldStop := 0
  monitor := none
  monitorStop := false
  monitors := fun _ ↦ .exited
  nextMonitor := 0
  scavenger := none
  scavengerStop := false
  scavengers := fun _ ↦ .exited
  nextScavenger := 0
  width := 0
  workers := fun _ ↦ { process := 0, crashed := false }
  nextProcess := 0
  run := 0
  queue := none
  event := none
  done := fun _ ↦ false
  started := false
  call := fun _ ↦ none
  reader := { pc := .fresh, event := none, queue := none }
  busy := none
  up := false
  rebuilds := 0
  respawned := []

inductive MonitorMove
  | test
  | wake
  | check
  | scan (seen : List ℕ)
  | decide (full : Bool)
  | respawn
  | resume

inductive ScavengerMove
  | test
  | pass
  | wake

inductive ReaderMove
  | begin
  | resume
  | capture
  | open
  | test
  | yields
  | empty
  | fails
  | leave (enough : Bool)

inductive Action
  | begin (user : ℕ) (op : Op)
  | call (caller : Caller) (timeout : Bool)
  | monitor (id : ℕ) (move : MonitorMove)
  | scavenger (id : ℕ) (move : ScavengerMove)
  | reader (move : ReaderMove)
  | crash (slot : ℕ)
  | connectionError
  | finish

section Steps

variable (config : Config) (state : State)

def State.goto (caller : Caller) (call : Call) : State :=
  { state with call := Function.update state.call caller (some call) }

def State.enter (caller : Caller) (call : Call) : State :=
  { state with call := Function.update state.call caller (some call), busy := some caller }

def State.leave (caller : Caller) : State :=
  { state with call := Function.update state.call caller none, busy := none }

def State.afterBuild (caller : Caller) : State :=
  if config.monitored then state.goto caller .clearing
  else if config.scavenged then state.goto caller .clearingScavenger
  else state.leave caller

def State.afterMonitor (caller : Caller) : State :=
  if config.scavenged then state.goto caller .clearingScavenger else state.leave caller

/-- New queues, counters, events and worker processes. -/
def State.build : State :=
  { state with
    started := true
    run := state.run + 1
    queue := some (state.run + 1)
    event := some (state.run + 1)
    width := config.width
    workers := fun slot ↦ { process := state.nextProcess + slot, crashed := false }
    nextProcess := state.nextProcess + config.width
    up := true
    rebuilds := state.rebuilds + 1 }

/-- The end of `_stop`: no queues, no workers, flags and done events cleared. -/
def State.reset : State :=
  { state with
    queue := none
    width := 0
    shouldStop := 0
    done := fun run ↦ state.done run && state.event ≠ some run
    up := false }

/-- One statement of a call. A bounded join ends when its thread has exited, when it gives up,
or at once with an error when the thread would join itself. -/
def stepCall (caller : Caller) (timeout : Bool) : Call → Option State
  | .stopping again => some (State.goto { state with shouldStop := 1 } caller (.retiring again))
  | .retiring again =>
    match state.monitor with
    | some target =>
      if state.monitors target = .exited then some (state.goto caller (.retiringScavenger again))
      else some (State.goto { state with monitorStop := true } caller (.joining again target))
    | none => some (state.goto caller (.retiringScavenger again))
  | .joining again target =>
    if caller = .monitor target || state.monitors target = .exited || timeout then
      some (state.goto caller (.joined again))
    else none
  | .joined again => some (State.goto { state with monitor := none } caller (.retiringScavenger again))
  | .retiringScavenger again =>
    match state.scavenger with
    | some target =>
      if state.scavengers target = .exited then some (state.goto caller (.resetting again))
      else some (State.goto { state with scavengerStop := true } caller (.joiningScavenger again target))
    | none => some (state.goto caller (.resetting again))
  | .joiningScavenger again target =>
    if state.scavengers target = .exited || timeout then some (state.goto caller (.joinedScavenger again))
    else none
  | .joinedScavenger again => some (State.goto { state with scavenger := none } caller (.resetting again))
  | .resetting again =>
    if again then some (state.reset.goto caller .building) else some (state.reset.leave caller)
  | .building => some ((state.build config).afterBuild config caller)
  | .clearing => some (State.goto { state with monitorStop := false } caller .spawning)
  | .spawning =>
    some (State.afterMonitor config
      { state with
        monitor := some state.nextMonitor
        monitors := Function.update state.monitors state.nextMonitor .test
        nextMonitor := state.nextMonitor + 1 } caller)
  | .clearingScavenger => some (State.goto { state with scavengerStop := false } caller .spawningScavenger)
  | .spawningScavenger =>
    some (State.leave
      { state with
        scavenger := some state.nextScavenger
        scavengers := Function.update state.scavengers state.nextScavenger .test
        nextScavenger := state.nextScavenger + 1 } caller)

def State.setMonitor (id : ℕ) (monitor : Monitor) : State :=
  { state with monitors := Function.update state.monitors id monitor }

/-- `_restart_worker`: a new process in the slot, if the slot is still there. -/
def State.respawn (crash : ℕ × ℕ) : State :=
  if crash.1 < state.width then
    { state with
      workers := Function.update state.workers crash.1 { process := state.nextProcess, crashed := false }
      nextProcess := state.nextProcess + 1
      respawned := state.respawned ++ [crash.2] }
  else state

/-- The slots a scan reports: distinct, and each with a crashed process when it is looked at. -/
def State.scannable (seen : List ℕ) : Bool :=
  seen.Nodup && seen.all fun slot ↦ slot < state.width && (state.workers slot).crashed

def stepMonitor (id : ℕ) (move : MonitorMove) : Option State :=
  match move, state.monitors id with
  | .test, .test =>
    some (state.setMonitor id (if state.shouldStop ≠ 0 || state.monitorStop then .exited else .waiting))
  | .wake, .waiting => some (state.setMonitor id .checking)
  | .check, .checking =>
    some (state.setMonitor id (if state.shouldStop ≠ 0 || state.monitorStop then .exited else .scanning))
  | .scan seen, .scanning =>
    if state.scannable seen then
      if seen.isEmpty then some (state.setMonitor id .test)
      else some (state.setMonitor id (.deciding (seen.map fun slot ↦ (slot, (state.workers slot).process))))
    else none
  | .decide full, .deciding crashes =>
    if full then
      if config.fullRestart then
        some ((state.setMonitor id .restarting).enter (.monitor id) (.stopping true))
      else none
    else some (state.setMonitor id (.respawning crashes))
  | .respawn, .respawning (crash :: rest) => some ((state.respawn crash).setMonitor id (.respawning rest))
  | .respawn, .respawning [] => some (state.setMonitor id .test)
  | .resume, .restarting =>
    match state.call (.monitor id) with
    | none => some (state.setMonitor id .test)
    | some _ => none
  | _, _ => none

def State.setScavenger (id : ℕ) (scavenger : Scavenger) : State :=
  { state with scavengers := Function.update state.scavengers id scavenger }

def stepScavenger (id : ℕ) (move : ScavengerMove) : Option State :=
  match move, state.scavengers id with
  | .test, .test =>
    some (state.setScavenger id (if state.shouldStop ≠ 0 || state.scavengerStop then .exited else .passing))
  | .pass, .passing => some (state.setScavenger id .waiting)
  | .wake, .waiting => some (state.setScavenger id .test)
  | _, _ => none

def State.setReader (pc : ReaderPc) : State :=
  { state with reader := { state.reader with pc := pc } }

def stepReader (move : ReaderMove) : Option State :=
  match move, state.reader.pc with
  | .begin, .fresh =>
    if state.started then some (state.setReader .capturing)
    else some ((state.setReader .starting).enter .reader .building)
  | .resume, .starting => if state.call .reader = none then some (state.setReader .capturing) else none
  | .resume, .restarting => if state.call .reader = none then some (state.setReader .opening) else none
  | .resume, .stopping => if state.call .reader = none then some (state.setReader .returned) else none
  | .capture, .capturing =>
    match state.event with
    | some run =>
      some { state with reader := { state.reader with pc := .opening, event := some run }, rebuilds := 0 }
    | none => some (state.setReader .failed)
  | .open, .opening =>
    match state.queue with
    | some run => some { state with reader := { state.reader with pc := .head, queue := some run } }
    | none => some (state.setReader .failed)
  | .test, .head =>
    if state.shouldStop = 2 then some ((state.setReader .restarting).enter .reader (.stopping true))
    else some (state.setReader .reading)
  | .yields, .reading => some (state.setReader .head)
  | .empty, .reading => some (state.setReader .polled)
  | .fails, .reading =>
    -- A connection error of the get.
    some ((state.setReader .restarting).enter .reader (.stopping true))
  | .leave enough, .polled =>
    if enough && state.reader.event.elim false state.done then
      some ((state.setReader .stopping).enter .reader (.stopping false))
    else some (state.setReader .head)
  | _, _ => none

def step : Action → Option State
  | .begin user op =>
    if state.call (.user user) = none then
      some (state.enter (.user user)
        (match op with
          | .start => .building
          | .stop => .stopping false
          | .restart => .stopping true))
    else none
  | .call caller timeout =>
    match state.call caller with
    | some call => stepCall config state caller timeout call
    | none => none
  | .monitor id move => stepMonitor config state id move
  | .scavenger id move => stepScavenger state id move
  | .reader move => stepReader state move
  | .crash slot =>
    if slot < state.width then
      some { state with
        workers := Function.update state.workers slot { state.workers slot with crashed := true } }
    else none
  | .connectionError => some { state with shouldStop := 2 }
  | .finish =>
    match state.event with
    | some run => some { state with done := Function.update state.done run true }
    | none => none

end Steps

/-! ## What a monitor and the generator can do -/

section Cases

variable {config : Config} {state next : State}

/-- Every move of a monitor, with what it needs and what it leaves. -/
inductive MonitorStep (config : Config) (state : State) (id : ℕ) : MonitorMove → State → Prop
  | test (hpc : state.monitors id = .test) :
      MonitorStep config state id .test
        (state.setMonitor id (if state.shouldStop ≠ 0 || state.monitorStop then .exited else .waiting))
  | wake (hpc : state.monitors id = .waiting) :
      MonitorStep config state id .wake (state.setMonitor id .checking)
  | check (hpc : state.monitors id = .checking) :
      MonitorStep config state id .check
        (state.setMonitor id (if state.shouldStop ≠ 0 || state.monitorStop then .exited else .scanning))
  | quiet {seen : List ℕ} (hpc : state.monitors id = .scanning) (hseen : seen.isEmpty = true) :
      MonitorStep config state id (.scan seen) (state.setMonitor id .test)
  | scan {seen : List ℕ} (hpc : state.monitors id = .scanning) (hseen : state.scannable seen = true) :
      MonitorStep config state id (.scan seen)
        (state.setMonitor id (.deciding (seen.map fun slot ↦ (slot, (state.workers slot).process))))
  | restart {crashes : List (ℕ × ℕ)} (hpc : state.monitors id = .deciding crashes)
      (hfull : config.fullRestart = true) :
      MonitorStep config state id (.decide true)
        ((state.setMonitor id .restarting).enter (.monitor id) (.stopping true))
  | decide {crashes : List (ℕ × ℕ)} (hpc : state.monitors id = .deciding crashes) :
      MonitorStep config state id (.decide false) (state.setMonitor id (.respawning crashes))
  | respawn {crash : ℕ × ℕ} {rest : List (ℕ × ℕ)} (hpc : state.monitors id = .respawning (crash :: rest)) :
      MonitorStep config state id .respawn ((state.respawn crash).setMonitor id (.respawning rest))
  | respawned (hpc : state.monitors id = .respawning []) :
      MonitorStep config state id .respawn (state.setMonitor id .test)
  | resume (hpc : state.monitors id = .restarting) (hcall : state.call (.monitor id) = none) :
      MonitorStep config state id .resume (state.setMonitor id .test)

theorem stepMonitor_cases {id : ℕ} {move : MonitorMove} (h : stepMonitor config state id move = some next) :
    MonitorStep config state id move next := by
  simp only [stepMonitor] at h
  split at h
  · cases h
    exact .test ‹_›
  · cases h
    exact .wake ‹_›
  · cases h
    exact .check ‹_›
  · split at h
    · split at h <;> cases h
      · exact .quiet ‹_› ‹_›
      · exact .scan ‹_› ‹_›
    · cases h
  · rename_i full crashes hpc
    cases full with
    | true =>
      simp only [if_true] at h
      split at h <;> cases h
      exact .restart hpc ‹_›
    | false =>
      cases h
      exact .decide hpc
  · cases h
    exact .respawn ‹_›
  · cases h
    exact .respawned ‹_›
  · split at h <;> cases h
    exact .resume ‹_› ‹_›
  · cases h

/-- Every move of the generator, with what it needs and what it leaves. -/
inductive ReaderStep (state : State) : ReaderMove → State → Prop
  | running (hpc : state.reader.pc = .fresh) (hstarted : state.started = true) :
      ReaderStep state .begin (state.setReader .capturing)
  | start (hpc : state.reader.pc = .fresh) (hstarted : state.started ≠ true) :
      ReaderStep state .begin ((state.setReader .starting).enter .reader .building)
  | started (hpc : state.reader.pc = .starting) (hcall : state.call .reader = none) :
      ReaderStep state .resume (state.setReader .capturing)
  | restarted (hpc : state.reader.pc = .restarting) (hcall : state.call .reader = none) :
      ReaderStep state .resume (state.setReader .opening)
  | stopped (hpc : state.reader.pc = .stopping) (hcall : state.call .reader = none) :
      ReaderStep state .resume (state.setReader .returned)
  | capture {run : ℕ} (hpc : state.reader.pc = .capturing) (hevent : state.event = some run) :
      ReaderStep state .capture
        { state with reader := { state.reader with pc := .opening, event := some run }, rebuilds := 0 }
  | captureFails (hpc : state.reader.pc = .capturing) (hevent : state.event = none) :
      ReaderStep state .capture (state.setReader .failed)
  | opens {run : ℕ} (hpc : state.reader.pc = .opening) (hqueue : state.queue = some run) :
      ReaderStep state .open { state with reader := { state.reader with pc := .head, queue := some run } }
  | openFails (hpc : state.reader.pc = .opening) (hqueue : state.queue = none) :
      ReaderStep state .open (state.setReader .failed)
  | restart (hpc : state.reader.pc = .head) (hstop : state.shouldStop = 2) :
      ReaderStep state .test ((state.setReader .restarting).enter .reader (.stopping true))
  | test (hpc : state.reader.pc = .head) (hstop : state.shouldStop ≠ 2) :
      ReaderStep state .test (state.setReader .reading)
  | yields (hpc : state.reader.pc = .reading) : ReaderStep state .yields (state.setReader .head)
  | empty (hpc : state.reader.pc = .reading) : ReaderStep state .empty (state.setReader .polled)
  | fails (hpc : state.reader.pc = .reading) :
      ReaderStep state .fails ((state.setReader .restarting).enter .reader (.stopping true))
  | leave (hpc : state.reader.pc = .polled) (hdone : state.reader.event.elim false state.done = true) :
      ReaderStep state (.leave true) ((state.setReader .stopping).enter .reader (.stopping false))
  | again {enough : Bool} (hpc : state.reader.pc = .polled) :
      ReaderStep state (.leave enough) (state.setReader .head)

theorem stepReader_cases {move : ReaderMove} (h : stepReader state move = some next) :
    ReaderStep state move next := by
  simp only [stepReader] at h
  split at h
  · split at h <;> cases h
    · exact .running ‹_› ‹_›
    · exact .start ‹_› ‹_›
  · split at h <;> cases h
    exact .started ‹_› ‹_›
  · split at h <;> cases h
    exact .restarted ‹_› ‹_›
  · split at h <;> cases h
    exact .stopped ‹_› ‹_›
  · split at h <;> cases h
    · exact .capture ‹_› ‹_›
    · exact .captureFails ‹_› ‹_›
  · split at h <;> cases h
    · exact .opens ‹_› ‹_›
    · exact .openFails ‹_› ‹_›
  · split at h <;> cases h
    · exact .restart ‹_› ‹_›
    · exact .test ‹_› ‹_›
  · cases h
    exact .yields ‹_›
  · cases h
    exact .empty ‹_›
  · cases h
    exact .fails ‹_›
  · rename_i enough hpc
    split at h <;> cases h
    · rename_i hleave
      rw [Bool.and_eq_true] at hleave
      obtain ⟨rfl, hdone⟩ := hleave
      exact .leave hpc hdone
    · exact .again hpc
  · cases h

end Cases

def machine (config : Config) : Machine State Action where
  start := .start
  step := step config

def oneWorker : Config where
  monitored := true
  scavenged := false
  fullRestart := true
  width := 1

end GpuPipe.Lifecycle
