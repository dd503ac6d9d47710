import Mathlib.Data.Nat.Notation
import Mathlib.Logic.Function.Basic
import GpuPipe.Scavenge.Process

/-!
# Killing hung workers

The workers' timed calls, the scavenger's passes over their slots and the health monitor's
`_kill_hung_workers`, with time in ticks. Every store of `busy_since` and every slot and stamp that the
monitor reads is a step of its own. Of each call the history counts the ticks in which its worker was
frozen or parked and those in which it was not. A worker without a slot is one whose slot the scavenger
never comes to; texts and the crash history are left out.
-/

namespace GpuPipe.Hang

/-- One `_timed_call`: the clock as it read it, and the ticks it has seen since. -/
structure Call where
  began : ℕ
  active : ℕ
  stalled : ℕ
  deriving DecidableEq

inductive Place
  | outside
  /-- The clock is read and `busy_since` not stored yet. -/
  | stamping (call : Call)
  | calling (call : Call)

def Place.call : Place → Option Call
  | .outside => none
  | .stamping call | .calling call => some call

structure Worker where
  alive : Bool
  /-- `busy_since`, which outlives its process. -/
  busySince : ℕ
  place : Place
  slot : Scavenge.State

/-- Frozen or parked, by the driver's state or by the slot's flags. -/
def Worker.stalls (worker : Worker) : Bool :=
  worker.slot.driver ≠ .running || worker.slot.frozen || worker.slot.parked

def Call.tick (call : Call) (stalls : Bool) : Call :=
  if stalls then { call with stalled := call.stalled + 1 } else { call with active := call.active + 1 }

def Worker.tick (worker : Worker) : Worker :=
  match worker.place with
  | .outside => worker
  | .stamping call => { worker with place := .stamping (call.tick worker.stalls) }
  | .calling call => { worker with place := .calling (call.tick worker.stalls) }

inductive Monitor (ι : Type)
  | resting
  | holding (held : List ι) (todo : List ι)
  | judging (held : List ι) (now : ℕ) (todo : List ι)
  /-- The stamp is too old: `busy_since` is reset, then the process killed. -/
  | resetting (held : List ι) (now : ℕ) (worker : ι) (started : ℕ) (todo : List ι)
  | killing (held : List ι) (now : ℕ) (worker : ι) (started : ℕ) (todo : List ι)

/-- A kill, and where the worker was. -/
structure Kill (ι : Type) where
  worker : ι
  place : Place

structure State (ι : Type) where
  clock : ℕ
  workers : ι → Worker
  monitor : Monitor ι
  kills : List (Kill ι)

inductive Move
  | begin
  | stamp
  | finish
  /-- The process dies by itself. -/
  | crash

inductive Action (ι : Type)
  | tick
  | work (worker : ι) (move : Move)
  | scavenge (worker : ι) (action : Scavenge.Action)
  /-- The scavenger finds no process for the slot. -/
  | forget (worker : ι)
  | monitor
  /-- The crash scan that follows the health check. -/
  | respawn (worker : ι)

variable {ι : Type} [DecidableEq ι]

def State.set (state : State ι) (worker : ι) (value : Worker) : State ι :=
  { state with workers := Function.update state.workers worker value }

/-- The monotonic clock is positive, so that a stamp is never 0. -/
def State.start (busy : ι → Bool) : State ι where
  clock := 1
  workers := fun worker ↦ ⟨true, 0, .outside, .start (busy worker)⟩
  monitor := .resting
  kills := []

section Steps

variable (config : ι → Scavenge.Config) (timeout : ι → Option ℕ) (crew : List ι) (state : State ι)

/-- `_timed_call`, around a call in the worker's loop. -/
def moveWorker (clock : ℕ) (worker : Worker) : Move → Option Worker
  | .begin =>
    match worker.place with
    | .outside =>
      if worker.slot.worker = .running then some { worker with place := .stamping ⟨clock, 0, 0⟩ } else none
    | _ => none
  | .stamp =>
    match worker.place with
    | .stamping call => some { worker with place := .calling call, busySince := call.began }
    | _ => none
  | .finish =>
    match worker.place with
    | .calling _ => some { worker with place := .outside, busySince := 0 }
    | _ => none
  | .crash => some { worker with alive := false, place := .outside }

/-- The worker parks between its calls, and a pass begins with the live ones. -/
def scavengeable (worker : Worker) : Scavenge.Action → Bool
  | .worker _ => worker.alive && worker.place.call.isNone
  | .poll _ => worker.alive
  | .scavenge _ => true

/-- The next statement of `_kill_hung_workers`. -/
def checkHealth : State ι :=
  match state.monitor with
  | .resting => { state with monitor := .holding [] crew }
  | .holding held (worker :: todo) =>
    let slot := (state.workers worker).slot
    { state with monitor := .holding (if slot.frozen || slot.parked then worker :: held else held) todo }
  | .holding held [] => { state with monitor := .judging held state.clock crew }
  | .judging held now (worker :: todo) =>
    match timeout worker with
    | none => { state with monitor := .judging held now todo }
    | some limit =>
      let started := (state.workers worker).busySince
      if worker ∉ held ∧ (state.workers worker).alive = true ∧ started ≠ 0 ∧ limit < now - started then
        { state with monitor := .resetting held now worker started todo }
      else { state with monitor := .judging held now todo }
  | .judging _ _ [] => { state with monitor := .resting }
  | .resetting held now worker started todo =>
    { state.set worker { state.workers worker with busySince := 0 } with
      monitor := .killing held now worker started todo }
  | .killing held now worker _ todo =>
    if (state.workers worker).alive then
      { state.set worker { state.workers worker with alive := false, place := .outside } with
        monitor := .judging held now todo
        kills := state.kills ++ [⟨worker, (state.workers worker).place⟩] }
    else { state with monitor := .judging held now todo }

def step : Action ι → Option (State ι)
  | .tick => some { state with
      clock := state.clock + 1
      workers := fun worker ↦ (state.workers worker).tick }
  | .work worker move =>
    if (state.workers worker).alive then
      (moveWorker state.clock (state.workers worker) move).map (state.set worker)
    else none
  | .scavenge worker action =>
    if scavengeable (state.workers worker) action then
      (Scavenge.step (config worker) (state.workers worker).slot action).map fun slot ↦
        state.set worker { state.workers worker with slot := slot }
    else none
  | .forget worker =>
    if (state.workers worker).alive then none
    else
      let slot := (state.workers worker).slot
      some (state.set worker { state.workers worker with slot := { slot with frozen := false } })
  | .monitor => some (checkHealth timeout crew state)
  | .respawn worker =>
    match state.monitor with
    | .resting =>
      if (state.workers worker).alive then none
      else
        let slot := (state.workers worker).slot
        -- the new process gets the `busy_since` of the old one
        some (state.set worker { state.workers worker with
          alive := true, slot := { slot with worker := .held, driver := .running } })
    | _ => none

end Steps

def machine (config : ι → Scavenge.Config) (timeout : ι → Option ℕ) (crew : List ι) (busy : ι → Bool) :
    Machine (State ι) (Action ι) where
  start := .start busy
  step := step config timeout crew

/-- The worker was in a call, for more than `hang_timeout` ticks in which it was not frozen or parked. -/
def Kill.Fair (timeout : ι → Option ℕ) (kill : Kill ι) : Prop :=
  ∃ limit call, timeout kill.worker = some limit ∧ kill.place.call = some call ∧ limit < call.active

def KillsFairly (timeout : ι → Option ℕ) (state : State ι) : Prop :=
  ∀ kill ∈ state.kills, kill.Fair timeout

/-- The monitor kills a worker in the call whose stamp it has read, and no tick of that call was spent
frozen or parked. -/
def killsUnstalled (state : State ι) : Action ι → Bool
  | .monitor =>
    match state.monitor with
    | .killing _ _ worker started _ =>
      !(state.workers worker).alive ||
        ((state.workers worker).place.call.any fun call ↦ call.began = started && call.stalled = 0)
    | _ => true
  | _ => true

/-! ## What a call has seen -/

variable {config : ι → Scavenge.Config} {timeout : ι → Option ℕ} {crew : List ι} {busy : ι → Bool}
variable {state next : State ι} {worker : ι}

/-- Every tick since the clock was read is counted once. -/
def Call.Counted (clock : ℕ) (call : Call) : Prop :=
  0 < call.began ∧ call.began + call.active + call.stalled = clock

def Worker.Counted (clock : ℕ) (worker : Worker) : Prop :=
  ∀ call, worker.place.call = some call → call.Counted clock

/-- The stamps a check compares are taken at or before its clock. -/
def Monitor.Timed (timeout : ι → Option ℕ) (clock : ℕ) : Monitor ι → Prop
  | .resting | .holding _ _ => True
  | .judging _ now _ => now ≤ clock
  | .resetting _ now worker started _ | .killing _ now worker started _ =>
    now ≤ clock ∧ ∃ limit, timeout worker = some limit ∧ limit < now - started

structure Inv (timeout : ι → Option ℕ) (state : State ι) : Prop where
  clock : 0 < state.clock
  counted : ∀ worker, (state.workers worker).Counted state.clock
  timed : state.monitor.Timed timeout state.clock

omit [DecidableEq ι] in
theorem Monitor.Timed.later {monitor : Monitor ι} {clock later : ℕ} (h : monitor.Timed timeout clock)
    (hle : clock ≤ later) : monitor.Timed timeout later := by
  cases monitor with
  | resting | holding => trivial
  | judging => exact Nat.le_trans h hle
  | resetting | killing => exact ⟨Nat.le_trans h.1 hle, h.2⟩

theorem Call.Counted.tick {clock : ℕ} {call : Call} (h : call.Counted clock) (stalls : Bool) :
    (call.tick stalls).Counted (clock + 1) := by
  obtain ⟨hpos, hsum⟩ := h
  cases stalls <;> exact ⟨hpos, by simp only [Call.tick]; grind⟩

/-- A tick is counted in the call that sees it, and as spent frozen or parked if it was. -/
theorem Worker.Counted.tick {clock : ℕ} {worker : Worker} (h : worker.Counted clock) :
    worker.tick.Counted (clock + 1) := by
  intro call hcall
  unfold Worker.tick at hcall
  split at hcall
  · rename_i hplace
    rw [hplace] at hcall
    cases hcall
  · rename_i before hplace
    cases hcall
    exact (h before (by rw [hplace]; rfl)).tick _
  · rename_i before hplace
    cases hcall
    exact (h before (by rw [hplace]; rfl)).tick _

theorem Worker.Counted.move {clock : ℕ} {worker after : Worker} {move : Move} (h : worker.Counted clock)
    (hclock : 0 < clock) (hmove : moveWorker clock worker move = some after) : after.Counted clock := by
  intro call hcall
  cases move with
  | begin =>
    simp only [moveWorker] at hmove
    split at hmove
    · split at hmove
      · cases hmove
        cases hcall
        exact ⟨hclock, rfl⟩
      · cases hmove
    · cases hmove
  | stamp =>
    simp only [moveWorker] at hmove
    split at hmove
    · rename_i before hplace
      cases hmove
      cases hcall
      exact h call (by rw [hplace]; rfl)
    · cases hmove
  | finish =>
    simp only [moveWorker] at hmove
    split at hmove
    · cases hmove
      cases hcall
    · cases hmove
  | crash =>
    cases hmove
    cases hcall

/-- Only one worker changes, and its call is counted as before. -/
theorem Inv.set (h : Inv timeout state) {value : Worker}
    (hworkers : next.workers = Function.update state.workers worker value)
    (hvalue : value.Counted state.clock) (hclock : next.clock = state.clock)
    (htimed : next.monitor.Timed timeout state.clock) : Inv timeout next where
  clock := by rw [hclock]; exact h.clock
  counted := by
    rw [hworkers, hclock]
    exact (Function.forall_update_iff state.workers fun _ (value : Worker) ↦ value.Counted state.clock).mpr
      ⟨hvalue, fun other _ ↦ h.counted other⟩
  timed := by rw [hclock]; exact htimed

theorem Worker.Counted.congr {clock : ℕ} {worker after : Worker} (h : worker.Counted clock)
    (hplace : after.place = worker.place) : after.Counted clock := by
  rwa [Worker.Counted, hplace]

theorem Worker.counted_outside (clock : ℕ) {worker : Worker} (hplace : worker.place = .outside) :
    worker.Counted clock := by
  intro call hcall
  rw [hplace] at hcall
  cases hcall

/-- A check reads the clock first and then the stamps, so that what it compares is not from the future. -/
theorem Inv.checkHealth (h : Inv timeout state) : Inv timeout (checkHealth timeout crew state) := by
  have htimed := h.timed
  unfold Hang.checkHealth
  split
  · exact ⟨h.clock, h.counted, trivial⟩
  · exact ⟨h.clock, h.counted, trivial⟩
  · exact ⟨h.clock, h.counted, Nat.le_refl _⟩
  · rename_i held now worker todo hmonitor
    rw [hmonitor] at htimed
    split
    · exact ⟨h.clock, h.counted, htimed⟩
    · rename_i limit hlimit
      dsimp only
      split
      · rename_i hhung
        exact ⟨h.clock, h.counted, htimed, limit, hlimit, hhung.2.2.2⟩
      · exact ⟨h.clock, h.counted, htimed⟩
  · exact ⟨h.clock, h.counted, trivial⟩
  · rename_i held now worker started todo hmonitor
    rw [hmonitor] at htimed
    exact h.set rfl ((h.counted worker).congr rfl) rfl htimed
  · rename_i held now worker started todo hmonitor
    rw [hmonitor] at htimed
    split
    · exact h.set rfl (Worker.counted_outside _ rfl) rfl htimed.1
    · exact ⟨h.clock, h.counted, htimed.1⟩

/-- Every step of workers, scavenger passes and monitor keeps the stamps right. -/
theorem Inv.step {action : Action ι} (h : Inv timeout state)
    (hstep : step config timeout crew state action = some next) : Inv timeout next := by
  cases action with
  | tick =>
    cases hstep
    exact ⟨Nat.succ_pos _, fun worker ↦ (h.counted worker).tick, h.timed.later (Nat.le_succ _)⟩
  | work worker move =>
    simp only [Hang.step, Option.ite_none_right_eq_some, Option.map_eq_some_iff] at hstep
    obtain ⟨-, after, hmove, rfl⟩ := hstep
    exact h.set rfl ((h.counted worker).move h.clock hmove) rfl h.timed
  | scavenge worker action =>
    simp only [Hang.step, Option.ite_none_right_eq_some, Option.map_eq_some_iff] at hstep
    obtain ⟨-, slot, -, rfl⟩ := hstep
    exact h.set rfl ((h.counted worker).congr rfl) rfl h.timed
  | forget worker =>
    simp only [Hang.step, Option.ite_none_left_eq_some] at hstep
    obtain ⟨-, hnext⟩ := hstep
    cases hnext
    exact h.set rfl ((h.counted worker).congr rfl) rfl h.timed
  | monitor =>
    cases hstep
    exact h.checkHealth
  | respawn worker =>
    simp only [Hang.step] at hstep
    split at hstep
    · rw [Option.ite_none_left_eq_some] at hstep
      obtain ⟨-, hnext⟩ := hstep
      cases hnext
      exact h.set rfl ((h.counted worker).congr rfl) rfl h.timed
    · cases hstep

omit [DecidableEq ι] in
theorem inv_start : Inv timeout (State.start busy) where
  clock := Nat.one_pos
  counted := fun _ ↦ Worker.counted_outside _ rfl
  timed := trivial

theorem inv_of_reachable (h : (machine config timeout crew busy).Reachable state) : Inv timeout state :=
  h.invariant (Inv timeout) inv_start fun _ _ _ hstate hstep ↦ hstate.step hstep

/-! ## Kills -/

/-- Only the monitor kills. -/
theorem step_kills {action : Action ι} (hstep : step config timeout crew state action = some next) :
    next.kills = state.kills ∨ action = .monitor ∧ ∃ held now worker started todo,
      state.monitor = .killing held now worker started todo ∧ (state.workers worker).alive = true ∧
        next.kills = state.kills ++ [⟨worker, (state.workers worker).place⟩] := by
  cases action with
  | tick =>
    cases hstep
    exact .inl rfl
  | work worker move =>
    simp only [step, Option.ite_none_right_eq_some, Option.map_eq_some_iff] at hstep
    obtain ⟨-, after, -, rfl⟩ := hstep
    exact .inl rfl
  | scavenge worker action =>
    simp only [step, Option.ite_none_right_eq_some, Option.map_eq_some_iff] at hstep
    obtain ⟨-, slot, -, rfl⟩ := hstep
    exact .inl rfl
  | forget worker =>
    simp only [step, Option.ite_none_left_eq_some] at hstep
    obtain ⟨-, hnext⟩ := hstep
    cases hnext
    exact .inl rfl
  | monitor =>
    cases hstep
    unfold checkHealth
    split
    · exact .inl rfl
    · exact .inl rfl
    · exact .inl rfl
    · split
      · exact .inl rfl
      · dsimp only
        split <;> exact .inl rfl
    · exact .inl rfl
    · exact .inl rfl
    · rename_i held now worker started todo hmonitor
      split
      · rename_i halive
        exact .inr ⟨rfl, held, now, worker, started, todo, hmonitor, halive, rfl⟩
      · exact .inl rfl
  | respawn worker =>
    simp only [step] at hstep
    split at hstep
    · rw [Option.ite_none_left_eq_some] at hstep
      obtain ⟨-, hnext⟩ := hstep
      cases hnext
      exact .inl rfl
    · cases hstep

/-- A kill in a call of which no tick was frozen or parked is a fair one. -/
theorem KillsFairly.step {action : Action ι} (h : KillsFairly timeout state) (hinv : Inv timeout state)
    (hallowed : killsUnstalled state action = true)
    (hstep : step config timeout crew state action = some next) : KillsFairly timeout next := by
  rcases step_kills hstep with hsame | ⟨rfl, held, now, worker, started, todo, hmonitor, halive, hkills⟩
  · rwa [KillsFairly, hsame]
  · intro kill hkill
    rw [hkills, List.mem_append, List.mem_singleton] at hkill
    rcases hkill with hkill | rfl
    · exact h kill hkill
    · simp only [killsUnstalled, hmonitor, halive, Bool.not_true, Bool.false_or, Option.any_eq_true,
        Bool.and_eq_true, decide_eq_true_eq] at hallowed
      obtain ⟨call, hcall, hbegan, hstalled⟩ := hallowed
      have htimed := hinv.timed
      rw [hmonitor] at htimed
      obtain ⟨hnow, limit, hlimit, hhung⟩ := htimed
      have hcounted := (hinv.counted worker call hcall).2
      exact ⟨limit, call, hlimit, hcall, by omega⟩

/-! ## A call that has been stalled -/

/-- A call that a health check can take for hung: its worker is watched, alive, stamped and not held. -/
structure Exposed (timeout : ι → Option ℕ) (crew : List ι) (state : State ι) (worker : ι) (limit : ℕ)
    (call : Call) : Prop where
  resting : state.monitor = .resting
  mem : worker ∈ crew
  watched : timeout worker = some limit
  alive : (state.workers worker).alive = true
  calling : (state.workers worker).place = .calling call
  stamped : (state.workers worker).busySince = call.began
  thawed : (state.workers worker).slot.frozen = false
  unparked : (state.workers worker).slot.parked = false

variable {limit : ℕ} {call : Call}

section Runs

variable (config busy)

theorem Exposed.tick (h : Exposed timeout crew state worker limit call) :
    ∃ next after,
    step config timeout crew state .tick = some next ∧ Exposed timeout crew next worker limit after ∧
      after.began = call.began ∧ after.active ≤ call.active + 1 ∧ next.clock = state.clock + 1 := by
  have htick : (state.workers worker).tick = { state.workers worker with
      place := .calling (call.tick (state.workers worker).stalls) } := by
    simp only [Worker.tick, h.calling]
  refine ⟨_, call.tick (state.workers worker).stalls, rfl, ?_, ?_, ?_, rfl⟩
  · refine ⟨h.resting, h.mem, h.watched, ?_, ?_, ?_, ?_, ?_⟩ <;> dsimp only <;> rw [htick]
    · exact h.alive
    · rw [h.stamped]
      unfold Call.tick
      split <;> rfl
    · exact h.thawed
    · exact h.unparked
  · unfold Call.tick
    split <;> rfl
  · unfold Call.tick
    split
    · exact Nat.le_succ _
    · exact Nat.le_refl _

/-- Time alone does not end a call: after any number of ticks it is as exposed, and as much older. -/
theorem Exposed.ticks (h : Exposed timeout crew state worker limit call) (ticks : ℕ) : ∃ next after,
    (machine config timeout crew busy).runFrom state (List.replicate ticks .tick) = some next ∧
      Exposed timeout crew next worker limit after ∧ after.began = call.began ∧
        after.active ≤ call.active + ticks ∧ next.clock = state.clock + ticks := by
  induction ticks generalizing state call with
  | zero => exact ⟨state, call, rfl, h, rfl, Nat.le_refl _, rfl⟩
  | succ ticks ih =>
    obtain ⟨middle, between, hstep, hmiddle, hbegan, hactive, hclock⟩ := h.tick config
    obtain ⟨next, after, hrun, hnext, hbegan', hactive', hclock'⟩ := ih hmiddle
    exact ⟨next, after, Machine.runFrom_step hstep hrun, hnext, hbegan'.trans hbegan, by omega, by omega⟩

/-- The check collects the held workers without this one. -/
theorem run_holding (timeout : ι → Option ℕ) (crew : List ι)
    (hthawed : (state.workers worker).slot.frozen = false)
    (hunparked : (state.workers worker).slot.parked = false) (todo held : List ι) (hheld : worker ∉ held) :
    ∃ held', worker ∉ held' ∧ (machine config timeout crew busy).runFrom
      { state with monitor := .holding held todo } (List.replicate todo.length .monitor) =
        some { state with monitor := .holding held' [] } := by
  induction todo generalizing held with
  | nil => exact ⟨held, hheld, rfl⟩
  | cons other todo ih =>
    obtain ⟨held', hheld', hrun⟩ := ih
      (if (state.workers other).slot.frozen || (state.workers other).slot.parked then other :: held else held)
      (by
        rcases eq_or_ne worker other with rfl | hne
        · simpa [hthawed, hunparked] using hheld
        · split
          · simp [hne, hheld]
          · exact hheld)
    exact ⟨held', hheld', Machine.runFrom_step rfl hrun⟩

/-- The check kills the next worker. -/
theorem run_hung (crew : List ι) {held todo : List ι} {now : ℕ} {other : ι}
    (hmonitor : state.monitor = .judging held now (other :: todo)) (hwatched : timeout other = some limit)
    (hhung : other ∉ held ∧ (state.workers other).alive = true ∧ (state.workers other).busySince ≠ 0 ∧
      limit < now - (state.workers other).busySince) : ∃ last,
    (machine config timeout crew busy).runFrom state [.monitor, .monitor, .monitor] = some last ∧
      last.monitor = .judging held now todo ∧
        (∀ worker, worker ≠ other → last.workers worker = state.workers worker) ∧
          last.kills = state.kills ++ [⟨other, (state.workers other).place⟩] := by
  have hfirst : step config timeout crew state .monitor = some { state with
      monitor := .resetting held now other (state.workers other).busySince todo } := by
    simp only [step, checkHealth, hmonitor, hwatched]
    rw [if_pos hhung]
  refine ⟨_, Machine.runFrom_step hfirst (Machine.runFrom_step rfl (Machine.runFrom_step rfl rfl)), ?_⟩
  simp only [checkHealth, State.set, Function.update_self, hhung.2.1, if_true, true_and, and_true]
  intro worker hne
  rw [Function.update_of_ne hne, Function.update_of_ne hne]

/-- The check comes to a hung worker that it does not hold back from, and kills it in its call. -/
theorem run_judging (crew : List ι) {held : List ι} {now : ℕ} (hheld : worker ∉ held)
    (hwatched : timeout worker = some limit)
    (hhung : limit < now - call.began) (hbegan : 0 < call.began) (todo : List ι) (hmem : worker ∈ todo)
    (state : State ι) (hmonitor : state.monitor = .judging held now todo)
    (halive : (state.workers worker).alive = true) (hcalling : (state.workers worker).place = .calling call)
    (hstamped : (state.workers worker).busySince = call.began) : ∃ actions last,
      (machine config timeout crew busy).runFrom state actions = some last ∧
        ⟨worker, .calling call⟩ ∈ last.kills := by
  induction todo generalizing state with
  | nil => cases hmem
  | cons other todo ih =>
    rcases eq_or_ne worker other with rfl | hne
    · obtain ⟨last, hrun, -, -, hkills⟩ := run_hung config busy crew hmonitor hwatched
        ⟨hheld, halive, by omega, by omega⟩
      exact ⟨_, last, hrun, by rw [hkills, hcalling]; simp⟩
    · have hmem' : worker ∈ todo := (List.mem_cons.mp hmem).resolve_left hne
      by_cases hother : ∃ limit, timeout other = some limit ∧ other ∉ held ∧
          (state.workers other).alive = true ∧ (state.workers other).busySince ≠ 0 ∧
            limit < now - (state.workers other).busySince
      · obtain ⟨limit', hwatched', hhung'⟩ := hother
        obtain ⟨middle, hrun, hmiddle, hothers, -⟩ := run_hung config busy crew hmonitor hwatched' hhung'
        have hsame := hothers worker hne
        obtain ⟨actions, last, hrest, hkill⟩ := ih hmem' middle hmiddle (by rw [hsame]; exact halive)
          (by rw [hsame]; exact hcalling) (by rw [hsame]; exact hstamped)
        exact ⟨_, last, Machine.runFrom_trans hrun hrest, hkill⟩
      · have hpass : step config timeout crew state .monitor =
            some { state with monitor := .judging held now todo } := by
          simp only [step, checkHealth, hmonitor]
          split
          · rfl
          · rename_i limit' hwatched'
            rw [if_neg fun hhung' ↦ hother ⟨limit', hwatched', hhung'⟩]
        obtain ⟨actions, last, hrest, hkill⟩ := ih hmem' { state with monitor := .judging held now todo } rfl
          halive hcalling hstamped
        exact ⟨.monitor :: actions, last, Machine.runFrom_step hpass hrest, hkill⟩

/-- A health check that comes late enough kills an exposed call that was stalled within its time. -/
theorem Exposed.unfair (h : Exposed timeout crew state worker limit call) (hinv : Inv timeout state)
    (hwithin : call.active ≤ limit) (hstalled : 0 < call.stalled) : ∃ actions last,
      (machine config timeout crew busy).runFrom state actions = some last ∧
        ¬ KillsFairly timeout last := by
  obtain ⟨hpos, hsum⟩ := hinv.counted worker call (by rw [h.calling]; rfl)
  obtain ⟨late, after, hlate, hafter, hbegan, hactive, hclock⟩ :=
    h.ticks config busy (limit + 1 - (call.active + call.stalled))
  obtain ⟨held, hheld, hholding⟩ := run_holding config busy timeout crew hafter.thawed hafter.unparked crew []
    List.not_mem_nil
  obtain ⟨actions, last, hjudging, hkill⟩ := run_judging config busy crew hheld hafter.watched (by omega)
    (by omega) crew hafter.mem { late with monitor := .judging held late.clock crew } rfl hafter.alive
    hafter.calling hafter.stamped
  have hbegin : step config timeout crew late .monitor = some { late with monitor := .holding [] crew } := by
    simp only [step, checkHealth, hafter.resting]
  have hcheck : (machine config timeout crew busy).runFrom late
      (.monitor :: (List.replicate crew.length .monitor ++ [.monitor])) =
        some { late with monitor := .judging held late.clock crew } :=
    Machine.runFrom_step hbegin (Machine.runFrom_trans hholding rfl)
  refine ⟨_, last, Machine.runFrom_trans hlate (Machine.runFrom_trans hcheck hjudging), fun hfair ↦ ?_⟩
  · obtain ⟨limit', call', hlimit', hcall', hlong⟩ := hfair _ hkill
    rw [hafter.watched, Option.some.injEq] at hlimit'
    cases hcall'
    omega

end Runs

/-- Every kill was fair in a run that kills only in calls it has read the stamp of and that were never
stalled; and where a call has been stalled, a later health check can kill its worker too early. -/
theorem killsFairly_of_unstalled :
    (∀ state, ((machine config timeout crew busy).restrict killsUnstalled).Reachable state →
      KillsFairly timeout state) ∧
    ∀ state worker limit call, (machine config timeout crew busy).Reachable state →
      Exposed timeout crew state worker limit call → call.active ≤ limit → 0 < call.stalled →
        ∃ actions last, (machine config timeout crew busy).runFrom state actions = some last ∧
          ¬ KillsFairly timeout last := by
  constructor
  · intro state h
    refine (h.invariant (fun state ↦ Inv timeout state ∧ KillsFairly timeout state)
      ⟨inv_start, fun _ hkill ↦ absurd hkill List.not_mem_nil⟩ ?_).2
    intro state action next hstate hstep
    obtain ⟨hallowed, hnext⟩ := Machine.restrict_step hstep
    exact ⟨hstate.1.step hnext, hstate.2.step hstate.1 hallowed hnext⟩
  · intro state worker limit call h hexposed hwithin hstalled
    exact hexposed.unfair config busy (inv_of_reachable h) hwithin hstalled

/-! ## One worker -/

/-- One worker with a timeout of two ticks, whose GPU is free after one poll. -/
def single : Machine (State Unit) (Action Unit) :=
  machine (fun _ ↦ ⟨false, true, 1, 0⟩) (fun _ ↦ some 2) [()] fun _ ↦ false

def ticks (count : ℕ) : List (Action Unit) := List.replicate count .tick

def callBegins : List (Action Unit) :=
  [.scavenge () (.worker .release), .work () .begin, .work () .stamp]

def killingCheck : List (Action Unit) := List.replicate 6 .monitor

/-- A foreign process takes the GPU, and the scavenger freezes the worker. -/
def freezes : List (Action Unit) :=
  .scavenge () (.poll ⟨true, some 10⟩) :: List.replicate 5 (.scavenge () (.scavenge ⟨true, none⟩))

/-- The GPU is free again, and the scavenger thaws it. -/
def thaws : List (Action Unit) :=
  .scavenge () (.poll ⟨false, none⟩) :: List.replicate 6 (.scavenge () (.scavenge ⟨true, none⟩))

/-- A worker that has been in its call for three ticks, with a timeout of two, is killed. -/
theorem killsFairly_running : ∃ state, (single.restrict killsUnstalled).Reachable state ∧
    state.kills.length = 1 ∧ KillsFairly (fun _ ↦ some 2) state := by
  have hrun : ((single.restrict killsUnstalled).runFrom single.start
      (callBegins ++ ticks 3 ++ killingCheck)).map (fun state ↦ state.kills.length) = some 1 := by decide +kernel
  obtain ⟨state, hstate, hlength⟩ := Option.map_eq_some_iff.mp hrun
  exact ⟨state, ⟨_, hstate⟩, hlength, killsFairly_of_unstalled.1 state ⟨_, hstate⟩⟩

/-- The worker is frozen for the whole call, thawed and killed. -/
theorem not_killsFairly : ¬ ∀ (ι : Type) [DecidableEq ι] (config : ι → Scavenge.Config)
    (timeout : ι → Option ℕ) (crew : List ι) (busy : ι → Bool) (state : State ι),
    (machine config timeout crew busy).Reachable state → KillsFairly timeout state := by
  intro hall
  have hrun : (single.runFrom single.start
      (callBegins ++ freezes ++ ticks 3 ++ thaws ++ killingCheck)).map
        (fun state ↦ state.kills.map fun kill ↦ kill.place.call) = some [some ⟨1, 0, 3⟩] := by decide +kernel
  obtain ⟨state, hstate, hkills⟩ := Option.map_eq_some_iff.mp hrun
  obtain ⟨kill, hkill, hcall⟩ := List.map_eq_singleton_iff.mp hkills
  obtain ⟨limit, call, hlimit, hcall', hlong⟩ :=
    hall Unit _ (fun _ ↦ some 2) _ _ state ⟨_, hstate⟩ kill (by rw [hkill]; exact List.mem_singleton_self _)
  rw [hcall, Option.some.injEq] at hcall'
  rw [← hcall'] at hlong
  exact Nat.not_lt_zero _ hlong

end GpuPipe.Hang
