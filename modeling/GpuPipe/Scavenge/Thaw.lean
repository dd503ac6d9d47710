import Mathlib.Logic.Function.Iterate
import GpuPipe.Scavenge.Process

/-!
# Recovering a frozen worker

`frozen` tells a checkpointed process from a running one, but nothing tells a locked one. A slot is
recovered by the next free pass as long as no `unlock` of a locked process fails.
-/

namespace GpuPipe.Scavenge

variable {config : Config} {state next : State}

/-- No `unlock` of a locked process fails, in a rollback or in a thaw. -/
def unlocks (state : State) : Action → Bool
  | .scavenge answer =>
    !((state.scavenger = .unlocking || state.scavenger = .reviving) && state.driver = .locked) || answer.ok
  | .worker _ | .poll _ => true

/-- The driver state and the flag at each statement of a pass. -/
def Pc.driverOk : Pc → Bool → Driver → Prop
  | .idle, frozen, driver => driver = if frozen then .checkpointed else .running
  | .thawing, frozen, driver | .restoring, frozen, driver => frozen = true ∧ driver = .checkpointed
  | .reviving, frozen, driver => frozen = true ∧ driver = .locked
  | .thawed, frozen, driver => frozen = true ∧ driver = .running
  | .checkpointing, frozen, driver => frozen = false ∧ driver = .locked
  | .unlocking, frozen, driver => frozen = false ∧ driver ≠ .checkpointed
  | _, frozen, driver => frozen = false ∧ driver = .running

/-- The slot's flags tell the state of the driver, and a parked worker is not frozen. -/
structure Tells (state : State) : Prop where
  driver : state.scavenger.driverOk state.frozen state.driver
  parked : state.parked = true →
    state.frozen = false ∧ (state.scavenger = .idle ∨ state.scavenger = .resuming)

theorem tells_start (busy : Bool) : Tells (.start busy) := ⟨rfl, fun h ↦ Bool.noConfusion h⟩

/-- The worker's steps change its place and `park` only. -/
theorem moveWorker_keeps {move : WorkerMove} (moves : moveWorker config state move = some next) :
    next = { state with worker := next.worker, park := next.park } := by
  cases move <;> simp only [moveWorker] at moves <;> split at moves <;> cases moves <;> rfl

theorem Tells.moveWorker (tells : Tells state) {move : WorkerMove}
    (moves : moveWorker config state move = some next) : Tells next := by
  rw [moveWorker_keeps moves]
  exact ⟨tells.driver, tells.parked⟩

/-- Where a pass can begin. -/
theorem branch_cases (config : Config) (state : State) (isForeign : Bool) (used : Option ℕ) (streak : ℕ) :
    branch config state isForeign used streak = .idle ∨
      (branch config state isForeign used streak = .holding ∧ state.frozen = false ∧ state.parked = false ∧
        config.supportsPark = true ∧ used.isSome = true) ∨
      (branch config state isForeign used streak = .judging ∧ state.frozen = false ∧ state.parked = false) ∨
      (branch config state isForeign used streak = .resuming ∧ state.parked = true) ∨
      (branch config state isForeign used streak = .thawing ∧ state.frozen = true ∧ state.parked = false) ∨
      (branch config state isForeign used streak = .lowering ∧ state.frozen = false ∧ state.parked = false) := by
  unfold branch
  cases state.frozen <;> cases state.parked <;> cases state.hold <;> cases isForeign <;>
    cases config.supportsPark <;> cases used <;>
      by_cases long : config.needFreePolls ≤ streak <;> simp [long]

/-- Away from the statements that set the flag, the slot is not marked parked. -/
theorem Tells.goes (tells : Tells state) (place : state.scavenger ≠ .idle ∧ state.scavenger ≠ .resuming)
    (parked : next.parked = state.parked) (driver : next.scavenger.driverOk next.frozen next.driver) :
    Tells next where
  driver := driver
  parked isParked := by
    rcases (tells.parked (parked ▸ isParked)).2 with idle | resuming
    · exact absurd idle place.1
    · exact absurd resuming place.2

/-- A pass that leaves the slot free. -/
theorem Tells.begins (free : next.parked = false) (driver : next.scavenger.driverOk next.frozen next.driver) :
    Tells next where
  driver := driver
  parked isParked := by
    rw [free] at isParked
    cases isParked

theorem Pc.driverOk_idle_running {frozen : Bool} {driver : Driver} (runs : frozen = false ∧ driver = .running) :
    Pc.idle.driverOk frozen driver := by
  rw [runs.1, runs.2]
  rfl

theorem Pc.driverOk_idle_frozen {frozen : Bool} {driver : Driver}
    (froze : frozen = true ∧ driver = .checkpointed) : Pc.idle.driverOk frozen driver := by
  rw [froze.1, froze.2]
  rfl

theorem Tells.poll (tells : Tells state) (idle : state.scavenger = .idle) (sight : Sight) :
    Tells (poll config state sight) := by
  have driver := tells.driver
  rw [idle] at driver
  have runs (thawed : state.frozen = false) : state.frozen = false ∧ state.driver = .running := by
    refine ⟨thawed, driver.trans ?_⟩
    rw [thawed]
    rfl
  unfold Scavenge.poll
  dsimp only
  rcases branch_cases config state sight.isForeign sight.used
    (if sight.isForeign then 0 else state.streak + 1) with
    eq | ⟨eq, thawed, free, -⟩ | ⟨eq, thawed, free⟩ | ⟨eq, isParked⟩ | ⟨eq, froze, free⟩ | ⟨eq, thawed, free⟩ <;>
    rw [eq]
  · exact ⟨driver, fun isParked ↦ ⟨(tells.parked isParked).1, .inl rfl⟩⟩
  · exact .begins free (runs thawed)
  · exact .begins free (runs thawed)
  · exact ⟨runs (tells.parked isParked).1, fun _ ↦ ⟨(tells.parked isParked).1, .inr rfl⟩⟩
  · have checkpointed : state.driver = .checkpointed := by
      rw [froze] at driver
      exact driver
    exact .begins free ⟨froze, checkpointed⟩
  · exact .begins free (runs thawed)

/-- The rollback of a failed freeze. -/
theorem Driver.act_unlock {driver : Driver} {ok : Bool} (fits : driver ≠ .checkpointed)
    (allowed : driver = .locked → ok = true) : (driver.act .unlock ok).2 = .running := by
  cases driver with
  | running => rfl
  | locked => rw [allowed rfl]; rfl
  | checkpointed => contradiction

/-- After every statement of a pass the flags tell what the driver's state is. -/
theorem Tells.scavenge (tells : Tells state) {answer : Answer}
    (allowed : unlocks state (.scavenge answer) = true) : Tells (scavenge config state answer) := by
  obtain ⟨park, hold, parked, frozen, frozenMib, driver, worker, scavenger, used, streak⟩ := state
  have place := tells.driver
  dsimp only at place
  unfold Scavenge.scavenge
  cases scavenger with
  | idle => exact tells
  | holding | requesting | withdrawing | remeasuring => exact tells.goes ⟨nofun, nofun⟩ rfl place
  | awaiting | testing | timing | judging | weighing =>
    dsimp only
    split <;> exact tells.goes ⟨nofun, nofun⟩ rfl place
  | measuring =>
    dsimp only
    split
    · exact tells.goes ⟨nofun, nofun⟩ rfl place
    · exact ⟨Pc.driverOk_idle_running place, fun _ ↦ ⟨place.1, .inl rfl⟩⟩
  | securing =>
    dsimp only
    split
    · exact tells.goes ⟨nofun, nofun⟩ rfl (Pc.driverOk_idle_running place)
    · split <;> exact tells.goes ⟨nofun, nofun⟩ rfl place
  | locking =>
    obtain ⟨rfl, rfl⟩ := place
    cases answer.ok with
    | true => exact tells.goes ⟨nofun, nofun⟩ rfl ⟨rfl, rfl⟩
    | false => exact tells.goes ⟨nofun, nofun⟩ rfl ⟨rfl, nofun⟩
  | checkpointing =>
    obtain ⟨rfl, rfl⟩ := place
    cases answer.ok with
    | true => exact tells.goes ⟨nofun, nofun⟩ rfl rfl
    | false => exact tells.goes ⟨nofun, nofun⟩ rfl ⟨rfl, nofun⟩
  | unlocking =>
    have ok : driver = .locked → answer.ok = true := by
      intro locked
      simpa [unlocks, locked] using allowed
    exact tells.goes ⟨nofun, nofun⟩ rfl ⟨place.1, Driver.act_unlock place.2 ok⟩
  | keeping => exact ⟨Pc.driverOk_idle_running place, fun _ ↦ ⟨place.1, .inl rfl⟩⟩
  | resuming => exact .begins rfl place
  | thawing =>
    dsimp only
    split
    · exact tells.goes ⟨nofun, nofun⟩ rfl (Pc.driverOk_idle_frozen place)
    · exact tells.goes ⟨nofun, nofun⟩ rfl place
  | restoring =>
    obtain ⟨rfl, rfl⟩ := place
    cases answer.ok with
    | true => exact tells.goes ⟨nofun, nofun⟩ rfl ⟨rfl, rfl⟩
    | false => exact tells.goes ⟨nofun, nofun⟩ rfl rfl
  | reviving =>
    obtain ⟨rfl, rfl⟩ := place
    have ok : answer.ok = true := by simpa [unlocks] using allowed
    rw [ok]
    exact tells.goes ⟨nofun, nofun⟩ rfl ⟨rfl, rfl⟩
  | thawed => exact tells.goes ⟨nofun, nofun⟩ rfl ⟨rfl, place.2⟩
  | checking =>
    dsimp only
    split <;> exact tells.goes ⟨nofun, nofun⟩ rfl place
  | clearing => exact tells.goes ⟨nofun, nofun⟩ rfl place
  | lowering => exact tells.goes ⟨nofun, nofun⟩ rfl (Pc.driverOk_idle_running place)

/-- What a step preserves while no unlock fails. -/
theorem Tells.step (tells : Tells state) {action : Action} (allowed : unlocks state action = true)
    (moves : step config state action = some next) : Tells next := by
  cases action with
  | worker move => exact tells.moveWorker moves
  | poll sight =>
    simp only [Scavenge.step, Option.ite_none_right_eq_some, Option.some.injEq] at moves
    obtain ⟨idle, rfl⟩ := moves
    exact tells.poll idle sight
  | scavenge answer =>
    simp only [Scavenge.step, Option.ite_none_right_eq_some, Option.some.injEq] at moves
    obtain ⟨-, rfl⟩ := moves
    exact tells.scavenge allowed

/-! ## A free pass -/

/-- The steps of a free pass that are left, for the places it comes to. -/
def Pc.left : Pc → Option ℕ
  | .idle => some 0
  | .lowering => some 1
  | .resuming | .clearing => some 2
  | .checking => some 3
  | .thawed => some 4
  | .reviving => some 5
  | .restoring => some 6
  | .thawing => some 7
  | _ => none

/-- A free pass ends soon, and then the process runs and is not marked frozen. -/
structure Recovering (count : ℕ) (state : State) : Prop where
  tells : Tells state
  left : ∃ left, state.scavenger.left = some left ∧ count + left ≤ 7
  ended : state.scavenger = .idle → state.frozen = false

/-- Each statement of a free pass brings a frozen process nearer to running. -/
theorem Recovering.scavenge {count : ℕ} (recovering : Recovering count state) {answer : Answer}
    (busy : state.scavenger ≠ .idle) (ok : answer.ok = true)
    (vram : lacksVram state.frozenMib answer.mib = false) :
    Recovering (count + 1) (scavenge config state answer) := by
  obtain ⟨tells, ⟨left, place, bound⟩, -⟩ := recovering
  have driver := tells.driver
  suffices (∃ left, (Scavenge.scavenge config state answer).scavenger.left = some left ∧ count + 1 + left ≤ 7) ∧
      ((Scavenge.scavenge config state answer).scavenger = .idle →
        (Scavenge.scavenge config state answer).frozen = false) from
    ⟨tells.scavenge (by simp [unlocks, ok]), this.1, this.2⟩
  cases pc : state.scavenger with
  | idle => contradiction
  | resuming =>
    rw [pc] at place
    cases place
    exact ⟨⟨1, by simp [Scavenge.scavenge, pc, Pc.left], by omega⟩, by simp [Scavenge.scavenge, pc]⟩
  | thawing =>
    rw [pc] at place
    cases place
    exact ⟨⟨6, by simp [Scavenge.scavenge, pc, vram, Pc.left], by omega⟩, by simp [Scavenge.scavenge, pc, vram]⟩
  | restoring =>
    rw [pc] at place driver
    cases place
    refine ⟨⟨5, ?_, by omega⟩, ?_⟩ <;> simp [Scavenge.scavenge, pc, driver.2, Driver.act, Driver.next, ok, Pc.left]
  | reviving =>
    rw [pc] at place driver
    cases place
    refine ⟨⟨4, ?_, by omega⟩, ?_⟩ <;> simp [Scavenge.scavenge, pc, driver.2, Driver.act, Driver.next, ok, Pc.left]
  | thawed =>
    rw [pc] at place
    cases place
    exact ⟨⟨3, by simp [Scavenge.scavenge, pc, Pc.left], by omega⟩, by simp [Scavenge.scavenge, pc]⟩
  | checking =>
    rw [pc] at place
    cases place
    simp only [Scavenge.scavenge, pc]
    split
    · exact ⟨⟨2, rfl, by omega⟩, by simp⟩
    · exact ⟨⟨1, rfl, by omega⟩, by simp⟩
  | clearing =>
    rw [pc] at place
    cases place
    exact ⟨⟨1, by simp [Scavenge.scavenge, pc, Pc.left], by omega⟩, by simp [Scavenge.scavenge, pc]⟩
  | lowering =>
    rw [pc] at place driver
    cases place
    exact ⟨⟨0, by simp [Scavenge.scavenge, pc, Pc.left], by omega⟩, by simp [Scavenge.scavenge, pc, driver.1]⟩
  | _ =>
    rw [pc] at place
    cases place

theorem FreePass.recovering {before : State} {count : ℕ} (tells : Tells before)
    (pass : FreePass config before count state) : Recovering count state := by
  induction pass with
  | @begins sight idle free long =>
    refine ⟨tells.poll idle sight, ?_, ?_⟩
    · simp only [poll, branch, free, Bool.false_eq_true, if_false, long, if_true]
      repeat' split
      all_goals exact ⟨_, rfl, by decide⟩
    · simp only [poll, branch, free, Bool.false_eq_true, if_false, long, if_true]
      intro idle'
      cases hfrozen : before.frozen <;> cases hparked : before.parked <;> simp_all
  | goes pass busy ok vram ih => exact ih.scavenge busy ok vram
  | @works count state next move pass moves ih =>
    refine ⟨ih.tells.moveWorker moves, ?_, ?_⟩
    · rw [moveWorker_keeps moves]
      exact ih.left
    · rw [moveWorker_keeps moves]
      exact ih.ended

/-- As long as no `unlock` of a locked process fails: from every state reached, a pass over the slot
with its GPU free for long enough, enough memory and no failures of valid actions ends, and it ends
with the process running and the slot not frozen. -/
theorem freePass_recovers (config : Config) (busy : Bool) (state : State)
    (reachable : ((machine config busy).restrict unlocks).Reachable state) (count : ℕ) (after : State)
    (pass : FreePass config state count after) :
    count ≤ 7 ∧ (after.scavenger = .idle → after.driver = .running ∧ after.frozen = false) := by
  have tells : Tells state := by
    refine reachable.invariant Tells (tells_start busy) fun before action next tells moves ↦ ?_
    obtain ⟨allowed, moves⟩ := Machine.restrict_step moves
    exact tells.step allowed moves
  obtain ⟨told, ⟨left, -, bound⟩, ended⟩ := pass.recovering tells
  refine ⟨by omega, fun idle ↦ ?_⟩
  have driver := told.driver
  rw [idle, ended idle] at driver
  exact ⟨driver, ended idle⟩

/-! ## Runs of a worker without `on_park` -/

/-- A pass in which the worker does not move and no amount of free memory is known. -/
theorem FreePass.undisturbed {before : State} (sight : Sight) (idle : before.scavenger = .idle)
    (free : sight.isForeign = false) (long : config.needFreePolls ≤ before.streak + 1) (count : ℕ)
    (busy : ∀ steps < count,
      ((scavenge config · ⟨true, none⟩)^[steps] (poll config before sight)).scavenger ≠ .idle) :
    FreePass config before count ((scavenge config · ⟨true, none⟩)^[count] (poll config before sight)) := by
  induction count with
  | zero => exact .begins idle free long
  | succ count ih =>
    rw [Function.iterate_succ_apply']
    exact .goes (ih fun steps lt ↦ busy steps (by omega)) (busy count (by omega)) rfl rfl

def plain : Config where
  supportsPark := false
  ckptBin := true
  needFreePolls := 1
  residual := 600

def upToCheckpoint : List Action :=
  [.poll ⟨true, some 100⟩, .scavenge ⟨true, none⟩, .scavenge ⟨true, none⟩, .scavenge ⟨true, none⟩,
    .scavenge ⟨true, none⟩]

def freeze : List Action := upToCheckpoint ++ [Action.scavenge ⟨true, none⟩]

def frozenState : State :=
  { State.start false with
    hold := true
    frozen := true
    frozenMib := 100
    driver := .checkpointed
    used := some 100 }

/-- A frozen process runs again after six steps. -/
theorem freePass_recovers_frozenState : ∃ after, FreePass plain frozenState 6 after ∧
    after.scavenger = .idle ∧ after.driver = .running ∧ after.frozen = false := by
  have reachable : ((machine plain false).restrict unlocks).Reachable frozenState := ⟨freeze, by decide⟩
  have pass : FreePass plain frozenState 6 _ :=
    FreePass.undisturbed ⟨false, none⟩ rfl rfl (by decide) 6 (by decide)
  exact ⟨_, pass, by decide, (freePass_recovers plain false frozenState reachable 6 _ pass).2 (by decide)⟩

/-- After a failed `checkpoint` whose rollback fails too, and after a thaw whose `unlock` fails, a
free pass leaves the process locked. -/
theorem not_freePass_recovers :
    (∃ state after, (machine plain false).Reachable state ∧ FreePass plain state 1 after ∧
      after.scavenger = .idle ∧ after.driver = .locked) ∧
    ∃ state after, (machine plain false).Reachable state ∧ FreePass plain state 2 after ∧
      after.scavenger = .idle ∧ after.driver = .locked ∧ after.frozen = true := by
  constructor
  · let state : State := { State.start false with hold := true, driver := .locked, used := some 100 }
    have reachable : (machine plain false).Reachable state :=
      ⟨upToCheckpoint ++ [Action.scavenge ⟨false, none⟩, .scavenge ⟨false, none⟩, .scavenge ⟨true, none⟩], by decide⟩
    have pass : FreePass plain state 1 _ :=
      FreePass.undisturbed ⟨false, none⟩ rfl rfl (by decide) 1 (by decide)
    exact ⟨state, _, reachable, pass, by decide, by decide⟩
  · let state : State := { frozenState with driver := .locked, used := none, streak := 1 }
    have reachable : (machine plain false).Reachable state :=
      ⟨freeze ++ [Action.poll ⟨false, none⟩, .scavenge ⟨true, none⟩, .scavenge ⟨true, none⟩, .scavenge ⟨false, none⟩],
        by decide⟩
    have pass : FreePass plain state 2 _ :=
      FreePass.undisturbed ⟨false, none⟩ rfl rfl (by decide) 2 (by decide)
    exact ⟨state, _, reachable, pass, by decide, by decide, by decide⟩

end GpuPipe.Scavenge
