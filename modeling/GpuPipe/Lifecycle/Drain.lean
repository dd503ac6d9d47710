import Mathlib.Data.Nat.Notation
import Mathlib.Logic.Function.Basic
import GpuPipe.Library.Machine

/-!
# A restart in the middle of a drain

`restart` reads `drain_event`, `_stop` clears it, `start` spawns the workers one by one and may raise, and
only then `restart` sets the event again. The workers of the new run move between any two of these steps;
those of the old run only read the event, and are left out. A worker that has left may be respawned, and
Ctrl-C may set the event at any time.
-/

namespace GpuPipe.Drain

/-- The workers of a run: which are of the root stage, and their jobs' `drain`; `start` sets the root's
to `False`. -/
structure Crew (n : ℕ) where
  isRoot : Fin n → Bool
  drain : Fin n → Bool
  root_drain : ∀ worker, isRoot worker = true → drain worker = false

inductive Place
  | unborn
  /-- Before its loop. -/
  | loading
  | looping
  /-- Past the drain check. -/
  | passed
  /-- In the loop over the items of its stage's generator. -/
  | generating
  | gone
  deriving DecidableEq

inductive Pc
  | reading
  | stopping
  | clearing
  | spawning (next : ℕ)
  | setting
  | done
  /-- `start` has raised. -/
  | raised
  deriving DecidableEq

structure State (n : ℕ) where
  pc : Pc
  /-- `drain_event` -/
  event : Bool
  draining : Bool
  /-- Ctrl-C since the event was cleared. -/
  interrupted : Bool
  place : Fin n → Place
  /-- What the new workers' tests of the event have given. -/
  reads : List (Fin n × Bool)
  /-- The new workers' calls of their stages. -/
  calls : List (Fin n)

inductive Move
  | enter
  | check
  | call
  /-- The call has returned a generator. -/
  | generate
  /-- `_stopping`, between two items of the root's generator. -/
  | look
  | back
  /-- The worker stops, raises or dies. -/
  | leave
  deriving DecidableEq

inductive Action (n : ℕ)
  | restart
  /-- `start` raises. -/
  | fail
  | interrupt
  | respawn (worker : Fin n)
  | work (worker : Fin n) (move : Move)
  deriving DecidableEq

/-- `restart` is called, while the event is set or not. -/
def State.start (n : ℕ) (event : Bool) : State n where
  pc := .reading
  event := event
  draining := false
  interrupted := false
  place := fun _ ↦ .unborn
  reads := []
  calls := []

section Steps

variable {n : ℕ} (crew : Crew n) (state : State n)

def State.goto (worker : Fin n) (place : Place) : State n :=
  { state with place := Function.update state.place worker place }

/-- The worker tests the event and leaves if it is set. -/
def State.test (worker : Fin n) (place : Place) : State n :=
  { state.goto worker (if state.event then .gone else place) with
    reads := state.reads ++ [(worker, state.event)] }

/-- The next statement of `restart`. -/
def stepRestart : Option (State n) :=
  match state.pc with
  | .reading => some { state with draining := state.event, pc := .stopping }
  | .stopping => some { state with pc := .clearing }
  | .clearing => some { state with event := false, interrupted := false, pc := .spawning 0 }
  | .spawning next =>
    if h : next < n then some { state.goto ⟨next, h⟩ .loading with pc := .spawning (next + 1) }
    else some { state with pc := if state.draining then .setting else .done }
  | .setting => some { state with event := true, pc := .done }
  | .done | .raised => none

/-- One iteration of a worker's loop; `passed` is left by a call, or without one if there is no item. -/
def stepWorker (worker : Fin n) : Move → Option (State n)
  | .enter => if state.place worker = .loading then some (state.goto worker .looping) else none
  | .check =>
    if state.place worker = .looping then
      some (if crew.drain worker then state.goto worker .passed else state.test worker .passed)
    else none
  | .call =>
    if state.place worker = .passed then
      some { state.goto worker .looping with calls := state.calls ++ [worker] }
    else none
  | .generate =>
    if state.place worker = .passed then
      some { state.goto worker .generating with calls := state.calls ++ [worker] }
    else none
  | .look =>
    if state.place worker = .generating ∧ crew.isRoot worker = true then
      some (state.test worker .generating)
    else none
  | .back =>
    if state.place worker = .generating ∨ state.place worker = .passed ∧ crew.isRoot worker = false then
      some (state.goto worker .looping)
    else none
  | .leave => if state.place worker = .unborn then none else some (state.goto worker .gone)

def step : Action n → Option (State n)
  | .restart => stepRestart state
  | .fail =>
    match state.pc with
    | .spawning _ => some { state with pc := .raised }
    | _ => none
  | .interrupt => some { state with event := true, interrupted := true }
  | .respawn worker => if state.place worker = .gone then some (state.goto worker .loading) else none
  | .work worker move => stepWorker crew state worker move

end Steps

def machine {n : ℕ} (crew : Crew n) (event : Bool) : Machine (State n) (Action n) where
  start := .start n event
  step := step crew

variable {n : ℕ} {crew : Crew n} {state next : State n} {worker : Fin n}

/-- Every worker of the new run reads the event as set, and no root worker calls its stage. -/
structure DrainSurvives (crew : Crew n) (state : State n) : Prop where
  reads : ∀ read ∈ state.reads, read.2 = true
  calls : ∀ worker ∈ state.calls, crew.isRoot worker = false

def tests (crew : Crew n) : Action n → Bool
  | .work worker .check => !crew.drain worker
  | .work _ .look => true
  | _ => false

/-- The event is tested only after `restart` has set it again, or after a Ctrl-C. -/
def testsLate (crew : Crew n) (state : State n) (action : Action n) : Bool :=
  !tests crew action || state.pc = .done || state.interrupted

/-! ## The event during a restart -/

/-- `_stop` has cleared the event. -/
def Pc.cleared : Pc → Bool
  | .reading | .stopping | .clearing => false
  | .spawning _ | .setting | .done | .raised => true

/-- A worker past the drain check. -/
def Place.inside : Place → Bool
  | .passed | .generating => true
  | .unborn | .loading | .looping | .gone => false

/-- Somebody has read the event as clear. -/
def State.readClear (state : State n) : Prop := ∃ read ∈ state.reads, read.2 = false

structure Inv (crew : Crew n) (state : State n) : Prop where
  unborn : state.pc.cleared = false → ∀ worker, state.place worker = .unborn
  draining : if state.pc = .reading then state.event = true else state.draining = true
  event : state.pc.cleared = true → (state.event = true ↔ state.pc = .done ∨ state.interrupted = true)
  inside : ∀ worker, crew.isRoot worker = true → (state.place worker).inside = true → state.readClear
  called : ∀ worker ∈ state.calls, crew.isRoot worker = true → state.readClear

theorem inv_start : Inv crew (State.start n true) where
  unborn := fun _ _ ↦ rfl
  draining := rfl
  event := nofun
  inside := nofun
  called := nofun

/-- The drain survives as long as nobody has read the event as clear. -/
theorem Inv.survives_iff (h : Inv crew state) : DrainSurvives crew state ↔ ¬ state.readClear := by
  constructor
  · rintro hsurvives ⟨read, hread, hclear⟩
    rw [hsurvives.reads read hread] at hclear
    cases hclear
  · intro hclear
    constructor
    · intro read hread
      by_contra hcontra
      exact hclear ⟨read, hread, by simpa using hcontra⟩
    · intro worker hworker
      by_contra hcontra
      exact hclear (h.called worker hworker (by simpa using hcontra))

/-- A born worker moves on, without a test, to a place that a root worker may have. -/
theorem Inv.goto (h : Inv crew state) {place : Place} (hborn : state.pc.cleared = true) {calls : List (Fin n)}
    (hplace : crew.isRoot worker = true → place.inside = true → state.readClear)
    (hcalls : ∀ other ∈ calls, crew.isRoot other = true → state.readClear) :
    Inv crew { state.goto worker place with calls := calls } where
  unborn := fun hpc ↦ by
    rw [show state.pc.cleared = false from hpc] at hborn
    cases hborn
  draining := h.draining
  event := h.event
  inside := (Function.forall_update_iff state.place
    fun (other : Fin n) place ↦ crew.isRoot other = true → place.inside = true → state.readClear).mpr
      ⟨hplace, fun other _ ↦ h.inside other⟩
  called := hcalls

theorem Inv.test (h : Inv crew state) {place : Place} (hborn : state.pc.cleared = true) :
    Inv crew (state.test worker place) := by
  have hmore (hclear : state.readClear) : (state.test worker place).readClear := by
    obtain ⟨read, hread, hfalse⟩ := hclear
    exact ⟨read, List.mem_append_left _ hread, hfalse⟩
  refine ⟨fun hpc ↦ ?_, h.draining, h.event, ?_, fun other hother hroot ↦ hmore (h.called other hother hroot)⟩
  · rw [show state.pc.cleared = false from hpc] at hborn
    cases hborn
  · refine (Function.forall_update_iff state.place fun (other : Fin n) place' ↦ crew.isRoot other = true →
      place'.inside = true → (state.test worker place).readClear).mpr
        ⟨fun _ hinside ↦ ?_, fun other _ hroot hinside ↦ hmore (h.inside other hroot hinside)⟩
    cases hevent : state.event with
    | true =>
      rw [hevent] at hinside
      cases hinside
    | false => exact ⟨(worker, state.event), List.mem_append_right _ (List.mem_singleton_self _), hevent⟩

/-- No worker of the new run is there before the event has been cleared. -/
theorem Inv.born (h : Inv crew state) (hplace : state.place worker ≠ .unborn) : state.pc.cleared = true := by
  by_contra hcontra
  exact hplace (h.unborn (by simpa using hcontra) worker)

/-- What a worker's step does: it moves on without a test, perhaps with a call, or it tests the event. -/
inductive Worked (crew : Crew n) (state : State n) (worker : Fin n) (move : Move) : State n → Prop
  | goes {place : Place} {calls : List (Fin n)} (hborn : state.place worker ≠ .unborn)
      (hquiet : tests crew (.work worker move) = false)
      (hplace : crew.isRoot worker = true → place.inside = true → (state.place worker).inside = true)
      (hcalls : calls = state.calls ∨ calls = state.calls ++ [worker] ∧ (state.place worker).inside = true) :
      Worked crew state worker move { state.goto worker place with calls := calls }
  | tests {place : Place} (hborn : state.place worker ≠ .unborn)
      (htests : tests crew (.work worker move) = true) : Worked crew state worker move (state.test worker place)

theorem stepWorker_cases {move : Move} (h : stepWorker crew state worker move = some next) :
    Worked crew state worker move next := by
  cases move with
  | enter =>
    simp only [stepWorker, Option.ite_none_right_eq_some, Option.some.injEq] at h
    obtain ⟨hplace, rfl⟩ := h
    exact .goes (by simp [hplace]) rfl nofun (.inl rfl)
  | check =>
    simp only [stepWorker, Option.ite_none_right_eq_some, Option.some.injEq] at h
    obtain ⟨hplace, rfl⟩ := h
    split
    · rename_i hdrain
      refine .goes (by simp [hplace]) (by simp [Drain.tests, hdrain]) (fun hroot ↦ ?_) (.inl rfl)
      rw [crew.root_drain worker hroot] at hdrain
      cases hdrain
    · rename_i hdrain
      exact .tests (by simp [hplace]) (by simpa [Drain.tests] using hdrain)
  | call =>
    simp only [stepWorker, Option.ite_none_right_eq_some, Option.some.injEq] at h
    obtain ⟨hplace, rfl⟩ := h
    exact .goes (by simp [hplace]) rfl nofun (.inr ⟨rfl, by rw [hplace]; rfl⟩)
  | generate =>
    simp only [stepWorker, Option.ite_none_right_eq_some, Option.some.injEq] at h
    obtain ⟨hplace, rfl⟩ := h
    exact .goes (by simp [hplace]) rfl (fun _ _ ↦ by rw [hplace]; rfl) (.inr ⟨rfl, by rw [hplace]; rfl⟩)
  | look =>
    simp only [stepWorker, Option.ite_none_right_eq_some, Option.some.injEq] at h
    obtain ⟨⟨hplace, -⟩, rfl⟩ := h
    exact .tests (by simp [hplace]) rfl
  | back =>
    simp only [stepWorker, Option.ite_none_right_eq_some, Option.some.injEq] at h
    obtain ⟨hplace, rfl⟩ := h
    refine .goes ?_ rfl nofun (.inl rfl)
    rcases hplace with hplace | ⟨hplace, -⟩ <;> simp [hplace]
  | leave =>
    simp only [stepWorker, Option.ite_none_left_eq_some, Option.some.injEq] at h
    obtain ⟨hplace, rfl⟩ := h
    exact .goes hplace rfl nofun (.inl rfl)

/-- A test leaves the reads clean exactly when the event is set. -/
theorem test_readClear (place : Place) :
    ¬ (state.test worker place).readClear ↔ ¬ state.readClear ∧ state.event = true := by
  simp only [State.readClear, State.test, List.mem_append, List.mem_singleton]
  constructor
  · intro hclean
    refine ⟨fun ⟨read, hread, hclear⟩ ↦ hclean ⟨read, .inl hread, hclear⟩, ?_⟩
    by_contra hevent
    exact hclean ⟨(worker, state.event), .inr rfl, by simpa using hevent⟩
  · rintro ⟨hclean, hevent⟩ ⟨read, hread | rfl, hclear⟩
    · exact hclean ⟨read, hread, hclear⟩
    · rw [hevent] at hclear
      cases hclear

/-- A worker's step. -/
theorem Inv.work (h : Inv crew state) {move : Move} (hstep : stepWorker crew state worker move = some next) :
    Inv crew next ∧ (¬ next.readClear ↔ ¬ state.readClear ∧ testsLate crew state (.work worker move) = true) := by
  cases stepWorker_cases hstep with
  | goes hborn hquiet hplace hcalls =>
    refine ⟨h.goto (h.born hborn) (fun hroot hinside ↦ h.inside worker hroot (hplace hroot hinside)) ?_, ?_⟩
    · rcases hcalls with rfl | ⟨rfl, hinside⟩
      · exact h.called
      · intro other hother hroot
        rw [List.mem_append, List.mem_singleton] at hother
        rcases hother with hother | rfl
        · exact h.called other hother hroot
        · exact h.inside other hroot hinside
    · simp [testsLate, hquiet, State.readClear, State.goto]
  | tests hborn htests =>
    refine ⟨h.test (h.born hborn), ?_⟩
    rw [test_readClear, h.event (h.born hborn)]
    simp [testsLate, htests]

/-- A step of `restart` or of anybody else that touches no worker. -/
theorem Inv.congr (h : Inv crew state) (hplace : next.place = state.place) (hreads : next.reads = state.reads)
    (hcalls : next.calls = state.calls) (hunborn : next.pc.cleared = false → state.pc.cleared = false)
    (hdraining : if next.pc = .reading then next.event = true else next.draining = true)
    (hevent : next.pc.cleared = true → (next.event = true ↔ next.pc = .done ∨ next.interrupted = true)) :
    Inv crew next := by
  have hsame : next.readClear ↔ state.readClear := by rw [State.readClear, hreads, State.readClear]
  refine ⟨?_, hdraining, hevent, ?_, ?_⟩
  · rw [hplace]
    exact fun hpc ↦ h.unborn (hunborn hpc)
  · rw [hplace, hsame]
    exact h.inside
  · rw [hcalls, hsame]
    exact h.called

theorem Inv.restart (h : Inv crew state) (hstep : stepRestart state = some next) :
    Inv crew next ∧ next.reads = state.reads := by
  have hdraining := h.draining
  unfold stepRestart at hstep
  split at hstep
  · rename_i hpc
    cases hstep
    rw [if_pos hpc] at hdraining
    exact ⟨h.congr rfl rfl rfl (fun _ ↦ by rw [hpc]; rfl) hdraining nofun, rfl⟩
  · rename_i hpc
    cases hstep
    rw [if_neg (by rw [hpc]; decide)] at hdraining
    exact ⟨h.congr rfl rfl rfl (fun _ ↦ by rw [hpc]; rfl) hdraining nofun, rfl⟩
  · rename_i hpc
    cases hstep
    rw [if_neg (by rw [hpc]; decide)] at hdraining
    exact ⟨h.congr rfl rfl rfl nofun hdraining (fun _ ↦ by simp), rfl⟩
  · rename_i count hpc
    rw [if_neg (by rw [hpc]; simp)] at hdraining
    have hevent := h.event (by rw [hpc]; rfl)
    rw [hpc] at hevent
    split at hstep
    · rename_i hlt
      cases hstep
      have hborn : Inv crew { state.goto ⟨count, hlt⟩ .loading with calls := state.calls } :=
        h.goto (by rw [hpc]; rfl) nofun h.called
      refine ⟨hborn.congr rfl rfl rfl nofun ?_ fun _ ↦ ?_, rfl⟩
      · simpa [State.goto] using hdraining
      · simpa [State.goto] using hevent
    · cases hstep
      refine ⟨h.congr rfl rfl rfl nofun ?_ fun _ ↦ ?_, rfl⟩
      · simp [hdraining]
      · simpa [hdraining] using hevent
  · rename_i hpc
    cases hstep
    rw [if_neg (by rw [hpc]; decide)] at hdraining
    exact ⟨h.congr rfl rfl rfl nofun hdraining (fun _ ↦ by simp), rfl⟩
  · cases hstep
  · cases hstep

/-- A step keeps the invariant, and nobody reads the event as clear in it if and only if its test is late. -/
theorem Inv.step {action : Action n} (h : Inv crew state) (hstep : step crew state action = some next) :
    Inv crew next ∧ (¬ next.readClear ↔ ¬ state.readClear ∧ testsLate crew state action = true) := by
  cases action with
  | restart =>
    obtain ⟨hnext, hreads⟩ := h.restart hstep
    exact ⟨hnext, by simp [testsLate, Drain.tests, State.readClear, hreads]⟩
  | fail =>
    simp only [Drain.step] at hstep
    split at hstep
    · rename_i count hpc
      cases hstep
      have hdraining := h.draining
      have hevent := h.event (by rw [hpc]; rfl)
      rw [hpc] at hevent hdraining
      exact ⟨h.congr rfl rfl rfl nofun (by simpa using hdraining) (fun _ ↦ by simpa using hevent),
        by simp [testsLate, Drain.tests, State.readClear]⟩
    · cases hstep
  | interrupt =>
    cases hstep
    have hdraining := h.draining
    refine ⟨h.congr rfl rfl rfl id ?_ (fun _ ↦ by simp), by simp [testsLate, Drain.tests, State.readClear]⟩
    split
    · rfl
    · rename_i hpc
      rwa [if_neg hpc] at hdraining
  | respawn worker =>
    simp only [Drain.step, Option.ite_none_right_eq_some, Option.some.injEq] at hstep
    obtain ⟨hplace, rfl⟩ := hstep
    exact ⟨h.goto (h.born (by rw [hplace]; nofun)) nofun h.called,
      by simp [testsLate, Drain.tests, State.readClear, State.goto]⟩
  | work worker move => exact h.work hstep

/-- The drain survives the restart exactly in the runs whose workers test the event only after it is set
again. -/
theorem drainSurvives_iff_testsLate {actions : List (Action n)}
    (hrun : (machine crew true).runFrom (machine crew true).start actions = some state) :
    DrainSurvives crew state ↔
      ((machine crew true).restrict (testsLate crew)).runFrom (machine crew true).start actions = some state := by
  have hinv : Inv crew state :=
    Machine.run_invariant (Inv crew) (fun _ _ _ hstate hstep ↦ (hstate.step hstep).1) inv_start hrun
  rw [hinv.survives_iff, Machine.clean_iff_restrict (Inv crew) (fun state ↦ ¬ state.readClear)
    (fun _ _ _ hstate hstep ↦ hstate.step hstep) inv_start hrun]
  simp [State.readClear, machine, State.start]

/-! ## One root worker -/

def rootOnly : Crew 1 := ⟨fun _ ↦ true, fun _ ↦ false, fun _ _ ↦ rfl⟩

/-- The restart up to its last spawn. -/
def upToSpawn : List (Action 1) := List.replicate 4 .restart

/-- The worker comes to its loop after the end of the restart. -/
def slowWorker : List (Action 1) :=
  upToSpawn ++ [.restart, .restart, .work (Fin.last 0) .enter, .work (Fin.last 0) .check]

/-- A worker that is slow to start tests the event when it is set again. -/
theorem drainSurvives_slowWorker : ∃ state,
    (machine rootOnly true).runFrom (machine rootOnly true).start slowWorker = some state ∧
      DrainSurvives rootOnly state := by
  have hsome : (((machine rootOnly true).restrict (testsLate rootOnly)).runFrom
      (machine rootOnly true).start slowWorker).isSome = true := by decide
  obtain ⟨state, hlate⟩ := Option.isSome_iff_exists.mp hsome
  have hrun := Machine.runFrom_of_restrict hlate
  exact ⟨state, hrun, (drainSurvives_iff_testsLate hrun).mpr hlate⟩

/-- The new worker is in its loop before `restart` comes to set the event again. -/
theorem not_drainSurvives : ¬ ∀ (n : ℕ) (crew : Crew n) (state : State n),
    (machine crew true).Reachable state → DrainSurvives crew state := by
  intro hall
  have hcalls := (hall 1 rootOnly _
    ⟨upToSpawn ++ [.work (Fin.last 0) .enter, .work (Fin.last 0) .check, .work (Fin.last 0) .call,
      .restart, .restart], rfl⟩).calls (Fin.last 0)
      (List.mem_singleton_self _)
  cases hcalls

end GpuPipe.Drain
