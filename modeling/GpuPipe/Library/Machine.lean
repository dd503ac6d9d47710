import Mathlib.Logic.Relation

/-!
# Step machines and their runs

A machine has a start state and a partial step function. Its actions name every
choice of a run: who moves, and what a clock, a scheduler or the operating system
answers. One invariant rule and one simulation rule serve all the machines below;
`restrict` keeps the runs whose steps all meet a condition.
-/

namespace GpuPipe

/-- A start state and a partial, deterministic step on explicit actions. -/
structure Machine (State Action : Type*) where
  start : State
  step : State → Action → Option State

namespace Machine

variable {State Action : Type*} (machine : Machine State Action)

/-- Run a list of actions; `none` once an action is not enabled. -/
def runFrom : State → List Action → Option State
  | state, [] => some state
  | state, action :: rest => (machine.step state action).bind fun next ↦ runFrom next rest

/-- Some finite run from the start state ends here. -/
def Reachable (state : State) : Prop :=
  ∃ actions, machine.runFrom machine.start actions = some state

@[simp] theorem runFrom_nil (state : State) : machine.runFrom state [] = some state := rfl

@[simp] theorem runFrom_cons (state : State) (action : Action) (rest : List Action) :
    machine.runFrom state (action :: rest) =
      (machine.step state action).bind fun next ↦ machine.runFrom next rest := rfl

theorem runFrom_append (state : State) (first second : List Action) :
    machine.runFrom state (first ++ second) =
      (machine.runFrom state first).bind fun next ↦ machine.runFrom next second := by
  induction first generalizing state with
  | nil => rfl
  | cons action rest ih =>
    simp only [List.cons_append, runFrom_cons, Option.bind_assoc, ih]

variable {machine}

theorem runFrom_trans {first second third : State} {left right : List Action}
    (hleft : machine.runFrom first left = some second)
    (hright : machine.runFrom second right = some third) :
    machine.runFrom first (left ++ right) = some third := by
  rw [runFrom_append, hleft, Option.bind_some, hright]

theorem runFrom_step {state next : State} {action : Action} {rest : List Action}
    {result : Option State} (hstep : machine.step state action = some next)
    (hrest : machine.runFrom next rest = result) : machine.runFrom state (action :: rest) = result := by
  rw [runFrom_cons, hstep, Option.bind_some, hrest]

theorem Reachable.refl : machine.Reachable machine.start := ⟨[], rfl⟩

theorem Reachable.run {state next : State} {actions : List Action}
    (h : machine.Reachable state) (hrun : machine.runFrom state actions = some next) :
    machine.Reachable next := by
  obtain ⟨before, hbefore⟩ := h
  exact ⟨before ++ actions, runFrom_trans hbefore hrun⟩

theorem Reachable.tail {state next : State} {action : Action} (h : machine.Reachable state)
    (hstep : machine.step state action = some next) : machine.Reachable next := by
  apply h.run
  show machine.runFrom state [action] = some next
  simp [hstep]

/-- What one step preserves, a whole run preserves. -/
theorem run_invariant (Invariant : State → Prop)
    (hstep : ∀ state action next, Invariant state → machine.step state action = some next →
      Invariant next)
    {state next : State} {actions : List Action} (hstate : Invariant state)
    (hrun : machine.runFrom state actions = some next) : Invariant next := by
  induction actions generalizing state with
  | nil =>
    cases hrun
    exact hstate
  | cons action rest ih =>
    rw [runFrom_cons, Option.bind_eq_some_iff] at hrun
    obtain ⟨middle, hmiddle, hrest⟩ := hrun
    exact ih (hstep state action middle hstate hmiddle) hrest

/-- An invariant of the start state and of every step holds in every reachable state. -/
theorem Reachable.invariant (Invariant : State → Prop) (hstart : Invariant machine.start)
    (hstep : ∀ state action next, Invariant state → machine.step state action = some next →
      Invariant next)
    {state : State} (h : machine.Reachable state) : Invariant state := by
  obtain ⟨actions, hrun⟩ := h
  exact run_invariant Invariant hstep hstart hrun

/-- Forward simulation: if every step is matched by a run of the abstract machine, every
reachable state is related to a reachable abstract state. -/
theorem Reachable.simulation {AbstractState AbstractAction : Type*}
    {abstract : Machine AbstractState AbstractAction} (Related : State → AbstractState → Prop)
    (hstart : Related machine.start abstract.start)
    (hstep : ∀ state action next model, Related state model →
      machine.step state action = some next →
      ∃ actions model', abstract.runFrom model actions = some model' ∧ Related next model')
    {state : State} (h : machine.Reachable state) :
    ∃ model, abstract.Reachable model ∧ Related state model := by
  refine h.invariant (fun state ↦ ∃ model, abstract.Reachable model ∧ Related state model)
    ⟨_, .refl, hstart⟩ ?_
  rintro state action next ⟨model, hmodel, hrelated⟩ hnext
  obtain ⟨actions, model', hrun, hrelated'⟩ := hstep state action next model hrelated hnext
  exact ⟨model', hmodel.run hrun, hrelated'⟩

/-- Keep only the steps that meet a condition on the state before and the action. -/
def restrict (machine : Machine State Action) (allowed : State → Action → Bool) :
    Machine State Action where
  start := machine.start
  step state action := if allowed state action then machine.step state action else none

theorem restrict_step {allowed : State → Action → Bool} {state next : State} {action : Action}
    (h : (machine.restrict allowed).step state action = some next) :
    allowed state action = true ∧ machine.step state action = some next := by
  simp only [restrict] at h
  split at h
  · exact ⟨‹_›, h⟩
  · cases h

/-- A run whose actions the condition always allows is a run of the restricted machine. -/
theorem restrict_runFrom {allowed : State → Action → Bool} {actions : List Action}
    (h : ∀ action ∈ actions, ∀ state, allowed state action = true) (state : State) :
    (machine.restrict allowed).runFrom state actions = machine.runFrom state actions := by
  induction actions generalizing state with
  | nil => rfl
  | cons action rest ih =>
    have hrest := ih fun other hother ↦ h other (List.mem_cons_of_mem _ hother)
    have hallowed := h action List.mem_cons_self state
    simp only [runFrom_cons, restrict, hallowed, if_true]
    exact congrArg _ (funext hrest)

/-- A run of the restricted machine is a run of the whole one. -/
theorem runFrom_of_restrict {allowed : State → Action → Bool} {state last : State}
    {actions : List Action} (h : (machine.restrict allowed).runFrom state actions = some last) :
    machine.runFrom state actions = some last := by
  induction actions generalizing state with
  | nil => exact h
  | cons action rest ih =>
    rw [runFrom_cons, Option.bind_eq_some_iff] at h
    obtain ⟨next, hnext, hrest⟩ := h
    exact runFrom_step (restrict_step hnext).2 (ih hrest)

/-- A run ends clean exactly when it starts clean and takes no forbidden step, if every forbidden step
leaves a trace that no step removes. -/
theorem clean_iff_restrict {allowed : State → Action → Bool} (Invariant Clean : State → Prop)
    (hstep : ∀ state action next, Invariant state → machine.step state action = some next →
      Invariant next ∧ (Clean next ↔ Clean state ∧ allowed state action = true))
    {state last : State} {actions : List Action} (hstate : Invariant state)
    (hrun : machine.runFrom state actions = some last) :
    Clean last ↔ Clean state ∧ (machine.restrict allowed).runFrom state actions = some last := by
  induction actions generalizing state with
  | nil =>
    cases hrun
    simp
  | cons action rest ih =>
    rw [runFrom_cons, Option.bind_eq_some_iff] at hrun
    obtain ⟨next, hnext, hrest⟩ := hrun
    obtain ⟨hinvariant, hclean⟩ := hstep state action next hstate hnext
    rw [ih hinvariant hrest, hclean, and_assoc, runFrom_cons]
    cases hallowed : allowed state action <;> simp [restrict, hallowed, hnext]

/-- A weaker condition keeps more runs. -/
theorem Reachable.restrict_mono {allowed allowed' : State → Action → Bool} {state : State}
    (h : (machine.restrict allowed).Reachable state)
    (himp : ∀ state action, allowed state action = true → allowed' state action = true) :
    (machine.restrict allowed').Reachable state := by
  refine h.invariant (machine.restrict allowed').Reachable ?_ ?_
  · exact ⟨[], rfl⟩
  · intro state action next hstate hstep
    obtain ⟨hallowed, hnext⟩ := restrict_step hstep
    have hstep' : (machine.restrict allowed').step state action = some next := by
      simp only [restrict, himp state action hallowed, if_true]
      exact hnext
    exact hstate.tail hstep'

end Machine

end GpuPipe
