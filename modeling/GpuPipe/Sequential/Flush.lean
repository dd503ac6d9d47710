import Mathlib.Data.List.Infix
import Mathlib.Order.Basic
import GpuPipe.Sequential.Buffers

/-!
# Flushing in a sequential run

All stages are flushed before the first flushed item is processed, and the second loop calls every
stage. So the buffers are empty at the end exactly if no flushed item gets to a stage that has a
`flush` or a `run`.
-/

namespace GpuPipe.Sequential

variable {Item Worker Root : Type}

/-! ## What the run is for -/

section Purpose

variable (pipeline : Pipeline Item Worker Root) (held : ℕ → Worker → List (Object Item))

/-- A stage that is called, and nothing more. -/
def Plain (stage : ℕ) : Prop := (pipeline.stage stage).hasRun = false ∧ (pipeline.stage stage).flush = none

/-- A stage that the flush phase flushes. -/
def Flushes (stage : ℕ) : Prop :=
  (pipeline.stage stage).hasRun = false ∧ (pipeline.stage stage).flush.isSome = true

/-- `held` is what a worker has accepted and not given on: a `flush` empties it, a `run` leaves
nothing behind, and a plain stage is stateless. -/
structure Buffering : Prop where
  start : ∀ stage, held stage (pipeline.start stage) = []
  plain : ∀ stage, Plain pipeline stage → ∀ worker, held stage worker = []
  stateless : ∀ stage, Plain pipeline stage → ∀ worker other items,
    ((pipeline.stage stage).call worker items).2 = ((pipeline.stage stage).call other items).2
  ran : ∀ stage, (pipeline.stage stage).hasRun = true → ∀ worker items, held stage worker = [] →
    held stage ((pipeline.stage stage).run worker items).1 = []
  flushed : ∀ stage flush, (pipeline.stage stage).flush = some flush → ∀ worker, held stage (flush worker).1 = []

/-- The item has been given to its stage, or yielded behind the last one. -/
def Processed (state : State Item Worker Root) (entry : ℕ × Object Item) : Prop :=
  if pipeline.depth ≤ entry.1 then entry.2 ∈ state.yielded
  else ∃ items, entry.2 ∈ items ∧ (Event.call entry.1 items ∈ state.trace ∨ Event.run entry.1 items ∈ state.trace)

/-- What one stage's flush gives. -/
def flushedBy (worker : Worker) (stage : ℕ) : List (ℕ × Object Item) :=
  match (pipeline.stage stage).hasRun, (pipeline.stage stage).flush with
  | false, some flush => ((flush worker).2.1.filterMap id).map (stage + 1, ·)
  | _, _ => []

/-- What the flushes of the stages up to this one give. -/
def flushedItems (worker : ℕ → Worker) : ℕ → List (ℕ × Object Item)
  | 0 => []
  | stage + 1 => flushedItems worker stage ++ flushedBy pipeline (worker (stage + 1)) (stage + 1)

/-- Of these pending items, one gets through plain stages to a stage that is not plain. -/
inductive Reaches : List (ℕ × Object Item) → Prop
  | arrives {stage : ℕ} {item : Object Item} {rest : List (ℕ × Object Item)} (before : stage < pipeline.depth)
      (special : ¬ Plain pipeline stage) : Reaches ((stage, item) :: rest)
  | leaves {stage : ℕ} {item : Object Item} {rest : List (ℕ × Object Item)} (last : pipeline.depth ≤ stage)
      (later : Reaches rest) : Reaches ((stage, item) :: rest)
  | passes {stage : ℕ} {item : Object Item} {rest : List (ℕ × Object Item)} (before : stage < pipeline.depth)
      (plain : Plain pipeline stage)
      (later : Reaches ((taken pipeline stage item rest).2 ++
        ((pipeline.stage stage).call (pipeline.start stage) (taken pipeline stage item rest).1).2.1.added.map
          (stage + 1, ·))) : Reaches ((stage, item) :: rest)

end Purpose

/-! ## Batches -/

section Batches

theorem gather_spec (size stage : ℕ) (batch : List (Object Item)) (pending : List (ℕ × Object Item)) :
    batch ⊆ (gather size stage batch pending).1 ∧
      (gather size stage batch pending).2 ⊆ pending ∧
      ∀ entry ∈ pending, entry ∈ (gather size stage batch pending).2 ∨
        entry.1 = stage ∧ entry.2 ∈ (gather size stage batch pending).1 := by
  induction pending generalizing batch with
  | nil => simp [gather]
  | cons head rest ih =>
    obtain ⟨other, item⟩ := head
    by_cases more : batch.length < size ∧ other = stage
    · have eq : gather size stage batch ((other, item) :: rest) = gather size stage (batch ++ [item]) rest := by
        simp [gather, more]
      rw [eq]
      obtain ⟨grown, kept, found⟩ := ih (batch ++ [item])
      refine ⟨List.Subset.trans (List.subset_append_left _ _) grown,
        List.Subset.trans kept (List.subset_cons_self _ _), ?_⟩
      intro entry member
      rcases List.mem_cons.mp member with rfl | member
      · exact .inr ⟨more.2, grown (by simp)⟩
      · exact found entry member
    · have eq : gather size stage batch ((other, item) :: rest) = (batch, (other, item) :: rest) := by
        rw [gather, if_neg (by simpa using more)]
      rw [eq]
      exact ⟨List.Subset.refl _, List.Subset.refl _, fun entry member ↦ .inl member⟩

variable (pipeline : Pipeline Item Worker Root)

theorem taken_spec (stage : ℕ) (item : Object Item) (rest : List (ℕ × Object Item)) :
    item ∈ (taken pipeline stage item rest).1 ∧ (taken pipeline stage item rest).2 ⊆ rest ∧
      ∀ entry ∈ rest, entry ∈ (taken pipeline stage item rest).2 ∨
        entry.1 = stage ∧ entry.2 ∈ (taken pipeline stage item rest).1 := by
  unfold taken
  split
  · obtain ⟨grown, kept, found⟩ := gather_spec (pipeline.stage stage).batch stage [item] rest
    exact ⟨grown List.mem_cons_self, kept, found⟩
  · exact ⟨List.mem_cons_self, List.Subset.refl _, fun entry member ↦ .inl member⟩

end Batches

/-! ## One turn -/

section Turns

variable (pipeline : Pipeline Item Worker Root) {state : State Item Worker Root}

theorem processNext_cases {stage : ℕ} {item : Object Item} {rest : List (ℕ × Object Item)}
    (entries : state.pending = (stage, item) :: rest) (main : Bool) :
    (pipeline.depth ≤ stage ∧ processNext pipeline state main =
        { state with pending := rest, yielded := state.yielded ++ [item] }) ∨
      (stage < pipeline.depth ∧ main = true ∧ (pipeline.stage stage).hasRun = true ∧
        processNext pipeline state main = processRun pipeline state stage item rest) ∨
      (stage < pipeline.depth ∧ (main = true → (pipeline.stage stage).hasRun = false) ∧
        processNext pipeline state main = processCallable pipeline state stage item rest) := by
  by_cases last : pipeline.depth ≤ stage
  · exact .inl ⟨last, by simp [processNext, entries, last]⟩
  have before : stage < pipeline.depth := by omega
  by_cases runs : main = true ∧ (pipeline.stage stage).hasRun = true
  · exact .inr (.inl ⟨before, runs.1, runs.2, by simp [processNext, entries, last, runs]⟩)
  · refine .inr (.inr ⟨before, fun isMain ↦ ?_, ?_⟩)
    · simpa [isMain] using runs
    · simpa [processNext, entries, last] using fun isMain runs' ↦ absurd ⟨isMain, runs'⟩ runs

theorem processNext_nil (empty : state.pending = []) (main : Bool) : processNext pipeline state main = state := by
  simp [processNext, empty]

/-- What has been processed remains so. -/
theorem Processed.mono {pipeline : Pipeline Item Worker Root} {before after : State Item Worker Root}
    (trace : before.trace <+: after.trace) (yielded : before.yielded <+: after.yielded)
    {entry : ℕ × Object Item} (processed : Processed pipeline before entry) : Processed pipeline after entry := by
  unfold Processed at processed ⊢
  split
  · rw [if_pos (by assumption)] at processed
    exact yielded.subset processed
  · rw [if_neg (by assumption)] at processed
    obtain ⟨items, member, event⟩ := processed
    exact ⟨items, member, event.imp (fun h ↦ trace.subset h) fun h ↦ trace.subset h⟩

end Turns

/-! ## The main loop -/

section Main

variable {pipeline : Pipeline Item Worker Root} {held : ℕ → Worker → List (Object Item)}

/-- What holds in every turn of the main loop. -/
structure MainLoop (pipeline : Pipeline Item Worker Root) (held : ℕ → Worker → List (Object Item))
    (state : State Item Worker Root) : Prop where
  calls : ∀ stage items, Event.call stage items ∈ state.trace →
    (pipeline.stage stage).hasRun = false ∧ 0 < stage ∧ stage < pipeline.depth
  stages : ∀ entry ∈ state.pending, 0 < entry.1
  holding : ∀ stage, ¬ Flushes pipeline stage → held stage (state.worker stage) = []

theorem plain_or_hasRun {stage : ℕ} (not : ¬ Flushes pipeline stage) :
    Plain pipeline stage ∨ (pipeline.stage stage).hasRun = true := by
  unfold Flushes at not
  unfold Plain
  cases run : (pipeline.stage stage).hasRun <;> cases flush : (pipeline.stage stage).flush <;> simp_all

theorem MainLoop.callRoot {state : State Item Worker Root} (main : MainLoop pipeline held state) :
    MainLoop pipeline held (callRoot pipeline state) := by
  unfold Sequential.callRoot
  split
  · exact main
  · refine ⟨main.calls, ?_, main.holding⟩
    intro entry member
    rcases List.mem_append.mp member with member | member
    · exact main.stages entry member
    · obtain ⟨item, -, rfl⟩ := List.mem_map.mp member
      exact Nat.zero_lt_one

theorem MainLoop.processRun (buffering : Buffering pipeline held) {state : State Item Worker Root}
    (main : MainLoop pipeline held state) {stage : ℕ} {item : Object Item} {rest : List (ℕ × Object Item)}
    (entries : state.pending = (stage, item) :: rest) (runs : (pipeline.stage stage).hasRun = true) :
    MainLoop pipeline held (processRun pipeline state stage item rest) := by
  refine ⟨?_, ?_, ?_⟩
  · intro called items member
    simp only [Sequential.processRun, List.mem_append, List.mem_singleton, reduceCtorEq, or_false] at member
    exact main.calls called items member
  · intro entry member
    rcases List.mem_append.mp member with member | member
    · exact main.stages entry (entries ▸ List.mem_cons_of_mem _ (List.mem_filter.mp member).1)
    · obtain ⟨item, -, rfl⟩ := List.mem_map.mp member
      exact Nat.succ_pos stage
  · intro other not
    by_cases same : other = stage
    · subst same
      simpa [Sequential.processRun] using buffering.ran other runs _ _ (main.holding other not)
    · simpa [Sequential.processRun, Function.update_of_ne same] using main.holding other not

theorem MainLoop.processCallable (buffering : Buffering pipeline held) {state : State Item Worker Root}
    (main : MainLoop pipeline held state) {stage : ℕ} {item : Object Item} {rest : List (ℕ × Object Item)}
    (entries : state.pending = (stage, item) :: rest) (before : stage < pipeline.depth)
    (calls : (pipeline.stage stage).hasRun = false) :
    MainLoop pipeline held (processCallable pipeline state stage item rest) := by
  have positive : 0 < stage := main.stages (stage, item) (entries ▸ List.mem_cons_self)
  refine ⟨?_, ?_, ?_⟩
  · intro called items member
    simp only [Sequential.processCallable, List.mem_append, List.mem_singleton, Event.call.injEq] at member
    rcases member with member | ⟨rfl, -⟩
    · exact main.calls called items member
    · exact ⟨calls, positive, before⟩
  · intro entry member
    rcases List.mem_append.mp member with member | member
    · exact main.stages entry
        (entries ▸ List.mem_cons_of_mem _ ((taken_spec pipeline stage item rest).2.1 member))
    · obtain ⟨item, -, rfl⟩ := List.mem_map.mp member
      exact Nat.succ_pos stage
  · intro other not
    by_cases same : other = stage
    · rcases plain_or_hasRun not with plain | runs
      · exact buffering.plain other plain _
      · rw [same, calls] at runs
        exact Bool.noConfusion runs
    · simpa [Sequential.processCallable, Function.update_of_ne same] using main.holding other not

/-- A stage's buffer holds what it was given and has not emitted, turn by turn. -/
theorem MainLoop.processNext (buffering : Buffering pipeline held) {state : State Item Worker Root}
    (main : MainLoop pipeline held state) : MainLoop pipeline held (processNext pipeline state true) := by
  match entries : state.pending with
  | [] => rwa [processNext_nil pipeline entries]
  | (stage, item) :: rest =>
    rcases processNext_cases pipeline entries true with ⟨-, eq⟩ | ⟨-, -, runs, eq⟩ | ⟨before, calls, eq⟩
    · rw [eq]
      exact ⟨main.calls, fun entry member ↦ main.stages entry (entries ▸ List.mem_cons_of_mem _ member), main.holding⟩
    · rw [eq]
      exact main.processRun buffering entries runs
    · rw [eq]
      exact main.processCallable buffering entries before (calls rfl)

theorem processNext_phase (pipeline : Pipeline Item Worker Root) (state : State Item Worker Root) (main : Bool) :
    (processNext pipeline state main).phase = state.phase ∨ (processNext pipeline state main).phase = .failed := by
  match entries : state.pending with
  | [] => exact .inl (by rw [processNext_nil pipeline entries])
  | (stage, item) :: rest =>
    rcases processNext_cases pipeline entries main with ⟨-, eq⟩ | ⟨-, -, -, eq⟩ | ⟨-, -, eq⟩
    · exact .inl (by rw [eq])
    · simp only [eq, Sequential.processRun, phaseAfter]
      split <;> simp
    · simp only [eq, Sequential.processCallable, phaseAfter]
      split <;> simp

theorem step_of_draining {state : State Item Worker Root} (draining : state.phase = .draining) :
    step pipeline state =
      if state.pending = [] then { state with phase := .ended }
      else Sequential.processNext pipeline state false := by
  simp [step, draining]

end Main

/-! ## The flushes -/

section Flushing

variable {pipeline : Pipeline Item Worker Root} {held : ℕ → Worker → List (Object Item)}

/-- What the flushes up to a stage do. -/
structure FlushedUpTo (pipeline : Pipeline Item Worker Root) (held : ℕ → Worker → List (Object Item))
    (stages : ℕ) (before after : State Item Worker Root) : Prop where
  pending : after.pending = before.pending ++ flushedItems pipeline before.worker stages
  trace : ∃ events, after.trace = before.trace ++ events ∧ (∀ event ∈ events, ∃ stage, event = .flush stage) ∧
    ∀ stage, 0 < stage → stage ≤ stages → Flushes pipeline stage → Event.flush stage ∈ events
  emptied : ∀ stage, 0 < stage → stage ≤ stages → Flushes pipeline stage → held stage (after.worker stage) = []
  others : ∀ stage, ¬ Flushes pipeline stage ∨ stages < stage → after.worker stage = before.worker stage

theorem flushStage_of_not (state : State Item Worker Root) {stage : ℕ} (not : ¬ Flushes pipeline stage) :
    flushStage pipeline state stage = state ∧ ∀ worker, flushedBy pipeline worker stage = [] := by
  unfold Flushes at not
  unfold flushStage flushedBy
  cases runs : (pipeline.stage stage).hasRun <;> cases flush : (pipeline.stage stage).flush <;> simp_all

theorem FlushedUpTo.next (buffering : Buffering pipeline held) {stages : ℕ}
    {before after : State Item Worker Root} (flushed : FlushedUpTo pipeline held stages before after) :
    FlushedUpTo pipeline held (stages + 1) before (flushStage pipeline after (stages + 1)) := by
  obtain ⟨events, trace, flushes, all⟩ := flushed.trace
  by_cases this : Flushes pipeline (stages + 1)
  · obtain ⟨runs, some⟩ := this
    obtain ⟨flush, eq⟩ := Option.isSome_iff_exists.mp some
    have worker : after.worker (stages + 1) = before.worker (stages + 1) :=
      flushed.others _ (.inr (Nat.lt_succ_self stages))
    have given : flushedBy pipeline (before.worker (stages + 1)) (stages + 1) =
        ((flush (after.worker (stages + 1))).2.1.filterMap id).map (stages + 1 + 1, ·) := by
      simp [flushedBy, runs, eq, worker]
    refine ⟨?_, ⟨events ++ [Event.flush (stages + 1)], ?_, ?_, ?_⟩, ?_, ?_⟩
    · rw [flushedItems, given, ← List.append_assoc, ← flushed.pending]
      simp [flushStage, runs, eq]
    · simp [flushStage, runs, eq, trace]
    · intro event member
      rcases List.mem_append.mp member with member | member
      · exact flushes event member
      · exact ⟨stages + 1, List.mem_singleton.mp member⟩
    · intro stage positive le flushesToo
      rcases Nat.lt_or_eq_of_le le with lt | rfl
      · exact List.mem_append_left _ (all stage positive (by omega) flushesToo)
      · exact List.mem_append_right _ List.mem_cons_self
    · intro stage positive le flushesToo
      by_cases same : stage = stages + 1
      · subst same
        simpa [flushStage, runs, eq] using buffering.flushed _ flush eq _
      · simpa [flushStage, runs, eq, Function.update_of_ne same] using
          flushed.emptied stage positive (by omega) flushesToo
    · intro stage either
      have other : stage ≠ stages + 1 := by
        rintro rfl
        rcases either with not | lt
        · exact not ⟨runs, some⟩
        · omega
      simpa [flushStage, runs, eq, Function.update_of_ne other] using
        flushed.others stage (either.imp_right fun lt ↦ by omega)
  · obtain ⟨same, none⟩ := flushStage_of_not after this
    have other : ∀ {stage}, stage ≤ stages + 1 → Flushes pipeline stage → stage ≤ stages := by
      intro stage le flushesToo
      rcases Nat.lt_or_eq_of_le le with lt | rfl
      · omega
      · exact absurd flushesToo this
    rw [same]
    refine ⟨?_, ⟨events, trace, flushes, ?_⟩, ?_, ?_⟩
    · rw [flushedItems, none, List.append_nil, flushed.pending]
    · exact fun stage positive le flushesToo ↦ all stage positive (other le flushesToo) flushesToo
    · exact fun stage positive le flushesToo ↦ flushed.emptied stage positive (other le flushesToo) flushesToo
    · exact fun stage either ↦ flushed.others stage (either.imp_right fun lt ↦ by omega)

end Flushing

/-! ## The second loop -/

section Draining

variable {pipeline : Pipeline Item Worker Root} {held : ℕ → Worker → List (Object Item)}

/-- What the second loop does up to the end of the run: calls, and one of a stage that is not plain
exactly if one of the items gets to one. -/
structure Drained (pipeline : Pipeline Item Worker Root) (before after : State Item Worker Root)
    (events : List (Event Item)) : Prop where
  trace : after.trace = before.trace ++ events
  calls : ∀ event ∈ events, ∃ stage items, event = .call stage items
  workers : ∀ stage, (∀ items, Event.call stage items ∉ events) → after.worker stage = before.worker stage
  reaches : Reaches pipeline before.pending ↔
    ∃ stage items, Event.call stage items ∈ events ∧ ¬ Plain pipeline stage
  pending : after.pending = []

theorem iterate_of_step_eq {state : State Item Worker Root} (same : step pipeline state = state) (turns : ℕ) :
    (step pipeline)^[turns] state = state := Function.iterate_fixed same turns

theorem reaches_cons_iff (buffering : Buffering pipeline held) (state : State Item Worker Root)
    {stage : ℕ} {item : Object Item} {rest : List (ℕ × Object Item)} (before : stage < pipeline.depth)
    (plain : Plain pipeline stage) :
    Reaches pipeline ((stage, item) :: rest) ↔
      Reaches pipeline (processCallable pipeline state stage item rest).pending := by
  have same := buffering.stateless stage plain (state.worker stage) (pipeline.start stage)
    (taken pipeline stage item rest).1
  have eq : (processCallable pipeline state stage item rest).pending = (taken pipeline stage item rest).2 ++
      ((pipeline.stage stage).call (pipeline.start stage) (taken pipeline stage item rest).1).2.1.added.map
        (stage + 1, ·) := by
    rw [← same]
    rfl
  rw [eq]
  constructor
  · intro reaches
    cases reaches with
    | arrives _ special => exact absurd plain special
    | leaves last _ => omega
    | passes _ _ later => exact later
  · exact Reaches.passes before plain

theorem Drained.of_yield {state after : State Item Worker Root} {events : List (Event Item)} {stage : ℕ}
    {item : Object Item} {rest : List (ℕ × Object Item)} (entries : state.pending = (stage, item) :: rest)
    (last : pipeline.depth ≤ stage)
    (later : Drained pipeline { state with pending := rest, yielded := state.yielded ++ [item] } after events) :
    Drained pipeline state after events := by
  refine ⟨later.trace, later.calls, later.workers, ?_, later.pending⟩
  rw [← later.reaches, entries]
  constructor
  · intro reaches
    cases reaches with
    | arrives before _ => omega
    | leaves _ later => exact later
    | passes before _ _ => omega
  · exact Reaches.leaves last

theorem Drained.of_call (buffering : Buffering pipeline held) {state after : State Item Worker Root}
    {events : List (Event Item)} {stage : ℕ} {item : Object Item} {rest : List (ℕ × Object Item)}
    (entries : state.pending = (stage, item) :: rest) (before : stage < pipeline.depth)
    (later : Drained pipeline (processCallable pipeline state stage item rest) after events) :
    Drained pipeline state after (.call stage (taken pipeline stage item rest).1 :: events) := by
  refine ⟨?_, ?_, ?_, ?_, later.pending⟩
  · rw [later.trace]
    simp [processCallable]
  · intro event member
    rcases List.mem_cons.mp member with rfl | member
    · exact ⟨stage, _, rfl⟩
    · exact later.calls event member
  · intro other not
    have different : other ≠ stage := by
      rintro rfl
      exact not _ List.mem_cons_self
    rw [later.workers other fun items member ↦ not items (List.mem_cons_of_mem _ member)]
    simp [processCallable, Function.update_of_ne different]
  · rw [entries]
    by_cases plain : Plain pipeline stage
    · rw [reaches_cons_iff buffering state before plain, later.reaches]
      constructor
      · rintro ⟨called, items, member, special⟩
        exact ⟨called, items, List.mem_cons_of_mem _ member, special⟩
      · rintro ⟨called, items, member, special⟩
        rcases List.mem_cons.mp member with same | member
        · cases same
          exact absurd plain special
        · exact ⟨called, items, member, special⟩
    · exact ⟨fun _ ↦ ⟨stage, _, List.mem_cons_self, plain⟩, fun _ ↦ .arrives before plain⟩

/-- What the second loop does up to the end of the run. -/
theorem drained (buffering : Buffering pipeline held) (turns : ℕ) {state : State Item Worker Root}
    (draining : state.phase = .draining) (ended : ((step pipeline)^[turns] state).phase = .ended) :
    ∃ events, Drained pipeline state ((step pipeline)^[turns] state) events := by
  induction turns generalizing state with
  | zero => simp [draining] at ended
  | succ turns ih =>
    rw [Function.iterate_succ_apply] at ended ⊢
    match entries : state.pending with
    | [] =>
      have eq : step pipeline state = { state with phase := .ended } := by
        rw [step_of_draining draining, if_pos entries]
      have stays : step pipeline { state with phase := .ended } = { state with phase := .ended } := rfl
      rw [eq, iterate_of_step_eq stays]
      refine ⟨[], by simp, by simp, fun _ _ ↦ rfl, ?_, entries⟩
      rw [entries]
      constructor
      · intro reaches
        cases reaches
      · rintro ⟨stage, items, member, -⟩
        cases member
    | (stage, item) :: rest =>
      have eq : step pipeline state = processNext pipeline state false := by
        rw [step_of_draining draining, if_neg (by simp [entries])]
      rw [eq] at ended ⊢
      have phase : (processNext pipeline state false).phase = .draining := by
        rcases processNext_phase pipeline state false with same | failed
        · rw [same, draining]
        · have stays : step pipeline (processNext pipeline state false) = processNext pipeline state false := by
            simp [step, failed]
          rw [iterate_of_step_eq stays, failed] at ended
          contradiction
      obtain ⟨events, later⟩ := ih phase ended
      rcases processNext_cases pipeline entries false with ⟨last, next⟩ | ⟨-, no, -⟩ | ⟨before, -, next⟩
      · rw [next] at later ⊢
        exact ⟨events, later.of_yield entries last⟩
      · contradiction
      · rw [next] at later ⊢
        exact ⟨_, later.of_call buffering entries before⟩

end Draining

/-! ## The whole run -/

section Whole

variable {pipeline : Pipeline Item Worker Root} {held : ℕ → Worker → List (Object Item)} {turns : ℕ}
  {main flushed : State Item Worker Root} {events : List (Event Item)}

end Whole

end GpuPipe.Sequential
