import GpuPipe.Lifecycle.Process

/-!
# What the iterator reads after a restart

The generator reads `final_done` once and makes `out_ch` again after its own restarts only.
Both are the current ones exactly as long as no `start` has rebuilt the stage objects since the
generator read `final_done`.
-/

namespace GpuPipe.Lifecycle

variable {config : Config} {state next : State}

/-- The generator has read `final_done`. -/
def ReaderPc.captured : ReaderPc → Bool
  | .opening | .head | .reading | .polled | .restarting | .stopping => true
  | _ => false

/-- The generator has made `out_ch`, and it is not about to be made again. -/
def ReaderPc.opened : ReaderPc → Bool
  | .head | .reading | .polled => true
  | _ => false

/-- The current objects are those of the last `start`, and the generator's are at least as old
as its event by the number of rebuilds since. -/
structure Dated (state : State) : Prop where
  event : ∀ run, state.event = some run → run = state.run
  queue : ∀ run, state.queue = some run → run = state.run
  captured : state.reader.pc.captured = true →
    ∃ run, state.reader.event = some run ∧ run + state.rebuilds = state.run ∧ state.event ≠ none
  opened : state.reader.pc.opened = true →
    ∃ run, state.reader.queue = some run ∧ run ≤ state.run ∧ state.run ≤ run + state.rebuilds

theorem dated_start : Dated State.start where
  event run hevent := by cases hevent
  queue run hqueue := by cases hqueue
  captured hpc := by cases hpc
  opened hpc := by cases hpc

/-- Steps that change none of the objects, and at most the generator's position. -/
theorem Dated.congr (h : Dated state) (hrun : next.run = state.run) (hevent : next.event = state.event)
    (hqueue : next.queue = state.queue ∨ next.queue = none) (hrebuilds : next.rebuilds = state.rebuilds)
    (hreader : next.reader.event = state.reader.event ∧ next.reader.queue = state.reader.queue)
    (hcaptured : next.reader.pc.captured = true → state.reader.pc.captured = true)
    (hopened : next.reader.pc.opened = true → state.reader.pc.opened = true) : Dated next := by
  constructor
  · rw [hevent, hrun]
    exact h.event
  · intro run hnext
    rw [hrun]
    rcases hqueue with hsame | hnone
    · exact h.queue run (hsame ▸ hnext)
    · rw [hnone] at hnext
      cases hnext
  · intro hpc
    rw [hreader.1, hrun, hrebuilds, hevent]
    exact h.captured (hcaptured hpc)
  · intro hpc
    rw [hreader.2, hrun, hrebuilds]
    exact h.opened (hopened hpc)

/-- New stage objects make the generator's older by one. -/
theorem Dated.rebuild (h : Dated state) (hrun : next.run = state.run + 1)
    (hevent : next.event = some (state.run + 1)) (hqueue : next.queue = some (state.run + 1))
    (hrebuilds : next.rebuilds = state.rebuilds + 1) (hreader : next.reader = state.reader) : Dated next := by
  constructor
  · intro run hnext
    rw [hevent] at hnext
    cases hnext
    exact hrun.symm
  · intro run hnext
    rw [hqueue] at hnext
    cases hnext
    exact hrun.symm
  · intro hpc
    rw [hreader] at hpc ⊢
    obtain ⟨run, hcaptured, hage, -⟩ := h.captured hpc
    exact ⟨run, hcaptured, by omega, by simp [hevent]⟩
  · intro hpc
    rw [hreader] at hpc ⊢
    obtain ⟨run, hopened, hle, hage⟩ := h.opened hpc
    exact ⟨run, hopened, by omega, by omega⟩

/-- A statement of a call leaves the objects alone, drops the queues, or rebuilds them all. -/
theorem stepCall_objects {caller : Caller} {timeout : Bool} {call : Call}
    (h : stepCall config state caller timeout call = some next) : next.reader = state.reader ∧
      ((next.run = state.run ∧ next.event = state.event ∧ (next.queue = state.queue ∨ next.queue = none) ∧
        next.rebuilds = state.rebuilds) ∨
      (next.run = state.run + 1 ∧ next.event = some (state.run + 1) ∧ next.queue = some (state.run + 1) ∧
        next.rebuilds = state.rebuilds + 1)) := by
  cases call with
  | building =>
    cases h
    simp only [State.afterBuild]
    split
    · exact ⟨rfl, .inr ⟨rfl, rfl, rfl, rfl⟩⟩
    · split <;> exact ⟨rfl, .inr ⟨rfl, rfl, rfl, rfl⟩⟩
  | retiring again | retiringScavenger again =>
    simp only [stepCall] at h
    split at h
    · split at h <;> cases h <;> exact ⟨rfl, .inl ⟨rfl, rfl, .inl rfl, rfl⟩⟩
    · cases h
      exact ⟨rfl, .inl ⟨rfl, rfl, .inl rfl, rfl⟩⟩
  | joining again target | joiningScavenger again target =>
    simp only [stepCall] at h
    split at h <;> cases h
    exact ⟨rfl, .inl ⟨rfl, rfl, .inl rfl, rfl⟩⟩
  | resetting again =>
    simp only [stepCall] at h
    split at h <;> cases h <;> exact ⟨rfl, .inl ⟨rfl, rfl, .inr rfl, rfl⟩⟩
  | spawning =>
    cases h
    simp only [State.afterMonitor]
    split <;> exact ⟨rfl, .inl ⟨rfl, rfl, .inl rfl, rfl⟩⟩
  | stopping again | joined again | joinedScavenger again | clearing | clearingScavenger | spawningScavenger =>
    cases h
    exact ⟨rfl, .inl ⟨rfl, rfl, .inl rfl, rfl⟩⟩

/-- The monitor touches neither the stage objects nor the generator. -/
theorem stepMonitor_objects {id : ℕ} {move : MonitorMove} (h : stepMonitor config state id move = some next) :
    next.reader = state.reader ∧ next.run = state.run ∧ next.event = state.event ∧ next.queue = state.queue ∧
      next.rebuilds = state.rebuilds := by
  cases stepMonitor_cases h with
  | respawn _ =>
    simp only [State.respawn]
    split <;> exact ⟨rfl, rfl, rfl, rfl, rfl⟩
  | test _ | wake _ | check _ | quiet _ _ | scan _ _ | restart _ _ | decide _ | respawned _ | resume _ _ =>
    exact ⟨rfl, rfl, rfl, rfl, rfl⟩

theorem Dated.setReader (h : Dated state) {pc : ReaderPc}
    (hcaptured : pc.captured = true → state.reader.pc.captured = true)
    (hopened : pc.opened = true → state.reader.pc.opened = true) : Dated (state.setReader pc) :=
  h.congr rfl rfl (.inl rfl) rfl ⟨rfl, rfl⟩ hcaptured hopened

/-- A call that begins makes nothing new. -/
theorem Dated.enter (h : Dated state) (caller : Caller) (call : Call) : Dated (state.enter caller call) :=
  h.congr rfl rfl (.inl rfl) rfl ⟨rfl, rfl⟩ id id

theorem Dated.reader (h : Dated state) {move : ReaderMove} (hstep : stepReader state move = some next) :
    Dated next := by
  cases stepReader_cases hstep with
  | capture _ hevent =>
    refine ⟨h.event, h.queue, fun _ ↦ ⟨_, rfl, ?_, by simp [hevent]⟩, fun hpc ↦ by cases hpc⟩
    exact h.event _ hevent
  | @opens run hpc hqueue =>
    have hcaptured := h.captured (by rw [hpc]; rfl)
    refine ⟨h.event, h.queue, fun _ ↦ hcaptured, fun _ ↦ ⟨run, rfl, ?_⟩⟩
    have hcurrent : run = state.run := h.queue run hqueue
    constructor <;> dsimp only <;> omega
  | start _ _ =>
    apply Dated.enter
    apply h.setReader <;> simp [ReaderPc.captured, ReaderPc.opened]
  | restart hpc _ | fails hpc | leave hpc _ =>
    apply Dated.enter
    apply h.setReader <;> simp [hpc, ReaderPc.captured, ReaderPc.opened]
  | running hpc _ | started hpc _ | restarted hpc _ | stopped hpc _ | captureFails hpc _ | openFails hpc _
  | test hpc _ | yields hpc | empty hpc | again hpc =>
    apply h.setReader <;> simp [hpc, ReaderPc.captured, ReaderPc.opened]

/-- A step, whoever makes it, keeps the account of the rebuilds since the generator read its objects. -/
theorem Dated.step (h : Dated state) {action : Action} (hstep : Lifecycle.step config state action = some next) :
    Dated next := by
  cases action with
  | begin user op =>
    simp only [Lifecycle.step] at hstep
    split at hstep <;> cases hstep
    exact h.enter _ _
  | call caller timeout =>
    simp only [Lifecycle.step] at hstep
    split at hstep
    · obtain ⟨hreader, hobjects⟩ := stepCall_objects hstep
      rcases hobjects with ⟨hrun, hevent, hqueue, hrebuilds⟩ | ⟨hrun, hevent, hqueue, hrebuilds⟩
      · apply h.congr hrun hevent hqueue hrebuilds <;> simp [hreader]
      · exact h.rebuild hrun hevent hqueue hrebuilds hreader
    · cases hstep
  | monitor id move =>
    obtain ⟨hreader, hrun, hevent, hqueue, hrebuilds⟩ := stepMonitor_objects hstep
    apply h.congr hrun hevent (.inl hqueue) hrebuilds <;> simp [hreader]
  | scavenger thread move =>
    simp only [Lifecycle.step, stepScavenger] at hstep
    split at hstep <;> cases hstep <;> exact h.congr rfl rfl (.inl rfl) rfl ⟨rfl, rfl⟩ id id
  | reader move => exact h.reader hstep
  | crash slot =>
    simp only [Lifecycle.step] at hstep
    split at hstep <;> cases hstep
    exact h.congr rfl rfl (.inl rfl) rfl ⟨rfl, rfl⟩ id id
  | connectionError =>
    cases hstep
    exact h.congr rfl rfl (.inl rfl) rfl ⟨rfl, rfl⟩ id id
  | finish =>
    simp only [Lifecycle.step] at hstep
    split at hstep <;> cases hstep
    exact h.congr rfl rfl (.inl rfl) rfl ⟨rfl, rfl⟩ id id

/-! ## Following a restart -/

/-- The generator reads the current final queue and tests the current final stage's event. -/
def Follows (state : State) : Prop :=
  state.reader.queue = state.queue ∧ state.reader.event = state.event

/-- At the head of its loop, and with queues to read, the generator follows the pipeline exactly
when no `start` has rebuilt the stage objects since it read `final_done`. -/
theorem follows_iff_not_rebuilt (h : (machine config).Reachable state) (hhead : state.reader.pc = .head)
    (hup : state.queue ≠ none) : Follows state ↔ state.rebuilds = 0 := by
  have hdated : Dated state := by
    apply h.invariant Dated
    · exact dated_start
    · intro state action next hstate hstep
      exact hstate.step hstep
  obtain ⟨event, hevent, hage, hset⟩ := hdated.captured (by rw [hhead]; rfl)
  obtain ⟨queue, hqueue, hle, hge⟩ := hdated.opened (by rw [hhead]; rfl)
  obtain ⟨current, hcurrent⟩ := Option.ne_none_iff_exists'.mp hup
  obtain ⟨final, hfinal⟩ := Option.ne_none_iff_exists'.mp hset
  have hrun := hdated.queue current hcurrent
  have hrun' := hdated.event final hfinal
  rw [Follows, hqueue, hevent, hcurrent, hfinal, Option.some_inj, Option.some_inj]
  omega

def readerStart : List Action :=
  [.reader .begin, .call .reader false, .call .reader false, .call .reader false, .reader .resume,
    .reader .capture, .reader .open]

/-- A generator that has started the pipeline itself follows it. -/
theorem follows_readerStart : ∃ state, (machine oneWorker).runFrom State.start readerStart = some state ∧
    state.reader.pc = .head ∧ Follows state := by
  have hends : ∃ state, (machine oneWorker).runFrom State.start readerStart = some state ∧
      state.reader.pc = .head ∧ state.queue = some 1 ∧ state.rebuilds = 0 := ⟨_, rfl, rfl, rfl, rfl⟩
  obtain ⟨state, hrun, hhead, hqueue, hrebuilds⟩ := hends
  refine ⟨state, hrun, hhead, ?_⟩
  exact (follows_iff_not_rebuilt ⟨readerStart, hrun⟩ hhead (by simp [hqueue])).mpr hrebuilds

/-- A worker reports a connection error; the generator restarts the pipeline, whose monitor
exits, and makes `out_ch` again. -/
def readerRestart : List Action :=
  readerStart ++ [Action.connectionError, .reader .test, .call .reader false, .call .reader false, .monitor 0 .test] ++
    List.replicate 7 (Action.call .reader false) ++ [Action.reader .resume, .reader .open]

/-- After the monitor has restarted the pipeline, the generator tests the event of a stage that is gone. -/
theorem not_follows : ¬ ∀ (config : Config) (state : State), (machine config).Reachable state →
    state.reader.pc = .head → (∀ caller, state.call caller = none) → state.queue ≠ none → Follows state := by
  intro hfollows
  have hends : ∃ state, (machine oneWorker).runFrom State.start readerRestart = some state ∧
      state.reader.pc = .head ∧ (∀ caller, state.call caller = none) ∧ state.queue = some 2 ∧
      state.event = some 2 ∧ state.reader.event = some 1 := by
    refine ⟨_, rfl, rfl, ?_, rfl, rfl, rfl⟩
    intro caller
    cases caller <;> rfl
  obtain ⟨state, hrun, hhead, hcalls, hqueue, hevent, hold⟩ := hends
  have hstate := hfollows oneWorker state ⟨readerRestart, hrun⟩ hhead hcalls (by simp [hqueue])
  have hsame := hstate.2
  rw [hold, hevent] at hsame
  cases hsame

end GpuPipe.Lifecycle
