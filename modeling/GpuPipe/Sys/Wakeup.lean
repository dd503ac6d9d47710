import GpuPipe.Sys.Takeover

/-!
# Sleeping and waking at the lock

The lock machine with the queue of the futex: a wait compares the word and goes to sleep in one step, a wake
takes one sleeper out of the queue, and a sleeper may also time out. While nobody dies, a sleeper is never
forgotten: somebody who is awake holds the marked lock, is about to wake, or is in the wait loop.
-/

namespace GpuPipe.Sys

structure WakeState where
  lock : LockState
  /-- The threads asleep in `futex::wait`. -/
  sleeping : List ℕ

def WakeState.start : WakeState where
  lock := .start
  sleeping := []

inductive WakeAction
  | move (thread : ℕ)
  /-- `futex::wake(l, 1)` of `unlock`, and the sleeper it takes. -/
  | wake (thread : ℕ) (sleeper : Option ℕ)
  /-- A sleep ends by itself. -/
  | timeout (thread : ℕ)
  | tick (elapsed : ℕ)
  | kill (pid : UInt32)
  | reap (pid : UInt32)

section Steps

variable (processes : Processes) (state : WakeState)

/-- A step of a thread that is awake; `futex::wait` sleeps only if the word is the one it expects. -/
def stepAwake (thread : ℕ) : Option WakeState :=
  match (state.lock.thread thread).pc with
  | .waking => none
  | .waiting v =>
    if state.lock.word = v ||| waiters then some { state with sleeping := state.sleeping ++ [thread] }
    else some { state with lock := moveThread processes state.lock thread }
  | _ => some { state with lock := moveThread processes state.lock thread }

/-- The wake of `unlock`: a sleeper goes on behind its wait, if there is one. -/
def stepWake (thread : ℕ) : Option ℕ → Option WakeState
  | none =>
    if state.sleeping = [] then some { state with lock := moveThread processes state.lock thread } else none
  | some sleeper =>
    if sleeper ∈ state.sleeping then
      some
        { lock := moveThread processes (moveThread processes state.lock thread) sleeper
          sleeping := state.sleeping.filter (· ≠ sleeper) }
    else none

def wakeStep : WakeAction → Option WakeState
  | .move thread =>
    if state.lock.life (processes.pid thread) = .live ∧ thread ∉ state.sleeping then stepAwake processes state thread
    else none
  | .wake thread sleeper =>
    if state.lock.life (processes.pid thread) = .live ∧ (state.lock.thread thread).pc = .waking then
      stepWake processes state thread sleeper
    else none
  | .timeout thread =>
    if thread ∈ state.sleeping then
      some
        { lock := moveThread processes state.lock thread
          sleeping := state.sleeping.filter (· ≠ thread) }
    else none
  | .tick elapsed => (lockStep processes state.lock (.tick elapsed)).map fun lock ↦ { state with lock := lock }
  | .kill pid =>
    (lockStep processes state.lock (.kill pid)).map fun lock ↦
      { lock := lock, sleeping := state.sleeping.filter (processes.pid · ≠ pid) }
  | .reap pid => (lockStep processes state.lock (.reap pid)).map fun lock ↦ { state with lock := lock }

end Steps

def wakeMachine (processes : Processes) : Machine WakeState WakeAction where
  start := .start
  step := wakeStep processes

def WakeAction.spares : WakeAction → Bool
  | .kill _ => false
  | _ => true

/-! ## What a step does to the word -/

section Turns

variable {processes : Processes} {state : LockState} {thread : ℕ}

theorem or_waiters_marked (v : UInt32) : (v ||| waiters) &&& waiters ≠ 0 := by
  have hand : (v ||| waiters) &&& waiters = waiters := by
    apply UInt32.toBitVec_inj.mp
    ext i hi
    simp only [UInt32.toBitVec_and, UInt32.toBitVec_or, BitVec.getElem_and, BitVec.getElem_or]
    cases waiters.toBitVec[i] <;> simp
  rw [hand]
  decide

/-- What a step makes of the word and of the thread's place. -/
inductive Turn (processes : Processes) (state : LockState) (thread : ℕ) : UInt32 → LockPc → Prop
  | stays {word : UInt32} {pc : LockPc} (hfrom : (state.thread thread).pc.inLoop = true) (hto : pc.inLoop = true)
      (hword : word = state.word ∨ (state.thread thread).pc = .mark state.word ∧ word = state.word ||| waiters)
      (hmark : ∀ v, pc = .mark v → v ≠ 0) : Turn processes state thread word pc
  | takesMarked (hfrom : (state.thread thread).pc.inLoop = true) :
      Turn processes state thread (processes.pid thread ||| waiters) .held
  | takes (hfrom : (state.thread thread).pc.inLoop = false) (hfree : state.word = 0) :
      Turn processes state thread (processes.pid thread) .held
  | frees (hfrom : (state.thread thread).pc = .held) :
      Turn processes state thread 0 (if state.word &&& waiters = 0 then .idle else .waking)
  | outside {pc : LockPc} (hfrom : (state.thread thread).pc.inLoop = false) (hheld : (state.thread thread).pc ≠ .held)
      (hto : pc ≠ .held) (hmark : ∀ v, pc ≠ .mark v) : Turn processes state thread state.word pc

/-- Every step is one of these turns. -/
theorem moveThread_turn (processes : Processes) (state : LockState) (thread : ℕ) :
    ∃ word self, moveThread processes state thread = state.after thread word self ∧
      Turn processes state thread word self.pc := by
  have hout {pc : LockPc} (hpc : (state.thread thread).pc = pc) (hloop : pc.inLoop = false) (hheld : pc ≠ .held)
      {next : LockPc} (hto : next ≠ .held) (hmark : ∀ v, next ≠ .mark v) :
      Turn processes state thread state.word next := by
    subst hpc
    exact .outside hloop hheld hto hmark
  have hstay {pc : LockPc} (hpc : (state.thread thread).pc = pc) (hloop : pc.inLoop = true) {next : LockPc}
      (hto : next.inLoop = true) (hmark : ∀ v, next = .mark v → v ≠ 0) :
      Turn processes state thread state.word next := by
    subst hpc
    exact .stays hloop hto (.inl rfl) hmark
  unfold moveThread
  split
  case h_1 hpc => exact ⟨_, _, rfl, hout hpc rfl (by simp) (by simp) (by simp)⟩
  case h_2 hpc =>
    split
    · rename_i hfree
      exact ⟨_, _, rfl, .takes (by rw [hpc]; rfl) hfree⟩
    · exact ⟨_, _, rfl, hout hpc rfl (by simp) (by simp) (by simp)⟩
  case h_3 hpc => exact ⟨_, _, rfl, hout hpc rfl (by simp) (by simp) (by simp)⟩
  case h_4 hpc => exact ⟨_, _, rfl, hout hpc rfl (by simp) (by dsimp only; split <;> simp) (by dsimp only; split <;> simp)⟩
  case h_5 hpc =>
    split
    · rename_i hfree
      exact ⟨_, _, rfl, .takes (by rw [hpc]; rfl) hfree⟩
    · exact ⟨_, _, rfl, hout hpc rfl (by simp) (by simp) (by simp)⟩
  case h_6 hpc =>
    refine ⟨_, _, rfl, hstay hpc rfl ?_ ?_⟩
    · dsimp only
      split
      · rfl
      · split <;> rfl
    · -- A word that is marked is not free.
      dsimp only
      intro v hv
      split at hv
      · cases hv
      · split at hv
        · cases hv
          assumption
        · cases hv
  case h_7 hpc =>
    split
    · exact ⟨_, _, rfl, .takesMarked (by rw [hpc]; rfl)⟩
    · exact ⟨_, _, rfl, hstay hpc rfl rfl (by simp)⟩
  case h_8 v hpc =>
    split
    · rename_i hword
      refine ⟨_, _, rfl, .stays (by rw [hpc]; rfl) rfl (.inr ⟨?_, ?_⟩) (by simp)⟩
      · rw [hpc, hword]
      · rw [hword]
    · exact ⟨_, _, rfl, hstay hpc rfl rfl (by simp)⟩
  case h_9 hpc => exact ⟨_, _, rfl, hstay hpc rfl rfl (by simp)⟩
  case h_10 hpc =>
    split
    · exact ⟨_, _, rfl, hstay hpc rfl rfl (by simp)⟩
    · exact ⟨_, _, rfl, hstay hpc rfl rfl (by simp)⟩
  case h_11 hpc => exact ⟨_, _, rfl, hstay hpc rfl (by dsimp only; split <;> rfl) (by dsimp only; split <;> simp)⟩
  case h_12 hpc => exact ⟨_, _, rfl, hstay hpc rfl (by dsimp only; split <;> rfl) (by dsimp only; split <;> simp)⟩
  case h_13 hpc =>
    split
    · exact ⟨_, _, rfl, .takesMarked (by rw [hpc]; rfl)⟩
    · exact ⟨_, _, rfl, hstay hpc rfl rfl (by simp)⟩
  case h_14 hpc => exact ⟨_, _, rfl, .frees hpc⟩
  case h_15 hpc => exact ⟨_, _, rfl, hout hpc rfl (by simp) (by simp) (by simp)⟩

theorem after_other {word : UInt32} {self : LockThread} {other : ℕ} (h : other ≠ thread) :
    (state.after thread word self).thread other = state.thread other := Function.update_of_ne h _ _

end Turns

/-! ## Who owes a wake -/

section Owing

variable {processes : Processes} {state : LockState} {thread : ℕ} {sleeping : List ℕ}

/-- While nobody dies, a word that is not free names a thread that holds the lock. -/
structure Owned (processes : Processes) (state : LockState) : Prop where
  named : state.word ≠ 0 → ∃ thread, (state.thread thread).pc = .held ∧ holder state.word = processes.pid thread
  marked : ∀ thread v, (state.thread thread).pc = .mark v → v ≠ 0

/-- A word that is not free keeps naming a thread that holds the lock. -/
theorem Owned.move (h : Owned processes state) : Owned processes (moveThread processes state thread) := by
  obtain ⟨word, self, heq, hturn⟩ := moveThread_turn processes state thread
  rw [heq]
  have hholder (hkeeps : holder word = holder state.word) (hword : state.word ≠ 0)
      (hheld : (state.thread thread).pc ≠ .held) :
      ∃ other, ((state.after thread word self).thread other).pc = .held ∧ holder word = processes.pid other := by
    obtain ⟨other, hother, hnamed⟩ := h.named hword
    have hne : other ≠ thread := by
      intro hsame
      exact hheld (hsame ▸ hother)
    exact ⟨other, by rw [after_other hne]; exact hother, hkeeps.trans hnamed⟩
  constructor
  · intro hword
    rw [after_word] at hword ⊢
    generalize hpc : self.pc = pc at hturn
    cases hturn with
    | stays hfrom hto hkeeps hmark =>
      have hheld : (state.thread thread).pc ≠ .held := by
        intro hheld
        rw [hheld] at hfrom
        cases hfrom
      rcases hkeeps with rfl | ⟨hmarks, rfl⟩
      · exact hholder rfl hword hheld
      · exact hholder (holder_or_waiters _) (h.marked thread _ hmarks) hheld
    | takesMarked hfrom =>
      exact ⟨thread, by rw [after_thread]; exact hpc, by rw [holder_or_waiters, holder_pid]⟩
    | takes hfrom hfree => exact ⟨thread, by rw [after_thread]; exact hpc, holder_pid processes thread⟩
    | frees hfrom => exact absurd rfl hword
    | outside hfrom hheld hto hmark => exact hholder rfl hword hheld
  · intro other v hv
    by_cases hother : other = thread
    · rw [hother, after_thread] at hv
      generalize hpc : self.pc = pc at hturn hv
      cases hturn with
      | stays hfrom hto hkeeps hmark => exact hmark v hv
      | takesMarked hfrom => cases hv
      | takes hfrom hfree => cases hv
      | frees hfrom =>
        split at hv <;> cases hv
      | outside hfrom hheld hto hmark => exact absurd hv (hmark v)
    · rw [after_other hother] at hv
      exact h.marked other v hv

/-- Somebody who is awake is about to wake a sleeper or is in the wait loop. -/
def Answers (state : LockState) (sleeping : List ℕ) : Prop :=
  ∃ thread, thread ∉ sleeping ∧ ((state.thread thread).pc = .waking ∨ (state.thread thread).pc.inLoop = true)

/-- What a sleeper may count on. -/
def Owed (state : LockState) (sleeping : List ℕ) : Prop := state.word &&& waiters ≠ 0 ∨ Answers state sleeping

/-- A step of a thread in the wait loop keeps the debt, also if it was asleep so far. -/
theorem owed_of_inLoop (hloop : (state.thread thread).pc.inLoop = true) (hawake : thread ∉ sleeping) :
    Owed (moveThread processes state thread) sleeping := by
  obtain ⟨word, self, heq, hturn⟩ := moveThread_turn processes state thread
  rw [heq]
  generalize hpc : self.pc = pc at hturn
  cases hturn with
  | stays hfrom hto hkeeps hmark =>
    right
    exact ⟨thread, hawake, .inr (by rw [after_thread, hpc]; exact hto)⟩
  | takesMarked hfrom =>
    left
    exact or_waiters_marked _
  | takes hfrom hfree =>
    rw [hloop] at hfrom
    cases hfrom
  | frees hfrom =>
    rw [hfrom] at hloop
    cases hloop
  | outside hfrom hheld hto hmark =>
    rw [hloop] at hfrom
    cases hfrom

/-- So does a step of any other thread, but for the wake of `unlock`. -/
theorem Owed.move (h : Owed state sleeping) (hloop : (state.thread thread).pc.inLoop = false)
    (hwaking : (state.thread thread).pc ≠ .waking) (hawake : thread ∉ sleeping) :
    Owed (moveThread processes state thread) sleeping := by
  obtain ⟨word, self, heq, hturn⟩ := moveThread_turn processes state thread
  rw [heq]
  have hanswers (hbefore : Answers state sleeping) : Answers (state.after thread word self) sleeping := by
    obtain ⟨other, hother, hplace⟩ := hbefore
    have hne : other ≠ thread := by
      intro hsame
      rw [hsame, hloop] at hplace
      rcases hplace with hplace | hplace
      · exact hwaking hplace
      · cases hplace
    exact ⟨other, hother, by rw [after_other hne]; exact hplace⟩
  generalize hpc : self.pc = pc at hturn
  cases hturn with
  | stays hfrom hto hkeeps hmark =>
    rw [hloop] at hfrom
    cases hfrom
  | takesMarked hfrom =>
    rw [hloop] at hfrom
    cases hfrom
  | takes hfrom hfree =>
    rcases h with hmarked | hbefore
    · rw [hfree] at hmarked
      exact absurd rfl hmarked
    · exact .inr (hanswers hbefore)
  | frees hfrom =>
    rcases h with hmarked | hbefore
    · right
      rw [if_neg hmarked] at hpc
      exact ⟨thread, hawake, .inl (by rw [after_thread]; exact hpc)⟩
    · exact .inr (hanswers hbefore)
  | outside hfrom hheld hto hmark =>
    rcases h with hmarked | hbefore
    · exact .inl hmarked
    · exact .inr (hanswers hbefore)

end Owing

/-! ## No lost wakeup -/

section Wakeups

variable {processes : Processes} {state next : WakeState}

/-- Who is asleep waits, the word names its holder, and a sleeper is owed a wake. -/
structure Woken (processes : Processes) (state : WakeState) : Prop where
  asleep : ∀ thread ∈ state.sleeping, ∃ v, (state.lock.thread thread).pc = .waiting v
  owned : Owned processes state.lock
  owed : state.sleeping ≠ [] → Owed state.lock state.sleeping

theorem moveThread_other {lock : LockState} {thread other : ℕ} (h : other ≠ thread) :
    (moveThread processes lock thread).thread other = lock.thread other := by
  obtain ⟨word, self, heq, -⟩ := moveThread_turn processes lock thread
  rw [heq, after_other h]

/-- Those who sleep on keep their place. -/
theorem Woken.asleep_of_awake (h : Woken processes state) {thread : ℕ} (hawake : thread ∉ state.sleeping) :
    ∀ other ∈ state.sleeping, ∃ v, ((moveThread processes state.lock thread).thread other).pc = .waiting v := by
  intro other hother
  have hne : other ≠ thread := by
    intro hsame
    exact hawake (hsame ▸ hother)
  rw [moveThread_other hne]
  exact h.asleep other hother

theorem Woken.move (h : Woken processes state) {thread : ℕ} (hawake : thread ∉ state.sleeping)
    (hwaking : (state.lock.thread thread).pc ≠ .waking) :
    Woken processes { state with lock := moveThread processes state.lock thread } where
  asleep := h.asleep_of_awake hawake
  owned := h.owned.move
  owed hsleeping := by
    cases hloop : (state.lock.thread thread).pc.inLoop with
    | true => exact owed_of_inLoop hloop hawake
    | false => exact (h.owed hsleeping).move hloop hwaking hawake

/-- The word that a thread goes to sleep on is marked. -/
theorem Woken.sleep (h : Woken processes state) {thread : ℕ} {v : UInt32}
    (hpc : (state.lock.thread thread).pc = .waiting v) (hword : state.lock.word = v ||| waiters) :
    Woken processes { state with sleeping := state.sleeping ++ [thread] } where
  asleep other hother := by
    rcases List.mem_append.mp hother with hold | hnew
    · exact h.asleep other hold
    · rw [List.mem_singleton.mp hnew]
      exact ⟨v, hpc⟩
  owned := h.owned
  owed _ := by
    left
    rw [hword]
    exact or_waiters_marked v

/-- A sleeper that is awake again is in the wait loop. -/
theorem Woken.rouse (h : Woken processes state) {lock : LockState} {sleeper : ℕ}
    (hsleeper : sleeper ∈ state.sleeping) (howned : Owned processes lock)
    (hsame : ∀ other ∈ state.sleeping, lock.thread other = state.lock.thread other) :
    Woken processes
      { lock := moveThread processes lock sleeper
        sleeping := state.sleeping.filter (· ≠ sleeper) } where
  asleep other hother := by
    rw [List.mem_filter, decide_eq_true_eq] at hother
    rw [moveThread_other hother.2, hsame other hother.1]
    exact h.asleep other hother.1
  owned := howned.move
  owed _ := by
    obtain ⟨v, hpc⟩ := h.asleep sleeper hsleeper
    apply owed_of_inLoop
    · rw [hsame sleeper hsleeper, hpc]
      rfl
    · intro hmem
      rw [List.mem_filter, decide_eq_true_eq] at hmem
      exact hmem.2 rfl

/-- The wake of `unlock` takes one sleeper out and leaves the others their due. -/
theorem Woken.wake (h : Woken processes state) {thread : ℕ} {sleeper : Option ℕ}
    (hpc : (state.lock.thread thread).pc = .waking)
    (hstep : stepWake processes state thread sleeper = some next) : Woken processes next := by
  have hawake : thread ∉ state.sleeping := by
    intro hmem
    obtain ⟨v, hwaiting⟩ := h.asleep thread hmem
    rw [hpc] at hwaiting
    cases hwaiting
  cases sleeper with
  | none =>
    rw [stepWake, Option.ite_none_right_eq_some] at hstep
    obtain ⟨hnobody, hnext⟩ := hstep
    cases hnext
    exact ⟨h.asleep_of_awake hawake, h.owned.move, fun hsome ↦ absurd hnobody hsome⟩
  | some sleeper =>
    rw [stepWake, Option.ite_none_right_eq_some] at hstep
    obtain ⟨hsleeper, hnext⟩ := hstep
    cases hnext
    apply h.rouse hsleeper h.owned.move
    intro other hother
    apply moveThread_other
    intro hsame
    exact hawake (hsame ▸ hother)

/-- What every step preserves while nobody is killed. -/
theorem Woken.step (h : Woken processes state) {action : WakeAction} (hspares : action.spares = true)
    (hstep : wakeStep processes state action = some next) : Woken processes next := by
  cases action with
  | move thread =>
    rw [wakeStep, Option.ite_none_right_eq_some] at hstep
    obtain ⟨⟨-, hawake⟩, hstep⟩ := hstep
    unfold stepAwake at hstep
    split at hstep
    · cases hstep
    · rename_i v hpc
      split at hstep
      · cases hstep
        exact h.sleep hpc ‹_›
      · cases hstep
        exact h.move hawake (by rw [hpc]; simp)
    · rename_i hwaking _
      cases hstep
      exact h.move hawake hwaking
  | wake thread sleeper =>
    rw [wakeStep, Option.ite_none_right_eq_some] at hstep
    exact h.wake hstep.1.2 hstep.2
  | timeout thread =>
    rw [wakeStep, Option.ite_none_right_eq_some] at hstep
    obtain ⟨hsleeper, hnext⟩ := hstep
    cases hnext
    exact h.rouse hsleeper h.owned fun _ _ ↦ rfl
  | tick elapsed =>
    cases hstep
    exact ⟨h.asleep, ⟨h.owned.named, h.owned.marked⟩, h.owed⟩
  | kill pid => cases hspares
  | reap pid =>
    simp only [wakeStep, lockStep, Option.map_eq_some_iff, Option.ite_none_right_eq_some] at hstep
    obtain ⟨lock, ⟨-, hlock⟩, rfl⟩ := hstep
    cases hlock
    exact ⟨h.asleep, ⟨h.owned.named, h.owned.marked⟩, h.owed⟩

theorem woken_start (processes : Processes) : Woken processes .start where
  asleep thread h := by
    cases h
  owned := ⟨fun h ↦ absurd rfl h, fun thread v h ↦ by cases h⟩
  owed h := absurd rfl h

/-- As long as nobody is killed, whenever a thread sleeps in `lock` somebody who is awake holds the lock with
its word marked, is about to wake a sleeper, or is in the wait loop. -/
theorem no_lost_wakeup {thread : ℕ}
    (h : ((wakeMachine processes).restrict fun _ action ↦ action.spares).Reachable state)
    (hasleep : thread ∈ state.sleeping) :
    ∃ other, other ∉ state.sleeping ∧
      ((state.lock.thread other).pc = .held ∧ state.lock.word &&& waiters ≠ 0 ∧
          holder state.lock.word = processes.pid other ∨
        (state.lock.thread other).pc = .waking ∨ (state.lock.thread other).pc.inLoop = true) := by
  have hwoken : Woken processes state := by
    apply h.invariant (Woken processes) (woken_start processes)
    intro before action after hbefore hstep
    obtain ⟨hspares, hstep⟩ := Machine.restrict_step hstep
    exact hbefore.step hspares hstep
  rcases hwoken.owed (List.ne_nil_of_mem hasleep) with hmarked | ⟨other, hawake, hplace⟩
  · have hword : state.lock.word ≠ 0 := by
      intro hzero
      rw [hzero] at hmarked
      exact hmarked rfl
    obtain ⟨other, hheld, hnamed⟩ := hwoken.owned.named hword
    have hawake : other ∉ state.sleeping := by
      intro hmem
      obtain ⟨v, hwaiting⟩ := hwoken.asleep other hmem
      rw [hheld] at hwaiting
      cases hwaiting
    exact ⟨other, hawake, .inl ⟨hheld, hmarked, hnamed⟩⟩
  · exact ⟨other, hawake, .inr hplace⟩

/-- Thread 0 takes the lock; thread 1 marks its word and goes to sleep. -/
def sleepRun : List WakeAction :=
  [.move 0, .move 0] ++ List.replicate (spin + 6) (.move 1)

/-- A waiter sleeps, and the holder of the marked word is there to wake it. -/
theorem no_lost_wakeup_sleepRun :
    ∃ state, ((wakeMachine twoProcesses).restrict fun _ action ↦ action.spares).Reachable state ∧
      ∃ other, other ∉ state.sleeping ∧
        ((state.lock.thread other).pc = .held ∧ state.lock.word &&& waiters ≠ 0 ∧
            holder state.lock.word = twoProcesses.pid other ∨
          (state.lock.thread other).pc = .waking ∨ (state.lock.thread other).pc.inLoop = true) := by
  have hrun : (((wakeMachine twoProcesses).restrict fun _ action ↦ action.spares).runFrom .start sleepRun).map
      WakeState.sleeping = some [1] := by
    decide
  obtain ⟨state, hstate, hsleeping⟩ := Option.map_eq_some_iff.mp hrun
  exact ⟨state, ⟨sleepRun, hstate⟩, no_lost_wakeup ⟨sleepRun, hstate⟩ (hsleeping ▸ List.mem_singleton_self 1)⟩

/-! ## Forgetting who sleeps -/

/-- A state of the lock machine in which every sleeper is alive. -/
def Awakens (processes : Processes) (state : WakeState) (lock : LockState) : Prop :=
  lock = state.lock ∧ ∀ thread ∈ state.sleeping, lock.life (processes.pid thread) = .live

theorem moveThread_keeps_life (lock : LockState) (thread : ℕ) :
    (moveThread processes lock thread).life = lock.life := by
  obtain ⟨word, self, heq, -⟩ := moveThread_turn processes lock thread
  rw [heq, after_life]

theorem run_move {lock : LockState} {thread : ℕ} (hlive : lock.life (processes.pid thread) = .live) :
    (lockMachine processes).runFrom lock [.move thread] = some (moveThread processes lock thread) := by
  show (lockStep processes lock (.move thread)).bind _ = _
  rw [lockStep, if_pos hlive]
  rfl

/-- A step with the queue of sleepers is a run of the lock machine. -/
theorem awakens_step (hlive : ∀ thread ∈ state.sleeping, state.lock.life (processes.pid thread) = .live)
    {action : WakeAction} (hstep : wakeStep processes state action = some next) :
    ∃ actions lock, (lockMachine processes).runFrom state.lock actions = some lock ∧ Awakens processes next lock := by
  have hmoved (thread : ℕ) (hthread : state.lock.life (processes.pid thread) = .live) :
      ∃ actions lock, (lockMachine processes).runFrom state.lock actions = some lock ∧
        Awakens processes { state with lock := moveThread processes state.lock thread } lock := by
    exists [.move thread], moveThread processes state.lock thread
    refine ⟨run_move hthread, rfl, ?_⟩
    rw [moveThread_keeps_life]
    exact hlive
  cases action with
  | move thread =>
    rw [wakeStep, Option.ite_none_right_eq_some] at hstep
    obtain ⟨⟨hthread, -⟩, hstep⟩ := hstep
    unfold stepAwake at hstep
    split at hstep
    · cases hstep
    · split at hstep
      · -- going to sleep is no step of the lock machine
        cases hstep
        refine ⟨[], state.lock, rfl, rfl, ?_⟩
        intro other hother
        rcases List.mem_append.mp hother with hold | hnew
        · exact hlive other hold
        · rw [List.mem_singleton.mp hnew]
          exact hthread
      · cases hstep
        exact hmoved thread hthread
    · cases hstep
      exact hmoved thread hthread
  | wake thread sleeper =>
    rw [wakeStep, Option.ite_none_right_eq_some] at hstep
    obtain ⟨⟨hthread, -⟩, hstep⟩ := hstep
    cases sleeper with
    | none =>
      rw [stepWake, Option.ite_none_right_eq_some] at hstep
      obtain ⟨-, hnext⟩ := hstep
      cases hnext
      exact hmoved thread hthread
    | some sleeper =>
      rw [stepWake, Option.ite_none_right_eq_some] at hstep
      obtain ⟨hsleeper, hnext⟩ := hstep
      cases hnext
      have hsleeperLive : (moveThread processes state.lock thread).life (processes.pid sleeper) = .live := by
        rw [moveThread_keeps_life]
        exact hlive sleeper hsleeper
      refine ⟨[.move thread] ++ [.move sleeper], _, Machine.runFrom_trans (run_move hthread) (run_move hsleeperLive),
        rfl, ?_⟩
      intro other hother
      rw [moveThread_keeps_life, moveThread_keeps_life]
      exact hlive other (List.mem_filter.mp hother).1
  | timeout thread =>
    rw [wakeStep, Option.ite_none_right_eq_some] at hstep
    obtain ⟨hsleeper, hnext⟩ := hstep
    cases hnext
    refine ⟨[.move thread], _, run_move (hlive thread hsleeper), rfl, ?_⟩
    intro other hother
    rw [moveThread_keeps_life]
    exact hlive other (List.mem_filter.mp hother).1
  | tick elapsed =>
    cases hstep
    exact ⟨[.tick elapsed], _, rfl, rfl, hlive⟩
  | kill pid =>
    obtain ⟨lock, hlock, rfl⟩ := Option.map_eq_some_iff.mp hstep
    refine ⟨[.kill pid], lock, by rw [Machine.runFrom_cons]; exact congrArg (Option.bind · _) hlock, rfl, ?_⟩
    intro other hother
    rw [lockStep, Option.ite_none_right_eq_some] at hlock
    obtain ⟨-, hlock⟩ := hlock
    cases hlock
    rw [List.mem_filter, decide_eq_true_eq] at hother
    dsimp only
    rw [Function.update_of_ne hother.2]
    exact hlive other hother.1
  | reap pid =>
    obtain ⟨lock, hlock, rfl⟩ := Option.map_eq_some_iff.mp hstep
    refine ⟨[.reap pid], lock, by rw [Machine.runFrom_cons]; exact congrArg (Option.bind · _) hlock, rfl, ?_⟩
    intro other hother
    rw [lockStep, Option.ite_none_right_eq_some] at hlock
    obtain ⟨hkilled, hlock⟩ := hlock
    cases hlock
    have hother := hlive other hother
    dsimp only
    rw [Function.update_of_ne]
    · exact hother
    · intro hsame
      rw [hsame, hkilled] at hother
      cases hother

/-- Whether a thread sleeps or waits its turn makes no difference to the lock: the queue of the futex refines
the lock machine, deaths and timeouts included. -/
theorem lock_of_wake (h : (wakeMachine processes).Reachable state) :
    (lockMachine processes).Reachable state.lock := by
  have hsim : ∃ lock, (lockMachine processes).Reachable lock ∧ Awakens processes state lock := by
    apply h.simulation (Awakens processes)
    · exact ⟨rfl, fun thread hthread ↦ by cases hthread⟩
    · intro before action after lock hrelated hstep
      obtain ⟨rfl, hlive⟩ := hrelated
      exact awakens_step hlive hstep
  obtain ⟨lock, hreachable, heq, -⟩ := hsim
  rwa [← heq]

end Wakeups

end GpuPipe.Sys
