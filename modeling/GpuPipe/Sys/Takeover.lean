import GpuPipe.Sys.Lock

/-!
# Taking the lock over from a killed holder

A waiter that has seen one word for a whole `SLICE` asks `kill(pid, 0)` whether the holder is
alive. A killed process answers until its parent has waited for it, so the takeover is enabled
once the holder is reaped, and not before.
-/

namespace GpuPipe.Sys

variable {processes : Processes} {state next : LockState} {thread : ℕ}

theorem or_waiters_of_marked {v : UInt32} (h : v &&& waiters ≠ 0) : v ||| waiters = v := by
  have hbits : ∀ i : Fin 32, waiters.toBitVec[i] = decide (i.val = 31) := by decide
  have hbit (i : ℕ) (hi : i < 32) : waiters.toBitVec[i] = decide (i = 31) := hbits ⟨i, hi⟩
  have htop : v.toBitVec[31] = true := by
    by_contra hfalse
    apply h
    apply UInt32.toBitVec_inj.mp
    ext i hi
    simp only [UInt32.toBitVec_and, BitVec.getElem_and, hbit i hi]
    by_cases h31 : i = 31
    · subst h31
      simpa using hfalse
    · simp [h31]
  apply UInt32.toBitVec_inj.mp
  ext i hi
  simp only [UInt32.toBitVec_or, BitVec.getElem_or, hbit i hi]
  by_cases h31 : i = 31
  · subst h31
    simp [htop]
  · simp [h31]

/-! ## What a waiter has seen -/

def LockPc.inLoop : LockPc → Bool
  | .load | .grab | .mark _ | .waiting _ | .recheck _ | .judge _ | .probe _ | .seize _ => true
  | _ => false

/-- `since` is no later than the first look at the word a waiter still sees, and a sleeper saw
the marked word. -/
structure LockThread.Waits (clock : ℕ) (waiter : LockThread) : Prop where
  since_le : waiter.pc.inLoop = true → waiter.since ≤ waiter.seenSince
  seen_le : waiter.seenSince ≤ clock
  asleep : ∀ v, waiter.pc = .waiting v ∨ waiter.pc = .recheck v → waiter.seen = v ||| waiters

variable {self : LockThread} {clock : ℕ} {word : UInt32} {pc : LockPc}

@[simp] theorem after_word : (state.after thread word self).word = word := rfl

@[simp] theorem after_clock : (state.after thread word self).clock = state.clock := rfl

@[simp] theorem after_life : (state.after thread word self).life = state.life := rfl

@[simp] theorem after_thread : (state.after thread word self).thread thread = self := Function.update_self ..

@[simp] theorem after_after {word' : UInt32} {self' : LockThread} :
    (state.after thread word self).after thread word' self' = state.after thread word' self' := by
  simp [LockState.after]

theorem LockThread.Waits.goto (h : (state.thread thread).Waits state.clock) (pc : LockPc)
    (hloop : pc.inLoop = true → (state.thread thread).pc.inLoop = true)
    (hasleep : ∀ v, pc = .waiting v ∨ pc = .recheck v → (state.thread thread).seen = v ||| waiters) :
    ((state.goto thread pc).thread thread).Waits state.clock := by
  rw [LockState.goto, after_thread]
  exact ⟨fun hpc ↦ h.since_le (hloop hpc), h.seen_le, hasleep⟩

theorem LockThread.Waits.store (h : (state.thread thread).Waits state.clock) (word : UInt32) (pc : LockPc)
    (hloop : pc.inLoop = true → (state.thread thread).pc.inLoop = true)
    (hasleep : ∀ v, pc = .waiting v ∨ pc = .recheck v → word = v ||| waiters) :
    ((state.store thread word pc).thread thread).Waits state.clock := by
  rw [LockState.store, after_thread]
  refine ⟨fun hpc ↦ ?_, ?_, hasleep⟩
  · have hsince := h.since_le (hloop hpc)
    simp only [LockThread.see]
    split
    · exact hsince
    · exact hsince.trans h.seen_le
  · simp only [LockThread.see]
    split
    · exact h.seen_le
    · exact le_rfl

theorem LockThread.Waits.look (h : (state.thread thread).Waits state.clock) (pc : LockPc)
    (hloop : pc.inLoop = true → (state.thread thread).pc.inLoop = true)
    (hasleep : ∀ v, pc = .waiting v ∨ pc = .recheck v → state.word = v ||| waiters) :
    ((state.look thread pc).thread thread).Waits state.clock :=
  h.store state.word pc hloop hasleep

/-- A step of a waiter keeps what it knows. -/
theorem LockThread.Waits.move (h : (state.thread thread).Waits state.clock) :
    ((moveThread processes state thread).thread thread).Waits state.clock := by
  have hsleep := h.asleep
  unfold moveThread
  split <;> rename_i hpc
  case h_1 => exact h.goto _ (by simp [LockPc.inLoop]) (by simp)
  case h_2 =>
    split
    · exact h.store _ _ (by simp [LockPc.inLoop]) (by simp)
    · exact h.goto _ (by simp [LockPc.inLoop]) (by simp)
  case h_3 =>
    rw [after_thread]
    exact ⟨fun _ ↦ le_rfl, le_rfl, by simp⟩
  case h_4 => exact h.goto _ (by split <;> simp [LockPc.inLoop]) (by split <;> simp)
  case h_5 =>
    split
    · exact h.store _ _ (by simp [LockPc.inLoop]) (by simp)
    · exact h.goto _ (by simp [LockPc.inLoop]) (by simp)
  case h_6 =>
    apply h.look _ (by simp [hpc, LockPc.inLoop])
    intro v hv
    split at hv
    · simp at hv
    · split at hv
      · simp at hv
      · rename_i hmarked
        have heq : state.word = v := by simpa using hv
        rw [← heq, or_waiters_of_marked hmarked]
  case h_7 =>
    split
    · exact h.store _ _ (by simp [LockPc.inLoop]) (by simp)
    · exact h.look _ (by simp [hpc, LockPc.inLoop]) (by simp)
  case h_8 =>
    split
    · exact h.store _ _ (by simp [hpc, LockPc.inLoop]) (by simp)
    · exact h.look _ (by simp [hpc, LockPc.inLoop]) (by simp)
  case h_9 v => exact h.goto _ (by simp [hpc, LockPc.inLoop]) (by simp [hsleep v (.inl hpc)])
  case h_10 v =>
    split
    · exact h.look _ (by simp [hpc, LockPc.inLoop]) (by simp)
    · -- The marked word is not what is there now, so what is there is seen from now on.
      rename_i hword
      have hseen : (state.thread thread).seen ≠ state.word := by
        rw [hsleep v (.inr hpc)]
        exact fun heq ↦ hword heq.symm
      rw [after_thread]
      refine ⟨fun _ ↦ ?_, ?_, by simp⟩
      · simp [LockThread.see, hseen]
      · simp [LockThread.see, hseen]
  case h_11 => exact h.goto _ (by simp [hpc, LockPc.inLoop]) (by split <;> simp)
  case h_12 => exact h.goto _ (by simp [hpc, LockPc.inLoop]) (by split <;> simp)
  case h_13 =>
    split
    · exact h.store _ _ (by simp [LockPc.inLoop]) (by simp)
    · exact h.look _ (by simp [hpc, LockPc.inLoop]) (by simp)
  case h_14 =>
    rw [after_thread]
    refine ⟨?_, h.seen_le, ?_⟩
    · dsimp only
      split <;> simp [LockPc.inLoop]
    · dsimp only
      split <;> simp
  case h_15 => exact h.goto _ (by simp [LockPc.inLoop]) (by simp)

/-- No step makes a waiter believe that it has waited longer than it has. -/
theorem waits_step {action : LockAction} (h : ∀ thread, (state.thread thread).Waits state.clock)
    (hstep : lockStep processes state action = some next) : ∀ thread, (next.thread thread).Waits next.clock := by
  intro other
  cases action with
  | move thread =>
    simp only [lockStep, Option.ite_none_right_eq_some, Option.some.injEq] at hstep
    obtain ⟨-, rfl⟩ := hstep
    obtain ⟨word, self, heq, -⟩ := moveThread_cases processes state thread
    have hclock : (moveThread processes state thread).clock = state.clock := by rw [heq, after_clock]
    rw [hclock]
    by_cases hother : other = thread
    · subst hother
      exact (h other).move
    · have hsame : (moveThread processes state thread).thread other = state.thread other := by
        rw [heq]
        exact Function.update_of_ne hother ..
      rw [hsame]
      exact h other
  | tick elapsed =>
    cases hstep
    exact ⟨(h other).since_le, (h other).seen_le.trans (Nat.le_add_right _ _), (h other).asleep⟩
  | kill pid =>
    simp only [lockStep, Option.ite_none_right_eq_some, Option.some.injEq] at hstep
    obtain ⟨-, rfl⟩ := hstep
    exact h other
  | reap pid =>
    simp only [lockStep, Option.ite_none_right_eq_some, Option.some.injEq] at hstep
    obtain ⟨-, rfl⟩ := hstep
    exact h other

/-- In every reachable state a waiter has waited since the first look at the word it still sees. -/
theorem waits_of_reachable (h : (lockMachine processes).Reachable state) (thread : ℕ) :
    (state.thread thread).Waits state.clock := by
  refine h.invariant (fun state ↦ ∀ thread, (state.thread thread).Waits state.clock) ?_ ?_ thread
  · exact fun _ ↦ ⟨by simp [lockMachine, LockState.start, LockPc.inLoop], le_rfl,
      by simp [lockMachine, LockState.start]⟩
  · exact fun _ _ _ hstate hstep ↦ waits_step hstate hstep

/-! ## The next attempt -/

/-- The steps of a waiter's next attempt, from its sleep or from the head of its loop. -/
def LockPc.attempt (word : UInt32) : LockPc → ℕ
  | .load => if word &&& waiters = 0 then 7 else 6
  | _ => 5

/-- The word names a killed process, and a live waiter of another one, asleep or at the head of
its loop, has seen that word for a whole `SLICE`. -/
structure Starving (processes : Processes) (state : LockState) (thread : ℕ) : Prop where
  live : state.life (processes.pid thread) = .live
  waits : (state.thread thread).pc = .load ∨ ∃ v, (state.thread thread).pc = .waiting v
  taken : state.word ≠ 0
  dead : state.life (holder state.word) ≠ .live
  seen : (state.thread thread).seen = state.word
  long : (state.thread thread).seenSince + slice ≤ state.clock

/-- The waiter's next attempt ends with the lock in its hands. -/
def TakesOver (processes : Processes) (state : LockState) (thread : ℕ) : Prop :=
  ∃ next, (lockMachine processes).runFrom state
      (List.replicate ((state.thread thread).pc.attempt state.word) (.move thread)) = some next ∧
    next.Holds processes thread

theorem moveThread_life (processes : Processes) (state : LockState) (thread : ℕ) :
    (moveThread processes state thread).life = state.life := by
  obtain ⟨word, self, heq, -⟩ := moveThread_cases processes state thread
  rw [heq, after_life]

/-- A live thread can always go on. -/
theorem runFrom_moves (hlive : state.life (processes.pid thread) = .live) (moves : ℕ) :
    (lockMachine processes).runFrom state (List.replicate moves (.move thread)) =
      some ((moveThread processes · thread)^[moves] state) := by
  induction moves generalizing state with
  | zero => rfl
  | succ moves ih =>
    have hstep : (lockMachine processes).step state (.move thread) = some (moveThread processes state thread) :=
      if_pos hlive
    rw [List.replicate_succ, Machine.runFrom_step hstep rfl, Function.iterate_succ_apply]
    apply ih
    rw [moveThread_life, hlive]

/-- The last five steps: wake up, look again, judge the time, probe the holder, take over. -/
theorem takes_of_waiting {v : UInt32} (hlive : state.life (processes.pid thread) = .live)
    (hpc : (state.thread thread).pc = .waiting v) (hword : state.word = v ||| waiters)
    (hother : holder v ≠ processes.pid thread)
    (hsince : (state.thread thread).since + slice ≤ state.clock) :
    LockState.Holds processes ((moveThread processes · thread)^[5] state) thread ↔
      (state.life (holder v)).pidAlive = false := by
  have hprobe : (moveThread processes · thread)^[3] state =
      state.after thread state.word { (state.thread thread).see state.word state.clock with pc := .probe v } := by
    simp [moveThread, LockState.goto, LockState.look, LockThread.see, hpc, hword, hother, hsince]
  rw [show 5 = 2 + 3 from rfl, Function.iterate_add_apply, hprobe]
  cases halive : (state.life (holder v)).pidAlive with
  | true =>
    -- The holder answers: back to the head of the loop.
    rw [iff_false_right (by simp)]
    rintro ⟨-, hheld⟩
    simp only [Function.iterate_succ, Function.iterate_zero, Function.comp_apply, id_eq, moveThread, after_thread,
      LockState.goto, LockState.look, after_after, after_life, after_word, halive, if_true] at hheld
    by_cases hzero : state.word = 0
    · simp [hzero] at hheld
    · by_cases hmark : state.word &&& waiters = 0 <;> simp [hzero, hmark] at hheld
  | false =>
    simp [moveThread, LockState.goto, LockState.store, LockState.Holds, halive, hword, hlive]

/-- A starving waiter is not itself the holder. -/
theorem Starving.other (h : Starving processes state thread) : holder state.word ≠ processes.pid thread := by
  intro heq
  apply h.dead
  rw [heq, h.live]

/-- The attempt comes down to what `pid_alive` says of the holder. -/
theorem Starving.takesOver_iff (hstarving : Starving processes state thread)
    (h : (lockMachine processes).Reachable state) :
    TakesOver processes state thread ↔ (state.life (holder state.word)).pidAlive = false := by
  have hwaits := waits_of_reachable h thread
  have hsince : (state.thread thread).since + slice ≤ state.clock := by
    have hle := hwaits.since_le (by rcases hstarving.waits with hpc | ⟨v, hpc⟩ <;> rw [hpc] <;> rfl)
    exact (Nat.add_le_add_right hle slice).trans hstarving.long
  have hruns : TakesOver processes state thread ↔ LockState.Holds processes
      ((moveThread processes · thread)^[(state.thread thread).pc.attempt state.word] state) thread := by
    rw [TakesOver, runFrom_moves hstarving.live]
    simp
  rw [hruns]
  rcases hstarving.waits with hpc | ⟨v, hpc⟩
  · -- From the head of the loop the word is looked at, and marked if it is not, before the sleep.
    rw [hpc, LockPc.attempt]
    by_cases hmark : state.word &&& waiters = 0
    · rw [if_pos hmark, show 7 = 5 + 2 from rfl, Function.iterate_add_apply]
      have hsleep : (moveThread processes · thread)^[2] state = (state.look thread (.mark state.word)).store thread
          (state.word ||| waiters) (.waiting state.word) := by
        simp [moveThread, hpc, hmark, hstarving.taken, LockState.look]
      rw [hsleep]
      refine takes_of_waiting ?_ ?_ ?_ ?_ ?_
      · exact hstarving.live
      · simp [LockState.store]
      · rfl
      · exact hstarving.other
      · simpa [LockState.look, LockState.store, LockThread.see] using hsince
    · rw [if_neg hmark, show 6 = 5 + 1 from rfl, Function.iterate_add_apply]
      have hsleep : (moveThread processes · thread)^[1] state = state.look thread (.waiting state.word) := by
        simp [moveThread, hpc, hmark, hstarving.taken]
      rw [hsleep]
      refine takes_of_waiting ?_ ?_ ?_ ?_ ?_
      · exact hstarving.live
      · simp [LockState.look]
      · exact (or_waiters_of_marked hmark).symm
      · exact hstarving.other
      · simpa [LockState.look, LockThread.see] using hsince
  · have hword : state.word = v ||| waiters := by rw [← hstarving.seen, hwaits.asleep v (.inl hpc)]
    have hholder : holder state.word = holder v := by rw [hword, holder_or_waiters]
    rw [hholder, hpc]
    apply takes_of_waiting hstarving.live hpc hword _ hsince
    rw [← hholder]
    exact hstarving.other

theorem Life.pidAlive_eq_false_iff (life : Life) : life.pidAlive = false ↔ life = .reaped := by
  cases life <;> simp [Life.pidAlive]

/-- A starving waiter's next attempt takes the lock over exactly if the killed holder is reaped. -/
theorem takesOver_iff_reaped (h : (lockMachine processes).Reachable state)
    (hstarving : Starving processes state thread) :
    TakesOver processes state thread ↔ state.life (holder state.word) = .reaped := by
  rw [hstarving.takesOver_iff h, Life.pidAlive_eq_false_iff]

/-- What `Starving` asks of thread 1 in process 2. -/
structure Glimpse where
  live : Life
  pc : LockPc
  word : UInt32
  dead : Life
  seen : UInt32
  seenSince : ℕ
  clock : ℕ
  deriving DecidableEq

def glimpse (state : LockState) : Glimpse where
  live := state.life 2
  pc := (state.thread 1).pc
  word := state.word
  dead := state.life (holder state.word)
  seen := (state.thread 1).seen
  seenSince := (state.thread 1).seenSince
  clock := state.clock

def starved (life : Life) : Glimpse where
  live := .live
  pc := .waiting 1
  word := 1 ||| waiters
  dead := life
  seen := 1 ||| waiters
  seenSince := 0
  clock := slice

theorem starving_of_run {actions : List LockAction} {life : Life} (hlife : life ≠ .live)
    (hrun : ((lockMachine twoProcesses).runFrom .start actions).map glimpse = some (starved life)) :
    ∃ state, (lockMachine twoProcesses).Reachable state ∧ Starving twoProcesses state 1 ∧
      state.life (holder state.word) = life := by
  obtain ⟨state, hstate, hglimpse⟩ := Option.map_eq_some_iff.mp hrun
  simp only [glimpse, starved, Glimpse.mk.injEq] at hglimpse
  obtain ⟨hlive, hpc, hword, hholder, hseen, hsince, hclock⟩ := hglimpse
  refine ⟨state, ⟨actions, hstate⟩, ?_, hholder⟩
  exact
    { live := hlive
      waits := .inr ⟨1, hpc⟩
      taken := by rw [hword]; decide
      dead := by rw [hholder]; exact hlife
      seen := hseen.trans hword.symm
      long := by rw [hsince, hclock, Nat.zero_add] }

/-- A holder that was killed and waited for: the starving waiter takes over. -/
theorem takesOver_iff_reaped_parentWaited : ∃ state, (lockMachine twoProcesses).Reachable state ∧
    Starving twoProcesses state 1 ∧
    (TakesOver twoProcesses state 1 ↔ state.life (holder state.word) = .reaped) := by
  have hrun : ((lockMachine twoProcesses).runFrom .start (killedHolder ++ [LockAction.reap 1])).map glimpse =
      some (starved .reaped) := by
    decide
  obtain ⟨state, hreachable, hstarving, -⟩ := starving_of_run (by simp) hrun
  exact ⟨state, hreachable, hstarving, takesOver_iff_reaped hreachable hstarving⟩

/-- A killed holder that its parent has not waited for keeps the lock. -/
theorem not_takesOver : ¬∀ (processes : Processes) (state : LockState) (thread : ℕ),
    (lockMachine processes).Reachable state → Starving processes state thread →
      TakesOver processes state thread := by
  intro hall
  have hrun : ((lockMachine twoProcesses).runFrom .start killedHolder).map glimpse = some (starved .killed) := by
    decide
  obtain ⟨state, hreachable, hstarving, hkilled⟩ := starving_of_run (by simp) hrun
  have htakes := hall twoProcesses state 1 hreachable hstarving
  rw [hstarving.takesOver_iff hreachable, hkilled] at htakes
  cases htakes

end GpuPipe.Sys
