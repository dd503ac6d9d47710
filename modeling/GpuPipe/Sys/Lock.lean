import Mathlib.Data.Nat.Notation
import Mathlib.Data.Set.Subsingleton
import Mathlib.Data.UInt
import Mathlib.Logic.Function.Basic
import GpuPipe.Library.Machine

/-!
# The process-shared lock

`lock` and `unlock` of `sys.rs`, one step for each load, compare-exchange, swap, futex wait and
`kill(pid, 0)`. The word is 0 when free, else the holder's pid with the `WAITERS` bit. A thread
has one next step; what is left to the actions is who moves, how the clock runs, and when
processes are killed and reaped. A futex wait may return at any moment. `seen` and `seenSince`
are history: the word a waiter has last seen, and since when it has seen no other.
-/

namespace GpuPipe.Sys

/-- The top bit of the lock word. -/
def waiters : UInt32 := (1 : UInt32) <<< 31

def slice : ℕ := 50

def spin : ℕ := 64

/-- The pid that a lock word names: `v & !WAITERS`. -/
def holder (word : UInt32) : UInt32 := word &&& ~~~waiters

/-- The process each thread runs in, with the pid it passes to `lock`. -/
structure Processes where
  pid : ℕ → UInt32
  pid_ne : ∀ thread, pid thread ≠ 0
  pid_lt : ∀ thread, pid thread < 2 ^ 31

/-- A killed process keeps its pid until its parent has waited for it. -/
inductive Life
  | live
  | killed
  | reaped
  deriving DecidableEq

/-- `pid_alive`: `kill(pid, 0)` fails with `ESRCH` only once the pid is gone. -/
def Life.pidAlive : Life → Bool
  | .live | .killed => true
  | .reaped => false

/-- Where a thread stands: outside, in the fast path, spinning, in the wait loop (from `load` to
`seize`), between the return of `lock` and `unlock`, or before the wake of `unlock`. -/
inductive LockPc
  | idle
  | fast
  | spin (left : ℕ)
  | spinCas (left : ℕ)
  | load
  | grab
  | mark (v : UInt32)
  | waiting (v : UInt32)
  | recheck (v : UInt32)
  | judge (v : UInt32)
  | probe (v : UInt32)
  | seize (v : UInt32)
  | held
  | waking
  deriving DecidableEq

structure LockThread where
  pc : LockPc
  since : ℕ
  seen : UInt32
  seenSince : ℕ

structure LockState where
  word : UInt32
  clock : ℕ
  life : UInt32 → Life
  thread : ℕ → LockThread

def LockState.start : LockState where
  word := 0
  clock := 0
  life := fun _ ↦ .live
  thread := fun _ ↦ { pc := .idle, since := 0, seen := 0, seenSince := 0 }

inductive LockAction
  | move (thread : ℕ)
  | tick (elapsed : ℕ)
  | kill (pid : UInt32)
  | reap (pid : UInt32)

def LockThread.see (self : LockThread) (word : UInt32) (clock : ℕ) : LockThread :=
  { self with seen := word, seenSince := if self.seen = word then self.seenSince else clock }

section Steps

variable (processes : Processes) (state : LockState) (thread : ℕ)

/-- The word and one thread's own state after a step of that thread. -/
def LockState.after (word : UInt32) (self : LockThread) : LockState :=
  { state with word := word, thread := Function.update state.thread thread self }

/-- Move on without a look at the word. -/
def LockState.goto (pc : LockPc) : LockState :=
  state.after thread state.word { state.thread thread with pc := pc }

/-- Look at the word, then move on. -/
def LockState.look (pc : LockPc) : LockState :=
  state.after thread state.word { (state.thread thread).see state.word state.clock with pc := pc }

/-- A successful compare-exchange. -/
def LockState.store (word : UInt32) (pc : LockPc) : LockState :=
  state.after thread word { (state.thread thread).see word state.clock with pc := pc }

def moveThread : LockState :=
  let me := processes.pid thread
  match (state.thread thread).pc with
  | .idle => state.goto thread .fast
  | .fast => if state.word = 0 then state.store thread me .held else state.goto thread (.spin spin)
  | .spin 0 =>
    -- `since` is read before the first load of the wait loop.
    state.after thread state.word { pc := .load, since := state.clock, seen := 0, seenSince := state.clock }
  | .spin (left + 1) => state.goto thread (if state.word = 0 then .spinCas left else .spin left)
  | .spinCas left => if state.word = 0 then state.store thread me .held else state.goto thread (.spin left)
  | .load =>
    state.look thread
      (if state.word = 0 then .grab
      else if state.word &&& waiters = 0 then .mark state.word
      else .waiting state.word)
  | .grab => if state.word = 0 then state.store thread (me ||| waiters) .held else state.look thread .load
  | .mark v => if state.word = v then state.store thread (v ||| waiters) (.waiting v) else state.look thread .load
  | .waiting v => state.goto thread (.recheck v)
  | .recheck v =>
    if state.word = v ||| waiters then state.look thread (.judge v)
    else
      state.after thread state.word
        { (state.thread thread).see state.word state.clock with pc := .load, since := state.clock }
  | .judge v =>
    state.goto thread
      (if (state.thread thread).since + slice ≤ state.clock ∧ holder v ≠ me then .probe v else .load)
  | .probe v => state.goto thread (if (state.life (holder v)).pidAlive then .load else .seize v)
  | .seize v =>
    if state.word = v ||| waiters then state.store thread (me ||| waiters) .held else state.look thread .load
  | .held =>
    state.after thread 0
      { state.thread thread with pc := if state.word &&& waiters = 0 then .idle else .waking }
  | .waking => state.goto thread .idle

/-- Only threads of a live process move; a killed process stays in the process table until it is
reaped, and its pid is not used again. -/
def lockStep : LockAction → Option LockState
  | .move thread =>
    if state.life (processes.pid thread) = .live then some (moveThread processes state thread) else none
  | .tick elapsed => some { state with clock := state.clock + elapsed }
  | .kill pid =>
    if state.life pid = .live then some { state with life := Function.update state.life pid .killed } else none
  | .reap pid =>
    if state.life pid = .killed then some { state with life := Function.update state.life pid .reaped } else none

end Steps

def lockMachine (processes : Processes) : Machine LockState LockAction where
  start := .start
  step := lockStep processes

/-! ## The lock word -/

@[simp] theorem holder_zero : holder 0 = 0 := UInt32.zero_and

@[simp] theorem holder_or_waiters (v : UInt32) : holder (v ||| waiters) = holder v := by
  apply UInt32.toBitVec_inj.mp
  simp only [holder, UInt32.toBitVec_and, UInt32.toBitVec_or, UInt32.toBitVec_not]
  ext i hi
  simp only [BitVec.getElem_and, BitVec.getElem_or, BitVec.getElem_not]
  cases waiters.toBitVec[i] <;> simp

theorem holder_pid (processes : Processes) (thread : ℕ) :
    holder (processes.pid thread) = processes.pid thread := by
  have hbits : ~~~waiters = 0x7fffffff := by decide
  have hlt : (processes.pid thread).toNat < 2 ^ 31 := UInt32.lt_iff_toNat_lt.mp (processes.pid_lt thread)
  apply UInt32.toNat_inj.mp
  rw [holder, hbits, UInt32.toNat_and]
  exact Nat.and_two_pow_sub_one_of_lt_two_pow hlt

/-! ## Mutual exclusion -/

section Exclusion

variable {processes : Processes} {state next : LockState} {thread : ℕ}

/-- A live thread between the return of `lock` and its `unlock`. -/
def LockState.Holds (processes : Processes) (state : LockState) (thread : ℕ) : Prop :=
  state.life (processes.pid thread) = .live ∧ (state.thread thread).pc = .held

/-- The word names every live holder, there is one at most, and a process found dead is gone. -/
structure LockInv (processes : Processes) (state : LockState) : Prop where
  named : ∀ thread, state.Holds processes thread → holder state.word = processes.pid thread
  single : ∀ first second, state.Holds processes first → state.Holds processes second → first = second
  gone : ∀ thread v, (state.thread thread).pc = .seize v → state.life (holder v) = .reaped

/-- What a thread's step does to the word: it keeps the holder, takes a free word or one of a
process found dead, or frees its own. -/
theorem moveThread_cases (processes : Processes) (state : LockState) (thread : ℕ) :
    ∃ word self, moveThread processes state thread = state.after thread word self ∧
      ((holder word = holder state.word ∧ self.pc ≠ .held ∧
          ∀ v, self.pc = .seize v → state.life (holder v) = .reaped) ∨
        (holder word = processes.pid thread ∧ self.pc = .held ∧
          (state.word = 0 ∨ ∃ v, (state.thread thread).pc = .seize v ∧ holder state.word = holder v)) ∨
        ((state.thread thread).pc = .held ∧ self.pc ≠ .held ∧ ∀ v, self.pc ≠ .seize v)) := by
  have hme := holder_pid processes thread
  unfold moveThread
  split
  case h_1 => exact ⟨_, _, rfl, .inl ⟨rfl, by simp, by simp⟩⟩
  case h_2 =>
    split
    · rename_i hfree
      exact ⟨_, _, rfl, .inr (.inl ⟨hme, rfl, .inl hfree⟩)⟩
    · exact ⟨_, _, rfl, .inl ⟨rfl, by simp, by simp⟩⟩
  case h_3 => exact ⟨_, _, rfl, .inl ⟨rfl, by simp, by simp⟩⟩
  case h_4 =>
    refine ⟨_, _, rfl, .inl ⟨rfl, ?_, ?_⟩⟩
    · dsimp only
      split <;> simp
    · intro v hv
      dsimp only at hv
      split at hv <;> simp at hv
  case h_5 =>
    split
    · rename_i hfree
      exact ⟨_, _, rfl, .inr (.inl ⟨hme, rfl, .inl hfree⟩)⟩
    · exact ⟨_, _, rfl, .inl ⟨rfl, by simp, by simp⟩⟩
  case h_6 =>
    refine ⟨_, _, rfl, .inl ⟨rfl, ?_, ?_⟩⟩
    · dsimp only
      split
      · simp
      · split <;> simp
    · intro v hv
      dsimp only at hv
      split at hv
      · simp at hv
      · split at hv <;> simp at hv
  case h_7 =>
    split
    · rename_i hfree
      exact ⟨_, _, rfl, .inr (.inl ⟨by rw [holder_or_waiters, hme], rfl, .inl hfree⟩)⟩
    · exact ⟨_, _, rfl, .inl ⟨rfl, by simp, by simp⟩⟩
  case h_8 v _ =>
    split
    · rename_i hword
      exact ⟨_, _, rfl, .inl ⟨by rw [holder_or_waiters, hword], by simp, by simp⟩⟩
    · exact ⟨_, _, rfl, .inl ⟨rfl, by simp, by simp⟩⟩
  case h_9 => exact ⟨_, _, rfl, .inl ⟨rfl, by simp, by simp⟩⟩
  case h_10 =>
    split
    · exact ⟨_, _, rfl, .inl ⟨rfl, by simp, by simp⟩⟩
    · exact ⟨_, _, rfl, .inl ⟨rfl, by simp, by simp⟩⟩
  case h_11 =>
    refine ⟨_, _, rfl, .inl ⟨rfl, ?_, ?_⟩⟩
    · dsimp only
      split <;> simp
    · intro v hv
      dsimp only at hv
      split at hv <;> simp at hv
  case h_12 v _ =>
    refine ⟨_, _, rfl, .inl ⟨rfl, ?_, ?_⟩⟩
    · dsimp only
      split <;> simp
    · intro v' hv
      dsimp only at hv
      split at hv
      · simp at hv
      · rename_i hdead
        cases hv
        cases hlife : state.life (holder v) <;> simp_all [Life.pidAlive]
  case h_13 v hpc =>
    split
    · rename_i hword
      refine ⟨_, _, rfl, .inr (.inl ⟨by rw [holder_or_waiters, hme], rfl, .inr ⟨v, hpc, ?_⟩⟩)⟩
      rw [hword, holder_or_waiters]
    · exact ⟨_, _, rfl, .inl ⟨rfl, by simp, by simp⟩⟩
  case h_14 hpc =>
    refine ⟨_, _, rfl, .inr (.inr ⟨hpc, ?_, ?_⟩)⟩
    · dsimp only
      split <;> simp
    · intro v
      dsimp only
      split <;> simp
  case h_15 => exact ⟨_, _, rfl, .inl ⟨rfl, by simp, by simp⟩⟩

theorem lockInv_start (processes : Processes) : LockInv processes .start := by
  constructor <;> simp [LockState.Holds, LockState.start]

/-- Nobody holds a lock whose word is free or names a process that is gone. -/
theorem LockInv.not_holds (h : LockInv processes state)
    (hword : state.word = 0 ∨ state.life (holder state.word) = .reaped) :
    ¬state.Holds processes thread := by
  intro hholds
  have hnamed := h.named thread hholds
  rcases hword with hfree | hdead
  · rw [hfree, holder_zero] at hnamed
    exact processes.pid_ne thread hnamed.symm
  · rw [hnamed, hholds.1] at hdead
    cases hdead

/-- Who holds the lock after a step of one thread. -/
theorem holds_after {word : UInt32} {self : LockThread} {other : ℕ}
    (h : (state.after thread word self).Holds processes other) :
    (other = thread ∧ self.pc = .held) ∨ (other ≠ thread ∧ state.Holds processes other) := by
  obtain ⟨hlive, hpc⟩ := h
  simp only [LockState.after] at hlive hpc
  by_cases hother : other = thread
  · subst hother
    rw [Function.update_self] at hpc
    exact .inl ⟨rfl, hpc⟩
  · rw [Function.update_of_ne hother] at hpc
    exact .inr ⟨hother, hlive, hpc⟩

/-- A move takes the lock only if it is free or its holder is gone. -/
theorem LockInv.move (h : LockInv processes state) (hlive : state.life (processes.pid thread) = .live) :
    LockInv processes (moveThread processes state thread) := by
  obtain ⟨word, self, heq, hcases⟩ := moveThread_cases processes state thread
  rw [heq]
  have hgone (hself : ∀ v, self.pc = .seize v → state.life (holder v) = .reaped) (other : ℕ) (v : UInt32)
      (hpc : (Function.update state.thread thread self other).pc = .seize v) :
      state.life (holder v) = .reaped := by
    by_cases hother : other = thread
    · subst hother
      rw [Function.update_self] at hpc
      exact hself v hpc
    · rw [Function.update_of_ne hother] at hpc
      exact h.gone other v hpc
  rcases hcases with ⟨hword, hpc, hself⟩ | ⟨hword, hpc, htaken⟩ | ⟨hheld, hpc, hself⟩
  · -- The holder stays: whoever holds the lock held it before.
    have hbefore (other : ℕ) (hholds : (state.after thread word self).Holds processes other) :
        state.Holds processes other := by
      rcases holds_after hholds with ⟨-, hfalse⟩ | ⟨-, hother⟩
      · exact absurd hfalse hpc
      · exact hother
    exact
      { named := fun other hother ↦ hword.trans (h.named other (hbefore other hother))
        single := fun first second hfirst hsecond ↦ h.single first second (hbefore _ hfirst) (hbefore _ hsecond)
        gone := hgone hself }
  · -- The lock is taken: nobody held it before.
    have hnone (other : ℕ) : ¬state.Holds processes other := by
      apply h.not_holds
      rcases htaken with hfree | ⟨v, hseize, hholder⟩
      · exact .inl hfree
      · exact .inr (hholder ▸ h.gone thread v hseize)
    have honly (other : ℕ) (hholds : (state.after thread word self).Holds processes other) : other = thread := by
      rcases holds_after hholds with ⟨hother, -⟩ | ⟨-, hother⟩
      · exact hother
      · exact absurd hother (hnone other)
    exact
      { named := fun other hother ↦ by rw [honly other hother]; exact hword
        single := fun first second hfirst hsecond ↦ (honly first hfirst).trans (honly second hsecond).symm
        gone := hgone fun v hv ↦ by rw [hpc] at hv; cases hv }
  · -- The lock is freed: its only holder was this thread.
    have hnone (other : ℕ) : ¬(state.after thread word self).Holds processes other := by
      intro hholds
      rcases holds_after hholds with ⟨-, hfalse⟩ | ⟨hne, hother⟩
      · exact hpc hfalse
      · exact hne (h.single other thread hother ⟨hlive, hheld⟩)
    exact
      { named := fun other hother ↦ absurd hother (hnone other)
        single := fun first second hfirst _ ↦ absurd hfirst (hnone first)
        gone := hgone fun v hv ↦ absurd hv (hself v) }

/-- A death takes holders away and leaves what is gone gone. -/
theorem LockInv.dies (h : LockInv processes state) {pid : UInt32} {life : Life} (hlife : life ≠ .live)
    (hpid : state.life pid ≠ .reaped) :
    LockInv processes { state with life := Function.update state.life pid life } := by
  have hbefore (other : ℕ)
      (hholds : LockState.Holds processes { state with life := Function.update state.life pid life } other) :
      state.Holds processes other := by
    obtain ⟨hlive, hpc⟩ := hholds
    refine ⟨?_, hpc⟩
    dsimp only at hlive
    by_cases hother : processes.pid other = pid
    · rw [hother, Function.update_self] at hlive
      exact absurd hlive hlife
    · rwa [Function.update_of_ne hother] at hlive
  refine
    { named := fun other hother ↦ h.named other (hbefore other hother)
      single := fun first second hfirst hsecond ↦ h.single first second (hbefore _ hfirst) (hbefore _ hsecond)
      gone := fun other v hpc ↦ ?_ }
  have hgone := h.gone other v hpc
  dsimp only
  rw [Function.update_of_ne]
  · exact hgone
  · rintro rfl
    exact hpid hgone

/-- What every step preserves: moves, time, deaths and reaping. -/
theorem LockInv.step (h : LockInv processes state) {action : LockAction}
    (hstep : lockStep processes state action = some next) : LockInv processes next := by
  cases action with
  | move thread =>
    simp only [lockStep, Option.ite_none_right_eq_some, Option.some.injEq] at hstep
    obtain ⟨hlive, rfl⟩ := hstep
    exact h.move hlive
  | tick elapsed =>
    cases hstep
    exact ⟨h.named, h.single, h.gone⟩
  | kill pid =>
    simp only [lockStep, Option.ite_none_right_eq_some, Option.some.injEq] at hstep
    obtain ⟨hlive, rfl⟩ := hstep
    exact h.dies (by simp) (by simp [hlive])
  | reap pid =>
    simp only [lockStep, Option.ite_none_right_eq_some, Option.some.injEq] at hstep
    obtain ⟨hkilled, rfl⟩ := hstep
    exact h.dies (by simp) (by simp [hkilled])

/-- At most one live thread is ever between the return of `lock` and its `unlock`. -/
theorem lock_exclusive (h : (lockMachine processes).Reachable state) :
    {thread | state.Holds processes thread}.Subsingleton := by
  have hinv : LockInv processes state :=
    h.invariant (LockInv processes) (lockInv_start processes) fun _ _ _ hstate hstep ↦ hstate.step hstep
  exact fun first hfirst second hsecond ↦ hinv.single first second hfirst hsecond

end Exclusion

/-! ## A takeover -/

def twoProcesses : Processes where
  pid := fun thread ↦ if thread = 0 then 1 else 2
  pid_ne := by
    intro thread
    split <;> decide
  pid_lt := by
    intro thread
    split <;> decide

/-- Process 1 is killed while it holds the lock; a waiter of process 2 marks the word and sleeps
for a slice. -/
def killedHolder : List LockAction :=
  [LockAction.move 0, .move 0, .kill 1] ++ List.replicate (spin + 5) (LockAction.move 1) ++ [LockAction.tick slice]

/-- Once the holder is reaped, the waiter wakes up, looks again, judges the time, probes the
holder and takes over. -/
def takeoverRun : List LockAction := killedHolder ++ [LockAction.reap 1] ++ List.replicate 5 (LockAction.move 1)

/-- A waiter has taken the lock over from a dead holder and is its only holder. -/
theorem lock_exclusive_takeover : ∃ state, (lockMachine twoProcesses).Reachable state ∧
    state.Holds twoProcesses 1 ∧ {thread | state.Holds twoProcesses thread}.Subsingleton := by
  have hrun : ((lockMachine twoProcesses).runFrom .start takeoverRun).map
      (fun state ↦ (state.life 2, (state.thread 1).pc)) = some (.live, .held) := by
    decide
  obtain ⟨state, hstate, hholds⟩ := Option.map_eq_some_iff.mp hrun
  have hreachable : (lockMachine twoProcesses).Reachable state := ⟨takeoverRun, hstate⟩
  rw [Prod.mk.injEq] at hholds
  exact ⟨state, hreachable, hholds, lock_exclusive hreachable⟩

end GpuPipe.Sys
