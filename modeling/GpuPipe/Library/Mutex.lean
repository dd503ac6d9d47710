import Mathlib.Order.Basic

/-!
# A lock that outlives its holders

Threads enter their critical sections by taking a lock, and a lock whose holder is dead may be taken over.
So a dead thread may be inside beside the holder, but no two live ones are.
-/

namespace GpuPipe

section Mutex

variable {ι : Type*} {alive locked locked' : ι → Bool} {lock lock' : Option ι} {thread other : ι}

/-- While it lives, a thread in a critical section holds the lock. -/
def LockHeld (alive locked : ι → Bool) (lock : Option ι) : Prop :=
  ∀ thread, alive thread = true → locked thread = true → lock = some thread

/-- The lock is free, or its holder is dead. -/
def LockFree (alive : ι → Bool) (lock : Option ι) : Prop :=
  ∀ holder, lock = some holder → alive holder = false

/-- What a thread's step does with the lock. -/
inductive LockStep (alive locked locked' : ι → Bool) (lock lock' : Option ι) (thread : ι) : Prop
  | keeps (hlock : lock' = lock) (hlocked : locked' thread = true → locked thread = true)
  | takes (hfree : LockFree alive lock) (hlock : lock' = some thread)
  | frees (hfree : locked thread = true ∨ LockFree alive lock) (hlocked : locked' thread = false)

theorem LockHeld.alone (h : LockHeld alive locked lock) (halive : alive thread = true)
    (hlocked : locked thread = true) (hne : other ≠ thread) (hother : alive other = true) :
    locked other = false := by
  by_contra hcontra
  have hmine := h thread halive hlocked
  have htheirs := h other hother (by simpa using hcontra)
  rw [hmine, Option.some.injEq] at htheirs
  exact hne htheirs.symm

theorem LockHeld.unheld (h : LockHeld alive locked lock) (hfree : LockFree alive lock)
    (hother : alive other = true) : locked other = false := by
  by_contra hcontra
  have hdead := hfree other (h other hother (by simpa using hcontra))
  rw [hdead] at hother
  cases hother

/-- A live thread's step leaves at most one live thread inside. -/
theorem LockHeld.step (h : LockHeld alive locked lock) (halive : alive thread = true)
    (hothers : ∀ other, other ≠ thread → locked' other = locked other)
    (hstep : LockStep alive locked locked' lock lock' thread) : LockHeld alive locked' lock' := by
  intro other hother hlocked
  rcases eq_or_ne other thread with rfl | hne
  · cases hstep with
    | keeps hlock hkeeps =>
      rw [hlock]
      exact h other hother (hkeeps hlocked)
    | takes _ hlock => exact hlock
    | frees _ hout =>
      rw [hout] at hlocked
      cases hlocked
  · rw [hothers other hne] at hlocked
    have hunlocked (hfree : locked thread = true ∨ LockFree alive lock) : locked other = false := by
      rcases hfree with hmine | hfree
      · exact h.alone halive hmine hne hother
      · exact h.unheld hfree hother
    cases hstep with
    | keeps hlock _ =>
      rw [hlock]
      exact h other hother hlocked
    | takes hfree =>
      rw [hunlocked (.inr hfree)] at hlocked
      cases hlocked
    | frees hfree =>
      rw [hunlocked hfree] at hlocked
      cases hlocked

/-- Deaths only take obligations away. -/
theorem LockHeld.die {alive' : ι → Bool} (h : LockHeld alive locked lock)
    (hdie : ∀ thread, alive' thread = true → alive thread = true) : LockHeld alive' locked lock :=
  fun thread halive hlocked ↦ h thread (hdie thread halive) hlocked

end Mutex

end GpuPipe
