import Mathlib.Data.List.Perm.Basic
import Mathlib.Data.List.ReduceOption
import Mathlib.Logic.Function.Basic

/-!
# Reference counts

Every object has a counter, and the counters are right for a list of holders if each object is counted once for
each of its occurrences. Holders come and go; who holds what in which order does not matter.
-/

namespace GpuPipe

namespace References

variable {Object : Type*} [DecidableEq Object]

def retain (counts : Object → ℕ) (object : Object) : Object → ℕ :=
  Function.update counts object (counts object + 1)

def release (counts : Object → ℕ) (object : Object) : Object → ℕ :=
  Function.update counts object (counts object - 1)

@[simp] theorem release_retain (counts : Object → ℕ) (object : Object) :
    release (retain counts object) object = counts := by
  simp [release, retain]

/-- The counters are right for these holders. -/
def Counts (counts : Object → ℕ) (holders : List Object) : Prop :=
  ∀ object, counts object = holders.count object

variable {counts : Object → ℕ} {holders : List Object} {object : Object}

theorem counts_nil : Counts (fun _ : Object ↦ 0) [] := fun _ ↦ rfl

theorem Counts.perm (h : Counts counts holders) {other : List Object} (hperm : other.Perm holders) :
    Counts counts other := fun object ↦ (h object).trans (hperm.count_eq object).symm

theorem Counts.retain (h : Counts counts holders) (object : Object) :
    Counts (retain counts object) (object :: holders) := by
  intro other
  by_cases hsame : other = object
  · rw [hsame, References.retain, Function.update_self, List.count_cons_self, h]
  · rw [References.retain, Function.update_of_ne hsame, List.count_cons_of_ne (Ne.symm hsame), h]

theorem Counts.release (h : Counts counts (object :: holders)) : Counts (release counts object) holders := by
  intro other
  by_cases hsame : other = object
  · rw [hsame, References.release, Function.update_self, h, List.count_cons_self, Nat.add_sub_cancel]
  · rw [References.release, Function.update_of_ne hsame, h, List.count_cons_of_ne (Ne.symm hsame)]

theorem Counts.pos (h : Counts counts holders) (hmem : object ∈ holders) : 0 < counts object := by
  rw [h]
  exact List.count_pos_iff.mpr hmem

theorem Counts.notMem (h : Counts counts holders) (hzero : counts object = 0) : object ∉ holders :=
  fun hmem ↦ (Nat.ne_of_gt (h.pos hmem)) hzero

/-- The first reference. -/
theorem Counts.first (h : Counts counts holders) (hzero : counts object = 0) :
    Counts (Function.update counts object 1) (object :: holders) := by
  have hretain := h.retain object
  rwa [References.retain, hzero] at hretain

end References

/-- One entry of a table comes. -/
theorem reduceOption_append_some {α : Type*} (table : List (Option α)) (entry : α) :
    (table ++ [some entry]).reduceOption = table.reduceOption ++ [entry] := List.reduceOption_append _ _

/-- One entry of a table goes. -/
theorem reduceOption_set_none {α : Type*} {table : List (Option α)} {place : ℕ} {entry : α}
    (h : table[place]? = some (some entry)) :
    table.reduceOption.Perm (entry :: (table.set place none).reduceOption) := by
  induction table generalizing place with
  | nil => simp at h
  | cons first rest ih =>
    cases place with
    | zero =>
      rw [List.getElem?_cons_zero, Option.some_inj] at h
      rw [h, List.set_cons_zero, List.reduceOption_cons_of_some, List.reduceOption_cons_of_none]
    | succ place =>
      have hrest := ih (List.getElem?_cons_succ.symm.trans h)
      rw [List.set_cons_succ]
      cases first with
      | none =>
        rw [List.reduceOption_cons_of_none, List.reduceOption_cons_of_none]
        exact hrest
      | some other =>
        rw [List.reduceOption_cons_of_some, List.reduceOption_cons_of_some]
        exact (hrest.cons other).trans (.swap _ _ _)

theorem mem_of_set_none {α : Type*} {table : List (Option α)} {place : ℕ} {entry : α}
    (h : some entry ∈ table.set place none) : some entry ∈ table :=
  (List.mem_or_eq_of_mem_set h).resolve_right (Option.some_ne_none entry)

end GpuPipe
