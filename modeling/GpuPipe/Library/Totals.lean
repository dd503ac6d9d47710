import Mathlib.Algebra.BigOperators.Finprod
import Mathlib.Algebra.BigOperators.Fin
import Mathlib.Tactic.Abel

/-!
# Totals of a family

The total of what each index contributes, when one index changes: over a finite type, and over any
type as long as all but finitely many indices contribute nothing.
-/

namespace GpuPipe

section Totals

variable {ι α M : Type*} [DecidableEq ι] [AddCommMonoid M]

/-- One index changes: its old part leaves the total and its new part enters. -/
theorem sum_update_comp [Fintype ι] (part : α → M) (family : ι → α) (index : ι) (value : α) :
    ∑ other, part (Function.update family index value other) + part (family index) =
      ∑ other, part (family other) + part value := by
  have hcomp : ∀ other, part (Function.update family index value other) =
      Function.update (fun other ↦ part (family other)) index (part value) other :=
    Function.apply_update (fun _ ↦ part) family index value
  simp only [hcomp]
  rw [Finset.sum_update_of_mem (Finset.mem_univ index),
    ← Finset.add_sum_erase Finset.univ (fun other ↦ part (family other)) (Finset.mem_univ index),
    Finset.sdiff_singleton_eq_erase]
  abel

/-- What one index gives away another part takes: together they add up to the same. -/
theorem sum_update_add_of_balance {M : Type*} [AddCancelCommMonoid M] [Fintype ι] (part : α → M)
    (family : ι → α) (index : ι) (value : α) {before after : M}
    (h : part value + after = part (family index) + before) :
    ∑ other, part (Function.update family index value other) + after =
      ∑ other, part (family other) + before := by
  have hsum := sum_update_comp part family index value
  apply add_right_cancel (b := part (family index))
  calc
    ∑ other, part (Function.update family index value other) + after + part (family index) =
        ∑ other, part (Function.update family index value other) + part (family index) + after := by abel
    _ = ∑ other, part (family other) + (part value + after) := by rw [hsum, add_assoc]
    _ = ∑ other, part (family other) + before + part (family index) := by
      rw [h]
      abel

/-- The support of the contributions stays finite when one index changes. -/
theorem finite_support_update (part : α → M) (family : ι → α) (index : ι) (value : α)
    (hfinite : (Function.support fun other ↦ part (family other)).Finite) :
    (Function.support fun other ↦ part (Function.update family index value other)).Finite := by
  refine (hfinite.insert index).subset ?_
  intro other hother
  rcases eq_or_ne other index with rfl | hne
  · exact Set.mem_insert _ _
  · rw [Function.mem_support, Function.update_of_ne hne] at hother
    exact Set.mem_insert_of_mem _ hother

theorem finsum_update_comp (part : α → M) (family : ι → α) (index : ι) (value : α)
    (hfinite : (Function.support fun other ↦ part (family other)).Finite) :
    ∑ᶠ other, part (Function.update family index value other) + part (family index) =
      ∑ᶠ other, part (family other) + part value := by
  have hupdated := finite_support_update part family index value hfinite
  have hcomp : ∀ other, part (Function.update family index value other) =
      Function.update (fun other ↦ part (family other)) index (part value) other :=
    Function.apply_update (fun _ ↦ part) family index value
  let indices : Finset ι := insert index (hfinite.toFinset ∪ hupdated.toFinset)
  have hbefore : ∑ᶠ other, part (family other) = ∑ other ∈ indices, part (family other) := by
    apply finsum_eq_sum_of_support_subset
    intro other hother
    simp only [indices, Finset.coe_insert, Finset.coe_union, Set.Finite.coe_toFinset]
    exact Set.mem_insert_of_mem _ (Or.inl hother)
  have hafter : ∑ᶠ other, part (Function.update family index value other) =
      ∑ other ∈ indices, part (Function.update family index value other) := by
    apply finsum_eq_sum_of_support_subset
    intro other hother
    simp only [indices, Finset.coe_insert, Finset.coe_union, Set.Finite.coe_toFinset]
    exact Set.mem_insert_of_mem _ (Or.inr hother)
  have hmem : index ∈ indices := Finset.mem_insert_self _ _
  rw [hbefore, hafter]
  simp only [hcomp]
  rw [Finset.sum_update_of_mem hmem,
    ← Finset.add_sum_erase indices (fun other ↦ part (family other)) hmem,
    Finset.sdiff_singleton_eq_erase]
  abel

omit [DecidableEq ι] in
/-- No part of a family adds up to more than the whole. -/
theorem sum_le_finsum (family : ι → ℕ) (hfinite : (Function.support family).Finite) (indices : Finset ι) :
    ∑ index ∈ indices, family index ≤ ∑ᶠ index, family index := by
  classical
  have hall : ∑ᶠ index, family index = ∑ index ∈ indices ∪ hfinite.toFinset, family index := by
    apply finsum_eq_sum_of_support_subset
    intro index hindex
    rw [Finset.coe_union, Set.Finite.coe_toFinset]
    exact Or.inr hindex
  rw [hall]
  exact Finset.sum_le_sum_of_subset Finset.subset_union_left

end Totals

end GpuPipe
