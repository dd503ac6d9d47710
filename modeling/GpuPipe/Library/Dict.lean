import Mathlib.Algebra.BigOperators.Group.List.Basic
import Mathlib.Data.List.Nodup
import Mathlib.Data.List.Perm.Basic

/-!
# Dictionaries in insertion order

A dictionary is a list of entries with distinct keys: setting a key changes its entry in place, or appends
one. A sum over the entries that some predicate selects is a sum over keys.
-/

namespace GpuPipe

variable {Key Value : Type*}

/-- Entries with distinct keys. -/
structure Dict (Key Value : Type*) where
  entries : List (Key × Value)
  nodup : (entries.map Prod.fst).Nodup

namespace Dict

def empty : Dict Key Value where
  entries := []
  nodup := List.nodup_nil

def keys (dict : Dict Key Value) : List Key := dict.entries.map Prod.fst

variable [DecidableEq Key]

def get (dict : Dict Key Value) (key : Key) : Option Value := dict.entries.lookup key

def setEntries (key : Key) (value : Value) : List (Key × Value) → List (Key × Value)
  | [] => [(key, value)]
  | entry :: rest => if entry.1 = key then (key, value) :: rest else entry :: setEntries key value rest

theorem mem_map_fst_setEntries {key other : Key} {value : Value} {entries : List (Key × Value)} :
    other ∈ (setEntries key value entries).map Prod.fst ↔ other = key ∨ other ∈ entries.map Prod.fst := by
  induction entries with
  | nil => simp [setEntries]
  | cons entry rest ih =>
    rw [setEntries]
    split
    · rename_i hkey
      simp [hkey]
    · rw [List.map_cons, List.mem_cons, ih, List.map_cons, List.mem_cons]
      exact or_left_comm

def set (dict : Dict Key Value) (key : Key) (value : Value) : Dict Key Value where
  entries := setEntries key value dict.entries
  nodup := by
    have hnodup := dict.nodup
    generalize dict.entries = entries at hnodup
    induction entries with
    | nil => exact List.nodup_singleton key
    | cons entry rest ih =>
      rw [List.map_cons, List.nodup_cons] at hnodup
      rw [setEntries]
      split
      · rename_i hkey
        rw [List.map_cons, List.nodup_cons, ← hkey]
        exact hnodup
      · rename_i hkey
        rw [List.map_cons, List.nodup_cons, mem_map_fst_setEntries, not_or]
        exact ⟨⟨hkey, hnodup.1⟩, ih hnodup.2⟩

theorem mem_keys_set {dict : Dict Key Value} {key other : Key} {value : Value} :
    other ∈ (dict.set key value).keys ↔ other = key ∨ other ∈ dict.keys := mem_map_fst_setEntries

theorem get_set_self (dict : Dict Key Value) (key : Key) (value : Value) :
    (dict.set key value).get key = some value := by
  show (setEntries key value dict.entries).lookup key = some value
  induction dict.entries with
  | nil => simp [setEntries]
  | cons entry rest ih =>
    rw [setEntries]
    split
    · simp
    · rename_i hkey
      rw [List.lookup_cons, beq_false_of_ne (Ne.symm hkey)]
      exact ih

theorem get_set_of_ne (dict : Dict Key Value) {key other : Key} (value : Value) (h : other ≠ key) :
    (dict.set key value).get other = dict.get other := by
  show (setEntries key value dict.entries).lookup other = dict.entries.lookup other
  induction dict.entries with
  | nil => simp [setEntries, List.lookup_cons, beq_false_of_ne h]
  | cons entry rest ih =>
    rw [setEntries]
    split
    · rename_i hkey
      rw [List.lookup_cons, List.lookup_cons, hkey, beq_false_of_ne h]
    · rw [List.lookup_cons, List.lookup_cons, ih]

theorem get_of_mem {dict : Dict Key Value} {entry : Key × Value} (h : entry ∈ dict.entries) :
    dict.get entry.1 = some entry.2 := by
  have hnodup := dict.nodup
  unfold get
  generalize dict.entries = entries at h hnodup
  induction entries with
  | nil => cases h
  | cons first rest ih =>
    rw [List.map_cons, List.nodup_cons] at hnodup
    rw [List.lookup_cons]
    rcases List.mem_cons.mp h with rfl | hrest
    · rw [beq_self_eq_true]
    · have hne : entry.1 ≠ first.1 := by
        intro heq
        apply hnodup.1
        rw [← heq]
        exact List.mem_map_of_mem hrest
      rw [beq_false_of_ne hne]
      exact ih hrest hnodup.2

theorem get_eq_none {dict : Dict Key Value} {key : Key} (h : key ∉ dict.keys) : dict.get key = none := by
  unfold get
  rw [List.lookup_eq_none_iff]
  intro entry hentry
  rw [bne_iff_ne]
  intro heq
  apply h
  rw [heq]
  exact List.mem_map_of_mem hentry

/-- A sum over the entries whose keys a predicate selects is a sum over any list of just these keys. -/
theorem sum_filter {M : Type*} [AddCommMonoid M] (dict : Dict Key Value) (select : Key → Bool)
    (part : Value → M) {keys : List Key} (hnodup : keys.Nodup) (hselect : ∀ key ∈ keys, select key = true)
    (hkeys : ∀ key ∈ dict.keys, select key = true → key ∈ keys) :
    ((dict.entries.filter fun entry ↦ select entry.1).map fun entry ↦ part entry.2).sum =
      (keys.map fun key ↦ (dict.get key).elim 0 part).sum := by
  have hperm : ((dict.entries.filter fun entry ↦ select entry.1).map Prod.fst).Perm
      (keys.filter fun key ↦ key ∈ dict.keys) := by
    rw [List.perm_ext_iff_of_nodup (dict.nodup.sublist (List.filter_sublist.map _)) (hnodup.filter _)]
    intro key
    rw [List.mem_map, List.mem_filter, decide_eq_true_eq]
    constructor
    · intro h
      obtain ⟨entry, hentry, rfl⟩ := h
      have hmem : entry.1 ∈ dict.keys := List.mem_map_of_mem (List.mem_filter.mp hentry).1
      exact ⟨hkeys _ hmem (List.mem_filter.mp hentry).2, hmem⟩
    · intro h
      obtain ⟨entry, hentry, rfl⟩ := List.mem_map.mp h.2
      exact ⟨entry, List.mem_filter.mpr ⟨hentry, hselect _ h.1⟩, rfl⟩
  calc
    _ = (((dict.entries.filter fun entry ↦ select entry.1).map Prod.fst).map
        fun key ↦ (dict.get key).elim 0 part).sum := by
      rw [List.map_map]
      congr 1
      apply List.map_congr_left
      intro entry hentry
      rw [Function.comp_apply, get_of_mem (List.mem_filter.mp hentry).1, Option.elim_some]
    _ = ((keys.filter fun key ↦ key ∈ dict.keys).map fun key ↦ (dict.get key).elim 0 part).sum :=
      (hperm.map _).sum_eq
    _ = _ := by
      clear hperm hselect hkeys hnodup
      induction keys with
      | nil => rfl
      | cons key rest ih =>
        rw [List.filter_cons]
        split
        · rw [List.map_cons, List.map_cons, List.sum_cons, List.sum_cons, ih]
        · rename_i hkey
          rw [decide_eq_true_eq] at hkey
          rw [List.map_cons, List.sum_cons, get_eq_none hkey, Option.elim_none, zero_add, ih]

end Dict

end GpuPipe
