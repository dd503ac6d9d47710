import Mathlib.Algebra.BigOperators.Group.List.Basic
import Mathlib.Algebra.Order.Group.Int
import Mathlib.Data.List.Forall2
import GpuPipe.Library.ByteMemory

/-!
# Strided arrays

An array as a window on memory: the size of its elements, its shape, one stride an axis and the offset of its
first element, in bytes. Strides may be zero or negative, so that elements may share bytes. In a row-major
array the elements lie one after another, the last axis fastest; a copy into one reads back whole.
-/

namespace GpuPipe

/-! ## Indices -/

/-- One index an axis, each below the length of its axis. -/
abbrev Within (index shape : List ℕ) : Prop := List.Forall₂ (· < ·) index shape

/-- The indices of a shape, the last axis fastest. -/
def indices : List ℕ → List (List ℕ)
  | [] => [[]]
  | length :: shape => (List.range length).flatMap fun i ↦ (indices shape).map (i :: ·)

/-- The number of indices before this one. -/
def rank : List ℕ → List ℕ → ℕ
  | i :: index, _ :: shape => i * shape.prod + rank index shape
  | _, _ => 0

theorem mem_indices {index shape : List ℕ} : index ∈ indices shape ↔ Within index shape := by
  induction shape generalizing index with
  | nil => simp [indices]
  | cons length shape ih =>
    simp only [indices, List.mem_flatMap, List.mem_range, List.mem_map, ih, List.forall₂_cons_right_iff]
    constructor
    · rintro ⟨i, hi, rest, hrest, rfl⟩
      exact ⟨i, rest, hi, hrest, rfl⟩
    · rintro ⟨i, rest, hi, hrest, rfl⟩
      exact ⟨i, hi, rest, hrest, rfl⟩

theorem rank_lt {index shape : List ℕ} (h : Within index shape) : rank index shape < shape.prod := by
  induction h with
  | nil => exact Nat.one_pos
  | @cons i length index shape hi _ ih =>
    calc
      i * shape.prod + rank index shape < i * shape.prod + shape.prod := Nat.add_lt_add_left ih _
      _ = (i + 1) * shape.prod := (Nat.succ_mul i _).symm
      _ ≤ length * shape.prod := Nat.mul_le_mul_right _ hi
      _ = (length :: shape).prod := List.prod_cons.symm

theorem rank_inj {first second shape : List ℕ} (hfirst : Within first shape) (hsecond : Within second shape)
    (h : rank first shape = rank second shape) : first = second := by
  induction hfirst generalizing second with
  | nil =>
    cases hsecond
    rfl
  | @cons i length first shape hi hrest ih =>
    cases hsecond with
    | @cons j _ second _ hj hrest' =>
      have hlt := rank_lt hrest
      have hlt' := rank_lt hrest'
      have hpos : 0 < shape.prod := Nat.zero_lt_of_lt hlt
      simp only [rank] at h
      have hhead : i = j := by
        calc
          i = (i * shape.prod + rank first shape) / shape.prod := by
            rw [Nat.mul_comm, Nat.mul_add_div hpos, Nat.div_eq_of_lt hlt, Nat.add_zero]
          _ = (j * shape.prod + rank second shape) / shape.prod := by rw [h]
          _ = j := by rw [Nat.mul_comm, Nat.mul_add_div hpos, Nat.div_eq_of_lt hlt', Nat.add_zero]
      rw [hhead, Nat.add_left_cancel_iff] at h
      rw [hhead, ih hrest' h]

/-! ## Views -/

/-- The distance of an element from the first one. -/
def dot : List ℤ → List ℕ → ℤ
  | stride :: strides, i :: index => stride * i + dot strides index
  | _, _ => 0

structure View where
  itemsize : ℕ
  shape : List ℕ
  strides : List ℤ
  offset : ℤ
  deriving DecidableEq

namespace View

def nbytes (view : View) : ℕ := view.itemsize * view.shape.prod

def address (view : View) (index : List ℕ) : ℕ := (view.offset + dot view.strides index).toNat

def element (view : View) (memory : Memory) (index : List ℕ) : Bytes :=
  memory.read (view.address index) view.itemsize

/-- The view starts in the first `length` bytes, and every element lies there. -/
def Inside (view : View) (length : ℕ) : Prop :=
  (0 ≤ view.offset ∧ view.offset ≤ length) ∧ ∀ index ∈ indices view.shape,
    0 ≤ view.offset + dot view.strides index ∧ view.offset + dot view.strides index + view.itemsize ≤ length

instance (view : View) (length : ℕ) : Decidable (view.Inside length) := inferInstanceAs (Decidable (_ ∧ _))

/-- What a reader of the whole array sees. -/
def contents (view : View) (memory : Memory) : List Bytes := (indices view.shape).map (view.element memory)

/-- The strides of elements that lie one after another. -/
def rowMajorStrides (itemsize : ℕ) : List ℕ → List ℤ
  | [] => []
  | _ :: shape => (itemsize * shape.prod : ℕ) :: rowMajorStrides itemsize shape

def rowMajor (itemsize : ℕ) (shape : List ℕ) : View := ⟨itemsize, shape, rowMajorStrides itemsize shape, 0⟩

/-- Memory after every element of the view was stored, in the order of the indices. -/
def copyTo (view : View) (memory : Memory) (values : List ℕ → Bytes) : Memory :=
  (indices view.shape).foldl
    (fun current index ↦ current.applyStores (Memory.copyStores (view.address index) (values index))) memory

variable {itemsize : ℕ} {shape index : List ℕ} {values : List ℕ → Bytes}

theorem dot_rowMajor (h : Within index shape) :
    dot (rowMajorStrides itemsize shape) index = (itemsize * rank index shape : ℕ) := by
  induction h with
  | nil => rfl
  | cons _ _ ih =>
    rw [rowMajorStrides, dot, ih, rank]
    push_cast
    ring

theorem address_rowMajor (h : Within index shape) :
    (rowMajor itemsize shape).address index = itemsize * rank index shape := by
  show (0 + dot (rowMajorStrides itemsize shape) index).toNat = _
  rw [dot_rowMajor h, Int.zero_add, Int.toNat_natCast]

theorem rowMajor_inside : (rowMajor itemsize shape).Inside (rowMajor itemsize shape).nbytes := by
  refine ⟨⟨le_refl 0, Int.natCast_nonneg _⟩, ?_⟩
  intro index hindex
  have hwithin := mem_indices.mp hindex
  have hle : itemsize * rank index shape + itemsize ≤ itemsize * shape.prod := by
    calc
      itemsize * rank index shape + itemsize = itemsize * (rank index shape + 1) := (Nat.mul_succ _ _).symm
      _ ≤ itemsize * shape.prod := Nat.mul_le_mul_left _ (rank_lt hwithin)
  have hdot : dot (rowMajorStrides itemsize shape) index = (itemsize * rank index shape : ℕ) := dot_rowMajor hwithin
  show 0 ≤ 0 + dot (rowMajorStrides itemsize shape) index ∧
    0 + dot (rowMajorStrides itemsize shape) index + (itemsize : ℤ) ≤ (itemsize * shape.prod : ℕ)
  rw [hdot]
  omega

/-- Two elements of a row-major array are the same or apart. -/
theorem rowMajor_apart {other : List ℕ} (hindex : Within index shape) (hother : Within other shape)
    (hne : other ≠ index) :
    (rowMajor itemsize shape).address other + itemsize ≤ (rowMajor itemsize shape).address index ∨
      (rowMajor itemsize shape).address index + itemsize ≤ (rowMajor itemsize shape).address other := by
  have hrank : rank other shape ≠ rank index shape := fun h ↦ hne (rank_inj hother hindex h)
  rw [address_rowMajor hindex, address_rowMajor hother, ← Nat.mul_succ, ← Nat.mul_succ]
  rcases Nat.lt_or_gt_of_ne hrank with hlt | hlt
  · exact .inl (Nat.mul_le_mul_left _ hlt)
  · exact .inr (Nat.mul_le_mul_left _ hlt)

theorem read_store_apart {memory : Memory} {address length : ℕ} {bytes : Bytes} {place : ℕ}
    (h : place + bytes.length ≤ address ∨ address + length ≤ place) :
    (memory.applyStores (Memory.copyStores place bytes)).read address length = memory.read address length := by
  apply Memory.read_congr
  intro byte hle hlt
  apply Memory.applyStores_of_notMem
  intro store hstore
  obtain ⟨hfrom, hto⟩ := Memory.copyStores_address hstore
  omega

/-- Each element that has been stored reads back. -/
theorem element_foldl (hlength : ∀ index, Within index shape → (values index).length = itemsize)
    (stored : List (List ℕ)) (hstored : ∀ other ∈ stored, Within other shape) (memory : Memory)
    (hindex : Within index shape)
    (hdone : index ∈ stored ∨ (rowMajor itemsize shape).element memory index = values index) :
    (rowMajor itemsize shape).element (stored.foldl (fun current index ↦
      current.applyStores (Memory.copyStores ((rowMajor itemsize shape).address index) (values index))) memory)
        index = values index := by
  induction stored generalizing memory with
  | nil => exact hdone.resolve_left List.not_mem_nil
  | cons other rest ih =>
    rw [List.foldl_cons]
    have hother := hstored other List.mem_cons_self
    apply ih fun later hlater ↦ hstored later (List.mem_cons_of_mem _ hlater)
    by_cases hsame : other = index
    · right
      rw [hsame]
      show Memory.read _ _ itemsize = _
      rw [← hlength index hindex]
      exact Memory.read_copy _ _ _
    · rcases hdone with hmem | hread
      · exact .inl ((List.mem_cons.mp hmem).resolve_left (Ne.symm hsame))
      · right
        rw [← hread]
        apply read_store_apart
        rw [hlength other hother]
        exact rowMajor_apart hindex hother hsame

/-- A copy into a row-major array reads back whole. -/
theorem element_copyTo (hlength : ∀ index, Within index shape → (values index).length = itemsize) (memory : Memory)
    (hindex : Within index shape) :
    (rowMajor itemsize shape).element ((rowMajor itemsize shape).copyTo memory values) index = values index :=
  element_foldl hlength _ (fun _ ↦ mem_indices.mp) memory hindex (.inl (mem_indices.mpr hindex))

theorem contents_copyTo (hlength : ∀ index, Within index shape → (values index).length = itemsize) (memory : Memory) :
    (rowMajor itemsize shape).contents ((rowMajor itemsize shape).copyTo memory values) =
      (indices shape).map values := by
  apply List.map_congr_left
  intro index hindex
  exact element_copyTo hlength memory (mem_indices.mp hindex)

theorem element_length (view : View) (memory : Memory) (index : List ℕ) :
    (view.element memory index).length = view.itemsize := Memory.read_length _ _ _

end View

end GpuPipe
