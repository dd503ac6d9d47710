import Mathlib.Data.Nat.Basic
import Mathlib.Data.List.Basic
import Mathlib.Logic.Function.Basic
import Mathlib.Tactic.Ring

/-!
# Byte-addressed memory with single-byte stores

A copy into shared memory is a list of single-byte stores, so that a writer may
stop between any two of them. Reading back a completed copy gives the bytes that
were copied, and an address no store names keeps its byte. Integers are laid out
little-endian at a fixed width; a value too wide for its field is truncated.
-/

namespace GpuPipe

abbrev Bytes := List UInt8

/-- One byte per address; bounds are stated where memory is used. -/
abbrev Memory := ℕ → UInt8

namespace Memory

/-- The single-byte stores of a copy, in address order. -/
def copyStores (address : ℕ) : Bytes → List (ℕ × UInt8)
  | [] => []
  | byte :: rest => (address, byte) :: copyStores (address + 1) rest

/-- Memory after some stores. -/
def applyStores (memory : Memory) (stores : List (ℕ × UInt8)) : Memory :=
  stores.foldl (fun current store ↦ Function.update current store.1 store.2) memory

/-- The `length` bytes from `address` on. -/
def read (memory : Memory) (address length : ℕ) : Bytes :=
  (List.range length).map fun offset ↦ memory (address + offset)

@[simp] theorem applyStores_nil (memory : Memory) : applyStores memory [] = memory := rfl

@[simp] theorem applyStores_cons (memory : Memory) (store : ℕ × UInt8)
    (rest : List (ℕ × UInt8)) :
    applyStores memory (store :: rest) =
      applyStores (Function.update memory store.1 store.2) rest := rfl

theorem applyStores_append (memory : Memory) (first second : List (ℕ × UInt8)) :
    applyStores memory (first ++ second) = applyStores (applyStores memory first) second := by
  simp [applyStores]

/-- An address that no store names keeps its byte. -/
theorem applyStores_of_notMem (memory : Memory) (stores : List (ℕ × UInt8)) (address : ℕ)
    (h : ∀ store ∈ stores, store.1 ≠ address) : applyStores memory stores address = memory address := by
  induction stores generalizing memory with
  | nil => rfl
  | cons store rest ih =>
    rw [applyStores_cons, ih _ fun other hother ↦ h other (List.mem_cons_of_mem _ hother)]
    exact Function.update_of_ne (h store List.mem_cons_self).symm _ _

theorem copyStores_address {address : ℕ} {bytes : Bytes} {store : ℕ × UInt8}
    (h : store ∈ copyStores address bytes) :
    address ≤ store.1 ∧ store.1 < address + bytes.length := by
  induction bytes generalizing address with
  | nil => simp [copyStores] at h
  | cons byte rest ih =>
    rw [copyStores, List.mem_cons] at h
    rcases h with rfl | h
    · simp
    · have hrest := ih h
      simp only [List.length_cons]
      omega

@[simp] theorem read_length (memory : Memory) (address length : ℕ) :
    (read memory address length).length = length := by
  simp [read]

theorem read_succ (memory : Memory) (address length : ℕ) :
    read memory address (length + 1) = memory address :: read memory (address + 1) length := by
  simp only [read, List.range_succ_eq_map, List.map_cons, List.map_map, Nat.add_zero]
  congr 1
  apply List.map_congr_left
  intro offset _
  simp only [Function.comp_apply, Nat.succ_eq_add_one]
  congr 1
  ring

theorem read_add (memory : Memory) (address first second : ℕ) :
    read memory address (first + second) =
      read memory address first ++ read memory (address + first) second := by
  simp only [read, List.range_add, List.map_append, List.map_map]
  congr 1
  apply List.map_congr_left
  intro offset _
  simp [Nat.add_assoc]

/-- Reads depend only on the bytes they cover. -/
theorem read_congr {first second : Memory} {address length : ℕ}
    (h : ∀ place, address ≤ place → place < address + length → first place = second place) :
    read first address length = read second address length := by
  apply List.map_congr_left
  intro offset hoffset
  rw [List.mem_range] at hoffset
  exact h _ (by omega) (by omega)

/-- A completed copy reads back as the bytes that were copied. -/
theorem read_copy (memory : Memory) (address : ℕ) (bytes : Bytes) :
    read (applyStores memory (copyStores address bytes)) address bytes.length = bytes := by
  induction bytes generalizing memory address with
  | nil => rfl
  | cons byte rest ih =>
    rw [List.length_cons, read_succ, copyStores, applyStores_cons, ih]
    congr 1
    rw [applyStores_of_notMem]
    · simp
    · intro store hstore
      have := copyStores_address hstore
      omega

end Memory

/-- `width` little-endian bytes of `value`, truncated as a narrowing cast does. -/
def leBytes : ℕ → ℕ → Bytes
  | 0, _ => []
  | width + 1, value => UInt8.ofNat value :: leBytes width (value / 256)

/-- The value of little-endian bytes. -/
def leValue : Bytes → ℕ
  | [] => 0
  | byte :: rest => byte.toNat + 256 * leValue rest

@[simp] theorem leBytes_length (width value : ℕ) : (leBytes width value).length = width := by
  induction width generalizing value with
  | zero => rfl
  | succ width ih => simp [leBytes, ih]

theorem leValue_leBytes (width value : ℕ) : leValue (leBytes width value) = value % 256 ^ width := by
  induction width generalizing value with
  | zero => simp [leBytes, leValue, Nat.mod_one]
  | succ width ih =>
    rw [leBytes, leValue, ih, UInt8.toNat_ofNat', pow_succ' 256 width, Nat.mod_mul]

theorem leValue_leBytes_of_lt {width value : ℕ} (h : value < 256 ^ width) :
    leValue (leBytes width value) = value := by
  rw [leValue_leBytes, Nat.mod_eq_of_lt h]

end GpuPipe
