import Mathlib.Data.Nat.Digits.Lemmas
import GpuPipe.Library.ByteMemory

/-!
# Written numbers

A system of numerals writes one byte for each digit, most significant digit first, and reads the digits
back by their values. What it writes it reads back, and a number that is followed by a byte that is no
digit ends where the digits end.
-/

namespace GpuPipe

/-- The digits of a positional system, as bytes. -/
structure Numerals where
  base : ℕ
  one_lt_base : 1 < base
  digit : ℕ → UInt8
  isDigit : UInt8 → Bool
  value : UInt8 → ℕ
  isDigit_digit : ∀ d < base, isDigit (digit d) = true
  value_digit : ∀ d < base, value (digit d) = d

namespace Numerals

variable (numerals : Numerals) {number : ℕ}

/-- The text of a number, `0` for zero. -/
def text (number : ℕ) : Bytes :=
  if number = 0 then [numerals.digit 0] else ((Nat.digits numerals.base number).reverse).map numerals.digit

/-- The number that a text of digits stands for. -/
def read (text : Bytes) : ℕ := Nat.ofDigits numerals.base (text.reverse.map numerals.value)

theorem text_ne_nil : numerals.text number ≠ [] := by
  unfold text
  split
  · exact List.cons_ne_nil _ _
  · rename_i hne
    simpa [Nat.digits_ne_nil_iff_ne_zero] using hne

theorem isDigit_of_mem {byte : UInt8} (h : byte ∈ numerals.text number) : numerals.isDigit byte = true := by
  unfold text at h
  split at h
  · rw [List.mem_singleton.mp h]
    exact numerals.isDigit_digit 0 (Nat.zero_lt_of_lt numerals.one_lt_base)
  · obtain ⟨d, hd, rfl⟩ := List.mem_map.mp h
    apply numerals.isDigit_digit
    exact Nat.digits_lt_base numerals.one_lt_base (List.mem_reverse.mp hd)

@[simp] theorem read_text : numerals.read (numerals.text number) = number := by
  unfold text
  split
  · rename_i hzero
    rw [hzero]
    simp [read, numerals.value_digit 0 (Nat.zero_lt_of_lt numerals.one_lt_base)]
  · have hvalues : ((Nat.digits numerals.base number).map numerals.digit).map numerals.value =
        Nat.digits numerals.base number := by
      rw [List.map_map]
      calc
        _ = (Nat.digits numerals.base number).map id := by
          apply List.map_congr_left
          intro d hd
          exact numerals.value_digit d (Nat.digits_lt_base numerals.one_lt_base hd)
        _ = _ := List.map_id _
    rw [read, ← List.map_reverse, List.reverse_reverse, hvalues, Nat.ofDigits_digits]

theorem text_injective : Function.Injective numerals.text := by
  intro first second h
  have hread := congrArg numerals.read h
  rwa [read_text, read_text] at hread

/-- The digits at the front of a text that goes on with another byte, or not at all. -/
theorem takeWhile_text {rest : Bytes} (hrest : ∀ byte ∈ rest.head?, numerals.isDigit byte = false) :
    (numerals.text number ++ rest).takeWhile numerals.isDigit = numerals.text number := by
  rw [List.takeWhile_append_of_pos fun _ ↦ numerals.isDigit_of_mem]
  cases rest with
  | nil => simp
  | cons byte rest => simp [hrest byte (by simp)]

/-- Two numbers, each with what follows it. -/
theorem text_append_inj {second : ℕ} {rest rest' : Bytes}
    (hrest : ∀ byte ∈ rest.head?, numerals.isDigit byte = false)
    (hrest' : ∀ byte ∈ rest'.head?, numerals.isDigit byte = false)
    (h : numerals.text number ++ rest = numerals.text second ++ rest') : number = second ∧ rest = rest' := by
  have hnumber : number = second := by
    apply numerals.text_injective
    rw [← numerals.takeWhile_text hrest, h, numerals.takeWhile_text hrest']
  rw [hnumber, List.append_cancel_left_eq] at h
  exact ⟨hnumber, h⟩

end Numerals

def decimal : Numerals where
  base := 10
  one_lt_base := by decide
  digit d := UInt8.ofNat (48 + d)
  isDigit byte := 48 ≤ byte && byte ≤ 57
  value byte := byte.toNat - 48
  isDigit_digit := by decide
  value_digit := by decide

end GpuPipe
