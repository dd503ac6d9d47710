import Mathlib.Data.Nat.Digits.Lemmas
import GpuPipe.Library.ByteMemory

/-!
# Lower-case hexadecimal text

The text of `format!("{:x}", n)` as ASCII bytes. It is injective, holds digits only,
and takes at most sixteen of them for a 64-bit value, so two numbers joined by a byte
that is no digit can be told apart.
-/

namespace GpuPipe

def ascii (text : String) : Bytes := text.toList.map fun char ↦ UInt8.ofNat char.toNat

def hexDigit (digit : ℕ) : UInt8 :=
  if digit < 10 then UInt8.ofNat (48 + digit) else UInt8.ofNat (87 + digit)

/-- `{:x}`: most significant digit first, `0` for zero. -/
def hex (value : ℕ) : Bytes :=
  if value = 0 then [48] else ((Nat.digits 16 value).reverse).map hexDigit

def underscore : UInt8 := 95

theorem hexDigit_injective : ∀ first < 16, ∀ second < 16,
    hexDigit first = hexDigit second → first = second := by decide

def isHexDigit (byte : UInt8) : Bool := (48 ≤ byte && byte ≤ 57) || (97 ≤ byte && byte ≤ 102)

def hexValue (byte : UInt8) : ℕ := if byte ≤ 57 then byte.toNat - 48 else byte.toNat - 87

/-- `int(text, 16)` -/
def ofHex (text : Bytes) : ℕ := Nat.ofDigits 16 (text.reverse.map hexValue)

theorem isHexDigit_hexDigit : ∀ digit < 16, isHexDigit (hexDigit digit) = true := by decide

theorem hexValue_hexDigit : ∀ digit < 16, hexValue (hexDigit digit) = digit := by decide

theorem digits_lt {value digit : ℕ} (h : digit ∈ (Nat.digits 16 value).reverse) : digit < 16 :=
  Nat.digits_lt_base (by decide) (List.mem_reverse.mp h)

theorem isHexDigit_of_mem {value : ℕ} {byte : UInt8} (h : byte ∈ hex value) : isHexDigit byte = true := by
  unfold hex at h
  split at h
  · rw [List.mem_singleton.mp h]
    decide
  · obtain ⟨digit, hdigit, rfl⟩ := List.mem_map.mp h
    exact isHexDigit_hexDigit digit (digits_lt hdigit)

theorem hex_ne_nil (value : ℕ) : hex value ≠ [] := by
  unfold hex
  split
  · exact List.cons_ne_nil _ _
  · simpa [Nat.digits_ne_nil_iff_ne_zero] using ‹_›

/-- What Rust writes, Python reads back. -/
theorem ofHex_hex (value : ℕ) : ofHex (hex value) = value := by
  unfold hex
  split
  · rename_i hzero
    rw [hzero]
    rfl
  · have hvalues : ((Nat.digits 16 value).map hexDigit).map hexValue = Nat.digits 16 value := by
      rw [List.map_map]
      refine (List.map_congr_left fun digit hdigit ↦ ?_).trans (List.map_id _)
      exact hexValue_hexDigit digit (Nat.digits_lt_base (by decide) hdigit)
    rw [ofHex, ← List.map_reverse, List.reverse_reverse, hvalues, Nat.ofDigits_digits]

theorem map_hexDigit_injective {first second : List ℕ} (hfirst : ∀ digit ∈ first, digit < 16)
    (hsecond : ∀ digit ∈ second, digit < 16) (h : first.map hexDigit = second.map hexDigit) :
    first = second := by
  induction first generalizing second with
  | nil => simpa using h.symm
  | cons digit rest ih =>
    cases second with
    | nil => simp at h
    | cons digit' rest' =>
      simp only [List.map_cons, List.cons.injEq] at h
      simp only [List.mem_cons, forall_eq_or_imp] at hfirst hsecond
      rw [hexDigit_injective _ hfirst.1 _ hsecond.1 h.1, ih hfirst.2 hsecond.2 h.2]

/-- A nonzero number never starts with the digit zero. -/
theorem hex_ne_zero_text {value : ℕ} (h : value ≠ 0) :
    ((Nat.digits 16 value).reverse).map hexDigit ≠ [48] := by
  intro heq
  have hdigits : (Nat.digits 16 value).reverse = [0] := by
    apply map_hexDigit_injective (fun _ hdigit ↦ digits_lt hdigit) (by simp)
    rw [heq]
    rfl
  rw [List.reverse_eq_iff, List.reverse_singleton] at hdigits
  have hvalue := Nat.ofDigits_digits 16 value
  rw [hdigits] at hvalue
  exact h hvalue.symm

theorem hex_injective : Function.Injective hex := by
  intro first second h
  unfold hex at h
  split at h <;> split at h
  · omega
  · exact absurd h.symm (hex_ne_zero_text ‹_›)
  · exact absurd h (hex_ne_zero_text ‹_›)
  · have hdigits := map_hexDigit_injective (fun _ hdigit ↦ digits_lt hdigit)
      (fun _ hdigit ↦ digits_lt hdigit) h
    exact Nat.digits_inj_iff.mp (List.reverse_injective hdigits)

theorem takeWhile_digits {number : Bytes} (hdigits : ∀ byte ∈ number, isHexDigit byte = true) {sep : UInt8}
    (hsep : isHexDigit sep = false) (rest : Bytes) :
    (number ++ sep :: rest).takeWhile isHexDigit = number ∧
      (number ++ sep :: rest).dropWhile isHexDigit = sep :: rest := by
  rw [List.takeWhile_append_of_pos hdigits, List.dropWhile_append_of_pos hdigits]
  simp [hsep]

/-- A number ends where the digits end. -/
theorem hex_sep_inj {first second : ℕ} {sep sep' : UInt8} {rest rest' : Bytes} (hsep : isHexDigit sep = false)
    (hsep' : isHexDigit sep' = false) (h : hex first ++ sep :: rest = hex second ++ sep' :: rest') :
    first = second ∧ sep = sep' ∧ rest = rest' := by
  have hhead : hex first = hex second := by
    rw [← (takeWhile_digits (fun _ ↦ isHexDigit_of_mem) hsep rest).1, h,
      (takeWhile_digits (fun _ ↦ isHexDigit_of_mem) hsep' rest').1]
  rw [hhead, List.append_cancel_left_eq, List.cons.injEq] at h
  exact ⟨hex_injective hhead, h⟩

/-- Two numbers joined by an underscore determine each other. -/
theorem hex_underscore_inj {first second : ℕ} {rest rest' : Bytes}
    (h : hex first ++ underscore :: rest = hex second ++ underscore :: rest') :
    first = second ∧ rest = rest' := by
  obtain ⟨hnumber, -, hrest⟩ := hex_sep_inj (by decide) (by decide) h
  exact ⟨hnumber, hrest⟩

theorem hex_length_le {value digits : ℕ} (hdigits : 0 < digits) (h : value < 16 ^ digits) :
    (hex value).length ≤ digits := by
  unfold hex
  split
  · exact hdigits
  · rw [List.length_map, List.length_reverse]
    exact (Nat.digits_length_le_iff (by decide) value).mpr h

end GpuPipe
