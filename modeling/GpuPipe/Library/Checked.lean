import Mathlib.Algebra.Group.Nat.Defs
import Mathlib.Data.Nat.Log

/-!
# Checked words

Operations on unsigned words of `w` bits, the words being natural numbers: each is `none`
where the exact result is no word. A computation that comes out as `some` therefore never
left the range, and its value is that of the same expression over ℕ.
-/

namespace GpuPipe

variable {w first second value amount rhs : ℕ}

def checkedAdd (w first second : ℕ) : Option ℕ :=
  if first + second < 2 ^ w then some (first + second) else none

def checkedMul (w first second : ℕ) : Option ℕ :=
  if first * second < 2 ^ w then some (first * second) else none

def checkedSub (first second : ℕ) : Option ℕ :=
  if second ≤ first then some (first - second) else none

def checkedDiv (first second : ℕ) : Option ℕ :=
  if second = 0 then none else some (first / second)

/-- A shift by the whole width or more has no result; bits shifted out are lost. -/
def checkedShiftLeft (w value amount : ℕ) : Option ℕ :=
  if amount < w then some (value <<< amount % 2 ^ w) else none

def leadingZeros (w value : ℕ) : ℕ := (BitVec.ofNat w value).clz.toNat

/-- The next multiple of `rhs`, which past the last word wraps around. -/
def nextMultipleOf (w value rhs : ℕ) : ℕ :=
  if value % rhs = 0 then value else (value + (rhs - value % rhs)) % 2 ^ w

/-! ## Steps of a computation

An operation that stays in range hands its value to what follows. -/

section Bind

variable {β : Type} (next : ℕ → Option β)

theorem checkedAdd_bind (h : first + second < 2 ^ w) :
    (checkedAdd w first second >>= next) = next (first + second) := by
  rw [checkedAdd, if_pos h, Option.bind_eq_bind, Option.bind_some]

theorem checkedMul_bind (h : first * second < 2 ^ w) :
    (checkedMul w first second >>= next) = next (first * second) := by
  rw [checkedMul, if_pos h, Option.bind_eq_bind, Option.bind_some]

theorem checkedSub_bind (h : second ≤ first) :
    (checkedSub first second >>= next) = next (first - second) := by
  rw [checkedSub, if_pos h, Option.bind_eq_bind, Option.bind_some]

theorem checkedDiv_bind (h : 0 < second) :
    (checkedDiv first second >>= next) = next (first / second) := by
  rw [checkedDiv, if_neg h.ne', Option.bind_eq_bind, Option.bind_some]

/-- A single bit stays in the word wherever it may be shifted. -/
theorem checkedShiftLeft_one_bind (h : amount < w) :
    (checkedShiftLeft w 1 amount >>= next) = next (2 ^ amount) := by
  have hlt : 2 ^ amount < 2 ^ w := Nat.pow_lt_pow_right (by decide) h
  rw [checkedShiftLeft, if_pos h, Nat.one_shiftLeft, Nat.mod_eq_of_lt hlt, Option.bind_eq_bind,
    Option.bind_some]

end Bind

/-! ## Leading zeros and rounding up -/

/-- Counting leading zeros is taking the logarithm. -/
theorem leadingZeros_eq (hpos : 0 < value) (hlt : value < 2 ^ w) :
    leadingZeros w value = w - 1 - Nat.log 2 value := by
  have hw : 0 < w := by
    rcases Nat.eq_zero_or_pos w with rfl | hw
    · rw [Nat.pow_zero] at hlt
      omega
    · exact hw
  have hval : (BitVec.ofNat w value).toNat = value := by
    rw [BitVec.toNat_ofNat, Nat.mod_eq_of_lt hlt]
  have hne : BitVec.ofNat w value ≠ 0#w := by
    intro hzero
    rw [hzero, BitVec.toNat_zero] at hval
    omega
  have hlow := BitVec.two_pow_sub_clz_le_toNat_of_ne_zero hw hne
  have hhigh := BitVec.toNat_lt_two_pow_sub_clz (x := BitVec.ofNat w value)
  rw [hval] at hlow hhigh
  change 2 ^ (w - 1 - leadingZeros w value) ≤ value at hlow
  change value < 2 ^ (w - leadingZeros w value) at hhigh
  -- a value that is not zero has fewer leading zeros than bits
  have hclz : leadingZeros w value < w := by
    by_contra hge
    rw [Nat.sub_eq_zero_of_le (Nat.not_lt.mp hge), Nat.pow_zero] at hhigh
    omega
  have hlog : Nat.log 2 value = w - 1 - leadingZeros w value := by
    apply Nat.log_eq_of_pow_le_of_lt_pow hlow
    rwa [show w - 1 - leadingZeros w value + 1 = w - leadingZeros w value by omega]
  omega

/-- Where `rhs` divides the number of words, wrapping around keeps it a multiple. -/
theorem dvd_nextMultipleOf (hrhs : 0 < rhs) (hdvd : rhs ∣ 2 ^ w) :
    rhs ∣ nextMultipleOf w value rhs := by
  unfold nextMultipleOf
  split
  · exact Nat.dvd_of_mod_eq_zero ‹_›
  · have hlt := Nat.mod_lt value hrhs
    have hsum : value + (rhs - value % rhs) = (value / rhs + 1) * rhs := by
      have hdiv := Nat.div_add_mod' value rhs
      rw [Nat.add_mul, Nat.one_mul]
      omega
    rw [hsum]
    exact (Nat.dvd_mod_iff hdvd).mpr (Nat.dvd_mul_left _ _)

/-- Where nothing wraps around, it is the quotient rounded up that counts. -/
theorem nextMultipleOf_eq (hrhs : 0 < rhs) (hroom : value + rhs ≤ 2 ^ w) :
    nextMultipleOf w value rhs = (value + (rhs - 1)) / rhs * rhs := by
  have hdiv := Nat.div_add_mod' value rhs
  have hlt := Nat.mod_lt value hrhs
  have hnext : (value / rhs + 1) * rhs = value / rhs * rhs + rhs := Nat.succ_mul _ _
  unfold nextMultipleOf
  split
  · have hquot : (value + (rhs - 1)) / rhs = value / rhs :=
      Nat.div_eq_of_lt_le (by omega) (by omega)
    rw [hquot]
    omega
  · have hnext' : (value / rhs + 1 + 1) * rhs = (value / rhs + 1) * rhs + rhs := Nat.succ_mul _ _
    have hquot : (value + (rhs - 1)) / rhs = value / rhs + 1 :=
      Nat.div_eq_of_lt_le (by omega) (by omega)
    rw [hquot, Nat.mod_eq_of_lt (by omega)]
    omega

end GpuPipe
