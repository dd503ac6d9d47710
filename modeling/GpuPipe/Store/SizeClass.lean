import Mathlib.Data.Nat.Log
import Mathlib.Data.Nat.Bitwise
import Mathlib.Order.GaloisConnection.Defs
import Mathlib.Order.Monotone.Basic
import Mathlib.Tactic.Ring

/-!
# Size classes and packed block addresses

The arithmetic of `store.rs`. Block sizes grow with the class, the class of a request is the
first one whose blocks hold it, and a block address survives packing as long as segments
are no longer than 2^40 bytes and there are fewer than 2^24 of them.
-/

namespace GpuPipe.Store

def blkHdr : ℕ := 64
def minBlock : ℕ := 4096
def nClass : ℕ := 64
def maxClassBlock : ℕ := 2 ^ 26
def dedicatedAlign : ℕ := 2 ^ 16

/-- `(seg << 40) | off` on 64-bit words. -/
def pack (seg off : ℕ) : ℕ := (seg <<< 40) % 2 ^ 64 ||| off

def unpack (packed : ℕ) : ℕ × ℕ := (packed >>> 40, packed &&& (2 ^ 40 - 1))

/-- Class and block size for a block of `total` bytes, header included: four classes per
power of two above 4 KiB. -/
def classOf (total : ℕ) : ℕ × ℕ :=
  if total ≤ minBlock then (0, minBlock)
  else
    let p := Nat.log 2 (total - 1)
    let step := 2 ^ (p - 2)
    let k := (total - 1 - 2 ^ p) / step
    ((p - 12) * 4 + k + 1, 2 ^ p + (k + 1) * step)

def classSize (cls : ℕ) : ℕ :=
  if cls = 0 then minBlock
  else 2 ^ (12 + (cls - 1) / 4) + ((cls - 1) % 4 + 1) * 2 ^ (10 + (cls - 1) / 4)

/-- The length of a dedicated segment for a block of `total` bytes, in 64-bit arithmetic. -/
def dedicatedSize (total : ℕ) : ℕ :=
  (total + (dedicatedAlign - 1)) / dedicatedAlign * dedicatedAlign % 2 ^ 64

theorem pack_eq {seg off : ℕ} (hseg : seg < 2 ^ 24) (hoff : off < 2 ^ 40) :
    pack seg off = seg * 2 ^ 40 + off := by
  have hshift : seg <<< 40 % 2 ^ 64 = seg <<< 40 := by
    rw [Nat.shiftLeft_eq]
    apply Nat.mod_eq_of_lt
    omega
  rw [pack, hshift, ← Nat.shiftLeft_add_eq_or_of_lt hoff, Nat.shiftLeft_eq]

/-- Packing loses nothing. -/
theorem unpack_pack {seg off : ℕ} (hseg : seg < 2 ^ 24) (hoff : off < 2 ^ 40) :
    unpack (pack seg off) = (seg, off) := by
  rw [pack_eq hseg hoff, unpack, Nat.and_two_pow_sub_one_eq_mod, Nat.shiftRight_eq_div_pow]
  rw [Prod.mk.injEq]
  omega

/-! ## The table of class sizes -/

theorem classSize_succ {q k : ℕ} (hk : k < 4) : classSize (q * 4 + k + 1) = (5 + k) * 2 ^ (10 + q) := by
  have hdiv : (q * 4 + k + 1 - 1) / 4 = q := by omega
  have hmod : (q * 4 + k + 1 - 1) % 4 = k := by omega
  rw [classSize, if_neg (Nat.succ_ne_zero _), hdiv, hmod]
  ring

/-- Sizes grow by a quarter of a power of two at a time, and the fourth quarter ends where the
next power of two begins. -/
theorem classSize_quarter {q k : ℕ} (hk : k < 4) : classSize (q * 4 + k) = (4 + k) * 2 ^ (10 + q) := by
  rcases k with _ | k
  · rcases q with _ | q
    · rfl
    · rw [show (q + 1) * 4 + 0 = q * 4 + 3 + 1 by omega, classSize_succ (by decide)]
      ring
  · rw [← add_assoc, classSize_succ (by omega)]
    ring

theorem classSize_lt_succ (cls : ℕ) : classSize cls < classSize (cls + 1) := by
  have hmod : cls % 4 < 4 := Nat.mod_lt cls (by decide)
  rw [← Nat.div_add_mod' cls 4, classSize_quarter hmod, classSize_succ hmod]
  apply Nat.mul_lt_mul_of_pos_right (by omega)
  exact Nat.pow_pos (by decide)

theorem classSize_strictMono : StrictMono classSize := strictMono_nat_of_lt_succ classSize_lt_succ

/-- Blocks of any class keep their successors in a segment aligned to headers. -/
theorem blkHdr_dvd_classSize (cls : ℕ) : blkHdr ∣ classSize cls := by
  have hmod : cls % 4 < 4 := Nat.mod_lt cls (by decide)
  rw [← Nat.div_add_mod' cls 4, classSize_quarter hmod, show 10 + cls / 4 = 6 + (4 + cls / 4) by omega,
    pow_add]
  exact Dvd.dvd.mul_left (Nat.dvd_mul_right _ _) _

/-! ## The class of a request -/

/-- A request above 4 KiB ends in quarter `k` of the octave from `2 ^ (12 + q)` on. -/
structure Octave (total q k : ℕ) : Prop where
  log : Nat.log 2 (total - 1) = 12 + q
  quarter : (total - 1 - 2 ^ (12 + q)) / 2 ^ (10 + q) = k
  lt : k < 4
  above : (4 + k) * 2 ^ (10 + q) < total
  upTo : total ≤ (5 + k) * 2 ^ (10 + q)

/-- Every request above 4 KiB lies in one quarter of one octave. -/
theorem exists_octave {total : ℕ} (h : minBlock < total) : ∃ q k, Octave total q k := by
  unfold minBlock at h
  have hne : total - 1 ≠ 0 := by omega
  have hp : 12 ≤ Nat.log 2 (total - 1) := by
    apply Nat.le_log_of_pow_le (by decide)
    omega
  obtain ⟨q, hq⟩ := Nat.exists_eq_add_of_le hp
  have hpos : 0 < 2 ^ (10 + q) := Nat.pow_pos (by decide)
  have hstep : 2 ^ (12 + q) = 4 * 2 ^ (10 + q) := by ring
  have hle : 2 ^ (12 + q) ≤ total - 1 := hq ▸ Nat.pow_log_le_self 2 hne
  have hlt : total - 1 < 2 * 2 ^ (12 + q) := by
    rw [← pow_succ', ← hq]
    exact Nat.lt_pow_succ_log_self (by decide) _
  generalize hk : (total - 1 - 2 ^ (12 + q)) / 2 ^ (10 + q) = k
  have hdown : k * 2 ^ (10 + q) ≤ total - 1 - 2 ^ (12 + q) := hk ▸ Nat.div_mul_le_self _ _
  have hup : total - 1 - 2 ^ (12 + q) < (k + 1) * 2 ^ (10 + q) := by
    rw [← hk, mul_comm]
    exact Nat.lt_mul_div_succ _ hpos
  have hk4 : k < 4 := by
    rw [← hk]
    apply Nat.div_lt_of_lt_mul
    omega
  refine ⟨q, k, hq, hk, hk4, ?_, ?_⟩
  · rw [add_mul]
    omega
  · rw [show 5 + k = 4 + (k + 1) by omega, add_mul]
    omega

/-- The octave of a request is no later than the power of two that holds it. -/
theorem Octave.le {total q k n : ℕ} (h : Octave total q k) (htotal : total ≤ 2 ^ (13 + n)) : q ≤ n := by
  have hlt : 2 ^ (12 + q) < 2 ^ (13 + n) :=
    calc
      2 ^ (12 + q) = 4 * 2 ^ (10 + q) := by ring
      _ ≤ (4 + k) * 2 ^ (10 + q) := Nat.mul_le_mul_right _ (by omega)
      _ < total := h.above
      _ ≤ 2 ^ (13 + n) := htotal
  have hexp := (Nat.pow_lt_pow_iff_right (by decide)).mp hlt
  omega

/-- Class and size of a request, by its octave and quarter. -/
theorem Octave.classOf_eq {total q k : ℕ} (h : Octave total q k) (hlow : minBlock < total) :
    classOf total = (q * 4 + k + 1, (5 + k) * 2 ^ (10 + q)) := by
  rw [classOf, if_neg (Nat.not_le.mpr hlow), h.log]
  simp only [Nat.add_sub_cancel_left, show 12 + q - 2 = 10 + q by omega, h.quarter]
  rw [Prod.mk.injEq]
  refine ⟨rfl, ?_⟩
  ring

/-- The class fixes the size of the block. -/
theorem classOf_size (total : ℕ) : (classOf total).2 = classSize (classOf total).1 := by
  rcases Nat.lt_or_ge minBlock total with hlow | hlow
  · obtain ⟨q, k, h⟩ := exists_octave hlow
    rw [h.classOf_eq hlow, classSize_succ h.lt]
  · rw [classOf, if_pos hlow]
    rfl

/-- The class of a request is the first one whose blocks hold it. -/
theorem classOf_le_iff {total cls : ℕ} : (classOf total).1 ≤ cls ↔ total ≤ classSize cls := by
  rcases Nat.lt_or_ge minBlock total with hlow | hlow
  · obtain ⟨q, k, h⟩ := exists_octave hlow
    rw [h.classOf_eq hlow]
    constructor
    · intro hle
      calc
        total ≤ (5 + k) * 2 ^ (10 + q) := h.upTo
        _ = classSize (q * 4 + k + 1) := (classSize_succ h.lt).symm
        _ ≤ classSize cls := classSize_strictMono.monotone hle
    · intro hle
      have hlt : classSize (q * 4 + k) < classSize cls := by
        rw [classSize_quarter h.lt]
        exact h.above.trans_le hle
      exact classSize_strictMono.lt_iff_lt.mp hlt
  · rw [classOf, if_pos hlow]
    exact iff_of_true (Nat.zero_le _) (hlow.trans (classSize_strictMono.monotone (Nat.zero_le cls)))

/-- The class of a request is the least one whose blocks are large enough. -/
theorem classOf_gc : GaloisConnection (fun total ↦ (classOf total).1) classSize :=
  fun _ _ ↦ classOf_le_iff

/-- Four classes to the octave lose less than a quarter of the request to rounding. -/
theorem classOf_waste {total : ℕ} (hlow : minBlock < total) : (classOf total).2 - total < total / 4 := by
  obtain ⟨q, k, h⟩ := exists_octave hlow
  have hpos : 0 < 2 ^ (10 + q) := Nat.pow_pos (by decide)
  have habove := h.above
  have hsize : (5 + k) * 2 ^ (10 + q) = (4 + k) * 2 ^ (10 + q) + 2 ^ (10 + q) := by ring
  have hfour : 4 * 2 ^ (10 + q) ≤ (4 + k) * 2 ^ (10 + q) := Nat.mul_le_mul_right _ (by omega)
  rw [h.classOf_eq hlow]
  dsimp only
  omega

/-- What `alloc` relies on: the class has a list, fixes the size, and the size holds the
request without doubling it. -/
theorem classOf_spec {total : ℕ} (h : total ≤ maxClassBlock) :
    (classOf total).1 < nClass ∧ (classOf total).2 = classSize (classOf total).1 ∧
      total ≤ (classOf total).2 ∧ (classOf total).2 ≤ max minBlock (2 * total) := by
  refine ⟨?_, classOf_size total, ?_, ?_⟩
  · have hmax : maxClassBlock = classSize 56 := rfl
    have hclass : (classOf total).1 ≤ 56 := classOf_le_iff.mpr (hmax ▸ h)
    unfold nClass
    omega
  · rw [classOf_size]
    exact classOf_gc.le_u_l total
  · rcases Nat.lt_or_ge minBlock total with hlow | hlow
    · have hwaste := classOf_waste hlow
      apply le_max_of_le_right
      omega
    · rw [classOf, if_pos hlow]
      exact le_max_left _ _

/-- A dedicated segment holds its block, unless rounding up wraps to an empty one. -/
theorem le_dedicatedSize {total : ℕ} (h : total < 2 ^ 64) (hpos : 0 < dedicatedSize total) :
    total ≤ dedicatedSize total := by
  unfold dedicatedSize dedicatedAlign at *
  rcases Nat.lt_or_ge ((total + (2 ^ 16 - 1)) / 2 ^ 16 * 2 ^ 16) (2 ^ 64) with hlt | hge
  · rw [Nat.mod_eq_of_lt hlt]
    omega
  · omega

end GpuPipe.Store
