import GpuPipe.Library.Checked
import GpuPipe.Store.Process

/-!
# Size classes on machine words

`class_of` and the segment length of `Store::new` in 64-bit arithmetic. Far beyond the largest
class block no operation of `class_of` leaves its range, so it computes `classOf` whatever the
build does about overflow; and a regular segment of any store takes the blocks of all the
classes that the store asks for.
-/

namespace GpuPipe.Store

/-- The segment length that `Store::new` writes: the argument, at least 64 KiB, rounded up to
a multiple of 64 KiB. Without overflow checks an argument in the last 64 KiB below 2^64 is
rounded up to zero. -/
def newSegBytes (segBytes : ℕ) : ℕ := nextMultipleOf 64 (max segBytes (minBlock * 16)) dedicatedAlign

/-- `class_of`, `none` where an operation underflows, overflows, shifts by the whole word or
divides by zero. -/
def classOfChecked (total : ℕ) : Option (ℕ × ℕ) :=
  if total ≤ minBlock then some (0, minBlock)
  else do
    let last ← checkedSub total 1
    let p ← checkedSub 63 (leadingZeros 64 last)
    let step ← checkedShiftLeft 64 1 (← checkedSub p 2)
    let power ← checkedShiftLeft 64 1 p
    let k ← checkedDiv (← checkedSub last power) step
    let octave ← checkedMul 64 (← checkedSub p 12) 4
    let cls ← checkedAdd 64 (← checkedAdd 64 octave k) 1
    let rest ← checkedMul 64 (← checkedAdd 64 k 1) step
    return (cls, ← checkedAdd 64 power rest)

/-- Up to 2^63 bytes no operation of `class_of` leaves its range. -/
theorem classOfChecked_eq {total : ℕ} (h : total ≤ 2 ^ 63) : classOfChecked total = some (classOf total) := by
  rcases Nat.lt_or_ge minBlock total with hlow | hlow
  · obtain ⟨q, k, hoct⟩ := exists_octave hlow
    have hq : q ≤ 50 := hoct.le h
    have hk := hoct.lt
    have hlast : 0 < total - 1 := by
      unfold minBlock at hlow
      omega
    have hzeros : leadingZeros 64 (total - 1) = 63 - (12 + q) := by
      rw [leadingZeros_eq hlast (by omega), hoct.log]
    have hle : 2 ^ (12 + q) ≤ total - 1 := hoct.log ▸ Nat.pow_log_le_self 2 hlast.ne'
    have hstep : 0 < 2 ^ (10 + q) := Nat.pow_pos (by decide)
    -- the block ends where the octave does, at the latest
    have hrest : (k + 1) * 2 ^ (10 + q) ≤ 2 ^ (12 + q) :=
      calc
        (k + 1) * 2 ^ (10 + q) ≤ 4 * 2 ^ (10 + q) := Nat.mul_le_mul_right _ (by omega)
        _ = 2 ^ (12 + q) := by ring
    have hpower : 2 ^ (12 + q) ≤ 2 ^ 62 := Nat.pow_le_pow_right (by decide) (by omega)
    have hsize : 2 ^ (12 + q) + (k + 1) * 2 ^ (10 + q) = (5 + k) * 2 ^ (10 + q) := by ring
    rw [hoct.classOf_eq hlow, classOfChecked, if_neg (Nat.not_le.mpr hlow), checkedSub_bind _ (by omega),
      hzeros, checkedSub_bind _ (by omega), show 63 - (63 - (12 + q)) = 12 + q by omega,
      checkedSub_bind _ (by omega), show 12 + q - 2 = 10 + q by omega,
      checkedShiftLeft_one_bind _ (by omega), checkedShiftLeft_one_bind _ (by omega),
      checkedSub_bind _ hle, checkedDiv_bind _ hstep, hoct.quarter, checkedSub_bind _ (by omega),
      Nat.add_sub_cancel_left, checkedMul_bind _ (by omega), checkedAdd_bind _ (by omega),
      checkedAdd_bind _ (by omega), checkedAdd_bind _ (by omega), checkedMul_bind _ (by omega),
      checkedAdd_bind _ (by omega), hsize, Option.pure_def]
  · rw [classOfChecked, classOf, if_pos hlow, if_pos hlow]

example : classOfChecked 8193 = some (5, 10240) := by decide

/-! ## The segments of a store -/

theorem dedicatedAlign_dvd_newSegBytes (segBytes : ℕ) : dedicatedAlign ∣ newSegBytes segBytes :=
  dvd_nextMultipleOf (by decide) (by decide)

/-- The model of a store, whose segments stay below 2^40 bytes, has this length. -/
theorem PayloadStore.new_segBytes {limit segBytes : ℕ} (h : segBytes ≤ 2 ^ 40) :
    (PayloadStore.new limit segBytes h).segBytes = newSegBytes segBytes := by
  have hroom : max segBytes (minBlock * 16) + dedicatedAlign ≤ 2 ^ 64 := by
    unfold minBlock dedicatedAlign
    omega
  exact (nextMultipleOf_eq (by decide) hroom).symm

/-- The shortest segment is 64 KiB long, unless rounding up has wrapped around. -/
theorem dedicatedAlign_le_newSegBytes {segBytes : ℕ} (h : 0 < newSegBytes segBytes) :
    dedicatedAlign ≤ newSegBytes segBytes :=
  Nat.le_of_dvd h (dedicatedAlign_dvd_newSegBytes segBytes)

/-! ## Soundness for the allocator -/

/-- What `alloc` needs of `class_of` for a request in a store with segments of `segBytes` bytes:
it returns, the class has a free list, and its blocks hold the request, fit into a segment, keep
the headers aligned and waste less than a quarter of the request. -/
structure SoundClass (segBytes total : ℕ) : Prop where
  returns : classOfChecked total = some (classOf total)
  listed : (classOf total).1 < nClass
  holds : total ≤ (classOf total).2
  fits : (classOf total).2 ≤ segBytes
  aligned : 64 ∣ (classOf total).2
  waste : minBlock < total → (classOf total).2 - total < total / 4

theorem SoundClass.of_le {segBytes total : ℕ} (hlow : blkHdr ≤ total)
    (hhigh : total ≤ min maxClassBlock (newSegBytes segBytes / 4)) :
    SoundClass (newSegBytes segBytes) total := by
  have hmax : total ≤ maxClassBlock := hhigh.trans (min_le_left _ _)
  have hquarter : total ≤ newSegBytes segBytes / 4 := hhigh.trans (min_le_right _ _)
  have hpos : 0 < newSegBytes segBytes := by
    unfold blkHdr at hlow
    omega
  obtain ⟨hlisted, hsize, hholds, hbound⟩ := classOf_spec hmax
  refine ⟨classOfChecked_eq (hmax.trans (by decide)), hlisted, hholds, ?_, ?_, classOf_waste⟩
  · have hmin : minBlock ≤ dedicatedAlign := by decide
    refine hbound.trans (max_le (hmin.trans (dedicatedAlign_le_newSegBytes hpos)) ?_)
    omega
  · rw [hsize]
    exact blkHdr_dvd_classSize _

/-- In every store, the classes of all requests that are not dedicated are sound, tell sizes
apart and grow with the request. -/
theorem classOf_sound {segBytes total total' : ℕ}
    (hlow : blkHdr ≤ total) (hhigh : total ≤ min maxClassBlock (newSegBytes segBytes / 4))
    (hlow' : blkHdr ≤ total') (hhigh' : total' ≤ min maxClassBlock (newSegBytes segBytes / 4)) :
    SoundClass (newSegBytes segBytes) total ∧ SoundClass (newSegBytes segBytes) total' ∧
      ((classOf total).1 = (classOf total').1 ↔ (classOf total).2 = (classOf total').2) ∧
      (total ≤ total' → (classOf total).1 ≤ (classOf total').1) := by
  refine ⟨.of_le hlow hhigh, .of_le hlow' hhigh', ?_, ?_⟩
  · rw [classOf_size, classOf_size]
    exact classSize_strictMono.injective.eq_iff.symm
  · intro hle
    exact classOf_gc.monotone_l hle

/-- Two requests around the end of the first octave, in a store with the default segments. -/
theorem classOf_sound_octave :
    SoundClass (newSegBytes (2 ^ 26)) 8192 ∧ SoundClass (newSegBytes (2 ^ 26)) 8193 ∧
      ((classOf 8192).1 = (classOf 8193).1 ↔ (classOf 8192).2 = (classOf 8193).2) ∧
      (8192 ≤ 8193 → (classOf 8192).1 ≤ (classOf 8193).1) :=
  classOf_sound (by decide) (by decide) (by decide) (by decide)

end GpuPipe.Store
