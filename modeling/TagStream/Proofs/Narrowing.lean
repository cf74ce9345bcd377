import Mathlib.Algebra.Group.Nat.Defs
import TagStream.Value.Binary64

/-!
Narrowing. A single-precision number that has been widened is found again: `Binary64.toBinary32`
reads the parts of a double-precision pattern and writes them as single precision, and on everything
that was widened and is no NaN it is the inverse (`toBinary32_ofBinary32`). So widening confuses no
two numbers.
-/

namespace TagStream.Binary64

/-! ### Parts -/

def sign (x : Binary64) : Nat :=
  x.bits.toNat / 2 ^ 63

def exponent (x : Binary64) : Nat :=
  x.bits.toNat / 2 ^ 52 % 2048

def fraction (x : Binary64) : Nat :=
  x.bits.toNat % 2 ^ 52

variable {s e f : Nat}

/-- Parts that fit are the number that their pattern spells. -/
theorem toNat_ofParts (hs : s < 2) (he : e < 2048) (hf : f < 2 ^ 52) :
    (ofParts s e f).bits.toNat = s * 2 ^ 63 + e * 2 ^ 52 + f := by
  rw [ofParts, Nat.shiftLeft_eq, Nat.shiftLeft_eq, UInt64.toNat_ofNat', Nat.mod_eq_of_lt]
  omega

/-- Parts that fit are found again. -/
theorem parts_ofParts (hs : s < 2) (he : e < 2048) (hf : f < 2 ^ 52) :
    (ofParts s e f).sign = s ∧ (ofParts s e f).exponent = e ∧ (ofParts s e f).fraction = f := by
  rw [sign, exponent, fraction, toNat_ofParts hs he hf]
  refine ⟨?_, ?_, ?_⟩ <;> omega

/-- A NaN has all exponent bits set and a fraction. -/
theorem isNaN_iff {x : Binary64} : x.isNaN = true ↔ x.exponent = 2047 ∧ x.fraction ≠ 0 := by
  have low : (x.bits &&& 0x7FFFFFFFFFFFFFFF).toNat = x.bits.toNat % 2 ^ 63 := by
    rw [UInt64.toNat_and]
    exact Nat.and_two_pow_sub_one_eq_mod _ 63
  rw [isNaN, decide_eq_true_iff, gt_iff_lt, UInt64.lt_iff_toNat_lt, low, exponent, fraction]
  have infinity : (0x7FF0000000000000 : UInt64).toNat = 2047 * 2 ^ 52 := rfl
  rw [infinity]
  have word : x.bits.toNat < 2 ^ 64 := x.bits.toNat_lt
  omega

/-! ### Narrowing -/

/-- Single precision with the same sign and value. The exponent is biased by 127 in place of 1023,
and an exponent too small for that makes a subnormal number. A value that single precision does not
have is cut off. -/
def toBinary32 (x : Binary64) : UInt32 :=
  let magnitude :=
    if x.exponent = 2047 then 255 * 2 ^ 23 + x.fraction / 2 ^ 29
    else if x.exponent < 874 then 0
    else if x.exponent < 897 then
      let top := x.exponent - 874
      2 ^ top + x.fraction / 2 ^ (52 - top)
    else (x.exponent - 896) * 2 ^ 23 + x.fraction / 2 ^ 29
  UInt32.ofNat (x.sign * 2 ^ 31 + magnitude)

theorem toBinary32_ofParts_infinity (hs : s < 2) :
    (ofParts s 2047 0).toBinary32 = UInt32.ofNat (s * 2 ^ 31 + 255 * 2 ^ 23) := by
  obtain ⟨sign, exponent, fraction⟩ := parts_ofParts (e := 2047) (f := 0) hs (by decide) (by decide)
  rw [toBinary32, sign, exponent, fraction]
  rfl

theorem toBinary32_ofParts_zero (hs : s < 2) :
    (ofParts s 0 0).toBinary32 = UInt32.ofNat (s * 2 ^ 31) := by
  obtain ⟨sign, exponent, fraction⟩ := parts_ofParts (e := 0) (f := 0) hs (by decide) (by decide)
  have finite : ¬ (0 : Nat) = 2047 := by decide
  have small : (0 : Nat) < 874 := by decide
  rw [toBinary32, sign, exponent, fraction]
  simp only [if_neg finite, if_pos small, Nat.add_zero]

/-- A normal number keeps its fraction, and its exponent is biased anew. -/
theorem toBinary32_ofParts_normal (hs : s < 2) (pos : e ≠ 0) (he : e < 255) (hf : f < 2 ^ 23) :
    (ofParts s (e + 896) (f <<< 29)).toBinary32 =
      UInt32.ofNat (s * 2 ^ 31 + (e * 2 ^ 23 + f)) := by
  have biased : e + 896 < 2048 := by omega
  have room : f * 2 ^ 29 < 2 ^ 52 := by omega
  rw [Nat.shiftLeft_eq]
  obtain ⟨sign, exponent, fraction⟩ := parts_ofParts hs biased room
  have finite : ¬ e + 896 = 2047 := by omega
  have large : ¬ e + 896 < 874 := by omega
  have full : ¬ e + 896 < 897 := by omega
  rw [toBinary32, sign, exponent, fraction]
  have unit : 0 < 2 ^ 29 := Nat.pow_pos (by decide)
  simp only [if_neg finite, if_neg large, if_neg full, Nat.add_sub_cancel]
  rw [Nat.mul_div_cancel f unit]

/-- A subnormal number has its leading bit in the exponent, and gets it back. -/
theorem toBinary32_ofParts_subnormal (hs : s < 2) (pos : f ≠ 0) (hf : f < 2 ^ 23) :
    (ofParts s (f.log2 + 874) ((f - (1 <<< f.log2)) <<< (52 - f.log2))).toBinary32 =
      UInt32.ofNat (s * 2 ^ 31 + f) := by
  have top : f.log2 < 23 := (Nat.log2_lt pos).mpr hf
  have low : 2 ^ f.log2 ≤ f := Nat.log2_self_le pos
  have high : f < 2 ^ (f.log2 + 1) := Nat.lt_log2_self
  have unit : 0 < 2 ^ (52 - f.log2) := Nat.pow_pos (by decide)
  have biased : f.log2 + 874 < 2048 := by omega
  have room : (f - 2 ^ f.log2) * 2 ^ (52 - f.log2) < 2 ^ 52 := by
    have few : f - 2 ^ f.log2 < 2 ^ f.log2 := by
      rw [Nat.pow_succ] at high
      omega
    have whole : 2 ^ f.log2 * 2 ^ (52 - f.log2) = 2 ^ 52 := by
      rw [← Nat.pow_add, Nat.add_sub_cancel' (by omega)]
    rw [← whole]
    exact Nat.mul_lt_mul_of_pos_right few unit
  rw [Nat.one_shiftLeft, Nat.shiftLeft_eq]
  obtain ⟨sign, exponent, fraction⟩ := parts_ofParts hs biased room
  have finite : ¬ f.log2 + 874 = 2047 := by omega
  have large : ¬ f.log2 + 874 < 874 := by omega
  have small : f.log2 + 874 < 897 := by omega
  rw [toBinary32, sign, exponent, fraction]
  simp only [if_neg finite, if_neg large, if_pos small, Nat.add_sub_cancel]
  rw [Nat.mul_div_cancel _ unit, Nat.add_sub_cancel' low]

/-- Narrowing undoes widening, but for NaNs. -/
theorem toBinary32_ofBinary32 {p : UInt32} (number : (ofBinary32 p).isNaN = false) :
    (ofBinary32 p).toBinary32 = p := by
  have word : p.toNat < 2 ^ 32 := p.toNat_lt
  have fields : p.toNat >>> 31 = p.toNat / 2 ^ 31 ∧ p.toNat >>> 23 = p.toNat / 2 ^ 23 :=
    ⟨Nat.shiftRight_eq_div_pow _ _, Nat.shiftRight_eq_div_pow _ _⟩
  have sign_lt : p.toNat >>> 31 < 2 := by omega
  have fraction_lt : p.toNat % 0x800000 < 2 ^ 23 := Nat.mod_lt _ (by decide)
  -- In each case the parts put together are the pattern.
  have whole {n : Nat} (h : n = p.toNat) : UInt32.ofNat n = p := by rw [h, UInt32.ofNat_toNat]
  unfold ofBinary32 at number ⊢
  simp only at number ⊢
  by_cases special : (p.toNat >>> 23) % 256 = 255
  · rw [if_pos special] at number ⊢
    by_cases infinite : p.toNat % 0x800000 = 0
    · rw [if_pos infinite, toBinary32_ofParts_infinity sign_lt]
      exact whole (by omega)
    · rw [if_neg infinite] at number
      have quiet : ((p.toNat % 0x800000 % 0x400000) <<< 29) + 0x8000000000000 < 2 ^ 52 := by
        rw [Nat.shiftLeft_eq]
        omega
      obtain ⟨-, exponent, fraction⟩ := parts_ofParts (e := 2047) sign_lt (by decide) quiet
      have isNaN := isNaN_iff.mpr ⟨exponent, by omega⟩
      rw [number] at isNaN
      cases isNaN
  · rw [if_neg special]
    by_cases tiny : (p.toNat >>> 23) % 256 = 0
    · rw [if_pos tiny]
      by_cases zero : p.toNat % 0x800000 = 0
      · rw [if_pos zero, toBinary32_ofParts_zero sign_lt]
        exact whole (by omega)
      · rw [if_neg zero, toBinary32_ofParts_subnormal sign_lt zero fraction_lt]
        exact whole (by omega)
    · have finite : (p.toNat >>> 23) % 256 < 255 := by omega
      rw [if_neg tiny, toBinary32_ofParts_normal sign_lt tiny finite fraction_lt]
      exact whole (by omega)

end TagStream.Binary64
