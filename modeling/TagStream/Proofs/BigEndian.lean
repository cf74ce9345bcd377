import Mathlib.Algebra.Group.Nat.Defs
import TagStream.Value.Integer

/-!
Big-endian numbers. What is written in a given number of bytes is read back as far as it fits, and a
string of bytes is written again as it was read; the register agrees with the number that is spelled
on strings of at most eight bytes. The code shifts; the lemmas say what that comes to in quotients
and powers.
-/

namespace TagStream.BigEndian

/-! ### Reading and writing -/

@[simp] theorem value_nil : value [] = 0 := rfl

/-- The first byte that is written is the quotient by what the other bytes can count. -/
theorem encode_succ (width n : Nat) :
    encode (width + 1) n = UInt8.ofNat (n / 256 ^ width) :: encode width n := by
  rw [encode, Nat.shiftRight_eq_div_pow, Nat.pow_mul]

/-- What has been read so far counts as many times as there are strings of the bytes after it. -/
theorem foldl_eq_value (bytes : List UInt8) (acc : Nat) :
    bytes.foldl (fun acc b => 256 * acc + b.toNat) acc =
      acc * 256 ^ bytes.length + value bytes := by
  induction bytes generalizing acc with
  | nil => simp
  | cons b bytes ih =>
    rw [value, List.foldl_cons, List.foldl_cons, ih, ih, List.length_cons, Nat.pow_succ]
    rw [Nat.mul_zero, Nat.zero_add, Nat.add_mul, Nat.mul_comm 256 acc, Nat.mul_assoc,
      Nat.mul_comm 256]
    omega

theorem value_cons (b : UInt8) (bytes : List UInt8) :
    value (b :: bytes) = b.toNat * 256 ^ bytes.length + value bytes := by
  rw [value, List.foldl_cons, foldl_eq_value, Nat.mul_zero, Nat.zero_add]

/-- A string of bytes spells a number that fits in as many bytes. -/
theorem value_lt (bytes : List UInt8) : value bytes < 256 ^ bytes.length := by
  induction bytes with
  | nil => simp
  | cons b bytes ih =>
    have digit : b.toNat + 1 ≤ 256 := b.toNat_lt
    have := Nat.mul_le_mul_right (256 ^ bytes.length) digit
    rw [Nat.add_mul] at this
    rw [value_cons, List.length_cons, Nat.pow_succ]
    omega

@[simp] theorem length_encode (width n : Nat) : (encode width n).length = width := by
  induction width with
  | zero => rfl
  | succ width ih => simp [encode, ih]

/-- What is read back is the number that was written, as far as it fits. -/
theorem value_encode (width n : Nat) : value (encode width n) = n % 256 ^ width := by
  induction width with
  | zero => simp [encode, Nat.mod_one]
  | succ width ih =>
    have wider : 256 ^ (width + 1) = 256 ^ width * 256 := Nat.pow_succ 256 width
    rw [encode_succ, value_cons, length_encode, ih, UInt8.toNat_ofNat', wider, Nat.mod_mul,
      Nat.mul_comm, Nat.add_comm]

/-- Only the low bytes of a number are written. -/
theorem encode_mul_add (width k n : Nat) : encode width (k * 256 ^ width + n) = encode width n := by
  induction width generalizing k with
  | zero => rfl
  | succ width ih =>
    have shifted : k * 256 ^ (width + 1) + n = k * 256 * 256 ^ width + n := by
      rw [Nat.pow_succ, Nat.mul_assoc, Nat.mul_comm 256]
    rw [encode_succ, encode_succ, shifted, ih]
    congr 1
    apply UInt8.toNat_inj.mp
    rw [UInt8.toNat_ofNat', UInt8.toNat_ofNat', Nat.add_comm (k * 256 * 256 ^ width),
      Nat.add_mul_div_right _ _ (Nat.pow_pos (by decide))]
    omega

/-- What is written of a number are its low bytes. -/
theorem encode_congr {width m n : Nat} (same : m % 256 ^ width = n % 256 ^ width) :
    encode width m = encode width n := by
  have low (k : Nat) : encode width k = encode width (k % 256 ^ width) := by
    have split : k = k / 256 ^ width * 256 ^ width + k % 256 ^ width :=
      (Nat.div_add_mod' k (256 ^ width)).symm
    exact (congrArg (encode width) split).trans (encode_mul_add width _ _)
  rw [low m, low n, same]

/-- Writing what was read, in as many bytes, gives the same bytes. -/
theorem encode_value (bytes : List UInt8) : encode bytes.length (value bytes) = bytes := by
  induction bytes with
  | nil => rfl
  | cons b bytes ih =>
    have first : (b.toNat * 256 ^ bytes.length + value bytes) / 256 ^ bytes.length = b.toNat := by
      rw [Nat.add_comm, Nat.add_mul_div_right _ _ (Nat.pow_pos (by decide)),
        Nat.div_eq_of_lt (value_lt bytes), Nat.zero_add]
    rw [List.length_cons, encode_succ, value_cons, first, encode_mul_add, ih, UInt8.ofNat_toNat]

/-- The high bytes of a number are written before the low ones. -/
theorem encode_append (high low n : Nat) :
    encode (high + low) n = encode high (n / 256 ^ low) ++ encode low n := by
  induction high with
  | zero =>
    rw [Nat.zero_add]
    rfl
  | succ high ih =>
    have place : n / 256 ^ low / 256 ^ high = n / 256 ^ (high + low) := by
      rw [Nat.div_div_eq_div_mul, ← Nat.pow_add, Nat.add_comm low]
    rw [Nat.succ_add, encode_succ, encode_succ, ih, place, List.cons_append]

theorem encode_zero (width : Nat) : encode width 0 = List.replicate width 0 := by
  induction width with
  | zero => rfl
  | succ width ih =>
    rw [encode_succ, ih, Nat.zero_div]
    rfl

/-! ### The register -/

/-- Shifting by fewer places than a register has multiplies what is there, as far as it fits. -/
theorem toNat_shiftLeft_ofNat {w : UInt64} {places : Nat} (few : places < 64) :
    (w <<< UInt64.ofNat places).toNat = w.toNat * 2 ^ places % 2 ^ 64 := by
  have shift : (UInt64.ofNat places).toNat % 64 = places := by
    rw [UInt64.toNat_ofNat', Nat.mod_eq_of_lt (show places < 2 ^ 64 by omega),
      Nat.mod_eq_of_lt few]
  rw [UInt64.toNat_shiftLeft, shift, Nat.shiftLeft_eq]

/-- Shifting a byte into a register with room for it multiplies what is there by 256 and adds the
byte. -/
theorem toNat_shift_or {acc : UInt64} (b : UInt8) (room : acc.toNat < 2 ^ 56) :
    (acc <<< 8 ||| b.toUInt64).toNat = 256 * acc.toNat + b.toNat := by
  have small : b.toNat < 2 ^ 8 := b.toNat_lt
  have shift : (8 : UInt64).toNat % 64 = 8 := rfl
  rw [UInt64.toNat_or, UInt64.toNat_shiftLeft, UInt8.toNat_toUInt64, shift, Nat.shiftLeft_eq,
    Nat.mod_eq_of_lt (by omega), ← Nat.shiftLeft_eq, ← Nat.shiftLeft_add_eq_or_of_lt small,
    Nat.shiftLeft_eq]
  omega

/-- A register does not overflow while what it holds and what is shifted in fit together. -/
theorem toNat_extend {acc : UInt64} {bytes : List UInt8}
    (fits : (acc.toNat + 1) * 256 ^ bytes.length ≤ 2 ^ 64) :
    (extend acc bytes).toNat = acc.toNat * 256 ^ bytes.length + value bytes := by
  induction bytes generalizing acc with
  | nil => simp [extend]
  | cons b bytes ih =>
    have digit : b.toNat + 1 ≤ 256 := b.toNat_lt
    have one : 1 ≤ 256 ^ bytes.length := Nat.pow_pos (by decide)
    rw [List.length_cons, Nat.pow_succ, Nat.mul_comm (256 ^ _), ← Nat.mul_assoc] at fits
    have room : acc.toNat < 2 ^ 56 := by
      have := Nat.mul_le_mul_left ((acc.toNat + 1) * 256) one
      omega
    have shifted := toNat_shift_or b room
    have still : ((acc <<< 8 ||| b.toUInt64).toNat + 1) * 256 ^ bytes.length ≤ 2 ^ 64 := by
      refine Nat.le_trans (Nat.mul_le_mul_right _ ?_) fits
      omega
    have step : extend acc (b :: bytes) = extend (acc <<< 8 ||| b.toUInt64) bytes := rfl
    rw [step, ih still, shifted, value_cons, List.length_cons, Nat.pow_succ, Nat.add_mul,
      Nat.mul_comm 256, Nat.mul_assoc, Nat.mul_comm 256, Nat.add_assoc]

/-- Eight bytes fit in a register. -/
theorem toNat_word {bytes : List UInt8} (short : bytes.length ≤ 8) :
    (word bytes).toNat = value bytes := by
  rw [word, toNat_extend]
  · simp
  · have := Nat.pow_le_pow_right (show 0 < 256 by decide) short
    simpa using this

/-- Bytes that fit in a register are written from it again. -/
theorem encode_word {bytes : List UInt8} (short : bytes.length ≤ 8) :
    encode bytes.length (word bytes).toNat = bytes := by
  rw [toNat_word short, encode_value]

end TagStream.BigEndian
