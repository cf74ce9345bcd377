import TagStream.Proofs.Payload
import TagStream.Proofs.Utf8

/-!
Integer payloads. In two's complement a byte string spells the one number of its range that differs
from the unsigned number by a multiple of how many numbers there are (`BigEndian.spellsSigned_iff`);
the sign is the top bit of the first byte, and bytes that repeat the sign may stand in front
(`BigEndian.signedValue_signByte`). A payload that fits into a register is read as the numbers that
it spells (`BigEndian.toNat_word`, `Value.exists_readSigned`), and written again from them. The last
part looks at the bytes by their place and shifts a register as a machine does, and finds that it
neither looks past the end nor shifts too far.
-/

namespace TagStream

/-! ### Signed numbers -/

namespace BigEndian

/-- `n` is in the range of two's complement numbers of as many bytes, and differs from the unsigned
number by a multiple of how many there are. Without bytes, it is zero. -/
def SpellsSigned (bytes : List UInt8) (n : Int) : Prop :=
  if bytes = [] then n = 0
  else
    (-(2 ^ (8 * bytes.length - 1) : Nat) ≤ n ∧ n < (2 ^ (8 * bytes.length - 1) : Nat)) ∧
      ((2 ^ (8 * bytes.length) : Nat) : Int) ∣ n - value bytes

/-- The number that `bytes` spell in two's complement. -/
def signedValue (bytes : List UInt8) : Int :=
  if 2 * value bytes < 256 ^ bytes.length then value bytes
  else value bytes - (256 ^ bytes.length : Nat)

/-- The low `width` bytes of `n` in two's complement, most significant byte first. -/
def encodeSigned (width : Nat) (n : Int) : List UInt8 :=
  encode width (n % (256 ^ width : Nat)).toNat

/-- The byte of sign bits only. -/
def signByte (n : Int) : UInt8 :=
  if n < 0 then 0xFF else 0x00

/-- There are twice as many numbers as there are of either sign. -/
theorem pow_length_eq {bytes : List UInt8} (nonempty : bytes ≠ []) :
    256 ^ bytes.length = 2 * 2 ^ (8 * bytes.length - 1) ∧
      2 ^ (8 * bytes.length) = 2 * 2 ^ (8 * bytes.length - 1) := by
  have pos := List.length_pos_iff.mpr nonempty
  have bits : 2 ^ (8 * bytes.length) = 2 * 2 ^ (8 * bytes.length - 1) := by
    rw [← Nat.pow_succ']
    congr 1
    omega
  exact ⟨(Nat.pow_mul 2 8 bytes.length).symm.trans bits, bits⟩

/-- Two's complement spells the number of its range with the same remainder. -/
theorem spellsSigned_iff {bytes : List UInt8} {n : Int} :
    SpellsSigned bytes n ↔ n = signedValue bytes := by
  unfold SpellsSigned
  split
  · next empty =>
    subst empty
    rfl
  · next nonempty =>
    have small := value_lt bytes
    obtain ⟨bytes_eq, bits_eq⟩ := pow_length_eq nonempty
    unfold signedValue
    rw [bytes_eq] at small ⊢
    rw [bits_eq]
    have pos : 0 < 2 ^ (8 * bytes.length - 1) := Nat.two_pow_pos _
    generalize 2 ^ (8 * bytes.length - 1) = half at small pos ⊢
    generalize value bytes = m at small ⊢
    have residue : (m : Int).bmod (2 * half) =
        if 2 * m < 2 * half then (m : Int) else m - (2 * half : Nat) := by
      rw [Int.bmod_def, Int.emod_eq_of_lt (Int.natCast_nonneg m) (Int.ofNat_lt.mpr small)]
      split <;> split <;> omega
    rw [← residue, eq_comm, Int.bmod_eq_iff (by omega), ← and_assoc]
    refine and_congr_left fun _ => ?_
    omega

instance (bytes : List UInt8) (n : Int) : Decidable (SpellsSigned bytes n) :=
  decidable_of_iff _ spellsSigned_iff.symm

theorem signedValue_of_lt {bytes : List UInt8} (lower : 2 * value bytes < 256 ^ bytes.length) :
    signedValue bytes = value bytes :=
  if_pos lower

theorem signedValue_of_le {bytes : List UInt8} (upper : 256 ^ bytes.length ≤ 2 * value bytes) :
    signedValue bytes = value bytes - (256 ^ bytes.length : Nat) :=
  if_neg (Nat.not_lt.mpr upper)

/-- The numbers that are spelled signed and unsigned have the same bytes. -/
theorem encodeSigned_signedValue (bytes : List UInt8) :
    encodeSigned bytes.length (signedValue bytes) = bytes := by
  have small := value_lt bytes
  have residue : signedValue bytes % (256 ^ bytes.length : Nat) = value bytes := by
    unfold signedValue
    split
    · exact Int.emod_eq_of_lt (Int.natCast_nonneg _) (Int.ofNat_lt.mpr small)
    · rw [Int.sub_emod_right]
      exact Int.emod_eq_of_lt (Int.natCast_nonneg _) (Int.ofNat_lt.mpr small)
  rw [encodeSigned, residue, Int.toNat_natCast, encode_value]

/-- The sign may be repeated in front. -/
theorem signedValue_signByte (bytes : List UInt8) :
    signedValue (signByte (signedValue bytes) :: bytes) = signedValue bytes := by
  have small := value_lt bytes
  have wider (b : UInt8) : 256 ^ (b :: bytes).length = 256 * 256 ^ bytes.length := by
    rw [List.length_cons, Nat.pow_succ']
  by_cases lower : 2 * value bytes < 256 ^ bytes.length
  · have same := signedValue_of_lt lower
    have sign : signByte (signedValue bytes) = 0x00 := if_neg (by omega)
    have spelled : value (0x00 :: bytes) = value bytes := by
      rw [value_cons, UInt8.toNat_zero, Nat.zero_mul, Nat.zero_add]
    have lower' : 2 * value (0x00 :: bytes) < 256 ^ (0x00 :: bytes).length := by
      rw [spelled, wider]
      omega
    rw [sign, signedValue_of_lt lower', spelled, same]
  · have upper := Nat.not_lt.mp lower
    have same := signedValue_of_le upper
    have sign : signByte (signedValue bytes) = 0xFF := if_pos (by omega)
    have spelled : value (0xFF :: bytes) = 255 * 256 ^ bytes.length + value bytes :=
      value_cons 0xFF bytes
    have upper' : 256 ^ (0xFF :: bytes).length ≤ 2 * value (0xFF :: bytes) := by
      rw [spelled, wider]
      omega
    rw [sign, signedValue_of_le upper', spelled, wider, same]
    omega

theorem signedValue_replicate (bytes : List UInt8) (count : Nat) :
    signedValue (List.replicate count (signByte (signedValue bytes)) ++ bytes) =
      signedValue bytes := by
  induction count with
  | zero => rfl
  | succ count ih =>
    have again :=
      signedValue_signByte (List.replicate count (signByte (signedValue bytes)) ++ bytes)
    rw [ih] at again
    exact again

end BigEndian

/-! ### Payloads -/

namespace Value

theorem readUnsigned_eq {bytes : List UInt8} (fits : bytes.length ≤ maxIntegerLength) :
    readUnsigned bytes = .ok (BigEndian.word bytes) :=
  if_neg (Nat.not_lt.mpr fits)

theorem readUnsigned_eq_error {bytes : List UInt8} (long : maxIntegerLength < bytes.length) :
    readUnsigned bytes = .error .integerTooLong :=
  if_pos long

/-- The sign bit is set in the upper half of the numbers. -/
theorem signBit_iff {bytes : List UInt8} :
    signBit bytes = true ↔ 256 ^ bytes.length ≤ 2 * BigEndian.value bytes := by
  cases bytes with
  | nil => decide
  | cons first rest =>
    have top : (first &&& 0x80 != 0) = true ↔ 128 ≤ first.toNat :=
      Utf8.forall_byte (P := fun b => (b &&& 0x80 != 0) = true ↔ 128 ≤ b.toNat) (by decide +kernel)
        first
    have small := BigEndian.value_lt rest
    rw [signBit, top, BigEndian.value_cons, List.length_cons, Nat.pow_succ]
    constructor
    · intro high
      have := Nat.mul_le_mul_right (256 ^ rest.length) high
      omega
    · intro upper
      apply Nat.le_of_not_lt
      intro low
      have := Nat.mul_le_mul_right (256 ^ rest.length) (Nat.le_of_lt_succ low)
      omega

/-- The ones that are filled in above a payload and the payload's own numbers make up all words. -/
theorem toNat_ones_shiftLeft {k : Nat} (few : k < 64) :
    ((~~~0 : UInt64) <<< UInt64.ofNat k).toNat + 2 ^ k = 2 ^ 64 := by
  have ones : (~~~0 : UInt64).toNat = 2 ^ 64 - 1 := rfl
  have pos : 0 < 2 ^ k := Nat.two_pow_pos k
  have less : 2 ^ k < 2 ^ 64 := Nat.pow_lt_pow_right (by decide) few
  rw [BigEndian.toNat_shiftLeft_ofNat few, ones]
  omega

/-- Filling the bits above those of a payload adds all words that it cannot spell; there are none if
the payload has as many bits as a word. -/
theorem toNat_extendSign_add {length : Nat} {w : UInt64} (fits : length ≤ maxIntegerLength)
    (small : w.toNat < 256 ^ length) :
    (extendSign length w).toNat + 256 ^ length = w.toNat + 2 ^ 64 := by
  rcases Nat.lt_or_eq_of_le fits with short | rfl
  · have few : 8 * length < 64 := by
      unfold maxIntegerLength at short
      omega
    have power : 256 ^ length = 2 ^ (8 * length) := (Nat.pow_mul 2 8 length).symm
    have filled := toNat_ones_shiftLeft few
    obtain ⟨count, words⟩ : 2 ^ (8 * length) ∣ 2 ^ 64 := Nat.pow_dvd_pow 2 (Nat.le_of_lt few)
    rw [power] at small ⊢
    have mask : ((~~~0 : UInt64) <<< UInt64.ofNat (8 * length)).toNat =
        2 ^ (8 * length) * (count - 1) := by
      rw [Nat.mul_sub, ← words]
      omega
    -- No bit of the payload is among those that are filled, so that the numbers add up.
    rw [extendSign, if_pos short, UInt64.toNat_or, Nat.or_comm, mask,
      ← Nat.two_pow_add_eq_or_of_lt small, ← mask]
    omega
  · rfl

/-- A word, taken as a signed one. -/
theorem toInt_toInt64 (w : UInt64) :
    w.toInt64.toInt =
      if w.toNat < 2 ^ 63 then (w.toNat : Int) else w.toNat - (2 ^ 64 : Nat) := by
  have small : w.toNat < 2 ^ 64 := w.toNat_lt
  have signed : w.toInt64.toInt = (w.toNat : Int).bmod (2 ^ 64) :=
    BitVec.toInt_eq_toNat_bmod w.toBitVec
  rw [signed, Int.bmod_def]
  omega

/-- What is read of a signed payload is the number that it spells in two's complement. -/
theorem exists_readSigned {bytes : List UInt8} (fits : bytes.length ≤ maxIntegerLength) :
    ∃ k, readSigned bytes = .ok k ∧ k.toInt = BigEndian.signedValue bytes := by
  have spelled := BigEndian.toNat_word fits
  have small := BigEndian.value_lt bytes
  have words : 256 ^ bytes.length ≤ 2 ^ 64 := Nat.pow_le_pow_right (by decide) fits
  rw [readSigned, readUnsigned_eq fits]
  refine ⟨_, rfl, ?_⟩
  dsimp only
  rw [toInt_toInt64]
  split
  · next negative =>
    have upper := signBit_iff.mp negative
    have filled := toNat_extendSign_add fits (spelled ▸ small)
    rw [BigEndian.signedValue_of_le upper]
    split <;> omega
  · next positive =>
    have lower : 2 * BigEndian.value bytes < 256 ^ bytes.length := by
      apply Nat.lt_of_not_le
      intro upper
      exact positive (signBit_iff.mpr upper)
    rw [BigEndian.signedValue_of_lt lower, spelled, if_pos (by omega)]

end Value

/-! ### By place -/

namespace BigEndian

/-- Shifts a register to the left. There is no answer if it has not more places than it is shifted
by. -/
def shifted? (w : UInt64) (places : Nat) : Option UInt64 :=
  if places < 64 then some (w <<< UInt64.ofNat places) else none

/-- Shifts the `count` bytes that stand from `place` on into the low end of a register. There is no
answer if a byte is looked at that is not there. -/
def extendAt (bytes : List UInt8) (place : Nat) (acc : UInt64) : (count : Nat) → Option UInt64
  | 0 => some acc
  | count + 1 => do
    let b ← bytes[place]?
    let high ← shifted? acc 8
    extendAt bytes (place + 1) (high ||| b.toUInt64) count

theorem extendAt_eq {bytes : List UInt8} {place count : Nat} {acc : UInt64}
    (inside : place + count ≤ bytes.length) :
    extendAt bytes place acc count = some (extend acc ((bytes.drop place).take count)) := by
  induction count generalizing place acc with
  | zero => rfl
  | succ count ih =>
    have here : place < bytes.length := by omega
    rw [extendAt, List.getElem?_eq_getElem here, List.drop_eq_getElem_cons here,
      List.take_succ_cons, Option.bind_eq_bind, Option.bind_some]
    exact ih (by omega)

end BigEndian

namespace Value

/-- Reads an unsigned payload into a variable that has a value already: what is wrong with the
payload, if anything is, and the value afterwards. -/
def readUnsignedInto (bytes : List UInt8) (value : UInt64) : Option (Option Malformed × UInt64) :=
  if bytes.length > maxIntegerLength then return (some .integerTooLong, value)
  else do
    let register ← BigEndian.extendAt bytes 0 0 bytes.length
    return (none, register)

/-- Reads a signed payload into a variable that has a value already. The first byte is looked at
only if it may leave bits to be filled. -/
def readSignedInto (bytes : List UInt8) (value : Int64) : Option (Option Malformed × Int64) := do
  match ← readUnsignedInto bytes 0 with
  | (some malformed, _) => return (some malformed, value)
  | (none, register) =>
    if 0 < bytes.length ∧ bytes.length < maxIntegerLength then
      let first ← bytes[0]?
      if first &&& 0x80 != 0 then
        let mask ← BigEndian.shifted? (~~~0) (8 * bytes.length)
        return (none, (register ||| mask).toInt64)
      else return (none, register.toInt64)
    else return (none, register.toInt64)

theorem readUnsignedInto_of_fits {bytes : List UInt8} (fits : bytes.length ≤ maxIntegerLength)
    (value : UInt64) : readUnsignedInto bytes value = some (none, BigEndian.word bytes) := by
  have whole : BigEndian.extendAt bytes 0 0 bytes.length = some (BigEndian.word bytes) := by
    rw [BigEndian.extendAt_eq (Nat.le_of_eq (Nat.zero_add bytes.length)), List.drop_zero,
      List.take_length]
    rfl
  rw [readUnsignedInto, if_neg (Nat.not_lt.mpr fits), whole]
  rfl

theorem readSignedInto_of_fits {bytes : List UInt8} (fits : bytes.length ≤ maxIntegerLength)
    (value : Int64) : readSignedInto bytes value =
      some (none, (if signBit bytes then extendSign bytes.length (BigEndian.word bytes)
        else BigEndian.word bytes).toInt64) := by
  rw [readSignedInto, readUnsignedInto_of_fits fits, Option.bind_eq_bind, Option.bind_some]
  dsimp only
  cases bytes with
  | nil => rfl
  | cons first rest =>
    by_cases short : (first :: rest).length < maxIntegerLength
    · have few : 8 * (first :: rest).length < 64 := by
        unfold maxIntegerLength at short
        omega
      rw [if_pos ⟨Nat.succ_pos _, short⟩, List.getElem?_cons_zero, Option.bind_eq_bind,
        Option.bind_some, BigEndian.shifted?, if_pos few, extendSign, if_pos short, signBit]
      cases first &&& 0x80 != 0 <;> rfl
    · rw [if_neg (fun both => short both.2), extendSign, if_neg short, ite_self]
      rfl

theorem readInto_of_long {bytes : List UInt8} (long : maxIntegerLength < bytes.length)
    (unsigned : UInt64) (signed : Int64) :
    readUnsignedInto bytes unsigned = some (some .integerTooLong, unsigned) ∧
      readSignedInto bytes signed = some (some .integerTooLong, signed) := by
  have refused (value : UInt64) :
      readUnsignedInto bytes value = some (some .integerTooLong, value) := if_pos long
  refine ⟨refused unsigned, ?_⟩
  rw [readSignedInto, refused]
  rfl

end Value

/-- **Integer payloads are read exactly.** One that is longer than eight bytes is refused, and the
variable that it was to be read into keeps its value. Any other is read as the number that it
spells: unsigned, the big-endian one; signed, the only one that it spells in two's complement, as
which it is read still if bytes of its sign are put in front. Either number is written as the
payload again. In no case is a byte looked at that lies past the end, and no register is shifted by
all its places or loses a bit that was shifted in. -/
theorem Value.reads_integers (bytes : List UInt8) (unsigned : UInt64) (signed : Int64) :
    (8 < bytes.length →
      (readUnsigned bytes = .error .integerTooLong ∧
        readUnsignedInto bytes unsigned = some (some .integerTooLong, unsigned)) ∧
      readSigned bytes = .error .integerTooLong ∧
        readSignedInto bytes signed = some (some .integerTooLong, signed)) ∧
    (bytes.length ≤ 8 → ∃ n k,
      (readUnsigned bytes = .ok n ∧ readUnsignedInto bytes unsigned = some (none, n)) ∧
      (readSigned bytes = .ok k ∧ readSignedInto bytes signed = some (none, k)) ∧
      (n.toNat = BigEndian.value bytes ∧ ∀ m, BigEndian.SpellsSigned bytes m ↔ m = k.toInt) ∧
      (BigEndian.encode bytes.length n.toNat = bytes ∧
        BigEndian.encodeSigned bytes.length k.toInt = bytes) ∧
      (∀ count, count + bytes.length ≤ 8 →
        readSigned (List.replicate count (BigEndian.signByte k.toInt) ++ bytes) = .ok k) ∧
      ∀ count, count < bytes.length →
        (BigEndian.word (bytes.take count)).toNat = BigEndian.value (bytes.take count) ∧
          BigEndian.value (bytes.take count) < 2 ^ 56) := by
  constructor
  · intro long
    obtain ⟨keepsUnsigned, keepsSigned⟩ := readInto_of_long long unsigned signed
    have refused := readUnsigned_eq_error long
    refine ⟨⟨refused, keepsUnsigned⟩, ?_, keepsSigned⟩
    rw [readSigned, refused]
    rfl
  · intro fits
    obtain ⟨k, read, spelled⟩ := exists_readSigned fits
    refine ⟨BigEndian.word bytes, k, ⟨readUnsigned_eq fits, readUnsignedInto_of_fits fits _⟩,
      ⟨read, ?_⟩, ⟨BigEndian.toNat_word fits, ?_⟩, ⟨BigEndian.encode_word fits, ?_⟩, ?_, ?_⟩
    · rw [readSignedInto_of_fits fits]
      rw [readSigned, readUnsigned_eq fits] at read
      exact congrArg (fun k => some (none, k)) (Except.ok.inj read)
    · intro m
      rw [BigEndian.spellsSigned_iff, spelled]
    · rw [spelled]
      exact BigEndian.encodeSigned_signedValue bytes
    · intro count room
      have length : (List.replicate count (BigEndian.signByte k.toInt) ++ bytes).length ≤ 8 := by
        rw [List.length_append, List.length_replicate]
        exact room
      obtain ⟨k', read', spelled'⟩ := exists_readSigned length
      rw [spelled, BigEndian.signedValue_replicate, ← spelled] at spelled'
      rw [read', Int64.toInt_inj.mp spelled']
    · intro count within
      have length : (bytes.take count).length = count :=
        List.length_take_of_le (Nat.le_of_lt within)
      have small := BigEndian.value_lt (bytes.take count)
      have bits : 256 ^ (bytes.take count).length ≤ 256 ^ 7 :=
        Nat.pow_le_pow_right (by decide) (by omega)
      exact ⟨BigEndian.toNat_word (by omega), Nat.lt_of_lt_of_le small bits⟩

/-- A negative number in two bytes, and nine bytes. -/
theorem Value.reads_integers_negative :
    (8 < (List.replicate 9 0x01).length ∧
      readSignedInto (List.replicate 9 0x01) (-7) = some (some .integerTooLong, -7)) ∧
    ([0xFF, 0x7E].length ≤ 8 ∧ ∃ n k,
      (readUnsigned [0xFF, 0x7E] = .ok n ∧ n.toNat = 0xFF7E) ∧
      (readSigned [0xFF, 0x7E] = .ok k ∧ k.toInt = -130) ∧
      (6 + [0xFF, 0x7E].length ≤ 8 ∧
        readSigned (List.replicate 6 (BigEndian.signByte k.toInt) ++ [0xFF, 0x7E]) = .ok k) ∧
      (1 < [0xFF, 0x7E].length ∧
        (BigEndian.word ([0xFF, 0x7E].take 1)).toNat = BigEndian.value [0xFF])) := by
  have long : 8 < (List.replicate 9 (0x01 : UInt8)).length := by decide
  obtain ⟨-, -, keeps⟩ := (reads_integers (List.replicate 9 0x01) 7 (-7)).1 long
  have fits : ([0xFF, 0x7E] : List UInt8).length ≤ 8 := by decide
  obtain ⟨n, k, ⟨unsigned, -⟩, ⟨signed, -⟩, ⟨spelled, spells⟩, -, extends', steps⟩ :=
    (reads_integers [0xFF, 0x7E] 7 (-7)).2 fits
  have negative : BigEndian.SpellsSigned [0xFF, 0x7E] (-130) := by decide
  have room : 6 + ([0xFF, 0x7E] : List UInt8).length ≤ 8 := by decide
  exact ⟨⟨long, keeps⟩, fits, n, k, ⟨unsigned, spelled⟩, ⟨signed, ((spells _).mp negative).symm⟩,
    ⟨room, extends' 6 room⟩, by decide, (steps 1 (by decide)).1⟩

end TagStream
