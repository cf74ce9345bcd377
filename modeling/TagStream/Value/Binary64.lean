import TagStream.Value.Integer

/-!
Floating-point payloads. A value is kept as its 64-bit pattern, so nothing is lost between the
payload and its reader; a four-byte payload is widened exactly.
-/

namespace TagStream

/-- A double-precision number, as its bit pattern: sign, eleven exponent bits, 52 fraction bits. -/
structure Binary64 where
  bits : UInt64
  deriving DecidableEq, Repr

namespace Binary64

def zero : Binary64 := ⟨0⟩

/-- The pattern with this sign (0 or 1), biased exponent and fraction. -/
def ofParts (sign exponent fraction : Nat) : Binary64 :=
  ⟨UInt64.ofNat ((sign <<< 63) + (exponent <<< 52) + fraction)⟩

/-- All exponent bits set and a fraction that is not zero. -/
def isNaN (x : Binary64) : Bool :=
  x.bits &&& 0x7FFFFFFFFFFFFFFF > 0x7FF0000000000000

/-- Widens a single-precision pattern: sign, eight exponent bits, 23 fraction bits. The exponent is
biased anew, by 1023 in place of 127; a subnormal number becomes a normal one, its leading bit
moving into the exponent; a NaN keeps its fraction and is made quiet. -/
def ofBinary32 (pattern : UInt32) : Binary64 :=
  let sign := pattern.toNat >>> 31
  let exponent := (pattern.toNat >>> 23) % 256
  let fraction := pattern.toNat % 0x800000
  if exponent = 255 then
    if fraction = 0 then ofParts sign 2047 0
    else ofParts sign 2047 (((fraction % 0x400000) <<< 29) + 0x8000000000000)
  else if exponent = 0 then
    if fraction = 0 then ofParts sign 0 0
    else
      let top := fraction.log2
      ofParts sign (top + 874) ((fraction - (1 <<< top)) <<< (52 - top))
  else ofParts sign (exponent + 896) (fraction <<< 29)

end Binary64

/-- Reads a floating-point payload; an empty one is zero. -/
def Value.readFloat (bytes : List UInt8) : Except Malformed Binary64 :=
  match bytes.length with
  | 0 => .ok .zero
  | 4 => .ok (.ofBinary32 (BigEndian.word bytes).toUInt32)
  | 8 => .ok ⟨BigEndian.word bytes⟩
  | _ => .error .floatLength

end TagStream
