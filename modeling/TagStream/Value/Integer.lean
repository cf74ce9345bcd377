/-!
Integers. A string of bytes of any length spells a number (`BigEndian.value`), and `encode` spells a
number in a given number of bytes; a 64-bit register holds what eight bytes spell (`word`). An
integer payload is at most eight bytes, in two's complement where it is signed; an empty one is
zero. A payload that is no value of the declared kind is `Malformed`, in a way that goes by a number
and a wording.
-/

namespace TagStream

/-! ### Malformed payloads -/

/-- The ways in which a payload fails to be a value of the declared kind. -/
inductive Malformed where
  | integerTooLong
  | floatLength
  | notUtf8
  deriving DecidableEq, Repr

namespace Malformed

/-- Causes are numbered downwards from zero, in one signed byte. -/
def code : Malformed → Int8
  | .integerTooLong => -1
  | .floatLength => -2
  | .notUtf8 => -3

def message : Malformed → String
  | .integerTooLong => "integer payload longer than 8 bytes"
  | .floatLength => "float payload must be 0, 4 or 8 bytes"
  | .notUtf8 => "payload is not valid UTF-8"

/-- The cause that goes by this number. -/
def ofCode? (code : Int8) : Option Malformed :=
  match code.toInt with
  | -1 => some .integerTooLong
  | -2 => some .floatLength
  | -3 => some .notUtf8
  | _ => none

/-- The wording for a number: zero stands for success. -/
def messageOfCode (code : Int8) : String :=
  if code = 0 then "ok" else ((ofCode? code).map message).getD "unknown payload error"

end Malformed

/-! ### Big-endian numbers -/

namespace BigEndian

/-- The number that `bytes` spell, most significant byte first. -/
def value (bytes : List UInt8) : Nat :=
  bytes.foldl (fun acc b => 256 * acc + b.toNat) 0

/-- The low `width` bytes of `n`, most significant byte first. -/
def encode : Nat → Nat → List UInt8
  | 0, _ => []
  | width + 1, n => UInt8.ofNat (n >>> (8 * width)) :: encode width n

/-- Shifts `bytes` into the low end of a 64-bit register that holds `acc`. -/
def extend (acc : UInt64) (bytes : List UInt8) : UInt64 :=
  bytes.foldl (fun acc b => acc <<< 8 ||| b.toUInt64) acc

/-- The number that `bytes` spell, kept to 64 bits. -/
def word (bytes : List UInt8) : UInt64 :=
  extend 0 bytes

end BigEndian

/-! ### Integer payloads -/

namespace Value

/-- The longest integer payload, in bytes. -/
def maxIntegerLength : Nat := 8

/-- Reads an unsigned payload. -/
def readUnsigned (bytes : List UInt8) : Except Malformed UInt64 :=
  if bytes.length > maxIntegerLength then .error .integerTooLong
  else .ok (BigEndian.word bytes)

/-- Whether the top bit of the first byte is set. -/
def signBit : List UInt8 → Bool
  | [] => false
  | first :: _ => first &&& 0x80 != 0

/-- Fills the bits above the lowest `length` bytes with ones, if there are any such bits. -/
def extendSign (length : Nat) (w : UInt64) : UInt64 :=
  if length < maxIntegerLength then w ||| (~~~0) <<< UInt64.ofNat (8 * length) else w

/-- Reads a signed payload: the sign bit is copied into the bits the payload leaves out. -/
def readSigned (bytes : List UInt8) : Except Malformed Int64 :=
  (readUnsigned bytes).map fun w =>
    (if signBit bytes then extendSign bytes.length w else w).toInt64

end Value

end TagStream
