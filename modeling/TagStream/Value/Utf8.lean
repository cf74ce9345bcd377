import TagStream.Value.Integer

/-!
Text payloads. A lead byte gives the number of continuation bytes, the first bits of the code point
and the least code point its form may spell; the continuation bytes give six bits each. A sequence
is accepted when it spells a Unicode scalar value in its shortest form. `encode` writes a scalar
value.
-/

namespace TagStream.Utf8

/-- What a lead byte says of the sequence it opens. -/
structure Lead where
  continuation : Nat
  bits : Nat
  least : Nat
  deriving DecidableEq, Repr

/-- The lead bytes of one- to four-byte sequences; a continuation byte is none, nor is a byte with
its five top bits set. -/
def Lead.ofByte? (b : UInt8) : Option Lead :=
  if b < 0x80 then some ⟨0, b.toNat, 0⟩
  else if b &&& 0xE0 = 0xC0 then some ⟨1, b.toNat % 0x20, 0x80⟩
  else if b &&& 0xF0 = 0xE0 then some ⟨2, b.toNat % 0x10, 0x800⟩
  else if b &&& 0xF8 = 0xF0 then some ⟨3, b.toNat % 0x08, 0x10000⟩
  else none

def isContinuation (b : UInt8) : Bool :=
  b &&& 0xC0 == 0x80

/-- A code point that is no surrogate. -/
def isScalar (c : Nat) : Bool :=
  c ≤ 0x10FFFF && !(0xD800 ≤ c && c ≤ 0xDFFF)

/-- The code point that a lead and its continuation bytes spell. -/
def Lead.codePoint (lead : Lead) (rest : List UInt8) : Nat :=
  rest.foldl (fun c b => 64 * c + b.toNat % 64) lead.bits

/-- Whether `rest` completes the sequence that `lead` opens. -/
def Lead.accepts (lead : Lead) (rest : List UInt8) : Bool :=
  rest.length == lead.continuation && rest.all isContinuation &&
    lead.least ≤ lead.codePoint rest && isScalar (lead.codePoint rest)

/-- Whether a byte string is a sequence of encoded scalar values. -/
def isValid : List UInt8 → Bool
  | [] => true
  | first :: rest =>
    match Lead.ofByte? first with
    | none => false
    | some lead =>
      lead.accepts (rest.take lead.continuation) && isValid (rest.drop lead.continuation)
termination_by bytes => bytes.length
decreasing_by simp only [List.length_drop, List.length_cons]; omega

/-- A continuation byte with the low six bits of `n`. -/
def continuationByte (n : Nat) : UInt8 :=
  UInt8.ofNat (0x80 + n % 64)

/-- The shortest form of a code point, in one to four bytes. -/
def encode (c : Nat) : List UInt8 :=
  if c < 0x80 then [UInt8.ofNat c]
  else if c < 0x800 then [UInt8.ofNat (0xC0 + c / 64), continuationByte c]
  else if c < 0x10000 then
    [UInt8.ofNat (0xE0 + c / 4096), continuationByte (c / 64), continuationByte c]
  else
    [UInt8.ofNat (0xF0 + c / 262144), continuationByte (c / 4096), continuationByte (c / 64),
      continuationByte c]

end TagStream.Utf8

/-- Reads a text payload: its bytes, once they are known to be UTF-8. -/
def TagStream.Value.readText (bytes : List UInt8) : Except TagStream.Malformed (List UInt8) :=
  if TagStream.Utf8.isValid bytes then .ok bytes else .error .notUtf8
