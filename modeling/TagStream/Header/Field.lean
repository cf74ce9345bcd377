import TagStream.Header.Vint

/-!
The two fields of a tag header. An element id keeps the marker bit of the integer it was written
as, so ids of different widths never meet; a size drops it, and the size whose value bits are all
ones says that the length is unknown.
-/

namespace TagStream

/-- An element id, marker bit included: `0x1A45DFA3` is written as exactly these four bytes. -/
abbrev ElementId := UInt64

namespace ElementId

/-- The id a variable-length integer spells when its marker bit is kept. -/
def ofVint (v : Vint) : ElementId :=
  v.value + 1 <<< UInt64.ofNat (7 * v.width)

/-- Reads the id at the front of a byte string, with its width in bytes. -/
def read (bytes : List UInt8) : Front (ElementId × Nat) :=
  (Vint.read bytes).map fun v => (ofVint v, v.width)

/-- An id as it is written in messages, in upper-case hexadecimal. -/
def text (id : ElementId) : String :=
  "0x" ++ String.ofList ((Nat.toDigits 16 id.toNat).map Char.toUpper)

end ElementId

/-- The declared length of what follows a header. -/
inductive Size where
  | known (length : Nat)
  | unknown
  deriving DecidableEq, Repr

namespace Size

/-- The size a variable-length integer spells: all value bits set means unknown. -/
def ofVint (v : Vint) : Size :=
  if v.value = 1 <<< UInt64.ofNat (7 * v.width) - 1 then .unknown else .known v.value.toNat

/-- Reads the size at the front of a byte string, with its width in bytes. -/
def read (bytes : List UInt8) : Front (Size × Nat) :=
  (Vint.read bytes).map fun v => (ofVint v, v.width)

def isKnown : Size → Bool
  | .known _ => true
  | .unknown => false

end Size

/-- Where a tag stands in the stream: the offset of its id, the length of its id and size fields
together, and the size it declares. -/
structure Position where
  offset : Nat
  headerLength : Nat
  size : Size
  deriving DecidableEq, Repr

/-- The offset just after the header. -/
def Position.dataOffset (p : Position) : Nat :=
  p.offset + p.headerLength

end TagStream
