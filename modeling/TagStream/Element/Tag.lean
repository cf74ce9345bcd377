import TagStream.Element.Block
import TagStream.Value.Binary64
import TagStream.Value.Utf8

/-!
Values and tags. A value is what an element is found to hold, before a schema makes a tag of it;
each kind of element has its own form of value, and `Value.kind` says which. A tag is what is handed
out for an element of a stream. A container gives two, one where it starts and one where it ends; a
leaf gives one, with its value.
-/

namespace TagStream

/-- The declared kind of an element. -/
inductive Kind where
  | master
  | unsigned
  | signed
  | float
  | text
  | binary
  deriving DecidableEq, Repr

/-- The two halves of a container. -/
inductive Marker where
  | opening
  | closing
  deriving DecidableEq, Repr

/-- A value of each kind; a container's is the half that is being entered or left. -/
inductive Value where
  | master (marker : Marker)
  | unsigned (value : UInt64)
  | signed (value : Int64)
  | float (value : Binary64)
  | text (bytes : List UInt8)
  | binary (data : List UInt8)
  deriving DecidableEq, Repr

namespace Value

def kind : Value → Kind
  | .master _ => .master
  | .unsigned _ => .unsigned
  | .signed _ => .signed
  | .float _ => .float
  | .text _ => .text
  | .binary _ => .binary

/-- The payload of a leaf, read as a value of its kind. A container has no payload of its own. -/
def ofPayload? : Kind → List UInt8 → Option (Except Malformed Value)
  | .master, _ => none
  | .unsigned, bytes => some ((readUnsigned bytes).map .unsigned)
  | .signed, bytes => some ((readSigned bytes).map .signed)
  | .float, bytes => some ((readFloat bytes).map .float)
  | .text, bytes => some ((readText bytes).map .text)
  | .binary, bytes => some (.ok (.binary bytes))

end Value

/-- The value of a tag. Text is kept as its bytes. A binary payload is a block where the schema
knows one, and raw bytes otherwise. -/
inductive Content where
  | master (marker : Marker)
  | unsigned (value : UInt64)
  | signed (value : Int64)
  | float (value : Binary64)
  | text (bytes : List UInt8)
  | block (block : Block)
  | raw (data : List UInt8)
  deriving DecidableEq, Repr

/-- A tag: the element's id, its name if it has one, and its value. -/
structure Tag where
  id : ElementId
  name : Option String
  content : Content
  deriving DecidableEq, Repr

def Tag.isMaster (t : Tag) : Bool :=
  match t.content with
  | .master _ => true
  | _ => false

end TagStream
