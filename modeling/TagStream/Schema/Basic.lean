import TagStream.Element.Tag

/-!
Schemas: what a reader is told about the elements of a document type. A schema may decline to make a
tag of a binary payload, which is then handed out raw; declining anything else that it has itself
declared is a defect of the schema, and reading stops there.
-/

namespace TagStream

/-- A document type: the kind and the name of each element, the tags made of their values, and which
elements may stand inside which container. `raw` makes the tag of a binary payload that `make`
declines. -/
structure Schema where
  kindOf : ElementId → Kind
  name : ElementId → Option String
  make : ElementId → Value → Option Tag
  raw : ElementId → List UInt8 → Option Tag
  admits : Tag → ElementId → Bool

/-- What a schema failed to provide. -/
inductive Missing where
  | tagOf (kind : Kind)
  | payloadOfMaster
  deriving DecidableEq, Repr

/-- A schema's failure to make a tag that it has itself declared. -/
structure Defect where
  id : ElementId
  missing : Missing
  deriving DecidableEq, Repr

/-- How a missing tag is named in the report of a defect. -/
def Missing.text : Missing → String
  | .tagOf .master => "master"
  | .tagOf .unsigned => "unsigned int"
  | .tagOf .signed => "integer"
  | .tagOf .float => "float"
  | .tagOf .text => "utf8"
  | .tagOf .binary => "raw"
  | .payloadOfMaster => "master (as leaf)"

def Defect.message (d : Defect) : String :=
  s!"microEbmlReader: bad specification implementation: tag id {d.id.text} type was " ++
    s!"{d.missing.text}, but could not get tag"

namespace Schema

/-- The tag of a value; a binary value that `make` declines is made raw. -/
def tagOf (schema : Schema) (id : ElementId) (value : Value) : Except Defect Tag :=
  let tag := match value with
    | .binary data => schema.make id value <|> schema.raw id data
    | _ => schema.make id value
  match tag with
  | some tag => .ok tag
  | none => .error ⟨id, .tagOf value.kind⟩

/-- The tag of a leaf with this payload, unless the payload is malformed. -/
def tagOfPayload (schema : Schema) (id : ElementId) (kind : Kind) (bytes : List UInt8) :
    Except Defect (Except Malformed Tag) :=
  match Value.ofPayload? kind bytes with
  | none => .error ⟨id, .payloadOfMaster⟩
  | some (.error malformed) => .ok (.error malformed)
  | some (.ok value) => (schema.tagOf id value).map .ok

end Schema

end TagStream
