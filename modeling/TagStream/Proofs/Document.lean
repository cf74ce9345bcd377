import TagStream.Proofs.Tabular

/-!
Documents and their serialization. A `Document` is a list of elements, leaves and containers; a
container declares its length or leaves it open. `Document.encode` writes it and
`Document.emissions` lists the tags it stands for, in the order in which they are met. A document is
well-formed if each of its elements is (`Document.Valid`), and if containers of unknown size can be
told to end (`Document.Delimited`): by a next sibling that they do not admit, or by the end of all
bytes.
-/

namespace TagStream

/-! ### Documents -/

/-- What a header is written from, but for the size: the id, and the width of the size field. -/
structure Heading where
  id : Vint
  sizeWidth : Nat
  deriving DecidableEq, Repr

/-- The elements of a document, or of a container, one after another. A container is `sized` if it
declares its length. -/
inductive Document where
  | empty
  | leaf (heading : Heading) (payload : List UInt8) (next : Document)
  | master (heading : Heading) (sized : Bool) (children next : Document)
  deriving DecidableEq, Repr

namespace Heading

def tagId (h : Heading) : ElementId :=
  .ofVint h.id

def length (h : Heading) : Nat :=
  h.id.width + h.sizeWidth

def bytes (h : Heading) (size : Size) : List UInt8 :=
  h.id.bytes ++ (size.toVint h.sizeWidth).bytes

def header (h : Heading) (size : Size) : Header :=
  ⟨h.tagId, size, h.length⟩

/-- The header can be written. -/
def Fits (h : Heading) (size : Size) : Prop :=
  h.id.Fits ∧ size.Fits h.sizeWidth

instance (h : Heading) (size : Size) : Decidable (h.Fits size) :=
  inferInstanceAs (Decidable (_ ∧ _))

@[simp] theorem length_bytes (h : Heading) (size : Size) : (h.bytes size).length = h.length := by
  simp [bytes, length]

theorem length_pos {h : Heading} {size : Size} (fits : h.Fits size) : 0 < h.length := by
  have := fits.1.width_pos
  simp only [length]
  omega

/-- A header that has been written is seen. -/
theorem scan_bytes {h : Heading} {size : Size} (fits : h.Fits size) (rest : List UInt8) :
    Header.scan (h.bytes size ++ rest) = .complete (h.header size) := by
  obtain ⟨written, read⟩ := Size.ofVint_toVint fits.2
  have scanned := (Header.Seen.complete rest fits.1 written).scan_eq
  rw [read, Size.width_toVint, ← List.append_assoc] at scanned
  exact scanned

end Heading

namespace Document

/-- The size that a container declares. -/
def declared (sized : Bool) (length : Nat) : Size :=
  if sized then .known length else .unknown

/-- The bytes of the elements. -/
def encode : Document → List UInt8
  | .empty => []
  | .leaf heading payload next =>
    heading.bytes (.known payload.length) ++ (payload ++ next.encode)
  | .master heading sized children next =>
    heading.bytes (declared sized children.encode.length) ++ (children.encode ++ next.encode)

/-- The ids of the elements, those inside of them left aside. -/
def ids : Document → List ElementId
  | .empty => []
  | .leaf heading _ next => heading.tagId :: next.ids
  | .master heading _ _ next => heading.tagId :: next.ids

/-- The tag that opens or closes a container which stands at `offset`. -/
def half (schema : Schema) (heading : Heading) (sized : Bool) (children : Document) (offset : Nat)
    (marker : Marker) : Emission :=
  ⟨schema.half heading.tagId marker,
    ⟨offset, heading.length, declared sized children.encode.length⟩⟩

/-- The tags of the elements, for a document that stands at `offset`: one for a leaf, and for a
container that which opens it, those of its children and that which closes it. -/
def emissions (schema : Schema) : Document → (offset : Nat) → List Emission
  | .empty, _ => []
  | .leaf heading payload next, offset =>
    (schema.leaf? heading.tagId payload).toList.map
        (⟨·, ⟨offset, heading.length, .known payload.length⟩⟩) ++
      next.emissions schema (offset + heading.length + payload.length)
  | .master heading sized children next, offset =>
    half schema heading sized children offset .opening ::
      (children.emissions schema (offset + heading.length) ++
        half schema heading sized children offset .closing ::
          next.emissions schema (offset + heading.length + children.encode.length))

/-! ### Well-formed documents -/

/-- Whether an element may stand inside a container. -/
def admits (schema : Schema) (container id : ElementId) : Bool :=
  schema.admits (schema.half container .closing) id

/-- Every element can be written and read on its own: headers hold their ids and sizes, payloads can
be read as what is declared, nothing is longer than the limit, and containers of unknown size admit
their children. -/
def Valid (schema : Schema) (limit : Nat) : Document → Prop
  | .empty => True
  | .leaf heading payload next =>
    (heading.Fits (.known payload.length) ∧ schema.kindOf heading.tagId ≠ .master ∧
      Value.reads (schema.kindOf heading.tagId) payload = true ∧
      heading.length + payload.length ≤ limit) ∧ next.Valid schema limit
  | .master heading sized children next =>
    (heading.Fits (declared sized children.encode.length) ∧ schema.kindOf heading.tagId = .master ∧
      heading.length ≤ limit ∧
      (sized = false → ∀ id ∈ children.ids, admits schema heading.tagId id = true)) ∧
      children.Valid schema limit ∧ next.Valid schema limit

/-- Whether a container with this id and of unknown size can be told to end where it does, if
`siblings` are the elements after it and more follows those if `followed`. -/
def endsBefore (schema : Schema) (container : ElementId) (followed : Bool) :
    (siblings : List ElementId) → Bool
  | [] => !followed
  | sibling :: _ => !admits schema container sibling

/-- Every container of unknown size ends where it can be told to end. -/
def Delimited (schema : Schema) : Document → (followed : Bool) → Prop
  | .empty, _ => True
  | .leaf _ _ next, followed => next.Delimited schema followed
  | .master heading sized children next, followed =>
    (sized = false → endsBefore schema heading.tagId followed next.ids = true) ∧
      children.Delimited schema (followed || !next.ids.isEmpty) ∧ next.Delimited schema followed

instance decidableValid (schema : Schema) (limit : Nat) :
    (doc : Document) → Decidable (doc.Valid schema limit)
  | .empty => isTrue trivial
  | .leaf _ _ next =>
    have := decidableValid schema limit next
    inferInstanceAs (Decidable (_ ∧ _))
  | .master heading _ children next =>
    -- the list of the children is searched, not the type of the ids
    have : Decidable (∀ id ∈ children.ids, admits schema heading.tagId id = true) :=
      List.decidableBAll _ _
    have := decidableValid schema limit children
    have := decidableValid schema limit next
    inferInstanceAs (Decidable (_ ∧ _))

instance decidableDelimited (schema : Schema) :
    (doc : Document) → (followed : Bool) → Decidable (doc.Delimited schema followed)
  | .empty, _ => isTrue trivial
  | .leaf _ _ next, followed => decidableDelimited schema next followed
  | .master _ _ children next, followed =>
    have := decidableDelimited schema children (followed || !next.ids.isEmpty)
    have := decidableDelimited schema next followed
    inferInstanceAs (Decidable (_ ∧ _))

end Document

end TagStream
