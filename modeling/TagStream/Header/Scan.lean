import TagStream.Header.Field

/-!
Reading a tag header off the front of the bytes that have arrived. `Header.scan` either has the
whole header, or names how many bytes it must see before it can say more, or finds a flaw that no
further bytes can mend. Sixteen bytes always suffice.
-/

namespace TagStream

/-- The part of a tag that reading has reached. Before anything of a tag has arrived the stream may
still end cleanly; after that it may not. -/
inductive Part where
  | start
  | idField
  | sizeField (id : ElementId)
  | payload (id : ElementId)
  deriving DecidableEq, Repr

/-- The id of the tag, once it has been read. -/
def Part.id? : Part → Option ElementId
  | .start | .idField => none
  | .sizeField id | .payload id => some id

/-- The id and size fields of a tag, and their length together. -/
structure Header where
  id : ElementId
  size : Size
  length : Nat
  deriving DecidableEq, Repr

namespace Header

/-- What can be wrong with a header. -/
inductive Flaw where
  | idWithoutMarker
  | idUnreadable
  | sizeWithoutMarker (id : ElementId)
  | sizeUnreadable (id : ElementId)
  deriving DecidableEq, Repr

/-- What the bytes seen so far say about the header at their front. -/
inductive Sighting where
  | short (needed : Nat) (part : Part)
  | flawed (flaw : Flaw)
  | complete (header : Header)
  deriving DecidableEq, Repr

/-- The longest header: an id and a size of eight bytes each. -/
def maxLength : Nat := 16

/-- Reads the size field of a header whose id takes the first `idWidth` of `bytes`. -/
def scanSize (id : ElementId) (idWidth : Nat) (bytes : List UInt8) : Sighting :=
  match bytes.drop idWidth with
  | [] => .short (idWidth + 1) (.sizeField id)
  | first :: _ =>
    match Vint.width? first with
    | none => .flawed (.sizeWithoutMarker id)
    | some sizeWidth =>
      if bytes.length < idWidth + sizeWidth then .short (idWidth + sizeWidth) (.sizeField id)
      else
        match Size.read (bytes.drop idWidth) with
        | .complete (size, _) => .complete ⟨id, size, idWidth + sizeWidth⟩
        | _ => .flawed (.sizeUnreadable id)

/-- Reads the header at the front of `bytes`: the first byte of each field gives the width of the
field, so no more bytes are asked for than the header has. -/
def scan (bytes : List UInt8) : Sighting :=
  match bytes with
  | [] => .short 1 .start
  | first :: _ =>
    match Vint.width? first with
    | none => .flawed .idWithoutMarker
    | some idWidth =>
      if bytes.length < idWidth then .short idWidth .idField
      else
        match ElementId.read bytes with
        | .complete (id, _) => scanSize id idWidth bytes
        | _ => .flawed .idUnreadable

theorem scanSize_short {id : ElementId} {idWidth : Nat} {bytes : List UInt8} {needed : Nat}
    {part : Part} (h : scanSize id idWidth bytes = .short needed part) :
    bytes.length < needed ∧ needed ≤ idWidth + 8 := by
  unfold scanSize at h
  split at h
  · next empty =>
    injection h
    have := congrArg List.length empty
    simp at this
    omega
  · split at h
    · simp at h
    · next width =>
      have := Vint.width?_le width
      split at h
      · injection h; omega
      · split at h <;> simp at h

/-- A header that is cut short asks for more bytes than there are, and for no more than a header can
have. -/
theorem scan_short {bytes : List UInt8} {needed : Nat} {part : Part}
    (h : scan bytes = .short needed part) : bytes.length < needed ∧ needed ≤ maxLength := by
  unfold scan at h
  unfold maxLength
  split at h
  · injection h; simp; omega
  · split at h
    · simp at h
    · next width =>
      have := Vint.width?_le width
      split at h
      · injection h; omega
      · split at h
        · have := scanSize_short h; omega
        · simp at h

end Header

end TagStream
