import TagStream.Header.Field

/-!
Media blocks: a binary payload that opens with a track number, a timecode relative to the enclosing
cluster and a flags byte. The frames follow from `headerLength` on.
-/

namespace TagStream

/-- The two forms of a block. Only the simple one says whether it is a keyframe or discardable. -/
inductive BlockForm where
  | simple
  | grouped
  deriving DecidableEq, Repr

/-- A block with its header decoded; `data` is the complete payload, header included. -/
structure Block where
  form : BlockForm
  track : UInt64
  timecode : Int16
  flags : UInt8
  headerLength : Nat
  data : List UInt8
  deriving DecidableEq, Repr

namespace Block

/-- The bytes of a block header after the track number: two of timecode and one of flags. -/
def fixedLength : Nat := 3

/-- Reads the header of a block; a payload that ends inside the header is no block. -/
def ofPayload? (form : BlockForm) (data : List UInt8) : Option Block :=
  match Vint.read data with
  | .complete v =>
    match data.drop v.width with
    | high :: low :: flags :: _ =>
      some
        { form, flags, data
          track := v.value
          timecode := (BigEndian.word [high, low]).toUInt16.toInt16
          headerLength := v.width + fixedLength }
    | _ => none
  | _ => none

def keyframe (b : Block) : Bool :=
  b.form == .simple && b.flags &&& 0x80 != 0

def invisible (b : Block) : Bool :=
  b.flags &&& 0x08 != 0

/-- How frames are laced: 0 not at all, 1 by runs of 255, 2 at equal lengths, 3 by size differences.
-/
def lacing (b : Block) : Nat :=
  b.flags.toNat / 2 % 4

def discardable (b : Block) : Bool :=
  b.form == .simple && b.flags &&& 0x01 != 0

end Block

end TagStream
