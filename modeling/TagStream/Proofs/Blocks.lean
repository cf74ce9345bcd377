import TagStream.Proofs.Codewords
import TagStream.Proofs.TwosComplement

/-!
Blocks in binary payloads. A payload is a block if it opens with a codeword for the track, two bytes
of timecode and one of flags (`Block.Opens`), and then the header can be written again from what was
read of it (`Block.Opens.written`). The Matroska schema gives such a payload its structure where the
element is a block, and leaves every other binary payload raw. Looked at by place, no byte is read
that lies past the end (`Matroska.structureAt_eq`).
-/

namespace TagStream

/-! ### Headers -/

namespace Block

/-- The timecode that two bytes spell. -/
def timecodeOf (high low : UInt8) : Int16 :=
  (BigEndian.word [high, low]).toUInt16.toInt16

theorem toInt_timecodeOf (high low : UInt8) :
    (timecodeOf high low).toInt = BigEndian.signedValue [high, low] := by
  have all : 256 ^ ([high, low] : List UInt8).length = 256 ^ 2 := rfl
  have small : BigEndian.value [high, low] < 256 ^ 2 := BigEndian.value_lt [high, low]
  have short : ([high, low] : List UInt8).length ≤ 8 := by simp
  have kept : (BigEndian.word [high, low]).toUInt16.toNat = BigEndian.value [high, low] := by
    rw [UInt64.toNat_toUInt16, BigEndian.toNat_word short]
    exact Nat.mod_eq_of_lt small
  have signed : (timecodeOf high low).toInt =
      ((BigEndian.word [high, low]).toUInt16.toNat : Int).bmod (2 ^ 16) :=
    BitVec.toInt_eq_toNat_bmod (BigEndian.word [high, low]).toUInt16.toBitVec
  rw [signed, kept, Int.bmod_def, BigEndian.signedValue, all]
  split <;> split <;> omega

/-- A payload that opens with the header of a block, and the block. -/
inductive Opens (form : BlockForm) : List UInt8 → Block → Prop where
  | intro (v : Vint) (fits : v.Fits) (high low flags : UInt8) (frames : List UInt8) :
      Opens form (v.bytes ++ high :: low :: flags :: frames)
        { form, flags
          track := v.value
          timecode := timecodeOf high low
          headerLength := v.width + fixedLength
          data := v.bytes ++ high :: low :: flags :: frames }

variable {form : BlockForm} {payload : List UInt8} {b : Block}

theorem ofPayload?_eq_some_iff : ofPayload? form payload = some b ↔ Opens form payload b := by
  constructor
  · intro read
    unfold ofPayload? at read
    split at read
    · next v track =>
      split at read
      · next high low flags frames rest =>
        cases read
        obtain ⟨fits, written⟩ := Vint.bytes_of_read track
        rw [rest] at written
        subst written
        exact .intro v fits high low flags frames
      · cases read
    · cases read
  · rintro ⟨v, fits, high, low, flags, frames⟩
    rw [ofPayload?, Vint.read_bytes_append fits]
    dsimp only
    rw [List.drop_left' v.length_bytes]
    rfl

/-- A payload opens with the header of a block if it is spelled like this. -/
theorem exists_opens_iff : (∃ b, Opens form payload b) ↔
    ∃ width track high low flags frames, Vint.Writable width track ∧
      payload = Vint.encode width track ++ high :: low :: flags :: frames := by
  constructor
  · rintro ⟨-, v, fits, high, low, flags, frames⟩
    exact ⟨v.width, v.value.toNat, high, low, flags, frames, fits.writable, rfl⟩
  · rintro ⟨width, track, high, low, flags, frames, writable, rfl⟩
    obtain ⟨fits, written⟩ := writable.fits
    rw [← written]
    exact ⟨_, .intro _ fits high low flags frames⟩

theorem Opens.form_data (opens : Opens form payload b) : b.form = form ∧ b.data = payload := by
  cases opens
  exact ⟨rfl, rfl⟩

/-- The header is written again from what was read of it, and the frames follow. -/
theorem Opens.written (opens : Opens form payload b) : ∃ width,
    b.headerLength = width + fixedLength ∧ Vint.Writable width b.track.toNat ∧
      Vint.encode width b.track.toNat ++ (BigEndian.encodeSigned 2 b.timecode.toInt ++
        b.flags :: b.data.drop b.headerLength) = payload := by
  obtain ⟨v, fits, high, low, flags, frames⟩ := opens
  refine ⟨v.width, rfl, fits.writable, ?_⟩
  have frames_eq :
      (v.bytes ++ high :: low :: flags :: frames).drop (v.width + fixedLength) = frames := by
    rw [← List.drop_drop, List.drop_left' v.length_bytes]
    rfl
  have timecode : BigEndian.encodeSigned 2 (timecodeOf high low).toInt = [high, low] := by
    rw [toInt_timecodeOf]
    exact BigEndian.encodeSigned_signedValue [high, low]
  dsimp only
  rw [frames_eq, timecode]
  rfl

/-- A grouped block is neither a keyframe nor discardable, whatever its flags are. -/
theorem keyframe_discardable_of_grouped (grouped : b.form = .grouped) :
    b.keyframe = false ∧ b.discardable = false := by
  rw [keyframe, discardable, grouped]
  exact ⟨rfl, rfl⟩

theorem keyframe_discardable_of_simple (simple : b.form = .simple) :
    b.keyframe = (b.flags &&& 0x80 != 0) ∧ b.discardable = (b.flags &&& 0x01 != 0) := by
  rw [keyframe, discardable, simple]
  exact ⟨rfl, rfl⟩

end Block

/-! ### By place -/

/-- Reads the front of a byte string as a variable-length integer, by place. There is no answer if a
byte is looked at that is not there. -/
def Vint.readAt (bytes : List UInt8) : Option (Front Vint) :=
  if bytes.length = 0 then return .incomplete
  else do
    let first ← bytes[0]?
    match width? first with
    | none => return .malformed
    | some width =>
      if bytes.length < width then return .incomplete
      else
        let value ← BigEndian.extendAt bytes 1 (payloadBits first width) (width - 1)
        return .complete ⟨value, width⟩

theorem Vint.readAt_eq (bytes : List UInt8) : readAt bytes = some (read bytes) := by
  cases bytes with
  | nil => rfl
  | cons first rest =>
    have nonempty : (first :: rest).length ≠ 0 := Nat.succ_ne_zero _
    rw [readAt, if_neg nonempty, read, List.getElem?_cons_zero, Option.bind_eq_bind,
      Option.bind_some]
    cases named : width? first with
    | none => rfl
    | some width =>
      have pos := (width?_eq_some_iff.mp named).1.1
      dsimp only
      rw [List.length_cons]
      split
      · rfl
      · next enough =>
        rw [BigEndian.extendAt_eq (by rw [List.length_cons]; omega)]
        rfl

namespace Block

/-- Reads the header of a block, by place. -/
def readAt (form : BlockForm) (data : List UInt8) : Option (Option Block) := do
  match ← Vint.readAt data with
  | .complete v =>
    if data.length < v.width + fixedLength then return none
    else
      let high ← data[v.width]?
      let low ← data[v.width + 1]?
      let flags ← data[v.width + 2]?
      return some
        { form, flags, data
          track := v.value
          timecode := timecodeOf high low
          headerLength := v.width + fixedLength }
  | _ => return none

theorem readAt_eq (form : BlockForm) (data : List UInt8) :
    readAt form data = some (ofPayload? form data) := by
  rw [readAt, Vint.readAt_eq, ofPayload?, Option.bind_eq_bind, Option.bind_some]
  cases Vint.read data with
  | incomplete | malformed => rfl
  | complete v =>
    have length : (data.drop v.width).length = data.length - v.width := List.length_drop
    have place (i : Nat) : data[v.width + i]? = (data.drop v.width)[i]? := List.getElem?_drop.symm
    dsimp only
    rw [place 1, place 2, show data[v.width]? = (data.drop v.width)[0]? from place 0]
    generalize data.drop v.width = rest at length ⊢
    split
    · next short =>
      unfold fixedLength at short
      match rest with
      | [] | [_] | [_, _] => rfl
      | _ :: _ :: _ :: _ =>
        simp only [List.length_cons] at length
        omega
    · next enough =>
      unfold fixedLength at enough
      match rest with
      | [] | [_] | [_, _] =>
        simp only [List.length_cons, List.length_nil] at length
        omega
      | high :: low :: flags :: frames => rfl

end Block

/-! ### Elements -/

namespace Matroska

/-- The structured tag of a binary payload, by place. -/
def structureAt (id : ElementId) (data : List UInt8) : Option (Option Tag) :=
  match blockForm? id with
  | none => return none
  | some form => do
    let block ← Block.readAt form data
    return block.map fun block => ⟨id, table.name id, .block block⟩

/-- No look goes past the end, and what is found is the structure that the payload has. -/
theorem structureAt_eq (id : ElementId) (data : List UInt8) :
    structureAt id data = some (block? id data) := by
  unfold structureAt block?
  cases blockForm? id with
  | none => rfl
  | some form =>
    dsimp only
    rw [Block.readAt_eq]
    rfl

theorem blockForm?_eq_some_iff {id : ElementId} {form : BlockForm} : blockForm? id = some form ↔
    id = simpleBlock ∧ form = .simple ∨ id = groupedBlock ∧ form = .grouped := by
  have differ : groupedBlock ≠ simpleBlock := by decide
  unfold blockForm?
  split
  · next simple =>
    subst simple
    constructor
    · rintro ⟨⟩
      exact .inl ⟨rfl, rfl⟩
    · rintro (⟨-, rfl⟩ | ⟨grouped, -⟩)
      · rfl
      · exact absurd grouped.symm differ
  · next other =>
    split
    · next grouped =>
      constructor
      · rintro ⟨⟩
        exact .inr ⟨grouped, rfl⟩
      · rintro (⟨simple, -⟩ | ⟨-, rfl⟩)
        · exact absurd simple other
        · rfl
    · next neither =>
      constructor
      · rintro ⟨⟩
      · rintro (⟨simple, -⟩ | ⟨grouped, -⟩)
        · exact absurd simple other
        · exact absurd grouped neither

theorem block?_eq_some_iff {id : ElementId} {payload : List UInt8} {tag : Tag} :
    block? id payload = some tag ↔ ∃ form b, blockForm? id = some form ∧
      Block.Opens form payload b ∧ tag = ⟨id, schema.name id, .block b⟩ := by
  unfold block?
  rw [Option.bind_eq_some_iff]
  refine exists_congr fun form => ?_
  rw [Option.map_eq_some_iff]
  constructor
  · rintro ⟨known, b, read, rfl⟩
    exact ⟨b, known, Block.ofPayload?_eq_some_iff.mp read, rfl⟩
  · rintro ⟨b, known, opens, rfl⟩
    exact ⟨known, b, Block.ofPayload?_eq_some_iff.mpr opens, rfl⟩

theorem exists_blockForm?_iff {id : ElementId} :
    (∃ form, blockForm? id = some form) ↔ id = simpleBlock ∨ id = groupedBlock := by
  constructor
  · rintro ⟨form, known⟩
    exact (blockForm?_eq_some_iff.mp known).imp And.left And.left
  · rintro (simple | grouped)
    · exact ⟨.simple, blockForm?_eq_some_iff.mpr (.inl ⟨simple, rfl⟩)⟩
    · exact ⟨.grouped, blockForm?_eq_some_iff.mpr (.inr ⟨grouped, rfl⟩)⟩

/-- A payload has a structure if the element is a block and the payload is spelled like one. -/
theorem exists_block?_iff {id : ElementId} {payload : List UInt8} :
    (∃ tag, block? id payload = some tag) ↔ (id = simpleBlock ∨ id = groupedBlock) ∧
      ∃ width track high low flags frames, Vint.Writable width track ∧
        payload = Vint.encode width track ++ high :: low :: flags :: frames := by
  constructor
  · rintro ⟨tag, found⟩
    obtain ⟨form, b, known, opens, -⟩ := block?_eq_some_iff.mp found
    exact ⟨exists_blockForm?_iff.mp ⟨form, known⟩, Block.exists_opens_iff.mp ⟨b, opens⟩⟩
  · rintro ⟨isBlock, shape⟩
    obtain ⟨form, known⟩ := exists_blockForm?_iff.mpr isBlock
    obtain ⟨b, opens⟩ := Block.exists_opens_iff.mpr shape
    exact ⟨_, block?_eq_some_iff.mpr ⟨form, b, known, opens, rfl⟩⟩

/-- A binary payload of any element gets a tag, which is raw if the payload has no structure. -/
theorem tagOfPayload_binary (id : ElementId) (payload : List UInt8) :
    schema.tagOfPayload id .binary payload =
      .ok (.ok ((block? id payload).getD ⟨id, schema.name id, .raw payload⟩)) := by
  have made : schema.make id (.binary payload) = block? id payload := rfl
  simp only [Schema.tagOfPayload, Value.ofPayload?, Schema.tagOf, made]
  cases block? id payload with
  | none | some => rfl

end Matroska

/-- **Blocks are recognized exactly.** Whatever the element and the payload are, there is a tag, and
it holds the complete payload. It has the structure of a block exactly if the element is one of the
two blocks and the payload opens with a codeword for the track, two bytes of timecode and one of
flags. Then the header ends after these, and what was read of them, written again, and the bytes
from there on are the payload; only a simple block is a keyframe or discardable, and its flags say
which. In all other cases the tag is raw. No byte is looked at that lies past the end. -/
theorem Matroska.recognizes_blocks (id : ElementId) (payload : List UInt8) : ∃ tag,
    schema.tagOfPayload id .binary payload = .ok (.ok tag) ∧
    (tag.id = id ∧ tag.name = schema.name id ∧ tag.content.value = .binary payload) ∧
    ((∃ b, tag.content = .block b) ↔ (id = simpleBlock ∨ id = groupedBlock) ∧
      ∃ width track high low flags frames, Vint.Writable width track ∧
        payload = Vint.encode width track ++ high :: low :: flags :: frames) ∧
    (∀ b, tag.content = .block b →
      (∃ width, b.headerLength = width + 3 ∧ Vint.Writable width b.track.toNat ∧
        Vint.encode width b.track.toNat ++ (BigEndian.encodeSigned 2 b.timecode.toInt ++
          b.flags :: b.data.drop b.headerLength) = payload) ∧
      (id = groupedBlock → b.keyframe = false ∧ b.discardable = false) ∧
      (id = simpleBlock → b.keyframe = (b.flags &&& 0x80 != 0) ∧
        b.discardable = (b.flags &&& 0x01 != 0))) ∧
    ((¬∃ b, tag.content = .block b) → tag.content = .raw payload) ∧
    structureAt id payload = some (if tag.content = .raw payload then none else some tag) := by
  refine ⟨_, tagOfPayload_binary id payload, ?_⟩
  rw [structureAt_eq, ← exists_block?_iff]
  cases found : block? id payload with
  | some tag =>
    obtain ⟨form, b, known, opens, rfl⟩ := block?_eq_some_iff.mp found
    obtain ⟨formed, whole⟩ := opens.form_data
    rw [Option.getD_some]
    refine ⟨⟨rfl, rfl, congrArg Value.binary whole⟩, iff_of_true ⟨b, rfl⟩ ⟨_, rfl⟩, ?_, ?_, ?_⟩
    · intro b' same
      cases same
      refine ⟨opens.written, ?_, ?_⟩
      · rintro rfl
        exact Block.keyframe_discardable_of_grouped (formed.trans (Option.some.inj known).symm)
      · rintro rfl
        exact Block.keyframe_discardable_of_simple (formed.trans (Option.some.inj known).symm)
    · intro unstructured
      exact absurd ⟨b, rfl⟩ unstructured
    · rw [if_neg (by intro h; cases h)]
  | none =>
    rw [Option.getD_none]
    refine ⟨⟨rfl, rfl, rfl⟩, iff_of_false ?_ ?_, ?_, fun _ => rfl, by rw [if_pos rfl]⟩
    · rintro ⟨b, ⟨⟩⟩
    · rintro ⟨tag, ⟨⟩⟩
    · rintro b ⟨⟩

/-- A block of the grouped kind, whose flags would make a simple one a keyframe. -/
def groupedPayload : List UInt8 := [0x52, 0x34, 0xFF, 0xFE, 0x8E, 0x00]

/-- The block is recognized, and a simple block that is cut off is not. -/
theorem Matroska.recognizes_blocks_groupedPayload :
    (∃ tag b, schema.tagOfPayload groupedBlock .binary groupedPayload = .ok (.ok tag) ∧
      tag.content = .block b ∧ b.data = groupedPayload ∧ b.headerLength = 2 + 3 ∧
      b.track = 0x1234 ∧ b.timecode = -2 ∧ b.keyframe = false ∧ b.discardable = false) ∧
    ∃ tag, schema.tagOfPayload simpleBlock .binary [0x81, 0x00] = .ok (.ok tag) ∧
      (¬∃ b, tag.content = .block b) ∧ tag.content = .raw [0x81, 0x00] := by
  constructor
  · obtain ⟨tag, read, ⟨-, -, whole⟩, recognized, blocks, -⟩ :=
      recognizes_blocks groupedBlock groupedPayload
    have shape : groupedPayload = Vint.encode 2 0x1234 ++ [0xFF, 0xFE, 0x8E, 0x00] := by decide
    obtain ⟨b, block⟩ := recognized.mpr ⟨.inr rfl, 2, 0x1234, _, _, _, _, by decide, shape⟩
    obtain ⟨-, never, -⟩ := blocks b block
    obtain ⟨keyframe, discardable⟩ := never rfl
    have computed : schema.tagOfPayload groupedBlock .binary groupedPayload =
        .ok (.ok ⟨groupedBlock, schema.name groupedBlock, .block
          ⟨.grouped, 0x1234, -2, 0x8E, 5, groupedPayload⟩⟩) := rfl
    have same := read.symm.trans computed
    cases same
    cases block
    exact ⟨_, _, read, rfl, rfl, rfl, rfl, rfl, keyframe, discardable⟩
  · obtain ⟨tag, read, -, -, -, raw, -⟩ := recognizes_blocks simpleBlock [0x81, 0x00]
    have computed : schema.tagOfPayload simpleBlock .binary [0x81, 0x00] =
      .ok (.ok ⟨simpleBlock, schema.name simpleBlock, .raw [0x81, 0x00]⟩) := rfl
    have unstructured : ¬∃ b, tag.content = .block b := by
      rw [computed] at read
      cases read
      rintro ⟨b, ⟨⟩⟩
    exact ⟨tag, read, unstructured, raw unstructured⟩

end TagStream
