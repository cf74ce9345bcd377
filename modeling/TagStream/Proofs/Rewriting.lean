import TagStream.Proofs.Parse
import TagStream.Proofs.Payload

/-!
Reading loses nothing. The tags that a reader begins elements with hold all that is needed to write
the stream again: an id is written as its own bytes, a size in the rest of the header's length, and
a value in as many bytes as the size declares (`Emission.encode`). Where a stream has been read to
its end, the tags written one after another are its bytes, whether or not containers were nested in
it as they should be (`spelling_of_endOfStream`). Only the payload of a NaN in single precision is
not told by its tag.
-/

namespace TagStream

/-! ### The fields of a header -/

/-- The bytes of an id, without leading zeros. -/
def ElementId.bytes (id : ElementId) : List UInt8 :=
  (BigEndian.encode 8 id.toNat).dropWhile (· == 0)

/-- An id is written as the integer that spells it: the marker is in its first byte, which is
therefore not zero. -/
theorem ElementId.bytes_ofVint {v : Vint} (fits : v.Fits) : (ofVint v).bytes = v.bytes := by
  have spelled : BigEndian.encode v.width (ofVint v).toNat = v.bytes := by
    rw [toNat_ofVint fits, Nat.add_comm, Vint.bytes_eq]
  have small : (ofVint v).toNat / 256 ^ v.width = 0 := by
    rw [toNat_ofVint fits, Nat.add_comm]
    exact Nat.div_eq_of_lt fits.marked_lt
  have padded : BigEndian.encode 8 (ofVint v).toNat =
      List.replicate (8 - v.width) 0 ++ v.bytes := by
    have split : 8 - v.width + v.width = 8 := Nat.sub_add_cancel fits.width_le
    rw [← spelled, ← BigEndian.encode_zero, ← small, ← BigEndian.encode_append, split]
  obtain ⟨first, rest, written, named⟩ := Vint.width?_head fits
  have marked : first ≠ 0 := by
    intro zero
    rw [Vint.width?_eq_none_iff.mpr zero] at named
    cases named
  rw [bytes, padded, List.dropWhile_append_of_pos (by simp), written,
    List.dropWhile_cons_of_neg (by simpa using marked)]

namespace Size

/-- A size is written as the integer that spells it, if it is written as wide. -/
theorem toVint_ofVint {v : Vint} (fits : v.Fits) : (ofVint v).toVint v.width = v := by
  have same : (⟨UInt64.ofNat v.value.toNat, v.width⟩ : Vint) = v := by
    rw [UInt64.ofNat_toNat]
  rw [ofVint_eq fits]
  split
  · next all =>
    rw [toVint, ← all]
    exact same
  · exact same

end Size

/-! ### Tags -/

namespace Value

/-- A value that has been read is written in as many bytes as its payload has. -/
theorem length_encode_of_ofPayload? {kind : Kind} {payload : List UInt8} {value : Value}
    (h : ofPayload? kind payload = some (.ok value)) :
    (value.encode payload.length).length = payload.length := by
  cases narrow : value.isNarrowNaN payload.length with
  | false => rw [encode_of_ofPayload? h narrow]
  | true =>
    cases value with
    | float x => exact BigEndian.length_encode _ _
    | master | unsigned | signed | text | binary => cases narrow

end Value

namespace Emission

/-- The header of a tag that begins an element: the id, and the size in what is left of the header's
length. -/
def header (e : Emission) : List UInt8 :=
  e.tag.id.bytes ++ (e.position.size.toVint (e.position.headerLength - e.tag.id.bytes.length)).bytes

/-- The value of a leaf in the length that is declared; what opens a container has none. -/
def payload (e : Emission) : List UInt8 :=
  e.tag.content.value.encode e.position.size.length

def encode (e : Emission) : List UInt8 :=
  e.header ++ e.payload

/-- Whether the value is a NaN of four bytes. -/
def isNarrowNaN (e : Emission) : Bool :=
  e.tag.content.value.isNarrowNaN e.position.size.length

/-- The bytes are the header of the tag and a payload of the declared length, which is the one that
its value is written as, unless that is a NaN of four bytes. -/
def Spells (e : Emission) (bytes : List UInt8) : Prop :=
  ∃ payload, bytes = e.header ++ payload ∧ payload.length = e.payload.length ∧
    (e.isNarrowNaN = false → payload = e.payload)

end Emission

/-- The bytes spell the tags one after another. -/
inductive Spelling : List Emission → List UInt8 → Prop where
  | nil : Spelling [] []
  | cons {e : Emission} {later : List Emission} {piece rest : List UInt8} : e.Spells piece →
      Spelling later rest → Spelling (e :: later) (piece ++ rest)

/-- Where no tag has a NaN of four bytes, only one byte string spells them. -/
theorem Spelling.eq_encode {emissions : List Emission} {bytes : List UInt8}
    (spelling : Spelling emissions bytes) (exact : ∀ e ∈ emissions, e.isNarrowNaN = false) :
    emissions.flatMap Emission.encode = bytes := by
  induction spelling with
  | nil => rfl
  | @cons e later piece rest spells _ ih =>
    obtain ⟨first, others⟩ := List.forall_mem_cons.mp exact
    obtain ⟨payload, rfl, -, same⟩ := spells
    rw [List.flatMap_cons, ih others, same first]
    rfl

/-! ### Items -/

variable {schema : Schema} {limit offset offset' : Nat} {bytes rest : List UInt8}

/-- The header of a tag is that of the item that it was read from. -/
theorem Emission.header_eq {id size : Vint} (fits : id.Fits) (fits' : size.Fits) {e : Emission}
    (same : e.tag.id = .ofVint id) (length : e.position.headerLength = id.width + size.width)
    (declared : e.position.size = .ofVint size) : e.header = id.bytes ++ size.bytes := by
  rw [header, same, ElementId.bytes_ofVint fits, length, declared, id.length_bytes,
    Nat.add_sub_cancel_left, Size.toVint_ofVint fits']

/-- An item is spelled by the tag that it gives. -/
theorem Item.spells (tabular : schema.Tabular) {e : Emission}
    (item : Item schema limit offset bytes e offset' rest) :
    ∃ piece, bytes = piece ++ rest ∧ e.Spells piece := by
  cases item with
  | @master id size _ fits fits' master =>
    have header := Emission.header_eq fits fits'
      (e := ⟨schema.half (.ofVint id) .opening, ⟨offset, id.width + size.width, .ofVint size⟩⟩)
      rfl rfl rfl
    refine ⟨id.bytes ++ size.bytes, (List.append_assoc ..).symm, [], ?_, rfl, fun _ => rfl⟩
    rw [header, List.append_nil]
  | @leaf id size payload tag _ fits fits' leaf declared within made =>
    obtain ⟨same, read⟩ := tabular.value_of_leaf? made
    have header := Emission.header_eq fits fits'
      (e := ⟨tag, ⟨offset, id.width + size.width, .known payload.length⟩⟩) same rfl declared.symm
    refine ⟨id.bytes ++ size.bytes ++ payload, ?_, payload, ?_, ?_, ?_⟩
    · simp only [List.append_assoc]
    · rw [header]
    · exact (Value.length_encode_of_ofPayload? read).symm
    · intro exact
      exact (Value.encode_of_ofPayload? read exact).symm

/-- Items that are all of the bytes are spelled by them. -/
theorem Items.spelling (tabular : schema.Tabular) {emissions : List Emission}
    (items : Items schema limit offset bytes emissions offset' []) : Spelling emissions bytes := by
  generalize drained : ([] : List UInt8) = rest at items
  induction items with
  | nil =>
    cases drained
    exact .nil
  | cons item _ ih =>
    obtain ⟨piece, rfl, spells⟩ := item.spells tabular
    exact .cons spells (ih drained)

/-! ### Reading to the end

The limit of a window may be too narrow for the header of a tag, or for its first byte. Whatever is
settled is then settled as it would be without a limit, and all else is a fault. -/

/-- Bytes that can be entered start with a container. -/
theorem item_of_enter {header : Header}
    (demanded : schema.demandOf limit bytes = .settled (.enter header)) (offset : Nat) :
    ∃ emission offset' rest, Item schema limit offset bytes emission offset' rest := by
  obtain ⟨id, size, rest, fits, fits', master, -, rfl⟩ := Schema.container_of_enter demanded
  exact ⟨_, _, _, .master rest fits fits' master⟩

/-- Bytes that can be read start with a leaf, or its payload is malformed. -/
theorem item_of_read (tabular : schema.Tabular) {header : Header} {length : Nat}
    (demanded : schema.demandOf limit bytes = .settled (.read header length))
    (within : header.length + length ≤ limit) (offset : Nat) :
    (∃ emission offset' rest, Item schema limit offset bytes emission offset' rest) ∨
      ∃ malformed, schema.tagOfPayload header.id (schema.kindOf header.id)
        ((bytes.drop header.length).take length) = .ok (.error malformed) := by
  obtain ⟨id, size, payload, rest, fits, fits', leaf, declared, rfl, rfl, front, rfl⟩ :=
    Schema.leaf_of_read demanded
  rw [front]
  rcases tabular.tagOfPayload_cases leaf payload with ⟨tag, -, made, -⟩ | ⟨malformed, read, -⟩
  · exact .inl ⟨_, _, _, .leaf rest fits fits' leaf declared within made⟩
  · exact .inr ⟨malformed, read⟩

namespace Course

/-- Acting on a malformed payload stops the course. -/
theorem act_of_malformed {c : Course} {header : Header} {length : Nat} {malformed : Malformed}
    (read : schema.tagOfPayload header.id (schema.kindOf header.id)
      ((c.rest.drop header.length).take length) = .ok (.error malformed)) :
    ∃ fault c', c.act schema (.ok (.read header length)) = .ok (.fault fault, c') := by
  simp only [act, readLeaf, consume, read]
  exact ⟨_, _, rfl⟩

/-- Whatever the limit is, a step that reports no fault gives the tag of an item or a closing tag,
or finds that the reading is over. -/
theorem parsed_of_narrow (tabular : schema.Tabular) {c c' : Course} {report : Report}
    (parsing : c.Parsing) (h : c.next schema limit = .ok (report, c')) :
    Parsed schema limit (fun _ _ => True) c report c' := by
  rcases owed_or_act_of_next parsing.running h with ⟨emission, owed, rfl⟩ | ⟨idle, acted⟩
  · exact parsed_of_owed parsing owed
  · have broken {fault : Fault} {c₁ : Course}
        (stopped : Except.ok (.fault fault, c₁) = (.ok (report, c') : Except Defect _)) :
        Parsed schema limit (fun _ _ => True) c report c' := by
      cases stopped
      exact .broken idle trivial
    cases settled : schema.settle limit c.rest 0 with
    | error lack =>
      rw [settled] at acted
      obtain ⟨why, part⟩ := lack
      rcases Schema.lack_of_settle settled with rfl | ⟨rfl, start⟩
      · exact broken acted
      · cases part with
        | start => exact parsed_of_closeAtEnd parsing idle (start rfl) (Except.ok.inj acted)
        | idField | sizeField | payload => exact broken acted
    | ok verdict =>
      rw [settled] at acted
      obtain ⟨demanded, within⟩ := Schema.demandOf_of_settle settled (Nat.zero_le _)
      have placed (found : ∃ emission offset' rest,
          Item schema limit c.offset c.rest emission offset' rest) :
          Parsed schema limit (fun _ _ => True) c report c' := by
        obtain ⟨emission, offset', rest, item⟩ := found
        obtain ⟨id, closing, begins, closes, act⟩ := item.act_outcome tabular
        have given := act c rfl rfl
        rw [demanded, Schema.outcome, acted] at given
        exact parsed_of_place parsing idle item begins closes (Except.ok.inj given).symm
      cases verdict with
      | refuse fault => exact broken acted
      | enter header => exact placed (item_of_enter demanded c.offset)
      | read header length =>
        rcases item_of_read tabular demanded within c.offset with found | ⟨malformed, read⟩
        · exact placed found
        · obtain ⟨fault, c₁, stopped⟩ := act_of_malformed read
          exact broken (stopped.symm.trans acted)

end Course

/-- A reading that comes to the end of the stream met no fault on the way. -/
theorem granted_of_endOfStream {seen : List Observation} (ended : concluded seen = true)
    (last : lastReport? seen = some .endOfStream) : StorageGranted seen := by
  induction seen with
  | nil => cases ended
  | cons o later ih =>
    unfold concluded at ended
    split at ended
    · obtain rfl : later = [] := List.isEmpty_iff.mp ended
      have final : o.report = .endOfStream := Option.some.inj last
      intro o' mem
      rw [List.mem_singleton.mp mem, final]
      intro h
      cases h
    · next going =>
      rw [lastReport?_cons ended] at last
      refine List.forall_mem_cons.mpr ⟨?_, ih ended last⟩
      intro refused
      cases report : o.report <;> simp_all [Report.isFinal, Report.outcome]

variable {σ : Type} [ByteSource σ] {d : Delivery σ} {r r' : Reader} {source source' : σ}
  {seen : List Observation}

/-- The tags that a reader begins elements with, up to the end of the stream, spell the bytes of the
stream, and are written as these bytes, if none of them has a NaN of four bytes. -/
theorem spelling_of_endOfStream (tabular : schema.Tabular) (start : r.AtStart)
    (owes : d.Owes source bytes) (run : Run schema d.Keeps r source seen r' source')
    (ended : concluded seen = true) (last : lastReport? seen = some .endOfStream) :
    Spelling (begun seen) bytes ∧
      ((∀ e ∈ begun seen, e.isNarrowNaN = false) →
        (begun seen).flatMap Emission.encode = bytes) := by
  obtain ⟨c, steps⟩ := run.steps_of_atStart start owes (granted_of_endOfStream ended last)
  obtain ⟨items, offset, rest, parsed, begins, final⟩ :=
    Course.begun_of_parsed (Course.parsed_of_narrow tabular) (Course.parsing_start bytes) steps
      (concluded_withoutPauses ended)
  rw [begun_withoutPauses] at begins
  rw [lastReport?_withoutPauses ended, last] at final
  rcases final with ⟨rfl, -⟩ | ⟨fault, -, stopped⟩
  · have spelling : Spelling (begun seen) bytes := by
      rw [begins]
      exact parsed.spelling tabular
    exact ⟨spelling, spelling.eq_encode⟩
  · cases stopped

/-- Information of unknown size with a duration in single precision, ended by a timestamp that has a
zero byte too many in both its fields; then a block group that is shorter than what it holds. -/
def untidyBytes : List UInt8 :=
  [0x15, 0x49, 0xA9, 0x66, 0xFF, 0x44, 0x89, 0x84, 0x3F, 0xC0, 0x00, 0x00, 0xE7, 0x40, 0x02, 0x00,
    0x05, 0xA0, 0x81, 0xFB, 0x81, 0xFF]

/-- A window of eight bytes is narrower than a header may be. -/
theorem spelling_of_untidyBytes :
    (begun ((Reader.new { minWindow := 1, maxWindow := 8 }).shown Matroska.schema
      (File.readable untidyBytes.toArray 0) 8)).flatMap Emission.encode = untidyBytes := by
  obtain ⟨r', source', run⟩ := Run.exists_shown File.delivery.keeps_refl
    (.new { minWindow := 1, maxWindow := 8 }) Matroska.schema
    (.readable untidyBytes.toArray 0) 8
  have owes : File.delivery.Owes (.readable untidyBytes.toArray 0) untidyBytes :=
    ⟨rfl, rfl⟩
  obtain ⟨-, written⟩ := spelling_of_endOfStream .matroska
    (Reader.atStart_new { minWindow := 1, maxWindow := 8 }) owes run (by decide +kernel)
    (by decide +kernel)
  exact written (by decide +kernel)

end TagStream
