import TagStream.Proofs.BigEndian
import TagStream.Proofs.Narrowing
import TagStream.Proofs.Tabular

/-!
Payloads, written again. `Value.encode` writes a value in a given number of bytes, and what has been
read from a payload is written as that payload (`Value.encode_of_ofPayload?`): leading bytes that
an integer does not need, and the width of a floating-point number, are given back by the length.
Only a NaN of four bytes is not, since widening makes it quiet. The tags that tables make keep the
whole value (`Schema.Tabular.value_of_tagOf`).
-/

namespace TagStream

namespace Value

/-- The bits that the sign is copied into lie above those of the payload. -/
theorem toNat_extendSign (length : Nat) (w : UInt64) :
    (extendSign length w).toNat % 256 ^ length = w.toNat % 256 ^ length := by
  unfold extendSign
  split
  · next short =>
    have small : 8 * length < 64 := by
      unfold maxIntegerLength at short
      omega
    have divides : 2 ^ (8 * length) ∣ 2 ^ 64 := Nat.pow_dvd_pow 2 (by omega)
    have above : ((~~~0 : UInt64) <<< UInt64.ofNat (8 * length)).toNat % 2 ^ (8 * length) = 0 := by
      rw [BigEndian.toNat_shiftLeft_ofNat small, Nat.mod_mod_of_dvd _ divides, Nat.mul_mod_left]
    have power : 256 ^ length = 2 ^ (8 * length) := (Nat.pow_mul 2 8 length).symm
    rw [power, UInt64.toNat_or, Nat.or_mod_two_pow, above, Nat.or_zero]
  · rfl

theorem encode_of_readUnsigned {bytes : List UInt8} {n : UInt64}
    (h : readUnsigned bytes = .ok n) : BigEndian.encode bytes.length n.toNat = bytes := by
  unfold readUnsigned at h
  split at h
  · cases h
  · next short =>
    cases h
    exact BigEndian.encode_word (Nat.le_of_not_gt short)

theorem encode_of_readSigned {bytes : List UInt8} {n : Int64}
    (h : readSigned bytes = .ok n) : BigEndian.encode bytes.length n.toUInt64.toNat = bytes := by
  unfold readSigned at h
  cases read : readUnsigned bytes with
  | error malformed =>
    rw [read] at h
    cases h
  | ok w =>
    rw [read] at h
    cases h
    refine Eq.trans (BigEndian.encode_congr ?_) (encode_of_readUnsigned read)
    split
    · exact toNat_extendSign bytes.length w
    · rfl

/-- The number that is written for a floating-point value: the pattern of its precision. -/
def floatPattern (width : Nat) (x : Binary64) : Nat :=
  if width = 4 then x.toBinary32.toNat else x.bits.toNat

theorem encode_of_readFloat {bytes : List UInt8} {x : Binary64} (h : readFloat bytes = .ok x)
    (exact : bytes.length = 4 → x.isNaN = false) :
    BigEndian.encode bytes.length (floatPattern bytes.length x) = bytes := by
  unfold readFloat at h
  split at h
  · next empty =>
    rw [List.length_eq_zero_iff.mp empty]
    rfl
  · next four =>
    cases h
    have short : bytes.length ≤ 8 := by omega
    have small : BigEndian.value bytes < 2 ^ 32 := by
      have := BigEndian.value_lt bytes
      rwa [four] at this
    have kept : (BigEndian.word bytes).toUInt32.toNat = BigEndian.value bytes := by
      rw [UInt64.toNat_toUInt32, BigEndian.toNat_word short, Nat.mod_eq_of_lt small]
    rw [floatPattern, if_pos four, Binary64.toBinary32_ofBinary32 (exact four), kept,
      BigEndian.encode_value]
  · next eight =>
    cases h
    have double : ¬ bytes.length = 4 := by omega
    rw [floatPattern, if_neg double]
    exact BigEndian.encode_word (by omega)
  · cases h

/-! ### Values -/

/-- Writes the value of a leaf in `width` bytes; text and binary data have a length of their own. -/
def encode (width : Nat) : Value → List UInt8
  | .master _ => []
  | .unsigned n => BigEndian.encode width n.toNat
  | .signed n => BigEndian.encode width n.toUInt64.toNat
  | .float x => BigEndian.encode width (floatPattern width x)
  | .text bytes => bytes
  | .binary data => data

/-- Whether the value is a NaN that `width` bytes spell in single precision. -/
def isNarrowNaN (width : Nat) : Value → Bool
  | .float x => width == 4 && x.isNaN
  | _ => false

/-- A value that has been read is written as its payload, but for NaNs of single precision. -/
theorem encode_of_ofPayload? {kind : Kind} {payload : List UInt8} {value : Value}
    (h : ofPayload? kind payload = some (.ok value))
    (exact : value.isNarrowNaN payload.length = false) : value.encode payload.length = payload := by
  have read {α : Type} {result : Except Malformed α} {f : α → Value}
      (h : some (result.map f) = some (.ok value)) : ∃ a, result = .ok a ∧ value = f a := by
    cases result with
    | error malformed => cases h
    | ok a => exact ⟨a, rfl, (Except.ok.inj (Option.some.inj h)).symm⟩
  cases kind with
  | master => cases h
  | unsigned =>
    obtain ⟨n, result, rfl⟩ := read h
    exact encode_of_readUnsigned result
  | signed =>
    obtain ⟨n, result, rfl⟩ := read h
    exact encode_of_readSigned result
  | float =>
    obtain ⟨x, result, rfl⟩ := read h
    refine encode_of_readFloat result ?_
    intro four
    simpa [isNarrowNaN, four] using exact
  | text =>
    obtain ⟨bytes, result, rfl⟩ := read h
    unfold readText at result
    split at result
    · exact (Except.ok.inj result).symm
    · cases result
  | binary =>
    cases h
    rfl

end Value

/-! ### The tags of a table -/

/-- The value that a tag's content stands for. A block stands for the whole payload that it was
found in. -/
def Content.value : Content → Value
  | .master marker => .master marker
  | .unsigned n => .unsigned n
  | .signed n => .signed n
  | .float x => .float x
  | .text bytes => .text bytes
  | .block b => .binary b.data
  | .raw data => .binary data

theorem Block.data_of_ofPayload? {form : BlockForm} {data : List UInt8} {b : Block}
    (h : ofPayload? form data = some b) : b.data = data := by
  unfold ofPayload? at h
  split at h
  · split at h
    · cases h
      rfl
    · cases h
  · cases h

namespace Schema.Tabular

variable {schema : Schema}

/-- A binary value is kept whole, whether or not it is given structure. -/
theorem value_of_tagOf_binary (tabular : schema.Tabular) {id : ElementId} {data : List UInt8}
    {tag : Tag} (made : schema.tagOf id (.binary data) = .ok tag) :
    tag.content.value = .binary data := by
  cases tabular with
  | table t =>
    have declined : t.schema.make id (.binary data) = none := t.make_binary id data
    simp only [tagOf, declined] at made
    cases made
    rfl
  | matroska =>
    have structured : Matroska.schema.make id (.binary data) = Matroska.block? id data := rfl
    simp only [tagOf, structured] at made
    cases block : Matroska.block? id data with
    | none =>
      rw [block] at made
      cases made
      rfl
    | some tag' =>
      rw [block] at made
      cases made
      obtain ⟨form, -, found⟩ := Option.bind_eq_some_iff.mp block
      obtain ⟨b, read, rfl⟩ := Option.map_eq_some_iff.mp found
      exact congrArg Value.binary (Block.data_of_ofPayload? read)

/-- The tag that is made of a leaf's value keeps the value. -/
theorem value_of_tagOf (tabular : schema.Tabular) {id : ElementId} {value : Value} {tag : Tag}
    (declared : schema.kindOf id = value.kind) (made : schema.tagOf id value = .ok tag) :
    tag.content.value = value := by
  obtain ⟨t, follows⟩ := tabular.exists_follows
  -- Any tag that the table makes is the one that the schema makes.
  have plain {content : Content} (notBinary : value.kind ≠ .binary)
      (same : Table.make.plain value = some content) : tag.content = content := by
    have listed := t.make_eq (follows.kindOf ▸ declared) same
    have made' := tagOf_of_make notBinary ((follows.make id value notBinary).trans listed)
    rw [made] at made'
    cases made'
    rfl
  cases value with
  | binary data => exact tabular.value_of_tagOf_binary made
  | master marker | unsigned n | signed n | float x | text bytes =>
    rw [plain (by intro h; cases h) rfl]
    rfl

/-- The tag of a leaf has the element's id and keeps a value that was read from the payload. -/
theorem value_of_leaf? (tabular : schema.Tabular) {id : ElementId} {payload : List UInt8}
    {tag : Tag} (made : schema.leaf? id payload = some tag) :
    tag.id = id ∧
      Value.ofPayload? (schema.kindOf id) payload = some (.ok tag.content.value) := by
  unfold leaf? at made
  split at made
  · next value read =>
    obtain ⟨kind, leaf⟩ := Value.kind_of_ofPayload? read
    obtain ⟨tag', made', same, -⟩ := tabular.exists_tagOf kind.symm (by rw [kind]; exact leaf)
    rw [made'] at made
    cases made
    exact ⟨same, by rw [tabular.value_of_tagOf kind.symm made', read]⟩
  · cases made

end Schema.Tabular

end TagStream
