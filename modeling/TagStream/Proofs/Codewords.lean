import TagStream.Proofs.Rewriting

/-!
Variable-length integers as a code. Each number that fits in the width that it is written in has one
codeword there (`Vint.encode`), and what can be read is exactly the codewords, whatever follows them
(`Vint.read_inverts_encode`). A string for which more bytes are needed is the front of a codeword,
and one that cannot be read at all starts with a zero byte. At each step on the way, the register
holds the number that it stands for.
-/

namespace TagStream

namespace Vint

/-! ### Codewords -/

/-- The number can be written in this width. -/
def Writable (width value : Nat) : Prop :=
  (0 < width ∧ width ≤ 8) ∧ value < 2 ^ (7 * width)

instance (width value : Nat) : Decidable (Writable width value) :=
  inferInstanceAs (Decidable (_ ∧ _))

variable {width value : Nat} {bytes : List UInt8} {v : Vint}

theorem Writable.toNat_ofNat (writable : Writable width value) :
    (UInt64.ofNat value).toNat = value := by
  obtain ⟨⟨-, le⟩, small⟩ := writable
  have word : 2 ^ (7 * width) ≤ 2 ^ 64 := Nat.pow_le_pow_right (by decide) (by omega)
  rw [UInt64.toNat_ofNat', Nat.mod_eq_of_lt (Nat.lt_of_lt_of_le small word)]

/-- A number that can be written is the value of an integer that fits, and the codeword is what that
integer is written as. -/
theorem Writable.fits (writable : Writable width value) :
    (⟨UInt64.ofNat value, width⟩ : Vint).Fits ∧
      (⟨UInt64.ofNat value, width⟩ : Vint).bytes = encode width value := by
  have held := writable.toNat_ofNat
  obtain ⟨⟨pos, le⟩, small⟩ := writable
  refine ⟨⟨pos, le, ?_⟩, ?_⟩
  · rw [held]
    exact small
  · rw [Vint.bytes, held]

theorem Writable.length_encode (writable : Writable width value) :
    (encode width value).length = width := by
  rw [← writable.fits.2, length_bytes]

theorem Fits.writable (fits : v.Fits) : Writable v.width v.value.toNat :=
  ⟨⟨fits.width_pos, fits.width_le⟩, fits.value_lt⟩

/-! ### What is read -/

/-- A codeword is read, whatever follows it. -/
theorem Writable.read_append (writable : Writable width value) (rest : List UInt8) :
    read (encode width value ++ rest) = .complete ⟨UInt64.ofNat value, width⟩ := by
  obtain ⟨fits, written⟩ := writable.fits
  rw [← written, read_bytes_append fits]

/-- As an id, a codeword is the number that its bytes spell. -/
theorem Writable.readId_append (writable : Writable width value) (rest : List UInt8) :
    ∃ id, ElementId.read (encode width value ++ rest) = .complete (id, width) ∧
      id.toNat = BigEndian.value (encode width value) ∧
      BigEndian.encode width id.toNat = encode width value := by
  have spelled := (value_take_of_read (writable.read_append rest)).2.2
  rw [List.take_left' writable.length_encode, Nat.add_comm,
    ← ElementId.toNat_ofVint writable.fits.1] at spelled
  refine ⟨_, congrArg (Front.map _) (writable.read_append rest), spelled.symm, ?_⟩
  have same := BigEndian.encode_value (encode width value)
  rw [writable.length_encode, spelled] at same
  exact same

/-- As a size, a codeword is its number, unless all value bits are set. -/
theorem Writable.readSize_append (writable : Writable width value) (rest : List UInt8) :
    Size.read (encode width value ++ rest) =
      .complete (if value = 2 ^ (7 * width) - 1 then .unknown else .known value, width) := by
  have size := Size.ofVint_eq writable.fits.1
  rw [writable.toNat_ofNat] at size
  rw [Size.read, writable.read_append, Front.map, size]

theorem read_eq_malformed_iff : read bytes = .malformed ↔ bytes.head? = some 0 := by
  cases bytes with
  | nil => simp [read]
  | cons first rest =>
    rw [List.head?_cons, Option.some.injEq, ← width?_eq_none_iff, read]
    cases named : width? first with
    | none => exact iff_of_true rfl rfl
    | some width =>
      refine iff_of_false ?_ (by simp)
      dsimp only
      split <;> simp

theorem read_eq_incomplete_iff : read bytes = .incomplete ↔
    ∃ width value, Writable width value ∧ bytes <+: encode width value ∧
      bytes ≠ encode width value := by
  constructor
  · intro incomplete
    rcases front_cases bytes with rfl | ⟨rest, rfl⟩ | ⟨v, fits, -, short, front⟩ |
      ⟨v, rest, fits, rfl⟩
    · exact ⟨1, 0, by decide, List.nil_prefix, by decide⟩
    · rw [read_eq_malformed_iff.mpr rfl] at incomplete
      cases incomplete
    · refine ⟨v.width, v.value.toNat, fits.writable, front, ?_⟩
      rintro rfl
      exact Nat.lt_irrefl _ (v.length_bytes ▸ short)
    · rw [read_bytes_append fits] at incomplete
      cases incomplete
  · rintro ⟨width, value, writable, front, other⟩
    obtain ⟨fits, written⟩ := writable.fits
    rw [← written] at front other
    cases bytes with
    | nil => rfl
    | cons first rest =>
      have length := front.length_le
      have short : rest.length + 1 ≠ width := by
        intro whole
        refine other (front.eq_of_length ?_)
        rw [length_bytes, List.length_cons, whole]
      rw [length_bytes, List.length_cons] at length
      rw [read, width?_of_prefix fits front]
      exact if_pos (Nat.lt_of_le_of_ne length short)

/-- Bytes that come later change nothing about what has been read or cannot be. -/
theorem read_append (settled : read bytes ≠ .incomplete) (rest : List UInt8) :
    read (bytes ++ rest) = read bytes := by
  cases first : read bytes with
  | incomplete => exact absurd first settled
  | malformed =>
    rw [read_eq_malformed_iff] at first ⊢
    rw [List.head?_append, first, Option.some_or]
  | complete v =>
    obtain ⟨fits, written⟩ := bytes_of_read first
    rw [written, List.append_assoc]
    exact read_bytes_append fits _

/-! ### The register -/

/-- The register once the first byte and `count` of the bytes after it have been taken in. -/
def register (first : UInt8) (rest : List UInt8) (width count : Nat) : UInt64 :=
  BigEndian.extend (payloadBits first width) (rest.take count)

/-- What is read is what the register holds in the end. -/
theorem read_eq_register {first : UInt8} {rest : List UInt8} (named : width? first = some width)
    (enough : width ≤ rest.length + 1) :
    read (first :: rest) = .complete ⟨register first rest width (width - 1), width⟩ := by
  rw [read, named]
  exact if_neg (Nat.not_lt.mpr enough)

/-- The bits after the marker of the first byte, and eight bits for each byte behind it, are all
that is held. -/
theorem register_lt {first : UInt8} {rest : List UInt8} (named : width? first = some width)
    {count : Nat} (within : count < width) :
    (register first rest width count).toNat < 2 ^ (8 - width + 8 * count) := by
  obtain ⟨⟨pos, le⟩, -, high⟩ := width?_eq_some_iff.mp named
  have bits := toNat_payloadBits named
  rw [show 9 - width = 8 - width + 1 by omega, Nat.pow_succ] at high
  have length : (rest.take count).length ≤ count := by
    rw [List.length_take]
    exact Nat.min_le_left _ _
  have spelled := BigEndian.value_lt (rest.take count)
  have room : ((payloadBits first width).toNat + 1) * 256 ^ (rest.take count).length ≤
      2 ^ (8 - width + 8 * count) := by
    rw [Nat.pow_add, Nat.pow_mul]
    exact Nat.mul_le_mul (by omega) (Nat.pow_le_pow_right (by decide) length)
  have word : 2 ^ (8 - width + 8 * count) ≤ 2 ^ 64 := Nat.pow_le_pow_right (by decide) (by omega)
  rw [register, BigEndian.toNat_extend (Nat.le_trans room word)]
  rw [Nat.add_mul, Nat.one_mul] at room
  omega

/-- Each byte multiplies what the register holds by 256 and adds to it, and there is room for
that. -/
theorem register_succ {first : UInt8} {rest : List UInt8} (named : width? first = some width)
    {count : Nat} (within : count + 1 < width) {b : UInt8} (next : rest[count]? = some b) :
    (register first rest width (count + 1)).toNat =
        256 * (register first rest width count).toNat + b.toNat ∧
      (register first rest width (count + 1)).toNat < 2 ^ (7 * width) := by
  obtain ⟨⟨-, le⟩, -⟩ := width?_eq_some_iff.mp named
  constructor
  · have small : (register first rest width count).toNat < 2 ^ 56 :=
      Nat.lt_of_lt_of_le (register_lt named (Nat.lt_of_succ_lt within))
        (Nat.pow_le_pow_right (by decide) (by omega))
    rw [← BigEndian.toNat_shift_or b small, register, register, List.take_add_one, next,
      BigEndian.extend, List.foldl_append]
    rfl
  · exact Nat.lt_of_lt_of_le (register_lt named within)
      (Nat.pow_le_pow_right (by decide) (by omega))

end Vint

/-! ### Ids -/

/-- An id is read off its own bytes only. -/
theorem ElementId.take_of_read {bytes : List UInt8} {id : ElementId} {width : Nat}
    (h : ElementId.read bytes = .complete (id, width)) : bytes.take width = id.bytes := by
  unfold ElementId.read at h
  cases front : Vint.read bytes with
  | incomplete | malformed =>
    rw [front] at h
    cases h
  | complete v =>
    rw [front] at h
    cases h
    obtain ⟨fits, written⟩ := Vint.bytes_of_read front
    rw [bytes_ofVint fits, written, List.take_left' v.length_bytes]

/-- **Reading inverts writing.** A codeword is read as the number that it was written for, whatever
follows it; as an id, it is the number that its own bytes spell, and as a size, it is that number
unless all its value bits are set. Conversely, what is read is a codeword at the front. Nothing can
be read exactly if the first byte is zero, and more bytes are needed exactly if those there are the
front of a codeword and not all of it; so later bytes change no other answer. Bytes that are read as
one id are the same bytes. The registers hold the numbers that are meant, and nothing runs over. -/
theorem Vint.read_inverts_encode :
    (∀ {width value : Nat}, Writable width value → ∀ rest : List UInt8,
      (encode width value).length = width ∧
      (∃ v : Vint, read (encode width value ++ rest) = .complete v ∧
        v.value.toNat = value ∧ v.width = width) ∧
      (∃ id, ElementId.read (encode width value ++ rest) = .complete (id, width) ∧
        id.toNat = BigEndian.value (encode width value) ∧
        BigEndian.encode width id.toNat = encode width value) ∧
      Size.read (encode width value ++ rest) =
        .complete (if value = 2 ^ (7 * width) - 1 then .unknown else .known value, width)) ∧
    (∀ {bytes : List UInt8} {v : Vint}, read bytes = .complete v →
      Writable v.width v.value.toNat ∧ encode v.width v.value.toNat <+: bytes) ∧
    (∀ {bytes : List UInt8},
      (read bytes = .malformed ↔ bytes.head? = some 0) ∧
      (read bytes = .incomplete ↔ ∃ width value, Writable width value ∧
        bytes <+: encode width value ∧ bytes ≠ encode width value) ∧
      (read bytes ≠ .incomplete → ∀ rest, read (bytes ++ rest) = read bytes ∧
        ElementId.read (bytes ++ rest) = ElementId.read bytes ∧
        Size.read (bytes ++ rest) = Size.read bytes)) ∧
    (∀ {bytes bytes' : List UInt8} {id : ElementId} {width width' : Nat},
      ElementId.read bytes = .complete (id, width) →
      ElementId.read bytes' = .complete (id, width') → bytes.take width = bytes'.take width') ∧
    (∀ {first : UInt8} {rest : List UInt8} {width : Nat}, width? first = some width →
      (width ≤ rest.length + 1 →
        read (first :: rest) = .complete ⟨register first rest width (width - 1), width⟩) ∧
      (register first rest width 0).toNat + 2 ^ (8 - width) = first.toNat ∧
      ∀ {count : Nat} {b : UInt8}, count + 1 < width → rest[count]? = some b →
        (register first rest width (count + 1)).toNat =
            256 * (register first rest width count).toNat + b.toNat ∧
          (register first rest width (count + 1)).toNat < 2 ^ (7 * width)) ∧
    ∀ {v : Vint}, v.Fits → (ElementId.ofVint v).toNat = v.value.toNat + 2 ^ (7 * v.width) ∧
      (1 <<< UInt64.ofNat (7 * v.width) - 1 : UInt64).toNat = 2 ^ (7 * v.width) - 1 := by
  refine ⟨?_, ?_, ?_, ?_, ?_, ?_⟩
  · intro width value writable rest
    exact ⟨writable.length_encode, ⟨_, writable.read_append rest, writable.toNat_ofNat, rfl⟩,
      writable.readId_append rest, writable.readSize_append rest⟩
  · intro bytes v complete
    obtain ⟨fits, written⟩ := bytes_of_read complete
    exact ⟨fits.writable, _, written.symm⟩
  · intro bytes
    refine ⟨read_eq_malformed_iff, read_eq_incomplete_iff, fun settled rest => ?_⟩
    have same := read_append settled rest
    exact ⟨same, congrArg (Front.map _) same, congrArg (Front.map _) same⟩
  · intro bytes bytes' id width width' one other
    rw [ElementId.take_of_read one, ElementId.take_of_read other]
  · intro first rest width named
    exact ⟨read_eq_register named, toNat_payloadBits named, fun within next =>
      register_succ named within next⟩
  · intro v fits
    have le := fits.width_le
    exact ⟨ElementId.toNat_ofVint fits, toNat_one_shiftLeft_sub_one (by omega)⟩

/-- The id of an EBML header, a number in more bytes than it needs, and what is less or more than a
codeword. -/
theorem Vint.read_inverts_encode_headerId :
    (Writable 4 0xA45DFA3 ∧ encode 4 0xA45DFA3 = [0x1A, 0x45, 0xDF, 0xA3]) ∧
      (∃ id, ElementId.read [0x1A, 0x45, 0xDF, 0xA3, 0x9F] = .complete (id, 4) ∧
        id.toNat = BigEndian.value [0x1A, 0x45, 0xDF, 0xA3]) ∧
      Size.read [0x7F, 0xFF, 0x00] = .complete (.unknown, 2) ∧
      (read [0x40, 0x02, 0x81] = .complete ⟨2, 2⟩ ∧ encode 2 2 <+: [0x40, 0x02, 0x81]) ∧
      (∃ width value, Writable width value ∧ [0x1A, 0x45] <+: encode width value ∧
        [0x1A, 0x45] ≠ encode width value) ∧
      read ([0x00] ++ [0x81]) = .malformed ∧
      (ElementId.read [0x81, 0x01] = .complete (0x81, 1) ∧
        ([0x81, 0x01] : List UInt8).take 1 = [0x81, 0x02].take 1) ∧
      (register 0x40 [0x02] 2 1).toNat = 256 * (register 0x40 [0x02] 2 0).toNat + 2 ∧
      (ElementId.ofVint ⟨2, 2⟩).toNat = 2 + 2 ^ 14 := by
  obtain ⟨written, readable, answers, ids, registers, marks⟩ := read_inverts_encode
  have four : Writable 4 0xA45DFA3 := by decide
  have id : encode 4 0xA45DFA3 = [0x1A, 0x45, 0xDF, 0xA3] := by decide +kernel
  have ones : Writable 2 0x3FFF := by decide
  have two : read [0x40, 0x02, 0x81] = .complete ⟨2, 2⟩ := by decide +kernel
  have one : ElementId.read [0x81, 0x01] = .complete (0x81, 1) := by decide +kernel
  have one' : ElementId.read [0x81, 0x02] = .complete (0x81, 1) := by decide +kernel
  have named : width? 0x40 = some 2 := by decide +kernel
  obtain ⟨-, -, ⟨asId, given, spelled, -⟩, -⟩ := written four [0x9F]
  obtain ⟨-, -, -, unknown⟩ := written ones [0x00]
  obtain ⟨malformed, -, settled⟩ := @answers [0x00]
  obtain ⟨-, -, step⟩ := @registers 0x40 [0x02] 2 named
  rw [id] at given spelled
  have zero := malformed.mpr rfl
  refine ⟨⟨four, id⟩, ⟨asId, given, spelled⟩, unknown, ⟨two, (readable two).2⟩,
    answers.2.1.mp (by decide +kernel), ?_, ⟨one, ids one one'⟩, ?_, ?_⟩
  · rw [(settled (by simp [zero]) [0x81]).1, zero]
  · exact (@step 0 0x02 (by decide) rfl).1
  · exact (marks (by decide)).1

end TagStream
