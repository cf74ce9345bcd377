import TagStream.Proofs.Demand

/-!
Whole tags. `Schema.IsTag` says when a byte string is one tag and nothing else: a header, and the
payload that a leaf declares. What is entered or read is such a string (`isTag_of_settled`), and the
bytes of a tag that demands more are the front of one, and fewer than whichever tag they turn out to
begin (`isPartial_of_await`).
-/

namespace TagStream

/-- The number of bytes that belong to a tag besides its header. -/
def Schema.payloadLength (schema : Schema) (id : ElementId) (size : Size) : Nat :=
  if schema.kindOf id = .master then 0 else size.length

/-- The bytes are a tag: its id and size fields, and the payload of a leaf. -/
inductive Schema.IsTag (schema : Schema) : List UInt8 → Prop where
  | intro {id size : Vint} {payload : List UInt8} : id.Fits → size.Fits →
      payload.length = schema.payloadLength (.ofVint id) (.ofVint size) →
      IsTag schema (id.bytes ++ (size.bytes ++ payload))

/-- The bytes are the front of a tag, and not all of whichever tag they and the bytes after them
begin with. -/
structure Schema.IsPartial (schema : Schema) (bytes : List UInt8) : Prop where
  begins : ∃ tag, schema.IsTag tag ∧ bytes <+: tag
  lacks : ∀ {tag more : List UInt8}, schema.IsTag tag → tag <+: bytes ++ more →
    bytes.length < tag.length

namespace Schema

variable {schema : Schema} {limit : Nat} {bytes tag : List UInt8}

/-- Every header can be followed by as many bytes as belong to the tag. -/
theorem exists_isTag {id size : Vint} (fits : id.Fits) (fits' : size.Fits) (front : List UInt8)
    (short : front.length ≤ schema.payloadLength (.ofVint id) (.ofVint size)) :
    ∃ rest, schema.IsTag (id.bytes ++ (size.bytes ++ (front ++ rest))) := by
  refine ⟨List.replicate (schema.payloadLength (.ofVint id) (.ofVint size) - front.length) 0,
    .intro fits fits' ?_⟩
  rw [List.length_append, List.length_replicate]
  omega

/-- What is entered or read, and nothing behind it, is a tag. -/
theorem isTag_of_settled {verdict : Verdict} (h : schema.demandOf limit bytes = .settled verdict)
    (accepted : ∀ fault, verdict ≠ .refuse fault) (whole : bytes.length = verdict.extent) :
    schema.IsTag bytes := by
  rw [demandOf_eq_iff] at h
  cases h with
  | flawed | unsized | large => exact absurd rfl (accepted _)
  | enter scanned kind =>
    rw [Header.scan_eq_iff] at scanned
    cases scanned with
    | complete rest fits fits' =>
      refine .intro fits fits' ?_
      simp only [List.length_append, Vint.length_bytes, Verdict.extent] at whole
      rw [payloadLength, if_pos kind]
      omega
  | read scanned leaf size =>
    rw [Header.scan_eq_iff] at scanned
    cases scanned with
    | complete rest fits fits' =>
      refine .intro fits fits' ?_
      simp only [List.length_append, Vint.length_bytes, Verdict.extent] at whole
      simp only at size
      rw [payloadLength, if_neg leaf, size, Size.length]
      omega

/-- A tag that is there demands nothing more. -/
theorem settled_of_isTag (h : schema.IsTag tag) (front : tag <+: bytes) :
    ∃ verdict, schema.demandOf limit bytes = .settled verdict := by
  obtain ⟨rest, rfl⟩ := front
  cases h with
  | @intro id size payload fits fits' length =>
    rw [List.append_assoc, List.append_assoc]
    have scanned := (Header.Seen.complete (payload ++ rest) fits fits').scan_eq
    by_cases kind : schema.kindOf (.ofVint id) = .master
    · exact ⟨_, demandOf_eq_iff.mpr (.enter scanned kind)⟩
    · rw [payloadLength, if_neg kind] at length
      cases declared : Size.ofVint size with
      | unknown => exact ⟨_, demandOf_eq_iff.mpr (.unsized scanned kind declared)⟩
      | known count =>
        rw [declared, Size.length] at length
        by_cases large : limit - (id.width + size.width) < count
        · exact ⟨_, demandOf_eq_iff.mpr (.large scanned kind declared large)⟩
        · refine ⟨_, demandOf_eq_iff.mpr (.read scanned kind declared (Nat.le_of_not_lt large) ?_)⟩
          simp only [List.length_append, Vint.length_bytes]
          omega

/-- Where more bytes are demanded, those that are there are the front of a tag. -/
theorem begins_of_await {needed : Nat} {part : Part}
    (h : schema.demandOf limit bytes = .await needed part) :
    ∃ tag, schema.IsTag tag ∧ bytes <+: tag := by
  have least : (⟨0, 1⟩ : Vint).Fits := by decide
  have header {id size : Vint} (fits : id.Fits) (fits' : size.Fits) :
      ∃ rest, schema.IsTag (id.bytes ++ (size.bytes ++ rest)) :=
    exists_isTag fits fits' [] (Nat.zero_le _)
  rw [demandOf_eq_iff] at h
  cases h with
  | short scanned =>
    rw [Header.scan_eq_iff] at scanned
    cases scanned with
    | nothing =>
      obtain ⟨rest, tag⟩ := header least least
      exact ⟨_, tag, List.nil_prefix⟩
    | idCut fits _ _ cut =>
      obtain ⟨rest, tag⟩ := header fits least
      exact ⟨_, tag, cut.trans (List.prefix_append _ _)⟩
    | sizeMissing fits =>
      obtain ⟨rest, tag⟩ := header fits least
      exact ⟨_, tag, List.prefix_append _ _⟩
    | sizeCut fits fits' _ _ cut =>
      obtain ⟨rest, tag⟩ := header fits fits'
      refine ⟨_, tag, ?_⟩
      rw [List.prefix_append_right_inj]
      exact cut.trans (List.prefix_append _ _)
  | unread scanned leaf size _ few =>
    rw [Header.scan_eq_iff] at scanned
    cases scanned with
    | @complete v w front fits fits' =>
      simp only at size leaf
      simp only [List.length_append, Vint.length_bytes] at few
      have short : front.length ≤ schema.payloadLength (.ofVint v) (.ofVint w) := by
        rw [payloadLength, if_neg leaf, size, Size.length]
        omega
      obtain ⟨rest, tag⟩ := exists_isTag fits fits' front short
      refine ⟨_, tag, ?_⟩
      rw [List.prefix_append_right_inj, List.prefix_append_right_inj]
      exact List.prefix_append _ _

/-- Where more bytes are demanded, those that are there are a part of a tag. -/
theorem isPartial_of_await {needed : Nat} {part : Part}
    (h : schema.demandOf limit bytes = .await needed part) : schema.IsPartial bytes := by
  constructor
  · exact begins_of_await h
  · intro tag more isTag front
    apply Nat.lt_of_not_le
    intro whole
    have inside : tag <+: bytes :=
      List.prefix_of_prefix_length_le front (List.prefix_append _ _) whole
    obtain ⟨verdict, settled⟩ : ∃ verdict, schema.demandOf limit bytes = .settled verdict :=
      settled_of_isTag isTag inside
    rw [settled] at h
    cases h

end Schema

end TagStream
