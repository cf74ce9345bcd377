import TagStream.Header.Scan
import TagStream.Proofs.Vint

/-!
What a scan sees. `Header.Seen` lists, in terms of written integers, every front a header can have,
and `Header.scan_eq_iff` says that a scan reports just these. It follows that what has been settled
stays settled when more bytes arrive (`scan_append`), that a scan that asks for more goes on asking
for it until it is there (`scan_short_append`), and that it never asks for more than the header has.
-/

namespace TagStream.Header

/-- The fronts of headers: a byte string, and what is seen of the header at its front. -/
inductive Seen : List UInt8 → Sighting → Prop where
  | nothing : Seen [] (.short 1 .start)
  | idWithoutMarker (rest : List UInt8) : Seen (0 :: rest) (.flawed .idWithoutMarker)
  | idCut {v : Vint} {front : List UInt8} : v.Fits → front ≠ [] → front.length < v.width →
      front <+: v.bytes → Seen front (.short v.width .idField)
  | sizeMissing {v : Vint} : v.Fits →
      Seen v.bytes (.short (v.width + 1) (.sizeField (.ofVint v)))
  | sizeWithoutMarker {v : Vint} (rest : List UInt8) : v.Fits →
      Seen (v.bytes ++ 0 :: rest) (.flawed (.sizeWithoutMarker (.ofVint v)))
  | sizeCut {v w : Vint} {front : List UInt8} : v.Fits → w.Fits → front ≠ [] →
      front.length < w.width → front <+: w.bytes →
      Seen (v.bytes ++ front) (.short (v.width + w.width) (.sizeField (.ofVint v)))
  | complete {v w : Vint} (rest : List UInt8) : v.Fits → w.Fits →
      Seen (v.bytes ++ (w.bytes ++ rest))
        (.complete ⟨.ofVint v, .ofVint w, v.width + w.width⟩)

/-- Every front is one of those listed. -/
theorem Seen.exists (bytes : List UInt8) : ∃ sighting, Seen bytes sighting := by
  rcases Vint.front_cases bytes
    with rfl | ⟨rest, rfl⟩ | ⟨v, fits, started, short, front⟩ | ⟨v, after, fits, rfl⟩
  · exact ⟨_, .nothing⟩
  · exact ⟨_, .idWithoutMarker rest⟩
  · exact ⟨_, .idCut fits started short front⟩
  · rcases Vint.front_cases after
      with rfl | ⟨rest, rfl⟩ | ⟨w, fits', started, short, front⟩ | ⟨w, rest, fits', rfl⟩
    · rw [List.append_nil]
      exact ⟨_, .sizeMissing fits⟩
    · exact ⟨_, .sizeWithoutMarker rest fits⟩
    · exact ⟨_, .sizeCut fits fits' started short front⟩
    · exact ⟨_, .complete rest fits fits'⟩

/-- A scan over a complete id goes on to the size. -/
theorem scan_bytes_append {v : Vint} (fits : v.Fits) (rest : List UInt8) :
    scan (v.bytes ++ rest) = scanSize (.ofVint v) v.width (v.bytes ++ rest) := by
  obtain ⟨first, tail, written, named⟩ := Vint.width?_head fits
  have long : ¬ (v.bytes ++ rest).length < v.width := by simp
  have read := ElementId.read_bytes_append fits rest
  rw [written, List.cons_append] at long read ⊢
  simp only [scan, named, read, if_neg long]

/-- What is listed is what a scan reports. -/
theorem Seen.scan_eq {bytes : List UInt8} {sighting : Sighting} (seen : Seen bytes sighting) :
    scan bytes = sighting := by
  cases seen with
  | nothing => rfl
  | idWithoutMarker rest => rfl
  | @idCut v _ fits started short front =>
    obtain ⟨first, rest, rfl⟩ := List.exists_cons_of_ne_nil started
    simp only [scan, Vint.width?_of_prefix fits front, if_pos short]
  | @sizeMissing v fits =>
    have scanned := scan_bytes_append fits []
    rw [List.append_nil] at scanned
    rw [scanned, scanSize, List.drop_eq_nil_of_le (by simp)]
  | @sizeWithoutMarker v rest fits =>
    rw [scan_bytes_append fits, scanSize, List.drop_left' v.length_bytes]
    rfl
  | @sizeCut v w front fits fits' started short cut =>
    obtain ⟨first, rest, rfl⟩ := List.exists_cons_of_ne_nil started
    rw [scan_bytes_append fits, scanSize, List.drop_left' v.length_bytes]
    have few : (v.bytes ++ first :: rest).length < v.width + w.width := by
      rw [List.length_append, v.length_bytes]; omega
    simp only [Vint.width?_of_prefix fits' cut, if_pos few]
  | @complete v w rest fits fits' =>
    obtain ⟨first, tail, written, named⟩ := Vint.width?_head fits'
    rw [scan_bytes_append fits, scanSize, List.drop_left' v.length_bytes]
    have enough : ¬ (v.bytes ++ (w.bytes ++ rest)).length < v.width + w.width := by
      simp only [List.length_append, Vint.length_bytes]; omega
    have read := Size.read_bytes_append fits' rest
    rw [written, List.cons_append] at enough read ⊢
    simp only [named, if_neg enough, read]

theorem scan_eq_iff {bytes : List UInt8} {sighting : Sighting} :
    scan bytes = sighting ↔ Seen bytes sighting := by
  constructor
  · rintro rfl
    obtain ⟨sighting, seen⟩ := Seen.exists bytes
    rw [seen.scan_eq]
    exact seen
  · exact Seen.scan_eq

/-- A field whose bytes are all there can be read. -/
theorem scan_readable (bytes : List UInt8) :
    scan bytes ≠ .flawed .idUnreadable ∧ ∀ id, scan bytes ≠ .flawed (.sizeUnreadable id) := by
  constructor
  · intro scanned
    rw [scan_eq_iff] at scanned
    cases scanned
  · intro id scanned
    rw [scan_eq_iff] at scanned
    cases scanned

/-! ### More bytes -/

/-- What has been settled about a header does not change when more bytes arrive. -/
theorem scan_append {front : List UInt8} (settled : ∀ needed part, scan front ≠ .short needed part)
    (more : List UInt8) : scan (front ++ more) = scan front := by
  obtain ⟨sighting, seen⟩ := Seen.exists front
  rw [seen.scan_eq] at settled ⊢
  cases seen with
  | nothing | idCut _ _ _ _ | sizeMissing _ | sizeCut _ _ _ _ _ => exact absurd rfl (settled _ _)
  | idWithoutMarker rest => exact (Seen.idWithoutMarker (rest ++ more)).scan_eq
  | sizeWithoutMarker rest fits =>
    rw [List.append_assoc]
    exact (Seen.sizeWithoutMarker (rest ++ more) fits).scan_eq
  | complete rest fits fits' =>
    rw [List.append_assoc, List.append_assoc]
    exact (Seen.complete (rest ++ more) fits fits').scan_eq

/-- A header that is read off the front of the bytes is the one that is read off all of them. -/
theorem eq_of_scan_front {bytes front : List UInt8} {header header' : Header}
    (whole : scan bytes = .complete header) (isFront : front <+: bytes)
    (scanned : scan front = .complete header') : header' = header := by
  obtain ⟨rest, rfl⟩ := isFront
  rw [scan_append (by simp [scanned]), scanned] at whole
  exact Sighting.complete.inj whole

/-- The front of a written integer, made longer by bytes that do not complete it, is the front of an
integer of the same width. -/
theorem exists_prefix_append {v : Vint} (fits : v.Fits) {front more : List UInt8}
    (started : front ≠ []) (cut : front <+: v.bytes) (short : (front ++ more).length < v.width) :
    ∃ u : Vint, u.Fits ∧ u.width = v.width ∧ front ++ more <+: u.bytes := by
  obtain ⟨first, rest, rfl⟩ := List.exists_cons_of_ne_nil started
  exact Vint.exists_bytes_of_width? (Vint.width?_of_prefix fits cut) (by simp at short ⊢; omega)

/-- A scan that asks for more bytes goes on asking for them until they are there. -/
theorem scan_short_append {front : List UInt8} {needed : Nat} {part : Part}
    (h : scan front = .short needed part) (more : List UInt8)
    (short : (front ++ more).length < needed) :
    scan (front ++ more) = .short needed part := by
  rw [scan_eq_iff] at h
  cases h with
  | nothing =>
    obtain rfl : more = [] := by simpa using short
    exact scan_eq_iff.mpr .nothing
  | idCut fits started _ cut =>
    obtain ⟨u, fits', width, front'⟩ := exists_prefix_append fits started cut short
    rw [← width] at short ⊢
    exact scan_eq_iff.mpr (.idCut fits' (by simp [started]) short front')
  | sizeMissing fits =>
    obtain rfl : more = [] := by
      simp only [List.length_append, Vint.length_bytes] at short
      exact List.eq_nil_of_length_eq_zero (by omega)
    rw [List.append_nil]
    exact scan_eq_iff.mpr (.sizeMissing fits)
  | sizeCut fits fits' started _ cut =>
    rw [List.append_assoc] at short ⊢
    rw [List.length_append, Vint.length_bytes, Nat.add_lt_add_iff_left] at short
    obtain ⟨u, fits'', width, front'⟩ := exists_prefix_append fits' started cut short
    rw [← width] at short ⊢
    exact scan_eq_iff.mpr (.sizeCut fits fits'' (by simp [started]) short front')

/-- A complete header has all its bytes, no more than sixteen, and depends on no others. -/
theorem scan_complete {bytes : List UInt8} {header : Header} (h : scan bytes = .complete header) :
    header.length ≤ bytes.length ∧ header.length ≤ maxLength ∧
      scan (bytes.take header.length) = .complete header := by
  rw [scan_eq_iff] at h
  cases h with
  | @complete v w rest fits fits' =>
    have le := fits.width_le
    have le' := fits'.width_le
    refine ⟨by simp, by simp only [maxLength]; omega, ?_⟩
    have whole := (Seen.complete [] fits fits').scan_eq
    rw [← List.append_assoc, List.take_left' (by simp)]
    rwa [List.append_nil] at whole

/-- The length of a leaf, with its header, comes nowhere near the greatest of all sizes. -/
theorem extent_lt {bytes : List UInt8} {header : Header} {length : Nat}
    (scanned : scan bytes = .complete header) (size : header.size = .known length) :
    header.length + length < 2 ^ 64 := by
  have short := (scan_complete scanned).2.1
  rw [scan_eq_iff] at scanned
  cases scanned with
  | @complete v w rest fits fits' =>
    have small : w.value.toNat < 2 ^ 56 :=
      Nat.lt_of_lt_of_le fits'.value_lt
        (Nat.pow_le_pow_right (by decide) (Nat.mul_le_mul_left 7 fits'.width_le))
    simp only [Size.ofVint_eq fits'] at size
    split at size
    · cases size
    · cases size
      simp only [maxLength] at short ⊢
      omega

/-- A header asks for none of the bytes that follow it. -/
theorem le_length_of_short {front bytes : List UInt8} {needed : Nat} {part : Part} {header : Header}
    (h : scan front = .short needed part) (isFront : front <+: bytes)
    (whole : scan bytes = .complete header) : needed ≤ header.length := by
  obtain ⟨enough, -, least⟩ := scan_complete whole
  by_cases longer : header.length ≤ front.length
  · -- The header is complete in `front`, which does not ask for more.
    obtain ⟨rest, rfl⟩ := isFront
    rw [List.take_append_of_le_length longer] at least
    have settled : scan (front.take header.length ++ front.drop header.length) = _ :=
      scan_append (by simp [least]) _
    rw [List.take_append_drop, h, least] at settled
    cases settled
  · have split : front ++ (bytes.take header.length).drop front.length =
        bytes.take header.length := by
      obtain ⟨rest, rfl⟩ := isFront
      rw [List.take_append, List.take_of_length_le (by omega), List.drop_left' rfl]
    apply Nat.le_of_not_lt
    intro beyond
    have still := scan_short_append h ((bytes.take header.length).drop front.length)
      (by rw [split, List.length_take]; omega)
    rw [split, least] at still
    cases still

/-- Sixteen bytes show all that a scan can see. -/
theorem scan_take (bytes : List UInt8) : scan (bytes.take maxLength) = scan bytes := by
  by_cases settled : ∀ needed part, scan (bytes.take maxLength) ≠ .short needed part
  · have more := scan_append settled (bytes.drop maxLength)
    rw [List.take_append_drop] at more
    exact more.symm
  · simp only [ne_eq, Classical.not_forall, Classical.not_not] at settled
    obtain ⟨needed, part, short⟩ := settled
    have := scan_short short
    rw [List.length_take] at this
    rw [List.take_of_length_le (by omega)]

end TagStream.Header
