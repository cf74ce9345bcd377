import Mathlib.Data.List.Basic
import TagStream.Value.Utf8

/-!
Text payloads are UTF-8, and all UTF-8 is text (`Value.readText_eq`). The standard encoding of a
`Char`, which is a Unicode scalar value, is that of the library (`String.utf8EncodeChar`); it comes
to `Utf8.encode`, and a sequence is accepted if it is the encoding of the code point it spells. The
last part looks at the bytes of a payload by their place in it, as a machine does, and finds that it
never looks past the end.
-/

namespace TagStream

namespace Utf8

/-! ### Bytes -/

/-- What holds of the bytes one after another holds of all. -/
theorem forall_byte {P : UInt8 → Prop} (each : ∀ n : Fin 256, P (UInt8.ofNat n)) (b : UInt8) :
    P b := by
  have this := each ⟨b.toNat, b.toNat_lt⟩
  rwa [UInt8.ofNat_toNat] at this

/-- The lead bytes by their values. -/
theorem ofByte?_eq : ∀ b : UInt8, Lead.ofByte? b =
    if b.toNat < 0x80 then some ⟨0, b.toNat, 0⟩
    else if b.toNat < 0xC0 then none
    else if b.toNat < 0xE0 then some ⟨1, b.toNat - 0xC0, 0x80⟩
    else if b.toNat < 0xF0 then some ⟨2, b.toNat - 0xE0, 0x800⟩
    else if b.toNat < 0xF8 then some ⟨3, b.toNat - 0xF0, 0x10000⟩
    else none :=
  forall_byte (by decide +kernel)

/-- The continuation bytes by their values. -/
theorem isContinuation_iff : ∀ b : UInt8,
    isContinuation b = true ↔ 0x80 ≤ b.toNat ∧ b.toNat < 0xC0 :=
  forall_byte (by decide +kernel)

theorem toNat_continuationByte (n : Nat) : (continuationByte n).toNat = 0x80 + n % 64 := by
  rw [continuationByte, UInt8.toNat_ofNat']
  omega

/-- A byte is known by its value. -/
theorem eq_ofNat {b : UInt8} {n : Nat} (same : b.toNat = n) : b = UInt8.ofNat n := by
  rw [← same, UInt8.ofNat_toNat]

theorem eq_continuationByte {b : UInt8} {n : Nat} (same : b.toNat = 0x80 + n % 64) :
    b = continuationByte n :=
  eq_ofNat same

/-! ### Forms -/

section Forms

variable {n : Nat}

theorem encode_one (few : n < 0x80) : encode n = [UInt8.ofNat n] :=
  if_pos few

theorem encode_two (least : 0x80 ≤ n) (few : n < 0x800) :
    encode n = [UInt8.ofNat (0xC0 + n / 64), continuationByte n] := by
  rw [encode, if_neg (Nat.not_lt.mpr least), if_pos few]

theorem encode_three (least : 0x800 ≤ n) (few : n < 0x10000) : encode n =
    [UInt8.ofNat (0xE0 + n / 4096), continuationByte (n / 64), continuationByte n] := by
  have one : ¬n < 0x80 := by omega
  rw [encode, if_neg one, if_neg (Nat.not_lt.mpr least), if_pos few]

theorem encode_four (least : 0x10000 ≤ n) : encode n =
    [UInt8.ofNat (0xF0 + n / 262144), continuationByte (n / 4096), continuationByte (n / 64),
      continuationByte n] := by
  have one : ¬n < 0x80 := by omega
  have two : ¬n < 0x800 := by omega
  rw [encode, if_neg one, if_neg two, if_neg (Nat.not_lt.mpr least)]

end Forms

/-! ### Characters -/

theorem isScalar_iff (n : Nat) : isScalar n = true ↔ n.isValidChar := by
  simp only [isScalar, Nat.isValidChar, Bool.and_eq_true, Bool.not_eq_true', decide_eq_true_eq,
    Bool.and_eq_false_iff, decide_eq_false_iff_not]
  omega

theorem exists_char {n : Nat} (scalar : isScalar n = true) : ∃ c : Char, c.toNat = n := by
  have valid := (isScalar_iff n).mp scalar
  exact ⟨Char.ofNatAux n valid, rfl⟩

/-- What is written is the standard encoding. -/
theorem encode_toNat (c : Char) : encode c.toNat = String.utf8EncodeChar c := by
  have valid : c.val.toNat.isValidChar := c.valid
  change encode c.val.toNat = _
  unfold Nat.isValidChar at valid
  unfold String.utf8EncodeChar
  dsimp only
  generalize c.val.toNat = n at valid ⊢
  split
  · exact encode_one (by omega)
  · split
    · rw [encode_two (by omega) (by omega), show n / 64 % 32 + 192 = 0xC0 + n / 64 by omega,
        Nat.add_comm (n % 64)]
      rfl
    · split
      · rw [encode_three (by omega) (by omega),
          show n / 4096 % 16 + 224 = 0xE0 + n / 4096 by omega, Nat.add_comm (n % 64),
          Nat.add_comm (n / 64 % 64)]
        rfl
      · rw [encode_four (by omega), show n / 262144 % 8 + 240 = 0xF0 + n / 262144 by omega,
          Nat.add_comm (n % 64), Nat.add_comm (n / 64 % 64), Nat.add_comm (n / 4096 % 64)]
        rfl

/-! ### Sequences -/

theorem Lead.accepts_iff (lead : Lead) (rest : List UInt8) : lead.accepts rest = true ↔
    rest.length = lead.continuation ∧ (∀ b ∈ rest, isContinuation b = true) ∧
      lead.least ≤ lead.codePoint rest ∧ isScalar (lead.codePoint rest) = true := by
  simp only [Lead.accepts, Bool.and_eq_true, beq_iff_eq, List.all_eq_true, decide_eq_true_eq,
    and_assoc]

/-- With all continuation bytes there, it is left to see that each is one and that the code point
is not refused. -/
theorem Lead.accepts_of_length {lead : Lead} {rest : List UInt8}
    (length : rest.length = lead.continuation) : lead.accepts rest =
      (rest.all isContinuation &&
        !(lead.codePoint rest < lead.least || !isScalar (lead.codePoint rest))) := by
  rw [Lead.accepts, length, beq_self_eq_true, Bool.true_and, Bool.and_assoc, Bool.not_or,
    Bool.not_not, ← decide_not, decide_eq_decide.mpr Nat.not_lt]

/-- A sequence that is accepted is the shortest form of the code point that it spells. -/
theorem encode_codePoint {first : UInt8} {rest : List UInt8} {lead : Lead}
    (led : Lead.ofByte? first = some lead) (accepted : lead.accepts rest = true) :
    encode (lead.codePoint rest) = first :: rest := by
  obtain ⟨length, continues, shortest, -⟩ := (lead.accepts_iff rest).mp accepted
  simp only [isContinuation_iff] at continues
  rw [ofByte?_eq] at led
  -- The form fits the code point: its least one is checked, and its lead and continuation bytes
  -- have no bits for more.
  split at led
  · next ascii =>
    cases led
    obtain rfl := List.length_eq_zero_iff.mp length
    exact (encode_one ascii).trans (by rw [UInt8.ofNat_toNat])
  split at led
  · cases led
  split at led
  · cases led
    obtain ⟨b, rfl⟩ := List.length_eq_one_iff.mp length
    have one := continues b (by simp)
    simp only [Lead.codePoint, List.foldl_cons, List.foldl_nil] at shortest ⊢
    rw [encode_two shortest (by omega), ← eq_ofNat (b := first) (by omega),
      ← eq_continuationByte (b := b) (by omega)]
  split at led
  · cases led
    obtain ⟨b, c, rfl⟩ := List.length_eq_two.mp length
    have one := continues b (by simp)
    have two := continues c (by simp)
    simp only [Lead.codePoint, List.foldl_cons, List.foldl_nil] at shortest ⊢
    rw [encode_three shortest (by omega), ← eq_ofNat (b := first) (by omega),
      ← eq_continuationByte (b := b) (by omega), ← eq_continuationByte (b := c) (by omega)]
  split at led
  · cases led
    obtain ⟨b, c, d, rfl⟩ := List.length_eq_three.mp length
    have one := continues b (by simp)
    have two := continues c (by simp)
    have three := continues d (by simp)
    simp only [Lead.codePoint, List.foldl_cons, List.foldl_nil] at shortest ⊢
    rw [encode_four shortest, ← eq_ofNat (b := first) (by omega),
      ← eq_continuationByte (b := b) (by omega), ← eq_continuationByte (b := c) (by omega),
      ← eq_continuationByte (b := d) (by omega)]
  · cases led

theorem isContinuation_continuationByte (n : Nat) : isContinuation (continuationByte n) = true := by
  rw [isContinuation_iff, toNat_continuationByte]
  omega

/-- What a scalar value is written as is accepted. -/
theorem accepts_encode {n : Nat} (scalar : isScalar n = true) :
    ∃ first rest lead, encode n = first :: rest ∧ Lead.ofByte? first = some lead ∧
      lead.accepts rest = true := by
  have small : n < 0x110000 := by
    have valid := (isScalar_iff n).mp scalar
    unfold Nat.isValidChar at valid
    omega
  have accepts {lead : Lead} {rest : List UInt8} (length : rest.length = lead.continuation)
      (continues : ∀ b ∈ rest, isContinuation b = true) (least : lead.least ≤ n)
      (spells : lead.codePoint rest = n) : lead.accepts rest = true :=
    (lead.accepts_iff rest).mpr ⟨length, continues, spells ▸ least, spells ▸ scalar⟩
  have continues := isContinuation_continuationByte
  by_cases one : n < 0x80
  · refine ⟨_, _, ⟨0, n, 0⟩, encode_one one, ?_, accepts rfl (by simp) (Nat.zero_le n) rfl⟩
    rw [ofByte?_eq, UInt8.toNat_ofNat', Nat.mod_eq_of_lt (by omega), if_pos one]
  by_cases two : n < 0x800
  · refine ⟨_, _, ⟨1, n / 64, 0x80⟩, encode_two (by omega) two, ?_,
      accepts rfl (by simp [continues]) (Nat.le_of_not_lt one) ?_⟩
    · exact (by decide : ∀ k : Fin 32, Lead.ofByte? (UInt8.ofNat (0xC0 + k)) =
        some ⟨1, k, 0x80⟩) ⟨n / 64, by omega⟩
    · simp only [Lead.codePoint, List.foldl_cons, List.foldl_nil, toNat_continuationByte]
      omega
  by_cases three : n < 0x10000
  · refine ⟨_, _, ⟨2, n / 4096, 0x800⟩, encode_three (by omega) three, ?_,
      accepts rfl (by simp [continues]) (Nat.le_of_not_lt two) ?_⟩
    · exact (by decide : ∀ k : Fin 16, Lead.ofByte? (UInt8.ofNat (0xE0 + k)) =
        some ⟨2, k, 0x800⟩) ⟨n / 4096, by omega⟩
    · simp only [Lead.codePoint, List.foldl_cons, List.foldl_nil, toNat_continuationByte]
      omega
  · refine ⟨_, _, ⟨3, n / 262144, 0x10000⟩, encode_four (by omega), ?_,
      accepts rfl (by simp [continues]) (Nat.le_of_not_lt three) ?_⟩
    · exact (by decide : ∀ k : Fin 8, Lead.ofByte? (UInt8.ofNat (0xF0 + k)) =
        some ⟨3, k, 0x10000⟩) ⟨n / 262144, by omega⟩
    · simp only [Lead.codePoint, List.foldl_cons, List.foldl_nil, toNat_continuationByte]
      omega

/-- A sequence is accepted exactly if it is the encoding of a character. -/
theorem accepts_iff {first : UInt8} {rest : List UInt8} :
    (∃ lead, Lead.ofByte? first = some lead ∧ lead.accepts rest = true) ↔
      ∃ c : Char, String.utf8EncodeChar c = first :: rest := by
  constructor
  · rintro ⟨lead, led, accepted⟩
    obtain ⟨-, -, -, scalar⟩ := (lead.accepts_iff rest).mp accepted
    obtain ⟨c, same⟩ := exists_char scalar
    refine ⟨c, ?_⟩
    rw [← encode_toNat, same]
    exact encode_codePoint led accepted
  · rintro ⟨c, written⟩
    obtain ⟨first', rest', lead, encoded, led, accepted⟩ :=
      accepts_encode ((isScalar_iff c.toNat).mpr c.valid)
    rw [encode_toNat, written] at encoded
    cases encoded
    exact ⟨lead, led, accepted⟩

/-! ### Texts -/

/-- A byte string is valid exactly if it is the encodings of some characters, one after another. -/
theorem isValid_iff (bytes : List UInt8) :
    isValid bytes = true ↔ ∃ text : List Char, text.flatMap String.utf8EncodeChar = bytes := by
  constructor
  · intro valid
    fun_induction isValid bytes with
    | case1 => exact ⟨[], rfl⟩
    | case2 => cases valid
    | case3 first rest lead led ih =>
      obtain ⟨accepted, later⟩ := Bool.and_eq_true_iff.mp valid
      obtain ⟨c, written⟩ := accepts_iff.mp ⟨lead, led, accepted⟩
      obtain ⟨text, written'⟩ := ih later
      refine ⟨c :: text, ?_⟩
      rw [List.flatMap_cons, written, written', List.cons_append, List.take_append_drop]
  · rintro ⟨text, rfl⟩
    induction text with
    | nil => rw [List.flatMap_nil, isValid]
    | cons c text ih =>
      obtain ⟨first, rest, written⟩ : ∃ first rest, String.utf8EncodeChar c = first :: rest :=
        List.exists_cons_of_ne_nil String.utf8EncodeChar_ne_nil
      obtain ⟨lead, led, accepted⟩ := accepts_iff.mpr ⟨c, written⟩
      obtain ⟨length, -⟩ := (lead.accepts_iff rest).mp accepted
      rw [List.flatMap_cons, written, List.cons_append, isValid, led]
      simp only [← length, List.take_left, List.drop_left, accepted, ih, Bool.and_self]

/-- A byte string is the encoding of one text at most. -/
theorem text_unique {text text' : List Char}
    (same : text.flatMap String.utf8EncodeChar = text'.flatMap String.utf8EncodeChar) :
    text = text' := by
  have encoded : text.utf8Encode = text'.utf8Encode := congrArg List.toByteArray same
  have decoded := congrArg ByteArray.utf8Decode? encoded
  rw [List.utf8Decode?_utf8Encode, List.utf8Decode?_utf8Encode] at decoded
  simpa using decoded

/-! ### By place -/

/-- The code point that `count` bytes complete which stand from `start` on, if all of them continue
a sequence. There is no answer if a byte is looked at that is not there. -/
def codePointAt (bytes : List UInt8) (start codePoint : Nat) : (count : Nat) → Option (Option Nat)
  | 0 => some (some codePoint)
  | count + 1 => do
    let b ← bytes[start]?
    if isContinuation b then
      codePointAt bytes (start + 1) (64 * codePoint + b.toNat % 64) count
    else return none

/-- Whether the bytes from `place` on are valid. -/
def isValidAt (bytes : List UInt8) (place : Nat) : Option Bool :=
  if place < bytes.length then do
    let first ← bytes[place]?
    match Lead.ofByte? first with
    | none => return false
    | some lead =>
      if bytes.length - place < lead.continuation + 1 then return false
      else
        match ← codePointAt bytes (place + 1) lead.bits lead.continuation with
        | none => return false
        | some codePoint =>
          if codePoint < lead.least || !isScalar codePoint then return false
          else isValidAt bytes (place + 1 + lead.continuation)
  else return true
termination_by bytes.length - place

/-- Reads a text payload into a variable that has a value already: what is wrong with the payload,
if anything is, and the value afterwards. -/
def readInto (bytes value : List UInt8) : Option (Option Malformed × List UInt8) := do
  if ← isValidAt bytes 0 then return (none, bytes) else return (some .notUtf8, value)

theorem codePointAt_eq {bytes : List UInt8} {start codePoint count : Nat}
    (inside : start + count ≤ bytes.length) :
    codePointAt bytes start codePoint count =
      some (if ((bytes.drop start).take count).all isContinuation then
        some (((bytes.drop start).take count).foldl (fun c b => 64 * c + b.toNat % 64) codePoint)
      else none) := by
  induction count generalizing start codePoint with
  | zero => simp [codePointAt]
  | succ count ih =>
    have here : start < bytes.length := by omega
    rw [codePointAt, List.getElem?_eq_getElem here, List.drop_eq_getElem_cons here,
      List.take_succ_cons, List.all_cons, List.foldl_cons, Option.bind_eq_bind, Option.bind_some]
    cases isContinuation bytes[start] with
    | true =>
      rw [if_pos rfl, ih (by omega), Bool.true_and]
    | false => rfl

theorem codePointAt_lead {bytes : List UInt8} {start : Nat} {lead : Lead}
    (inside : start + lead.continuation ≤ bytes.length) :
    codePointAt bytes start lead.bits lead.continuation =
      some (if ((bytes.drop start).take lead.continuation).all isContinuation then
        some (lead.codePoint ((bytes.drop start).take lead.continuation))
      else none) :=
  codePointAt_eq inside

/-- No look goes past the end, and what is seen is what the bytes are. -/
theorem isValidAt_eq {bytes : List UInt8} {place : Nat} (inside : place ≤ bytes.length) :
    isValidAt bytes place = some (isValid (bytes.drop place)) := by
  fun_induction isValidAt bytes place with
  | case1 place here ih =>
    rw [List.drop_eq_getElem_cons here, isValid, List.getElem?_eq_getElem here,
      Option.bind_eq_bind, Option.bind_some]
    cases led : Lead.ofByte? bytes[place] with
    | none => rfl
    | some lead =>
      have length : ((bytes.drop (place + 1)).take lead.continuation).length =
          min lead.continuation (bytes.length - (place + 1)) := by
        rw [List.length_take, List.length_drop]
      dsimp only
      by_cases short : bytes.length - place < lead.continuation + 1
      · have truncated : ((bytes.drop (place + 1)).take lead.continuation).length ≠
            lead.continuation := by omega
        rw [if_pos short, Lead.accepts, beq_false_of_ne truncated]
        rfl
      · have whole : ((bytes.drop (place + 1)).take lead.continuation).length =
            lead.continuation := by omega
        rw [if_neg short, codePointAt_lead (by omega), Lead.accepts_of_length whole, List.drop_drop,
          ih lead short (by omega), Option.bind_eq_bind, Option.bind_some]
        generalize (bytes.drop (place + 1)).take lead.continuation = rest
        cases rest.all isContinuation with
        | false => rfl
        | true =>
          rw [if_pos rfl]
          dsimp only
          cases decide (lead.codePoint rest < lead.least) || !isScalar (lead.codePoint rest) <;> rfl
  | case2 place past =>
    rw [List.drop_eq_nil_of_le (Nat.le_of_not_lt past), isValid]
    rfl

end Utf8

/-- **A text payload is read exactly if it is UTF-8**: the encodings of some characters one after
another, and there is only one way to take it so. Then its bytes are what is read. Otherwise the
variable that it was to be read into keeps its value. In no case is a byte looked at that lies past
the end. -/
theorem Value.reads_utf8 (bytes value : List UInt8) :
    (readText bytes = .ok bytes ↔
      ∃! text : List Char, text.flatMap String.utf8EncodeChar = bytes) ∧
    (readText bytes = .error .notUtf8 ↔
      ¬∃ text : List Char, text.flatMap String.utf8EncodeChar = bytes) ∧
    Utf8.readInto bytes value =
      match readText bytes with
      | .ok read => some (none, read)
      | .error why => some (some why, value) := by
  have looked : Utf8.readInto bytes value =
      if Utf8.isValid bytes then some (none, bytes) else some (some .notUtf8, value) := by
    rw [Utf8.readInto, Utf8.isValidAt_eq (Nat.zero_le _)]
    rfl
  rw [looked, readText]
  by_cases valid : Utf8.isValid bytes = true
  · obtain ⟨text, written⟩ := (Utf8.isValid_iff bytes).mp valid
    rw [if_pos valid]
    refine ⟨iff_of_true rfl ⟨text, written, fun other written' => ?_⟩,
      iff_of_false (by intro h; cases h) (fun unwritten => unwritten ⟨text, written⟩), if_pos valid⟩
    exact Utf8.text_unique (written'.trans written.symm)
  · rw [if_neg valid]
    have unwritten : ¬∃ text : List Char, text.flatMap String.utf8EncodeChar = bytes :=
      fun written => valid ((Utf8.isValid_iff bytes).mpr written)
    exact ⟨iff_of_false (by intro h; cases h) (fun written => unwritten written.exists),
      iff_of_true rfl unwritten, if_neg valid⟩

/-- A byte of zeros is a character; spelled in two bytes, it is not. -/
example : Value.readText [0x41, 0x00, 0xE2, 0x82, 0xAC] = .ok [0x41, 0x00, 0xE2, 0x82, 0xAC] ∧
    Value.readText [0xC0, 0x80] = .error .notUtf8 := by
  decide +kernel

end TagStream
