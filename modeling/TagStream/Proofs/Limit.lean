import TagStream.Proofs.Draining
import TagStream.Proofs.Promise
import TagStream.Proofs.Suspension

/-!
The limit is exact. Of a tag whose bytes are promised, the first step that does not pause says that
it is too large if and only if it is: its header is longer than the limit, or it is a leaf that does
not fit together with its header (`Schema.TooLarge`). A tag that is too large is refused before a
byte of its payload has been read (`Promise.EndsAt`), and nothing of it is consumed. Whatever a
source does, a header that has been read fits in the window, so that the room behind it is never
less than none (`Window.Views.fits`), and a field whose bytes are all there can be read
(`Header.scan_readable`).
-/

namespace TagStream

/-- The header that two integers make, one after the other. -/
def Header.ofVints (id size : Vint) : Header :=
  ⟨.ofVint id, .ofVint size, id.width + size.width⟩

/-- The tag does not fit in `limit` bytes, as far as it must be resident: the header, and of a leaf
the payload, too. -/
def Schema.TooLarge (schema : Schema) (limit : Nat) (header : Header) : Prop :=
  limit < header.length ∨ schema.kindOf header.id ≠ .master ∧
    ∃ length, header.size = .known length ∧ limit < header.length + length

/-! ### What a tag demands -/

section Demands

variable {schema : Schema} {limit : Nat} {bytes front : List UInt8} {header : Header}

/-- A tag demands its header, and then no more than its payload, unless that is too large. -/
theorem Schema.cases_of_await (whole : Header.scan bytes = .complete header)
    (isFront : front <+: bytes) {needed : Nat} {part : Part}
    (demanded : schema.demandOf limit front = .await needed part) :
    needed ≤ header.length ∨ header.length ≤ front.length ∧ schema.kindOf header.id ≠ .master ∧
      ∃ length, header.size = .known length ∧ length ≤ limit - header.length ∧
        needed = header.length + length := by
  rw [demandOf_eq_iff] at demanded
  cases demanded with
  | short scanned => exact .inl (Header.le_length_of_short scanned isFront whole)
  | unread scanned leaf size fits _ =>
    obtain rfl := Header.eq_of_scan_front whole isFront scanned
    exact .inr ⟨(Header.scan_complete scanned).1, leaf, _, size, fits, rfl⟩

/-- A tag that is too large demands none of its payload. -/
theorem Promise.endsAt_of_tooLarge (whole : Header.scan bytes = .complete header)
    (large : schema.TooLarge limit header) : EndsAt schema limit bytes header.length := by
  refine ⟨(Header.scan_complete whole).1, ?_⟩
  intro front needed part isFront demanded
  rcases Schema.cases_of_await whole isFront demanded
    with least | ⟨-, leaf, length, size, fits, rfl⟩
  · exact least
  · rcases large with long | ⟨-, length', size', beyond⟩
    · omega
    · obtain rfl : length = length' := Size.known.inj (size.symm.trans size')
      omega

/-- A tag demands no byte behind it. -/
theorem Promise.endsAt_of_payload (whole : Header.scan bytes = .complete header)
    (there : header.length + schema.payloadLength header.id header.size ≤ bytes.length) :
    EndsAt schema limit bytes (header.length + schema.payloadLength header.id header.size) := by
  refine ⟨there, ?_⟩
  intro front needed part isFront demanded
  rcases Schema.cases_of_await whole isFront demanded
    with least | ⟨-, leaf, length, size, fits, rfl⟩
  · exact Nat.le_add_right_of_le least
  · rw [Schema.payloadLength, if_neg leaf, size]
    exact Nat.le_refl _

end Demands

/-! ### What a step says -/

/-- The tag has been found to be too large, or more has been demanded than the limit. -/
def Oversized : Except Lack Verdict → Prop
  | .ok (.refuse fault) => fault.faultClass = .tagTooLarge
  | .ok (.enter _) | .ok (.read ..) => False
  | .error lack => lack.why = .exceedsLimit

/-- A step says that a tag is too large where it has been found to be. -/
theorem Reader.tooLarge_iff_of_act {schema : Schema} {q : Reader} {settled : Except Lack Verdict} :
    (∃ fault r', act q schema settled = .ok (.fault fault, r') ∧ fault.faultClass = .tagTooLarge) ↔
      Oversized settled := by
  constructor
  · rintro ⟨fault, r', acted, large⟩
    have known := acted_of_act acted
    generalize given : (Report.fault fault, r') = result at known
    cases known with
    | enter | leaf =>
      have isTag := congrArg (fun shown => shown.1.isTag) given
      rw [isTag_place] at isTag
      cases isTag
    | malformed =>
      cases given
      cases large
    | refuse =>
      cases given
      exact large
    | fallShort lack =>
      unfold fallShort at given
      split at given
      · cases given
      · unfold closeAtEnd at given
        split at given <;> cases given
      all_goals
        cases given
        first
        | rfl
        | cases large
  · intro oversized
    cases settled with
    | ok verdict =>
      cases verdict with
      | enter | read => exact oversized.elim
      | refuse fault => exact ⟨fault, _, rfl, oversized⟩
    | error lack =>
      obtain ⟨why, part⟩ := lack
      obtain rfl : why = .exceedsLimit := oversized
      exact ⟨.windowExceeded part, _, rfl, rfl⟩

/-- What is settled by a front that fits in the limit is too large if and only if the tag is. -/
theorem Schema.oversized_iff_of_settled {schema : Schema} {limit : Nat} {bytes front : List UInt8}
    {header : Header} {verdict : Verdict} (whole : Header.scan bytes = .complete header)
    (isFront : front <+: bytes) (within : front.length ≤ limit)
    (settles : schema.demandOf limit front = .settled verdict) :
    Oversized (.ok verdict) ↔ schema.TooLarge limit header := by
  -- A header that has been read fits in the limit.
  have fits {header' : Header} (scanned : Header.scan front = .complete header') :
      header' = header ∧ header.length ≤ limit := by
    obtain rfl := Header.eq_of_scan_front whole isFront scanned
    exact ⟨rfl, Nat.le_trans (Header.scan_complete scanned).1 within⟩
  rw [demandOf_eq_iff] at settles
  cases settles with
  | flawed scanned =>
    obtain ⟨rest, rfl⟩ := isFront
    rw [Header.scan_append (by simp [scanned]), scanned] at whole
    cases whole
  | enter scanned master =>
    obtain ⟨rfl, short⟩ := fits scanned
    refine iff_of_false id ?_
    rintro (long | ⟨leaf, -⟩)
    · exact Nat.not_lt.mpr short long
    · exact leaf master
  | unsized scanned leaf size =>
    obtain ⟨rfl, short⟩ := fits scanned
    refine iff_of_false (by intro h; cases h) ?_
    rintro (long | ⟨-, length, known, -⟩)
    · exact Nat.not_lt.mpr short long
    · rw [size] at known
      cases known
  | large scanned leaf size beyond =>
    obtain ⟨rfl, short⟩ := fits scanned
    exact iff_of_true rfl (.inr ⟨leaf, _, size, by omega⟩)
  | read scanned leaf size room enough =>
    obtain ⟨rfl, short⟩ := fits scanned
    refine iff_of_false id ?_
    rintro (long | ⟨-, length, known, beyond⟩)
    · exact Nat.not_lt.mpr short long
    · rw [size] at known
      cases known
      omega

/-- What has been gathered is too large if and only if the tag is. -/
theorem Promise.Stands.oversized_iff {σ : Type} [ByteSource σ] {p : Promise σ} {schema : Schema}
    {limit bound : Nat} {bytes : List UInt8} {header : Header} {w : Window} {source : σ}
    {settled : Except Lack Verdict} (whole : Header.scan bytes = .complete header)
    (stands : p.Stands limit bytes bound w source)
    (demanded : ∀ verdict, settled = .ok verdict → w.demand schema = .settled verdict)
    (lacks : ∀ lack, settled = .error lack → lack.why = .exceedsLimit ∧ ∃ needed, limit < needed ∧
      schema.demandOf limit w.resident = .await needed lack.part) :
    Oversized settled ↔ schema.TooLarge limit header := by
  obtain ⟨left, split, -⟩ := stands.owes
  have isFront : w.resident <+: bytes := ⟨left, split⟩
  have within : w.resident.length ≤ limit := by
    rw [Window.length_resident]
    exact stands.within
  cases settled with
  | error lack =>
    obtain ⟨exceeds, needed, beyond, awaited⟩ := lacks lack rfl
    refine iff_of_true exceeds (.inl ?_)
    rcases Schema.cases_of_await whole isFront awaited with least | ⟨there, -, length, -, fits, rfl⟩
    · exact Nat.lt_of_lt_of_le beyond least
    · omega
  | ok verdict =>
    have settles := demanded verdict rfl
    rw [Window.demand_eq_demandOf, stands.capped] at settles
    exact Schema.oversized_iff_of_settled whole isFront within settles

/-! ### Steps that pause -/

namespace Reader

variable {schema : Schema} {r r₁ r' : Reader} {drawn drawn' : List UInt8}

theorem Pauses.refl (inside : r.window.head ≤ r.window.cells.size) : Pauses r r [] :=
  ⟨.refl inside, rfl⟩

theorem Pauses.trans (first : Pauses r r₁ drawn) (second : Pauses r₁ r' drawn') :
    Pauses r r' (drawn ++ drawn') where
  window := first.window.trans second.window
  rest := by
    rw [second.rest, first.rest]

/-- A failure after a pause is one of the reader as it was before the pause. -/
theorem Pauses.fails {fault : Fault} (first : Pauses r r₁ drawn)
    (second : Fails schema r₁ r' drawn' fault) : Fails schema r r' (drawn ++ drawn') fault where
  rest := second.rest.trans (by rw [first.rest])
  stays other := first.window.trans (second.stays other)
  passes same := by
    obtain ⟨leaf, isMalformed, split, moved⟩ := second.passes same
    refine ⟨leaf, isMalformed, ?_, ?_⟩
    · rw [← List.append_assoc, ← first.window.resident]
      exact split
    · have still : r₁.offset = r.offset := first.window.offset
      rw [moved, still]

variable {σ : Type} [ByteSource σ]

/-- What comes of the first step that does not pause. The source may change before each step. -/
inductive FirstMove (schema : Schema) (change : σ → σ → Prop) :
    Reader → σ → Except Defect (Report × Reader × σ) → Prop where
  | move {r : Reader} {source source₁ : σ} {result : Except Defect (Report × Reader × σ)} :
      change source source₁ → r.next schema source₁ = result →
      (∀ given, result = .ok given → given.1.isPause = false) →
      FirstMove schema change r source result
  | pause {r r₁ : Reader} {source source₁ source₂ : σ} {report : Report}
      {result : Except Defect (Report × Reader × σ)} :
      change source source₁ → r.next schema source₁ = .ok (report, r₁, source₂) →
      report.isPause = true → FirstMove schema change r₁ source₂ result →
      FirstMove schema change r source result

end Reader

open Promise in
/-- After the pauses, the reader has more bytes, and is as it was. -/
theorem Reader.FirstMove.exists_last {σ : Type} [ByteSource σ] {schema : Schema} {p : Promise σ}
    {change : σ → σ → Prop} {limit bound : Nat} {bytes : List UInt8} {r : Reader} {source : σ}
    {result : Except Defect (Report × Reader × σ)}
    (kept : ∀ source source', change source source' → p.Keeps source source')
    (ends : EndsAt schema limit bytes bound) (running : r.stopped = none) (idle : r.owed? = none)
    (stands : p.Stands limit bytes bound r.window source)
    (first : FirstMove schema change r source result) :
    ∃ r₁ source₁ drawn, Pauses r r₁ drawn ∧ r₁.stopped = none ∧ r₁.owed? = none ∧
      p.Stands limit bytes bound r₁.window source₁ ∧ r₁.next schema source₁ = result ∧
      ∀ given, result = .ok given → given.1.isPause = false := by
  induction first with
  | @move r source source₁ result changed stepped moves =>
    exact ⟨r, source₁, [], .refl stands.inside, running, idle, stands.keeps (kept _ _ changed),
      stepped, moves⟩
  | @pause r r₁ source source₁ source₂ report result changed stepped paused later ih =>
    cases stepped_of_next stepped with
    | repeated | owed => cases paused
    | @acted settled window _ given _ _ gathered acted =>
      obtain ⟨drawn, moved, stands', -⟩ :=
        (stands.keeps (kept _ _ changed)).gather ends gathered
      obtain ⟨report, q⟩ := given
      obtain rfl : q = { r with window } := eq_of_acted_of_pause (acted_of_act acted) paused
      obtain ⟨r₁, source₃, drawn', pauses, running', idle', stands', last⟩ :=
        ih running (owed?_eq_none_of_offset idle moved.offset) stands'
      exact ⟨r₁, source₃, _, .trans ⟨moved, rfl⟩ pauses, running', idle', stands', last⟩

/-- The result is that a tag has been found to be too large. -/
def SaysTooLarge {σ : Type} (result : Except Defect (Report × Reader × σ)) : Prop :=
  ∃ fault r' source', result = .ok (.fault fault, r', source') ∧ fault.faultClass = .tagTooLarge

theorem saysTooLarge_map_iff {σ : Type} {source : σ} {acted : Except Defect (Report × Reader)} :
    SaysTooLarge (acted.map fun given => (given.1, given.2, source)) ↔
      ∃ fault r', acted = .ok (.fault fault, r') ∧ fault.faultClass = .tagTooLarge := by
  constructor
  · rintro ⟨fault, r', source', told, large⟩
    cases acted with
    | error defect => cases told
    | ok result =>
      obtain ⟨report, q⟩ := result
      cases told
      exact ⟨fault, q, rfl, large⟩
  · rintro ⟨fault, r', rfl, large⟩
    exact ⟨fault, r', source, rfl, large⟩

section Last

variable {σ : Type} [ByteSource σ] {schema : Schema} {p : Promise σ} {limit bound : Nat}
  {bytes : List UInt8} {header : Header} {r r' : Reader} {source source' : σ}

/-- A step that neither pauses nor is refused storage has settled the tag, unless more is demanded
than the limit. -/
theorem Reader.exceeds_of_gather {settled : Except Lack Verdict} {window : Window}
    (ends : Promise.EndsAt schema limit bytes bound) (running : r.stopped = none)
    (idle : r.owed? = none) (stands : p.Stands limit bytes bound r.window source)
    (gathered : r.window.gather schema source = (settled, window, source'))
    (moves : ∀ given, r.next schema source = .ok given → given.1.isPause = false)
    (granted : ∀ given, r.next schema source = .ok given →
      given.1.outcome ≠ .fault .allocationFailed) :
    ∃ drawn, Window.Drawn r.window window drawn ∧ p.Stands limit bytes bound window source' ∧
      ∀ lack, settled = .error lack → lack.why = .exceedsLimit ∧ ∃ needed, limit < needed ∧
        schema.demandOf limit window.resident = .await needed lack.part := by
  obtain ⟨drawn, moved, stands', lacks⟩ := stands.gather ends gathered
  rw [Reader.next_of_gather running idle gathered] at moves granted
  refine ⟨drawn, moved, stands', ?_⟩
  rintro ⟨why, part⟩ rfl
  rcases lacks _ rfl with paused | refused | exceeds
  · obtain rfl : why = .wouldBlock := paused
    cases moves _ rfl
  · obtain rfl : why = .allocationFailed := refused
    exact absurd rfl (granted _ rfl)
  · exact exceeds

/-- A step that does not pause says that the tag is too large if and only if it is. -/
theorem Reader.saysTooLarge_iff (whole : Header.scan bytes = .complete header)
    (ends : Promise.EndsAt schema limit bytes bound) (running : r.stopped = none)
    (idle : r.owed? = none) (stands : p.Stands limit bytes bound r.window source)
    (moves : ∀ given, r.next schema source = .ok given → given.1.isPause = false)
    (granted : ∀ given, r.next schema source = .ok given →
      given.1.outcome ≠ .fault .allocationFailed) :
    SaysTooLarge (r.next schema source) ↔ schema.TooLarge limit header := by
  obtain ⟨settled, window, source', gathered⟩ :
      ∃ settled window source', r.window.gather schema source = (settled, window, source') :=
    ⟨_, _, _, rfl⟩
  obtain ⟨drawn, -, stands', exceeds⟩ :=
    Reader.exceeds_of_gather ends running idle stands gathered moves granted
  rw [Reader.next_of_gather running idle gathered, saysTooLarge_map_iff,
    Reader.tooLarge_iff_of_act]
  exact stands'.oversized_iff whole (Window.settled_of_gather gathered) exceeds

/-- A step that fails draws nothing from behind what is demanded. -/
theorem Reader.fails_of_next {fault : Fault} {report : Report}
    (ends : Promise.EndsAt schema limit bytes bound) (running : r.stopped = none)
    (stands : p.Stands limit bytes bound r.window source)
    (stepped : r.next schema source = .ok (report, r', source')) (failed : report = .fault fault) :
    ∃ drawn left, r.Fails schema r' drawn fault ∧ r.window.resident ++ drawn ++ left = bytes ∧
      (r.window.resident ++ drawn).length ≤ bound ∧ p.owes source' left := by
  cases stepped_of_next stepped with
  | repeated stopped =>
    rw [running] at stopped
    cases stopped
  | owed => cases failed
  | @acted settled window _ given _ _ gathered acted =>
    obtain ⟨drawn, moved, stands', -⟩ := stands.gather ends gathered
    have atomic := atomic_of_acted moved (acted_of_act acted) (Window.settled_of_gather gathered)
    obtain ⟨left, split, owes⟩ := stands'.owes
    have few := stands'.few
    rw [← Window.length_resident, moved.resident] at few
    rw [moved.resident] at split
    exact ⟨drawn, left, atomic.fails fault failed, split, few, owes⟩

end Last

/-! ### Windows that are looked at -/

/-- While the tag at the front of a window is gathered, its demand is looked at in these windows. -/
inductive Window.Views {σ : Type} [ByteSource σ] (schema : Schema) :
    Window → σ → Window → Prop where
  | here {w : Window} {source : σ} : Views schema w source w
  | later {w w₁ v : Window} {source source₁ : σ} {needed : Nat} {part : Part} :
      w.demand schema = .await needed part → w.ensure needed source = (none, w₁, source₁) →
      Views schema w₁ source₁ v → Views schema w source v

/-- A header that can be read is no longer than the window. -/
theorem Window.Views.fits {σ : Type} [ByteSource σ] [LawfulByteSource σ] {schema : Schema}
    {w v : Window} {source : σ} (views : Views schema w source v)
    (inside : w.head ≤ w.cells.size) (within : w.available ≤ w.maxCapacity) {header : Header}
    (scanned : Header.scan (v.front Header.maxLength) = .complete header) :
    header.length ≤ v.maxCapacity := by
  induction views with
  | @here w source =>
    have there := (Header.scan_complete scanned).1
    rw [w.length_front] at there
    exact Nat.le_trans there (Nat.le_trans (Nat.min_le_right ..) within)
  | @later w w₁ v source source₁ needed part demanded ensured views ih =>
    have lacking := w.available_lt_of_demand demanded
    have limit : w₁.maxCapacity = w.maxCapacity := by
      have same := w.maxCapacity_ensure needed source
      rwa [ensured] at same
    refine ih (inside_ensure inside lacking ensured) ?_ scanned
    rw [limit]
    exact (available_ensure_le within lacking ensured).2

/-! ### The limit -/

/-- The bytes that come next are a tag with this header, and what the reader may ask of it is
promised: the header, and the payload unless the tag is too large. -/
structure Promise.Upcoming {σ : Type} [ByteSource σ] (p : Promise σ) (schema : Schema)
    (limit : Nat) (id size : Vint) (rest : List UInt8) (w : Window) (source : σ) : Prop where
  id_fits : id.Fits
  size_fits : size.Fits
  owes : ∃ owed, w.resident ++ owed = id.bytes ++ (size.bytes ++ rest) ∧ p.owes source owed
  payload : ¬ schema.TooLarge limit (.ofVints id size) →
    schema.payloadLength (.ofVint id) (.ofVint size) ≤ rest.length

/-- All that a tag demands is promised, and nothing behind its header if it is too large. -/
theorem Promise.Upcoming.exists_stands {σ : Type} [ByteSource σ] {p : Promise σ} {schema : Schema}
    {id size : Vint} {rest : List UInt8} {w : Window} {source : σ}
    (upcoming : p.Upcoming schema w.maxCapacity id size rest w source) (awaits : w.Awaits schema) :
    ∃ bound, EndsAt schema w.maxCapacity (id.bytes ++ (size.bytes ++ rest)) bound ∧
      (schema.TooLarge w.maxCapacity (.ofVints id size) → bound = id.width + size.width) ∧
      p.Stands w.maxCapacity (id.bytes ++ (size.bytes ++ rest)) bound w source := by
  have whole : Header.scan (id.bytes ++ (size.bytes ++ rest)) = .complete (.ofVints id size) :=
    (Header.Seen.complete rest upcoming.id_fits upcoming.size_fits).scan_eq
  obtain ⟨bound, ends, tight⟩ : ∃ bound,
      EndsAt schema w.maxCapacity (id.bytes ++ (size.bytes ++ rest)) bound ∧
      (schema.TooLarge w.maxCapacity (.ofVints id size) → bound = id.width + size.width) := by
    by_cases large : schema.TooLarge w.maxCapacity (.ofVints id size)
    · exact ⟨_, endsAt_of_tooLarge whole large, fun _ => rfl⟩
    · refine ⟨_, endsAt_of_payload whole ?_, fun large' => absurd large' large⟩
      have payload := upcoming.payload large
      rw [List.length_append, List.length_append, ← Nat.add_assoc, id.length_bytes,
        size.length_bytes]
      exact Nat.add_le_add_left payload _
  refine ⟨bound, ends, tight, awaits.inside, rfl, awaits.within, ?_, upcoming.owes.imp ?_⟩
  · obtain ⟨needed, part, demanded⟩ := awaits.demands
    have lacking := w.available_lt_of_demand demanded
    obtain ⟨owed, split, -⟩ := upcoming.owes
    rw [Window.demand_eq_demandOf] at demanded
    exact Nat.le_of_lt (Nat.lt_of_lt_of_le lacking (ends.bounded ⟨owed, split⟩ demanded))
  · rintro owed ⟨split, owes⟩
    exact ⟨split, owes⟩

/-- A tag that comes next and is promised is found too large if and only if it is. Then no byte of
its payload has been drawn, and none at all consumed. In every window whose demand is looked at, a
header that can be read is no longer than the window, nor is any length out of bounds; and no field
is found unreadable. -/
theorem tooLarge_iff {σ : Type} [ByteSource σ] [LawfulByteSource σ] {schema : Schema} {c : Config}
    {r : Reader} (reached : Reader.Reached σ schema c r) (running : r.stopped = none)
    (idle : r.owed? = none) :
    (∀ (p : Promise σ) (change : σ → σ → Prop) (source : σ) (id size : Vint) (rest : List UInt8)
        (result : Except Defect (Report × Reader × σ)),
      (∀ source source', change source source' → p.Keeps source source') →
      p.Upcoming schema c.maxCapacity id size rest r.window source →
      Reader.FirstMove schema change r source result →
      (∀ given, result = .ok given → given.1.outcome ≠ .fault .allocationFailed) →
      (SaysTooLarge result ↔ schema.TooLarge c.maxCapacity (.ofVints id size)) ∧
      ∀ fault r' source', result = .ok (.fault fault, r', source') →
        fault.faultClass = .tagTooLarge →
        ∃ drawn behind, r.Fails schema r' drawn fault ∧
          id.bytes ++ size.bytes = r.window.resident ++ drawn ++ behind ∧
          p.owes source' (behind ++ rest)) ∧
    (∀ (source : σ) (v : Window) (header : Header), Window.Views schema r.window source v →
      Header.scan (v.front Header.maxLength) = .complete header →
      header.length ≤ v.maxCapacity ∧
        ∀ length, header.size = .known length → header.length + length < 2 ^ 64) ∧
    ∀ bytes : List UInt8, Header.scan bytes ≠ .flawed .idUnreadable ∧
      ∀ id, Header.scan bytes ≠ .flawed (.sizeUnreadable id) := by
  obtain ⟨taken, frugal⟩ := reached.seasoned.frugal
  have awaits := frugal.steady running
  refine ⟨?_, ?_, ?_⟩
  · intro p change source id size rest result kept upcoming first granted
    rw [← reached.founded.limit] at upcoming ⊢
    have whole : Header.scan (id.bytes ++ (size.bytes ++ rest)) = .complete (.ofVints id size) :=
      (Header.Seen.complete rest upcoming.id_fits upcoming.size_fits).scan_eq
    obtain ⟨bound, ends, tight, stands⟩ := upcoming.exists_stands awaits
    obtain ⟨r₁, source₁, drawn, pauses, running', idle', stands', rfl, moves⟩ :=
      first.exists_last kept ends running idle stands
    have decides := Reader.saysTooLarge_iff whole ends running' idle' stands' moves granted
    refine ⟨decides, ?_⟩
    intro fault r' source' stepped said
    have large := decides.mp ⟨fault, r', source', stepped, said⟩
    obtain ⟨drawn', left, fails, split, few, owes⟩ :=
      Reader.fails_of_next ends running' stands' stepped rfl
    rw [pauses.window.resident, List.append_assoc r.window.resident] at split few
    rw [← List.append_assoc id.bytes] at split
    -- All that has been drawn is from the header.
    have length : (id.bytes ++ size.bytes).length = bound := by
      rw [List.length_append, id.length_bytes, size.length_bytes, tight large]
    have isFront : r.window.resident ++ (drawn ++ drawn') <+: id.bytes ++ size.bytes :=
      List.prefix_of_prefix_length_le ⟨left, split⟩ ⟨rest, rfl⟩ (length ▸ few)
    obtain ⟨behind, header⟩ := isFront
    rw [← header, List.append_assoc _ behind] at split
    obtain rfl : left = behind ++ rest := List.append_cancel_left split
    exact ⟨_, behind, pauses.fails fails, header.symm, owes⟩
  · intro source v header views scanned
    exact ⟨views.fits awaits.inside awaits.within scanned,
      fun length size => Header.extent_lt scanned size⟩
  · exact Header.scan_readable

/-- A cluster of unknown size, and in it a timestamp of seven bytes, with a pause in its header. -/
def longTimestamp : Script where
  cues := [.data [0x1F, 0x43, 0xB6, 0x75, 0xFF, 0xE7], .silence .nothing,
    .data [0x87, 1, 2, 3, 4, 5, 6, 7]]
  last := .endOfData

/-- A window of eight bytes, though none was asked for. -/
def narrowConfig : Config where
  minWindow := 8
  maxWindow := 0

/-- The reader that has entered the cluster, and what is left of the script. -/
def narrowReader : Reader × Script :=
  (Reader.new narrowConfig).after Matroska.schema longTimestamp 1

/-- The timestamp takes nine bytes, and no more than its header is read. Of one that fits, the
header has been read and the payload is awaited. -/
theorem tooLarge_iff_longTimestamp :
    (∃ (fault : Fault) (r' : Reader) (source' : Script) (drawn behind : List UInt8),
      narrowConfig.maxCapacity = 8 ∧ Matroska.schema.TooLarge 8 (.ofVints ⟨0x67, 1⟩ ⟨7, 1⟩) ∧
      Reader.FirstMove Matroska.schema Script.delivery.Keeps narrowReader.1 narrowReader.2
        (.ok (.fault fault, r', source')) ∧ fault.faultClass = .tagTooLarge ∧
      narrowReader.1.Fails Matroska.schema r' drawn fault ∧ drawn ++ behind = [0xE7, 0x87] ∧
      source'.left = behind ++ [1, 2, 3, 4, 5, 6, 7]) ∧
    Header.scan (haltedReader.1.window.front Header.maxLength) = .complete ⟨0xE7, .known 9, 2⟩ ∧
      2 ≤ haltedReader.1.window.maxCapacity := by
  constructor
  · have reached : Reader.Reached Script Matroska.schema narrowConfig narrowReader.1 :=
      Reader.Reached.new.after _ _
    have reports : (narrowReader.1.interleave Matroska.schema narrowReader.2 [id, id]).toOption.map
        (·.1.map (·.1)) = some [.needMoreData (.sizeField 0xE7), .fault (.leafTooLarge 0xE7)] := by
      decide +kernel
    cases run : narrowReader.1.interleave Matroska.schema narrowReader.2 [id, id] with
    | error defect =>
      rw [run] at reports
      cases reports
    | ok result =>
      obtain ⟨given, r', source'⟩ := result
      rw [run] at reports
      obtain ⟨report, r₁, source₁, later, paused, run', rfl⟩ := Reader.cases_of_interleave run
      obtain ⟨report', r₂, source₂, later', failed, done, rfl⟩ := Reader.cases_of_interleave run'
      cases done
      obtain ⟨rfl, told⟩ := List.cons.inj (Option.some.inj reports)
      obtain ⟨rfl, -⟩ := List.cons.inj told
      have same (source : Script) : Script.delivery.Keeps source source :=
        fun sound => ⟨sound, rfl⟩
      have first : Reader.FirstMove Matroska.schema Script.delivery.Keeps narrowReader.1
          narrowReader.2 (.ok (.fault (.leafTooLarge 0xE7), r', source')) :=
        .pause (same _) paused rfl (.move (same _) failed (by rintro _ ⟨⟩; rfl))
      have upcoming : Script.delivery.promise.Upcoming Matroska.schema narrowConfig.maxCapacity
          ⟨0x67, 1⟩ ⟨7, 1⟩ [1, 2, 3, 4, 5, 6, 7] narrowReader.1.window narrowReader.2 := by
        refine ⟨by decide, by decide, ⟨narrowReader.2.left, by decide +kernel, ?_, rfl⟩, ?_⟩
        · exact show Script.IsPatient narrowReader.2 by decide +kernel
        · intro _
          decide +kernel
      obtain ⟨decides, refuses⟩ :=
        (tooLarge_iff reached (by decide +kernel)
          (Option.isNone_iff_eq_none.mp (by decide +kernel))).1 Script.delivery.promise _ _ _ _ _ _
          (fun _ _ keeps => keeps.promise) upcoming first (by rintro _ ⟨⟩ h; cases h)
      obtain ⟨drawn, behind, fails, header, -, left⟩ := refuses _ _ _ rfl rfl
      have empty : narrowReader.1.window.resident = [] := by decide +kernel
      rw [empty] at header
      exact ⟨_, r', source', drawn, behind, by decide, decides.mp ⟨_, _, _, rfl, rfl⟩, first, rfl,
        fails, header.symm, left⟩
  · have reached : Reader.Reached Script Matroska.schema {} haltedReader.1 :=
      Reader.Reached.new.after _ _
    have scanned : Header.scan (haltedReader.1.window.front Header.maxLength) =
        .complete ⟨0xE7, .known 9, 2⟩ := by
      decide +kernel
    refine ⟨scanned, ?_⟩
    exact ((tooLarge_iff reached (by decide +kernel)
      (Option.isNone_iff_eq_none.mp (by decide +kernel))).2.1 haltedReader.2 _ _ .here scanned).1

end TagStream
