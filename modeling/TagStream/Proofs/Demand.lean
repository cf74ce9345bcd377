import TagStream.Proofs.Header
import TagStream.Reader.Demand

/-!
What a tag demands, seen over all the bytes that will come. `Schema.demandOf` is the demand of the
tag at the front of a byte string, `Schema.Demands` lists the cases, and `Schema.settle` follows the
demands one after another, as a window does, until the tag is settled, the bytes run out or the
limit is passed. Nothing that has been demanded or settled changes when more bytes arrive, so it
does not matter how many were there to begin with (`settle_eq_of_await`), and where the limit is out
of reach the last demand alone decides (`settle_eq_outcome`).
-/

namespace TagStream

namespace Schema

/-- What the tag at the front of a byte string demands. -/
def demandOf (schema : Schema) (limit : Nat) (bytes : List UInt8) : Demand :=
  schema.demand limit bytes bytes.length

/-- The cases of a demand, in the order in which they are tried. -/
inductive Demands (schema : Schema) (limit : Nat) (bytes : List UInt8) : Demand → Prop where
  | short {needed : Nat} {part : Part} : Header.scan bytes = .short needed part →
      Demands schema limit bytes (.await needed part)
  | flawed {flaw : Header.Flaw} : Header.scan bytes = .flawed flaw →
      Demands schema limit bytes (.settled (.refuse (.header flaw)))
  | enter {header : Header} : Header.scan bytes = .complete header →
      schema.kindOf header.id = .master → Demands schema limit bytes (.settled (.enter header))
  | unsized {header : Header} : Header.scan bytes = .complete header →
      schema.kindOf header.id ≠ .master → header.size = .unknown →
      Demands schema limit bytes (.settled (.refuse (.leafWithoutSize header.id)))
  | large {header : Header} {length : Nat} : Header.scan bytes = .complete header →
      schema.kindOf header.id ≠ .master → header.size = .known length →
      limit - header.length < length →
      Demands schema limit bytes (.settled (.refuse (.leafTooLarge header.id)))
  | unread {header : Header} {length : Nat} : Header.scan bytes = .complete header →
      schema.kindOf header.id ≠ .master → header.size = .known length →
      length ≤ limit - header.length → bytes.length < header.length + length →
      Demands schema limit bytes (.await (header.length + length) (.payload header.id))
  | read {header : Header} {length : Nat} : Header.scan bytes = .complete header →
      schema.kindOf header.id ≠ .master → header.size = .known length →
      length ≤ limit - header.length → header.length + length ≤ bytes.length →
      Demands schema limit bytes (.settled (.read header length))

variable {schema : Schema} {limit : Nat} {bytes front : List UInt8}

theorem demandOf_eq_leafDemand {header : Header} (scanned : Header.scan bytes = .complete header)
    (leaf : schema.kindOf header.id ≠ .master) :
    schema.demandOf limit bytes = header.leafDemand limit bytes.length := by
  unfold demandOf demand
  rw [scanned]
  cases kind : schema.kindOf header.id <;> simp_all

/-- A demand is one of the cases. -/
theorem demands_demandOf : schema.Demands limit bytes (schema.demandOf limit bytes) := by
  cases scanned : Header.scan bytes with
  | short needed part =>
    have : schema.demandOf limit bytes = .await needed part := by rw [demandOf, demand, scanned]
    exact this ▸ .short scanned
  | flawed flaw =>
    have : schema.demandOf limit bytes = .settled (.refuse (.header flaw)) := by
      rw [demandOf, demand, scanned]
    exact this ▸ .flawed scanned
  | complete header =>
    by_cases kind : schema.kindOf header.id = .master
    · have : schema.demandOf limit bytes = .settled (.enter header) := by
        simp only [demandOf, demand, scanned, kind]
      exact this ▸ .enter scanned kind
    · rw [demandOf_eq_leafDemand scanned kind]
      unfold Header.leafDemand
      split
      · next size => exact .unsized scanned kind size
      · next length size =>
        split
        · next large => exact .large scanned kind size large
        · next fits =>
          split
          · next few => exact .unread scanned kind size (by omega) few
          · next enough => exact .read scanned kind size (by omega) (by omega)

/-- The cases exclude each other. -/
theorem Demands.demandOf_eq {demanded : Demand} (h : schema.Demands limit bytes demanded) :
    schema.demandOf limit bytes = demanded := by
  cases h with
  | short scanned => rw [demandOf, demand, scanned]
  | flawed scanned => rw [demandOf, demand, scanned]
  | enter scanned kind => simp only [demandOf, demand, scanned, kind]
  | unsized scanned kind size => rw [demandOf_eq_leafDemand scanned kind, Header.leafDemand, size]
  | large scanned kind size large =>
    simp only [demandOf_eq_leafDemand scanned kind, Header.leafDemand, size, if_pos large]
  | unread scanned kind size fits few =>
    simp only [demandOf_eq_leafDemand scanned kind, Header.leafDemand, size, if_pos few,
      if_neg (Nat.not_lt.mpr fits)]
  | read scanned kind size fits enough =>
    simp only [demandOf_eq_leafDemand scanned kind, Header.leafDemand, size,
      if_neg (Nat.not_lt.mpr enough), if_neg (Nat.not_lt.mpr fits)]

theorem demandOf_eq_iff {demanded : Demand} :
    schema.demandOf limit bytes = demanded ↔ schema.Demands limit bytes demanded :=
  ⟨fun h => h ▸ demands_demandOf, Demands.demandOf_eq⟩

/-! ### More bytes -/

/-- What has been settled about a tag does not change when more bytes arrive. -/
theorem demandOf_append {verdict : Verdict} (h : schema.demandOf limit front = .settled verdict)
    (more : List UInt8) : schema.demandOf limit (front ++ more) = .settled verdict := by
  have complete {header : Header} (scanned : Header.scan front = .complete header) :
      Header.scan (front ++ more) = .complete header := by
    rw [Header.scan_append (by simp [scanned]), scanned]
  rw [demandOf_eq_iff] at h ⊢
  cases h with
  | flawed scanned => exact .flawed (by rw [Header.scan_append (by simp [scanned]), scanned])
  | enter scanned kind => exact .enter (complete scanned) kind
  | unsized scanned kind size => exact .unsized (complete scanned) kind size
  | large scanned kind size large => exact .large (complete scanned) kind size large
  | read scanned kind size fits enough =>
    exact .read (complete scanned) kind size fits (by rw [List.length_append]; omega)

/-- A tag that demands more bytes goes on demanding them until they are there. -/
theorem demandOf_await_append {needed : Nat} {part : Part}
    (h : schema.demandOf limit front = .await needed part) (more : List UInt8)
    (few : (front ++ more).length < needed) :
    schema.demandOf limit (front ++ more) = .await needed part := by
  rw [demandOf_eq_iff] at h ⊢
  cases h with
  | short scanned => exact .short (Header.scan_short_append scanned more few)
  | unread scanned kind size fits _ =>
    exact .unread (by rw [Header.scan_append (by simp [scanned]), scanned]) kind size fits few

/-- What is demanded is more than what is there. -/
theorem length_lt_of_demandOf {needed : Nat} {part : Part}
    (h : schema.demandOf limit bytes = .await needed part) : bytes.length < needed := by
  rw [demandOf_eq_iff] at h
  cases h with
  | short scanned => exact (Header.scan_short scanned).1
  | unread _ _ _ _ few => exact few

/-- The first byte of a tag is demanded only where there are none. -/
theorem eq_nil_of_await_start {needed : Nat}
    (h : schema.demandOf limit bytes = .await needed .start) : bytes = [] ∧ needed = 1 := by
  rw [demandOf_eq_iff] at h
  cases h with
  | short scanned =>
    rw [Header.scan_eq_iff] at scanned
    cases scanned
    exact ⟨rfl, rfl⟩

/-- Nothing beyond the limit is demanded, unless it is beyond sixteen bytes. -/
theorem le_of_demandOf {needed : Nat} {part : Part}
    (h : schema.demandOf limit bytes = .await needed part) (wide : Header.maxLength ≤ limit) :
    needed ≤ limit := by
  rw [demandOf_eq_iff] at h
  cases h with
  | short scanned => exact Nat.le_trans (Header.scan_short scanned).2 wide
  | unread scanned _ _ fits _ =>
    have := (Header.scan_complete scanned).2.1
    omega

end Schema

/-! ### The tag at the front of a window -/

/-- A window demands what its resident bytes demand. -/
theorem Window.demand_eq_demandOf (w : Window) (schema : Schema) :
    w.demand schema = schema.demandOf w.maxCapacity w.resident := by
  unfold Window.demand Schema.demandOf Schema.demand
  rw [w.front_eq_take, Header.scan_take, w.length_resident]

/-- The bytes that a verdict is about: those of the header, and those of a leaf's payload. -/
def Verdict.extent : Verdict → Nat
  | .enter header => header.length
  | .read header length => header.length + length
  | .refuse _ => 0

namespace Schema

variable {schema : Schema} {limit : Nat} {bytes front : List UInt8}

/-- What can be entered starts with the id and size fields of a container. -/
theorem container_of_enter {header : Header}
    (h : schema.demandOf limit bytes = .settled (.enter header)) :
    ∃ (id size : Vint) (rest : List UInt8), id.Fits ∧ size.Fits ∧
      schema.kindOf (.ofVint id) = .master ∧
      header = ⟨.ofVint id, .ofVint size, id.width + size.width⟩ ∧
      bytes = id.bytes ++ (size.bytes ++ rest) := by
  rw [demandOf_eq_iff] at h
  cases h with
  | enter scanned kind =>
    rw [Header.scan_eq_iff] at scanned
    cases scanned with
    | complete rest fits fits' => exact ⟨_, _, rest, fits, fits', kind, rfl, rfl⟩

/-- What can be read starts with a leaf that has the size it declares. -/
theorem leaf_of_read {header : Header} {length : Nat}
    (h : schema.demandOf limit bytes = .settled (.read header length)) :
    ∃ (id size : Vint) (payload rest : List UInt8), id.Fits ∧ size.Fits ∧
      schema.kindOf (.ofVint id) ≠ .master ∧ .ofVint size = Size.known payload.length ∧
      header = ⟨.ofVint id, .ofVint size, id.width + size.width⟩ ∧ length = payload.length ∧
      (bytes.drop header.length).take length = payload ∧
      bytes = id.bytes ++ (size.bytes ++ (payload ++ rest)) := by
  rw [demandOf_eq_iff] at h
  cases h with
  | read scanned leaf size _ enough =>
    rw [Header.scan_eq_iff] at scanned
    cases scanned with
    | @complete id size' rest fits fits' =>
      have taken : (rest.take length).length = length := by
        simp only [List.length_append, Vint.length_bytes] at enough
        rw [List.length_take]
        omega
      refine ⟨id, size', rest.take length, rest.drop length, fits, fits', leaf, ?_, rfl,
        taken.symm, ?_, by rw [List.take_append_drop]⟩
      · rw [taken]
        exact size
      · rw [← List.append_assoc, List.drop_left' (by simp)]

/-- The bytes that a verdict is about are there. -/
theorem extent_le_length {verdict : Verdict}
    (h : schema.demandOf limit bytes = .settled verdict) : verdict.extent ≤ bytes.length := by
  rw [demandOf_eq_iff] at h
  cases h with
  | flawed | unsized | large => exact Nat.zero_le _
  | enter scanned => exact (Header.scan_complete scanned).1
  | read _ _ _ _ enough => exact enough

/-- A tag that can be entered or read never demands more bytes than it has. -/
theorem le_extent_of_await {needed : Nat} {part : Part} {verdict : Verdict}
    (h : schema.demandOf limit front = .await needed part) (isFront : front <+: bytes)
    (whole : schema.demandOf limit bytes = .settled verdict)
    (accepted : ∀ fault, verdict ≠ .refuse fault) : needed ≤ verdict.extent := by
  obtain ⟨more, rfl⟩ := isFront
  rw [demandOf_eq_iff] at h whole
  cases whole with
  | flawed | unsized | large => exact absurd rfl (accepted _)
  | enter scanned kind =>
    cases h with
    | short cut => exact Header.le_length_of_short cut ⟨more, rfl⟩ scanned
    | unread cut leaf =>
      rw [Header.scan_append (by simp [cut]), cut] at scanned
      obtain rfl := Header.Sighting.complete.inj scanned
      exact absurd kind leaf
  | read scanned kind size =>
    cases h with
    | short cut =>
      exact Nat.le_trans (Header.le_length_of_short cut ⟨more, rfl⟩ scanned) (Nat.le_add_right _ _)
    | unread cut _ size' =>
      rw [Header.scan_append (by simp [cut]), cut] at scanned
      obtain rfl := Header.Sighting.complete.inj scanned
      rw [size] at size'
      cases size'
      exact Nat.le_refl _

/-! ### One demand after another -/

/-- What becomes of the tag at the front of `bytes`, none of which comes but these, once the first
`seen` of them have arrived. -/
def settle (schema : Schema) (limit : Nat) (bytes : List UInt8) (seen : Nat) :
    Except Lack Verdict :=
  match _demanded : schema.demandOf limit (bytes.take seen) with
  | .settled verdict => .ok verdict
  | .await needed part =>
    if limit < needed then .error ⟨.exceedsLimit, part⟩
    else if bytes.length < needed then .error ⟨.endOfData, part⟩
    else schema.settle limit bytes needed
termination_by bytes.length - (bytes.take seen).length
decreasing_by
  have more := length_lt_of_demandOf _demanded
  simp only [List.length_take] at more ⊢
  omega

theorem settle_of_settled {seen : Nat} {verdict : Verdict}
    (h : schema.demandOf limit (bytes.take seen) = .settled verdict) :
    schema.settle limit bytes seen = .ok verdict := by
  unfold settle
  split <;> simp_all

theorem settle_of_await {seen needed : Nat} {part : Part}
    (h : schema.demandOf limit (bytes.take seen) = .await needed part) :
    schema.settle limit bytes seen =
      if limit < needed then .error ⟨.exceedsLimit, part⟩
      else if bytes.length < needed then .error ⟨.endOfData, part⟩
      else schema.settle limit bytes needed := by
  rw [settle]
  split <;> simp_all

/-- Where there are no bytes, the first one is lacking. -/
theorem settle_nil (pos : 0 < limit) : schema.settle limit [] 0 = .error ⟨.endOfData, .start⟩ := by
  have first : schema.demandOf limit (([] : List UInt8).take 0) = .await 1 .start := rfl
  rw [settle_of_await first, if_neg (by omega), if_pos (by simp)]

/-- Whatever has been settled lies within the limit, and is what all bytes together demand. -/
theorem demandOf_of_settle {seen : Nat} {verdict : Verdict}
    (h : schema.settle limit bytes seen = .ok verdict)
    (within : (bytes.take seen).length ≤ limit) :
    schema.demandOf limit bytes = .settled verdict ∧ verdict.extent ≤ limit := by
  fun_induction settle schema limit bytes seen with
  | case1 seen verdict' demanded =>
    cases h
    constructor
    · have settled := demandOf_append demanded (bytes.drop seen)
      rwa [List.take_append_drop] at settled
    · exact Nat.le_trans (extent_le_length demanded) within
  | case2 | case3 => cases h
  | case4 seen needed part demanded fits enough ih =>
    refine ih h ?_
    rw [List.length_take]
    omega

/-- What is lacking in the end lies beyond the limit or beyond all bytes; the first byte of a tag is
lacking only where there are none. -/
theorem lack_of_settle {seen : Nat} {lack : Lack}
    (h : schema.settle limit bytes seen = .error lack) :
    lack.why = .exceedsLimit ∨ lack.why = .endOfData ∧ (lack.part = .start → bytes = []) := by
  fun_induction settle schema limit bytes seen with
  | case1 => cases h
  | case2 =>
    cases h
    exact .inl rfl
  | case3 seen needed part demanded fits few =>
    cases h
    refine .inr ⟨rfl, ?_⟩
    rintro rfl
    obtain ⟨-, rfl⟩ := eq_nil_of_await_start demanded
    exact List.eq_nil_of_length_eq_zero (Nat.lt_one_iff.mp few)
  | case4 seen needed part demanded fits enough ih => exact ih h

/-- Bytes that arrive without meeting a demand change nothing. -/
theorem settle_eq_of_await {seen later needed : Nat} {part : Part}
    (h : schema.demandOf limit (bytes.take seen) = .await needed part) (more : seen ≤ later)
    (inside : later ≤ bytes.length) (few : later < needed) :
    schema.settle limit bytes later = schema.settle limit bytes seen := by
  have split : bytes.take later = bytes.take seen ++ (bytes.take later).drop seen := by
    have front : (bytes.take later).take seen = bytes.take seen := by
      rw [List.take_take, Nat.min_eq_left more]
    rw [← front, List.take_append_drop]
  have still := demandOf_await_append h ((bytes.take later).drop seen)
    (by rw [← split, List.length_take]; omega)
  rw [← split] at still
  rw [settle_of_await h, settle_of_await still]

/-- Where the demand on the first bytes is not met, it does not matter how many of them there were
to begin with. -/
theorem settle_eq_of_le {early seen needed : Nat} {part : Part}
    (h : schema.demandOf limit (bytes.take seen) = .await needed part)
    (inside : seen ≤ bytes.length)
    (within : seen ≤ limit) (before : early ≤ seen) :
    schema.settle limit bytes early = schema.settle limit bytes seen := by
  have front (k : Nat) (le : k ≤ seen) :
      bytes.take k ++ (bytes.take seen).drop k = bytes.take seen := by
    have : bytes.take k = (bytes.take seen).take k := by rw [List.take_take, Nat.min_eq_left le]
    rw [this, List.take_append_drop]
  fun_induction settle schema limit bytes early with
  | case1 early verdict demanded =>
    have settled := demandOf_append demanded ((bytes.take seen).drop early)
    rw [front early before, h] at settled
    cases settled
  | case2 early needed' part' demanded exceeds =>
    rw [settle_eq_of_await demanded before inside (by omega), settle_of_await demanded,
      if_pos exceeds]
  | case3 early needed' part' demanded fits few =>
    rw [settle_eq_of_await demanded before inside (by omega), settle_of_await demanded,
      if_neg fits, if_pos few]
  | case4 early needed' part' demanded fits enough ih =>
    by_cases met : needed' ≤ seen
    · exact ih met
    · rw [settle_eq_of_await demanded before inside (by omega), settle_of_await demanded,
        if_neg fits, if_neg enough]

/-- What the last demand comes to, when no more bytes follow. -/
def outcome : Demand → Except Lack Verdict
  | .settled verdict => .ok verdict
  | .await _ part => .error ⟨.endOfData, part⟩

/-- Where no demand passes the limit, what all bytes together demand decides. -/
theorem settle_eq_outcome (seen : Nat)
    (within : ∀ front needed part, front <+: bytes →
      schema.demandOf limit front = .await needed part → needed ≤ limit) :
    schema.settle limit bytes seen = outcome (schema.demandOf limit bytes) := by
  fun_induction settle schema limit bytes seen with
  | case1 seen verdict demanded =>
    have settled := demandOf_append demanded (bytes.drop seen)
    rw [List.take_append_drop] at settled
    rw [settled, outcome]
  | case2 seen needed part demanded exceeds =>
    exact absurd (within _ _ _ (List.take_prefix _ _) demanded) (by omega)
  | case3 seen needed part demanded _ few =>
    have still := demandOf_await_append demanded (bytes.drop seen)
    rw [List.take_append_drop] at still
    rw [still few, outcome]
  | case4 seen needed part demanded _ _ ih => exact ih

/-- Where the limit admits every header, what all bytes together demand decides. -/
theorem settle_eq_of_wide (wide : Header.maxLength ≤ limit) (seen : Nat) :
    schema.settle limit bytes seen = outcome (schema.demandOf limit bytes) :=
  settle_eq_outcome seen fun _ _ _ _ demanded => le_of_demandOf demanded wide

/-- A tag that can be entered or read, and lies within the limit, is. -/
theorem settle_eq_of_accepted {verdict : Verdict}
    (whole : schema.demandOf limit bytes = .settled verdict)
    (accepted : ∀ fault, verdict ≠ .refuse fault) (within : verdict.extent ≤ limit) (seen : Nat) :
    schema.settle limit bytes seen = .ok verdict := by
  rw [settle_eq_outcome seen, whole, outcome]
  intro front needed part isFront demanded
  exact Nat.le_trans (le_extent_of_await demanded isFront whole accepted) within

end Schema

end TagStream
