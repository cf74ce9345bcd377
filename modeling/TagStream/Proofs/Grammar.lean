import TagStream.Proofs.Course
import TagStream.Proofs.Tabular

/-!
The flat grammar of a stream. An item is the header of a container, or a leaf; containers are
neither opened nor closed, an item is only told from another by the bytes at its front. `Item` says
what an item is, `Items` strings items together, and `Breaks` lists what a byte string that does not
start with an item can look like, with the fault that each form is. Every byte string is of one of
these forms (`item_or_breaks`), and a course acts on each in one way (`Item.act`, `Breaks.act`), so
it is of no more than one (`Item.unique`, `Breaks.unique`, `Item.not_breaks`).
-/

namespace TagStream

/-- The bytes start with an item that stands at `offset` and gives the tag `emission`; `rest` is
what follows it, from `offset'` on. -/
inductive Item (schema : Schema) (limit offset : Nat) :
    (bytes : List UInt8) → (emission : Emission) → (offset' : Nat) → (rest : List UInt8) →
      Prop where
  | master {id size : Vint} (rest : List UInt8) : id.Fits → size.Fits →
      schema.kindOf (.ofVint id) = .master →
      Item schema limit offset (id.bytes ++ (size.bytes ++ rest))
        ⟨schema.half (.ofVint id) .opening, ⟨offset, id.width + size.width, .ofVint size⟩⟩
        (offset + (id.width + size.width)) rest
  | leaf {id size : Vint} {payload : List UInt8} {tag : Tag} (rest : List UInt8) :
      id.Fits → size.Fits → schema.kindOf (.ofVint id) ≠ .master →
      .ofVint size = Size.known payload.length →
      id.width + size.width + payload.length ≤ limit →
      schema.leaf? (.ofVint id) payload = some tag →
      Item schema limit offset (id.bytes ++ (size.bytes ++ (payload ++ rest)))
        ⟨tag, ⟨offset, id.width + size.width, .known payload.length⟩⟩
        (offset + (id.width + size.width) + payload.length) rest

/-- The bytes start with these items, one right after another; `rest` is what follows the last one,
from `offset'` on. -/
inductive Items (schema : Schema) (limit : Nat) :
    (offset : Nat) → (bytes : List UInt8) → List Emission → (offset' : Nat) →
      (rest : List UInt8) → Prop where
  | nil (offset : Nat) (rest : List UInt8) : Items schema limit offset rest [] offset rest
  | cons {offset offset₁ offset' : Nat} {bytes later rest : List UInt8} {emission : Emission}
      {emissions : List Emission} : Item schema limit offset bytes emission offset₁ later →
      Items schema limit offset₁ later emissions offset' rest →
      Items schema limit offset bytes (emission :: emissions) offset' rest

theorem Items.trans {schema : Schema} {limit offset offset₁ offset' : Nat}
    {bytes later rest : List UInt8} {first second : List Emission}
    (items : Items schema limit offset bytes first offset₁ later)
    (items' : Items schema limit offset₁ later second offset' rest) :
    Items schema limit offset bytes (first ++ second) offset' rest := by
  induction items with
  | nil => exact items'
  | cons item _ ih => exact .cons item (ih items')

/-- The bytes are not empty and do not start with an item: what is wrong with them, and the class of
faults that this is in. -/
inductive Breaks (schema : Schema) (limit : Nat) :
    (bytes : List UInt8) → FaultClass → Fault → Prop where
  | idWithoutMarker (rest : List UInt8) :
      Breaks schema limit (0 :: rest) .corruptedData (.header .idWithoutMarker)
  | idCut {id : Vint} {front : List UInt8} : id.Fits → front ≠ [] → front.length < id.width →
      front <+: id.bytes → Breaks schema limit front .corruptedData (.truncated .idField)
  | sizeMissing {id : Vint} : id.Fits →
      Breaks schema limit id.bytes .corruptedData (.truncated (.sizeField (.ofVint id)))
  | sizeWithoutMarker {id : Vint} (rest : List UInt8) : id.Fits →
      Breaks schema limit (id.bytes ++ 0 :: rest) .corruptedData
        (.header (.sizeWithoutMarker (.ofVint id)))
  | sizeCut {id size : Vint} {front : List UInt8} : id.Fits → size.Fits → front ≠ [] →
      front.length < size.width → front <+: size.bytes →
      Breaks schema limit (id.bytes ++ front) .corruptedData (.truncated (.sizeField (.ofVint id)))
  | leafWithoutSize {id size : Vint} (rest : List UInt8) : id.Fits → size.Fits →
      schema.kindOf (.ofVint id) ≠ .master → .ofVint size = Size.unknown →
      Breaks schema limit (id.bytes ++ (size.bytes ++ rest)) .corruptedData
        (.leafWithoutSize (.ofVint id))
  | leafTooLarge {id size : Vint} {length : Nat} (rest : List UInt8) : id.Fits → size.Fits →
      schema.kindOf (.ofVint id) ≠ .master → .ofVint size = Size.known length →
      limit < id.width + size.width + length →
      Breaks schema limit (id.bytes ++ (size.bytes ++ rest)) .tagTooLarge
        (.leafTooLarge (.ofVint id))
  | payloadCut {id size : Vint} {length : Nat} {front : List UInt8} : id.Fits → size.Fits →
      schema.kindOf (.ofVint id) ≠ .master → .ofVint size = Size.known length →
      id.width + size.width + length ≤ limit → front.length < length →
      Breaks schema limit (id.bytes ++ (size.bytes ++ front)) .corruptedData
        (.truncated (.payload (.ofVint id)))
  | malformed {id size : Vint} {payload : List UInt8} {malformed : Malformed} (rest : List UInt8) :
      id.Fits → size.Fits → schema.kindOf (.ofVint id) ≠ .master →
      .ofVint size = Size.known payload.length →
      id.width + size.width + payload.length ≤ limit →
      Value.ofPayload? (schema.kindOf (.ofVint id)) payload = some (.error malformed) →
      Breaks schema limit (id.bytes ++ (size.bytes ++ (payload ++ rest))) .corruptedTagData
        (.payload (.ofVint id) malformed payload)

theorem Breaks.faultClass_eq {schema : Schema} {limit : Nat} {bytes : List UInt8}
    {faultClass : FaultClass} {fault : Fault}
    (breaks : Breaks schema limit bytes faultClass fault) : fault.faultClass = faultClass := by
  cases breaks <;> rfl

/-! ### Every byte string has a form -/

section Forms

variable {schema : Schema} {limit : Nat}

/-- What can follow the header of a leaf. -/
theorem item_or_breaks_of_leaf (tabular : schema.Tabular) {id size : Vint} (fits : id.Fits)
    (fits' : size.Fits) (leaf : schema.kindOf (.ofVint id) ≠ .master) (offset : Nat)
    (rest : List UInt8) :
    (∃ emission offset' rest',
        Item schema limit offset (id.bytes ++ (size.bytes ++ rest)) emission offset' rest') ∨
      ∃ faultClass fault,
        Breaks schema limit (id.bytes ++ (size.bytes ++ rest)) faultClass fault := by
  cases declared : Size.ofVint size with
  | unknown => exact .inr ⟨_, _, .leafWithoutSize rest fits fits' leaf declared⟩
  | known length =>
    by_cases large : limit < id.width + size.width + length
    · exact .inr ⟨_, _, .leafTooLarge rest fits fits' leaf declared large⟩
    · by_cases cut : rest.length < length
      · exact .inr ⟨_, _, .payloadCut fits fits' leaf declared (by omega) cut⟩
      · have same : (rest.take length).length = length := by
          rw [List.length_take]
          omega
        rw [← List.take_append_drop length rest]
        rcases tabular.tagOfPayload_cases leaf (rest.take length)
          with ⟨tag, -, made, -⟩ | ⟨malformed, -, bad⟩
        · exact .inl ⟨_, _, _, .leaf (rest.drop length) fits fits' leaf (by rw [same, declared])
            (by rw [same]; omega) made⟩
        · exact .inr ⟨_, _, .malformed (rest.drop length) fits fits' leaf (by rw [same, declared])
            (by rw [same]; omega) bad⟩

/-- A byte string is empty, or starts with an item, or breaks. -/
theorem item_or_breaks (tabular : schema.Tabular) (limit offset : Nat) {bytes : List UInt8}
    (nonempty : bytes ≠ []) :
    (∃ emission offset' rest, Item schema limit offset bytes emission offset' rest) ∨
      ∃ faultClass fault, Breaks schema limit bytes faultClass fault := by
  rcases Vint.front_cases bytes
    with rfl | ⟨rest, rfl⟩ | ⟨id, fits, started, short, front⟩ | ⟨id, after, fits, rfl⟩
  · exact absurd rfl nonempty
  · exact .inr ⟨_, _, .idWithoutMarker rest⟩
  · exact .inr ⟨_, _, .idCut fits started short front⟩
  · rcases Vint.front_cases after
      with rfl | ⟨rest, rfl⟩ | ⟨size, fits', started, short, front⟩ | ⟨size, rest, fits', rfl⟩
    · rw [List.append_nil]
      exact .inr ⟨_, _, .sizeMissing fits⟩
    · exact .inr ⟨_, _, .sizeWithoutMarker rest fits⟩
    · exact .inr ⟨_, _, .sizeCut fits fits' started short front⟩
    · by_cases master : schema.kindOf (.ofVint id) = .master
      · exact .inl ⟨_, _, _, .master rest fits fits' master⟩
      · exact item_or_breaks_of_leaf tabular fits fits' master offset rest

end Forms

/-! ### What a course does with each form -/

section Acts

variable {schema : Schema} {limit offset offset' : Nat} {bytes rest : List UInt8}
  {emission : Emission}

/-- An item, where nothing keeps it from being settled, is placed, and reading goes on with what
follows it. -/
theorem Item.act_outcome (tabular : schema.Tabular)
    (item : Item schema limit offset bytes emission offset' rest) :
    ∃ (id : ElementId) (closing : Option Emission),
      emission.tag.content ≠ .master .closing ∧
      (∀ k ∈ closing, k.tag.content = .master .closing) ∧
      ∀ c : Course, c.rest = bytes → c.offset = offset →
        c.act schema (Schema.outcome (schema.demandOf limit bytes)) =
          .ok (({ c with rest, offset := offset' } : Course).place schema id emission closing) := by
  cases item with
  | @master id size _ fits fits' master =>
    refine ⟨.ofVint id, some ⟨schema.half (.ofVint id) .closing,
      ⟨offset, id.width + size.width, .ofVint size⟩⟩, (by intro h; cases h), ?_, ?_⟩
    · rintro k ⟨⟩
      rfl
    · rintro c split rfl
      have scanned := (Header.Seen.complete rest fits fits').scan_eq
      have header : (id.bytes ++ size.bytes).length = id.width + size.width := by simp
      rw [← List.append_assoc] at split
      rw [(Schema.Demands.enter scanned master).demandOf_eq, Schema.outcome, Course.act,
        Course.enter, Course.consume_append split header, tabular.tagOf_master _ master,
        tabular.tagOf_master _ master]
      rfl
  | @leaf id size payload tag _ fits fits' leaf declared within made =>
    obtain ⟨read, content⟩ := tabular.tagOfPayload_of_leaf? leaf made
    refine ⟨.ofVint id, none, Tag.content_ne_master content .closing, (by intro _ h; cases h), ?_⟩
    rintro c split rfl
    have scanned := (Header.Seen.complete (payload ++ rest) fits fits').scan_eq
    have header : (id.bytes ++ size.bytes).length = id.width + size.width := by simp
    have demanded : schema.demandOf limit (id.bytes ++ (size.bytes ++ (payload ++ rest))) =
        .settled (.read ⟨.ofVint id, .ofVint size, id.width + size.width⟩ payload.length) := by
      refine Schema.Demands.demandOf_eq (.read scanned leaf declared ?_ ?_)
      · simp only
        omega
      · simp only [List.length_append, Vint.length_bytes]
        omega
    rw [← List.append_assoc] at split
    rw [demanded, Schema.outcome, Course.act, Course.readLeaf, Course.consume_append split header,
      Course.consume_append rfl rfl]
    simp only [List.take_left, read, declared]
    rfl

/-- An item is placed, and reading goes on with what follows it. -/
theorem Item.act (tabular : schema.Tabular) (wide : Header.maxLength ≤ limit)
    (item : Item schema limit offset bytes emission offset' rest) :
    ∃ (id : ElementId) (closing : Option Emission),
      emission.tag.content ≠ .master .closing ∧
      (∀ k ∈ closing, k.tag.content = .master .closing) ∧
      ∀ c : Course, c.rest = bytes → c.offset = offset →
        c.act schema (schema.settle limit bytes 0) =
          .ok (({ c with rest, offset := offset' } : Course).place schema id emission closing) := by
  rw [Schema.settle_eq_of_wide wide]
  exact item.act_outcome tabular

/-- Bytes that break stop the course. -/
theorem Breaks.act (wide : Header.maxLength ≤ limit) {faultClass : FaultClass} {fault : Fault}
    (breaks : Breaks schema limit bytes faultClass fault) {c : Course} (split : c.rest = bytes) :
    ∃ c', c.act schema (schema.settle limit bytes 0) = .ok (.fault fault, c') := by
  rw [Schema.settle_eq_of_wide wide]
  have short {needed : Nat} {part : Part} (scanned : Header.scan bytes = .short needed part) :
      Schema.outcome (schema.demandOf limit bytes) = .error ⟨.endOfData, part⟩ := by
    rw [(Schema.Demands.short scanned).demandOf_eq, Schema.outcome]
  cases breaks with
  | idWithoutMarker rest =>
    rw [(Schema.Demands.flawed (Header.Seen.idWithoutMarker rest).scan_eq).demandOf_eq]
    exact ⟨_, rfl⟩
  | idCut fits started cut front =>
    rw [short (Header.Seen.idCut fits started cut front).scan_eq]
    exact ⟨_, rfl⟩
  | sizeMissing fits =>
    rw [short (Header.Seen.sizeMissing fits).scan_eq]
    exact ⟨_, rfl⟩
  | sizeWithoutMarker rest fits =>
    rw [(Schema.Demands.flawed (Header.Seen.sizeWithoutMarker rest fits).scan_eq).demandOf_eq]
    exact ⟨_, rfl⟩
  | sizeCut fits fits' started cut front =>
    rw [short (Header.Seen.sizeCut fits fits' started cut front).scan_eq]
    exact ⟨_, rfl⟩
  | leafWithoutSize rest fits fits' leaf declared =>
    have scanned := (Header.Seen.complete rest fits fits').scan_eq
    rw [(Schema.Demands.unsized scanned leaf declared).demandOf_eq]
    exact ⟨_, rfl⟩
  | leafTooLarge rest fits fits' leaf declared large =>
    have scanned := (Header.Seen.complete rest fits fits').scan_eq
    have least := (Header.scan_complete scanned).2.1
    have exceeds := Nat.sub_lt_left_of_lt_add (Nat.le_trans least wide) large
    rw [(Schema.Demands.large scanned leaf declared exceeds).demandOf_eq]
    exact ⟨_, rfl⟩
  | @payloadCut id size length front fits fits' leaf declared within cut =>
    have scanned := (Header.Seen.complete front fits fits').scan_eq
    have few : (id.bytes ++ (size.bytes ++ front)).length < id.width + size.width + length := by
      simp only [List.length_append, Vint.length_bytes]
      omega
    have room := Nat.le_sub_of_add_le' within
    rw [(Schema.Demands.unread scanned leaf declared room few).demandOf_eq]
    exact ⟨_, rfl⟩
  | @malformed id size payload malformed rest fits fits' leaf declared within bad =>
    have scanned := (Header.Seen.complete (payload ++ rest) fits fits').scan_eq
    have header : (id.bytes ++ size.bytes).length = id.width + size.width := by simp
    have read : schema.tagOfPayload (.ofVint id) (schema.kindOf (.ofVint id)) payload =
        .ok (.error malformed) := by
      rw [Schema.tagOfPayload, bad]
    have enough : id.width + size.width + payload.length ≤
        (id.bytes ++ (size.bytes ++ (payload ++ rest))).length := by
      simp only [List.length_append, Vint.length_bytes]
      omega
    rw [← List.append_assoc] at split
    rw [(Schema.Demands.read scanned leaf declared (Nat.le_sub_of_add_le' within)
      enough).demandOf_eq, Schema.outcome, Course.act, Course.readLeaf,
      Course.consume_append split header, Course.consume_append rfl rfl]
    simp only [List.take_left, read]
    exact ⟨_, rfl⟩

/-! ### Every byte string has only one form -/

/-- An item is told by the bytes at its front. -/
theorem Item.unique (tabular : schema.Tabular) (wide : Header.maxLength ≤ limit)
    {emission' : Emission} {offset'' : Nat} {rest' : List UInt8}
    (item : Item schema limit offset bytes emission offset' rest)
    (item' : Item schema limit offset bytes emission' offset'' rest') :
    emission = emission' ∧ offset' = offset'' ∧ rest = rest' := by
  obtain ⟨id, closing, -, -, act⟩ := item.act tabular wide
  obtain ⟨id', closing', -, -, act'⟩ := item'.act tabular wide
  -- Where no container is open the course gives the item's own tag.
  have given := (act { rest := bytes, offset } rfl rfl).symm.trans (act' _ rfl rfl)
  simp only [Course.place, Except.ok.injEq, Prod.mk.injEq, Report.tag.injEq,
    Course.mk.injEq] at given
  obtain ⟨same, rest, offset, -⟩ := given
  exact ⟨same, offset, rest⟩

theorem Item.not_breaks (tabular : schema.Tabular) (wide : Header.maxLength ≤ limit)
    {faultClass : FaultClass} {fault : Fault}
    (item : Item schema limit offset bytes emission offset' rest) :
    ¬ Breaks schema limit bytes faultClass fault := by
  intro breaks
  obtain ⟨id, closing, -, -, act⟩ := item.act tabular wide
  obtain ⟨c', stopped⟩ := breaks.act wide (c := { rest := bytes, offset }) rfl
  have given := (act _ rfl rfl).symm.trans stopped
  simp [Course.place] at given

theorem Breaks.unique (wide : Header.maxLength ≤ limit) {faultClass faultClass' : FaultClass}
    {fault fault' : Fault} (breaks : Breaks schema limit bytes faultClass fault)
    (breaks' : Breaks schema limit bytes faultClass' fault') :
    faultClass = faultClass' ∧ fault = fault' := by
  obtain ⟨c₁, stopped⟩ := breaks.act wide (c := { rest := bytes }) rfl
  obtain ⟨c₂, stopped'⟩ := breaks'.act wide (c := { rest := bytes }) rfl
  have given := stopped.symm.trans stopped'
  simp only [Except.ok.injEq, Prod.mk.injEq, Report.fault.injEq] at given
  obtain ⟨rfl, -⟩ := given
  exact ⟨breaks.faultClass_eq.symm.trans breaks'.faultClass_eq, rfl⟩

theorem Item.ne_nil (tabular : schema.Tabular) (wide : Header.maxLength ≤ limit)
    (item : Item schema limit offset bytes emission offset' rest) : bytes ≠ [] := by
  rintro rfl
  obtain ⟨id, closing, -, -, act⟩ := item.act tabular wide
  have given := act { rest := [], offset } rfl rfl
  rw [Schema.settle_nil (Nat.lt_of_lt_of_le (by decide) wide)] at given
  simp [Course.act, Course.fallShort, Course.closeAtEnd, Course.place] at given

theorem Breaks.ne_nil (wide : Header.maxLength ≤ limit) {faultClass : FaultClass} {fault : Fault}
    (breaks : Breaks schema limit bytes faultClass fault) : bytes ≠ [] := by
  rintro rfl
  obtain ⟨c', stopped⟩ := breaks.act wide (c := { rest := [] }) rfl
  rw [Schema.settle_nil (Nat.lt_of_lt_of_le (by decide) wide)] at stopped
  simp [Course.act, Course.fallShort, Course.closeAtEnd] at stopped

/-- A string of items that no further item continues is the longest one. -/
theorem Items.isPrefix_of_stuck (tabular : schema.Tabular) (wide : Header.maxLength ≤ limit)
    {all part : List Emission} {offset'' : Nat} {rest' : List UInt8}
    (items : Items schema limit offset bytes all offset' rest)
    (stuck : ∀ emission offset'' rest', ¬ Item schema limit offset' rest emission offset'' rest')
    (items' : Items schema limit offset bytes part offset'' rest') : part <+: all := by
  induction items' generalizing all with
  | nil => exact List.nil_prefix
  | cons item' _ ih =>
    cases items with
    | nil => exact absurd item' (stuck _ _ _)
    | cons item later =>
      obtain ⟨rfl, rfl, rfl⟩ := item.unique tabular wide item'
      exact List.cons_prefix_cons.mpr ⟨rfl, ih later⟩

end Acts

end TagStream
