import TagStream.Proofs.Course
import TagStream.Proofs.Fetch
import TagStream.Proofs.Step
import TagStream.Schema.Matroska

/-!
Schemas that are given by a table. Such a schema makes every tag that it declares: the two tags of a
container, and the tag of every payload that can be read (`tagOf_master`, `tagOfPayload_cases`). So
it is without defects, as any schema is that makes what it declares (`Schema.Defectless`), and no
step of reading meets one (`exists_next`).
-/

namespace TagStream

namespace Schema

/-- The schemas of tables, and the Matroska schema, which gives blocks their structure. -/
inductive Tabular : Schema → Prop where
  | table (t : Table) : Tabular t.schema
  | matroska : Tabular Matroska.schema

/-- The tag of a container where it starts or ends. -/
def half (schema : Schema) (id : ElementId) (marker : Marker) : Tag :=
  ⟨id, schema.name id, .master marker⟩

/-- The tag of a leaf, if its payload can be read as a value of the declared kind. -/
def leaf? (schema : Schema) (id : ElementId) (payload : List UInt8) : Option Tag :=
  match Value.ofPayload? (schema.kindOf id) payload with
  | some (.ok value) => (schema.tagOf id value).toOption
  | _ => none

end Schema

/-- The tag of a leaf neither opens nor closes anything. -/
theorem Tag.content_ne_master {t : Tag} (leaf : t.isMaster = false) (marker : Marker) :
    t.content ≠ .master marker := by
  intro master
  rw [isMaster, master] at leaf
  cases leaf

/-! ### Values of leaves -/

namespace Value

/-- Whether the payload can be read as a value of this kind. -/
def reads (kind : Kind) (payload : List UInt8) : Bool :=
  match ofPayload? kind payload with
  | some (.ok _) => true
  | _ => false

theorem reads_iff {kind : Kind} {payload : List UInt8} :
    reads kind payload = true ↔ ∃ value, ofPayload? kind payload = some (.ok value) := by
  unfold reads
  split
  · next value h => exact ⟨fun _ => ⟨value, h⟩, fun _ => rfl⟩
  · next unread =>
    constructor
    · rintro ⟨⟩
    · rintro ⟨value, h⟩
      exact absurd h (unread value)

/-- A payload is read as a value of the kind that was asked for. -/
theorem kind_of_ofPayload? {kind : Kind} {payload : List UInt8} {value : Value}
    (h : ofPayload? kind payload = some (.ok value)) : value.kind = kind ∧ kind ≠ .master := by
  have mapped {α : Type} {read : Except Malformed α} {f : α → Value}
      (h : read.map f = .ok value) : ∃ a, f a = value := by
    cases read with
    | error malformed => cases h
    | ok a => exact ⟨a, Except.ok.inj h⟩
  cases kind with
  | master => cases h
  | binary =>
    cases h
    exact ⟨rfl, (by intro h; cases h)⟩
  | unsigned | signed | float | text =>
    obtain ⟨a, rfl⟩ := mapped (Option.some.inj h)
    exact ⟨rfl, (by intro h; cases h)⟩

/-- The payload of a leaf is a value or malformed. -/
theorem ofPayload?_ne_none {kind : Kind} (leaf : kind ≠ .master) (payload : List UInt8) :
    ofPayload? kind payload ≠ none := by
  cases kind with
  | master => exact absurd rfl leaf
  | unsigned | signed | float | text | binary => intro h; cases h

end Value

/-! ### The tags of a table -/

/-- A table makes the tag of every value that is not binary, if it declares the element so. -/
theorem Table.make_eq (t : Table) {id : ElementId} {value : Value} {content : Content}
    (declared : t.kindOf id = value.kind) (plain : Table.make.plain value = some content) :
    t.make id value = some ⟨id, t.name id, content⟩ := by
  cases found : t.find? id with
  | none =>
    rw [Table.kindOf, found] at declared
    cases value with
    | binary => cases plain
    | master | unsigned | signed | float | text => cases declared
  | some row =>
    rw [Table.kindOf, found] at declared
    have kind : row.kind = value.kind := declared
    simp only [Table.make, Table.name, found, Option.bind_some, if_pos kind, plain, Option.map_some]

/-- A table leaves binary values to be made raw. -/
theorem Table.make_binary (t : Table) (id : ElementId) (data : List UInt8) :
    t.make id (.binary data) = none := by
  unfold Table.make
  cases t.find? id with
  | none => rfl
  | some row =>
    rw [Option.bind_some]
    split <;> rfl

namespace Schema

theorem tagOf_of_make {schema : Schema} {id : ElementId} {value : Value} {tag : Tag}
    (plain : value.kind ≠ .binary) (made : schema.make id value = some tag) :
    schema.tagOf id value = .ok tag := by
  cases value with
  | binary => exact absurd rfl plain
  | master | unsigned | signed | float | text => simp only [tagOf, made]

/-- What a schema makes as a table does: the tags of all values that are not binary. -/
structure Follows (schema : Schema) (t : Table) : Prop where
  kindOf : schema.kindOf = t.kindOf
  name : schema.name = t.name
  make : ∀ (id : ElementId) (value : Value), value.kind ≠ .binary →
    schema.make id value = t.make id value
  binary : ∀ (id : ElementId) (data : List UInt8),
    ∃ tag, schema.tagOf id (.binary data) = .ok tag ∧ tag.id = id ∧ tag.isMaster = false

namespace Tabular

variable {schema : Schema}

theorem exists_follows (tabular : schema.Tabular) : ∃ t, schema.Follows t := by
  cases tabular with
  | table t =>
    refine ⟨t, rfl, rfl, fun _ _ _ => rfl, fun id data => ?_⟩
    refine ⟨⟨id, t.name id, .raw data⟩, ?_, rfl, rfl⟩
    have made : t.schema.make id (.binary data) = none := t.make_binary id data
    simp only [tagOf, made]
    rfl
  | matroska =>
    refine ⟨Matroska.table, rfl, rfl, ?_, ?_⟩
    · intro id value plain
      cases value with
      | binary => exact absurd rfl plain
      | master | unsigned | signed | float | text => rfl
    · intro id data
      have made : Matroska.schema.make id (.binary data) = Matroska.block? id data := rfl
      simp only [tagOf, made]
      cases block : Matroska.block? id data with
      | none => exact ⟨⟨id, Matroska.table.name id, .raw data⟩, rfl, rfl, rfl⟩
      | some tag =>
        obtain ⟨form, -, made⟩ := Option.bind_eq_some_iff.mp block
        obtain ⟨block, -, rfl⟩ := Option.map_eq_some_iff.mp made
        exact ⟨_, rfl, rfl, rfl⟩

/-- Both tags of a container are made. -/
theorem tagOf_master (tabular : schema.Tabular) {id : ElementId} (marker : Marker)
    (declared : schema.kindOf id = .master) :
    schema.tagOf id (.master marker) = .ok (schema.half id marker) := by
  obtain ⟨t, follows⟩ := tabular.exists_follows
  have made : t.make id (.master marker) = some ⟨id, t.name id, .master marker⟩ :=
    t.make_eq (follows.kindOf ▸ declared) rfl
  rw [half, follows.name]
  have plain : (Value.master marker).kind ≠ .binary := by intro h; cases h
  exact tagOf_of_make plain ((follows.make id (.master marker) plain).trans made)

/-- The tag of a leaf's value is made, and is that of a leaf with the element's id. -/
theorem exists_tagOf (tabular : schema.Tabular) {id : ElementId} {value : Value}
    (declared : schema.kindOf id = value.kind) (leaf : value.kind ≠ .master) :
    ∃ tag, schema.tagOf id value = .ok tag ∧ tag.id = id ∧ tag.isMaster = false := by
  obtain ⟨t, follows⟩ := tabular.exists_follows
  cases value with
  | master => exact absurd rfl leaf
  | binary data => exact follows.binary id data
  | unsigned x | signed x | float x | text x =>
    have made := t.make_eq (follows.kindOf ▸ declared) rfl
    refine ⟨_, tagOf_of_make ?_ ((follows.make id _ ?_).trans made), rfl, rfl⟩
    all_goals
      intro h
      cases h

/-- What becomes of the payload of a leaf: its tag, or what is wrong with it. -/
theorem tagOfPayload_cases (tabular : schema.Tabular) {id : ElementId}
    (leaf : schema.kindOf id ≠ .master) (payload : List UInt8) :
    (∃ tag, schema.tagOfPayload id (schema.kindOf id) payload = .ok (.ok tag) ∧
      schema.leaf? id payload = some tag ∧ tag.id = id ∧ tag.isMaster = false) ∨
    ∃ malformed, schema.tagOfPayload id (schema.kindOf id) payload = .ok (.error malformed) ∧
      Value.ofPayload? (schema.kindOf id) payload = some (.error malformed) := by
  cases read : Value.ofPayload? (schema.kindOf id) payload with
  | none => exact absurd read (Value.ofPayload?_ne_none leaf payload)
  | some result =>
    cases result with
    | error malformed => exact .inr ⟨malformed, by rw [tagOfPayload, read], rfl⟩
    | ok value =>
      have kind := (Value.kind_of_ofPayload? read).1
      obtain ⟨tag, made, same, content⟩ :=
        tabular.exists_tagOf kind.symm (by rw [kind]; exact leaf)
      refine .inl ⟨tag, ?_, ?_, same, content⟩
      · simp only [tagOfPayload, read, made, Except.map]
      · simp only [leaf?, read, made, Except.toOption]

/-- A payload that can be read has a leaf's tag. -/
theorem exists_leaf? (tabular : schema.Tabular) {id : ElementId} {payload : List UInt8}
    (reads : Value.reads (schema.kindOf id) payload = true) :
    ∃ tag, schema.tagOfPayload id (schema.kindOf id) payload = .ok (.ok tag) ∧
      schema.leaf? id payload = some tag ∧ tag.isMaster = false := by
  obtain ⟨value, read⟩ := Value.reads_iff.mp reads
  obtain ⟨-, leaf⟩ := Value.kind_of_ofPayload? read
  rcases tabular.tagOfPayload_cases leaf payload
    with ⟨tag, made, same, -, content⟩ | ⟨malformed, -, bad⟩
  · exact ⟨tag, made, same, content⟩
  · rw [read] at bad
    cases bad

/-- What is made of a leaf's payload is no container's tag. -/
theorem isMaster_of_tagOfPayload (tabular : schema.Tabular) {id : ElementId}
    {payload : List UInt8} {tag : Tag} (leaf : schema.kindOf id ≠ .master)
    (read : schema.tagOfPayload id (schema.kindOf id) payload = .ok (.ok tag)) :
    tag.isMaster = false := by
  rcases tabular.tagOfPayload_cases leaf payload
    with ⟨tag', read', -, -, content⟩ | ⟨malformed, read', -⟩
  · rw [read'] at read
    cases read
    exact content
  · rw [read'] at read
    cases read

/-- The tag that a leaf has is made, and is a leaf's. -/
theorem tagOfPayload_of_leaf? (tabular : schema.Tabular) {id : ElementId} {payload : List UInt8}
    {tag : Tag} (leaf : schema.kindOf id ≠ .master) (made : schema.leaf? id payload = some tag) :
    schema.tagOfPayload id (schema.kindOf id) payload = .ok (.ok tag) ∧ tag.isMaster = false := by
  rcases tabular.tagOfPayload_cases leaf payload
    with ⟨tag', read, made', -, content⟩ | ⟨malformed, -, bad⟩
  · obtain rfl : tag' = tag := Option.some.inj (made'.symm.trans made)
    exact ⟨read, content⟩
  · simp [leaf?, bad] at made

end Tabular

end Schema

/-! ### No defects -/

/-- What a verdict says about the element's kind. -/
def Verdict.Kinded (schema : Schema) : Verdict → Prop
  | .enter header => schema.kindOf header.id = .master
  | .read header _ => schema.kindOf header.id ≠ .master
  | .refuse _ => True

theorem Schema.kinded_of_demandOf {schema : Schema} {limit : Nat} {bytes : List UInt8}
    {verdict : Verdict} (h : schema.demandOf limit bytes = .settled verdict) :
    verdict.Kinded schema := by
  rw [demandOf_eq_iff] at h
  cases h with
  | flawed | unsized | large => trivial
  | enter _ master => exact master
  | read _ leaf => exact leaf

/-- What a window gathers has the kind that the schema declares. -/
theorem Window.kinded_of_gather {σ : Type} [ByteSource σ] {w w' : Window} {schema : Schema}
    {source source' : σ} {verdict : Verdict}
    (h : w.gather schema source = (.ok verdict, w', source')) : verdict.Kinded schema := by
  have demanded := demand_of_gather h
  rw [demand_eq_demandOf] at demanded
  exact Schema.kinded_of_demandOf demanded

/-- The schema makes every tag that it declares, of whichever id can be written: the two tags of a
container, and the tag of every payload that a leaf can have, unless the payload is malformed. -/
structure Schema.Defectless (schema : Schema) : Prop where
  master : ∀ {id : Vint} (marker : Marker), id.Fits → schema.kindOf (.ofVint id) = .master →
    ∃ tag, schema.tagOf (.ofVint id) (.master marker) = .ok tag
  leaf : ∀ {id size : Vint} {payload : List UInt8}, id.Fits → size.Fits →
    schema.kindOf (.ofVint id) ≠ .master → .ofVint size = Size.known payload.length →
    ∃ read, schema.tagOfPayload (.ofVint id) (schema.kindOf (.ofVint id)) payload = .ok read

namespace Schema.Defectless

variable {schema : Schema}

/-- Acting on a verdict meets no defect. -/
theorem exists_act (defectless : schema.Defectless) (r : Reader) {settled : Except Lack Verdict}
    (demanded : ∀ verdict, settled = .ok verdict → r.window.demand schema = .settled verdict) :
    ∃ given, Reader.act r schema settled = .ok given := by
  cases settled with
  | error lack => exact ⟨_, rfl⟩
  | ok verdict =>
    have demanded := demanded _ rfl
    rw [Window.demand_eq_demandOf] at demanded
    cases verdict with
    | refuse fault => exact ⟨_, rfl⟩
    | enter header =>
      obtain ⟨id, size, rest, fits, -, kind, rfl, -⟩ := container_of_enter demanded
      obtain ⟨closing, closed⟩ := defectless.master .closing fits kind
      obtain ⟨opening, opened⟩ := defectless.master .opening fits kind
      simp only [Reader.act, Reader.enter, closed, opened]
      exact ⟨_, rfl⟩
    | read header length =>
      obtain ⟨id, size, payload, rest, fits, fits', leaf, declared, rfl, rfl, front, -⟩ :=
        leaf_of_read demanded
      have resident :
          (r.consume (id.width + size.width)).window.front payload.length = payload := by
        rw [Window.front_eq_take, Reader.consume, Window.resident_advance]
        exact front
      obtain ⟨read, made⟩ := defectless.leaf fits fits' leaf declared
      simp only [Reader.act, Reader.readLeaf, resident, made]
      cases read <;> exact ⟨_, rfl⟩

/-- Every step of reading gives a report. -/
theorem exists_next (defectless : schema.Defectless) {σ : Type} [ByteSource σ] (r : Reader)
    (source : σ) : ∃ result, r.next schema source = .ok result := by
  unfold Reader.next
  split
  · exact ⟨_, rfl⟩
  · split
    · exact ⟨_, rfl⟩
    · obtain ⟨settled, window, source', gathered⟩ :
          ∃ settled window source', r.window.gather schema source = (settled, window, source') :=
        ⟨_, _, _, rfl⟩
      obtain ⟨given, acted⟩ :=
        defectless.exists_act { r with window } (Window.settled_of_gather gathered)
      simp only [gathered, acted]
      exact ⟨_, rfl⟩

end Schema.Defectless

namespace Schema.Tabular

variable {schema : Schema}

/-- A table makes every tag that it declares. -/
theorem defectless (tabular : schema.Tabular) : schema.Defectless where
  master marker _ master := ⟨_, tabular.tagOf_master marker master⟩
  leaf _ _ leaf _ := by
    rcases tabular.tagOfPayload_cases leaf _ with ⟨tag, made, -⟩ | ⟨malformed, made, -⟩
    · exact ⟨_, made⟩
    · exact ⟨_, made⟩

/-- With a schema that is given by a table, every step of reading gives a report. -/
theorem exists_next (tabular : schema.Tabular) {σ : Type} [ByteSource σ] (r : Reader)
    (source : σ) : ∃ result, r.next schema source = .ok result :=
  tabular.defectless.exists_next r source

end Schema.Tabular

end TagStream
