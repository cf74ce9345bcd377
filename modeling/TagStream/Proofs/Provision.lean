import TagStream.Proofs.Progress

/-!
What a table provides. The kind of an element and the tag of its value are looked up apart, among
rows that may contradict each other. Both lookups end at the same row, so that a table makes what it
reports (`Schema.Tabular.provides`), and only leaves are decoded (`Reader.Decodes.leaf`). So
whatever is declared, and whatever bytes come from whichever source, reading meets no defect
(`Schema.Tabular.provides_all`).
-/

namespace TagStream

/-! ### Makers of tags -/

/-- The schema makes a tag of whatever an element of the kind that it reports can hold. -/
structure Schema.Provides (schema : Schema) (id : ElementId) : Prop where
  half : schema.kindOf id = .master → ∀ marker,
    schema.make id (.master marker) = some (schema.half id marker)
  leaf : ∀ {payload value}, Value.ofPayload? (schema.kindOf id) payload = some (.ok value) →
    value.kind ≠ .binary → ∃ content, Table.make.plain value = some content ∧
      schema.make id value = some ⟨id, schema.name id, content⟩
  raw : ∀ data, schema.make id (.binary data) = none →
    schema.raw id data = some ⟨id, schema.name id, .raw data⟩

/-- The value of a leaf that is not binary goes into a tag as it is. -/
theorem Table.make.exists_plain {value : Value} (plain : value.kind ≠ .binary) :
    ∃ content, Table.make.plain value = some content := by
  cases value with
  | binary => exact absurd rfl plain
  | master | unsigned | signed | float | text => exact ⟨_, rfl⟩

namespace Schema.Tabular

variable {schema : Schema}

/-- Every binary payload can be left raw. -/
theorem raw_eq (tabular : schema.Tabular) (id : ElementId) (data : List UInt8) :
    schema.raw id data = some ⟨id, schema.name id, .raw data⟩ := by
  cases tabular with
  | table | matroska => rfl

theorem provides (tabular : schema.Tabular) (id : ElementId) : schema.Provides id := by
  obtain ⟨t, follows⟩ := tabular.exists_follows
  -- The row that gives the kind is the row that gives the tag.
  have made {value : Value} {content : Content} (declared : schema.kindOf id = value.kind)
      (plain : Table.make.plain value = some content) (other : value.kind ≠ .binary) :
      schema.make id value = some ⟨id, schema.name id, content⟩ := by
    rw [follows.make id value other, follows.name]
    exact t.make_eq (follows.kindOf ▸ declared) plain
  constructor
  · intro master marker
    exact made master rfl (by intro h; cases h)
  · intro payload value read other
    obtain ⟨content, plain⟩ := Table.make.exists_plain other
    exact ⟨content, plain, made (Value.kind_of_ofPayload? read).1.symm plain other⟩
  · intro data _
    exact tabular.raw_eq id data

end Schema.Tabular

/-! ### Schemas that call things by their names -/

/-- What the schema makes as a half of a container, or as a leaf, is one. -/
structure Schema.Truthful (schema : Schema) : Prop where
  half : ∀ {id marker tag}, schema.tagOf id (.master marker) = .ok tag →
    tag.id = id ∧ tag.content = .master marker
  leaf : ∀ {id value tag}, schema.tagOf id value = .ok tag → value.kind ≠ .master →
    tag.id = id ∧ tag.isMaster = false

namespace Schema

variable {schema : Schema}

theorem make_of_tagOf {id : ElementId} {value : Value} {tag : Tag} (plain : value.kind ≠ .binary)
    (made : schema.tagOf id value = .ok tag) : schema.make id value = some tag := by
  cases value with
  | binary => exact absurd rfl plain
  | master | unsigned | signed | float | text =>
    simp only [tagOf] at made
    split at made
    · next made' =>
      cases made
      exact made'
    · cases made

theorem Truthful.of_payload (truthful : schema.Truthful) {id : ElementId} {kind : Kind}
    {payload : List UInt8} {tag : Tag}
    (read : schema.tagOfPayload id kind payload = .ok (.ok tag)) :
    tag.id = id ∧ tag.isMaster = false := by
  unfold tagOfPayload at read
  split at read
  · cases read
  · cases read
  · next value found =>
    obtain ⟨same, leaf⟩ := Value.kind_of_ofPayload? found
    cases made : schema.tagOf id value with
    | error defect =>
      rw [made] at read
      cases read
    | ok tag' =>
      rw [made] at read
      cases read
      exact truthful.leaf made (same ▸ leaf)

end Schema

/-- What a table makes of a value has the element's id, and the value as its content. -/
theorem Table.content_of_make {t : Table} {id : ElementId} {value : Value} {tag : Tag}
    (made : t.make id value = some tag) :
    tag.id = id ∧ Table.make.plain value = some tag.content := by
  obtain ⟨row, -, made⟩ := Option.bind_eq_some_iff.mp made
  split at made
  · obtain ⟨content, plain, rfl⟩ := Option.map_eq_some_iff.mp made
    exact ⟨rfl, plain⟩
  · cases made

theorem Schema.Tabular.truthful {schema : Schema} (tabular : schema.Tabular) :
    schema.Truthful := by
  obtain ⟨t, follows⟩ := tabular.exists_follows
  have content {id : ElementId} {value : Value} {tag : Tag} (plain : value.kind ≠ .binary)
      (made : schema.tagOf id value = .ok tag) :
      tag.id = id ∧ Table.make.plain value = some tag.content := by
    have made := make_of_tagOf plain made
    rw [follows.make id value plain] at made
    exact t.content_of_make made
  constructor
  · intro id marker tag made
    obtain ⟨same, plain⟩ := content (by intro h; cases h) made
    exact ⟨same, (Option.some.inj plain).symm⟩
  · intro id value tag made leaf
    cases value with
    | master => exact absurd rfl leaf
    | binary data =>
      obtain ⟨tag', made', same⟩ := follows.binary id data
      rw [made] at made'
      cases made'
      exact same
    | unsigned | signed | float | text =>
      obtain ⟨same, plain⟩ := content (by intro h; cases h) made
      refine ⟨same, ?_⟩
      rw [Tag.isMaster, ← Option.some.inj plain]

/-! ### What is decoded -/

/-- The step over this source reads a leaf with this header, and decodes this payload. -/
structure Reader.Decodes {σ : Type} [ByteSource σ] (r : Reader) (schema : Schema) (source : σ)
    (header : Header) (payload : List UInt8) : Prop where
  running : r.stopped = none
  idle : r.owed? = none
  reads : ∃ length window source',
    r.window.gather schema source = (.ok (.read header length), window, source') ∧
      payload = (consume { r with window } header.length).window.front length

/-- Containers have no payload, and none is decoded. -/
theorem Reader.Decodes.leaf {σ : Type} [ByteSource σ] {r : Reader} {schema : Schema} {source : σ}
    {header : Header} {payload : List UInt8} (decodes : r.Decodes schema source header payload) :
    schema.kindOf header.id ≠ .master := by
  obtain ⟨length, window, source', gathered, -⟩ := decodes.reads
  exact Window.kinded_of_gather gathered

/-- With a schema that is given by a table, both tags of a container are made, and so is the tag of
every value that a leaf can have; a binary payload that gets no tag of its own is made raw; and
every step of every reader over every source gives a report, the payloads that it decodes being
those of leaves. -/
theorem Schema.Tabular.provides_all {schema : Schema} (tabular : schema.Tabular) :
    (∀ id, schema.Provides id) ∧
      ∀ {σ : Type} [ByteSource σ] (r : Reader) (source : σ),
        (∀ header payload, r.Decodes schema source header payload →
          schema.kindOf header.id ≠ .master) ∧
        ∀ changes : List (σ → σ), ∃ given r' source',
          r.interleave schema source changes = .ok (given, r', source') := by
  refine ⟨tabular.provides, ?_⟩
  intro σ _ r source
  constructor
  · intro header payload decodes
    exact decodes.leaf
  · intro changes
    obtain ⟨⟨given, r', source'⟩, run⟩ := tabular.defectless.exists_interleave r source changes
    exact ⟨given, r', source', run⟩

/-- A table that takes back what it declares: a container and a number are declared again the other
way round, and a binary element as text. -/
def contradictoryTable : Table :=
  .ofRows [⟨0xA0, some "Group", .master, .root⟩, ⟨0xA1, some "Count", .unsigned, .element 0xA0⟩,
    ⟨0xA2, some "Data", .binary, .element 0xA0⟩, ⟨0xA0, none, .unsigned, .anywhere⟩,
    ⟨0xA1, none, .master, .root⟩, ⟨0xA2, some "Text", .text, .anywhere⟩]

/-- A group of a count and some data that is not text, and an element that is not declared. -/
def contradictoryBytes : Array UInt8 :=
  #[0xA0, 0x86, 0xA1, 0x81, 5, 0xA2, 0x81, 0xFF, 0xA3, 0x80]

/-- What is reported of them: the first declarations stand, and what is declared nowhere is raw. -/
def contradictoryReports : List Report :=
  [.tag ⟨⟨0xA0, some "Group", .master .opening⟩, ⟨0, 2, .known 6⟩⟩,
    .tag ⟨⟨0xA1, some "Count", .unsigned 5⟩, ⟨2, 2, .known 1⟩⟩,
    .tag ⟨⟨0xA2, some "Data", .raw [0xFF]⟩, ⟨5, 2, .known 1⟩⟩,
    .tag ⟨⟨0xA0, some "Group", .master .closing⟩, ⟨0, 2, .known 6⟩⟩,
    .tag ⟨⟨0xA3, none, .raw []⟩, ⟨8, 2, .known 0⟩⟩, .endOfStream]

theorem provides_all_contradictoryTable :
    ∃ given r' source',
      (Reader.new {}).interleave contradictoryTable.schema (Memory.ofBytes contradictoryBytes)
        (List.replicate 6 id) = .ok (given, r', source') ∧
      given.map (·.1) = contradictoryReports := by
  obtain ⟨-, provides⟩ := (Schema.Tabular.table contradictoryTable).provides_all
  obtain ⟨-, runs⟩ := provides (Reader.new {}) (Memory.ofBytes contradictoryBytes)
  obtain ⟨given, r', source', run⟩ := runs (List.replicate 6 id)
  have reports : ((Reader.new {}).interleave contradictoryTable.schema
      (Memory.ofBytes contradictoryBytes) (List.replicate 6 id)).toOption.map
        (fun given => given.1.map (·.1)) = some contradictoryReports := by
    decide +kernel
  rw [run] at reports
  exact ⟨given, r', source', run, Option.some.inj reports⟩

end TagStream
