import TagStream.Proofs.History
import TagStream.Proofs.Turn

/-!
Steps that give no tag. One that pauses leaves the reader as it was, but for the bytes that have
arrived (`Reader.Pauses`). One that fails gives and closes nothing, notes its fault in the journal,
and consumes nothing but a leaf whose payload is malformed (`Reader.Fails`). This is so for every
reader that can be reached, every schema, and every source, whatever it answers
(`suspends_or_stops`).
-/

namespace TagStream

/-- The bytes are a leaf whose payload is malformed, for which reading stops with this fault. -/
inductive Schema.IsMalformed (schema : Schema) : List UInt8 → Fault → Prop where
  | intro {id size : Vint} {payload : List UInt8} {malformed : Malformed} : id.Fits → size.Fits →
      schema.kindOf (.ofVint id) ≠ .master → .ofVint size = Size.known payload.length →
      Value.ofPayload? (schema.kindOf (.ofVint id)) payload = some (.error malformed) →
      IsMalformed schema (id.bytes ++ (size.bytes ++ payload))
        (.payload (.ofVint id) malformed payload)

/-- A payload that no tag is made of, though the schema has no defect, is malformed. -/
theorem Schema.ofPayload?_of_tagOfPayload {schema : Schema} {id : ElementId} {kind : Kind}
    {payload : List UInt8} {malformed : Malformed}
    (h : schema.tagOfPayload id kind payload = .ok (.error malformed)) :
    Value.ofPayload? kind payload = some (.error malformed) := by
  unfold tagOfPayload at h
  split at h
  · cases h
  · next malformed' read =>
    cases h
    exact read
  · next value read =>
    cases made : schema.tagOf id value with
    | error defect =>
      rw [made] at h
      cases h
    | ok tag =>
      rw [made] at h
      cases h

/-- A leaf that is read and found malformed stands at the front of what is resident. -/
theorem Schema.exists_isMalformed {schema : Schema} {limit : Nat} {bytes : List UInt8}
    {header : Header} {length : Nat} {malformed : Malformed}
    (demanded : schema.demandOf limit bytes = .settled (.read header length))
    (read : schema.tagOfPayload header.id (schema.kindOf header.id)
      ((bytes.drop header.length).take length) = .ok (.error malformed)) :
    ∃ leaf, schema.IsMalformed leaf
        (.payload header.id malformed ((bytes.drop header.length).take length)) ∧
      bytes = leaf ++ (bytes.drop header.length).drop length ∧
      leaf.length = header.length + length := by
  obtain ⟨id, size, payload, rest, fits, fits', leaf, declared, rfl, rfl, front, rfl⟩ :=
    leaf_of_read demanded
  rw [front] at read ⊢
  refine ⟨id.bytes ++ (size.bytes ++ payload), ?_, ?_, ?_⟩
  · exact .intro fits fits' leaf declared (ofPayload?_of_tagOfPayload read)
  · have header : (id.bytes ++ size.bytes).length = id.width + size.width := by simp
    have behind : (id.bytes ++ (size.bytes ++ (payload ++ rest))).drop (id.width + size.width) =
        payload ++ rest := by
      rw [← List.append_assoc, List.drop_left' header]
    rw [behind, List.drop_left' rfl]
    simp only [List.append_assoc]
  · simp only [List.length_append, Vint.length_bytes]
    omega

namespace Reader

/-! ### Steps that give no tag -/

/-- The step has changed nothing, but for bytes that have come to stand behind the resident ones. -/
structure Pauses (r r' : Reader) (drawn : List UInt8) : Prop where
  window : Window.Drawn r.window r'.window drawn
  rest : r' = { r with window := r'.window }

/-- The step has stopped the reader. The containers, the tag that was put off and the counts are as
before, the fault is in the journal, and no byte has been consumed, except those of a leaf that is
malformed. -/
structure Fails (schema : Schema) (r r' : Reader) (drawn : List UInt8) (fault : Fault) : Prop where
  rest : r' = { r with
    window := r'.window
    stopped := some fault.faultClass
    journal := r.journal.note (.stopped fault r'.offset) }
  stays : fault.faultClass ≠ .corruptedTagData → Window.Drawn r.window r'.window drawn
  passes : fault.faultClass = .corruptedTagData → ∃ leaf, schema.IsMalformed leaf fault ∧
    r.window.resident ++ drawn = leaf ++ r'.window.resident ∧ r'.offset = r.offset + leaf.length

/-- What the step has given, a tag apart, is a pause or a failure, and neither has done more than
that. -/
structure Atomic (schema : Schema) (r : Reader) (given : Report × Reader) (drawn : List UInt8) :
    Prop where
  pauses : given.1.outcome = .needMoreData → Pauses r given.2 drawn
  fails : ∀ fault, given.1 = .fault fault → Fails schema r given.2 drawn fault

section Acting

variable {schema : Schema} {r : Reader} {given : Report × Reader} {window : Window}
  {drawn : List UInt8}

theorem atomic_of_outcome (moves : given.1.outcome = .ok ∨ given.1.outcome = .endOfStream) :
    Atomic schema r given drawn := by
  constructor
  · intro paused
    rw [paused] at moves
    rcases moves with h | h <;> cases h
  · intro fault failed
    rw [failed] at moves
    rcases moves with h | h <;> cases h

theorem outcome_place (r : Reader) (schema : Schema) (id : ElementId) (emission : Emission)
    (closing : Option Emission) : (r.place schema id emission closing).1.outcome = .ok := by
  have isTag := isTag_place r schema id emission closing
  cases placed : (r.place schema id emission closing).1 with
  | tag => rfl
  | endOfStream | needMoreData | fault =>
    rw [placed] at isTag
    cases isTag

/-- Stopping at once consumes nothing. -/
theorem atomic_stop (moved : Window.Drawn r.window window drawn) {fault : Fault}
    (other : fault.faultClass ≠ .corruptedTagData) :
    Atomic schema r (stop { r with window } fault) drawn := by
  constructor
  · intro paused
    cases paused
  · rintro fault' ⟨⟩
    exact ⟨rfl, fun _ => moved, fun same => absurd same other⟩

/-- A leaf that is malformed is consumed, and nothing else. -/
theorem atomic_malformed (moved : Window.Drawn r.window window drawn) {header : Header}
    {length : Nat} {malformed : Malformed}
    (demanded : window.demand schema = .settled (.read header length))
    (read : schema.tagOfPayload header.id (schema.kindOf header.id)
      ((consume { r with window } header.length).window.front length) = .ok (.error malformed)) :
    Atomic schema r
      (stop ((consume { r with window } header.length).consume length)
        (.payload header.id malformed
          ((consume { r with window } header.length).window.front length))) drawn := by
  rw [Window.demand_eq_demandOf] at demanded
  have enough := Schema.extent_le_length demanded
  rw [Window.length_resident] at enough
  have front : (consume { r with window } header.length).window.front length =
      (window.resident.drop header.length).take length := by
    rw [Window.front_eq_take, consume, Window.resident_advance]
  rw [front] at read ⊢
  obtain ⟨leaf, isMalformed, split, size⟩ := Schema.exists_isMalformed demanded read
  constructor
  · intro paused
    cases paused
  · rintro fault ⟨⟩
    refine ⟨rfl, fun other => absurd rfl other, fun _ => ⟨leaf, isMalformed, ?_, ?_⟩⟩
    · rw [← moved.resident]
      simp only [stop, consume, Window.resident_advance]
      exact split
    · have passed := @offset_consume_consume { r with window } _ _ enough
      have same : window.offset = r.offset := moved.offset
      rw [size, ← Nat.add_assoc, ← same]
      exact passed

theorem atomic_fallShort (moved : Window.Drawn r.window window drawn) (lack : Lack) :
    Atomic schema r (fallShort { r with window } lack) drawn := by
  unfold fallShort
  split
  · constructor
    · intro _
      exact ⟨moved, rfl⟩
    · intro fault h
      cases h
  · -- The end of a stream closes a container, or is all there is to report.
    unfold closeAtEnd
    split
    · exact atomic_of_outcome (.inr rfl)
    · exact atomic_of_outcome (.inl rfl)
  all_goals exact atomic_stop moved (by intro h; cases h)

/-- Acting on what has been gathered is atomic. -/
theorem atomic_of_acted (moved : Window.Drawn r.window window drawn)
    {settled : Except Lack Verdict} (acted : Acted schema { r with window } settled given)
    (demanded : ∀ verdict, settled = .ok verdict → window.demand schema = .settled verdict) :
    Atomic schema r given drawn := by
  cases acted with
  | enter | leaf => exact atomic_of_outcome (.inl (outcome_place ..))
  | malformed read => exact atomic_malformed moved (demanded _ rfl) read
  | refuse fault =>
    have settled := demanded _ rfl
    rw [Window.demand_eq_demandOf, Schema.demandOf_eq_iff] at settled
    refine atomic_stop moved ?_
    cases settled <;> (intro h; cases h)
  | fallShort lack => exact atomic_fallShort moved lack

end Acting

end Reader

variable {σ : Type} [ByteSource σ] {schema : Schema} {c : Config} {r r' : Reader}
  {source source' : σ} {report : Report}

/-- A step that pauses changes nothing but that the bytes it was answered stand in the window. A
step that fails changes neither the containers nor the tag put off nor the counts, and consumes
nothing but a leaf that is malformed. From then on every step repeats the fault and changes neither
the reader nor its source, until the reader is reset. -/
theorem suspends_or_stops (reached : Reader.Reached σ schema c r) (running : r.stopped = none)
    (stepped : r.next schema source = .ok (report, r', source')) (past : List Answer) :
    ∃ answers : List Answer,
      r.next schema (⟨source, past⟩ : Heard σ) = .ok (report, r', ⟨source', past ++ answers⟩) ∧
      (report.outcome = .needMoreData → r.Pauses r' (answers.flatMap Answer.bytes)) ∧
      ∀ fault, report = .fault fault →
        r.Fails schema r' (answers.flatMap Answer.bytes) fault ∧
        (∀ (later : σ) (changes : List (σ → σ)),
          r'.interleave schema later changes =
            .ok (changes.map fun _ => (.fault (.repeated fault.faultClass), r'), r',
              changes.foldl (fun source change => change source) later)) ∧
        r'.reset.stopped = none := by
  obtain ⟨⟨source₁, told⟩, heard, rfl⟩ := Reader.exists_heard stepped past
  have inside := reached.founded.inside
  cases Reader.stepped_of_next heard with
  | repeated stopped =>
    rw [running] at stopped
    cases stopped
  | owed _ owed =>
    refine ⟨[], ?_, ?_, ?_⟩
    · rw [List.append_nil]
      exact heard
    · intro paused
      cases paused
    · intro fault failed
      cases failed
  | @acted settled window _ given _ owed gathered acted =>
    obtain ⟨answers, told_eq, hears, -⟩ := Window.hears_gather inside gathered
    have demanded : ∀ verdict, settled = .ok verdict → window.demand schema = .settled verdict := by
      rintro verdict rfl
      exact Window.demand_of_gather gathered
    obtain ⟨pauses, fails⟩ :=
      Reader.atomic_of_acted hears.drawn (Reader.acted_of_act acted) demanded
    simp only at told_eq
    subst told_eq
    refine ⟨answers, heard, pauses, ?_⟩
    intro fault failed
    have failure := fails fault failed
    refine ⟨failure, ?_, rfl⟩
    intro later changes
    refine Reader.interleave_of_stopped ?_ later changes
    rw [failure.rest]

/-- A cluster of unknown size and a timestamp of nine bytes, which no integer has. After the first
of these bytes there is a pause. -/
def haltedTimestamp : Script where
  cues := [.data [0x1F, 0x43, 0xB6, 0x75, 0xFF, 0xE7, 0x89, 1], .silence .wouldBlock,
    .data [2, 3, 4, 5, 6, 7, 8, 9]]
  last := .endOfData

/-- The reader that has entered the cluster and holds the front of the timestamp, and what is left
of the script. -/
def haltedReader : Reader × Script :=
  (Reader.new {}).after Matroska.schema haltedTimestamp 2

/-- With the rest of the timestamp the reader stops; it has passed the timestamp, and the cluster is
still open. -/
theorem suspends_or_stops_haltedTimestamp :
    ∃ (fault : Fault) (r' : Reader) (source' : Script) (answers : List Answer),
      fault.faultClass = .corruptedTagData ∧ haltedReader.1.depth = 1 ∧
      haltedReader.1.window.resident = [0xE7, 0x89, 1] ∧
      haltedReader.1.next Matroska.schema (⟨haltedReader.2, []⟩ : Heard Script) =
        .ok (.fault fault, r', ⟨source', answers⟩) ∧
      haltedReader.1.Fails Matroska.schema r' (answers.flatMap Answer.bytes) fault := by
  have reached : Reader.Reached Script Matroska.schema {} haltedReader.1 :=
    Reader.Reached.new.after _ _
  have reports : (haltedReader.1.next Matroska.schema haltedReader.2).toOption.map (·.1) =
      some (.fault (.payload 0xE7 .integerTooLong [1, 2, 3, 4, 5, 6, 7, 8, 9])) := by
    decide +kernel
  cases stepped : haltedReader.1.next Matroska.schema haltedReader.2 with
  | error defect =>
    rw [stepped] at reports
    cases reports
  | ok given =>
    obtain ⟨report, r', source'⟩ := given
    rw [stepped] at reports
    obtain rfl := Option.some.inj reports
    obtain ⟨answers, heard, -, fails⟩ :=
      suspends_or_stops reached (by decide +kernel) stepped []
    exact ⟨_, r', source', answers, rfl, by decide +kernel, by decide +kernel, heard,
      (fails _ rfl).1⟩

end TagStream
