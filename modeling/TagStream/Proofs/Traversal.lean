import TagStream.Proofs.Document
import TagStream.Proofs.Independence
import TagStream.Proofs.Prompt

/-!
Reading a document. A course on the serialization of a well-formed document gives the tags of the
document in their order. The induction is on the document, whatever stands around it: the containers
that are open, a container of unknown size that the next element ends, and the bytes that follow
(`Document.emits_within`, `Document.emits_at_end`). Main statement (`reports_of_document`): so does
every reader, however the bytes are delivered to it, and then it comes to the end of the stream.
-/

namespace TagStream

/-! ### What a course emits -/

namespace Course

/-- A course gives these tags, one after another. -/
inductive Emits (schema : Schema) (limit : Nat) : Course → List Emission → Course → Prop where
  | nil (c : Course) : Emits schema limit c [] c
  | cons {c c₁ c' : Course} {emission : Emission} {later : List Emission} :
      c.next schema limit = .ok (.tag emission, c₁) → Emits schema limit c₁ later c' →
      Emits schema limit c (emission :: later) c'

variable {schema : Schema} {limit : Nat}

theorem Emits.trans {c c₁ c' : Course} {first later : List Emission}
    (h : Emits schema limit c first c₁) (h' : Emits schema limit c₁ later c') :
    Emits schema limit c (first ++ later) c' := by
  induction h with
  | nil => exact h'
  | cons step _ ih => exact .cons step (ih h')

/-- The course at some point of a stream where no tag is put off. -/
def between (containers : List Emission) (offset : Nat) (rest : List UInt8) : Course :=
  { rest, offset, containers }

/-- A tag that can be entered or read, and lies within the limit, is acted upon. -/
theorem next_eq_act {containers : List Emission} {offset : Nat} {rest : List UInt8}
    {verdict : Verdict}
    (idle : ∀ top ∈ containers.head?, Reader.isComplete top.position offset = false)
    (whole : schema.demandOf limit rest = .settled verdict)
    (accepted : ∀ fault, verdict ≠ .refuse fault) (within : verdict.extent ≤ limit) :
    (between containers offset rest).next schema limit =
      (between containers offset rest).act schema (.ok verdict) := by
  have owed : (between containers offset rest).owed? = none := by
    cases containers with
    | nil => rfl
    | cons top outer =>
      have open_ := idle top (by simp)
      simp [owed?, between, open_]
  have settled := Schema.settle_eq_of_accepted whole accepted within 0
  simp only [next, owed]
  simp only [between] at settled ⊢
  rw [settled]

/-- A container that is complete is closed. -/
theorem emits_complete {top : Emission} {outer : List Emission} {offset : Nat}
    {rest : List UInt8} (complete : Reader.isComplete top.position offset = true) :
    Emits schema limit (between (top :: outer) offset rest) [top] (between outer offset rest) := by
  refine .cons ?_ (.nil _)
  simp [next, owed?, between, complete]

/-- When all bytes are gone every container is closed, the innermost first. -/
theorem emits_drain (pos : 0 < limit) (containers : List Emission) (offset : Nat) :
    Emits schema limit (between containers offset []) containers (between [] offset []) := by
  induction containers with
  | nil => exact .nil _
  | cons top outer ih =>
    refine .cons ?_ ih
    by_cases complete : Reader.isComplete top.position offset = true
    · simp [next, owed?, between, complete]
    · simp [next, owed?, between, complete, Schema.settle_nil pos, act, fallShort, closeAtEnd]

/-- A tag that is placed is given, after the closing tag of the container that it displaces. -/
theorem emits_place {c : Course} {pending closing : Option Emission} {containers : List Emission}
    {offset : Nat} {rest : List UInt8} {id : ElementId} {emission : Emission}
    (step : c.next schema limit =
      .ok ((between (pending.toList ++ containers) offset rest).place schema id emission closing))
    (ends : ∀ top ∈ pending, Reader.displaces schema id top = true)
    (stays : pending = none → ∀ top ∈ containers.head?, Reader.displaces schema id top = false) :
    Emits schema limit c (pending.toList ++ [emission])
      (between (closing.toList ++ containers) offset rest) := by
  cases pending with
  | some top =>
    have displaced : Reader.displaces schema id top = true := ends top rfl
    simp only [Option.toList_some, List.singleton_append, between, place, displaced,
      if_true] at step
    exact .cons step (.cons rfl (.nil _))
  | none =>
    cases containers with
    | nil =>
      rw [List.append_nil]
      exact .cons step (.nil _)
    | cons top outer =>
      have kept : Reader.displaces schema id top = false := stays rfl top rfl
      simp only [Option.toList_none, List.nil_append, between, place, kept, Bool.false_eq_true,
        if_false] at step
      exact .cons step (.nil _)

end Course

/-! ### Reading a document -/

namespace Document

variable {schema : Schema} {limit : Nat}

/-- The container that is to be closed before the elements of `doc` are read, if there is one, has
unknown size and does not admit the first of them. -/
def Ends (schema : Schema) (pending : Option Emission) (doc : Document) : Prop :=
  ∀ top ∈ pending, top.position.size = .unknown ∧
    ∀ id ∈ doc.ids.head?, schema.admits top.tag id = false

/-- The innermost container holds the elements of `doc`, which stand at `offset`, and nothing after
them: it ends where they do, or has unknown size and admits them. -/
def Holds (schema : Schema) (containers : List Emission) (offset : Nat) (doc : Document) : Prop :=
  ∀ top ∈ containers.head?,
    match top.position.size with
    | .known length => top.position.dataOffset + length = offset + doc.encode.length
    | .unknown => ∀ id ∈ doc.ids, schema.admits top.tag id = true

variable {pending : Option Emission} {containers : List Emission} {offset : Nat} {doc : Document}

theorem Ends.displaces (ends : Ends schema pending doc) {id : ElementId}
    (first : doc.ids.head? = some id) :
    ∀ top ∈ pending, Reader.displaces schema id top = true := by
  intro top mem
  obtain ⟨unknown, refused⟩ := ends top mem
  simp [Reader.displaces, unknown, Size.isKnown, refused id first]

theorem Holds.displaces (holds : Holds schema containers offset doc) {id : ElementId}
    (inside : id ∈ doc.ids) :
    ∀ top ∈ containers.head?, Reader.displaces schema id top = false := by
  intro top mem
  have held := holds top mem
  unfold Reader.displaces
  split at held
  · next length known => simp [known, Size.isKnown]
  · next unknown => simp [held id inside]

/-- No container is complete while an element of it is still to be read. -/
theorem idle_of_holds (ends : Ends schema pending doc)
    (holds : pending = none → Holds schema containers offset doc)
    (nonempty : 0 < doc.encode.length) :
    ∀ top ∈ (pending.toList ++ containers).head?,
      Reader.isComplete top.position offset = false := by
  intro top mem
  cases pending with
  | some closing =>
    obtain rfl : closing = top := by simpa using mem
    obtain ⟨unknown, -⟩ := ends closing rfl
    simp [Reader.isComplete, unknown]
  | none =>
    have held := holds rfl top (by simpa using mem)
    cases size : top.position.size with
    | known length =>
      simp only [size] at held
      simp only [Reader.isComplete, size, decide_eq_false_iff_not]
      omega
    | unknown => simp only [Reader.isComplete, size]

/-- The tag of a leaf is given, after the closing tag that it calls for. -/
theorem emits_leaf (tabular : schema.Tabular) {heading : Heading} {payload : List UInt8}
    {next : Document} (valid : (leaf heading payload next).Valid schema limit)
    (ends : Ends schema pending (leaf heading payload next))
    (holds : pending = none → Holds schema containers offset (leaf heading payload next))
    (tail : List UInt8) :
    Course.Emits schema limit
      (.between (pending.toList ++ containers) offset ((leaf heading payload next).encode ++ tail))
      (pending.toList ++ (schema.leaf? heading.tagId payload).toList.map
        (⟨·, ⟨offset, heading.length, .known payload.length⟩⟩))
      (.between containers (offset + heading.length + payload.length) (next.encode ++ tail)) := by
  obtain ⟨⟨fits, kind, reads, within⟩, -⟩ := valid
  obtain ⟨tag, read, made, -⟩ := tabular.exists_leaf? reads
  have written : (leaf heading payload next).encode ++ tail =
      heading.bytes (.known payload.length) ++ (payload ++ (next.encode ++ tail)) := by
    simp only [encode, List.append_assoc]
  have whole : schema.demandOf limit ((leaf heading payload next).encode ++ tail) =
      .settled (.read (heading.header (.known payload.length)) payload.length) := by
    rw [written]
    refine Schema.Demands.demandOf_eq (.read (heading.scan_bytes fits _) kind rfl ?_ ?_)
    · simp only [Heading.header]
      omega
    · simp only [Heading.header, List.length_append, Heading.length_bytes]
      omega
  have nonempty : 0 < (leaf heading payload next).encode.length := by
    have := heading.length_pos fits
    simp only [encode, List.length_append, Heading.length_bytes]
    omega
  have step := Course.next_eq_act (idle_of_holds ends holds nonempty) whole
    (by intro _ h; cases h) within
  rw [made]
  change Course.Emits _ _ _ (pending.toList ++ [_]) (.between (none.toList ++ containers) _ _)
  refine Course.emits_place ?_ (ends.displaces rfl)
    fun idle => (holds idle).displaces (List.mem_cons_self ..)
  rw [step, written, Course.act, Course.readLeaf]
  simp only [Heading.header]
  rw [Course.consume_append rfl (heading.length_bytes _), Course.consume_append rfl rfl]
  simp only [Course.between, List.take_left, read]
  rfl

/-- The opening tag of a container is given, after the closing tag that it calls for. -/
theorem emits_opening (tabular : schema.Tabular) {heading : Heading} {sized : Bool}
    {children next : Document} (valid : (master heading sized children next).Valid schema limit)
    (ends : Ends schema pending (master heading sized children next))
    (holds : pending = none → Holds schema containers offset (master heading sized children next))
    (tail : List UInt8) :
    Course.Emits schema limit
      (.between (pending.toList ++ containers) offset
        ((master heading sized children next).encode ++ tail))
      (pending.toList ++ [half schema heading sized children offset .opening])
      (.between (half schema heading sized children offset .closing :: containers)
        (offset + heading.length) (children.encode ++ (next.encode ++ tail))) := by
  obtain ⟨⟨fits, kind, within, -⟩, -, -⟩ := valid
  have written : (master heading sized children next).encode ++ tail =
      heading.bytes (declared sized children.encode.length) ++
        (children.encode ++ (next.encode ++ tail)) := by
    simp only [encode, List.append_assoc]
  have whole : schema.demandOf limit ((master heading sized children next).encode ++ tail) =
      .settled (.enter (heading.header (declared sized children.encode.length))) := by
    rw [written]
    exact Schema.Demands.demandOf_eq (.enter (heading.scan_bytes fits _) kind)
  have nonempty : 0 < (master heading sized children next).encode.length := by
    have := heading.length_pos fits
    simp only [encode, List.length_append, Heading.length_bytes]
    omega
  have step := Course.next_eq_act (idle_of_holds ends holds nonempty) whole
    (by intro _ h; cases h) within
  change Course.Emits _ _ _ _ (.between ((some _).toList ++ containers) _ _)
  refine Course.emits_place ?_ (ends.displaces rfl)
    fun idle => (holds idle).displaces (List.mem_cons_self ..)
  rw [step, written, Course.act, Course.enter]
  simp only [Heading.header]
  rw [Course.consume_append rfl (heading.length_bytes _), tabular.tagOf_master _ kind,
    tabular.tagOf_master _ kind]
  rfl

theorem ids_eq_nil_iff : doc.ids = [] ↔ doc = empty := by
  cases doc <;> simp [ids]

theorem isEmpty_ids (nonempty : doc ≠ empty) : doc.ids.isEmpty = false := by
  rw [List.isEmpty_eq_false_iff]
  exact fun unlisted => nonempty (ids_eq_nil_iff.mp unlisted)

/-- Nothing is to be closed. -/
theorem ends_none : Ends schema none doc := by
  intro _ h
  cases h

theorem holds_nil : Holds schema [] offset doc := by
  intro _ h
  cases h

/-- The elements after a leaf are held by what holds the leaf. -/
theorem Holds.after_leaf {heading : Heading} {payload : List UInt8} {next : Document}
    (holds : Holds schema containers offset (leaf heading payload next)) :
    Holds schema containers (offset + heading.length + payload.length) next := by
  intro top mem
  have held := holds top mem
  split at held
  · simp only [encode, List.length_append, Heading.length_bytes] at held
    omega
  · exact fun id inside => held id (List.mem_cons_of_mem _ inside)

/-- The elements after a container are held by what holds the container. -/
theorem Holds.after_master {heading : Heading} {sized : Bool} {children next : Document}
    (holds : Holds schema containers offset (master heading sized children next)) :
    Holds schema containers (offset + heading.length + children.encode.length) next := by
  intro top mem
  have held := holds top mem
  split at held
  · simp only [encode, List.length_append, Heading.length_bytes] at held
    omega
  · exact fun id inside => held id (List.mem_cons_of_mem _ inside)

/-- A container holds its children. -/
theorem holds_children {heading : Heading} {sized : Bool} {children next : Document}
    (valid : (master heading sized children next).Valid schema limit) (containers : List Emission)
    (offset : Nat) :
    Holds schema (half schema heading sized children offset .closing :: containers)
      (offset + heading.length) children := by
  obtain ⟨⟨-, -, -, inside⟩, -, -⟩ := valid
  intro top mem
  obtain rfl := Option.some.inj mem
  cases sized with
  | true => rfl
  | false => exact inside rfl

/-- The next element ends a container of unknown size that does not admit it. -/
theorem ends_of_endsBefore {heading : Heading} {children next : Document} {followed : Bool}
    (ends : endsBefore schema heading.tagId followed next.ids = true) (offset : Nat) :
    Ends schema (some (half schema heading false children offset .closing)) next := by
  intro top mem
  obtain rfl := Option.some.inj mem
  refine ⟨rfl, ?_⟩
  intro id first
  cases next with
  | empty => cases first
  | leaf | master =>
    obtain rfl := Option.some.inj first
    simpa [endsBefore, ids, admits, half] using ends

/-- A container whose children are read is closed before the elements after it are, by itself or by
the first of these. -/
theorem emits_closing {heading : Heading} {sized : Bool} {children next : Document}
    {followed : Bool} {offset' : Nat} {tail : List UInt8} {later : List Emission} {c : Course}
    (delimited : (master heading sized children next).Delimited schema followed)
    (nonempty : sized = false → next ≠ empty)
    (reached : offset + heading.length + children.encode.length = offset')
    (onward : ∀ pending, Ends schema pending next → (next = empty → pending = none) →
      Course.Emits schema limit (.between (pending.toList ++ containers) offset' tail)
        (pending.toList ++ later) c) :
    Course.Emits schema limit
      (.between (half schema heading sized children offset .closing :: containers) offset' tail)
      (half schema heading sized children offset .closing :: later) c := by
  cases sized with
  | true =>
    have complete : Reader.isComplete
        (half schema heading true children offset .closing).position offset' = true := by
      simp [Reader.isComplete, half, declared, Position.dataOffset, reached]
    exact (Course.emits_complete complete).trans (onward none ends_none fun _ => rfl)
  | false =>
    exact onward (some _) (ends_of_endsBefore (delimited.1 rfl) offset)
      fun empty => absurd empty (nonempty rfl)

/-- Where more bytes follow, the elements of a document are emitted and every container that was
opened is closed, the last one included. -/
theorem emits_within (tabular : schema.Tabular) (pending : Option Emission)
    (containers : List Emission) (offset : Nat) (tail : List UInt8)
    (valid : doc.Valid schema limit) (delimited : doc.Delimited schema true)
    (ends : Ends schema pending doc) (idle : doc = empty → pending = none)
    (holds : Holds schema containers offset doc) :
    Course.Emits schema limit (.between (pending.toList ++ containers) offset (doc.encode ++ tail))
      (pending.toList ++ doc.emissions schema offset)
      (.between containers (offset + doc.encode.length) tail) := by
  induction doc generalizing pending containers offset tail with
  | empty =>
    obtain rfl := idle rfl
    exact .nil _
  | leaf heading payload next ih =>
    have first := emits_leaf tabular valid ends (fun _ => holds) tail
    have later := ih none containers _ tail valid.2 delimited ends_none (fun _ => rfl)
      holds.after_leaf
    have both := first.trans later
    simpa [emissions, encode, Nat.add_assoc] using both
  | master heading sized children next ihChildren ihNext =>
    have opened := emits_opening tabular valid ends (fun _ => holds) tail
    have inside := ihChildren none _ _ (next.encode ++ tail) valid.2.1
      (by simpa using delimited.2.1) ends_none (fun _ => rfl)
      (holds_children valid containers offset)
    have nonempty : sized = false → next ≠ empty := by
      rintro rfl rfl
      simp [Delimited, endsBefore, ids] at delimited
    have closed := emits_closing delimited nonempty rfl fun pending ends idle =>
      ihNext pending containers _ tail valid.2.2 delimited.2.2 ends idle holds.after_master
    have all := (opened.trans inside).trans closed
    simpa [emissions, encode, Nat.add_assoc] using all

/-- Where no bytes follow, the elements of a document are emitted and all containers are closed. -/
theorem emits_at_end (tabular : schema.Tabular) (pos : 0 < limit) (pending : Option Emission)
    (containers : List Emission) (offset : Nat) (valid : doc.Valid schema limit)
    (delimited : doc.Delimited schema false) (ends : Ends schema pending doc)
    (holds : Holds schema containers offset doc) :
    Course.Emits schema limit (.between (pending.toList ++ containers) offset doc.encode)
      (pending.toList ++ doc.emissions schema offset ++ containers)
      (.between [] (offset + doc.encode.length) []) := by
  induction doc generalizing pending containers offset with
  | empty =>
    have drained : Course.Emits schema limit _ _ _ :=
      Course.emits_drain pos (pending.toList ++ containers) offset
    simpa [emissions, encode] using drained
  | leaf heading payload next ih =>
    have first := emits_leaf tabular valid ends (fun _ => holds) []
    rw [List.append_nil, List.append_nil] at first
    have later := ih none containers _ valid.2 delimited ends_none holds.after_leaf
    have both := first.trans later
    simpa [emissions, encode, Nat.add_assoc] using both
  | master heading sized children next ihChildren ihNext =>
    have opened := emits_opening tabular valid ends (fun _ => holds) []
    rw [List.append_nil, List.append_nil] at opened
    have children_held := holds_children valid containers offset
    by_cases last : next = empty
    · -- The children are the last elements of all, and the container is closed with the others.
      subst last
      have inside := ihChildren none _ _ valid.2.1 (by simpa [ids] using delimited.2.1) ends_none
        children_held
      rw [encode, List.append_nil] at opened
      have all := opened.trans inside
      simpa [emissions, encode, Nat.add_assoc] using all
    · have inside := emits_within tabular none _ _ next.encode valid.2.1
        (by simpa [isEmpty_ids last] using delimited.2.1) ends_none (fun _ => rfl) children_held
      have closed := emits_closing delimited (fun _ => last) rfl fun pending ends _ => by
        have later := ihNext pending containers _ valid.2.2 delimited.2.2 ends holds.after_master
        rwa [List.append_assoc] at later
      have all := (opened.trans inside).trans closed
      simpa [emissions, encode, Nat.add_assoc] using all

end Document

/-! ### The reports of a run -/

theorem Config.maxCapacity_pos (c : Config) : 0 < c.maxCapacity := by
  have least : 0 < c.minCapacity := by
    unfold minCapacity
    split
    · decide
    · omega
  exact Nat.lt_of_lt_of_le least (Nat.le_max_right _ _)

namespace Course

variable {schema : Schema} {limit : Nat}

/-- At the end of a stream, with no container open, the course stays. -/
theorem next_at_end (pos : 0 < limit) (offset : Nat) :
    (between [] offset []).next schema limit = .ok (.endOfStream, between [] offset []) := by
  simp [next, owed?, between, Schema.settle_nil pos, act, fallShort, closeAtEnd]

/-- The reports of a course that gives some tags and then comes to the end of the stream. -/
theorem reports_of_emits {c c' last : Course} {emissions : List Emission} {count enough : Nat}
    {seen : List Observation} (emits : Emits schema limit c emissions c')
    (stays : c'.next schema limit = .ok (.endOfStream, c')) (le : count ≤ enough)
    (steps : c.steps schema limit count = .ok (seen, last)) :
    seen.map (·.report) <+: emissions.map .tag ++ List.replicate enough .endOfStream := by
  induction count generalizing c emissions enough seen last with
  | zero =>
    cases steps
    exact List.nil_prefix
  | succ count ih =>
    obtain ⟨enough, rfl⟩ := Nat.exists_eq_succ_of_ne_zero (Nat.ne_zero_of_lt le)
    obtain ⟨report, c₁, later, stepped, rest, rfl⟩ := cases_of_steps steps
    cases emits with
    | nil =>
      obtain ⟨rfl, rfl⟩ := Prod.mk.inj (Except.ok.inj (stepped.symm.trans stays))
      exact List.cons_prefix_cons.mpr ⟨rfl, ih (.nil _) (Nat.le_of_succ_le_succ le) rest⟩
    | cons step onward =>
      obtain ⟨rfl, rfl⟩ := Prod.mk.inj (Except.ok.inj (stepped.symm.trans step))
      exact List.cons_prefix_cons.mpr ⟨rfl, ih onward (by omega) rest⟩

end Course

variable {σ : Type} [ByteSource σ] {d : Delivery σ} {schema : Schema} {config : Config}
  {doc : Document} {source source' : σ} {r' : Reader} {seen : List Observation}

/-- A reader on the serialization of a well-formed document reports the tags of the document, in
their order, and then the end of the stream, with nothing but pauses in between, and no pauses if
the source has none. At no point is it stopped by a defect of the schema. -/
theorem reports_of_document (tabular : schema.Tabular)
    (valid : doc.Valid schema config.maxCapacity) (delimited : doc.Delimited schema false)
    (owes : d.Owes source doc.encode)
    (run : Run schema d.Keeps (.new config) source seen r' source')
    (granted : StorageGranted seen) :
    (withoutPauses seen).map (·.report) <+:
        (doc.emissions schema 0).map .tag ++ List.replicate seen.length .endOfStream ∧
      (d.Prompt → withoutPauses seen = seen) ∧
      ∀ source : σ, ∃ result, r'.next schema source = .ok result := by
  have pos := config.maxCapacity_pos
  have emits := Document.emits_at_end tabular pos none [] 0 valid delimited Document.ends_none
    Document.holds_nil
  obtain ⟨c, steps⟩ := run.steps_of_atStart (Reader.atStart_new config) owes granted
  have few : (withoutPauses seen).length ≤ seen.length := List.length_filter_le _ _
  simp only [Option.toList_none, List.nil_append, List.append_nil] at emits
  refine ⟨Course.reports_of_emits emits (Course.next_at_end pos _) few steps, ?_, ?_⟩
  · intro prompt
    exact run.withoutPauses_eq prompt owes.1
  · intro source
    exact tabular.exists_next r' source

/-- A header whose only leaf has a size field that is wider than it needs to be, and a segment of
unknown size that holds two clusters of unknown size: the second one ends the first, and the end of
the stream ends the others. -/
def twoClusters : Document :=
  .master ⟨⟨0x0A45DFA3, 4⟩, 1⟩ true (.leaf ⟨⟨0x0286, 2⟩, 2⟩ [1] .empty) <|
  .master ⟨⟨0x08538067, 4⟩, 1⟩ false
    (.master ⟨⟨0x0549A966, 4⟩, 1⟩ true (.leaf ⟨⟨0x0AD7B1, 3⟩, 1⟩ [0x0F, 0x42, 0x40] .empty) <|
    .master ⟨⟨0x0F43B675, 4⟩, 8⟩ false (.leaf ⟨⟨0x67, 1⟩, 1⟩ [5] .empty) <|
    .master ⟨⟨0x0F43B675, 4⟩, 1⟩ false (.leaf ⟨⟨0x23, 1⟩, 1⟩ [0x81, 0, 0, 0x80, 7] .empty) <|
    .empty) <|
  .empty

/-- What a reader with a small window shows of the two clusters, which arrive one byte at a time. -/
def twoClustersSeen : List Observation :=
  (Reader.new { minWindow := 1, maxWindow := 12 }).shown Matroska.schema
    (Script.dripping twoClusters.encode) 125

theorem reports_of_twoClusters :
    (withoutPauses twoClustersSeen).map (·.report) <+:
      (twoClusters.emissions Matroska.schema 0).map .tag ++
        List.replicate twoClustersSeen.length .endOfStream := by
  obtain ⟨r', source', run⟩ := Run.exists_shown Script.delivery.keeps_refl
    (.new { minWindow := 1, maxWindow := 12 }) Matroska.schema (.dripping twoClusters.encode) 125
  have owes : Script.delivery.Owes (.dripping twoClusters.encode) twoClusters.encode :=
    ⟨by change Script.IsPatient _; decide +kernel, by decide +kernel⟩
  exact (reports_of_document .matroska (by decide +kernel) (by decide +kernel) owes run
    (by decide +kernel)).1

end TagStream
