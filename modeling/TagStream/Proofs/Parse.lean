import TagStream.Proofs.Grammar
import TagStream.Proofs.Independence

/-!
Reading follows the grammar. Whatever containers are opened, displaced and closed on the way, the
tags that a reader begins elements with are the items that its bytes start with, as many as there
are, and the bytes after them decide how it ends (`begun_eq_items`). The course of a reader owes
what lies between: a tag that has been put off is an item that has been passed and not been given
yet.
-/

namespace TagStream

/-- The tag that a report begins an element with: any but a closing tag. -/
def Report.begun? : Report → Option Emission
  | .tag emission => if emission.tag.content = .master .closing then none else some emission
  | _ => none

/-- The opening tags and the tags of leaves, in the order in which they were seen. -/
def begun (seen : List Observation) : List Emission :=
  seen.filterMap fun o => o.report.begun?

/-- The last report that was seen. -/
def lastReport? (seen : List Observation) : Option Report :=
  seen.getLast?.map (·.report)

theorem begun_cons (o : Observation) (later : List Observation) :
    begun (o :: later) = o.report.begun?.toList ++ begun later := by
  cases report : o.report.begun? <;> simp [begun, report]

/-- Only the last of several reports is the last. -/
theorem lastReport?_cons {o : Observation} {later : List Observation}
    (ended : concluded later = true) : lastReport? (o :: later) = lastReport? later := by
  cases later with
  | nil => cases ended
  | cons o' later => rw [lastReport?, lastReport?, List.getLast?_cons_cons]

theorem begun_withoutPauses (seen : List Observation) :
    begun (withoutPauses seen) = begun seen := by
  induction seen with
  | nil => rfl
  | cons o later ih =>
    by_cases paused : o.report.isPause = true
    · have silent : o.report.begun? = none := by
        cases report : o.report <;> simp_all [Report.isPause, Report.begun?]
      rw [withoutPauses_cons_of_pause paused, begun_cons, silent]
      exact ih
    · rw [withoutPauses_cons_of_move (Bool.eq_false_iff.mpr paused), begun_cons, begun_cons, ih]

theorem lastReport?_withoutPauses {seen : List Observation} (ended : concluded seen = true) :
    lastReport? (withoutPauses seen) = lastReport? seen := by
  induction seen with
  | nil => rfl
  | cons o later ih =>
    unfold concluded at ended
    split at ended
    · next final =>
      rw [List.isEmpty_iff.mp ended, withoutPauses_cons_of_move (Report.isPause_of_isFinal final)]
      rfl
    · have same := ih ended
      have ended' := concluded_withoutPauses ended
      by_cases paused : o.report.isPause = true
      · rw [withoutPauses_cons_of_pause paused, lastReport?_cons ended]
        exact same
      · rw [withoutPauses_cons_of_move (Bool.eq_false_iff.mpr paused), lastReport?_cons ended,
          lastReport?_cons ended']
        exact same

/-! ### On a course -/

namespace Course

variable {schema : Schema} {limit : Nat}

/-- A course that has not stopped, and owes closing tags and perhaps one that begins an element. -/
structure Parsing (c : Course) : Prop where
  running : c.stopped = none
  deferred : ∀ e ∈ c.deferred, e.tag.content ≠ .master .closing
  containers : ∀ e ∈ c.containers, e.tag.content = .master .closing

theorem parsing_start (bytes : List UInt8) : ({ rest := bytes } : Course).Parsing := by
  constructor
  · rfl
  · intro e owed
    cases owed
  · intro e owed
    cases owed

/-- What a step of such a course comes to, if `stops` tells the bytes and faults at which a course
can stop. -/
inductive Parsed (schema : Schema) (limit : Nat) (stops : List UInt8 → Fault → Prop) (c : Course) :
    Report → Course → Prop where
  | moved {passed : List Emission} {emission : Emission} {c' : Course} : c'.Parsing →
      Items schema limit c.offset c.rest passed c'.offset c'.rest →
      c.deferred.toList ++ passed =
        (Report.tag emission).begun?.toList ++ c'.deferred.toList →
      Parsed schema limit stops c (.tag emission) c'
  | ended {c' : Course} : c.deferred = none → c.rest = [] →
      Parsed schema limit stops c .endOfStream c'
  | broken {fault : Fault} {c' : Course} : c.deferred = none → stops c.rest fault →
      Parsed schema limit stops c (.fault fault) c'

variable {stops : List UInt8 → Fault → Prop}

theorem begun?_of_ne {emission : Emission} (begins : emission.tag.content ≠ .master .closing) :
    (Report.tag emission).begun? = some emission :=
  if_neg begins

theorem begun?_of_eq {emission : Emission} (closes : emission.tag.content = .master .closing) :
    (Report.tag emission).begun? = none :=
  if_pos closes

/-- Placing an item gives it, or puts it off and gives a closing tag. -/
theorem parsed_of_place {c c' : Course} {id : ElementId} {emission : Emission}
    {closing : Option Emission} {offset' : Nat} {rest : List UInt8} {report : Report}
    (parsing : c.Parsing) (idle : c.deferred = none)
    (item : Item schema limit c.offset c.rest emission offset' rest)
    (begins : emission.tag.content ≠ .master .closing)
    (closes : ∀ e ∈ closing, e.tag.content = .master .closing)
    (h : ({ c with rest, offset := offset' } : Course).place schema id emission closing =
      (report, c')) : Parsed schema limit stops c report c' := by
  obtain ⟨rest₀, offset₀, deferred, containers, stopped⟩ := c
  obtain ⟨running, -, owed⟩ := parsing
  obtain rfl : deferred = none := idle
  have one : Items schema limit offset₀ rest₀ [emission] offset' rest := .cons item (.nil _ _)
  cases containers with
  | nil =>
    cases h
    refine .moved ⟨running, (by intro _ h; cases h), ?_⟩ one ?_
    · simpa using closes
    · simp [begun?_of_ne begins]
  | cons top outer =>
    obtain ⟨top_closes, outer_close⟩ := List.forall_mem_cons.mp owed
    unfold place at h
    simp only at h
    split at h
    · cases h
      refine .moved ⟨running, ?_, ?_⟩ one ?_
      · rintro e ⟨⟩
        exact begins
      · simp only [List.mem_append, Option.mem_toList]
        rintro e (mem | mem)
        · exact closes e mem
        · exact outer_close e mem
      · simp [begun?_of_eq top_closes]
    · cases h
      refine .moved ⟨running, (by intro _ h; cases h), ?_⟩ one ?_
      · simp only [List.mem_append, Option.mem_toList]
        rintro e (mem | mem)
        · exact closes e mem
        · exact owed e mem
      · simp [begun?_of_ne begins]

/-- A tag that is owed was put off, or closes a container. -/
theorem parsed_of_owed {c c' : Course} {emission : Emission} (parsing : c.Parsing)
    (h : c.owed? = some (emission, c')) : Parsed schema limit stops c (.tag emission) c' := by
  obtain ⟨rest, offset, deferred, containers, stopped⟩ := c
  obtain ⟨running, begins, owed⟩ := parsing
  have still : Items schema limit offset rest [] offset rest := .nil _ _
  cases deferred with
  | some e =>
    cases h
    refine .moved ⟨running, (by intro _ h; cases h), owed⟩ still ?_
    simp [begun?_of_ne (begins _ rfl)]
  | none =>
    cases containers with
    | nil => cases h
    | cons top outer =>
      obtain ⟨closes, outer_close⟩ := List.forall_mem_cons.mp owed
      unfold owed? at h
      simp only at h
      split at h
      · cases h
        refine .moved ⟨running, (by intro _ h; cases h), outer_close⟩ still ?_
        simp [begun?_of_eq closes]
      · cases h

/-- Where the stream is at its end, the innermost container is closed, or the reading is over. -/
theorem parsed_of_closeAtEnd {c c' : Course} {report : Report} (parsing : c.Parsing)
    (idle : c.deferred = none) (drained : c.rest = []) (h : c.closeAtEnd = (report, c')) :
    Parsed schema limit stops c report c' := by
  unfold closeAtEnd at h
  cases containers : c.containers with
  | nil =>
    simp only [containers] at h
    cases h
    exact .ended idle drained
  | cons top outer =>
    simp only [containers] at h
    cases h
    obtain ⟨closes, outer_close⟩ := List.forall_mem_cons.mp (containers ▸ parsing.containers)
    refine .moved ⟨parsing.running, parsing.deferred, outer_close⟩ (.nil _ _) ?_
    simp [begun?_of_eq closes]

/-- Every step of such a course gives the tag of an item, a closing tag, or a final report. -/
theorem parsed_of_next (tabular : schema.Tabular) (wide : Header.maxLength ≤ limit)
    {c c' : Course} {report : Report} (parsing : c.Parsing)
    (h : c.next schema limit = .ok (report, c')) :
    Parsed schema limit (fun rest fault => ∃ faultClass, Breaks schema limit rest faultClass fault)
      c report c' := by
  rcases owed_or_act_of_next parsing.running h with ⟨emission, owed, rfl⟩ | ⟨idle, acted⟩
  · exact parsed_of_owed parsing owed
  · by_cases drained : c.rest = []
    · have pos : 0 < limit := Nat.lt_of_lt_of_le (by decide) wide
      rw [drained, Schema.settle_nil pos] at acted
      exact parsed_of_closeAtEnd parsing idle drained (Except.ok.inj acted)
    · rcases item_or_breaks tabular limit c.offset drained
        with ⟨emission, offset', rest, item⟩ | ⟨faultClass, fault, breaks⟩
      · obtain ⟨id, closing, begins, closes, act⟩ := item.act tabular wide
        rw [act c rfl rfl] at acted
        exact parsed_of_place parsing idle item begins closes (Except.ok.inj acted)
      · obtain ⟨c₁, stopped⟩ := breaks.act wide (c := c) rfl
        rw [stopped] at acted
        cases acted
        exact .broken idle ⟨_, breaks⟩

/-- The tags that begin elements, over several steps of such a course that end with the first final
report, are those of items that the bytes start with. -/
theorem begun_of_parsed {count : Nat} {c c' : Course} {seen : List Observation}
    (step : ∀ {c c' : Course} {report : Report}, c.Parsing →
      c.next schema limit = .ok (report, c') → Parsed schema limit stops c report c')
    (parsing : c.Parsing) (steps : c.steps schema limit count = .ok (seen, c'))
    (ended : concluded seen = true) :
    ∃ items offset rest, Items schema limit c.offset c.rest items offset rest ∧
      begun seen = c.deferred.toList ++ items ∧
      (rest = [] ∧ lastReport? seen = some .endOfStream ∨
        ∃ fault, stops rest fault ∧ lastReport? seen = some (.fault fault)) := by
  induction count generalizing c seen with
  | zero =>
    cases steps
    cases ended
  | succ count ih =>
    obtain ⟨report, c₁, later, stepped, rest, rfl⟩ := cases_of_steps steps
    cases step parsing stepped with
    | @moved passed emission _ parsing' items balance =>
      obtain ⟨items', offset, rest', more, same, last⟩ := ih parsing' rest ended
      obtain ended : concluded later = true := ended
      refine ⟨_, offset, rest', items.trans more, ?_, ?_⟩
      · rw [begun_cons, same, ← List.append_assoc, ← List.append_assoc, balance]
        rfl
      · rw [lastReport?_cons ended]
        exact last
    | ended idle drained =>
      obtain rfl : later = [] := List.isEmpty_iff.mp ended
      refine ⟨[], c.offset, [], ?_, ?_, .inl ⟨rfl, rfl⟩⟩
      · rw [drained]
        exact .nil _ _
      · rw [idle]
        rfl
    | broken idle stopped =>
      obtain rfl : later = [] := List.isEmpty_iff.mp ended
      refine ⟨[], _, _, .nil _ _, ?_, .inr ⟨_, stopped, rfl⟩⟩
      rw [idle]
      rfl

/-- Where the limit admits every header, the bytes after those items decide how the steps end. -/
theorem begun_of_steps (tabular : schema.Tabular) (wide : Header.maxLength ≤ limit) {count : Nat}
    {c c' : Course} {seen : List Observation} (parsing : c.Parsing)
    (steps : c.steps schema limit count = .ok (seen, c')) (ended : concluded seen = true) :
    ∃ items offset rest, Items schema limit c.offset c.rest items offset rest ∧
      begun seen = c.deferred.toList ++ items ∧
      (rest = [] ∧ lastReport? seen = some .endOfStream ∨
        ∃ faultClass fault, Breaks schema limit rest faultClass fault ∧
          lastReport? seen = some (.fault fault)) := by
  obtain ⟨items, offset, rest, parsed, same, last⟩ :=
    begun_of_parsed (parsed_of_next tabular wide) parsing steps ended
  refine ⟨items, offset, rest, parsed, same, ?_⟩
  rcases last with drained | ⟨fault, ⟨faultClass, breaks⟩, stopped⟩
  · exact .inl drained
  · exact .inr ⟨faultClass, fault, breaks, stopped⟩

end Course

/-! ### On a run -/

variable {σ : Type} [ByteSource σ] {d : Delivery σ} {schema : Schema} {bytes : List UInt8}
  {r r' : Reader} {source source' : σ} {seen : List Observation}

/-- The tags that a reader begins elements with, up to its first final report, are those of the
longest string of items that its bytes start with. It comes to the end of the stream if that is all
of them, and otherwise to the one fault that the bytes after it break with. -/
theorem begun_eq_items (tabular : schema.Tabular) (start : r.AtStart)
    (wide : Header.maxLength ≤ r.window.maxCapacity) (owes : d.Owes source bytes)
    (run : Run schema d.Keeps r source seen r' source') (granted : StorageGranted seen)
    (ended : concluded seen = true) :
    ∃ items offset rest, Items schema r.window.maxCapacity 0 bytes items offset rest ∧
      (∀ items' offset' rest', Items schema r.window.maxCapacity 0 bytes items' offset' rest' →
        items' <+: items) ∧
      begun seen = items ∧
      (lastReport? seen = some .endOfStream ↔ rest = []) ∧
      (rest ≠ [] → ∃ faultClass fault,
        Breaks schema r.window.maxCapacity rest faultClass fault ∧
          fault.faultClass = faultClass ∧ lastReport? seen = some (.fault fault) ∧
          ∀ other cause, Breaks schema r.window.maxCapacity rest other cause →
            other = faultClass ∧ cause = fault) := by
  obtain ⟨c, steps⟩ := run.steps_of_atStart start owes granted
  have parsing := Course.parsing_start bytes
  obtain ⟨items, offset, rest, parsed, begins, last⟩ :=
    Course.begun_of_steps tabular wide parsing steps (concluded_withoutPauses ended)
  rw [begun_withoutPauses] at begins
  rw [lastReport?_withoutPauses ended] at last
  refine ⟨items, offset, rest, parsed, ?_, begins, ?_, ?_⟩
  · intro items' offset' rest' other
    refine parsed.isPrefix_of_stuck tabular wide ?_ other
    intro emission offset'' rest'' item
    rcases last with ⟨rfl, -⟩ | ⟨faultClass, fault, breaks, -⟩
    · exact item.ne_nil tabular wide rfl
    · exact item.not_breaks tabular wide breaks
  · rcases last with ⟨drained, ended⟩ | ⟨faultClass, fault, breaks, stopped⟩
    · simp [ended, drained]
    · simp [stopped, breaks.ne_nil wide]
  · intro more
    rcases last with ⟨drained, -⟩ | ⟨faultClass, fault, breaks, stopped⟩
    · exact absurd drained more
    · exact ⟨faultClass, fault, breaks, breaks.faultClass_eq, stopped,
        fun _ _ breaks' => breaks'.unique wide breaks⟩

/-- A segment with two clusters, the second of which has a timestamp of nine bytes. -/
def longTimestampBytes : List UInt8 :=
  clusterBytes ++ [0x1F, 0x43, 0xB6, 0x75, 0xFF, 0xE7, 0x89, 0, 0, 0, 0, 0, 0, 0, 0, 5]

theorem begun_eq_items_longTimestamp :
    ∃ items offset rest, Items Matroska.schema 16 0 longTimestampBytes items offset rest ∧
      begun ((Reader.new { minWindow := 1, maxWindow := 16 }).shown Matroska.schema
        (File.readable longTimestampBytes.toArray 0) 9) = items ∧
      ∃ fault, Breaks Matroska.schema 16 rest .corruptedTagData fault := by
  obtain ⟨r', source', run⟩ := Run.exists_shown File.delivery.keeps_refl
    (.new { minWindow := 1, maxWindow := 16 }) Matroska.schema
    (.readable longTimestampBytes.toArray 0) 9
  have owes : File.delivery.Owes (.readable longTimestampBytes.toArray 0) longTimestampBytes :=
    ⟨rfl, rfl⟩
  have ended : concluded ((Reader.new { minWindow := 1, maxWindow := 16 }).shown Matroska.schema
      (File.readable longTimestampBytes.toArray 0) 9) = true := by
    decide +kernel
  have last : lastReport? ((Reader.new { minWindow := 1, maxWindow := 16 }).shown Matroska.schema
      (File.readable longTimestampBytes.toArray 0) 9) =
        some (.fault (.payload 0xE7 .integerTooLong [0, 0, 0, 0, 0, 0, 0, 0, 5])) := by
    decide +kernel
  obtain ⟨items, offset, rest, parsed, -, begins, ends, broken⟩ :=
    begun_eq_items .matroska (Reader.atStart_new { minWindow := 1, maxWindow := 16 }) (by decide)
      owes run (by decide +kernel) ended
  refine ⟨items, offset, rest, parsed, begins, ?_⟩
  obtain ⟨faultClass, fault, breaks, rfl, stopped, -⟩ := broken (by
    intro drained
    have ended := ends.mpr drained
    rw [last] at ended
    cases ended)
  rw [last] at stopped
  cases stopped
  exact ⟨_, breaks⟩

end TagStream
