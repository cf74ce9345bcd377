import TagStream.Proofs.Provision
import TagStream.Proofs.Turn

/-!
What a reader counts and notes. Each step is worth an incident or none, and its report tells which,
with the offsets before and after it (`Report.incident?`): a container is closed by a tag that may
not stand in it, a container is left open by the source, or a fault arises. Counts and journal are
kept at separate places of a step; both come to the incidents, one by one (`Reader.Recorded`), and
so do those of a run (`tallied_of_run`). What is kept in the journal is noticed by nothing else
(`Reader.interleave_mute`).
-/

namespace TagStream

/-! ### Tags that begin an element -/

theorem Schema.Truthful.begins_opening {schema : Schema} (truthful : schema.Truthful)
    {id : ElementId} {tag : Tag} (opened : schema.tagOf id (.master .opening) = .ok tag)
    (position : Position) : Emission.isClosing ⟨tag, position⟩ = false := by
  rw [Emission.isClosing, (truthful.half opened).2]
  rfl

theorem Schema.Truthful.begins_leaf {schema : Schema} (truthful : schema.Truthful)
    {id : ElementId} {kind : Kind} {payload : List UInt8} {tag : Tag}
    (read : schema.tagOfPayload id kind payload = .ok (.ok tag)) (position : Position) :
    Emission.isClosing ⟨tag, position⟩ = false :=
  beq_eq_false_iff_ne.mpr (Tag.content_ne_master (truthful.of_payload read).2 .closing)

/-! ### Incidents -/

/-- What is worth counting or noting. -/
inductive Incident where
  | closedByTag
  | closedByEnd
  | stopped
  deriving DecidableEq, Repr

def Event.incident : Event → Incident
  | .closedByTag .. => .closedByTag
  | .closedByEnd .. => .closedByEnd
  | .stopped .. => .stopped

/-- The incident that a step tells of, by its report and the offsets before and after it. Where the
closing tag of a container of unknown size is given, the reader has gone past the tag that closes
the container, or else the source has ended. A container of known size is left open if it is not
complete. A fault that is repeated is none. -/
def Report.incident? (report : Report) (before after : Nat) : Option Incident :=
  match report with
  | .tag e =>
    if e.isClosing then
      match e.position.size with
      | .unknown => if before < after then some .closedByTag else some .closedByEnd
      | .known length => if after < e.position.dataOffset + length then some .closedByEnd else none
    else none
  | .fault (.repeated _) | .endOfStream | .needMoreData _ => none
  | .fault _ => some .stopped

/-- The counts after a report, with the incident that it tells of. -/
def Tally.record (t : Tally) (report : Report) (incident : Option Incident) : Tally where
  tags := t.tags + if report.isTag then 1 else 0
  closedByTag := t.closedByTag + incident.toList.count .closedByTag
  closedByEnd := t.closedByEnd + incident.toList.count .closedByEnd

namespace Reader

/-- What there is to note of the incident, for a reader after the step. -/
def event? (r : Reader) (before : Nat) (report : Report) : Option Event :=
  match report.incident? before r.offset, report with
  | some .closedByTag, .tag k =>
    r.deferred.map fun e => .closedByTag e.tag.id e.position.offset k.tag.id
  | some .closedByEnd, .tag k => some (.closedByEnd r.offset (r.depth + 1) k.tag.id)
  | some .stopped, .fault fault => some (.stopped fault r.offset)
  | _, _ => none

theorem event?_of_closedByTag {r : Reader} {before : Nat} {k e : Emission}
    (incident : (Report.tag k).incident? before r.offset = some .closedByTag)
    (deferred : r.deferred = some e) :
    r.event? before (.tag k) = some (.closedByTag e.tag.id e.position.offset k.tag.id) := by
  simp only [event?, incident, deferred, Option.map_some]

theorem event?_of_closedByEnd {r : Reader} {before : Nat} {k : Emission}
    (incident : (Report.tag k).incident? before r.offset = some .closedByEnd) :
    r.event? before (.tag k) = some (.closedByEnd r.offset (r.depth + 1) k.tag.id) := by
  simp only [event?, incident]

theorem event?_of_stopped {r : Reader} {before : Nat} {fault : Fault}
    (incident : (Report.fault fault).incident? before r.offset = some .stopped) :
    r.event? before (.fault fault) = some (.stopped fault r.offset) := by
  simp only [event?, incident]

/-- Counts and journal of `q` have been brought up to date with a step that gave this report, begun
at the offset `before`. -/
structure Recorded (q : Reader) (before : Nat) (given : Report × Reader) : Prop where
  counted : given.2.tally = q.tally.record given.1 (given.1.incident? before given.2.offset)
  noted : given.2.journal = (given.2.event? before given.1).toList.foldl Journal.note q.journal
  told : (given.2.event? before given.1).map Event.incident =
    given.1.incident? before given.2.offset
  halts : given.1.incident? before given.2.offset = some .stopped → given.2.stopped ≠ none

/-- All tags on the stack are closing tags, and a tag that was put off is none. -/
structure ClosingsStacked (r : Reader) : Prop where
  closings : r.OwesClosings
  deferred : ∀ e ∈ r.deferred, e.isClosing = false

theorem AtStart.closingsStacked {r : Reader} (start : r.AtStart) : r.ClosingsStacked := by
  refine ⟨start.owesClosings, ?_⟩
  rw [start.deferred]
  intro e mem
  cases mem

section Recording

variable {schema : Schema} {q r : Reader} {before : Nat} {report : Report}

/-- Where there is no incident, nothing is noted. -/
theorem recorded_of_quiet (quiet : report.incident? before r.offset = none)
    (tally : r.tally = q.tally.record report none) (journal : r.journal = q.journal) :
    Recorded q before (report, r) := by
  have unnoted : r.event? before report = none := by
    unfold event?
    rw [quiet]
  constructor
  · rw [quiet]
    exact tally
  · rw [unnoted]
    exact journal
  · rw [unnoted, quiet]
    rfl
  · intro stops
    rw [quiet] at stops
    cases stops

theorem recorded_of_event {event : Event} (there : r.event? before report = some event)
    (incident : report.incident? before r.offset = some event.incident)
    (tally : r.tally = q.tally.record report (some event.incident))
    (journal : r.journal = q.journal.note event)
    (halts : event.incident = .stopped → r.stopped ≠ none) : Recorded q before (report, r) := by
  constructor
  · rw [incident]
    exact tally
  · rw [there]
    exact journal
  · rw [there, incident]
    rfl
  · intro stops
    rw [incident] at stops
    exact halts (Option.some.inj stops)

/-- A tag that begins an element tells of nothing. -/
theorem recorded_of_begins {e : Emission} (begins : e.isClosing = false)
    (tally : r.tally = q.tally.record (.tag e) none) (journal : r.journal = q.journal) :
    Recorded q before (.tag e, r) := by
  refine recorded_of_quiet ?_ tally journal
  simp [Report.incident?, begins]

/-- A fault that is not repeated is counted nowhere, and is noted. -/
theorem recorded_stop {fault : Fault} (fresh : ∀ faultClass, fault ≠ .repeated faultClass) :
    Recorded q before (q.stop fault) := by
  have incident : (q.stop fault).1.incident? before (q.stop fault).2.offset = some .stopped := by
    cases fault with
    | repeated faultClass => exact absurd rfl (fresh faultClass)
    | _ => rfl
  exact recorded_of_event (event?_of_stopped incident) incident rfl rfl fun _ h => by cases h

/-- The container that is closed when the source ends is not complete. -/
theorem recorded_closeAtEnd (stacked : q.ClosingsStacked) (owed : q.owed? = none) :
    Recorded q q.offset q.closeAtEnd := by
  obtain ⟨-, incomplete⟩ := owed?_eq_none_iff.mp owed
  unfold closeAtEnd
  split
  · exact recorded_of_quiet rfl rfl rfl
  · next k outer stack =>
    have closes : k.isClosing = true :=
      beq_iff_eq.mpr (stacked.closings k (stack ▸ List.mem_cons_self))
    have incident : (Report.tag k).incident? q.offset q.offset = some .closedByEnd := by
      have lacking := incomplete k (by rw [stack]; rfl)
      simp only [Report.incident?, if_pos closes]
      cases size : k.position.size with
      | unknown => exact if_neg (Nat.lt_irrefl _)
      | known length =>
        rw [isComplete, size, decide_eq_false_iff_not] at lacking
        exact if_pos (Nat.lt_of_not_le lacking)
    refine recorded_of_event (event?_of_closedByEnd incident) incident rfl ?_ (by intro h; cases h)
    rw [depth, stack]
    rfl

/-- A lack of bytes comes to a pause, a container that is closed, or a fault. -/
theorem recorded_fallShort (stacked : q.ClosingsStacked) (owed : q.owed? = none) (lack : Lack) :
    Recorded q q.offset (q.fallShort lack) := by
  unfold fallShort
  split
  · exact recorded_of_quiet rfl rfl rfl
  · exact recorded_closeAtEnd stacked owed
  all_goals exact recorded_stop (by intro _ h; cases h)

/-- A tag that is placed tells of nothing, unless it displaces a container. -/
theorem recorded_place (stacked : q.ClosingsStacked) (moved : before < q.offset)
    {emission : Emission} {closing : Option Emission} (begins : emission.isClosing = false) :
    Recorded q before (q.place schema emission.tag.id emission closing) := by
  unfold place
  split
  · next k outer stack =>
    split
    · next displaced =>
      have closes : k.isClosing = true :=
        beq_iff_eq.mpr (stacked.closings k (stack ▸ List.mem_cons_self))
      have unknown : k.position.size = .unknown := by
        cases size : k.position.size with
        | unknown => rfl
        | known length => simp [displaces, size, Size.isKnown] at displaced
      have incident : (Report.tag k).incident? before q.offset = some .closedByTag := by
        simp only [Report.incident?, if_pos closes, unknown, if_pos moved]
      exact recorded_of_event (event?_of_closedByTag incident rfl) incident rfl rfl
        (by intro h; cases h)
    · exact recorded_of_begins begins rfl rfl
  · exact recorded_of_begins begins rfl rfl

/-- Giving a tag that is owed tells of nothing: it was put off, or its container is complete. -/
theorem recorded_owed (stacked : q.ClosingsStacked) {emission : Emission} {q' : Reader}
    (owed : q.owed? = some (emission, q')) : Recorded q q.offset (q'.emit emission) := by
  unfold owed? at owed
  split at owed
  · next deferred =>
    cases owed
    exact recorded_of_begins (stacked.deferred _ deferred) rfl rfl
  · cases owed
  · next k outer _ stack =>
    split at owed
    · next complete =>
      cases owed
      refine recorded_of_quiet ?_ rfl rfl
      have closes : emission.isClosing = true :=
        beq_iff_eq.mpr (stacked.closings emission (stack ▸ List.mem_cons_self))
      simp only [Report.incident?, if_pos closes]
      cases size : emission.position.size with
      | unknown => simp [isComplete, size] at complete
      | known length =>
        rw [isComplete, size, decide_eq_true_iff] at complete
        exact if_neg (Nat.not_lt.mpr complete)
    · cases owed

theorem Recorded.of_same {given : Report × Reader} (recorded : Recorded q before given)
    (tally : r.tally = q.tally) (journal : r.journal = q.journal) : Recorded r before given := by
  constructor
  · rw [tally]
    exact recorded.counted
  · rw [journal]
    exact recorded.noted
  · exact recorded.told
  · exact recorded.halts

/-! ### What a reader keeps in order -/

theorem ClosingsStacked.place (stacked : q.ClosingsStacked) {id : ElementId} {emission : Emission}
    {closing : Option Emission} (begins : emission.isClosing = false)
    (closes : ∀ k ∈ closing, k.tag.content = .master .closing) :
    (q.place schema id emission closing).2.ClosingsStacked := by
  constructor
  · intro k mem
    rcases mem_containers_of_place mem with mem | mem
    · exact closes k mem
    · exact stacked.closings k mem
  · intro e deferred
    unfold Reader.place at deferred
    split at deferred
    · split at deferred
      · cases deferred
        exact begins
      · exact stacked.deferred e deferred
    · exact stacked.deferred e deferred

theorem ClosingsStacked.owed (stacked : q.ClosingsStacked) {emission : Emission} {q' : Reader}
    (owed : q.owed? = some (emission, q')) : q'.ClosingsStacked := by
  constructor
  · intro k mem
    exact stacked.closings k (mem_containers_of_owed owed mem)
  · intro e deferred
    unfold owed? at owed
    split at owed
    · cases owed
      cases deferred
    · cases owed
    · split at owed
      · cases owed
        exact stacked.deferred e deferred
      · cases owed

theorem ClosingsStacked.fallShort (stacked : q.ClosingsStacked) (lack : Lack) :
    (q.fallShort lack).2.ClosingsStacked := by
  constructor
  · intro k mem
    exact stacked.closings k (mem_containers_of_fallShort lack mem)
  · intro e deferred
    refine stacked.deferred e ?_
    unfold Reader.fallShort at deferred
    split at deferred
    · exact deferred
    · unfold closeAtEnd at deferred
      split at deferred <;> exact deferred
    all_goals exact deferred

end Recording

/-! ### Steps -/

variable {σ : Type} [ByteSource σ] {schema : Schema}

/-- Acting on what has been gathered brings counts and journal up to date. -/
theorem ClosingsStacked.acted (truthful : schema.Truthful) {r : Reader} {source source' : σ}
    {settled : Except Lack Verdict} {window : Window} {given : Report × Reader}
    (stacked : r.ClosingsStacked) (owed : r.owed? = none)
    (gathered : r.window.gather schema source = (settled, window, source'))
    (acted : Acted schema { r with window } settled given) :
    given.2.ClosingsStacked ∧ Recorded r r.offset given := by
  have same : window.offset = r.offset := Window.offset_of_gather gathered
  have stacked' : ClosingsStacked { r with window } := ⟨stacked.closings, stacked.deferred⟩
  cases acted with
  | @enter header closing opening closed opened =>
    obtain ⟨enough, positive⟩ := Window.measured_of_gather gathered _ rfl
    obtain ⟨-, closes⟩ := truthful.half closed
    obtain ⟨named, -⟩ := truthful.half opened
    have begins := truthful.begins_opening opened
    have moved : r.offset < offset (consume { r with window } header.length) := by
      have moved := @offset_consume { r with window } header.length enough
      rw [moved, ← same]
      exact Nat.lt_add_of_pos_right positive
    have consumed : ClosingsStacked (consume { r with window } header.length) :=
      ⟨stacked.closings, stacked.deferred⟩
    rw [← named]
    refine ⟨consumed.place (begins _) ?_,
      (recorded_place consumed moved (begins _)).of_same rfl rfl⟩
    rintro k ⟨⟩
    exact closes
  | @leaf header length tag read =>
    obtain ⟨enough, positive, -⟩ := Window.measured_of_gather gathered _ rfl
    obtain ⟨named, -⟩ := truthful.of_payload read
    have begins := truthful.begins_leaf read
    have moved :
        r.offset < offset ((consume { r with window } header.length).consume length) := by
      have moved := @offset_consume_consume { r with window } header.length length enough
      rw [moved, ← same]
      exact Nat.lt_add_right _ (Nat.lt_add_of_pos_right positive)
    have consumed : ClosingsStacked ((consume { r with window } header.length).consume length) :=
      ⟨stacked.closings, stacked.deferred⟩
    rw [← named]
    exact ⟨consumed.place (begins _) (by intro _ h; cases h),
      (recorded_place consumed moved (begins _)).of_same rfl rfl⟩
  | malformed =>
    exact ⟨⟨stacked.closings, stacked.deferred⟩,
      (recorded_stop (by intro _ h; cases h)).of_same rfl rfl⟩
  | refuse fault =>
    refine ⟨⟨stacked.closings, stacked.deferred⟩, (recorded_stop ?_).of_same rfl rfl⟩
    have demanded := Window.demand_of_gather gathered
    rw [Window.demand_eq_demandOf, Schema.demandOf_eq_iff] at demanded
    cases demanded <;> (intro _ h; cases h)
  | fallShort lack =>
    refine ⟨stacked'.fallShort lack, ?_⟩
    have recorded := recorded_fallShort stacked' (owed?_eq_none_of_offset owed same) lack
    rw [show offset { r with window } = r.offset from same] at recorded
    exact recorded.of_same rfl rfl

/-- Each step brings counts and journal up to date. -/
theorem ClosingsStacked.next (truthful : schema.Truthful) {r r' : Reader} {source source' : σ}
    {report : Report} (stacked : r.ClosingsStacked)
    (h : r.next schema source = .ok (report, r', source')) :
    r'.ClosingsStacked ∧ Recorded r r.offset (report, r') := by
  cases stepped_of_next h with
  | repeated => exact ⟨stacked, recorded_of_quiet rfl rfl rfl⟩
  | owed _ owed =>
    have left := stacked.owed owed
    exact ⟨⟨left.closings, left.deferred⟩, recorded_owed stacked owed⟩
  | acted _ owed gathered acted => exact stacked.acted truthful owed gathered (acted_of_act acted)

end Reader

/-! ### Runs -/

/-- The incidents that the reports of a run tell of, which has begun at this offset. -/
def incidents (before : Nat) : List (Report × Reader) → List Incident
  | [] => []
  | (report, r) :: later => (report.incident? before r.offset).toList ++ incidents r.offset later

/-- What there is to note of a run, which has begun at this offset. -/
def events (before : Nat) : List (Report × Reader) → List Event
  | [] => []
  | (report, r) :: later => (r.event? before report).toList ++ events r.offset later

/-- Faults that are repeated are no incidents. -/
theorem incidents_repeated {α : Type} (faultClass : FaultClass) (r : Reader) (before : Nat)
    (changes : List α) :
    incidents before (changes.map fun _ => (.fault (.repeated faultClass), r)) = [] := by
  induction changes generalizing before with
  | nil => rfl
  | cons change changes ih => exact ih r.offset

/-- A journal keeps what is severe enough, in the order in which it is noted. -/
theorem Journal.events_foldl_note (j : Journal) (noted : List Event) :
    (noted.foldl Journal.note j).events.toList =
      j.events.toList ++ noted.filter (fun event => j.keeps event.severity) := by
  induction noted generalizing j with
  | nil => exact (List.append_nil _).symm
  | cons event later ih =>
    have same (severity : Severity) : (j.note event).keeps severity = j.keeps severity := by
      rw [keeps, Reader.threshold_note, keeps]
    rw [List.foldl_cons, ih]
    simp only [same]
    unfold note
    cases kept : j.keeps event.severity with
    | true =>
      rw [List.filter_cons_of_pos (by exact kept), if_pos rfl, Array.toList_push,
        List.append_assoc]
      rfl
    | false =>
      rw [List.filter_cons_of_neg (by rw [kept]; intro h; cases h), if_neg (by intro h; cases h)]

namespace Reader

variable {σ : Type} [ByteSource σ] {schema : Schema}

/-- What a run counts and notes are its incidents. -/
theorem ClosingsStacked.interleave (truthful : schema.Truthful) {r r' : Reader} {source source' : σ}
    {changes : List (σ → σ)} {given : List (Report × Reader)} (stacked : r.ClosingsStacked)
    (h : r.interleave schema source changes = .ok (given, r', source')) :
    r'.tally.tags = r.tally.tags + given.countP (·.1.isTag) ∧
      r'.tally.closedByTag =
        r.tally.closedByTag + (incidents r.offset given).count .closedByTag ∧
      r'.tally.closedByEnd =
        r.tally.closedByEnd + (incidents r.offset given).count .closedByEnd ∧
      r'.journal = (events r.offset given).foldl Journal.note r.journal ∧
      (events r.offset given).map Event.incident = incidents r.offset given ∧
      (incidents r.offset given).count .stopped ≤ 1 := by
  induction changes generalizing r source given with
  | nil =>
    cases h
    exact ⟨rfl, rfl, rfl, rfl, rfl, Nat.zero_le _⟩
  | cons change changes ih =>
    obtain ⟨report, r₁, source₁, later, stepped, rest, rfl⟩ := cases_of_interleave h
    obtain ⟨stacked', recorded⟩ := stacked.next truthful stepped
    obtain ⟨tags, byTag, byEnd, noted, told, once⟩ := ih stacked' rest
    refine ⟨?_, ?_, ?_, ?_, ?_, ?_⟩
    · rw [tags, recorded.counted, List.countP_cons, Tally.record, Nat.add_assoc]
      exact congrArg _ (Nat.add_comm _ _)
    · rw [byTag, recorded.counted, incidents, List.count_append]
      exact Nat.add_assoc _ _ _
    · rw [byEnd, recorded.counted, incidents, List.count_append]
      exact Nat.add_assoc _ _ _
    · rw [noted, recorded.noted, events, List.foldl_append]
    · rw [events, incidents, List.map_append, told, ← recorded.told, Option.toList_map]
    · rw [incidents, List.count_append]
      by_cases stops : report.incident? r.offset r₁.offset = some .stopped
      · -- Nothing but repetitions follows.
        obtain ⟨faultClass, stopped⟩ := Option.ne_none_iff_exists'.mp (recorded.halts stops)
        rw [interleave_of_stopped stopped] at rest
        cases rest
        rw [stops, incidents_repeated]
        exact Nat.le_refl _
      · have unstopped : (report.incident? r.offset r₁.offset).toList.count .stopped = 0 := by
          rw [List.count_eq_zero, Option.mem_toList]
          exact stops
        rw [unstopped, Nat.zero_add]
        exact once

/-! ### Readers that leave no journal -/

/-- A reader that leaves no journal. -/
def mute (r : Reader) : Reader :=
  { r with journal := { threshold := none } }

theorem owed?_mute (r : Reader) :
    r.mute.owed? = r.owed?.map fun owed => (owed.1, owed.2.mute) := by
  unfold owed?
  rw [show r.mute.deferred = r.deferred from rfl, show r.mute.containers = r.containers from rfl]
  split
  · rfl
  · rfl
  · simp only [show r.mute.offset = r.offset from rfl]
    split <;> rfl

theorem place_mute (r : Reader) (element : ElementId) (emission : Emission)
    (closing : Option Emission) :
    r.mute.place schema element emission closing =
      (r.place schema element emission closing).map id mute := by
  unfold place
  rw [show r.mute.containers = r.containers from rfl]
  split
  · split <;> rfl
  · rfl

theorem fallShort_mute (r : Reader) (lack : Lack) :
    r.mute.fallShort lack = (r.fallShort lack).map id mute := by
  unfold fallShort
  split
  · rfl
  · unfold closeAtEnd
    rw [show r.mute.containers = r.containers from rfl]
    split <;> rfl
  all_goals rfl

theorem act_mute (r : Reader) (settled : Except Lack Verdict) :
    act r.mute schema settled = (act r schema settled).map (Prod.map id mute) := by
  cases settled with
  | error lack => exact congrArg Except.ok (r.fallShort_mute lack)
  | ok verdict =>
    cases verdict with
    | refuse fault => rfl
    | enter header =>
      simp only [act, enter, bind, Except.bind]
      cases schema.tagOf header.id (.master .closing) with
      | error defect => rfl
      | ok closing =>
        cases schema.tagOf header.id (.master .opening) with
        | error defect => rfl
        | ok opening => exact congrArg Except.ok ((r.consume header.length).place_mute _ _ _)
    | read header length =>
      simp only [act, readLeaf, bind, Except.bind]
      rw [show (r.mute.consume header.length).window = (r.consume header.length).window from rfl]
      cases schema.tagOfPayload header.id (schema.kindOf header.id)
          ((r.consume header.length).window.front length) with
      | error defect => rfl
      | ok read =>
        cases read with
        | error malformed => rfl
        | ok tag =>
          exact congrArg Except.ok
            (((r.consume header.length).consume length).place_mute _ _ _)

/-- A step is the same without a journal. -/
theorem next_mute (r : Reader) (source : σ) :
    r.mute.next schema source =
      (r.next schema source).map fun given => (given.1, given.2.1.mute, given.2.2) := by
  unfold next
  rw [show r.mute.stopped = r.stopped from rfl, owed?_mute]
  split
  · rfl
  · cases r.owed? with
    | some owed => rfl
    | none =>
      simp only [Option.map_none, show r.mute.window = r.window from rfl]
      generalize r.window.gather schema source = gathered
      obtain ⟨settled, window, source'⟩ := gathered
      change (act (mute { r with window }) schema settled).map _ = _
      rw [act_mute]
      cases act { r with window } schema settled <;> rfl

/-- A report, and the reader after it but for its journal. -/
def unheard (shown : Report × Reader) : Report × Reader :=
  (shown.1, shown.2.mute)

/-- Steps are the same without a journal. -/
theorem interleave_mute (r : Reader) (source : σ) (changes : List (σ → σ)) :
    r.mute.interleave schema source changes =
      (r.interleave schema source changes).map fun given =>
        (given.1.map unheard, given.2.1.mute, given.2.2) := by
  induction changes generalizing r source with
  | nil => rfl
  | cons change changes ih =>
    have muted : r.mute.next schema (change source) = _ := r.next_mute _
    cases stepped : r.next schema (change source) with
    | error defect =>
      rw [stepped] at muted
      simp only [interleave, muted, stepped, Except.map, bind, Except.bind]
    | ok result =>
      obtain ⟨report, r₁, source₁⟩ := result
      rw [stepped] at muted
      rw [interleave_cons stepped, interleave_cons muted, ih]
      cases r₁.interleave schema source₁ changes <;> rfl

end Reader

variable {σ : Type} [ByteSource σ] {schema : Schema} {r r' : Reader} {source source' : σ}
  {changes : List (σ → σ)} {given : List (Report × Reader)}

/-- Over every run from the start of a stream, the counts are those of the tags and of the incidents
that the reports tell of. Each incident has its event, a fault that stops the reader but one, and
the journal has kept those that are severe enough. A reader with another journal gives and counts
the same. -/
theorem tallied_of_run (truthful : schema.Truthful) (start : r.AtStart) (uncounted : r.tally = {})
    (h : r.interleave schema source changes = .ok (given, r', source')) :
    r'.tally = ⟨given.countP (·.1.isTag), (incidents r.offset given).count .closedByTag,
        (incidents r.offset given).count .closedByEnd⟩ ∧
      (events r.offset given).map Event.incident = incidents r.offset given ∧
      (incidents r.offset given).count .stopped ≤ 1 ∧
      r'.journal.events.toList = r.journal.events.toList ++
        (events r.offset given).filter (fun event => r.journal.keeps event.severity) ∧
      ∀ q : Reader, q.mute = r.mute → ∃ given₁ q',
        q.interleave schema source changes = .ok (given₁, q', source') ∧ q'.mute = r'.mute ∧
          given₁.map Reader.unheard = given.map Reader.unheard := by
  obtain ⟨tags, byTag, byEnd, noted, told, once⟩ := start.closingsStacked.interleave truthful h
  rw [uncounted] at tags byTag byEnd
  refine ⟨?_, told, once, ?_, ?_⟩
  · have counts (t : Tally) : t = ⟨t.tags, t.closedByTag, t.closedByEnd⟩ := rfl
    rw [counts r'.tally, tags, byTag, byEnd]
    simp only [Nat.zero_add]
  · rw [noted]
    exact Journal.events_foldl_note _ _
  · intro q same
    have muted : r.mute.interleave schema source changes = _ := r.interleave_mute _ _
    rw [h, ← same, q.interleave_mute] at muted
    cases run : q.interleave schema source changes with
    | error defect =>
      rw [run] at muted
      cases muted
    | ok result =>
      obtain ⟨given₁, q', source₁⟩ := result
      rw [run] at muted
      obtain ⟨reports, rest⟩ := Prod.mk.inj (Except.ok.inj muted)
      obtain ⟨left, rfl⟩ := Prod.mk.inj rest
      exact ⟨given₁, q', rfl, left, reports⟩

/-- A segment and a cluster, both of unknown size, and a second cluster, which ends the first and is
cut short by the end. There are two ends, and then a failure. -/
def unevenScript : Script where
  cues := [.data [0x18, 0x53, 0x80, 0x67, 0xFF, 0x1F, 0x43, 0xB6, 0x75, 0xFF, 0xE7, 0x81, 5,
    0x1F, 0x43, 0xB6, 0x75, 0x85, 0xE7, 0x81, 6], .silence .endOfData, .silence .endOfData,
    .silence .failed]
  last := .endOfData

def unevenRun : Except Defect (List (Report × Reader) × Reader × Script) :=
  (Reader.new { threshold := some Severity.warning.rank }).interleave Matroska.schema unevenScript
    (List.replicate 10 id)

/-- One container is closed by a tag and two by the end, and the failure is noted once. -/
theorem tallied_of_run_unevenScript :
    ∃ given r' source', unevenRun = .ok (given, r', source') ∧ r'.tally = ⟨8, 1, 2⟩ ∧
      r'.journal.events.toList =
        [.closedByEnd 21 2 Matroska.cluster, .closedByEnd 21 1 Matroska.segment,
          .stopped (.readFailed .start) 21] ∧
      ∃ given₁ q', (Reader.new {}).interleave Matroska.schema unevenScript (List.replicate 10 id) =
        .ok (given₁, q', source') ∧ q'.tally = ⟨8, 1, 2⟩ := by
  have told : unevenRun.toOption.map (fun run =>
      (run.1.countP (·.1.isTag), incidents 0 run.1, events 0 run.1)) =
      some (8, [.closedByTag, .closedByEnd, .closedByEnd, .stopped],
        [.closedByTag Matroska.cluster 13 Matroska.cluster, .closedByEnd 21 2 Matroska.cluster,
          .closedByEnd 21 1 Matroska.segment, .stopped (.readFailed .start) 21]) := by
    decide +kernel
  cases run : unevenRun with
  | error defect =>
    rw [run] at told
    cases told
  | ok result =>
    obtain ⟨given, r', source'⟩ := result
    rw [run] at told
    obtain ⟨tags, rest⟩ := Prod.mk.inj (Option.some.inj told)
    obtain ⟨happened, noted⟩ := Prod.mk.inj rest
    obtain ⟨tally, -, -, journal, unheard⟩ := tallied_of_run Schema.Tabular.matroska.truthful
      (Reader.atStart_new _) rfl run
    have begun (c : Config) : (Reader.new c).offset = 0 := rfl
    rw [begun] at tally journal
    have counts : r'.tally = ⟨8, 1, 2⟩ := by
      rw [tally, tags, happened]
      rfl
    obtain ⟨given₁, q', silent, same, -⟩ := unheard (.new {}) rfl
    have counts' : q'.mute.tally = r'.mute.tally := congrArg Reader.tally same
    refine ⟨given, r', source', rfl, counts, ?_, given₁, q', silent, counts'.trans counts⟩
    rw [journal, noted]
    rfl

end TagStream
