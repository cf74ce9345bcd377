import TagStream.Proofs.History
import TagStream.Proofs.Metering
import TagStream.Proofs.Traversal

/-!
The end of a source. A reader that can be reached awaits no more bytes than its window can hold, and
holds none while it owes a tag (`Reader.Reached.seasoned`). So where the source has come to its end,
a reader with no byte resident gives all it owes, the tag that was put off first and the innermost
container next, and then reports the end of the stream; a reader with a part of a tag resident stops
for want of the rest (`drains_or_stops`).
-/

namespace TagStream

variable {σ : Type} [ByteSource σ]

/-! ### Sources at their end -/

/-- Where this holds of a source, every read finds that no bytes are left, and leaves it so. -/
structure AtEnd (holds : σ → Prop) : Prop where
  lasts : Lasting holds
  answers : ∀ {source : σ} {limit : Nat}, holds source → 0 < limit →
    (ByteSource.read source limit).1 = .endOfData

/-- From now on every read of the source finds that no bytes are left. -/
def Ended (source : σ) : Prop :=
  ∃ holds : σ → Prop, AtEnd holds ∧ holds source

/-- A source at its end owes nothing. -/
def AtEnd.delivery {holds : σ → Prop} (atEnd : AtEnd holds) : Delivery σ where
  sound := holds
  left _ := []
  read_accounts := by
    intro source limit sound asked
    refine ⟨atEnd.lasts sound asked, ?_⟩
    rw [atEnd.answers sound asked]
    exact ⟨rfl, rfl⟩

theorem AtEnd.prompt {holds : σ → Prop} (atEnd : AtEnd holds) : atEnd.delivery.Prompt := by
  intro source limit sound asked
  rw [atEnd.answers sound asked]
  rfl

/-! ### Windows -/

namespace Window

/-- A window in which a tag is awaited that demands no more bytes than it can hold. -/
def Hopeful (w : Window) (schema : Schema) : Prop :=
  ∃ needed part, w.demand schema = .await needed part ∧ needed ≤ w.maxCapacity

theorem hopeful_of_resident {w : Window} (schema : Schema) (empty : w.resident = [])
    (pos : 0 < w.maxCapacity) : w.Hopeful schema := by
  refine ⟨1, .start, ?_, pos⟩
  rw [demand_eq_demandOf, empty]
  rfl

/-- Where no bytes follow a part of a tag, the rest of it is lacking. -/
theorem Hopeful.settle_eq {w : Window} {schema : Schema} (hopeful : w.Hopeful schema)
    (nonempty : w.resident ≠ []) :
    ∃ part, part ≠ .start ∧
      schema.settle w.maxCapacity w.resident 0 = .error ⟨.endOfData, part⟩ := by
  obtain ⟨needed, part, demanded, fits⟩ := hopeful
  rw [demand_eq_demandOf] at demanded
  have few := Schema.length_lt_of_demandOf demanded
  refine ⟨part, ?_, ?_⟩
  · rintro rfl
    exact nonempty (Schema.eq_nil_of_await_start demanded).1
  · have front : schema.demandOf w.maxCapacity (w.resident.take w.resident.length) =
        .await needed part := by
      rw [List.take_length]
      exact demanded
    rw [Schema.settle_eq_of_le front (Nat.le_refl _) (Nat.le_trans (Nat.le_of_lt few) fits)
      (Nat.zero_le _), Schema.settle_of_await front, if_neg (Nat.not_lt.mpr fits), if_pos few]

/-- Nothing is settled at the end of a source. -/
theorem Awaits.lacks_of_atEnd {holds : σ → Prop} (atEnd : AtEnd holds) {w w' : Window}
    {schema : Schema} {source source' : σ} {settled : Except Lack Verdict}
    (awaits : w.Awaits schema) (there : holds source)
    (h : w.gather schema source = (settled, w', source')) : ∃ lack, settled = .error lack := by
  obtain ⟨moved, -, result, -⟩ := awaits.gather (d := atEnd.delivery) there h
  cases settled with
  | error lack => exact ⟨lack, rfl⟩
  | ok verdict =>
    have same : w'.resident = w.resident := List.append_cancel_right moved.bytes
    obtain ⟨-, -, needed, part, demanded⟩ := awaits
    have settled := result.2
    rw [demand_eq_demandOf] at demanded settled
    rw [moved.limit, same, demanded] at settled
    cases settled

end Window

/-! ### Readers with a history -/

namespace Reader

variable {schema : Schema} {c : Config}

/-- What is on the stack are closing tags that the schema has made. -/
def KeepsClosings (schema : Schema) (r : Reader) : Prop :=
  ∀ k ∈ r.containers, ∃ id, schema.tagOf id (.master .closing) = .ok k.tag

theorem KeepsClosings.next {r r' : Reader} {source source' : σ} {report : Report}
    (closings : KeepsClosings schema r) (h : r.next schema source = .ok (report, r', source')) :
    KeepsClosings schema r' := by
  intro k mem
  cases stepped_of_next h with
  | repeated => exact closings k mem
  | owed _ owed => exact closings k (mem_containers_of_owed owed mem)
  | acted _ _ _ acted =>
    cases acted_of_act acted with
    | @enter header _ _ closed =>
      rcases mem_containers_of_place mem with opened | mem
      · cases opened
        exact ⟨header.id, closed⟩
      · exact closings k mem
    | leaf =>
      rcases mem_containers_of_place mem with opened | mem
      · cases opened
      · exact closings k mem
    | malformed | refuse => exact closings k mem
    | fallShort lack =>
      have still := mem_containers_of_fallShort lack mem
      exact closings k still

/-- A step after which the reader still runs leaves its window hopeful. -/
theorem Spends.hopeful {r r' : Reader} {source source' : σ} {report : Report}
    (spends : Spends report r') (inside : r.window.head ≤ r.window.cells.size)
    (pos : 0 < r.window.maxCapacity) (h : r.next schema source = .ok (report, r', source'))
    (running : r'.stopped = none) : r'.window.Hopeful schema := by
  cases spends with
  | fault _ stopped => exact absurd running stopped
  | drained _ empty =>
    refine Window.hopeful_of_resident schema empty ?_
    rw [(sameFrame_next inside h).limit]
    exact pos
  | pause paused =>
    obtain ⟨heard', heard, -⟩ := exists_heard h []
    cases stepped_of_next heard with
    | repeated | owed => cases paused
    | @acted settled window _ given _ _ gathered acted =>
      obtain ⟨answers, -, -, lacks⟩ := Window.hears_gather inside gathered
      have known := acted_of_act acted
      cases settled with
      | ok verdict =>
        rw [isPause_of_acted known (by intro _ h; cases h)] at paused
        cases paused
      | error lack =>
        obtain ⟨needed, demanded, fits⟩ := lacks lack rfl
        have within : lack.why ≠ .exceedsLimit := by
          intro why
          rw [isPause_of_acted known (by rintro _ ⟨⟩ h; rw [why] at h; cases h)] at paused
          cases paused
        cases known
        rw [window_fallShort]
        exact ⟨needed, lack.part, demanded, fits within⟩

/-- What is known of a reader, whatever its history. -/
structure Seasoned (schema : Schema) (r : Reader) : Prop where
  frugal : ∃ taken, r.Frugal schema taken
  hopeful : r.stopped = none → r.window.Hopeful schema
  closings : KeepsClosings schema r

variable [LawfulByteSource σ]

theorem Reached.seasoned {r : Reader} (reached : Reached σ schema c r) : Seasoned schema r := by
  have fresh {q : Reader} (start : q.AtStart) (limit : q.window.maxCapacity = c.maxCapacity) :
      Seasoned schema q := by
    refine ⟨⟨[], start.frugal schema⟩, fun _ => ?_, ?_⟩
    · refine Window.hopeful_of_resident schema start.resident ?_
      rw [limit]
      exact c.maxCapacity_pos
    · intro k mem
      rw [start.containers] at mem
      cases mem
  induction reached with
  | new => exact fresh (atStart_new c) rfl
  | @reset r before ih => exact fresh (atStart_reset r) before.founded.limit
  | next before stepped ih =>
    obtain ⟨taken, frugal⟩ := ih.frugal
    obtain ⟨drawn, -, frugal', spends⟩ := frugal.next stepped
    have pos := c.maxCapacity_pos
    rw [← before.founded.limit] at pos
    exact ⟨⟨_, frugal'⟩, spends.hopeful before.founded.inside pos stepped, ih.closings.next stepped⟩

/-! ### Steps at the end of a source -/

variable {holds : σ → Prop} {r : Reader} {source : σ}

omit [LawfulByteSource σ] in
/-- At the end of a source no tag is made, and the schema cannot fail to make one. -/
theorem Steady.exists_next (atEnd : AtEnd holds) (steady : r.Steady schema) (there : holds source) :
    ∃ given, r.next schema source = .ok given := by
  unfold next
  split
  · exact ⟨_, rfl⟩
  · next running =>
    split
    · exact ⟨_, rfl⟩
    · obtain ⟨settled, window, source', gathered⟩ :
          ∃ settled window source', r.window.gather schema source = (settled, window, source') :=
        ⟨_, _, _, rfl⟩
      obtain ⟨lack, rfl⟩ := (steady running).lacks_of_atEnd atEnd there gathered
      simp only [gathered]
      exact ⟨_, rfl⟩

theorem Frugal.exists_steps (atEnd : AtEnd holds) {taken : List UInt8}
    (frugal : r.Frugal schema taken) (there : holds source) (count : Nat) :
    ∃ seen r' source', r.steps schema source count = .ok (seen, r', source') ∧
      seen.length = count := by
  induction count generalizing r source taken with
  | zero => exact ⟨[], r, source, rfl, rfl⟩
  | succ count ih =>
    obtain ⟨⟨report, r₁, source₁⟩, stepped⟩ := frugal.steady.exists_next atEnd there
    obtain ⟨drawn, -, frugal', -⟩ := frugal.next stepped
    have there' := lasting_next atEnd.lasts there stepped
    obtain ⟨later, r', source', steps, length⟩ := ih frugal' there'
    refine ⟨r₁.observe report :: later, r', source', ?_, congrArg (· + 1) length⟩
    rw [steps_succ stepped, steps]
    rfl

end Reader

/-! ### What is shown at the end -/

/-- What is seen of containers that are closed one after another at this offset. -/
def closingsSeen (offset : Nat) : List Emission → List Observation
  | [] => []
  | innermost :: outer => ⟨.tag innermost, offset, outer.length⟩ :: closingsSeen offset outer

/-- What is seen when all that is owed is given at this offset: the tag that was put off, and the
closing tags. -/
def farewell (offset : Nat) (deferred : Option Emission) (containers : List Emission) :
    List Observation :=
  deferred.toList.map (fun emission => ⟨.tag emission, offset, containers.length⟩) ++
    closingsSeen offset containers

namespace Course

variable {schema : Schema} {limit : Nat}

/-- A course with no bytes left gives all that is owed, and then reports the end. -/
theorem seen_of_drained (pos : 0 < limit) {c c' : Course} {count enough : Nat}
    {seen : List Observation} (drained : c.rest = []) (running : c.stopped = none)
    (le : count ≤ enough) (steps : c.steps schema limit count = .ok (seen, c')) :
    seen = (farewell c.offset c.deferred c.containers ++
      List.replicate enough (⟨.endOfStream, c.offset, 0⟩ : Observation)).take count := by
  induction count generalizing c enough seen with
  | zero =>
    cases steps
    rfl
  | succ count ih =>
    obtain ⟨report, c₁, later, stepped, rest, rfl⟩ := cases_of_steps steps
    obtain ⟨bytes, offset, deferred, containers, stopped⟩ := c
    simp only at drained running
    subst drained running
    cases deferred with
    | some emission =>
      cases stepped
      rw [ih rfl rfl (Nat.le_of_succ_le le) rest]
      rfl
    | none =>
      cases containers with
      | nil =>
        rw [next] at stepped
        simp only [owed?, Schema.settle_nil pos] at stepped
        cases stepped
        obtain ⟨enough, rfl⟩ := Nat.exists_eq_succ_of_ne_zero (Nat.ne_zero_of_lt le)
        rw [ih rfl rfl (Nat.le_of_succ_le_succ le) rest]
        rfl
      | cons innermost outer =>
        -- Whether the container is complete or not, it is closed.
        have closed : (.tag innermost, ⟨[], offset, none, outer, none⟩) = (report, c₁) := by
          refine Except.ok.inj (Eq.trans ?_ stepped)
          by_cases complete : Reader.isComplete innermost.position offset = true
          · simp [next, owed?, complete]
          · simp [next, owed?, complete, Schema.settle_nil pos, act, fallShort, closeAtEnd]
        obtain ⟨rfl, rfl⟩ := Prod.mk.inj closed
        rw [ih rfl rfl (Nat.le_of_succ_le le) rest]
        rfl

end Course

variable [LawfulByteSource σ] {schema : Schema} {c : Config} {r : Reader} {source : σ}

/-- A reader whose source is at its end gives the tag that was put off and closes its containers,
the innermost first, and from then on reports the end of the stream; but with a part of a tag
resident it stops at once. In either case no step meets a defect of the schema. -/
theorem drains_or_stops (reached : Reader.Reached σ schema c r) (running : r.stopped = none)
    (ended : Ended source) :
    (r.window.resident = [] → ∀ count, ∃ seen r' source',
      r.steps schema source count = .ok (seen, r', source') ∧
      (StorageGranted seen → seen = (farewell r.offset r.deferred r.containers ++
        List.replicate count (⟨.endOfStream, r.offset, 0⟩ : Observation)).take count)) ∧
    (r.window.resident ≠ [] → schema.IsPartial r.window.resident ∧ ∃ report r' source',
      r.next schema source = .ok (report, r', source') ∧
      (report.outcome ≠ .fault .allocationFailed → report.outcome = .fault .corruptedData)) ∧
    ∀ k ∈ r.containers, ∃ id, schema.tagOf id (.master .closing) = .ok k.tag := by
  obtain ⟨holds, atEnd, there⟩ := ended
  obtain ⟨⟨taken, frugal⟩, hopeful, closings⟩ := reached.seasoned
  refine ⟨?_, ?_, closings⟩
  · intro empty count
    obtain ⟨seen, r', source', steps, length⟩ := frugal.exists_steps atEnd there count
    refine ⟨seen, r', source', steps, ?_⟩
    intro granted
    have run := Run.of_steps atEnd.delivery.keeps_refl steps
    obtain ⟨-, -, course⟩ := run.follows there frugal.steady granted
    rw [run.withoutPauses_eq atEnd.prompt there, length] at course
    have pos := c.maxCapacity_pos
    rw [← reached.founded.limit] at pos
    exact Course.seen_of_drained pos (by rw [Reader.course, empty]; rfl) running (Nat.le_refl _)
      course
  · intro nonempty
    obtain ⟨-, -, needed, awaited, demanded⟩ := frugal.steady running
    rw [Window.demand_eq_demandOf] at demanded
    obtain ⟨⟨report, r', source'⟩, stepped⟩ := frugal.steady.exists_next atEnd there
    refine ⟨Schema.isPartial_of_await demanded, report, r', source', stepped, ?_⟩
    intro granted
    have idle : r.owed? = none := by
      apply Classical.byContradiction
      intro owes
      exact nonempty (frugal.drained running owes)
    obtain ⟨part, started, settles⟩ := (hopeful running).settle_eq nonempty
    obtain ⟨-, moves⟩ := Reader.isPause_of_next atEnd.prompt there stepped
    rcases Reader.next_follows (d := atEnd.delivery) frugal.steady there stepped
      with refused | ⟨-, -, -, ⟨paused, -⟩ | ⟨-, course⟩⟩
    · exact absurd refused granted
    · rw [moves] at paused
      cases paused
    · rw [Reader.next_course_of_idle running idle] at course
      simp only [AtEnd.delivery, List.append_nil, settles] at course
      cases part with
      | start => exact absurd rfl started
      | idField | sizeField | payload =>
        injection course with given
        rw [(Prod.mk.inj given).1.symm]
        rfl

theorem Script.atEnd_nil : AtEnd fun s : Script => s = ⟨[], .endOfData⟩ where
  lasts := by
    rintro s limit rfl _
    rfl
  answers := by
    rintro s limit rfl _
    rfl

/-- A segment and two clusters, all of unknown size. The second cluster ends the first. -/
def siblingClusters : Script where
  cues := [.data [0x18, 0x53, 0x80, 0x67, 0xFF, 0x1F, 0x43, 0xB6, 0x75, 0xFF, 0xE7, 0x81, 5,
    0x1F, 0x43, 0xB6, 0x75, 0xFF]]
  last := .endOfData

/-- The reader that has closed the first cluster and put off the second one's opening tag. -/
def siblingReader : Reader × Script :=
  (Reader.new {}).after Matroska.schema siblingClusters 4

/-- The opening tag is given, the second cluster and the segment are closed, and the stream ends. -/
theorem drains_or_stops_siblingClusters :
    siblingReader.1.deferred ≠ none ∧ siblingReader.1.depth = 2 ∧
      siblingReader.1.shown Matroska.schema siblingReader.2 4 =
        farewell 18 siblingReader.1.deferred siblingReader.1.containers ++
          [⟨.endOfStream, 18, 0⟩] := by
  have reached : Reader.Reached Script Matroska.schema {} siblingReader.1 :=
    Reader.Reached.new.after _ _
  obtain ⟨drains, -, -⟩ := drains_or_stops reached (by decide +kernel)
    ⟨_, Script.atEnd_nil, show siblingReader.2 = _ by decide +kernel⟩
  obtain ⟨seen, r', source', steps, all⟩ := drains (by decide +kernel) 4
  have shown : siblingReader.1.shown Matroska.schema siblingReader.2 4 = seen := by
    rw [Reader.shown, steps]
  have granted : StorageGranted seen := by
    rw [← shown]
    decide +kernel
  refine ⟨by decide +kernel, by decide +kernel, ?_⟩
  rw [shown, all granted]
  decide +kernel

end TagStream
