import TagStream.Proofs.History
import TagStream.Schema.Matroska
import TagStream.Supply.Script

/-!
Starting again. Two windows are alike (`Window.Alike`) if they show the same, whatever storage they
have; two readers resemble each other (`Reader.Resembles`) if nothing tells them apart but their
storage and what one of them noted earlier. Steps keep such readers in step, as long as storage is
granted to both. Whatever its history, a reader that is reset resembles a new one, so that all it
shows from then on is what a new one shows (`appearances_of_reset`).
-/

namespace TagStream

variable {σ : Type} [ByteSource σ] {schema : Schema}

/-! ### Windows that show the same -/

namespace Window

/-- The windows differ in nothing but their storage. -/
structure Alike (w v : Window) : Prop where
  inside : w.head ≤ w.cells.size
  inside' : v.head ≤ v.cells.size
  resident : w.resident = v.resident
  offset : w.offset = v.offset
  limit : w.maxCapacity = v.maxCapacity

variable {w v : Window}

theorem Alike.available (alike : Alike w v) : w.available = v.available := by
  rw [← length_resident, alike.resident, length_resident]

theorem Alike.demand (alike : Alike w v) (schema : Schema) : w.demand schema = v.demand schema := by
  rw [demand_eq_demandOf, demand_eq_demandOf, alike.limit, alike.resident]

theorem Alike.front (alike : Alike w v) (count : Nat) : w.front count = v.front count := by
  rw [front_eq_take, front_eq_take, alike.resident]

/-- What draws the same bytes into alike windows leaves them alike. -/
theorem Alike.of_drawn {w' v' : Window} {drawn : List UInt8} (alike : Alike w v)
    (moved : Drawn w w' drawn) (moved' : Drawn v v' drawn) : Alike w' v' where
  inside := moved.inside
  inside' := moved'.inside
  resident := by rw [moved.resident, moved'.resident, alike.resident]
  offset := by rw [moved.offset, moved'.offset, alike.offset]
  limit := by rw [moved.limit, moved'.limit, alike.limit]

theorem Alike.append (alike : Alike w v) (bytes : Array UInt8) :
    Alike (w.append bytes) (v.append bytes) :=
  alike.of_drawn (drawn_append alike.inside bytes) (drawn_append alike.inside' bytes)

/-- What two windows give when they are asked for the same. -/
structure Agree {α : Type} (given given' : α × Window × σ) : Prop where
  answer : given.1 = given'.1
  window : Alike given.2.1 given'.2.1
  source : given.2.2 = given'.2.2

omit [ByteSource σ] in
theorem Alike.agree {α : Type} (alike : Alike w v) (answer : α) (source : σ) :
    Agree (answer, w, source) (answer, v, source) :=
  ⟨rfl, alike, rfl⟩

theorem Alike.fill (alike : Alike w v) (needed : Nat) (source : σ) :
    Agree (w.fill needed source) (v.fill needed source) := by
  fun_induction Window.fill w needed source generalizing v with
  | case1 w source few bytes source₁ delivered empty =>
    rw [alike.available] at few delivered
    rw [Window.fill, if_pos few, delivered]
    simp only [if_pos empty]
    exact alike.agree _ _
  | case2 w source few bytes source₁ delivered nonempty ih =>
    rw [alike.available] at few delivered
    have onward : v.fill needed source = (v.append bytes).fill needed source₁ := by
      rw [Window.fill, if_pos few, delivered]
      simp only [if_neg nonempty]
    rw [onward]
    exact ih (alike.append bytes)
  | case3 w source few source₁ answered | case4 w source few source₁ answered
  | case5 w source few source₁ answered =>
    rw [alike.available] at few answered
    rw [Window.fill, if_pos few, answered]
    exact alike.agree _ _
  | case6 w source enough =>
    rw [alike.available] at enough
    rw [Window.fill, if_neg enough]
    exact alike.agree _ _

/-- Unless storage is refused to one of them, alike windows ensure the same. -/
theorem Alike.ensure (alike : Alike w v) (needed : Nat) (source : σ) :
    (w.ensure needed source).1 = some .allocationFailed ∨
      (v.ensure needed source).1 = some .allocationFailed ∨
      Agree (w.ensure needed source) (v.ensure needed source) := by
  unfold Window.ensure ensureWith
  by_cases enough : needed ≤ v.available
  · rw [if_pos enough, if_pos (by rw [alike.available]; exact enough)]
    exact .inr (.inr (alike.agree _ _))
  · rw [if_neg enough, if_neg (by rw [alike.available]; exact enough)]
    by_cases exceeds : v.maxCapacity < needed
    · rw [if_pos exceeds, if_pos (by rw [alike.limit]; exact exceeds)]
      exact .inr (.inr (alike.agree _ _))
    · rw [if_neg exceeds, if_neg (by rw [alike.limit]; exact exceeds)]
      have roomy := alike.of_drawn (drawn_prepareWith (· + ·) alike.inside needed)
        (drawn_prepareWith (· + ·) alike.inside' needed)
      generalize w.prepareWith (· + ·) needed = given at roomy ⊢
      generalize v.prepareWith (· + ·) needed = given' at roomy ⊢
      obtain ⟨granted, x⟩ := given
      obtain ⟨granted', y⟩ := given'
      cases granted with
      | false => exact .inl rfl
      | true =>
        cases granted' with
        | false => exact .inr (.inl rfl)
        | true => exact .inr (.inr (roomy.fill needed source))

/-- Whether a tag was not settled because storage was refused. -/
def Refused (settled : Except Lack Verdict) : Prop :=
  ∃ part, settled = .error ⟨.allocationFailed, part⟩

/-- Unless storage is refused to one of them, alike windows gather the same. -/
theorem Alike.gather (alike : Alike w v) (schema : Schema) (source : σ) :
    Refused (w.gather schema source).1 ∨ Refused (v.gather schema source).1 ∨
      Agree (w.gather schema source) (v.gather schema source) := by
  fun_induction Window.gather w schema source generalizing v with
  | case1 w source verdict demanded =>
    rw [alike.demand] at demanded
    rw [gather_of_settled demanded]
    exact .inr (.inr (alike.agree _ _))
  | case2 w source needed part demanded w₁ source₁ ensured ih =>
    rw [alike.demand] at demanded
    rw [gather_of_await demanded]
    rcases alike.ensure needed source with refused | refused | agree
    · rw [ensured] at refused
      cases refused
    · generalize v.ensure needed source = given at refused ⊢
      obtain ⟨why, v₁, source₂⟩ := given
      cases refused
      exact .inr (.inl ⟨part, rfl⟩)
    · rw [ensured] at agree
      generalize v.ensure needed source = given at agree ⊢
      obtain ⟨why, v₁, source₂⟩ := given
      obtain ⟨answer, window, same⟩ := agree
      cases answer
      cases same
      exact ih window
  | case3 w source needed part demanded why w₁ source₁ ensured =>
    rw [alike.demand] at demanded
    rw [gather_of_await demanded]
    rcases alike.ensure needed source with refused | refused | agree
    · rw [ensured] at refused
      cases refused
      exact .inl ⟨part, rfl⟩
    · generalize v.ensure needed source = given at refused ⊢
      obtain ⟨why', v₁, source₂⟩ := given
      cases refused
      exact .inr (.inl ⟨part, rfl⟩)
    · rw [ensured] at agree
      generalize v.ensure needed source = given at agree ⊢
      obtain ⟨why', v₁, source₂⟩ := given
      obtain ⟨answer, window, same⟩ := agree
      cases answer
      cases same
      exact .inr (.inr (window.agree _ _))

theorem Alike.advance (alike : Alike w v) (count : Nat) :
    Alike (w.advance count) (v.advance count) where
  inside := by
    have frame := Reader.sameFrame_consume { window := w, journal := ⟨none, #[]⟩ } count
    exact frame.inside alike.inside
  inside' := by
    have frame := Reader.sameFrame_consume { window := v, journal := ⟨none, #[]⟩ } count
    exact frame.inside alike.inside'
  resident := by rw [resident_advance, resident_advance, alike.resident]
  offset := by rw [offset_advance, offset_advance, alike.offset, alike.available]
  limit := by
    have frame := Reader.sameFrame_consume { window := w, journal := ⟨none, #[]⟩ } count
    have frame' := Reader.sameFrame_consume { window := v, journal := ⟨none, #[]⟩ } count
    exact frame.limit.trans (alike.limit.trans frame'.limit.symm)

end Window

/-! ### Readers that show the same -/

namespace Reader

/-- The readers differ in nothing but the storage of their windows, and in that the first one's
journal has these earlier entries. -/
structure Resembles (earlier : Array Event) (r q : Reader) : Prop where
  window : Window.Alike r.window q.window
  deferred : r.deferred = q.deferred
  containers : r.containers = q.containers
  stopped : r.stopped = q.stopped
  tally : r.tally = q.tally
  threshold : r.journal.threshold = q.journal.threshold
  events : r.journal.events = earlier ++ q.journal.events

/-- What steps of readers that resemble each other give: the same defect, or the same report and
readers that still do. -/
inductive InStep (earlier : Array Event) :
    Except Defect (Report × Reader) → Except Defect (Report × Reader) → Prop where
  | defect (defect : Defect) : InStep earlier (.error defect) (.error defect)
  | given {report : Report} {r q : Reader} : Resembles earlier r q →
      InStep earlier (.ok (report, r)) (.ok (report, q))

variable {earlier : Array Event} {r q : Reader}

theorem Resembles.offset (same : Resembles earlier r q) : r.offset = q.offset :=
  same.window.offset

theorem Resembles.note (same : Resembles earlier r q) (event : Event) :
    (r.journal.note event).threshold = (q.journal.note event).threshold ∧
      (r.journal.note event).events = earlier ++ (q.journal.note event).events := by
  refine ⟨?_, ?_⟩
  · rw [threshold_note, threshold_note, same.threshold]
  · unfold Journal.note Journal.keeps
    rw [same.threshold]
    split
    · rw [same.events, Array.append_push]
    · exact same.events

theorem Resembles.stop (same : Resembles earlier r q) (fault : Fault) :
    InStep earlier (.ok (r.stop fault)) (.ok (q.stop fault)) := by
  unfold Reader.stop
  rw [same.offset]
  obtain ⟨threshold, events⟩ := same.note (.stopped fault q.offset)
  exact .given ⟨same.window, same.deferred, same.containers, rfl, same.tally, threshold, events⟩

theorem Resembles.closeAtEnd (same : Resembles earlier r q) :
    InStep earlier (.ok r.closeAtEnd) (.ok q.closeAtEnd) := by
  unfold Reader.closeAtEnd depth
  rw [same.containers]
  split
  · exact .given same
  · next innermost outer _ =>
    rw [same.offset, same.tally]
    obtain ⟨threshold, events⟩ :=
      same.note (.closedByEnd q.offset q.containers.length innermost.tag.id)
    exact .given ⟨same.window, same.deferred, rfl, same.stopped, rfl, threshold, events⟩

theorem Resembles.fallShort (same : Resembles earlier r q) (lack : Lack) :
    InStep earlier (.ok (r.fallShort lack)) (.ok (q.fallShort lack)) := by
  unfold Reader.fallShort
  split
  · exact .given same
  · exact same.closeAtEnd
  all_goals exact same.stop _

theorem Resembles.place (same : Resembles earlier r q) (schema : Schema) (id : ElementId)
    (emission : Emission) (closing : Option Emission) :
    InStep earlier (.ok (r.place schema id emission closing))
      (.ok (q.place schema id emission closing)) := by
  unfold Reader.place
  rw [same.containers]
  split
  · next innermost outer _ =>
    split
    · rw [same.tally]
      obtain ⟨threshold, events⟩ :=
        same.note (.closedByTag id emission.position.offset innermost.tag.id)
      exact .given ⟨same.window, rfl, rfl, same.stopped, rfl, threshold, events⟩
    · unfold emit
      rw [same.tally]
      exact .given ⟨same.window, same.deferred, rfl, same.stopped, rfl, same.threshold, same.events⟩
  · unfold emit
    simp only [same.tally]
    exact .given ⟨same.window, same.deferred, rfl, same.stopped, rfl, same.threshold, same.events⟩

theorem Resembles.consume (same : Resembles earlier r q) (count : Nat) :
    Resembles earlier (r.consume count) (q.consume count) :=
  ⟨same.window.advance count, same.deferred, same.containers, same.stopped, same.tally,
    same.threshold, same.events⟩

/-- Acting on the same, readers that resemble each other stay in step. -/
theorem Resembles.act (same : Resembles earlier r q) (schema : Schema)
    (settled : Except Lack Verdict) :
    InStep earlier (act r schema settled) (act q schema settled) := by
  cases settled with
  | error lack => exact same.fallShort lack
  | ok verdict =>
    cases verdict with
    | refuse fault => exact same.stop fault
    | enter header =>
      simp only [Reader.act, enter, same.offset, bind, Except.bind, pure, Except.pure]
      cases schema.tagOf header.id (.master .closing) with
      | error defect => exact .defect defect
      | ok closing =>
        cases schema.tagOf header.id (.master .opening) with
        | error defect => exact .defect defect
        | ok opening => exact (same.consume _).place ..
    | read header length =>
      have payload := (same.consume header.length).window.front length
      simp only [Reader.act, readLeaf, same.offset, payload, bind, Except.bind, pure, Except.pure]
      cases schema.tagOfPayload header.id (schema.kindOf header.id)
          ((q.consume header.length).window.front length) with
      | error defect => exact .defect defect
      | ok read =>
        cases read with
        | ok tag => exact ((same.consume _).consume _).place ..
        | error malformed => exact ((same.consume _).consume _).stop _

/-- What one of the readers owes, the other one does. -/
theorem Resembles.owed (same : Resembles earlier r q) :
    r.owed? = none ∧ q.owed? = none ∨
      ∃ emission r' q', r.owed? = some (emission, r') ∧ q.owed? = some (emission, q') ∧
        Resembles earlier r' q' := by
  unfold owed?
  rw [same.deferred, same.containers, same.offset]
  split
  · refine .inr ⟨_, _, _, rfl, rfl, ?_⟩
    exact ⟨same.window, rfl, rfl, same.stopped, same.tally, same.threshold, same.events⟩
  · exact .inl ⟨rfl, rfl⟩
  · split
    · refine .inr ⟨_, _, _, rfl, rfl, ?_⟩
      exact ⟨same.window, rfl, rfl, same.stopped, same.tally, same.threshold, same.events⟩
    · exact .inl ⟨rfl, rfl⟩

/-- The step is refused storage, and the reader stops. -/
def RefusedAt (r : Reader) (schema : Schema) (source : σ) : Prop :=
  ∃ part r' source', r.next schema source = .ok (.fault (.allocationFailed part), r', source') ∧
    r'.stopped = some .allocationFailed

theorem refusedAt_of_gather {source : σ} (stopped : r.stopped = none) (owed : r.owed? = none)
    (refused : Window.Refused (r.window.gather schema source).1) : r.RefusedAt schema source := by
  obtain ⟨part, lack⟩ := refused
  obtain ⟨settled, window, source', gathered⟩ :
      ∃ settled window source', r.window.gather schema source = (settled, window, source') :=
    ⟨_, _, _, rfl⟩
  rw [gathered] at lack
  simp only at lack
  subst lack
  exact ⟨part, _, source', (Stepped.acted stopped owed gathered rfl).next_eq, rfl⟩

/-- Unless storage is refused to one of them, readers that resemble each other take the same step,
and leave the source alike. -/
theorem Resembles.next (same : Resembles earlier r q) (schema : Schema) (source : σ) :
    r.RefusedAt schema source ∨ q.RefusedAt schema source ∨
      ∃ given given' source', InStep earlier given given' ∧
        r.next schema source = given.map (fun given => (given.1, given.2, source')) ∧
        q.next schema source = given'.map (fun given => (given.1, given.2, source')) := by
  cases stopped : q.stopped with
  | some faultClass =>
    have stopped' : r.stopped = some faultClass := same.stopped.trans stopped
    refine .inr (.inr ⟨.ok (.fault (.repeated faultClass), r),
      .ok (.fault (.repeated faultClass), q), source, .given same, ?_, ?_⟩)
    · exact (Stepped.repeated stopped').next_eq
    · exact (Stepped.repeated stopped).next_eq
  | none =>
    have stopped' : r.stopped = none := same.stopped.trans stopped
    rcases same.owed with ⟨idle', idle⟩ | ⟨emission, r', q', owed', owed, same'⟩
    · rcases same.window.gather schema source with refused | refused | agree
      · exact .inl (refusedAt_of_gather stopped' idle' refused)
      · exact .inr (.inl (refusedAt_of_gather stopped idle refused))
      · obtain ⟨settled, window', source', gathered'⟩ : ∃ settled window' source',
            r.window.gather schema source = (settled, window', source') := ⟨_, _, _, rfl⟩
        obtain ⟨settled₂, window, source₂, gathered⟩ : ∃ settled window source',
            q.window.gather schema source = (settled, window, source') := ⟨_, _, _, rfl⟩
        rw [gathered, gathered'] at agree
        obtain ⟨rfl, alike, rfl⟩ := agree
        have drawn : Resembles earlier { r with window := window' } { q with window } :=
          ⟨alike, same.deferred, same.containers, same.stopped, same.tally, same.threshold,
            same.events⟩
        refine .inr (.inr ⟨_, _, source', drawn.act schema settled, ?_, ?_⟩)
        · simp only [Reader.next, stopped', idle', gathered']
        · simp only [Reader.next, stopped, idle, gathered]
    · refine .inr (.inr ⟨.ok (r'.emit emission), .ok (q'.emit emission), source, ?_, ?_, ?_⟩)
      · unfold emit
        rw [same'.tally]
        exact .given ⟨same'.window, same'.deferred, same'.containers, same'.stopped, rfl,
          same'.threshold, same'.events⟩
      · exact (Stepped.owed stopped' owed').next_eq
      · exact (Stepped.owed stopped owed).next_eq

end Reader

/-! ### What is shown -/

/-- What a reader shows after a step: the report, the offset and the depth, whether it has stopped,
what it has counted, and what it has noted. -/
structure Appearance where
  report : Report
  offset : Nat
  depth : Nat
  stopped : Option FaultClass
  tally : Tally
  noted : List Event
  deriving DecidableEq, Repr

/-- What a reader shows after a report, its first `earlier` notes left out. -/
def Reader.appearance (earlier : Nat) (given : Report × Reader) : Appearance where
  report := given.1
  offset := given.2.offset
  depth := given.2.depth
  stopped := given.2.stopped
  tally := given.2.tally
  noted := given.2.journal.events.toList.drop earlier

/-- What is shown of steps between which the source is changed, and the source in the end. -/
def appearances (earlier : Nat) (result : Except Defect (List (Report × Reader) × Reader × σ)) :
    Except Defect (List Appearance × σ) :=
  result.map fun given => (given.1.map (Reader.appearance earlier), given.2.2)

/-- No step was refused storage. -/
def AllGranted : Except Defect (List (Report × Reader) × Reader × σ) → Prop
  | .ok given => ∀ shown ∈ given.1, shown.1.outcome ≠ .fault .allocationFailed
  | .error _ => True

instance : (result : Except Defect (List (Report × Reader) × Reader × σ)) →
    Decidable (AllGranted result)
  | .ok given =>
    inferInstanceAs (Decidable (∀ shown ∈ given.1, shown.1.outcome ≠ .fault .allocationFailed))
  | .error _ => inferInstanceAs (Decidable True)

namespace Reader

variable {earlier : Array Event} {r q : Reader}

theorem Resembles.appearance_eq (same : Resembles earlier r q) (report : Report) :
    appearance earlier.size (report, r) = appearance 0 (report, q) := by
  have noted : r.journal.events.toList.drop earlier.size = q.journal.events.toList.drop 0 := by
    rw [same.events, Array.toList_append, List.drop_left' Array.length_toList, List.drop_zero]
  simp only [appearance, same.offset, depth, same.containers, same.stopped, same.tally, noted]

/-- A reader that is refused storage stops, so that the refusal is seen. -/
theorem RefusedAt.not_allGranted {source : σ} {change : σ → σ} {changes : List (σ → σ)}
    (refused : r.RefusedAt schema (change source)) :
    ¬ AllGranted (r.interleave schema source (change :: changes)) := by
  obtain ⟨part, r', source', stepped, stopped⟩ := refused
  intro granted
  rw [interleave_cons stepped, interleave_of_stopped stopped] at granted
  exact granted _ (List.mem_cons_self ..) rfl

theorem allGranted_of_cons {r₁ : Reader} {source source₁ : σ} {report : Report} {change : σ → σ}
    {changes : List (σ → σ)} (stepped : r.next schema (change source) = .ok (report, r₁, source₁))
    (granted : AllGranted (r.interleave schema source (change :: changes))) :
    AllGranted (r₁.interleave schema source₁ changes) := by
  rw [interleave_cons stepped] at granted
  cases later : r₁.interleave schema source₁ changes with
  | error defect => trivial
  | ok given =>
    rw [later] at granted
    intro shown mem
    exact granted shown (List.mem_cons_of_mem _ mem)

theorem appearances_cons {r₁ : Reader} {source source₁ : σ} {report : Report} {change : σ → σ}
    (stepped : r.next schema (change source) = .ok (report, r₁, source₁))
    (changes : List (σ → σ)) (count : Nat) :
    appearances count (r.interleave schema source (change :: changes)) =
      (appearances count (r₁.interleave schema source₁ changes)).map fun shown =>
        (appearance count (report, r₁) :: shown.1, shown.2) := by
  rw [interleave_cons stepped]
  cases r₁.interleave schema source₁ changes <;> rfl

/-- Readers that resemble each other show the same, as long as storage is granted to both. -/
theorem Resembles.appearances_eq (same : Resembles earlier r q) (source : σ)
    (changes : List (σ → σ)) (granted : AllGranted (r.interleave schema source changes))
    (granted' : AllGranted (q.interleave schema source changes)) :
    appearances earlier.size (r.interleave schema source changes) =
      appearances 0 (q.interleave schema source changes) := by
  induction changes generalizing r q source with
  | nil => rfl
  | cons change changes ih =>
    rcases same.next schema (change source)
      with refused | refused | ⟨given, given', source', inStep, stepped, stepped'⟩
    · exact absurd granted refused.not_allGranted
    · exact absurd granted' refused.not_allGranted
    · cases inStep with
      | defect defect =>
        simp only [Reader.interleave, stepped, stepped', Except.map, bind, Except.bind]
        rfl
      | @given report r' q' same' =>
        have later := ih same' source' (allGranted_of_cons stepped granted)
          (allGranted_of_cons stepped' granted')
        rw [appearances_cons stepped, appearances_cons stepped', later,
          same'.appearance_eq report]

/-- A reader that is reset resembles a new one. -/
theorem Reached.resembles {c : Config} (reached : Reached σ schema c r) :
    Resembles r.journal.events r.reset (.new c) := by
  obtain ⟨-, limit, threshold⟩ := reached.founded
  refine ⟨⟨Nat.le_refl _, Nat.le_refl _, rfl, rfl, limit⟩, rfl, rfl, rfl, rfl, threshold, ?_⟩
  exact Array.append_empty.symm

end Reader

/-- Whatever a reader has gone through, after it has been reset it shows what a new reader with its
configuration shows: the same reports, offsets, depths and counts, the same new notes, and the same
defect of the schema, if it comes to one; and it leaves the source as the new one does. Storage is
granted to both. -/
theorem appearances_of_reset {c : Config} {r : Reader} (reached : Reader.Reached σ schema c r)
    (source : σ) (changes : List (σ → σ))
    (granted : AllGranted (r.reset.interleave schema source changes))
    (granted' : AllGranted ((Reader.new c).interleave schema source changes)) :
    appearances r.journal.events.size (r.reset.interleave schema source changes) =
      appearances 0 ((Reader.new c).interleave schema source changes) :=
  reached.resembles.appearances_eq source changes granted granted'

/-- A reader that has stopped inside a cluster, at an element whose size field has no marker. -/
def strandedReader : Reader :=
  ((Reader.new { threshold := some 0 }).after Matroska.schema
    (⟨[.data [0x1F, 0x43, 0xB6, 0x75, 0xFF, 0xE7, 0]], .endOfData⟩ : Script) 2).1

/-- An EBML header of no bytes. -/
def emptyHeader : Script :=
  ⟨[.data [0x1A, 0x45, 0xDF, 0xA3, 0x80]], .endOfData⟩

theorem appearances_of_reset_strandedReader :
    strandedReader.stopped = some .corruptedData ∧ strandedReader.depth = 1 ∧
      strandedReader.window.resident = [0xE7, 0] ∧ strandedReader.journal.events.size = 1 ∧
      appearances 1
          (strandedReader.reset.interleave Matroska.schema emptyHeader (List.replicate 4 id)) =
        appearances 0 ((Reader.new { threshold := some 0 }).interleave Matroska.schema emptyHeader
          (List.replicate 4 id)) := by
  have reached : Reader.Reached Script Matroska.schema { threshold := some 0 } strandedReader :=
    Reader.Reached.new.after _ _
  have noted : strandedReader.journal.events.size = 1 := by decide +kernel
  refine ⟨by decide +kernel, by decide +kernel, by decide +kernel, noted, ?_⟩
  rw [← noted]
  exact appearances_of_reset reached emptyHeader _ (by decide +kernel) (by decide +kernel)

end TagStream
