import TagStream.Proofs.Accounting
import TagStream.Proofs.Rewriting
import TagStream.Schema.Restriction

/-!
The same elements under other parents. Two tables whose rows differ in their parents only describe
one schema, but for what may stand where (`Table.schema_reparent`), and a schema is asked that of
containers of unknown size only. As long as no such container is open, a step is therefore the same
whatever the parents are (`Reader.next_reparent`), and so are all steps up to the one that opens
the first (`Reader.interleave_reparent`). Over bytes that hold none, whole runs are the same
(`Reader.Charted.interleave_reparent`), for what a reader gives is among the items of the bytes.
-/

namespace TagStream

/-! ### Steps -/

section Steps

variable {schema : Schema} {admits : Tag → ElementId → Bool} {σ : Type} [ByteSource σ]

theorem Window.gather_reparent (w : Window) (source : σ) :
    w.gather (schema.reparent admits) source = w.gather schema source := by
  have same (v : Window) : v.demand (schema.reparent admits) = v.demand schema := rfl
  fun_induction Window.gather w schema source with
  | case1 w source verdict demanded => exact Window.gather_of_settled (same w ▸ demanded)
  | case2 w source needed part demanded w₁ source₁ ensured ih =>
    rw [Window.gather_of_await (same w ▸ demanded), ensured]
    exact ih
  | case3 w source needed part demanded why w₁ source₁ ensured =>
    rw [Window.gather_of_await (same w ▸ demanded), ensured]

namespace Reader

/-- No container of unknown size is open. -/
def Sized (r : Reader) : Prop :=
  ∀ k ∈ r.containers, k.position.size.isKnown = true

variable {r r' : Reader}

/-- A container of known size is not closed by what follows. -/
theorem Sized.displaces {k : Emission} (sized : r.Sized) (there : k ∈ r.containers)
    (id : ElementId) : Reader.displaces schema id k = false := by
  rw [Reader.displaces, sized k there]
  rfl

theorem place_reparent (sized : r.Sized) (id : ElementId) (emission : Emission)
    (closing : Option Emission) :
    r.place (schema.reparent admits) id emission closing = r.place schema id emission closing := by
  unfold place
  split
  · next innermost outer stack =>
    have there : innermost ∈ r.containers := stack ▸ List.mem_cons_self
    rw [sized.displaces there, sized.displaces there]
  · rfl

theorem act_reparent (sized : r.Sized) (settled : Except Lack Verdict) :
    act r (schema.reparent admits) settled = act r schema settled := by
  cases settled with
  | error lack => rfl
  | ok verdict =>
    cases verdict with
    | refuse fault => rfl
    | enter header =>
      have sized' : (r.consume header.length).Sized := sized
      simp only [act, enter, place_reparent sized']
      rfl
    | read header length =>
      have sized' : ((r.consume header.length).consume length).Sized := sized
      simp only [act, readLeaf, place_reparent sized']
      rfl

/-- As long as no container of unknown size is open, a step does not depend on what is admitted
where. -/
theorem next_reparent (sized : r.Sized) (source : σ) :
    r.next (schema.reparent admits) source = r.next schema source := by
  unfold next
  split
  · rfl
  · split
    · rfl
    · rw [Window.gather_reparent]
      have sized' : Sized { r with window := (r.window.gather schema source).2.1 } := sized
      simp only [act_reparent sized']

/-- Where no container of unknown size is open, a tag is not put off. -/
theorem Sized.report_place (sized : r.Sized) (id : ElementId) (emission : Emission)
    (closing : Option Emission) :
    (r.place schema id emission closing).1 = .tag emission := by
  unfold place
  split
  · next innermost outer stack =>
    have there : innermost ∈ r.containers := stack ▸ List.mem_cons_self
    simp only [sized.displaces there]
    rfl
  · rfl

end Reader

/-- Whether the report is of a container of unknown size, where it starts. -/
def Report.opensUnsized : Report → Bool
  | .tag e => e.isOpening && !e.position.size.isKnown
  | _ => false

/-- Unless a step opens a container of unknown size, none is open after it. -/
theorem Reader.Sized.next (truthful : schema.Truthful) {r r' : Reader} {source source' : σ}
    {report : Report} (sized : r.Sized) (h : r.next schema source = .ok (report, r', source'))
    (known : report.opensUnsized = false) : r'.Sized := by
  intro k mem
  cases stepped_of_next h with
  | repeated => exact sized k mem
  | owed _ owed => exact sized k (mem_containers_of_owed owed mem)
  | @acted settled window _ given _ _ _ acted =>
    cases acted_of_act acted with
    | @enter header closing opening _ opened =>
      rcases mem_containers_of_place mem with opens | mem
      · cases opens
        have sized' : (Reader.consume { r with window } header.length).Sized := sized
        rw [sized'.report_place, Report.opensUnsized, Emission.isOpening,
          (truthful.half opened).2] at known
        simpa using known
      · exact sized k mem
    | leaf =>
      rcases mem_containers_of_place mem with opens | mem
      · cases opens
      · exact sized k mem
    | malformed | refuse => exact sized k mem
    | fallShort lack =>
      have still := mem_containers_of_fallShort lack mem
      exact sized k still

/-- Up to the first container of unknown size, and with it, steps do not depend on what is admitted
where. -/
theorem Reader.interleave_reparent (truthful : schema.Truthful) {r r' : Reader}
    {source source' : σ} {changes : List (σ → σ)} {given : List (Report × Reader)}
    (sized : r.Sized) (h : r.interleave schema source changes = .ok (given, r', source'))
    (known : ∀ item ∈ given.dropLast, item.1.opensUnsized = false) :
    r.interleave (schema.reparent admits) source changes = .ok (given, r', source') := by
  induction changes generalizing r source given with
  | nil => exact h
  | cons change changes ih =>
    obtain ⟨report, r₁, source₁, later, stepped, rest, rfl⟩ := cases_of_interleave h
    have stepped' : r.next (schema.reparent admits) (change source) =
        .ok (report, r₁, source₁) := by
      rw [next_reparent sized]
      exact stepped
    rw [interleave_cons stepped']
    cases later with
    | nil =>
      -- No further step is taken.
      obtain rfl : changes = [] :=
        List.eq_nil_of_length_eq_zero (length_of_interleave rest).symm
      cases rest
      rfl
    | cons next later =>
      rw [List.dropLast_cons_cons] at known
      obtain ⟨first, others⟩ := List.forall_mem_cons.mp known
      rw [ih (sized.next truthful stepped first) rest others]
      rfl

end Steps

/-! ### Streams without containers of unknown size -/

/-- The end of the stream leaves a course as it is. -/
theorem Course.eq_of_endOfStream {schema : Schema} {limit : Nat} {c c' : Course}
    (h : c.next schema limit = .ok (.endOfStream, c')) : c' = c := by
  cases running : c.stopped with
  | some faultClass => simp [next, running] at h
  | none =>
    rcases owed_or_act_of_next running h with ⟨emission, -, given⟩ | ⟨-, acted⟩
    · cases given
    · rcases cases_of_act acted with ⟨verdict, id, emission, closing, -, -, placed⟩ | failed |
        ⟨⟨why, part⟩, -, short⟩
      · have isTag := (c.consume verdict.extent).isTag_place schema id emission closing
        rw [placed] at isTag
        cases isTag
      · cases failed
      · cases why with
        | wouldBlock | readFailed | exceedsLimit | allocationFailed => cases short
        | endOfData =>
          cases part with
          | idField | sizeField | payload => cases short
          | start =>
            simp only [fallShort, closeAtEnd] at short
            split at short <;> cases short
            rfl

section Charted

variable {schema : Schema} {admits : Tag → ElementId → Bool} {σ : Type} [ByteSource σ]
  {d : Delivery σ} {limit : Nat} {bytes : List UInt8} {r r' : Reader} {source source' : σ}
  {report : Report}

/-- A reader on its way through these bytes: behind it are items, and the tag that was put off is
one of theirs. -/
structure Reader.Charted (schema : Schema) (d : Delivery σ) (bytes : List UInt8) (r : Reader)
    (source : σ) : Prop where
  steady : r.Steady schema
  sound : d.sound source
  parsing : (r.course (d.left source)).Parsing
  items : ∃ items, Items schema r.window.maxCapacity 0 bytes items r.offset
      (r.window.resident ++ d.left source) ∧ ∀ e ∈ r.deferred, e ∈ items

/-- A fault stops the reader. -/
theorem Reader.stopped_of_fault (h : r.next schema source = .ok (report, r', source'))
    (failed : report.isFault = true) : r'.stopped ≠ none := by
  have none_of_tag {given : Report} (isTag : given.isTag = true) (failed : given.isFault = true) :
      False := by
    cases given with
    | tag => cases failed
    | endOfStream | needMoreData | fault => cases isTag
  cases stepped_of_next h with
  | repeated stopped =>
    rw [stopped]
    intro h
    cases h
  | owed => cases failed
  | acted _ _ _ acted =>
    cases acted_of_act acted with
    | enter | leaf => exact (none_of_tag (isTag_place ..) failed).elim
    | malformed | refuse =>
      intro h
      cases h
    | fallShort lack =>
      unfold fallShort at failed ⊢
      split at failed
      · cases failed
      · unfold closeAtEnd at failed
        split at failed <;> cases failed
      all_goals
        intro h
        cases h

/-- Each tag that begins an element is one of the items, and the reader goes on, or stops. -/
theorem Reader.Charted.next (tabular : schema.Tabular) (charted : r.Charted schema d bytes source)
    (h : r.next schema source = .ok (report, r', source')) :
    (∀ e ∈ report.begun?, ∃ items offset rest,
        Items schema r.window.maxCapacity 0 bytes items offset rest ∧ e ∈ items) ∧
      (r'.stopped ≠ none ∨
        r'.Charted schema d bytes source' ∧ r'.window.maxCapacity = r.window.maxCapacity) := by
  obtain ⟨items, passed, known⟩ := charted.items
  have failed (fault : report.isFault = true) : (∀ e ∈ report.begun?, ∃ items offset rest,
      Items schema r.window.maxCapacity 0 bytes items offset rest ∧ e ∈ items) ∧
        (r'.stopped ≠ none ∨
          r'.Charted schema d bytes source' ∧ r'.window.maxCapacity = r.window.maxCapacity) := by
    refine ⟨?_, .inl (stopped_of_fault h fault)⟩
    cases report with
    | fault => simp [Report.begun?]
    | tag | endOfStream | needMoreData => cases fault
  rcases next_follows charted.steady charted.sound h with refused | ⟨sound, steady, limit, step⟩
  · refine failed ?_
    cases report <;> simp_all [Report.outcome, Report.isFault]
  · -- Where the course stays as it is, so does the chart.
    have stays (same : r'.course (d.left source') = r.course (d.left source)) :
        r'.Charted schema d bytes source' := by
      refine ⟨steady, sound, same ▸ charted.parsing, items, ?_, ?_⟩
      · rw [limit]
        have rest : r'.window.resident ++ d.left source' = r.window.resident ++ d.left source :=
          congrArg Course.rest same
        have offset : r'.offset = r.offset := congrArg Course.offset same
        rw [rest, offset]
        exact passed
      · have deferred : r'.deferred = r.deferred := congrArg Course.deferred same
        rw [deferred]
        exact known
    rcases step with ⟨paused, same⟩ | ⟨-, step⟩
    · refine ⟨?_, .inr ⟨stays same, limit⟩⟩
      cases report with
      | needMoreData => simp [Report.begun?]
      | tag | endOfStream | fault => cases paused
    · have parsed := Course.parsed_of_narrow tabular charted.parsing step
      generalize course : r'.course (d.left source') = c' at parsed step
      cases parsed with
      | @moved passed' emission _ parsing items' balance =>
        subst course
        have all := passed.trans items'
        have among : ∀ e ∈ r.deferred.toList ++ passed', e ∈ items ++ passed' := by
          intro e mem
          rcases List.mem_append.mp mem with mem | mem
          · exact List.mem_append_left _ (known e (Option.mem_toList.mp mem))
          · exact List.mem_append_right _ mem
        have balance : r.deferred.toList ++ passed' =
            (Report.tag emission).begun?.toList ++ r'.deferred.toList := balance
        rw [balance] at among
        refine ⟨?_, .inr ⟨⟨steady, sound, parsing, items ++ passed', limit ▸ all, ?_⟩, limit⟩⟩
        · intro e begins
          exact ⟨_, _, _, all, among e (List.mem_append_left _ (Option.mem_toList.mpr begins))⟩
        · intro e deferred
          exact among e (List.mem_append_right _ (Option.mem_toList.mpr deferred))
      | ended =>
        refine ⟨by simp [Report.begun?], .inr ⟨stays ?_, limit⟩⟩
        rw [course]
        exact Course.eq_of_endOfStream step
      | broken => exact failed rfl

theorem Reader.AtStart.charted (start : r.AtStart) (owes : d.Owes source bytes) :
    r.Charted schema d bytes source := by
  obtain ⟨sound, rfl⟩ := owes
  refine ⟨start.steady schema, sound, ?_, [], ?_, ?_⟩
  · rw [start.course]
    exact Course.parsing_start _
  · rw [start.resident, show r.offset = 0 from start.offset]
    exact .nil _ _
  · rw [start.deferred]
    intro e h
    cases h

/-- A change that leaves the bytes to come as they are leaves the reader on its way. -/
theorem Reader.Charted.keeps (charted : r.Charted schema d bytes source)
    (keeps : d.Keeps source source') : r.Charted schema d bytes source' := by
  obtain ⟨sound, same⟩ := keeps charted.sound
  refine ⟨charted.steady, sound, ?_, ?_⟩
  · rw [same]
    exact charted.parsing
  · rw [same]
    exact charted.items

/-- Where the stream has no container of unknown size, no step depends on what is admitted where. -/
theorem Reader.Charted.interleave_reparent (tabular : schema.Tabular) {changes : List (σ → σ)}
    (charted : r.Charted schema d bytes source) (sized : r.Sized)
    (kept : ∀ change ∈ changes, ∀ source, d.Keeps source (change source))
    (known : ∀ items offset rest, Items schema r.window.maxCapacity 0 bytes items offset rest →
      ∀ e ∈ items, (Report.tag e).opensUnsized = false) :
    r.interleave (schema.reparent admits) source changes = r.interleave schema source changes := by
  induction changes generalizing r source with
  | nil => rfl
  | cons change changes ih =>
    obtain ⟨keeps, kept⟩ := List.forall_mem_cons.mp kept
    obtain ⟨⟨report, r₁, source₁⟩, stepped⟩ :=
      tabular.defectless.exists_next r (change source)
    have stepped' : r.next (schema.reparent admits) (change source) =
        .ok (report, r₁, source₁) := by
      rw [next_reparent sized]
      exact stepped
    rw [interleave_cons stepped, interleave_cons stepped']
    obtain ⟨begins, goesOn⟩ := (charted.keeps (keeps source)).next tabular stepped
    rcases goesOn with stopped | ⟨charted', limit⟩
    · obtain ⟨faultClass, stopped⟩ := Option.ne_none_iff_exists'.mp stopped
      rw [interleave_of_stopped stopped, interleave_of_stopped stopped]
    · have sized' : r₁.Sized := by
        refine sized.next tabular.truthful stepped ?_
        cases report with
        | endOfStream | needMoreData | fault => rfl
        | tag e =>
          cases opens : e.isOpening with
          | false => rw [Report.opensUnsized, opens, Bool.false_and]
          | true =>
            have begun : (Report.tag e).begun? = some e := by
              refine Course.begun?_of_ne ?_
              rw [beq_iff_eq.mp opens]
              intro h
              cases h
            obtain ⟨items, offset, rest, there, mem⟩ := begins e begun
            exact known items offset rest there e mem
      rw [ih charted' sized' kept (limit ▸ known)]

end Charted

end TagStream
