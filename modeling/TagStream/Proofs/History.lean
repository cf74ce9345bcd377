import TagStream.Proofs.Hearing

/-!
Histories. A reader is `Reached` if it has been made, taken through steps over sources in any state,
and reset, in any order; whatever its history, it keeps its limit and the threshold of its journal
(`Reached.founded`). `Reader.interleave` takes steps between which the owner of the source does
something to it, for instance feeds it, and shows the reader after each. A reader that has stopped
is at the end of its history until it is reset (`interleave_of_stopped`).
-/

namespace TagStream.Reader

/-! ### Readers that can be reached -/

/-- The reader can be made like this, with steps over sources of this type and with resets. -/
inductive Reached (σ : Type) [ByteSource σ] (schema : Schema) (c : Config) : Reader → Prop where
  | new : Reached σ schema c (.new c)
  | next {r r' : Reader} {source source' : σ} {report : Report} : Reached σ schema c r →
      r.next schema source = .ok (report, r', source') → Reached σ schema c r'
  | reset {r : Reader} : Reached σ schema c r → Reached σ schema c r.reset

/-- What no step changes: that consumed bytes were written, the limit, and the threshold. -/
structure SameFrame (r r' : Reader) : Prop where
  inside : r.window.head ≤ r.window.cells.size → r'.window.head ≤ r'.window.cells.size
  limit : r'.window.maxCapacity = r.window.maxCapacity
  threshold : r'.journal.threshold = r.journal.threshold

theorem SameFrame.refl (r : Reader) : SameFrame r r :=
  ⟨id, rfl, rfl⟩

theorem SameFrame.trans {r r₁ r₂ : Reader} (first : SameFrame r r₁) (second : SameFrame r₁ r₂) :
    SameFrame r r₂ where
  inside := second.inside ∘ first.inside
  limit := second.limit.trans first.limit
  threshold := second.threshold.trans first.threshold

theorem threshold_note (j : Journal) (event : Event) : (j.note event).threshold = j.threshold := by
  unfold Journal.note
  split <;> rfl

/-- Consuming goes no further than what was written. -/
theorem sameFrame_consume (r : Reader) (count : Nat) : SameFrame r (r.consume count) := by
  refine ⟨fun inside => Window.inside_advance inside count, ?_, rfl⟩
  · simp only [consume, Window.advance]
    split <;> rfl

theorem sameFrame_stop (r : Reader) (fault : Fault) : SameFrame r (r.stop fault).2 :=
  ⟨id, rfl, threshold_note _ _⟩

theorem sameFrame_place (r : Reader) (schema : Schema) (id : ElementId) (emission : Emission)
    (closing : Option Emission) : SameFrame r (r.place schema id emission closing).2 := by
  unfold place
  split
  · split
    · exact ⟨fun inside => inside, rfl, threshold_note _ _⟩
    · exact ⟨fun inside => inside, rfl, rfl⟩
  · exact ⟨fun inside => inside, rfl, rfl⟩

theorem sameFrame_fallShort (r : Reader) (lack : Lack) : SameFrame r (r.fallShort lack).2 := by
  unfold fallShort
  split
  · exact .refl r
  · unfold closeAtEnd
    split
    · exact .refl r
    · exact ⟨id, rfl, threshold_note _ _⟩
  all_goals exact sameFrame_stop r _

theorem sameFrame_of_acted {schema : Schema} {r : Reader} {settled : Except Lack Verdict}
    {given : Report × Reader} (acted : Acted schema r settled given) : SameFrame r given.2 := by
  cases acted with
  | enter => exact (sameFrame_consume r _).trans (sameFrame_place ..)
  | leaf =>
    exact ((sameFrame_consume r _).trans (sameFrame_consume _ _)).trans (sameFrame_place ..)
  | malformed =>
    exact ((sameFrame_consume r _).trans (sameFrame_consume _ _)).trans (sameFrame_stop _ _)
  | refuse fault => exact sameFrame_stop r fault
  | fallShort lack => exact sameFrame_fallShort r lack

theorem sameFrame_owed {r r' : Reader} {emission : Emission} (h : r.owed? = some (emission, r')) :
    SameFrame r (r'.emit emission).2 := by
  unfold owed? at h
  split at h
  · cases h
    exact ⟨id, rfl, rfl⟩
  · cases h
  · split at h
    · cases h
      exact ⟨id, rfl, rfl⟩
    · cases h

variable {σ : Type} [ByteSource σ] {schema : Schema} {c : Config}

/-- A step over any source can be heard. -/
theorem exists_heard {r r' : Reader} {source source' : σ} {report : Report}
    (h : r.next schema source = .ok (report, r', source')) (past : List Answer) :
    ∃ heard', r.next schema (⟨source, past⟩ : Heard σ) = .ok (report, r', heard') ∧
      heard'.source = source' := by
  have mapped := next_map Heard.echoes_source r schema (⟨source, past⟩ : Heard σ)
  rw [h] at mapped
  cases stepped : r.next schema (⟨source, past⟩ : Heard σ) with
  | error defect =>
    rw [stepped] at mapped
    cases mapped
  | ok given =>
    obtain ⟨report₁, r₁, heard'⟩ := given
    rw [stepped] at mapped
    cases mapped
    exact ⟨heard', rfl, rfl⟩

theorem sameFrame_next {r r' : Reader} {source source' : σ} {report : Report}
    (inside : r.window.head ≤ r.window.cells.size)
    (h : r.next schema source = .ok (report, r', source')) : SameFrame r r' := by
  obtain ⟨heard', stepped, -⟩ := exists_heard h []
  cases stepped_of_next stepped with
  | repeated => exact .refl r
  | owed _ owed => exact sameFrame_owed owed
  | acted _ _ gathered acted =>
    obtain ⟨answers, -, hears, -⟩ := Window.hears_gather inside gathered
    have drawn : SameFrame r { r with window := _ } :=
      ⟨fun _ => hears.drawn.inside, hears.drawn.limit, rfl⟩
    exact drawn.trans (sameFrame_of_acted (acted_of_act acted))

/-- What is known of a reader of this configuration, whatever its history. -/
structure Founded (c : Config) (r : Reader) : Prop where
  inside : r.window.head ≤ r.window.cells.size
  limit : r.window.maxCapacity = c.maxCapacity
  threshold : r.journal.threshold = c.threshold

theorem Reached.founded {r : Reader} (reached : Reached σ schema c r) : r.Founded c := by
  induction reached with
  | new => exact ⟨Nat.le_refl _, rfl, rfl⟩
  | next _ stepped ih =>
    have frame := sameFrame_next ih.inside stepped
    exact ⟨frame.inside ih.inside, frame.limit.trans ih.limit, frame.threshold.trans ih.threshold⟩
  | reset _ ih => exact ⟨Nat.le_refl _, ih.limit, ih.threshold⟩

/-- A reader and a source after so many steps; as they were, if they meet a defect of the schema. -/
def after (r : Reader) (schema : Schema) (source : σ) (count : Nat) : Reader × σ :=
  match r.steps schema source count with
  | .ok (_, r', source') => (r', source')
  | .error _ => (r, source)

theorem Reached.of_steps {r r' : Reader} {source source' : σ} {count : Nat}
    {seen : List Observation} (reached : Reached σ schema c r)
    (h : r.steps schema source count = .ok (seen, r', source')) : Reached σ schema c r' := by
  have run : Run schema (fun _ _ => True) r source seen r' source' := .of_steps (by simp) h
  clear h
  induction run with
  | nil => exact reached
  | cons _ stepped _ ih => exact ih (reached.next stepped)

theorem Reached.after {r : Reader} (reached : Reached σ schema c r) (source : σ) (count : Nat) :
    Reached σ schema c (r.after schema source count).1 := by
  unfold Reader.after
  split
  · next steps => exact reached.of_steps steps
  · exact reached

/-! ### Steps and changes of the source -/

/-- Takes one step after each change of the source. Gives the report of each step and the reader
after it. -/
def interleave (r : Reader) (schema : Schema) (source : σ) :
    (changes : List (σ → σ)) → Except Defect (List (Report × Reader) × Reader × σ)
  | [] => .ok ([], r, source)
  | change :: changes => do
    let (report, r, source) ← r.next schema (change source)
    let (later, r', source') ← r.interleave schema source changes
    return ((report, r) :: later, r', source')

theorem interleave_cons {r r₁ : Reader} {source source₁ : σ} {report : Report} {change : σ → σ}
    (stepped : r.next schema (change source) = .ok (report, r₁, source₁))
    (changes : List (σ → σ)) :
    r.interleave schema source (change :: changes) =
      (r₁.interleave schema source₁ changes).map fun given =>
        ((report, r₁) :: given.1, given.2.1, given.2.2) := by
  simp only [interleave, stepped, bind, Except.bind]
  cases r₁.interleave schema source₁ changes <;> rfl

theorem cases_of_interleave {r r' : Reader} {source source' : σ} {change : σ → σ}
    {changes : List (σ → σ)} {given : List (Report × Reader)}
    (h : r.interleave schema source (change :: changes) = .ok (given, r', source')) :
    ∃ report r₁ source₁ later, r.next schema (change source) = .ok (report, r₁, source₁) ∧
      r₁.interleave schema source₁ changes = .ok (later, r', source') ∧
      given = (report, r₁) :: later := by
  cases stepped : r.next schema (change source) with
  | error defect => simp [interleave, stepped, bind, Except.bind] at h
  | ok result =>
    obtain ⟨report, r₁, source₁⟩ := result
    rw [interleave_cons stepped] at h
    cases rest : r₁.interleave schema source₁ changes with
    | error defect =>
      rw [rest] at h
      cases h
    | ok given =>
      rw [rest] at h
      cases h
      exact ⟨report, r₁, source₁, given.1, rfl, rest, rfl⟩

theorem length_of_interleave {r r' : Reader} {source source' : σ} {changes : List (σ → σ)}
    {given : List (Report × Reader)}
    (h : r.interleave schema source changes = .ok (given, r', source')) :
    given.length = changes.length := by
  induction changes generalizing r source given with
  | nil =>
    cases h
    rfl
  | cons change changes ih =>
    obtain ⟨report, r₁, source₁, later, -, rest, rfl⟩ := cases_of_interleave h
    exact congrArg (· + 1) (ih rest)

/-- What no read and no change makes an end of, no steps and changes do. -/
theorem lasting_interleave {holds : σ → Prop} (lasting : Lasting holds) {r r' : Reader}
    {source source' : σ} {changes : List (σ → σ)} {given : List (Report × Reader)}
    (kept : ∀ change ∈ changes, ∀ source, holds source → holds (change source))
    (before : holds source)
    (h : r.interleave schema source changes = .ok (given, r', source')) : holds source' := by
  induction changes generalizing r source given with
  | nil =>
    cases h
    exact before
  | cons change changes ih =>
    obtain ⟨report, r₁, source₁, later, stepped, rest, -⟩ := cases_of_interleave h
    obtain ⟨first, others⟩ := List.forall_mem_cons.mp kept
    exact ih others (lasting_next lasting (first source before) stepped) rest

/-- A reader that has stopped repeats its fault, whatever happens to the source, reads nothing of it
and changes in nothing. -/
theorem interleave_of_stopped {r : Reader} {faultClass : FaultClass}
    (stopped : r.stopped = some faultClass) (source : σ) (changes : List (σ → σ)) :
    r.interleave schema source changes =
      .ok (changes.map fun _ => (.fault (.repeated faultClass), r), r,
        changes.foldl (fun source change => change source) source) := by
  induction changes generalizing source with
  | nil => rfl
  | cons change changes ih =>
    have stepped : r.next schema (change source) =
        .ok (.fault (.repeated faultClass), r, change source) :=
      (Stepped.repeated stopped).next_eq
    rw [interleave_cons stepped, ih]
    rfl

/-! ### What is heard of several steps -/

/-- Steps over a source that is heard are the steps over the source itself. -/
theorem interleave_heard (r : Reader) (schema : Schema) (heard : Heard σ)
    (changes : List (σ → σ)) :
    r.interleave schema heard.source changes =
      (r.interleave schema heard (changes.map Heard.lift)).map fun given =>
        (given.1, given.2.1, given.2.2.source) := by
  induction changes generalizing r heard with
  | nil => rfl
  | cons change changes ih =>
    have mapped : r.next schema (change heard.source) = _ :=
      next_map Heard.echoes_source r schema (heard.lift change)
    cases stepped : r.next schema (heard.lift change) with
    | error defect =>
      rw [stepped] at mapped
      simp only [List.map_cons, interleave, mapped, stepped, Except.map, bind, Except.bind]
    | ok result =>
      obtain ⟨report, r₁, heard₁⟩ := result
      rw [stepped] at mapped
      rw [List.map_cons, interleave_cons mapped, interleave_cons stepped, ih]
      cases r₁.interleave schema heard₁ (changes.map Heard.lift) <;> rfl

/-- What several steps hear: no fewer pauses than they report, and no more answers than bring bytes,
but for one each. -/
theorem hears_interleave {r r' : Reader} {heard heard' : Heard σ} {changes : List (σ → σ)}
    {given : List (Report × Reader)} (inside : r.window.head ≤ r.window.cells.size)
    (h : r.interleave schema heard (changes.map Heard.lift) = .ok (given, r', heard')) :
    ∃ answers, heard'.answers = heard.answers ++ answers ∧
      given.countP (·.1.isPause) ≤ answers.countP Answer.isPause ∧
      answers.length ≤ (answers.flatMap Answer.bytes).length + changes.length := by
  induction changes generalizing r heard given with
  | nil =>
    cases h
    exact ⟨[], (List.append_nil _).symm, Nat.le_refl _, Nat.zero_le _⟩
  | cons change changes ih =>
    obtain ⟨report, r₁, heard₁, later, stepped, rest, rfl⟩ := cases_of_interleave h
    obtain ⟨first, told, paused, few⟩ := hears_next inside stepped
    obtain ⟨others, told', pauses, few'⟩ := ih ((sameFrame_next inside stepped).inside inside) rest
    refine ⟨first ++ others, ?_, ?_, ?_⟩
    · rw [told', told, List.append_assoc]
      rfl
    · rw [List.countP_cons, List.countP_append]
      split
      · next isPause =>
        have := paused isPause
        omega
      · omega
    · rw [List.flatMap_append, List.length_append, List.length_append, List.length_cons]
      omega

end TagStream.Reader
