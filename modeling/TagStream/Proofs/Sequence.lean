import TagStream.Proofs.History
import TagStream.Proofs.Independence
import TagStream.Reader.Run

/-!
The lazy sequence against the steps it is made of. `Cursor.tour` makes a cursor and moves it on
again and again, with a change of the source before each move; `Reader.interleave` takes the steps
themselves. As long as no report is final, the two go hand in hand, one step for each move
(`travel_of_going`); after a final report the cursor has ended, at once or with its next move, and
nothing is read any more (`travel_of_final`).
-/

namespace TagStream

variable {σ : Type} [ByteSource σ] {schema : Schema}

namespace Reader

/-- Steps taken in two parts are the steps of both. -/
theorem interleave_append {r r' : Reader} {source source' : σ} {changes : List (σ → σ)}
    {given : List (Report × Reader)}
    (h : r.interleave schema source changes = .ok (given, r', source')) (more : List (σ → σ)) :
    r.interleave schema source (changes ++ more) =
      (r'.interleave schema source' more).map fun later => (given ++ later.1, later.2) := by
  induction changes generalizing r source given with
  | nil =>
    cases h
    rw [List.nil_append]
    cases r'.interleave schema source' more <;> rfl
  | cons change changes ih =>
    obtain ⟨report, r₁, source₁, later, stepped, rest, rfl⟩ := cases_of_interleave h
    rw [List.cons_append, interleave_cons stepped, ih rest]
    cases r'.interleave schema source' more <;> rfl

end Reader

namespace Cursor

/-! ### Moving on -/

/-- Moves on once after each change of the source. Gives the cursor and the reader after each
move. -/
def travel (c : Cursor) (r : Reader) (schema : Schema) (source : σ) :
    (changes : List (σ → σ)) → Except Defect (List (Cursor × Reader) × Reader × σ)
  | [] => .ok ([], r, source)
  | change :: changes => do
    let (c, r, source) ← c.advance r schema (change source)
    let (later, r', source') ← c.travel r schema source changes
    return ((c, r) :: later, r', source')

/-- Makes a cursor after the first change of the source and moves it on after each further one. -/
def tour (r : Reader) (schema : Schema) (source : σ) :
    (changes : List (σ → σ)) → Except Defect (List (Cursor × Reader) × Reader × σ)
  | [] => .ok ([], r, source)
  | change :: changes => do
    let (c, r, source) ← step r schema (change source)
    let (later, r', source') ← c.travel r schema source changes
    return ((c, r) :: later, r', source')

/-- Where a cursor stands after a step. -/
def place (given : Report × Reader) : Cursor × Reader :=
  (ofReport given.1, given.2)

/-- The reports that a loop over the sequence is handed: those at which the cursor has not ended. -/
def yielded (places : List (Cursor × Reader)) : List Report :=
  (places.filter fun place => !place.1.ended).map fun place => place.1.current

theorem tour_cons {r r₁ : Reader} {source source₁ : σ} {report : Report} {change : σ → σ}
    (stepped : r.next schema (change source) = .ok (report, r₁, source₁))
    (changes : List (σ → σ)) :
    tour r schema source (change :: changes) =
      ((ofReport report).travel r₁ schema source₁ changes).map fun later =>
        (place (report, r₁) :: later.1, later.2) := by
  simp only [tour, step, stepped, Except.map, bind, Except.bind]
  cases (ofReport report).travel r₁ schema source₁ changes <;> rfl

theorem tour_cons_of_error {r : Reader} {source : σ} {defect : Defect} {change : σ → σ}
    (stepped : r.next schema (change source) = .error defect) (changes : List (σ → σ)) :
    tour r schema source (change :: changes) = .error defect := by
  simp only [tour, step, stepped, Except.map, bind, Except.bind]

/-- To move on from a report that is not final is to read the next one, as a new cursor does. -/
theorem travel_of_going {report : Report} (going : report.isFinal = false) (r : Reader)
    (source : σ) (changes : List (σ → σ)) :
    (ofReport report).travel r schema source changes = tour r schema source changes := by
  have advance_eq : ∀ source : σ, (ofReport report).advance r schema source =
      step r schema source := by
    intro source
    cases report with
    | tag | needMoreData => rfl
    | endOfStream | fault => cases going
  cases changes with
  | nil => rfl
  | cons change changes => rw [travel, advance_eq, tour]

/-- A cursor that has ended stays where it is and reads nothing. -/
theorem travel_of_ended {c : Cursor} (ended : c.ended = true) (r : Reader) (source : σ)
    (changes : List (σ → σ)) :
    c.travel r schema source changes = .ok (changes.map fun _ => (c, r), r,
      changes.foldl (fun source change => change source) source) := by
  induction changes generalizing source with
  | nil => rfl
  | cons change changes ih =>
    have stays : c.advance r schema (change source) = .ok (c, r, change source) :=
      if_pos ended
    simp only [travel, stays, ih, bind, Except.bind]
    rfl

/-- After a final report the cursor has ended, with its next move at the latest, and nothing is
read. -/
theorem travel_of_final {report : Report} (final : report.isFinal = true) (r : Reader)
    (source : σ) (changes : List (σ → σ)) :
    (ofReport report).travel r schema source changes =
      .ok (changes.map fun _ => (⟨report, true⟩, r), r,
        changes.foldl (fun source change => change source) source) := by
  cases report with
  | tag | needMoreData => cases final
  | endOfStream => exact travel_of_ended rfl r source changes
  | fault fault =>
    cases changes with
    | nil => rfl
    | cons change changes =>
      have ends : (ofReport (.fault fault)).advance r schema (change source) =
          .ok (⟨.fault fault, true⟩, r, change source) := rfl
      simp only [travel, ends, travel_of_ended, bind, Except.bind]
      rfl

/-! ### The sequence and the steps -/

/-- A sequence left before its end is continued by a new one, with the very next report. -/
theorem tour_append {r r' : Reader} {source source' : σ} {changes : List (σ → σ)}
    {given : List (Report × Reader)}
    (h : r.interleave schema source changes = .ok (given, r', source'))
    (going : ∀ item ∈ given, item.1.isFinal = false) (more : List (σ → σ)) :
    tour r schema source (changes ++ more) =
      (tour r' schema source' more).map fun later => (given.map place ++ later.1, later.2) := by
  induction changes generalizing r source given with
  | nil =>
    cases h
    rw [List.nil_append]
    cases tour r' schema source' more <;> rfl
  | cons change changes ih =>
    obtain ⟨report, r₁, source₁, later, stepped, rest, rfl⟩ := Reader.cases_of_interleave h
    obtain ⟨first, others⟩ := List.forall_mem_cons.mp going
    rw [List.cons_append, tour_cons stepped, travel_of_going first, ih rest others]
    cases tour r' schema source' more <;> rfl

/-- What is handed to the loop are the reports of the steps, less the end of the stream. -/
theorem yielded_map_place (given : List (Report × Reader)) :
    yielded (given.map place) = (given.map Prod.fst).filter (· != .endOfStream) := by
  simp only [yielded, List.filter_map, List.map_map]
  rfl

omit [ByteSource σ] in
/-- A cursor that has ended hands over nothing more. -/
theorem yielded_append_of_ended {c : Cursor} (ended : c.ended = true) (r : Reader)
    (places : List (Cursor × Reader)) (changes : List (σ → σ)) :
    yielded (places ++ changes.map fun _ => (c, r)) = yielded places := by
  simp [yielded, ended]

/-- A sequence that meets no defect of the schema: one step of the reader for each move, up to the
first final report, and a cursor that has ended after every move from then on. -/
structure Retold (schema : Schema) (r : Reader) (source : σ) (called uncalled : List (σ → σ))
    (given : List (Report × Reader)) (r' : Reader) (source' : σ) : Prop where
  steps : r.interleave schema source called = .ok (given, r', source')
  going : ∀ item ∈ given.dropLast, item.1.isFinal = false
  stops : uncalled ≠ [] → ∃ item ∈ given.getLast?, item.1.isFinal = true
  tour : ∃ idle : Cursor, idle.ended = true ∧
    tour r schema source (called ++ uncalled) =
      .ok (given.map place ++ uncalled.map (fun _ => (idle, r')), r',
        uncalled.foldl (fun source change => change source) source')

/-- A sequence of which the steps meet a defect: it meets the same one, at the same move. -/
structure Broken (schema : Schema) (r : Reader) (source : σ) (called : List (σ → σ))
    (change : σ → σ) (uncalled : List (σ → σ)) (defect : Defect) : Prop where
  steps : ∃ given r' source', r.interleave schema source called = .ok (given, r', source') ∧
    (∀ item ∈ given, item.1.isFinal = false) ∧ r'.next schema (change source') = .error defect
  tour : tour r schema source (called ++ change :: uncalled) = .error defect

theorem Retold.nil (r : Reader) (source : σ) : Retold schema r source [] [] [] r source where
  steps := rfl
  going := by simp
  stops := by simp
  tour := ⟨{}, rfl, rfl⟩

theorem Retold.of_final {r r' : Reader} {source source' : σ} {report : Report} {change : σ → σ}
    (stepped : r.next schema (change source) = .ok (report, r', source'))
    (final : report.isFinal = true) (uncalled : List (σ → σ)) :
    Retold schema r source [change] uncalled [(report, r')] r' source' where
  steps := Reader.interleave_cons stepped []
  going := by simp
  stops _ := ⟨_, rfl, final⟩
  tour := by
    refine ⟨⟨report, true⟩, rfl, ?_⟩
    rw [List.singleton_append, tour_cons stepped, travel_of_final final]
    rfl

theorem Retold.cons {r r₁ r' : Reader} {source source₁ source' : σ} {report : Report}
    {change : σ → σ} {called uncalled : List (σ → σ)} {given : List (Report × Reader)}
    (stepped : r.next schema (change source) = .ok (report, r₁, source₁))
    (going : report.isFinal = false)
    (retold : Retold schema r₁ source₁ called uncalled given r' source') :
    Retold schema r source (change :: called) uncalled ((report, r₁) :: given) r' source' where
  steps := by
    rw [Reader.interleave_cons stepped, retold.steps]
    rfl
  going := by
    cases given with
    | nil => simp
    | cons next later =>
      rw [List.dropLast_cons_cons]
      exact List.forall_mem_cons.mpr ⟨going, retold.going⟩
  stops left := by
    obtain ⟨item, last, final⟩ := retold.stops left
    exact ⟨item, by simp_all [List.getLast?_cons], final⟩
  tour := by
    obtain ⟨idle, ended, toured⟩ := retold.tour
    refine ⟨idle, ended, ?_⟩
    rw [List.cons_append, tour_cons stepped, travel_of_going going, toured]
    rfl

theorem Broken.cons {r r₁ : Reader} {source source₁ : σ} {report : Report}
    {change bad : σ → σ} {called uncalled : List (σ → σ)} {defect : Defect}
    (stepped : r.next schema (change source) = .ok (report, r₁, source₁))
    (going : report.isFinal = false)
    (broken : Broken schema r₁ source₁ called bad uncalled defect) :
    Broken schema r source (change :: called) bad uncalled defect where
  steps := by
    obtain ⟨given, r', source', steps, others, failed⟩ := broken.steps
    refine ⟨(report, r₁) :: given, r', source', ?_, ?_, failed⟩
    · rw [Reader.interleave_cons stepped, steps]
      rfl
    · exact List.forall_mem_cons.mpr ⟨going, others⟩
  tour := by
    rw [List.cons_append, tour_cons stepped, travel_of_going going, broken.tour]
    rfl

/-- Every sequence is told over again by the steps it is made of. -/
theorem retold_or_broken (r : Reader) (schema : Schema) (source : σ) (changes : List (σ → σ)) :
    (∃ called uncalled given r' source', changes = called ++ uncalled ∧
      Retold schema r source called uncalled given r' source') ∨
    (∃ called change uncalled defect, changes = called ++ change :: uncalled ∧
      Broken schema r source called change uncalled defect) := by
  induction changes generalizing r source with
  | nil => exact .inl ⟨[], [], [], r, source, rfl, .nil r source⟩
  | cons change changes ih =>
    cases stepped : r.next schema (change source) with
    | error defect =>
      exact .inr ⟨[], change, changes, defect, rfl,
        ⟨⟨[], r, source, rfl, by simp, stepped⟩, tour_cons_of_error stepped changes⟩⟩
    | ok result =>
      obtain ⟨report, r₁, source₁⟩ := result
      cases going : report.isFinal with
      | true =>
        exact .inl ⟨[change], changes, [(report, r₁)], r₁, source₁, rfl,
          .of_final stepped going changes⟩
      | false =>
        rcases ih r₁ source₁ with ⟨called, uncalled, given, r', source', rfl, retold⟩ |
          ⟨called, bad, uncalled, defect, rfl, broken⟩
        · exact .inl ⟨change :: called, uncalled, (report, r₁) :: given, r', source', rfl,
            retold.cons stepped going⟩
        · exact .inr ⟨change :: called, bad, uncalled, defect, rfl,
            broken.cons stepped going⟩

/-- What is handed over by a sequence that is told over again. -/
theorem Retold.yields {r r' end' : Reader} {source source' last : σ}
    {called uncalled : List (σ → σ)} {given : List (Report × Reader)}
    {places : List (Cursor × Reader)}
    (retold : Retold schema r source called uncalled given r' source')
    (toured : Cursor.tour r schema source (called ++ uncalled) = .ok (places, end', last)) :
    yielded places = (given.map Prod.fst).filter (· != .endOfStream) := by
  obtain ⟨idle, ended, toured'⟩ := retold.tour
  rw [toured] at toured'
  cases toured'
  rw [yielded_append_of_ended ended, yielded_map_place]

/-- The sequence of a reader that has stopped is its fault, and nothing is read for it. -/
theorem tour_of_stopped {r : Reader} {faultClass : FaultClass}
    (stopped : r.stopped = some faultClass) (source : σ) (change : σ → σ)
    (changes : List (σ → σ)) :
    tour r schema source (change :: changes) =
      .ok ((⟨.fault (.repeated faultClass), false⟩, r) ::
          changes.map (fun _ => (⟨.fault (.repeated faultClass), true⟩, r)), r,
        (change :: changes).foldl (fun source change => change source) source) := by
  have stepped : r.next schema (change source) =
      .ok (.fault (.repeated faultClass), r, change source) :=
    (Reader.Stepped.repeated stopped).next_eq
  rw [tour_cons stepped, travel_of_final rfl]
  rfl

/-- **The lazy sequence is the steps themselves.** A sequence begun at any reader, with anything
done to the source before each move, takes one step of reading for each move up to the first final
report, and none after it: the source is then only what its owner makes of it, and the reader stays.
What it hands over are the reports of these steps, but for the end of the stream. Steps or a new
sequence that come after go on with the very next report. Of a reader that has stopped the fault is
handed over, once. -/
theorem tour_retells (r : Reader) (schema : Schema) (source : σ) (changes : List (σ → σ)) :
    ((∃ called uncalled given r' source', changes = called ++ uncalled ∧
        Retold schema r source called uncalled given r' source' ∧
        (∀ places last, tour r schema source changes = .ok (places, last) →
          yielded places = (given.map Prod.fst).filter (· != .endOfStream)) ∧
        (∀ more, r.interleave schema source (called ++ more) =
          (r'.interleave schema source' more).map fun later => (given ++ later.1, later.2)) ∧
        ((∀ item ∈ given, item.1.isFinal = false) → ∀ more,
          tour r schema source (called ++ more) =
            (tour r' schema source' more).map fun later =>
              (given.map place ++ later.1, later.2))) ∨
      ∃ called change uncalled defect, changes = called ++ change :: uncalled ∧
        Broken schema r source called change uncalled defect) ∧
    ∀ faultClass, r.stopped = some faultClass → ∀ change later, changes = change :: later →
      ∃ places, tour r schema source changes =
          .ok (places, r, changes.foldl (fun source change => change source) source) ∧
        yielded places = [.fault (.repeated faultClass)] := by
  constructor
  · rcases retold_or_broken r schema source changes with
      ⟨called, uncalled, given, r', source', rfl, retold⟩ | broken
    · refine .inl ⟨called, uncalled, given, r', source', rfl, retold, ?_, ?_, ?_⟩
      · intro places last toured
        exact retold.yields toured
      · exact Reader.interleave_append retold.steps
      · exact tour_append retold.steps
    · exact .inr broken
  · rintro faultClass stopped change later rfl
    refine ⟨_, tour_of_stopped stopped source change later, ?_⟩
    rw [← List.singleton_append, yielded_append_of_ended rfl]
    rfl

end Cursor

end TagStream
