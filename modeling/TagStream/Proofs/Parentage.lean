import TagStream.Proofs.Provision
import TagStream.Proofs.Skimming

/-!
What the parents of a table decide. Over one stream, two tables that differ in the parents only give
the same up to the first container of unknown size; from there on the same but for the closing tags,
and come to the same end; and where it is the end of the stream, the closing tags are the same, too,
though not at the same places.
-/

namespace TagStream

/-! ### Ends -/

/-- A reading is concluded if its last report is final, and no other is. -/
theorem concluded_iff {seen : List Observation} :
    concluded seen = true ↔ ∃ front o, seen = front ++ [o] ∧ o.report.isFinal = true ∧
      ∀ p ∈ front, p.report.isFinal = false := by
  induction seen with
  | nil => simp [concluded]
  | cons o later ih =>
    unfold concluded
    constructor
    · intro ended
      split at ended
      · next final =>
        obtain rfl := List.isEmpty_iff.mp ended
        exact ⟨[], o, rfl, final, by intro p mem; cases mem⟩
      · next going =>
        obtain ⟨front, last, rfl, final, others⟩ := ih.mp ended
        exact ⟨o :: front, last, rfl, final,
          List.forall_mem_cons.mpr ⟨Bool.eq_false_iff.mpr going, others⟩⟩
    · rintro ⟨front, last, split, final, others⟩
      cases front with
      | nil =>
        cases split
        rw [if_pos final]
        rfl
      | cons first front =>
        cases split
        obtain ⟨going, others⟩ := List.forall_mem_cons.mp others
        rw [if_neg (Bool.eq_false_iff.mp going)]
        exact ih.mpr ⟨front, last, rfl, final, others⟩

theorem Report.isFinal_of_isClosing {report : Report} (closes : report.isClosing = true) :
    report.isFinal = false := by
  cases report with
  | tag => rfl
  | endOfStream | needMoreData | fault => cases closes

theorem Report.isClosing_of_isFinal {report : Report} (final : report.isFinal = true) :
    report.isClosing = false := by
  cases report with
  | tag | needMoreData => cases final
  | endOfStream | fault => rfl

/-- The last report, if it is not of a closing tag, does not depend on where closing tags stand, as
long as none is the last. -/
theorem last_of_besidesClosings {front : List Observation} {o : Observation}
    {seen' : List Observation} (other : o.report.isClosing = false)
    (same : besidesClosings seen' = besidesClosings (front ++ [o]))
    (last' : ∀ p, seen'.getLast? = some p → p.report.isClosing = false) :
    ∃ front' o', seen' = front' ++ [o'] ∧ o'.report = o.report ∧
      besidesClosings front' = besidesClosings front := by
  rw [besidesClosings_append, besidesClosings_cons_of_other other] at same
  cases last : seen'.getLast? with
  | none =>
    obtain rfl := List.getLast?_eq_none_iff.mp last
    simp [besidesClosings] at same
  | some o' =>
    have other' := last' o' last
    obtain ⟨front', rfl⟩ := List.getLast?_eq_some_iff.mp last
    rw [besidesClosings_append, besidesClosings_cons_of_other other'] at same
    obtain ⟨before, after⟩ := List.append_inj' same rfl
    exact ⟨front', o', rfl, (List.cons.inj after).1, before⟩

theorem going_of_besidesClosings {seen seen' : List Observation}
    (same : besidesClosings seen' = besidesClosings seen)
    (going : ∀ p ∈ seen, p.report.isFinal = false) : ∀ p ∈ seen', p.report.isFinal = false := by
  intro p mem
  cases closes : p.report.isClosing with
  | true => exact Report.isFinal_of_isClosing closes
  | false =>
    have kept : p.report ∈ besidesClosings seen' := by
      simp only [besidesClosings, List.mem_filter, List.mem_map]
      exact ⟨⟨p, mem, rfl⟩, by simp [closes]⟩
    rw [same] at kept
    simp only [besidesClosings, List.mem_filter, List.mem_map] at kept
    obtain ⟨⟨p', mem', same⟩, -⟩ := kept
    rw [← same]
    exact going p' mem'

/-! ### Closing tags -/

/-- The elements that closing tags were seen of. -/
def closed (seen : List Observation) : List (ElementId × Position) :=
  ((tagsSeen seen).filter Emission.isClosing).map Emission.element

/-- The elements that opening tags were seen of. -/
def opened (seen : List Observation) : List (ElementId × Position) :=
  ((tagsSeen seen).filter Emission.isOpening).map Emission.element

/-- The elements that are not closed, with those that were closed, are those that were opened. -/
theorem perm_of_nest {unclosed unclosed' : List (ElementId × Position)}
    {emissions : List Emission} (matched : nest unclosed emissions = some unclosed') :
    (unclosed ++ (emissions.filter Emission.isOpening).map Emission.element).Perm
      (unclosed' ++ (emissions.filter Emission.isClosing).map Emission.element) := by
  induction emissions generalizing unclosed with
  | nil =>
    cases matched
    exact .refl _
  | cons e later ih =>
    rw [nest_cons] at matched
    obtain ⟨unclosed₁, first, rest⟩ := Option.bind_eq_some_iff.mp matched
    have later := ih rest
    rw [List.filter_cons, List.filter_cons]
    rcases cases_of_nestTag first with ⟨opening, closing, rfl⟩ | ⟨opening, closing, rfl⟩ |
      ⟨opening, closing, rfl⟩
    · simp only [opening, closing, if_true, Bool.false_eq_true, if_false, List.map_cons]
      exact List.perm_middle.trans later
    · simp only [opening, closing, if_true, Bool.false_eq_true, if_false, List.map_cons]
      exact (later.cons e.element).trans List.perm_middle.symm
    · simp only [opening, closing, Bool.false_eq_true, if_false]
      exact later

variable {σ : Type} [ByteSource σ] {schema : Schema} {r r' : Reader} {source source' : σ}
  {seen : List Observation}

/-- Where the stream has ended, whatever was opened was closed. -/
theorem closed_perm_opened (tabular : schema.Tabular) (start : r.AtStart) {count : Nat}
    (h : r.steps schema source count = .ok (seen, r', source'))
    (ended : lastReport? seen = some .endOfStream) : (closed seen).Perm (opened seen) := by
  have run : Run schema (fun _ _ => True) r source seen r' source' := .of_steps (by simp) h
  obtain ⟨moves, drained⟩ := run.moves tabular
  rw [start.slots] at moves
  obtain ⟨unclosed, matched, balanced⟩ :=
    nest_of_moves (@Balanced.settled [] (by intro _ h; cases h)) moves
  obtain ⟨o, last, final⟩ := Option.map_eq_some_iff.mp ended
  have allClosed : unclosed = [] := by
    have count := balanced.countP_isClosing
    rw [drained o last final] at count
    exact List.eq_nil_of_length_eq_zero (by simpa [opensNext] using count.symm)
  subst allClosed
  exact (perm_of_nest matched).symm

/-- No opening tag is left out along with the closing tags. -/
theorem opened_eq (seen : List Observation) :
    opened seen = (((besidesClosings seen).filterMap Report.tag?).filter Emission.isOpening).map
      Emission.element := by
  have opens (report : Report) : report.tag?.filter Emission.isOpening =
      (if !report.isClosing then report.tag? else none).filter Emission.isOpening := by
    cases report with
    | endOfStream | needMoreData | fault => rfl
    | tag e =>
      cases closes : e.isClosing with
      | false => simp [Report.isClosing, closes]
      | true =>
        have other : e.isOpening = false := by
          rw [Emission.isOpening, beq_iff_eq.mp closes]
          rfl
        simp [Report.isClosing, Report.tag?, Option.filter, closes, other]
  rw [opened, tagsSeen, besidesClosings, List.filterMap_filter, List.filterMap_map,
    List.filter_filterMap, List.filter_filterMap]
  exact congrArg (fun give => (seen.filterMap give).map Emission.element)
    (funext fun o => opens o.report)

/-- Two readings give the same reports but for closing tags; if the one is concluded, so is the
other, with the same report; and where it is the end of the stream, both have closed the same. -/
structure AgreeBesidesClosings (seen seen' : List Observation) : Prop where
  besides : besidesClosings seen' = besidesClosings seen
  ends : concluded seen = true → concluded seen' = true ∧ lastReport? seen' = lastReport? seen
  closings : lastReport? seen = some .endOfStream → (closed seen').Perm (closed seen)

theorem agreeBesidesClosings {schema' : Schema} (tabular : schema.Tabular)
    (tabular' : schema'.Tabular) (start : r.AtStart) {count count' : Nat}
    {seen' : List Observation} {r'' : Reader} {source'' : σ}
    (h : r.steps schema source count = .ok (seen, r', source'))
    (h' : r.steps schema' source count' = .ok (seen', r'', source''))
    (same : besidesClosings seen' = besidesClosings seen)
    (last' : ∀ o, seen'.getLast? = some o → o.report.isClosing = false) :
    AgreeBesidesClosings seen seen' := by
  refine ⟨same, ?_, ?_⟩
  · intro ended
    obtain ⟨front, o, rfl, final, others⟩ := concluded_iff.mp ended
    obtain ⟨front', o', rfl, same', before⟩ :=
      last_of_besidesClosings (Report.isClosing_of_isFinal final) same last'
    refine ⟨concluded_iff.mpr ⟨front', o', rfl, same' ▸ final, ?_⟩, ?_⟩
    · exact going_of_besidesClosings before others
    · simp only [lastReport?, List.getLast?_concat, Option.map_some, same']
  · intro ended
    obtain ⟨o, last, report⟩ := Option.map_eq_some_iff.mp ended
    obtain ⟨front, rfl⟩ := List.getLast?_eq_some_iff.mp last
    obtain ⟨front', o', rfl, same', before⟩ :=
      last_of_besidesClosings (by rw [report]; rfl) same last'
    have ended' : lastReport? (front' ++ [o']) = some .endOfStream := by
      simp only [lastReport?, List.getLast?_concat, Option.map_some, same', report]
    have opened_same : opened (front' ++ [o']) = opened (front ++ [o]) := by
      rw [opened_eq, opened_eq, same]
    refine (closed_perm_opened tabular' start h' ended').trans ?_
    rw [opened_same]
    exact (closed_perm_opened tabular start h ended).symm

/-! ### Tables -/

/-- **Parents matter only inside containers of unknown size.** Two tables have the same rows but for
their parents, and a reader at the start of a stream reads it with the one and with the other. Up to
the step that opens the first container of unknown size both runs are the same in all that they
give and leave; so whole runs over bytes that have no such container are. Over any source whose end
is final, the other run takes more or fewer steps to give the same besides closing tags. -/
theorem Table.agree_besides_closings {rows rows' : List Row}
    (same : rows.map Row.orphan = rows'.map Row.orphan) {r : Reader} (start : r.AtStart)
    (source : σ) :
    (∀ changes : List (σ → σ), ∃ given r' source',
      r.interleave (ofRows rows).schema source changes = .ok (given, r', source') ∧
      ((∀ item ∈ given.dropLast, item.1.opensUnsized = false) →
        r.interleave (ofRows rows').schema source changes = .ok (given, r', source'))) ∧
    (∀ (d : Delivery σ) (bytes : List UInt8), d.Owes source bytes →
      (∀ items offset rest,
        Items (ofRows rows).schema r.window.maxCapacity 0 bytes items offset rest →
          ∀ e ∈ items, (Report.tag e).opensUnsized = false) →
      ∀ changes : List (σ → σ), (∀ change ∈ changes, ∀ source, d.Keeps source (change source)) →
        r.interleave (ofRows rows').schema source changes =
          r.interleave (ofRows rows).schema source changes) ∧
    (∀ holds : σ → Prop, Ending holds → holds source → ∀ count, ∃ seen r' source',
      r.steps (ofRows rows).schema source count = .ok (seen, r', source') ∧
      ∃ count' seen' r'' source'',
        r.steps (ofRows rows').schema source count' = .ok (seen', r'', source'') ∧
          AgreeBesidesClosings seen seen') := by
  have tabular : (ofRows rows).schema.Tabular := .table _
  have tabular' : (ofRows rows').schema.Tabular := .table _
  rw [Table.schema_reparent same] at tabular' ⊢
  have sized : r.Sized := by
    intro k mem
    rw [start.containers] at mem
    cases mem
  refine ⟨?_, ?_, ?_⟩
  · intro changes
    obtain ⟨⟨given, r', source'⟩, run⟩ := tabular.defectless.exists_interleave r source changes
    exact ⟨given, r', source', run, Reader.interleave_reparent tabular.truthful sized run⟩
  · intro d bytes owes known changes kept
    exact (start.charted owes).interleave_reparent tabular sized kept known
  · intro holds ending there count
    obtain ⟨⟨seen, r', source'⟩, steps⟩ := tabular.defectless.exists_steps r source count
    refine ⟨seen, r', source', steps, ?_⟩
    obtain ⟨skimmed, q, source₁, skims⟩ := Reader.skim_of_steps tabular.truthful ending there
      start.closingsStacked (.even start.deferred rfl) steps
    rw [← Reader.skim_reparent (ofRows rows').schema.admits] at skims
    obtain ⟨count', seen', r'', source'', steps', besides, last⟩ :=
      Reader.exists_steps_of_skim tabular'.defectless tabular'.truthful ending there
        start.closingsStacked (.even start.deferred rfl) skims
    exact ⟨count', seen', r'', source'', steps',
      agreeBesidesClosings tabular tabular' start steps steps' besides last⟩

/-- A group of entries, and a count with this parent. -/
def groupRows (parent : Parent) : List Row :=
  [⟨0xA0, some "Group", .master, .root⟩, ⟨0xA1, some "Entry", .master, .element 0xA0⟩,
    ⟨0xA2, some "Count", .unsigned, parent⟩]

/-- A group of known size with a count, and one of unknown size with an entry of unknown size and a
count, which stands in the entry if that is its parent, and else ends it. -/
def groupBytes : Array UInt8 :=
  #[0xA0, 0x83, 0xA2, 0x81, 5, 0xA0, 0xFF, 0xA1, 0xFF, 0xA2, 0x81, 6]

/-- What is reported besides closing tags. -/
def groupReports : List Report :=
  [.tag ⟨⟨0xA0, some "Group", .master .opening⟩, ⟨0, 2, .known 3⟩⟩,
    .tag ⟨⟨0xA2, some "Count", .unsigned 5⟩, ⟨2, 2, .known 1⟩⟩,
    .tag ⟨⟨0xA0, some "Group", .master .opening⟩, ⟨5, 2, .unknown⟩⟩,
    .tag ⟨⟨0xA1, some "Entry", .master .opening⟩, ⟨7, 2, .unknown⟩⟩,
    .tag ⟨⟨0xA2, some "Count", .unsigned 6⟩, ⟨9, 2, .known 1⟩⟩, .endOfStream]

/-- The first group and its count have known sizes. -/
theorem sized_of_groupItems {items : List Emission} {offset : Nat} {rest : List UInt8}
    (found : Items (Table.ofRows (groupRows (.element 0xA1))).schema 1048576 0
      [0xA0, 0x83, 0xA2, 0x81, 5] items offset rest) :
    ∀ e ∈ items, (Report.tag e).opensUnsized = false := by
  have tabular : (Table.ofRows (groupRows (.element 0xA1))).schema.Tabular := .table _
  have wide : Header.maxLength ≤ 1048576 := by decide
  have count := @Item.leaf (Table.ofRows (groupRows (.element 0xA1))).schema 1048576 2
    ⟨0x22, 1⟩ ⟨1, 1⟩ [5] ⟨0xA2, some "Count", .unsigned 5⟩ [] (by decide) (by decide)
    (by decide +kernel) (by decide) (by decide) (by decide +kernel)
  have group := @Item.master (Table.ofRows (groupRows (.element 0xA1))).schema 1048576 0
    ⟨0x20, 1⟩ ⟨3, 1⟩ [0xA2, 0x81, 5] (by decide) (by decide) (by decide +kernel)
  have all := Items.cons group (.cons count (.nil _ _))
  have front := all.isPrefix_of_stuck tabular wide
    (fun _ _ _ item => item.ne_nil tabular wide rfl) found
  intro e mem
  have mem := front.subset mem
  simp only [List.mem_cons, List.not_mem_nil, or_false] at mem
  rcases mem with rfl | rfl
  · decide +kernel
  · decide +kernel

/-- With the entry as its parent the count comes before the entry's closing tag, with the group
after it. -/
theorem Table.agree_besides_closings_group :
    (∃ given r' source',
      (Reader.new {}).interleave (ofRows (groupRows (.element 0xA0))).schema
        (Memory.ofBytes groupBytes) (List.replicate 4 id) = .ok (given, r', source') ∧
      given.map (·.1.isClosing) = [false, false, true, false]) ∧
    (Reader.new {}).interleave (ofRows (groupRows (.element 0xA0))).schema
        (File.readable (groupBytes.take 5) 0) (List.replicate 4 id) =
      (Reader.new {}).interleave (ofRows (groupRows (.element 0xA1))).schema
        (File.readable (groupBytes.take 5) 0) (List.replicate 4 id) ∧
    ∃ count seen r' source',
      (Reader.new {}).steps (ofRows (groupRows (.element 0xA0))).schema
        (Memory.ofBytes groupBytes) count = .ok (seen, r', source') ∧
      besidesClosings seen = groupReports ∧ concluded seen = true ∧
      (closed seen).Perm [(0xA0, ⟨0, 2, .known 3⟩), (0xA1, ⟨7, 2, .unknown⟩),
        (0xA0, ⟨5, 2, .unknown⟩)] := by
  have same : (groupRows (.element 0xA1)).map Row.orphan =
      (groupRows (.element 0xA0)).map Row.orphan := rfl
  obtain ⟨upTo, -, besides⟩ :=
    Table.agree_besides_closings same (Reader.atStart_new {}) (Memory.ofBytes groupBytes)
  obtain ⟨-, sized, -⟩ :=
    Table.agree_besides_closings same (Reader.atStart_new {}) (File.readable (groupBytes.take 5) 0)
  refine ⟨?_, ?_, ?_⟩
  · obtain ⟨given, r', source', run, run'⟩ := upTo (List.replicate 4 id)
    have known : ((Reader.new {}).interleave (ofRows (groupRows (.element 0xA1))).schema
        (Memory.ofBytes groupBytes) (List.replicate 4 id)).toOption.map
          (fun given => (given.1.dropLast.all fun item => !item.1.opensUnsized,
            given.1.map (·.1.isClosing))) = some (true, [false, false, true, false]) := by
      decide +kernel
    rw [run] at known
    obtain ⟨known, closes⟩ := Prod.mk.inj (Option.some.inj known)
    refine ⟨given, r', source', run' ?_, closes⟩
    intro item mem
    simpa using List.all_eq_true.mp known item mem
  · have owes : File.delivery.Owes (.readable (groupBytes.take 5) 0) [0xA0, 0x83, 0xA2, 0x81, 5] :=
      ⟨rfl, rfl⟩
    refine sized File.delivery _ owes (fun _ _ _ items => sized_of_groupItems items) _ ?_
    intro change mem source
    rw [List.eq_of_mem_replicate mem]
    exact File.delivery.keeps_refl source
  · obtain ⟨seen, r', source', steps, count, seen', r'', source'', steps', agree⟩ :=
      besides (fun _ => True) Memory.ending trivial 9
    have shown : (Reader.new {}).shown (ofRows (groupRows (.element 0xA1))).schema
        (Memory.ofBytes groupBytes) 9 = seen := by
      rw [Reader.shown, steps]
    have given : besidesClosings seen = groupReports := by
      rw [← shown]
      decide +kernel
    have ended : concluded seen = true := by
      rw [← shown]
      decide +kernel
    have last : lastReport? seen = some .endOfStream := by
      rw [← shown]
      decide +kernel
    have closings : closed seen = [(0xA0, ⟨0, 2, .known 3⟩), (0xA1, ⟨7, 2, .unknown⟩),
        (0xA0, ⟨5, 2, .unknown⟩)] := by
      rw [← shown]
      decide +kernel
    exact ⟨count, seen', r'', source'', steps', agree.besides.trans given, (agree.ends ended).1,
      closings ▸ agree.closings last⟩

end TagStream
