import TagStream.Proofs.Independence
import TagStream.Proofs.Tabular

/-!
Containers are nested. The tags that a reader owes lie on one stack of slots, and each tag that it
gives is a move of that stack (`Move`): a slot is given from the top, a container is put on the top,
or a new slot takes the place of the container that is closed for it. The moves keep the slots
balanced against the opening tags that were given and not closed (`Balanced`), and so every closing
tag that is given matches the last opening tag that has not been closed (`nest_of_moves`). Nothing
is assumed of the source, which may fail, end and go on as it likes, nor of its bytes
(`nested_of_run`).
-/

namespace TagStream

/-! ### Slots and their moves -/

/-- A tag that is owed: the closing tag of a container, or a tag that was put off. -/
inductive Slot where
  | closing (tag : Emission)
  | deferred (tag : Emission)
  deriving DecidableEq, Repr

namespace Emission

/-- The element that a tag belongs to. -/
def element (e : Emission) : ElementId × Position :=
  (e.tag.id, e.position)

def isOpening (e : Emission) : Bool :=
  e.tag.content == .master .opening

def isClosing (e : Emission) : Bool :=
  e.tag.content == .master .closing

/-- The first tag opens the container that the second one closes. -/
structure Opens (e k : Emission) : Prop where
  opening : e.tag.content = .master .opening
  closing : k.tag.content = .master .closing
  same : e.element = k.element

/-- The tag of a leaf. -/
def IsLeaf (e : Emission) : Prop :=
  e.tag.isMaster = false

end Emission

/-- No tag has been put off that is still to be given. -/
def Settled (slots : List Slot) : Prop :=
  ∀ e, slots.head? ≠ some (.deferred e)

def Slot.isClosing : Slot → Bool
  | .closing _ => true
  | .deferred _ => false

/-- Whether the tag that is to be given next was put off and opens a container. -/
def opensNext : List Slot → Bool
  | .deferred e :: _ => e.isOpening
  | _ => false

/-- A tag is given, and the slots change. -/
inductive Move : List Slot → Emission → List Slot → Prop where
  | give (e : Emission) (rest : List Slot) : Move (.deferred e :: rest) e rest
  | close (k : Emission) (rest : List Slot) : Move (.closing k :: rest) k rest
  | leaf {e : Emission} {slots : List Slot} : e.IsLeaf → Settled slots → Move slots e slots
  | enter {e k : Emission} {slots : List Slot} : e.Opens k → Settled slots →
      Move slots e (.closing k :: slots)
  | leafDisplaces {e : Emission} (k : Emission) (rest : List Slot) : e.IsLeaf →
      Move (.closing k :: rest) k (.deferred e :: rest)
  | masterDisplaces {e k' : Emission} (k : Emission) (rest : List Slot) : e.Opens k' →
      Move (.closing k :: rest) k (.deferred e :: .closing k' :: rest)

/-- Several moves, with the tags that they give. -/
inductive Moves : List Slot → List Emission → List Slot → Prop where
  | nil (slots : List Slot) : Moves slots [] slots
  | cons {slots slots₁ slots' : List Slot} {e : Emission} {later : List Emission} :
      Move slots e slots₁ → Moves slots₁ later slots' → Moves slots (e :: later) slots'

/-! ### Balance -/

/-- Matches a tag with the elements that have been opened and not closed, the last one first. There
is no result for a closing tag that is not that of the last one. -/
def nestTag (unclosed : List (ElementId × Position)) (e : Emission) :
    Option (List (ElementId × Position)) :=
  match e.tag.content with
  | .master .opening => some (e.element :: unclosed)
  | .master .closing =>
    match unclosed with
    | last :: outer => if last = e.element then some outer else none
    | [] => none
  | _ => some unclosed

/-- Matches several tags, one after another. -/
def nest (unclosed : List (ElementId × Position)) (emissions : List Emission) :
    Option (List (ElementId × Position)) :=
  emissions.foldlM nestTag unclosed

theorem nestTag_opening {e : Emission} (unclosed : List (ElementId × Position))
    (opening : e.tag.content = .master .opening) :
    nestTag unclosed e = some (e.element :: unclosed) := by
  simp only [nestTag, opening]

theorem nestTag_closing {e : Emission} (outer : List (ElementId × Position))
    (closing : e.tag.content = .master .closing) : nestTag (e.element :: outer) e = some outer := by
  simp only [nestTag, closing, if_true]

theorem nestTag_leaf {e : Emission} (unclosed : List (ElementId × Position)) (leaf : e.IsLeaf) :
    nestTag unclosed e = some unclosed := by
  unfold nestTag
  split
  · next opening => exact absurd opening (Tag.content_ne_master leaf .opening)
  · next closing => exact absurd closing (Tag.content_ne_master leaf .closing)
  · rfl

/-- The slots are those of the elements that have been opened and not closed; a container whose
opening tag was put off has a slot, too, but has not been opened. -/
inductive Balanced : List Slot → List (ElementId × Position) → Prop where
  | settled {ks : List Emission} : (∀ k ∈ ks, k.tag.content = .master .closing) →
      Balanced (ks.map .closing) (ks.map Emission.element)
  | leaf {e : Emission} {ks : List Emission} : e.IsLeaf →
      (∀ k ∈ ks, k.tag.content = .master .closing) →
      Balanced (.deferred e :: ks.map .closing) (ks.map Emission.element)
  | opening {e k : Emission} {ks : List Emission} : e.Opens k →
      (∀ k ∈ ks, k.tag.content = .master .closing) →
      Balanced (.deferred e :: .closing k :: ks.map .closing) (ks.map Emission.element)

/-- What the top of balanced slots can be, where it closes a container. -/
theorem Balanced.cases_closing {k : Emission} {rest : List Slot}
    {unclosed : List (ElementId × Position)} (balanced : Balanced (.closing k :: rest) unclosed) :
    ∃ ks : List Emission, rest = ks.map .closing ∧ unclosed = k.element :: ks.map Emission.element ∧
      k.tag.content = .master .closing ∧ ∀ k ∈ ks, k.tag.content = .master .closing := by
  generalize same : Slot.closing k :: rest = slots at balanced
  cases balanced with
  | @settled ks closings =>
    obtain ⟨k', ks', rfl, same', rest'⟩ := List.map_eq_cons_iff.mp same.symm
    obtain rfl := Slot.closing.inj same'
    obtain ⟨first, later⟩ := List.forall_mem_cons.mp closings
    exact ⟨ks', rest'.symm, rfl, first, later⟩
  | leaf | opening => cases same

/-- A move keeps the slots balanced, and the tag that it gives is matched. -/
theorem balanced_of_move {slots slots' : List Slot} {unclosed : List (ElementId × Position)}
    {e : Emission} (balanced : Balanced slots unclosed) (move : Move slots e slots') :
    ∃ unclosed', nestTag unclosed e = some unclosed' ∧ Balanced slots' unclosed' := by
  cases move with
  | give e rest =>
    generalize same : Slot.deferred e :: slots' = slots at balanced
    cases balanced with
    | @settled ks =>
      obtain ⟨k, ks, -, same', -⟩ := List.map_eq_cons_iff.mp same.symm
      cases same'
    | leaf leaf closings =>
      cases same
      exact ⟨_, nestTag_leaf _ leaf, .settled closings⟩
    | opening opens closings =>
      cases same
      refine ⟨_, nestTag_opening _ opens.opening, ?_⟩
      rw [opens.same]
      exact .settled (List.forall_mem_cons.mpr ⟨opens.closing, closings⟩)
  | close k rest =>
    obtain ⟨ks, rfl, rfl, closing, closings⟩ := balanced.cases_closing
    exact ⟨_, nestTag_closing _ closing, .settled closings⟩
  | leaf leaf settled => exact ⟨_, nestTag_leaf _ leaf, balanced⟩
  | @enter e k slots opens settled =>
    cases balanced with
    | @settled ks closings =>
      refine ⟨_, nestTag_opening _ opens.opening, ?_⟩
      rw [opens.same]
      exact .settled (List.forall_mem_cons.mpr ⟨opens.closing, closings⟩)
    | leaf | opening => exact absurd rfl (settled _)
  | leafDisplaces k rest leaf =>
    obtain ⟨ks, rfl, rfl, closing, closings⟩ := balanced.cases_closing
    exact ⟨_, nestTag_closing _ closing, .leaf leaf closings⟩
  | masterDisplaces k rest opens =>
    obtain ⟨ks, rfl, rfl, closing, closings⟩ := balanced.cases_closing
    exact ⟨_, nestTag_closing _ closing, .opening opens closings⟩

/-- Moves keep the slots balanced, and the tags that they give are matched. -/
theorem nest_of_moves {slots slots' : List Slot} {unclosed : List (ElementId × Position)}
    {emissions : List Emission} (balanced : Balanced slots unclosed)
    (moves : Moves slots emissions slots') :
    ∃ unclosed', nest unclosed emissions = some unclosed' ∧ Balanced slots' unclosed' := by
  induction moves generalizing unclosed with
  | nil => exact ⟨_, rfl, balanced⟩
  | cons move _ ih =>
    obtain ⟨unclosed₁, matched, balanced₁⟩ := balanced_of_move balanced move
    obtain ⟨unclosed', later, balanced'⟩ := ih balanced₁
    refine ⟨unclosed', ?_, balanced'⟩
    rw [nest, List.foldlM_cons, matched]
    exact later

/-- How a tag can be matched. -/
theorem cases_of_nestTag {unclosed unclosed' : List (ElementId × Position)} {e : Emission}
    (matched : nestTag unclosed e = some unclosed') :
    e.isOpening = true ∧ e.isClosing = false ∧ unclosed' = e.element :: unclosed ∨
      e.isOpening = false ∧ e.isClosing = true ∧ unclosed = e.element :: unclosed' ∨
      e.isOpening = false ∧ e.isClosing = false ∧ unclosed' = unclosed := by
  unfold nestTag at matched
  simp only [Emission.isOpening, Emission.isClosing, beq_iff_eq, beq_eq_false_iff_ne]
  split at matched
  · next opening =>
    have other : e.tag.content ≠ .master .closing := by rw [opening]; intro h; cases h
    exact .inl ⟨opening, other, (Option.some.inj matched).symm⟩
  · next closing =>
    have other : e.tag.content ≠ .master .opening := by rw [closing]; intro h; cases h
    refine .inr (.inl ⟨other, closing, ?_⟩)
    split at matched
    · split at matched
      · next same =>
        cases matched
        rw [same]
      · cases matched
    · cases matched
  · next opening closing =>
    exact .inr (.inr ⟨opening, closing, (Option.some.inj matched).symm⟩)

theorem nest_cons (unclosed : List (ElementId × Position)) (e : Emission)
    (later : List Emission) :
    nest unclosed (e :: later) = (nestTag unclosed e).bind (nest · later) :=
  List.foldlM_cons

theorem nest_append (unclosed : List (ElementId × Position)) (first later : List Emission) :
    nest unclosed (first ++ later) = (nest unclosed first).bind (nest · later) :=
  List.foldlM_append

/-- What a closing tag closes was the innermost one. -/
theorem nest_of_closing {unclosed outer : List (ElementId × Position)} {first : List Emission}
    {k : Emission} (closes : k.isClosing = true)
    (matched : nest unclosed (first ++ [k]) = some outer) :
    nest unclosed first = some (k.element :: outer) := by
  rw [nest_append] at matched
  obtain ⟨unclosed', before, last⟩ := Option.bind_eq_some_iff.mp matched
  rw [nest_cons] at last
  obtain ⟨outer', closed, rest⟩ := Option.bind_eq_some_iff.mp last
  cases rest
  rcases cases_of_nestTag closed with ⟨-, other, -⟩ | ⟨-, -, rfl⟩ | ⟨-, other, -⟩
  · rw [closes] at other
    cases other
  · exact before
  · rw [closes] at other
    cases other

/-- The elements that are not closed are those that were opened less those that were closed. -/
theorem length_of_nest {unclosed unclosed' : List (ElementId × Position)}
    {emissions : List Emission} (matched : nest unclosed emissions = some unclosed') :
    unclosed.length + emissions.countP Emission.isOpening =
      unclosed'.length + emissions.countP Emission.isClosing := by
  induction emissions generalizing unclosed with
  | nil =>
    cases matched
    rfl
  | cons e later ih =>
    rw [nest, List.foldlM_cons] at matched
    obtain ⟨unclosed₁, first, rest⟩ := Option.bind_eq_some_iff.mp matched
    have balance := ih rest
    rw [List.countP_cons, List.countP_cons]
    rcases cases_of_nestTag first with ⟨opening, closing, rfl⟩ | ⟨opening, closing, rfl⟩ |
      ⟨opening, closing, rfl⟩
    all_goals
      simp only [opening, closing, List.length_cons, if_true, Bool.false_eq_true, if_false] at *
      omega

theorem countP_map_closing (ks : List Emission) :
    (ks.map Slot.closing).countP Slot.isClosing = ks.length := by
  rw [List.countP_eq_length.mpr]
  · exact List.length_map _
  · simp [Slot.isClosing]

namespace Balanced

variable {slots : List Slot} {unclosed : List (ElementId × Position)}

/-- Only the slot on top can hold a tag that was put off. -/
theorem deferred_not_mem_tail (balanced : Balanced slots unclosed) (e : Emission) :
    .deferred e ∉ slots.tail := by
  cases balanced with
  | settled => exact fun mem => by simpa using List.mem_of_mem_tail mem
  | leaf | opening => simp

/-- There is a slot for each element that has been opened and not closed, and one more if an opening
tag was put off. -/
theorem countP_isClosing (balanced : Balanced slots unclosed) :
    slots.countP Slot.isClosing = unclosed.length + (opensNext slots).toNat := by
  cases balanced with
  | @settled ks =>
    rw [countP_map_closing, List.length_map]
    cases ks <;> rfl
  | @leaf e ks leaf =>
    have stays : e.isOpening = false :=
      beq_eq_false_iff_ne.mpr (Tag.content_ne_master leaf .opening)
    rw [List.countP_cons, countP_map_closing, List.length_map, opensNext, stays]
    rfl
  | @opening e k ks opens =>
    have opening : e.isOpening = true := beq_iff_eq.mpr opens.opening
    rw [List.countP_cons, List.countP_cons, countP_map_closing, List.length_map, opensNext, opening]
    rfl

end Balanced

/-! ### The slots of a reader -/

/-- The tag of a report that gives one. -/
def Report.tag? : Report → Option Emission
  | .tag emission => some emission
  | _ => none

/-- The tags that were seen. -/
def tagsSeen (seen : List Observation) : List Emission :=
  seen.filterMap fun o => o.report.tag?

namespace Reader

/-- What a reader owes, as one stack: the tag that was put off lies on top of the closing tags. -/
def slots (r : Reader) : List Slot :=
  r.deferred.toList.map .deferred ++ r.containers.map .closing

theorem countP_slots (r : Reader) : r.slots.countP Slot.isClosing = r.depth := by
  rw [slots, List.countP_append, countP_map_closing, depth]
  cases r.deferred with
  | none => simp
  | some e => simp [Slot.isClosing]

theorem AtStart.slots {r : Reader} (start : r.AtStart) : r.slots = [] := by
  rw [Reader.slots, start.deferred, start.containers]
  rfl

theorem settled_slots {r : Reader} (idle : r.deferred = none) : Settled r.slots := by
  intro e
  rw [slots, idle]
  cases r.containers <;> simp

variable {schema : Schema}

/-- Giving what is owed is a move. -/
theorem move_of_owed {r r' : Reader} {emission : Emission} (h : r.owed? = some (emission, r')) :
    Move r.slots emission r'.slots := by
  obtain ⟨window, deferred, containers, stopped, tally, journal⟩ := r
  cases deferred with
  | some e =>
    cases h
    exact .give _ _
  | none =>
    cases containers with
    | nil => cases h
    | cons top outer =>
      unfold owed? at h
      simp only at h
      split at h
      · cases h
        exact .close _ _
      · cases h

/-- Placing a tag is a move. -/
theorem move_of_place {r : Reader} {id : ElementId} {emission : Emission}
    {closing : Option Emission} (idle : r.deferred = none)
    (placed : closing = none ∧ emission.IsLeaf ∨ ∃ k, closing = some k ∧ emission.Opens k) :
    ∃ given, (r.place schema id emission closing).1 = .tag given ∧
      Move r.slots given (r.place schema id emission closing).2.slots := by
  have settled := settled_slots idle
  obtain ⟨window, deferred, containers, stopped, tally, journal⟩ := r
  obtain rfl : deferred = none := idle
  cases containers with
  | nil =>
    refine ⟨emission, rfl, ?_⟩
    rcases placed with ⟨rfl, leaf⟩ | ⟨k, rfl, opens⟩
    · exact .leaf leaf settled
    · exact .enter opens settled
  | cons top outer =>
    unfold place
    simp only
    split
    · refine ⟨top, rfl, ?_⟩
      rcases placed with ⟨rfl, leaf⟩ | ⟨k, rfl, opens⟩
      · exact .leafDisplaces top _ leaf
      · exact .masterDisplaces top _ opens
    · refine ⟨emission, rfl, ?_⟩
      rcases placed with ⟨rfl, leaf⟩ | ⟨k, rfl, opens⟩
      · exact .leaf leaf settled
      · exact .enter opens settled

/-- A lack of bytes gives a closing tag or none; the stream ends only if nothing is owed. -/
theorem move_of_fallShort {r : Reader} (idle : r.deferred = none) (lack : Lack) :
    (∃ e, (r.fallShort lack).1 = .tag e ∧ Move r.slots e (r.fallShort lack).2.slots) ∨
      (r.fallShort lack).1.tag? = none ∧ (r.fallShort lack).2.slots = r.slots ∧
        ((r.fallShort lack).1 = .endOfStream → r.slots = []) := by
  obtain ⟨window, deferred, containers, stopped, tally, journal⟩ := r
  obtain rfl : deferred = none := idle
  unfold fallShort
  split
  · exact .inr ⟨rfl, rfl, (by intro h; cases h)⟩
  · cases containers with
    | nil => exact .inr ⟨rfl, rfl, fun _ => rfl⟩
    | cons top outer => exact .inl ⟨top, rfl, .close top _⟩
  all_goals exact .inr ⟨rfl, rfl, (by intro h; cases h)⟩

/-- A step is a move that gives a tag, or gives none and moves nothing; and the stream ends only
when nothing is owed. -/
theorem move_of_next (tabular : schema.Tabular) {σ : Type} [ByteSource σ] {r r' : Reader}
    {source source' : σ} {report : Report}
    (h : r.next schema source = .ok (report, r', source')) :
    (∃ e, report = .tag e ∧ Move r.slots e r'.slots) ∨
      report.tag? = none ∧ r'.slots = r.slots ∧ (report = .endOfStream → r.slots = []) := by
  cases stepped_of_next h with
  | repeated => exact .inr ⟨rfl, rfl, (by intro h; cases h)⟩
  | owed stopped owed =>
    have moved := move_of_owed owed
    exact .inl ⟨_, rfl, moved⟩
  | @acted settled window _ given stopped owed gathered acted =>
    have idle := deferred_of_owed owed
    cases acted_of_act acted with
    | @enter header closing opening closed opened =>
      have master : schema.kindOf header.id = .master := Window.kinded_of_gather gathered
      rw [tabular.tagOf_master _ master] at closed opened
      cases closed
      cases opened
      exact .inl (move_of_place (r := Reader.consume { r with window } header.length) idle
        (.inr ⟨_, rfl, rfl, rfl, rfl⟩))
    | @leaf header length tag read =>
      have leaf : schema.kindOf header.id ≠ .master := Window.kinded_of_gather gathered
      have content := tabular.isMaster_of_tagOfPayload leaf read
      exact .inl (move_of_place
        (r := (Reader.consume { r with window } header.length).consume length) idle
        (.inl ⟨rfl, content⟩))
    | malformed | refuse => exact .inr ⟨rfl, rfl, (by intro h; cases h)⟩
    | fallShort lack => exact move_of_fallShort (r := { r with window }) idle lack

end Reader

/-! ### Runs -/

variable {σ : Type} [ByteSource σ] {change : σ → σ → Prop} {schema : Schema} {r r' : Reader}
  {source source' : σ} {seen : List Observation}

/-- The tags that a run gives are those of moves of the reader's slots. -/
theorem Run.moves (tabular : schema.Tabular) (run : Run schema change r source seen r' source') :
    Moves r.slots (tagsSeen seen) r'.slots ∧
      ∀ o, seen.getLast? = some o → o.report = .endOfStream → r'.slots = [] := by
  induction run with
  | nil r source => exact ⟨.nil _, (by intro _ h; cases h)⟩
  | @cons r r₁ r' source source₁ source₂ source' report later changed stepped rest ih =>
    obtain ⟨moves, ended⟩ := ih
    have last (drained : report = .endOfStream → r₁.slots = []) :
        ∀ o, (r₁.observe report :: later).getLast? = some o → o.report = .endOfStream →
          r'.slots = [] := by
      intro o last final
      cases rest with
      | nil =>
        obtain rfl := Option.some.inj last
        exact drained final
      | cons => exact ended o (by rwa [List.getLast?_cons_cons] at last) final
    rcases Reader.move_of_next tabular stepped with ⟨e, rfl, move⟩ | ⟨silent, same, drained⟩
    · exact ⟨.cons move moves, last (by intro h; cases h)⟩
    · refine ⟨?_, last fun final => same.trans (drained final)⟩
      rw [← same]
      have skipped : tagsSeen (r₁.observe report :: later) = tagsSeen later :=
        List.filterMap_cons_none silent
      rw [skipped]
      exact moves

/-- Over every run from the start of a stream the tags are those of moves of the slots, which were
empty at first; every closing tag matches the last opening tag that was not yet closed, in the id
and the position; the stream ends only when all of them are closed; a tag that is put off is the
only one and lies on top; and the depth is the number of openings less that of closings, and one
more exactly when an opening tag has been put off. -/
theorem nested_of_run (tabular : schema.Tabular) (start : r.AtStart)
    (run : Run schema change r source seen r' source') :
    Moves [] (tagsSeen seen) r'.slots ∧
      ∃ unclosed, nest [] (tagsSeen seen) = some unclosed ∧
        (∀ o, seen.getLast? = some o → o.report = .endOfStream → unclosed = []) ∧
        (∀ e, .deferred e ∉ r'.slots.tail) ∧
        r'.depth + (tagsSeen seen).countP Emission.isClosing =
          (tagsSeen seen).countP Emission.isOpening + (opensNext r'.slots).toNat := by
  obtain ⟨moves, ended⟩ := run.moves tabular
  rw [start.slots] at moves
  have empty : Balanced [] [] := @Balanced.settled [] (by intro _ h; cases h)
  obtain ⟨unclosed, matched, balanced⟩ := nest_of_moves empty moves
  refine ⟨moves, unclosed, matched, ?_, balanced.deferred_not_mem_tail, ?_⟩
  · intro o last final
    have drained := balanced.countP_isClosing
    rw [ended o last final] at drained
    exact List.eq_nil_of_length_eq_zero (by simpa [opensNext] using drained.symm)
  · have count := length_of_nest matched
    have slots := balanced.countP_isClosing
    rw [Reader.countP_slots] at slots
    rw [List.length_nil] at count
    omega

/-- An EBML header inside a cluster of unknown size, which it ends, and then a source that pauses
and fails. -/
def failingScript : Script where
  cues := [.data clusterBytes, .data [0x1A, 0x45, 0xDF, 0xA3, 0x80], .silence .wouldBlock,
    .data [0x42], .silence .failed]
  last := .endOfData

/-- After seven steps the header's opening tag is put off. -/
theorem nested_of_failingScript :
    ∃ (r' : Reader) (source' : Script) (unclosed : List (ElementId × Position)),
      Run Matroska.schema (fun _ _ => True) (.new {}) failingScript
        ((Reader.new {}).shown Matroska.schema failingScript 7) r' source' ∧
      nest [] (tagsSeen ((Reader.new {}).shown Matroska.schema failingScript 7)) = some unclosed ∧
      (∀ e, .deferred e ∉ r'.slots.tail) ∧
      r'.depth + 2 = 3 + (opensNext r'.slots).toNat := by
  obtain ⟨r', source', run⟩ : ∃ r' source', Run Matroska.schema (fun _ _ => True) (.new {})
      failingScript ((Reader.new {}).shown Matroska.schema failingScript 7) r' source' :=
    Run.exists_shown (fun _ => trivial) _ _ _ _
  obtain ⟨-, unclosed, matched, -, top, depth⟩ :=
    nested_of_run .matroska (Reader.atStart_new {}) run
  have closings : (tagsSeen ((Reader.new {}).shown Matroska.schema failingScript 7)).countP
      Emission.isClosing = 2 := by
    decide +kernel
  have openings : (tagsSeen ((Reader.new {}).shown Matroska.schema failingScript 7)).countP
      Emission.isOpening = 3 := by
    decide +kernel
  rw [closings, openings] at depth
  exact ⟨r', source', unclosed, run, matched, top, depth⟩

end TagStream
