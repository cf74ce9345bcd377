import TagStream.Proofs.Nesting

/-!
Turns. A `Reader.Turn` says what a step does to the tags that a reader owes and to its offset: a tag
that was put off is given, a container is closed, or a tag is read, and is then given or displaces
the container on top. Every step is a turn (`turn_of_next`), whatever the source answers, so what is
kept by turns is kept by runs (`Run.keeps`), and before and after each tag of a run there is a run
(`Run.exists_turn`).
-/

namespace TagStream

/-! ### Where a tag begins and stops -/

namespace Emission

/-- The offset just after what was read for a tag: the header of a container, or all of a leaf. -/
def stop (e : Emission) : Nat :=
  if e.tag.isMaster then e.position.dataOffset else e.position.dataOffset + e.position.size.length

/-- The tag begins an element, and was read from the bytes between these offsets. -/
structure Covers (e : Emission) (offset offset' : Nat) : Prop where
  begins : e.isClosing = false
  starts : e.position.offset = offset
  header : 0 < e.position.headerLength
  stops : e.stop = offset'

theorem Covers.lt {e : Emission} {offset offset' : Nat} (covers : e.Covers offset offset') :
    offset < offset' := by
  obtain ⟨-, rfl, header, rfl⟩ := covers
  unfold stop Position.dataOffset
  split <;> omega

end Emission

/-! ### Gathering -/

namespace Window

variable {σ : Type} [ByteSource σ]

theorem offset_fill (w : Window) (needed : Nat) (source : σ) :
    (w.fill needed source).2.1.offset = w.offset := by
  fun_induction fill w needed source <;> simp_all [append]

theorem offset_ensure (w : Window) (needed : Nat) (source : σ) :
    (w.ensure needed source).2.1.offset = w.offset := by
  generalize ensured : w.ensure needed source = given
  have same := offset_prepareWith (· + ·) w needed
  cases ensured_of_ensure ensured with
  | resident | exceeds => rfl
  | @filled v given lacking fits granted filled =>
    rw [granted] at same
    rw [← filled, offset_fill, same]
  | refused lacking fits refused =>
    rw [refused] at same
    exact same

/-- Gathering consumes nothing. -/
theorem offset_gather (w : Window) (schema : Schema) (source : σ) :
    (w.gather schema source).2.1.offset = w.offset := by
  fun_induction gather w schema source with
  | case1 => rfl
  | case2 w source needed part demanded w₁ source₁ ensured ih =>
    have same := offset_ensure w needed source
    rw [ensured] at same
    exact ih.trans same
  | case3 w source needed part demanded why w₁ source₁ ensured =>
    have same := offset_ensure w needed source
    rw [ensured] at same
    exact same

theorem offset_of_gather {w w' : Window} {schema : Schema} {source source' : σ}
    {settled : Except Lack Verdict} (h : w.gather schema source = (settled, w', source')) :
    w'.offset = w.offset := by
  have same := w.offset_gather schema source
  rw [h] at same
  exact same

end Window

/-- What a verdict says about lengths: no header is empty, and a leaf has the size it declares. -/
def Verdict.Measured : Verdict → Prop
  | .enter header => 0 < header.length
  | .read header length => 0 < header.length ∧ header.size = .known length
  | .refuse _ => True

theorem Schema.measured_of_demandOf {schema : Schema} {limit : Nat} {bytes : List UInt8}
    {verdict : Verdict} (h : schema.demandOf limit bytes = .settled verdict) :
    verdict.Measured := by
  have positive {header : Header} (scanned : Header.scan bytes = .complete header) :
      0 < header.length := by
    rw [Header.scan_eq_iff] at scanned
    cases scanned with
    | complete rest fits fits' => exact Nat.add_pos_left fits.width_pos _
  rw [demandOf_eq_iff] at h
  cases h with
  | flawed | unsized | large => trivial
  | enter scanned => exact positive scanned
  | read scanned _ size => exact ⟨positive scanned, size⟩

/-- What is to be done about a tag is about bytes that are resident. -/
theorem Window.measured_of_gather {σ : Type} [ByteSource σ] {w w' : Window} {schema : Schema}
    {source source' : σ} {settled : Except Lack Verdict}
    (h : w.gather schema source = (settled, w', source')) :
    ∀ verdict, settled = .ok verdict → verdict.extent ≤ w'.available ∧ verdict.Measured := by
  intro verdict same
  have demanded := settled_of_gather h verdict same
  rw [demand_eq_demandOf] at demanded
  have enough := Schema.extent_le_length demanded
  rw [length_resident] at enough
  exact ⟨enough, Schema.measured_of_demandOf demanded⟩

/-! ### Turns -/

namespace Reader

/-- What a step can do: report no tag and leave alone what is owed; give the tag that was put off;
close the container on top; give a tag that has been read; or put it off, with the container on top
closed for it. -/
inductive Turn (schema : Schema) (r : Reader) : Report → Reader → Prop where
  | still {report : Report} {r' : Reader} : report.tag? = none → r'.deferred = r.deferred →
      r'.containers = r.containers → r.offset ≤ r'.offset → Turn schema r report r'
  | deferred {e : Emission} {r' : Reader} : r.deferred = some e → r'.deferred = none →
      r'.containers = r.containers → r'.offset = r.offset → Turn schema r (.tag e) r'
  | close {k : Emission} {r' : Reader} : r.deferred = none → r'.deferred = none →
      r.containers = k :: r'.containers → r'.offset = r.offset → Turn schema r (.tag k) r'
  | place {e : Emission} {closing : Option Emission} {r' : Reader} : r.deferred = none →
      r.owed? = none → e.Covers r.offset r'.offset →
      (∀ k ∈ r.containers.head?, displaces schema e.tag.id k = false) →
      (∀ k ∈ closing, k.tag.content = .master .closing) → r'.deferred = none →
      r'.containers = closing.toList ++ r.containers → Turn schema r (.tag e) r'
  | displace {e k : Emission} {closing : Option Emission} {outer : List Emission} {r' : Reader} :
      r.deferred = none → r.containers = k :: outer → e.Covers r.offset r'.offset →
      displaces schema e.tag.id k = true → (∀ k ∈ closing, k.tag.content = .master .closing) →
      r'.deferred = some e → r'.containers = closing.toList ++ outer → Turn schema r (.tag k) r'

/-- What is on the stack are closing tags. -/
def OwesClosings (r : Reader) : Prop :=
  ∀ k ∈ r.containers, k.tag.content = .master .closing

theorem AtStart.owesClosings {r : Reader} (start : r.AtStart) : r.OwesClosings := by
  intro k mem
  rw [start.containers] at mem
  cases mem

variable {schema : Schema}

theorem Turn.owesClosings {r r' : Reader} {report : Report} (turn : Turn schema r report r')
    (closings : r.OwesClosings) : r'.OwesClosings := by
  have stacked {closing : Option Emission} {outer : List Emission}
      (closes : ∀ k ∈ closing, k.tag.content = .master .closing)
      (others : ∀ k ∈ outer, k.tag.content = .master .closing)
      (containers : r'.containers = closing.toList ++ outer) : r'.OwesClosings := by
    intro k mem
    rw [containers] at mem
    rcases List.mem_append.mp mem with mem | mem
    · exact closes k (Option.mem_toList.mp mem)
    · exact others k mem
  cases turn with
  | still _ _ containers | deferred _ _ containers =>
    unfold OwesClosings
    rw [containers]
    exact closings
  | close _ _ stack =>
    unfold OwesClosings at closings
    rw [stack] at closings
    exact (List.forall_mem_cons.mp closings).2
  | place _ _ _ _ closes _ containers => exact stacked closes closings containers
  | displace _ stack _ _ closes _ containers =>
    unfold OwesClosings at closings
    rw [stack] at closings
    exact stacked closes (List.forall_mem_cons.mp closings).2 containers

/-- After a tag that begins an element, no tag is put off. -/
theorem Turn.idle_of_begins {r r' : Reader} {e : Emission} (turn : Turn schema r (.tag e) r')
    (closings : r.OwesClosings) (begins : e.isClosing = false) : r'.deferred = none := by
  have onTop {outer : List Emission} (stack : r.containers = e :: outer) : False := by
    have closes : e.isClosing = true := beq_iff_eq.mpr (closings e (stack ▸ List.mem_cons_self))
    rw [begins] at closes
    cases closes
  cases turn with
  | still silent => cases silent
  | deferred _ idle => exact idle
  | close _ _ stack => exact (onTop stack).elim
  | place _ _ _ _ _ idle => exact idle
  | displace _ stack => exact (onTop stack).elim

/-- Giving what is owed is a turn. -/
theorem turn_of_owed {r r' : Reader} {emission : Emission} (h : r.owed? = some (emission, r')) :
    Turn schema r (.tag emission) (r'.emit emission).2 := by
  obtain ⟨window, deferred, containers, stopped, tally, journal⟩ := r
  cases deferred with
  | some e =>
    cases h
    exact .deferred rfl rfl rfl rfl
  | none =>
    cases containers with
    | nil => cases h
    | cons top outer =>
      unfold owed? at h
      simp only at h
      split at h
      · cases h
        exact .close rfl rfl rfl rfl
      · cases h

/-- Placing a tag that has been read is a turn. -/
theorem turn_of_place {r q : Reader} {id : ElementId} {e : Emission} {closing : Option Emission}
    (owed : r.owed? = none) (deferred : q.deferred = r.deferred)
    (containers : q.containers = r.containers) (same : e.tag.id = id)
    (covers : e.Covers r.offset q.offset)
    (closes : ∀ k ∈ closing, k.tag.content = .master .closing) :
    Turn schema r (q.place schema id e closing).1 (q.place schema id e closing).2 := by
  have idle := deferred_of_owed owed
  rw [idle] at deferred
  subst same
  cases stack : q.containers with
  | nil =>
    have undisplaced : ∀ k ∈ r.containers.head?, displaces schema e.tag.id k = false := by
      rw [← containers, stack]
      intro k mem
      cases mem
    simp only [place, stack]
    refine .place idle owed covers undisplaced closes deferred ?_
    rw [← containers, stack, List.append_nil]
    rfl
  | cons top outer =>
    simp only [place, stack]
    cases displaced : displaces schema e.tag.id top with
    | true =>
      rw [if_pos rfl]
      exact .displace idle (containers.symm.trans stack) covers displaced closes rfl rfl
    | false =>
      rw [if_neg (by simp)]
      have kept : ∀ k ∈ r.containers.head?, displaces schema e.tag.id k = false := by
        rw [← containers, stack]
        rintro k ⟨⟩
        exact displaced
      refine .place idle owed covers kept closes deferred ?_
      rw [← containers, stack]
      rfl

theorem turn_of_fallShort {r q : Reader} (idle : r.deferred = none)
    (deferred : q.deferred = r.deferred) (containers : q.containers = r.containers)
    (offset : q.offset = r.offset) (lack : Lack) :
    Turn schema r (q.fallShort lack).1 (q.fallShort lack).2 := by
  have still : r.offset ≤ q.offset := Nat.le_of_eq offset.symm
  unfold fallShort
  split
  · exact .still rfl deferred containers still
  · unfold closeAtEnd
    split
    · exact .still rfl deferred containers still
    · next k outer stack =>
      exact .close idle (deferred.trans idle) (containers.symm.trans stack) offset
  all_goals exact .still rfl deferred containers still

/-- Consuming bytes that are resident moves the offset past them. -/
theorem offset_consume {r : Reader} {count : Nat} (resident : count ≤ r.window.available) :
    (r.consume count).offset = r.offset + count := by
  rw [offset, consume, Window.offset_advance, Nat.min_eq_left resident]
  rfl

/-- Consuming a header and a payload moves the offset past both. -/
theorem offset_consume_consume {r : Reader} {header length : Nat}
    (resident : header + length ≤ r.window.available) :
    ((r.consume header).consume length).offset = r.offset + header + length := by
  have rest : (r.consume header).window.available = r.window.available - header :=
    available_advance r.window header
  rw [offset_consume (by omega), offset_consume (by omega)]

/-- Every step is a turn, whatever the source answers. -/
theorem turn_of_next (tabular : schema.Tabular) {σ : Type} [ByteSource σ] {r r' : Reader}
    {source source' : σ} {report : Report}
    (h : r.next schema source = .ok (report, r', source')) : Turn schema r report r' := by
  cases stepped_of_next h with
  | repeated => exact .still rfl rfl rfl (Nat.le_refl _)
  | owed stopped owed => exact turn_of_owed owed
  | @acted settled window _ given stopped owed gathered acted =>
    have offset : window.offset = r.offset := Window.offset_of_gather gathered
    have settles := Window.measured_of_gather gathered
    cases acted_of_act acted with
    | @enter header closing opening closed opened =>
      have master : schema.kindOf header.id = .master := Window.kinded_of_gather gathered
      rw [tabular.tagOf_master _ master] at opened closed
      cases opened
      cases closed
      obtain ⟨enough, header⟩ := settles _ rfl
      refine turn_of_place owed rfl rfl rfl ⟨rfl, offset, header, ?_⟩ ?_
      · exact (offset_consume (r := { r with window }) enough).symm
      · rintro k ⟨⟩
        rfl
    | @leaf header length tag read =>
      have leaf : schema.kindOf header.id ≠ .master := Window.kinded_of_gather gathered
      obtain ⟨enough, positive, size⟩ := settles _ rfl
      obtain ⟨same, content⟩ : tag.id = header.id ∧ tag.isMaster = false := by
        rcases tabular.tagOfPayload_cases leaf
            ((Reader.consume { r with window } header.length).window.front length)
          with ⟨tag', read', -, same, content⟩ | ⟨malformed, read', -⟩
        · rw [read] at read'
          cases read'
          exact ⟨same, content⟩
        · rw [read] at read'
          cases read'
      have begins : tag.content ≠ .master .closing := Tag.content_ne_master content .closing
      refine turn_of_place owed rfl rfl same ⟨beq_eq_false_iff_ne.mpr begins, offset, positive, ?_⟩
        (by intro _ h; cases h)
      rw [offset_consume_consume (r := { r with window }) enough]
      simp only [Emission.stop, content, size, Size.length, Position.dataOffset]
      rfl
    | @malformed header length malformed read =>
      obtain ⟨enough, -⟩ := settles _ rfl
      have moved := offset_consume_consume (r := { r with window }) enough
      have here : Reader.offset { r with window } = r.offset := offset
      refine .still rfl rfl rfl (Nat.le_trans ?_ (Nat.le_of_eq moved.symm))
      omega
    | refuse => exact .still rfl rfl rfl (Nat.le_of_eq offset.symm)
    | fallShort lack =>
      exact turn_of_fallShort (q := { r with window }) (deferred_of_owed owed) rfl rfl offset lack

end Reader

/-! ### Runs -/

section Runs

variable {σ : Type} [ByteSource σ] {change : σ → σ → Prop} {schema : Schema} {r r' : Reader}
  {source source' : σ} {seen : List Observation}

theorem tagsSeen_cons (o : Observation) (later : List Observation) :
    tagsSeen (o :: later) = o.report.tag?.toList ++ tagsSeen later := by
  cases report : o.report.tag? <;> simp [tagsSeen, report]

/-- What every turn keeps of a reader and the tags that it has given, a run keeps. -/
theorem Run.keeps (tabular : schema.Tabular) {kept : List Emission → Reader → Prop}
    (turn : ∀ {given : List Emission} {r r' : Reader} {report : Report}, kept given r →
      r.Turn schema report r' → kept (given ++ report.tag?.toList) r')
    (run : Run schema change r source seen r' source') {given : List Emission}
    (before : kept given r) : kept (given ++ tagsSeen seen) r' := by
  induction run generalizing given with
  | nil r source => simpa [tagsSeen] using before
  | cons changed stepped rest ih =>
    have after := ih (turn before (Reader.turn_of_next tabular stepped))
    rw [tagsSeen_cons, ← List.append_assoc]
    exact after

/-- A run comes to a turn for each tag that it gives, and from there goes on with the other tags. -/
theorem Run.exists_turn (tabular : schema.Tabular)
    (run : Run schema change r source seen r' source') {before after : List Emission}
    {e : Emission} (split : tagsSeen seen = before ++ e :: after) :
    ∃ (r₁ r₂ : Reader) (source₁ source₂ : σ) (first upTo later : List Observation),
      (Run schema change r source first r₁ source₁ ∧ tagsSeen first = before) ∧
      (Run schema change r source upTo r₂ source₂ ∧ tagsSeen upTo = before ++ [e]) ∧
      (Run schema change r₂ source₂ later r' source' ∧ tagsSeen later = after) ∧
      r₁.Turn schema (.tag e) r₂ := by
  induction run generalizing before with
  | nil => simp [tagsSeen] at split
  | @cons r r₁ r' source source₁ source₂ source' report seen changed stepped rest ih =>
    rw [tagsSeen_cons] at split
    -- A step that does not give the tag is put in front of what is found in the rest.
    have onward {others : List Emission} (gives : report.tag?.toList ++ others = before)
        (split : tagsSeen seen = others ++ e :: after) :
        ∃ (q₁ q₂ : Reader) (other₁ other₂ : σ) (first upTo later : List Observation),
          (Run schema change r source first q₁ other₁ ∧ tagsSeen first = before) ∧
          (Run schema change r source upTo q₂ other₂ ∧ tagsSeen upTo = before ++ [e]) ∧
          (Run schema change q₂ other₂ later r' source' ∧ tagsSeen later = after) ∧
          q₁.Turn schema (.tag e) q₂ := by
      obtain ⟨q₁, q₂, other₁, other₂, first, upTo, later, ⟨early, same⟩, ⟨early', same'⟩, found⟩ :=
        ih split
      refine ⟨q₁, q₂, other₁, other₂, r₁.observe report :: first, r₁.observe report :: upTo, later,
        ⟨.cons changed stepped early, ?_⟩, ⟨.cons changed stepped early', ?_⟩, found⟩
      · rw [tagsSeen_cons, same]
        exact gives
      · rw [tagsSeen_cons, same', ← gives, List.append_assoc]
        rfl
    cases given : report.tag? with
    | none =>
      have silent : (r₁.observe report).report.tag? = none := given
      rw [silent] at split
      exact onward (by rw [given]; rfl) split
    | some e' =>
      have speaks : (r₁.observe report).report.tag? = some e' := given
      rw [speaks] at split
      cases before with
      | nil =>
        obtain ⟨rfl, rest'⟩ := List.cons.inj split
        obtain rfl : report = .tag e' := by
          cases report with
          | tag e'' => exact congrArg Report.tag (Option.some.inj given)
          | endOfStream | needMoreData | fault => cases given
        exact ⟨r, r₁, source, source₂, [], [r₁.observe (.tag e')], seen, ⟨.nil _ _, rfl⟩,
          ⟨.cons changed stepped (.nil _ _), rfl⟩, ⟨rest, rest'⟩,
          Reader.turn_of_next tabular stepped⟩
      | cons e'' before =>
        obtain ⟨rfl, rest'⟩ := List.cons.inj split
        exact onward (by rw [given]; rfl) rest'

/-- The containers that a reader owes closing tags of are those that have been opened and not
closed, if no tag is put off. -/
theorem Run.unclosed (tabular : schema.Tabular) (start : r.AtStart)
    (run : Run schema change r source seen r' source') :
    ∃ unclosed, nest [] (tagsSeen seen) = some unclosed ∧
      (r'.deferred = none → unclosed = r'.containers.map Emission.element) := by
  obtain ⟨moves, -⟩ := run.moves tabular
  rw [start.slots] at moves
  have empty : Balanced [] [] := @Balanced.settled [] (by intro _ h; cases h)
  obtain ⟨unclosed, matched, balanced⟩ := nest_of_moves empty moves
  have injective : ∀ k k' : Emission, Slot.closing k = .closing k' → k = k' := by
    intro k k' same
    exact Slot.closing.inj same
  refine ⟨unclosed, matched, ?_⟩
  intro idle
  generalize slots : r'.slots = owed at balanced
  rw [Reader.slots, idle] at slots
  cases balanced with
  | settled =>
    obtain rfl := (List.map_inj_right injective).mp slots
    rfl
  | leaf | opening => cases containers : r'.containers <;> simp [containers] at slots

/-- Closing tags are all that ever lies on the stack. -/
theorem Run.owesClosings (tabular : schema.Tabular)
    (run : Run schema change r source seen r' source') (closings : r.OwesClosings) :
    r'.OwesClosings := by
  induction run with
  | nil => exact closings
  | cons _ stepped _ ih => exact ih ((Reader.turn_of_next tabular stepped).owesClosings closings)

end Runs

end TagStream
