import TagStream.Proofs.Prompt

/-!
What a reader hears. A reader knows its source only by the answers to its reads: where one source
answers as another does, every step over the two is the same (`Reader.next_map`), and what no read
changes of a source, no step changes (`Reader.lasting_next`). A `Heard` source keeps the answers
that it has given. They tell which bytes a step has drawn, whether it pauses, and that it reads no
more often than it must (`Reader.hears_next`). Nothing is assumed of the source.
-/

namespace TagStream

/-! ### Sources that answer alike -/

/-- Each source answers as its image does. -/
def Echoes {σ τ : Type} [ByteSource σ] [ByteSource τ] (f : σ → τ) : Prop :=
  ∀ (source : σ) (limit : Nat),
    ByteSource.read (f source) limit = (ByteSource.read source limit).map id f

/-- No read for a byte or more makes an end of it. -/
def Lasting {σ : Type} [ByteSource σ] (holds : σ → Prop) : Prop :=
  ∀ {source : σ} {limit : Nat}, holds source → 0 < limit → holds (ByteSource.read source limit).2

theorem Lasting.of_read {σ : Type} [ByteSource σ] {holds : σ → Prop} (lasting : Lasting holds)
    {source source' : σ} {limit : Nat} {answer : Answer} (before : holds source) (asked : 0 < limit)
    (answered : ByteSource.read source limit = (answer, source')) : holds source' := by
  have after := lasting before asked
  rwa [answered] at after

namespace Window

variable {σ τ : Type} [ByteSource σ] [ByteSource τ] {f : σ → τ} {holds : σ → Prop}

theorem fill_map (echoes : Echoes f) (w : Window) (needed : Nat) (source : σ) :
    w.fill needed (f source) = (w.fill needed source).map id (Prod.map id f) := by
  fun_induction fill w needed source with
  | case1 w source few bytes source₁ delivered empty =>
    rw [fill, if_pos few, echoes, delivered]
    simp only [Prod.map, id, if_pos empty]
  | case2 w source few bytes source₁ delivered nonempty ih =>
    rw [fill, if_pos few, echoes, delivered]
    simp only [Prod.map, id, if_neg nonempty] at ih ⊢
    exact ih
  | case3 w source few source₁ answered | case4 w source few source₁ answered
  | case5 w source few source₁ answered =>
    rw [fill, if_pos few, echoes, answered]
    rfl
  | case6 w source enough =>
    rw [fill, if_neg enough]
    rfl

theorem ensure_map (echoes : Echoes f) (w : Window) (needed : Nat) (source : σ) :
    w.ensure needed (f source) = (w.ensure needed source).map id (Prod.map id f) := by
  unfold ensure ensureWith
  split
  · rfl
  · split
    · rfl
    · split
      · exact fill_map echoes _ _ _
      · rfl

theorem gather_map (echoes : Echoes f) (w : Window) (schema : Schema) (source : σ) :
    w.gather schema (f source) = (w.gather schema source).map id (Prod.map id f) := by
  fun_induction gather w schema source with
  | case1 w source verdict demanded => exact gather_of_settled demanded
  | case2 w source needed part demanded w₁ source₁ ensured ih =>
    rw [gather_of_await demanded, ensure_map echoes, ensured]
    exact ih
  | case3 w source needed part demanded why w₁ source₁ ensured =>
    rw [gather_of_await demanded, ensure_map echoes, ensured]
    rfl

theorem lasting_fill (lasting : Lasting holds) {w : Window} {needed : Nat} {source : σ}
    (before : holds source) : holds (w.fill needed source).2.2 := by
  fun_induction fill w needed source with
  | case1 w source few bytes source₁ answered empty | case3 w source few source₁ answered
  | case4 w source few source₁ answered | case5 w source few source₁ answered =>
    exact lasting.of_read before (Nat.sub_pos_of_lt few) answered
  | case2 w source few bytes source₁ answered nonempty ih =>
    exact ih (lasting.of_read before (Nat.sub_pos_of_lt few) answered)
  | case6 => exact before

theorem lasting_ensure (lasting : Lasting holds) {w : Window} {needed : Nat} {source : σ}
    (before : holds source) : holds (w.ensure needed source).2.2 := by
  generalize ensured : w.ensure needed source = given
  cases ensured_of_ensure ensured with
  | resident | exceeds | refused => exact before
  | filled _ _ _ filled =>
    rw [← filled]
    exact lasting_fill lasting before

theorem lasting_gather (lasting : Lasting holds) {w : Window} {schema : Schema} {source : σ}
    (before : holds source) : holds (w.gather schema source).2.2 := by
  fun_induction gather w schema source with
  | case1 => exact before
  | case2 w source needed part demanded w₁ source₁ ensured ih =>
    have after : holds (w.ensure needed source).2.2 := lasting_ensure lasting before
    rw [ensured] at after
    exact ih after
  | case3 w source needed part demanded why w₁ source₁ ensured =>
    have after : holds (w.ensure needed source).2.2 := lasting_ensure lasting before
    rw [ensured] at after
    exact after

end Window

namespace Reader

variable {σ τ : Type} [ByteSource σ] [ByteSource τ] {f : σ → τ} {holds : σ → Prop}
  {schema : Schema}

/-- A step over a source is the step over any source that answers alike. -/
theorem next_map (echoes : Echoes f) (r : Reader) (schema : Schema) (source : σ) :
    r.next schema (f source) =
      (r.next schema source).map fun given => (given.1, given.2.1, f given.2.2) := by
  unfold next
  split
  · rfl
  · split
    · rfl
    · rw [Window.gather_map echoes]
      simp only [Prod.map, id]
      cases act _ schema (r.window.gather schema source).1 <;> rfl

theorem lasting_next (lasting : Lasting holds) {r r' : Reader} {source source' : σ}
    {report : Report} (before : holds source)
    (h : r.next schema source = .ok (report, r', source')) : holds source' := by
  cases stepped_of_next h with
  | repeated | owed => exact before
  | acted stopped owed gathered acted =>
    have after : holds (r.window.gather schema source).2.2 := Window.lasting_gather lasting before
    rwa [gathered] at after

end Reader

/-! ### What has been heard -/

/-- The bytes that an answer brings. -/
def Answer.bytes : Answer → List UInt8
  | .data bytes => bytes.toList
  | .endOfData | .wouldBlock | .failed => []

/-- A source, and what it has answered so far. -/
structure Heard (σ : Type) where
  source : σ
  answers : List Answer := []

namespace Heard

variable {σ : Type} [ByteSource σ]

instance : ByteSource (Heard σ) where
  read h limit :=
    ((ByteSource.read h.source limit).1,
      ⟨(ByteSource.read h.source limit).2, h.answers ++ [(ByteSource.read h.source limit).1]⟩)

/-- A change of the source that is heard. What it has answered stays. -/
def lift (change : σ → σ) (h : Heard σ) : Heard σ :=
  { h with source := change h.source }

instance [LawfulByteSource σ] : LawfulByteSource (Heard σ) where
  size_le h h' limit bytes delivered := by
    obtain ⟨answered, -⟩ := Prod.mk.inj delivered
    exact LawfulByteSource.size_le h.source _ limit bytes (Prod.ext answered rfl)

theorem echoes_source : Echoes (Heard.source : Heard σ → σ) :=
  fun _ _ => rfl

theorem answers_of_read {h h' : Heard σ} {limit : Nat} {answer : Answer}
    (answered : ByteSource.read h limit = (answer, h')) : h'.answers = h.answers ++ [answer] := by
  obtain ⟨rfl, rfl⟩ := Prod.mk.inj answered
  rfl

end Heard

namespace Window

variable {σ : Type} [ByteSource σ]

/-- The window has heard these answers, the last of which is why it stopped short, if it did. Each
of the others brought bytes. -/
structure Hears (w w' : Window) (answers : List Answer) (why : Option Shortfall) : Prop where
  drawn : Drawn w w' (answers.flatMap Answer.bytes)
  pauses : answers.countP Answer.isPause = if why = some .wouldBlock then 1 else 0
  reads : answers.length ≤ (answers.flatMap Answer.bytes).length + if why = none then 0 else 1

theorem Hears.of_drawn {w w' : Window} {why : Option Shortfall} (drawn : Drawn w w' [])
    (moves : why ≠ some .wouldBlock) : Hears w w' [] why where
  drawn := drawn
  pauses := by rw [if_neg moves, List.countP_nil]
  reads := Nat.zero_le _

theorem Hears.trans {w w₁ w₂ : Window} {first second : List Answer} {why : Option Shortfall}
    (heard : Hears w w₁ first none) (heard' : Hears w₁ w₂ second why) :
    Hears w w₂ (first ++ second) why where
  drawn := by
    rw [List.flatMap_append]
    exact heard.drawn.trans heard'.drawn
  pauses := by
    rw [List.countP_append, heard.pauses, heard'.pauses, if_neg (by intro h; cases h), Nat.zero_add]
  reads := by
    have reads := heard.reads
    have reads' := heard'.reads
    rw [if_pos rfl] at reads
    rw [List.length_append, List.flatMap_append, List.length_append]
    omega

/-- A window that stops short does so at its last answer. -/
theorem Hears.of_last {w : Window} {answer : Answer} {why : Shortfall}
    (inside : w.head ≤ w.cells.size) (silent : answer.bytes = [])
    (pause : answer.isPause = true ↔ why = .wouldBlock) : Hears w w [answer] (some why) where
  drawn := by
    rw [List.flatMap_singleton, silent]
    exact .refl inside
  pauses := by
    rw [List.countP_singleton]
    exact ite_congr (by simp [pause]) (fun _ => rfl) (fun _ => rfl)
  reads := by simp

/-- What filling hears. It falls short where it leaves fewer bytes than are wanted. -/
theorem hears_fill {w w' : Window} {needed : Nat} {heard heard' : Heard σ}
    {why : Option Shortfall} (inside : w.head ≤ w.cells.size)
    (h : w.fill needed heard = (why, w', heard')) :
    ∃ answers, heard'.answers = heard.answers ++ answers ∧ Hears w w' answers why ∧
      (why ≠ none ↔ w'.available < needed) := by
  have short {w : Window} {why : Shortfall} (few : w.available < needed) :
      (some why : Option Shortfall) ≠ none ↔ w.available < needed :=
    iff_of_true (by intro h; cases h) few
  fun_induction fill w needed heard with
  | case1 w heard few bytes heard₁ delivered empty =>
    cases h
    obtain rfl := Array.eq_empty_of_size_eq_zero empty
    exact ⟨_, Heard.answers_of_read delivered, .of_last inside rfl (by simp [Answer.isPause]),
      short few⟩
  | case2 w heard few bytes heard₁ delivered nonempty ih =>
    have moved := drawn_append inside bytes
    obtain ⟨answers, told, hears, short⟩ := ih moved.inside h
    have brought : Hears w (w.append bytes) [.data bytes] none := by
      constructor
      · rw [List.flatMap_singleton]
        exact moved
      · rw [List.countP_singleton, Answer.isPause, beq_eq_false_iff_ne.mpr nonempty]
        rfl
      · rw [List.flatMap_singleton, List.length_singleton, Answer.bytes, Array.length_toList]
        exact Nat.pos_of_ne_zero nonempty
    refine ⟨[.data bytes] ++ answers, ?_, brought.trans hears, short⟩
    rw [told, Heard.answers_of_read delivered, List.append_assoc]
  | case3 w heard few heard₁ answered | case4 w heard few heard₁ answered
  | case5 w heard few heard₁ answered =>
    cases h
    exact ⟨_, Heard.answers_of_read answered, .of_last inside rfl (by simp [Answer.isPause]),
      short few⟩
  | case6 w heard enough =>
    cases h
    exact ⟨[], (List.append_nil _).symm, .of_drawn (.refl inside) (by intro h; cases h),
      iff_of_false (fun short => short rfl) enough⟩

/-- What ensuring hears, for bytes that are not yet resident. -/
theorem hears_ensure {w w' : Window} {needed : Nat} {heard heard' : Heard σ}
    {why : Option Shortfall} (inside : w.head ≤ w.cells.size) (lacking : w.available < needed)
    (h : w.ensure needed heard = (why, w', heard')) :
    ∃ answers, heard'.answers = heard.answers ++ answers ∧ Hears w w' answers why ∧
      (why ≠ none ↔ w'.available < needed) ∧
      (why ≠ some .exceedsLimit → needed ≤ w.maxCapacity) := by
  have room := drawn_prepareWith (· + ·) inside needed
  cases ensured_of_ensure h with
  | resident enough => exact absurd enough (Nat.not_le.mpr lacking)
  | exceeds =>
    exact ⟨[], (List.append_nil _).symm, .of_drawn (.refl inside) (by intro h; cases h),
      iff_of_true (by intro h; cases h) lacking, fun other => absurd rfl other⟩
  | @filled u _ _ fits granted filled =>
    rw [granted] at room
    obtain ⟨answers, told, hears, short⟩ := hears_fill room.inside filled
    have reserved : Hears w u [] none := .of_drawn room (by intro h; cases h)
    exact ⟨answers, told, reserved.trans hears, short, fun _ => fits⟩
  | refused _ fits refused =>
    rw [refused] at room
    have short : w'.available < needed := by
      rw [room.available]
      exact lacking
    exact ⟨[], (List.append_nil _).symm, .of_drawn room (by intro h; cases h),
      iff_of_true (by intro h; cases h) short, fun _ => fits⟩

theorem inside_ensure {w w' : Window} {needed : Nat} {source source' : σ}
    {why : Option Shortfall} (inside : w.head ≤ w.cells.size) (lacking : w.available < needed)
    (h : w.ensure needed source = (why, w', source')) : w'.head ≤ w'.cells.size := by
  have mapped := ensure_map Heard.echoes_source w needed (⟨source, []⟩ : Heard σ)
  obtain ⟨why', w₁, heard', ensured⟩ : ∃ why w₁ heard',
      w.ensure needed (⟨source, []⟩ : Heard σ) = (why, w₁, heard') := ⟨_, _, _, rfl⟩
  obtain ⟨answers, -, hears, -⟩ := hears_ensure inside lacking ensured
  rw [ensured, h] at mapped
  cases mapped
  exact hears.drawn.inside

/-- Why a tag is not settled, if it is not. -/
def shortfall? : Except Lack Verdict → Option Shortfall
  | .ok _ => none
  | .error lack => some lack.why

/-- What gathering hears. Where the tag is not settled, the demand that was not met is left. -/
theorem hears_gather {w w' : Window} {schema : Schema} {heard heard' : Heard σ}
    {settled : Except Lack Verdict} (inside : w.head ≤ w.cells.size)
    (h : w.gather schema heard = (settled, w', heard')) :
    ∃ answers, heard'.answers = heard.answers ++ answers ∧
      Hears w w' answers (shortfall? settled) ∧
      ∀ lack, settled = .error lack → ∃ needed, w'.demand schema = .await needed lack.part ∧
        (lack.why ≠ .exceedsLimit → needed ≤ w'.maxCapacity) := by
  fun_induction gather w schema heard with
  | case1 w heard verdict demanded =>
    cases h
    exact ⟨[], (List.append_nil _).symm, .of_drawn (.refl inside) (by intro h; cases h),
      by intro lack h; cases h⟩
  | case2 w heard needed part demanded w₁ heard₁ ensured ih =>
    have lacking := w.available_lt_of_demand demanded
    obtain ⟨answers, told, hears, -⟩ := hears_ensure inside lacking ensured
    obtain ⟨answers', told', hears', left⟩ := ih hears.drawn.inside h
    refine ⟨answers ++ answers', ?_, hears.trans hears', left⟩
    rw [told', told, List.append_assoc]
  | case3 w heard needed part demanded why w₁ heard₁ ensured =>
    cases h
    have lacking := w.available_lt_of_demand demanded
    obtain ⟨answers, told, hears, short, within⟩ := hears_ensure inside lacking ensured
    refine ⟨answers, told, hears, ?_⟩
    rintro lack ⟨⟩
    have few := short.mp (by intro h; cases h)
    refine ⟨needed, ?_, ?_⟩
    · rw [demand_eq_demandOf] at demanded ⊢
      rw [← length_resident, hears.drawn.resident] at few
      rw [hears.drawn.limit, hears.drawn.resident]
      exact Schema.demandOf_await_append demanded _ few
    · intro other
      rw [hears.drawn.limit]
      exact within fun same => other (Option.some.inj same)

end Window

/-- What a step hears: a pause, if it pauses; and no more answers than bring bytes, but for one. -/
theorem Reader.hears_next {σ : Type} [ByteSource σ] {schema : Schema} {r r' : Reader}
    {heard heard' : Heard σ} {report : Report} (inside : r.window.head ≤ r.window.cells.size)
    (h : r.next schema heard = .ok (report, r', heard')) :
    ∃ answers, heard'.answers = heard.answers ++ answers ∧
      (report.isPause = true → 0 < answers.countP Answer.isPause) ∧
      answers.length ≤ (answers.flatMap Answer.bytes).length + 1 := by
  cases stepped_of_next h with
  | repeated | owed =>
    exact ⟨[], (List.append_nil _).symm, (by intro h; cases h), Nat.zero_le _⟩
  | @acted settled _ _ _ _ _ gathered acted =>
    obtain ⟨answers, told, hears, -⟩ := Window.hears_gather inside gathered
    refine ⟨answers, told, ?_, ?_⟩
    · intro paused
      have blocked : Window.shortfall? settled = some .wouldBlock := by
        apply Classical.byContradiction
        intro moves
        rw [isPause_of_acted (acted_of_act acted) ?_] at paused
        · cases paused
        · rintro lack rfl why
          exact moves (congrArg some why)
      rw [hears.pauses, if_pos blocked]
      exact Nat.one_pos
    · refine Nat.le_trans hears.reads (Nat.add_le_add_left ?_ _)
      split <;> omega

end TagStream
