import TagStream.Proofs.Framing
import TagStream.Proofs.History
import TagStream.Proofs.Turn

/-!
Meters. A `Metered` source answers as the source inside it does, and keeps the bytes that it has
given. Whatever the source answers, a window draws bytes from it and puts them behind the resident
ones (`Window.Drawn`), and a reader takes no more of them than belong to the tag at hand. So the
bytes that a reader has taken are those of whole tags up to its offset, and those that are resident
(`Reader.Accounts`); none are resident once a tag has been given (`taken_of_run`).
-/

namespace TagStream

/-- A source, and the bytes that have been taken from it. -/
structure Metered (σ : Type) where
  source : σ
  taken : List UInt8 := []

namespace Metered

variable {σ : Type} [ByteSource σ]

instance : ByteSource (Metered σ) where
  read m limit :=
    ((ByteSource.read m.source limit).1,
      ⟨(ByteSource.read m.source limit).2, m.taken ++ (ByteSource.read m.source limit).1.bytes⟩)

theorem echoes_source : Echoes (Metered.source : Metered σ → σ) :=
  fun _ _ => rfl

/-- A meter that has counted on from `taken` what is heard. -/
def ofHeard (taken : List UInt8) (h : Heard σ) : Metered σ :=
  ⟨h.source, taken ++ h.answers.flatMap Answer.bytes⟩

theorem echoes_ofHeard (taken : List UInt8) : Echoes (ofHeard taken : Heard σ → Metered σ) := by
  intro h limit
  change (_, (⟨_, (taken ++ _) ++ _⟩ : Metered σ)) = (_, (⟨_, taken ++ List.flatMap _ (_ ++ [_])⟩))
  rw [List.flatMap_append, List.flatMap_singleton, List.append_assoc]
  rfl

/-- A change of the source inside. What has been taken stays taken. -/
def Changes (change : σ → σ → Prop) (m m' : Metered σ) : Prop :=
  change m.source m'.source ∧ m'.taken = m.taken

end Metered

/-! ### Drawing no more than is wanted -/

namespace Window

variable {σ : Type} [ByteSource σ] [LawfulByteSource σ]

theorem available_fill_le {w : Window} {needed : Nat} (source : σ)
    (lacking : w.available ≤ needed) : (w.fill needed source).2.1.available ≤ needed := by
  fun_induction fill w needed source with
  | case1 | case3 | case4 | case5 | case6 => exact lacking
  | case2 w source few bytes source₁ delivered nonempty ih =>
    have size := LawfulByteSource.size_le _ _ _ _ delivered
    apply ih
    simp only [available, append, Array.size_append] at few size ⊢
    omega

/-- Ensuring does not exceed what is wanted, nor the limit. -/
theorem available_ensure_le {w w' : Window} {needed : Nat} {source source' : σ}
    {why : Option Shortfall} (within : w.available ≤ w.maxCapacity)
    (lacking : w.available < needed) (h : w.ensure needed source = (why, w', source')) :
    w'.available ≤ needed ∧ w'.available ≤ w.maxCapacity := by
  have held := available_prepareWith (· + ·) w needed
  cases ensured_of_ensure h with
  | resident enough => exact absurd enough (Nat.not_le.mpr lacking)
  | exceeds => exact ⟨Nat.le_of_lt lacking, within⟩
  | filled _ fits granted filled =>
    rw [granted] at held
    have few := available_fill_le source (Nat.le_trans (Nat.le_of_eq held) (Nat.le_of_lt lacking))
    rw [filled] at few
    exact ⟨few, Nat.le_trans few fits⟩
  | refused _ _ refused =>
    rw [refused] at held
    exact held ▸ ⟨Nat.le_of_lt lacking, within⟩

/-- Gathering a tag that is awaited draws no byte beyond it, nor beyond the limit. -/
theorem Awaits.exact_of_gather {w w' : Window} {schema : Schema} {heard heard' : Heard σ}
    {settled : Except Lack Verdict} (awaits : w.Awaits schema)
    (h : w.gather schema heard = (settled, w', heard')) :
    w'.available ≤ w.maxCapacity ∧
      ∀ verdict, settled = .ok verdict → (∀ fault, verdict ≠ .refuse fault) →
        w'.available = verdict.extent := by
  fun_induction Window.gather w schema heard with
  | case1 w heard verdict demanded =>
    obtain ⟨-, -, needed, part, awaited⟩ := awaits
    rw [demanded] at awaited
    cases awaited
  | case2 w heard needed part demanded w₁ heard₁ ensured ih =>
    have lacking := w.available_lt_of_demand demanded
    obtain ⟨answers, -, hears, short, -⟩ := hears_ensure awaits.inside lacking ensured
    obtain ⟨wanted, within⟩ := available_ensure_le awaits.within lacking ensured
    have held : w₁.available = needed :=
      Nat.le_antisymm wanted (Nat.le_of_not_lt fun few => short.mpr few rfl)
    have moved := hears.drawn
    cases demanded' : w₁.demand schema with
    | await needed' part' =>
      rw [← moved.limit] at within ⊢
      exact ih ⟨moved.inside, within, needed', part', demanded'⟩ h
    | settled verdict =>
      rw [gather_of_settled demanded'] at h
      cases h
      refine ⟨within, ?_⟩
      rintro verdict ⟨⟩ accepted
      rw [← held] at demanded
      exact eq_extent_of_met demanded moved.limit ⟨_, moved.resident.symm⟩ demanded' accepted
  | case3 w heard needed part demanded why w₁ heard₁ ensured =>
    cases h
    have lacking := w.available_lt_of_demand demanded
    obtain ⟨-, within⟩ := available_ensure_le awaits.within lacking ensured
    exact ⟨within, by intro verdict h; cases h⟩

end Window

namespace Reader

variable {schema : Schema} {taken : List UInt8}

/-! ### What acting consumes -/

/-- All that was resident has been consumed. -/
structure ConsumesAll (q r : Reader) : Prop where
  offset : r.offset = q.offset + q.window.available
  drained : r.window.resident = []

theorem consumesAll_consume {q : Reader} {count : Nat} (all : q.window.available = count) :
    ConsumesAll q (q.consume count) := by
  constructor
  · rw [offset_consume (Nat.le_of_eq all.symm), all]
  · rw [consume, Window.resident_advance, ← all, ← Window.length_resident, List.drop_length]

theorem consumesAll_consume_consume {q : Reader} {first second : Nat}
    (all : q.window.available = first + second) :
    ConsumesAll q ((q.consume first).consume second) := by
  constructor
  · rw [offset_consume_consume (Nat.le_of_eq all.symm), all, Nat.add_assoc]
  · rw [consume, consume, Window.resident_advance, Window.resident_advance, List.drop_drop, ← all,
      ← Window.length_resident, List.drop_length]

theorem ConsumesAll.of_window {q p r : Reader} (h : ConsumesAll q p) (same : r.window = p.window) :
    ConsumesAll q r where
  offset := by
    unfold Reader.offset
    rw [same]
    exact h.offset
  drained := by
    rw [same]
    exact h.drained

/-- Entering or reading a tag that is all that is resident consumes it. -/
theorem consumesAll_of_acted {q : Reader} {verdict : Verdict} {given : Report × Reader}
    (acted : Acted schema q (.ok verdict) given) (accepted : ∀ fault, verdict ≠ .refuse fault)
    (all : q.window.available = verdict.extent) : ConsumesAll q given.2 := by
  cases acted with
  | enter => exact (consumesAll_consume all).of_window (window_place ..).1
  | leaf => exact (consumesAll_consume_consume all).of_window (window_place ..).1
  | malformed => exact (consumesAll_consume_consume all).of_window rfl
  | refuse fault => exact absurd rfl (accepted fault)

/-! ### Accounts -/

/-- The bytes that have been taken are those of whole tags, as many as the offset says, and then the
resident ones. -/
def Accounts (r : Reader) (schema : Schema) (taken : List UInt8) : Prop :=
  ∃ tags : List (List UInt8), (∀ tag ∈ tags, schema.IsTag tag) ∧
    tags.flatten.length = r.offset ∧ taken = tags.flatten ++ r.window.resident

theorem Accounts.of_window {q r : Reader} (accounts : q.Accounts schema taken)
    (same : r.window = q.window) : r.Accounts schema taken := by
  unfold Accounts offset at accounts ⊢
  rw [same]
  exact accounts

/-- A tag that was all that was resident is accounted for once it has been consumed. -/
theorem Accounts.consume {q r : Reader} (accounts : q.Accounts schema taken)
    (isTag : schema.IsTag q.window.resident) (consumes : ConsumesAll q r) :
    r.Accounts schema taken := by
  obtain ⟨tags, whole, length, rfl⟩ := accounts
  refine ⟨tags ++ [q.window.resident], ?_, ?_, ?_⟩
  · intro tag mem
    rcases List.mem_append.mp mem with mem | mem
    · exact whole tag mem
    · obtain rfl := List.mem_singleton.mp mem
      exact isTag
  · rw [List.flatten_append, List.length_append, length, consumes.offset,
      ← Window.length_resident]
    simp
  · rw [consumes.drained, List.flatten_append]
    simp

/-- Acting on what has been gathered keeps the account. -/
theorem Accounts.act {q : Reader} {settled : Except Lack Verdict} {given : Report × Reader}
    (accounts : q.Accounts schema taken) (acted : Acted schema q settled given)
    (demanded : ∀ verdict, settled = .ok verdict → q.window.demand schema = .settled verdict)
    (whole : ∀ verdict, settled = .ok verdict → (∀ fault, verdict ≠ .refuse fault) →
      q.window.available = verdict.extent) : given.2.Accounts schema taken := by
  -- A tag that is entered or read is all that is resident.
  have spent {verdict : Verdict} (settles : settled = .ok verdict)
      (accepted : ∀ fault, verdict ≠ .refuse fault) : given.2.Accounts schema taken := by
    have all := whole verdict settles accepted
    have demanded := demanded verdict settles
    rw [Window.demand_eq_demandOf] at demanded
    rw [settles] at acted
    refine accounts.consume ?_ (consumesAll_of_acted acted accepted all)
    refine Schema.isTag_of_settled demanded accepted ?_
    rw [Window.length_resident]
    exact all
  cases acted with
  | enter | leaf | malformed => exact spent rfl (by intro _ h; cases h)
  | refuse => exact accounts
  | fallShort lack => exact accounts.of_window (window_fallShort q lack)

/-! ### Steps -/

/-- What a step leaves: a fault, or a pause with no tag owed, or no byte resident. -/
inductive Spends (report : Report) (r : Reader) : Prop where
  | fault : report.isFault = true → r.stopped ≠ none → Spends report r
  | pause : report.isPause = true → r.stopped = none → r.owed? = none → Spends report r
  | drained : r.stopped = none → r.window.resident = [] → Spends report r

theorem Spends.resident_eq_nil {report : Report} {r : Reader} (spends : Spends report r)
    (given : report.outcome = .ok ∨ report.outcome = .endOfStream) : r.window.resident = [] := by
  cases spends with
  | fault fails => cases report <;> simp_all [Report.outcome, Report.isFault]
  | pause pauses => cases report <;> simp_all [Report.outcome, Report.isPause]
  | drained _ empty => exact empty

theorem Spends.running {report : Report} {r : Reader} (spends : Spends report r)
    (paused : report.outcome = .needMoreData) : r.stopped = none := by
  cases spends with
  | fault fails => cases report <;> simp_all [Report.outcome, Report.isFault]
  | pause _ running => exact running
  | drained running => exact running

theorem spends_of_acted {q : Reader} {settled : Except Lack Verdict} {given : Report × Reader}
    (acted : Acted schema q settled given) (stopped : q.stopped = none) (owed : q.owed? = none)
    (whole : ∀ verdict, settled = .ok verdict → (∀ fault, verdict ≠ .refuse fault) →
      q.window.available = verdict.extent)
    (lacks : ∀ lack, settled = .error lack →
      ∃ needed, q.window.demand schema = .await needed lack.part) :
    Spends given.1 given.2 := by
  have drained {verdict : Verdict} (settles : settled = .ok verdict)
      (accepted : ∀ fault, verdict ≠ .refuse fault) : given.2.window.resident = [] := by
    have all := whole verdict settles accepted
    rw [settles] at acted
    exact (consumesAll_of_acted acted accepted all).drained
  cases acted with
  | enter | leaf =>
    exact .drained ((window_place ..).2.trans stopped) (drained rfl (by intro _ h; cases h))
  | malformed | refuse => exact .fault rfl (by intro h; cases h)
  | fallShort lack =>
    obtain ⟨needed, demanded⟩ := lacks lack rfl
    unfold fallShort
    split
    · exact .pause rfl stopped owed
    · -- Between tags no byte is resident.
      obtain ⟨window, running⟩ := window_closeAtEnd q
      refine .drained (running.trans stopped) ?_
      rw [Window.demand_eq_demandOf] at demanded
      rw [window]
      exact (Schema.eq_nil_of_await_start demanded).1
    all_goals exact .fault rfl (by intro h; cases h)

/-- What a reader keeps from step to step, with these bytes taken: it accounts for them, holds no
whole tag while it runs, and nothing while it owes one. -/
structure Frugal (r : Reader) (schema : Schema) (taken : List UInt8) : Prop where
  accounts : r.Accounts schema taken
  steady : r.Steady schema
  drained : r.stopped = none → r.owed? ≠ none → r.window.resident = []

theorem AtStart.frugal {r : Reader} (start : r.AtStart) (schema : Schema) :
    r.Frugal schema [] where
  accounts := by
    refine ⟨[], by simp, start.offset.symm, ?_⟩
    rw [start.resident]
    rfl
  steady := start.steady schema
  drained _ _ := start.resident

theorem Spends.frugal {r : Reader} {report : Report} (spends : Spends report r)
    (accounts : r.Accounts schema taken) (steady : r.Steady schema) : r.Frugal schema taken := by
  refine ⟨accounts, steady, ?_⟩
  intro running owes
  cases spends with
  | fault _ stopped => exact absurd running stopped
  | pause _ _ owed => exact absurd owed owes
  | drained _ empty => exact empty

/-- Giving a tag that is owed takes no byte, and none was resident. -/
theorem Frugal.owed {r r' : Reader} {emission : Emission} (frugal : r.Frugal schema taken)
    (stopped : r.stopped = none) (owed : r.owed? = some (emission, r')) :
    (r'.emit emission).2.Frugal schema taken ∧ Spends (.tag emission) (r'.emit emission).2 := by
  obtain ⟨window, running⟩ := window_of_owed owed
  have empty : r'.window.resident = [] := by
    rw [window]
    exact frugal.drained stopped (by rw [owed]; intro h; cases h)
  have steady : (r'.emit emission).2.Steady schema := by
    intro _
    change r'.window.Awaits schema
    rw [window]
    exact frugal.steady stopped
  have spends : Spends (.tag emission) (r'.emit emission).2 :=
    .drained (running.trans stopped) empty
  exact ⟨spends.frugal (frugal.accounts.of_window window) steady, spends⟩

variable {σ : Type} [ByteSource σ] [LawfulByteSource σ]

/-- A step of a reader draws bytes from its source, and the reader accounts for them. -/
theorem Frugal.next {r r' : Reader} {source source' : σ} {report : Report}
    (frugal : r.Frugal schema taken) (h : r.next schema source = .ok (report, r', source')) :
    ∃ drawn,
      r.next schema (⟨source, taken⟩ : Metered σ) = .ok (report, r', ⟨source', taken ++ drawn⟩) ∧
        r'.Frugal schema (taken ++ drawn) ∧ Spends report r' := by
  obtain ⟨heard', stepped, rfl⟩ := exists_heard h []
  -- A meter counts what is heard, so only the account remains.
  have metered := next_map (Metered.echoes_ofHeard taken) r schema ⟨source, []⟩
  rw [stepped] at metered
  suffices accounted : r'.Frugal schema (taken ++ heard'.answers.flatMap Answer.bytes) ∧
      Spends report r' by
    refine ⟨_, ?_, accounted⟩
    rwa [Metered.ofHeard, List.flatMap_nil, List.append_nil] at metered
  cases stepped_of_next stepped with
  | @repeated faultClass stopped =>
    rw [List.flatMap_nil, List.append_nil]
    exact ⟨frugal, .fault rfl (by rw [stopped]; intro h; cases h)⟩
  | owed stopped owed =>
    rw [List.flatMap_nil, List.append_nil]
    exact frugal.owed stopped owed
  | @acted settled window _ given stopped owed gathered acted =>
    have awaits := frugal.steady stopped
    obtain ⟨within, whole⟩ := awaits.exact_of_gather gathered
    obtain ⟨answers, told, hears, lacks⟩ := Window.hears_gather awaits.inside gathered
    rw [told, List.nil_append]
    have moved := hears.drawn
    have accounts : Accounts { r with window } schema (taken ++ answers.flatMap Answer.bytes) := by
      obtain ⟨tags, isTag, length, rfl⟩ := frugal.accounts
      refine ⟨tags, isTag, length.trans moved.offset.symm, ?_⟩
      rw [moved.resident, List.append_assoc]
    have demanded := Window.settled_of_gather gathered
    have unmet : ∀ lack, settled = .error lack →
        ∃ needed, window.demand schema = .await needed lack.part := by
      intro lack short
      obtain ⟨needed, left, -⟩ := lacks lack short
      exact ⟨needed, left⟩
    have known := acted_of_act acted
    obtain ⟨steady, -⟩ := steady_of_acted known whole fun lack short => by
      obtain ⟨needed, left⟩ := unmet lack short
      exact ⟨moved.inside, moved.limit ▸ within, needed, lack.part, left⟩
    have spends :=
      spends_of_acted known stopped (owed?_eq_none_of_offset owed moved.offset) whole unmet
    exact ⟨spends.frugal (accounts.act known demanded whole) steady, spends⟩

/-- A step over a meter is a step over the source inside it, so the reader accounts for what it
took. -/
theorem Frugal.next_of_metered {r r' : Reader} {m m' : Metered σ} {report : Report}
    (frugal : r.Frugal schema m.taken) (h : r.next schema m = .ok (report, r', m')) :
    r'.Frugal schema m'.taken ∧ Spends report r' := by
  have plain := next_map Metered.echoes_source r schema m
  rw [h] at plain
  obtain ⟨drawn, metered, accounted⟩ := frugal.next plain
  have taken : m'.taken = m.taken ++ drawn := by
    rw [h] at metered
    exact congrArg (fun given => given.2.2.taken) (Except.ok.inj metered)
  rw [taken]
  exact accounted

end Reader

/-! ### Runs -/

variable {σ : Type} [ByteSource σ] [LawfulByteSource σ] {change : σ → σ → Prop} {schema : Schema}
  {r r' : Reader} {source source' : σ} {seen : List Observation}

/-- A meter can be put on every run. -/
theorem Run.exists_metered (run : Run schema change r source seen r' source') {taken : List UInt8}
    (frugal : r.Frugal schema taken) :
    ∃ taken' : List UInt8,
      Run schema (Metered.Changes change) r ⟨source, taken⟩ seen r' ⟨source', taken'⟩ := by
  induction run generalizing taken with
  | nil => exact ⟨taken, .nil _ _⟩
  | @cons r r₁ r' source source₁ source₂ source' report later changed stepped rest ih =>
    obtain ⟨drawn, metered, frugal', -⟩ := frugal.next stepped
    obtain ⟨taken', metered'⟩ := ih frugal'
    have kept : Metered.Changes change ⟨source, taken⟩ ⟨source₁, taken⟩ := ⟨changed, rfl⟩
    exact ⟨taken', .cons kept metered metered'⟩

/-- A reader accounts for what the meter on a run says. -/
theorem Run.frugal {m m' : Metered σ} (run : Run schema (Metered.Changes change) r m seen r' m')
    (frugal : r.Frugal schema m.taken) :
    r'.Frugal schema m'.taken ∧ ∀ o, seen.getLast? = some o → r'.Spends o.report := by
  induction run with
  | nil => exact ⟨frugal, by intro _ h; cases h⟩
  | @cons r r₁ r' m m₁ m₂ m' report later changed stepped rest ih =>
    rw [← changed.2] at frugal
    obtain ⟨frugal', spends⟩ := frugal.next_of_metered stepped
    obtain ⟨frugal'', last⟩ := ih frugal'
    refine ⟨frugal'', ?_⟩
    intro o final
    cases later with
    | nil =>
      cases rest
      obtain rfl := Option.some.inj final
      exact spends
    | cons next later =>
      rw [List.getLast?_cons_cons] at final
      exact last o final

/-- Over every run from the start of a stream, the bytes taken from the source are those of whole
tags, as many as the offset says, and then the resident ones; none are resident once a tag has been
given or the stream has ended; and a reader that pauses holds a part of a tag, and no more. -/
theorem taken_of_run (start : r.AtStart) (run : Run schema change r source seen r' source') :
    (∃ taken : List UInt8,
      Run schema (Metered.Changes change) r ⟨source, []⟩ seen r' ⟨source', taken⟩) ∧
      ∀ taken : List UInt8,
        Run schema (Metered.Changes change) r ⟨source, []⟩ seen r' ⟨source', taken⟩ →
          r'.Accounts schema taken ∧
            ∀ o, seen.getLast? = some o →
              (o.report.outcome = .ok ∨ o.report.outcome = .endOfStream →
                r'.window.resident = [] ∧ taken.length = r'.offset) ∧
              (o.report.outcome = .needMoreData → schema.IsPartial r'.window.resident) := by
  refine ⟨run.exists_metered (start.frugal schema), ?_⟩
  intro taken metered
  obtain ⟨frugal, last⟩ := metered.frugal (start.frugal schema)
  refine ⟨frugal.accounts, ?_⟩
  intro o final
  have spends := last o final
  constructor
  · intro given
    have empty := spends.resident_eq_nil given
    obtain ⟨tags, -, length, taken_eq⟩ := frugal.accounts
    rw [empty, List.append_nil] at taken_eq
    exact ⟨empty, (congrArg List.length taken_eq).trans length⟩
  · intro paused
    obtain ⟨-, -, needed, part, demanded⟩ := frugal.steady (spends.running paused)
    rw [Window.demand_eq_demandOf] at demanded
    exact Schema.isPartial_of_await demanded

/-- A cluster of unknown size and a timestamp of two bytes, of which only one comes for now. -/
def haltingScript : Script where
  cues := [.data [0x1F, 0x43, 0xB6, 0x75, 0xFF, 0xE7, 0x82, 0x01], .silence .wouldBlock]
  last := .endOfData

/-- After the cluster's opening tag, the reader holds the first three bytes of the timestamp. -/
theorem taken_of_haltingScript :
    ∃ (r' : Reader) (source' : Script) (taken : List UInt8),
      Run Matroska.schema (Metered.Changes fun _ _ => True) (.new {}) ⟨haltingScript, []⟩
        ((Reader.new {}).shown Matroska.schema haltingScript 2) r' ⟨source', taken⟩ ∧
      r'.Accounts Matroska.schema taken ∧ Matroska.schema.IsPartial r'.window.resident := by
  obtain ⟨r', source', run⟩ : ∃ r' source', Run Matroska.schema (fun _ _ => True) (.new {})
      haltingScript ((Reader.new {}).shown Matroska.schema haltingScript 2) r' source' :=
    Run.exists_shown (fun _ => trivial) _ _ _ _
  obtain ⟨⟨taken, metered⟩, told⟩ := taken_of_run (Reader.atStart_new {}) run
  obtain ⟨accounts, last⟩ := told taken metered
  have paused : ((Reader.new {}).shown Matroska.schema haltingScript 2).getLast? =
      some ⟨.needMoreData (.payload 0xE7), 5, 1⟩ := by
    decide +kernel
  exact ⟨r', source', taken, metered, accounts, (last _ paused).2 rfl⟩

end TagStream
