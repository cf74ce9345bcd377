import TagStream.Proofs.Draining
import TagStream.Proofs.Feeding
import TagStream.Proofs.Reparenting

/-!
Skimming. A reader skims a stream if it forgets, after each step, the tags that it owes
(`Reader.skim`). No container is then ever open, so that what may stand where does not matter
(`skim_reparent`). What a reader gives that does close its containers is the same but for the
closing tags (`skim_of_steps`, `exists_steps_of_skim`). The two readers do not keep pace: one that
puts off a tag, or closes its containers at the end of the stream, has already read what the other
gives at once. `Reader.Abreast` says how far apart they are.
-/

namespace TagStream

variable {σ : Type} [ByteSource σ]

/-! ### Sources whose end is final -/

/-- Where this holds of a source, the first end of its data is the last. -/
structure Ending (holds : σ → Prop) : Prop where
  lasts : Lasting holds
  ends : ∀ {source source' : σ} {limit : Nat}, holds source → 0 < limit →
    ByteSource.read source limit = (.endOfData, source') → Ended source'

theorem Ended.read {source : σ} (ended : Ended source) {limit : Nat} (asked : 0 < limit) :
    ∃ source', ByteSource.read source limit = (.endOfData, source') ∧ Ended source' := by
  obtain ⟨holds, atEnd, there⟩ := ended
  exact ⟨_, Prod.ext (atEnd.answers there asked) rfl, holds, atEnd, atEnd.lasts there asked⟩

/-- A memory that has come to its end stays there. -/
theorem Memory.ending : Ending fun _ : Memory => True where
  lasts _ _ := trivial
  ends := by
    intro m m' limit _ asked answered
    have ended : (m.read limit).1 = .endOfData := congrArg Prod.fst answered
    have spent := (endOfData_iff m limit).mp ended
    have same : m' = m := by
      have left : (m.read limit).2 = m' := congrArg Prod.snd answered
      rw [← left, read_of_drained spent.1]
    subst same
    have answers (limit : Nat) : m'.read limit = (.endOfData, m') := by
      rw [read_of_drained spent.1, spent.2]
      rfl
    refine ⟨(· = m'), ⟨?_, ?_⟩, rfl⟩
    · rintro _ limit rfl -
      exact congrArg Prod.snd (answers limit)
    · rintro _ limit rfl -
      exact congrArg Prod.fst (answers limit)

namespace Window

/-! ### Windows at the end of a source -/

/-- A window that is granted room has it behind the consumed bytes. -/
theorem room_of_prepareWith {w w' : Window} {needed : Nat} (pos : 0 < needed)
    (fits : needed ≤ w.maxCapacity) (granted : w.prepareWith (· + ·) needed = (true, w')) :
    w'.head + needed ≤ w'.capacity := by
  unfold prepareWith at granted
  split at granted
  · have front : w.compact.head = 0 := by
      unfold compact
      split
      · assumption
      · rfl
    have head := (w.compact.cells_reserve needed).2.1
    have enough := le_capacity_of_reserve (w.maxCapacity_compact.symm ▸ fits)
      (congrArg Prod.fst granted)
    rw [granted] at head enough
    rw [head, front, Nat.zero_add]
    exact enough
  · next roomy =>
    have enough : w.head + needed ≤ w.capacity := Nat.le_of_not_lt roomy
    rw [reserve_of_le pos (by omega)] at granted
    cases granted
    exact enough

/-- A window that has room for as many bytes as are needed, and holds fewer. -/
structure Lacks (w : Window) (needed : Nat) : Prop where
  few : w.available < needed
  room : w.head + needed ≤ w.capacity
  limit : needed ≤ w.maxCapacity

variable {holds : σ → Prop} {w w' : Window} {source source' : σ} {needed : Nat}

theorem Lacks.of_fill (ending : Ending holds) (there : holds source)
    (room : w.head + needed ≤ w.capacity) (limit : needed ≤ w.maxCapacity)
    (h : w.fill needed source = (some .endOfData, w', source')) :
    w'.Lacks needed ∧ Ended source' := by
  fun_induction fill w needed source with
  | case1 | case4 | case5 | case6 => cases h
  | case2 w source few bytes source₁ answered nonempty ih =>
    exact ih (Lasting.of_read ending.lasts there (Nat.sub_pos_of_lt few) answered) room limit h
  | case3 w source few source₁ answered =>
    cases h
    exact ⟨⟨few, room, limit⟩, ending.ends there (Nat.sub_pos_of_lt few) answered⟩

/-- A window that falls short at the end of a source has room for the bytes that do not come. -/
theorem Lacks.of_ensure (ending : Ending holds) (there : holds source)
    (h : w.ensure needed source = (some .endOfData, w', source')) :
    w'.Lacks needed ∧ Ended source' := by
  cases ensured_of_ensure h with
  | filled lacking fits granted filled =>
    have room := room_of_prepareWith (Nat.zero_lt_of_lt lacking) fits granted
    have kept := maxCapacity_prepareWith (· + ·) w needed
    rw [granted] at kept
    exact Lacks.of_fill ending there room (kept.symm ▸ fits) filled

/-- At the end of a source nothing happens to a window that has room for what it lacks. -/
theorem Lacks.ensure (lacks : w.Lacks needed) (ended : Ended source) :
    ∃ source', w.ensure needed source = (some .endOfData, w, source') ∧ Ended source' := by
  obtain ⟨few, room, limit⟩ := lacks
  obtain ⟨source', answered, ended'⟩ := ended.read (Nat.sub_pos_of_lt few)
  refine ⟨source', ?_, ended'⟩
  have prepared : w.prepareWith (· + ·) needed = (true, w) := by
    rw [prepareWith, if_neg (Nat.not_lt.mpr room)]
    exact reserve_of_le (Nat.zero_lt_of_lt few) (Nat.le_trans (Nat.le_add_left _ _) room)
  rw [Window.ensure, ensureWith, if_neg (Nat.not_le.mpr few), if_neg (Nat.not_lt.mpr limit),
    prepared]
  simp only [fill, if_pos few, answered]

variable {schema : Schema}

/-- Where the source ends between two tags, the window is left with room for the first byte of the
next one. -/
theorem Lacks.of_gather (ending : Ending holds) (there : holds source)
    (h : w.gather schema source = (.error ⟨.endOfData, .start⟩, w', source')) :
    w'.Lacks 1 ∧ Ended source' := by
  fun_induction gather w schema source with
  | case1 => cases h
  | case2 w source needed part demanded w₁ source₁ ensured ih =>
    have there' : holds (w.ensure needed source).2.2 := lasting_ensure ending.lasts there
    rw [ensured] at there'
    exact ih there' h
  | case3 w source needed part demanded why w₁ source₁ ensured =>
    cases h
    rw [demand_eq_demandOf] at demanded
    obtain ⟨-, rfl⟩ := Schema.eq_nil_of_await_start demanded
    exact Lacks.of_ensure ending there ensured

theorem Lacks.gather (lacks : w.Lacks 1) (schema : Schema) (ended : Ended source) :
    ∃ source', w.gather schema source = (.error ⟨.endOfData, .start⟩, w, source') ∧
      Ended source' := by
  obtain ⟨source', ensured, ended'⟩ := lacks.ensure ended
  have empty : w.resident = [] :=
    List.eq_nil_of_length_eq_zero (w.length_resident.trans (Nat.lt_one_iff.mp lacks.few))
  have demanded : w.demand schema = .await 1 .start := by
    rw [demand_eq_demandOf, empty]
    rfl
  refine ⟨source', ?_, ended'⟩
  rw [gather_of_await demanded, ensured]

end Window

/-! ### Skimming -/

/-- Whether the report is of a closing tag. -/
def Report.isClosing : Report → Bool
  | .tag emission => emission.isClosing
  | _ => false

namespace Reader

/-- The reader without the tags that it owes, and without its counts and its journal. -/
def bare (r : Reader) : Reader where
  window := r.window
  stopped := r.stopped
  journal := { threshold := none }

/-- Takes `count` steps, after each of which the tags that are owed are forgotten. -/
def skim (r : Reader) (schema : Schema) (source : σ) :
    (count : Nat) → Except Defect (List Report × Reader × σ)
  | 0 => .ok ([], r, source)
  | count + 1 => do
    let (report, r, source) ← r.bare.next schema source
    let (later, r', source') ← r.skim schema source count
    return (report :: later, r', source')

variable {schema : Schema}

theorem skim_succ {r r₁ : Reader} {source source₁ : σ} {report : Report}
    (stepped : r.bare.next schema source = .ok (report, r₁, source₁)) (count : Nat) :
    r.skim schema source (count + 1) =
      (r₁.skim schema source₁ count).map fun later => (report :: later.1, later.2) := by
  simp only [skim, stepped, bind, Except.bind]
  cases r₁.skim schema source₁ count <;> rfl

/-- Where no container is ever open, it does not matter what is admitted where. -/
theorem skim_reparent (admits : Tag → ElementId → Bool) (r : Reader) (source : σ) (count : Nat) :
    r.skim (schema.reparent admits) source count = r.skim schema source count := by
  induction count generalizing r source with
  | zero => rfl
  | succ count ih =>
    have sized : r.bare.Sized := by
      intro k mem
      cases mem
    simp only [skim, next_reparent sized, ih]

/-! ### What is given besides -/

/-- How acting on what has been settled differs from doing so with no tags owed: in nothing, or a
container is closed first, which is displaced by the tag that is put off, or left open at the end
of the stream. -/
inductive Diverges (containers : List Emission) (window : Window)
    (settled : Except Lack Verdict) : (given skimmed : Report × Reader) → Prop where
  | alike {report : Report} {r q : Reader} : report.isClosing = false → r.deferred = none →
      q.bare = r.bare → Diverges containers window settled (report, r) (report, q)
  | displaced {k e : Emission} {r q : Reader} : k ∈ containers → r.deferred = some e →
      r.depth ≤ containers.length → r.stopped = none → q.bare = r.bare →
      Diverges containers window settled (.tag k, r) (.tag e, q)
  | closed {k : Emission} {r q : Reader} : settled = .error ⟨.endOfData, .start⟩ →
      k ∈ containers → r.deferred = none → r.depth < containers.length → r.stopped = none →
      r.window = window → q.bare = r.bare →
      Diverges containers window settled (.tag k, r) (.endOfStream, q)

variable {r : Reader} {settled : Except Lack Verdict} {given : Report × Reader}

theorem diverges_place (running : r.stopped = none) (idle : r.deferred = none) {id : ElementId}
    {emission : Emission} {closing : Option Emission} (begins : emission.isClosing = false)
    (window : Window) (settled : Except Lack Verdict) :
    Diverges r.containers window settled (r.place schema id emission closing)
      (r.bare.place schema id emission closing) := by
  have few : closing.toList.length ≤ 1 := Option.length_toList_le
  unfold place
  split
  · next k outer stack =>
    rw [stack]
    split
    · refine .displaced List.mem_cons_self rfl ?_ running rfl
      simp only [depth, List.length_append, List.length_cons]
      omega
    · exact .alike begins idle rfl
  · exact .alike begins idle rfl

theorem diverges_fallShort (running : r.stopped = none) (idle : r.deferred = none) (lack : Lack) :
    Diverges r.containers r.window (.error lack) (r.fallShort lack) (r.bare.fallShort lack) := by
  unfold fallShort
  split
  · exact .alike rfl idle rfl
  · unfold closeAtEnd
    split
    · exact .alike rfl idle rfl
    · next k outer stack =>
      rw [stack]
      exact .closed rfl List.mem_cons_self idle (Nat.lt_succ_self _) running rfl rfl
  all_goals exact .alike rfl idle rfl

/-- Where no tag is put off, what is settled is acted on with no tags owed, too. -/
theorem diverges_act (truthful : schema.Truthful) (running : r.stopped = none)
    (idle : r.deferred = none) (h : act r schema settled = .ok given) :
    ∃ skimmed, act r.bare schema settled = .ok skimmed ∧
      Diverges r.containers r.window settled given skimmed := by
  cases acted_of_act h with
  | @enter header closing opening closed opened =>
    refine ⟨_, ?_, diverges_place (r := r.consume header.length) running idle
      (truthful.begins_opening opened _) _ _⟩
    simp only [act, enter, closed, opened, bind, Except.bind]
    rfl
  | @leaf header length tag read =>
    refine ⟨_, ?_, diverges_place (r := (r.consume header.length).consume length) running idle
      (truthful.begins_leaf read _) _ _⟩
    have read' : schema.tagOfPayload header.id (schema.kindOf header.id)
        ((r.bare.consume header.length).window.front length) = .ok (.ok tag) := read
    simp only [act, readLeaf, read', bind, Except.bind]
    rfl
  | @malformed header length malformed read =>
    have read' : schema.tagOfPayload header.id (schema.kindOf header.id)
        ((r.bare.consume header.length).window.front length) = .ok (.error malformed) := read
    refine ⟨((r.bare.consume header.length).consume length).stop
      (.payload header.id malformed ((r.bare.consume header.length).window.front length)), ?_,
      .alike rfl idle rfl⟩
    simp only [act, readLeaf, read', bind, Except.bind]
    rfl
  | refuse fault => exact ⟨_, rfl, .alike rfl idle rfl⟩
  | fallShort lack => exact ⟨_, rfl, diverges_fallShort running idle lack⟩

/-- With no tag put off, what is owed is the closing tag of the innermost container. -/
theorem cases_of_owed {r' : Reader} {emission : Emission} (idle : r.deferred = none)
    (h : r.owed? = some (emission, r')) :
    r.containers = emission :: r'.containers ∧ r'.deferred = none ∧ r'.bare = r.bare := by
  obtain ⟨window, deferred, containers, stopped, tally, journal⟩ := r
  obtain rfl : deferred = none := idle
  cases containers with
  | nil => cases h
  | cons k outer =>
    unfold owed? at h
    simp only at h
    split at h
    · cases h
      exact ⟨rfl, rfl, rfl⟩
    · cases h

/-- At the end of a source a reader that owes nothing reports the end of the stream. -/
theorem exists_next_of_ended (q : Reader) (schema : Schema) {source : σ}
    (running : q.bare.stopped = none) (lacks : q.bare.window.Lacks 1) (ended : Ended source) :
    ∃ source', q.bare.next schema source = .ok (.endOfStream, q.bare, source') ∧
      Ended source' := by
  obtain ⟨source', gathered, ended'⟩ := lacks.gather schema ended
  refine ⟨source', ?_, ended'⟩
  rw [next_of_gather running rfl gathered]
  rfl

/-! ### Side by side -/

/-- How far a reader is apart from one that skims the same stream: both are at the same place, or
the reader has put off a tag that the other one has yet to read, or it closes its containers at the
end of the stream, which the other one has yet to report. -/
inductive Abreast (schema : Schema) (r : Reader) (source : σ) (q : Reader) : (skimmed : σ) → Prop
  where
  | even : r.deferred = none → q.bare = r.bare → Abreast schema r source q source
  | behind {e : Emission} {q' : Reader} {skimmed : σ} : r.deferred = some e → r.stopped = none →
      q.bare.next schema skimmed = .ok (.tag e, q', source) → q'.bare = r.bare →
      Abreast schema r source q skimmed
  | ended {q' : Reader} {skimmed skimmed' : σ} : r.deferred = none → r.stopped = none →
      r.window.Lacks 1 → Ended source →
      q.bare.next schema skimmed = .ok (.endOfStream, q', skimmed') → q'.bare = r.bare →
      Ended skimmed' → Abreast schema r source q skimmed

/-- A bound on the closing tags that can be given in a row. -/
def backlog (r : Reader) : Nat :=
  2 * r.depth + if r.deferred.isNone then 1 else 0

theorem backlog_lt_of_depth {r r' : Reader} (fewer : r'.depth < r.depth) :
    r'.backlog < r.backlog := by
  unfold backlog
  split <;> split <;> omega

theorem backlog_lt_of_deferred {r r' : Reader} {e : Emission} (idle : r.deferred = none)
    (deferred : r'.deferred = some e) (few : r'.depth ≤ r.depth) : r'.backlog < r.backlog := by
  unfold backlog
  rw [idle, deferred]
  exact Nat.lt_succ_of_le (Nat.mul_le_mul_left 2 few)

section Abreast

variable {holds : σ → Prop} {q r' : Reader} {source source' skimmed : σ} {report : Report}

/-- What a step means for a reader that skims the same stream: the step gives a closing tag, and the
other reader stays where it is; or both give the same. -/
inductive Matched (schema : Schema) (r : Reader) (report : Report) (r' : Reader) (source' : σ)
    (q : Reader) (skimmed : σ) : Prop where
  | closes : report.isClosing = true → r'.backlog < r.backlog →
      Abreast schema r' source' q skimmed → Matched schema r report r' source' q skimmed
  | gives {q' : Reader} {skimmed' : σ} : report.isClosing = false →
      q.bare.next schema skimmed = .ok (report, q', skimmed') →
      Abreast schema r' source' q' skimmed' → Matched schema r report r' source' q skimmed

/-- A step from the same place. -/
theorem matched_of_even (truthful : schema.Truthful) (ending : Ending holds) (there : holds source)
    (stacked : r.ClosingsStacked) (idle : r.deferred = none) (same : q.bare = r.bare)
    (h : r.next schema source = .ok (report, r', source')) :
    Matched schema r report r' source' q source := by
  have closes {k : Emission} (mem : k ∈ r.containers) : k.isClosing = true :=
    beq_iff_eq.mpr (stacked.closings k mem)
  cases stepped_of_next h with
  | @repeated faultClass stopped =>
    have stopped' : r.bare.stopped = some faultClass := stopped
    refine .gives rfl ?_ (.even idle (rfl : r.bare.bare = r.bare))
    rw [same]
    exact (Stepped.repeated stopped').next_eq
  | @owed k r₁ running owed =>
    obtain ⟨stack, idle', bare⟩ := cases_of_owed idle owed
    refine .closes (closes (stack ▸ List.mem_cons_self)) (backlog_lt_of_depth ?_)
      (.even idle' (same.trans bare.symm))
    rw [depth, depth, stack]
    exact Nat.lt_succ_self _
  | @acted settled window source' given running owed gathered acted =>
    have running' : r.bare.stopped = none := running
    have gathered' : r.bare.window.gather schema source = (settled, window, source') := gathered
    obtain ⟨skimmed, acted', diverges⟩ :=
      diverges_act (r := { r with window }) truthful running idle acted
    have stepped : q.bare.next schema source = .ok (skimmed.1, skimmed.2, source') := by
      rw [same, next_of_gather running' rfl gathered']
      change (act (bare { r with window }) schema settled).map _ = _
      rw [acted']
      rfl
    cases diverges with
    | alike other idle' same' => exact .gives other stepped (.even idle' same')
    | displaced mem deferred few running' same' =>
      exact .closes (closes mem) (backlog_lt_of_deferred idle deferred few)
        (.behind deferred running' stepped same')
    | closed lacking mem idle' fewer running' window' same' =>
      obtain ⟨lacks, ended⟩ := Window.Lacks.of_gather ending there (lacking ▸ gathered)
      exact .closes (closes mem) (backlog_lt_of_depth fewer)
        (.ended idle' running' (window' ▸ lacks) ended stepped same' ended)

/-- A step at the end of the stream. -/
theorem matched_of_ended (stacked : r.ClosingsStacked) (idle : r.deferred = none)
    (running : r.stopped = none) (lacks : r.window.Lacks 1) (ended : Ended source) {q' : Reader}
    {skimmed' : σ} (stepped : q.bare.next schema skimmed = .ok (.endOfStream, q', skimmed'))
    (same : q'.bare = r.bare) (ended' : Ended skimmed')
    (h : r.next schema source = .ok (report, r', source')) :
    Matched schema r report r' source' q skimmed := by
  -- As long as there are containers, each step closes one.
  have closes {k : Emission} {r' : Reader} {source' : σ} (stack : r.containers = k :: r'.containers)
      (idle' : r'.deferred = none) (bare : r'.bare = r.bare) (ended : Ended source') :
      Matched schema r (.tag k) r' source' q skimmed := by
    have closing : k.isClosing = true :=
      beq_iff_eq.mpr (stacked.closings k (stack ▸ List.mem_cons_self))
    have running' : r'.bare.stopped = none := bare ▸ running
    have lacks' : r'.bare.window.Lacks 1 := bare ▸ lacks
    refine .closes closing (backlog_lt_of_depth ?_)
      (.ended idle' running' lacks' ended stepped (same.trans bare.symm) ended')
    rw [depth, depth, stack]
    exact Nat.lt_succ_self _
  cases stepped_of_next h with
  | repeated stopped =>
    rw [running] at stopped
    cases stopped
  | owed _ owed =>
    obtain ⟨stack, idle', bare⟩ := cases_of_owed idle owed
    exact closes stack idle' bare ended
  | @acted settled window source' given _ owed gathered acted =>
    obtain ⟨source₁, gathered', ended₁⟩ := lacks.gather schema ended
    rw [gathered'] at gathered
    cases gathered
    obtain rfl : given = r.closeAtEnd := (Except.ok.inj acted).symm
    unfold closeAtEnd
    split
    · -- The other reader goes on to report the end, over and over.
      obtain ⟨again, stepped', ended''⟩ :=
        q'.exists_next_of_ended schema (same ▸ running) (same ▸ lacks) ended'
      exact .gives rfl stepped
        (.ended idle running lacks ended₁ stepped' same ended'')
    · next k outer stack => exact closes stack idle rfl ended₁

/-- Every step keeps a reader abreast of one that skims the same stream. -/
theorem Abreast.next (truthful : schema.Truthful) (ending : Ending holds) (there : holds source)
    (stacked : r.ClosingsStacked) (abreast : Abreast schema r source q skimmed)
    (h : r.next schema source = .ok (report, r', source')) :
    Matched schema r report r' source' q skimmed := by
  cases abreast with
  | even idle same => exact matched_of_even truthful ending there stacked idle same h
  | @behind e q' _ deferred running stepped same =>
    have owed : r.owed? = some (e, { r with deferred := none }) := by
      unfold owed?
      rw [deferred]
    have given : r.next schema source = _ := (Stepped.owed running owed).next_eq
    rw [h] at given
    cases given
    exact .gives (stacked.deferred e deferred) stepped (.even rfl same)
  | ended idle running lacks ended stepped same ended' =>
    exact matched_of_ended stacked idle running lacks ended stepped same ended' h

end Abreast

end Reader

/-! ### Runs -/

/-- What is reported besides closing tags. -/
def besidesClosings (seen : List Observation) : List Report :=
  (seen.map (·.report)).filter fun report => !report.isClosing

theorem besidesClosings_append (seen later : List Observation) :
    besidesClosings (seen ++ later) = besidesClosings seen ++ besidesClosings later := by
  rw [besidesClosings, List.map_append, List.filter_append]
  rfl

theorem besidesClosings_cons_of_closing {o : Observation} (closes : o.report.isClosing = true)
    (later : List Observation) : besidesClosings (o :: later) = besidesClosings later := by
  simp [besidesClosings, closes]

theorem besidesClosings_cons_of_other {o : Observation} (other : o.report.isClosing = false)
    (later : List Observation) :
    besidesClosings (o :: later) = o.report :: besidesClosings later := by
  simp [besidesClosings, other]

namespace Reader

variable {schema : Schema} {holds : σ → Prop} {r r' q q' : Reader}
  {source source' skimmed skimmed' : σ} {seen : List Observation}

theorem cases_of_skim {count : Nat} {reports : List Report}
    (h : q.skim schema skimmed (count + 1) = .ok (reports, q', skimmed')) :
    ∃ report q₁ skimmed₁ later, q.bare.next schema skimmed = .ok (report, q₁, skimmed₁) ∧
      q₁.skim schema skimmed₁ count = .ok (later, q', skimmed') ∧ reports = report :: later := by
  cases stepped : q.bare.next schema skimmed with
  | error defect => simp [skim, stepped, bind, Except.bind] at h
  | ok result =>
    obtain ⟨report, q₁, skimmed₁⟩ := result
    rw [skim_succ stepped] at h
    cases rest : q₁.skim schema skimmed₁ count with
    | error defect => simp [rest, Except.map] at h
    | ok result' =>
      obtain ⟨later, q'', skimmed''⟩ := result'
      rw [rest] at h
      cases h
      exact ⟨report, q₁, skimmed₁, later, rfl, rest, rfl⟩

/-- What is given besides closing tags is given by a reader that skims the stream. -/
theorem skim_of_steps (truthful : schema.Truthful) (ending : Ending holds) {count : Nat}
    (there : holds source) (stacked : r.ClosingsStacked)
    (abreast : Abreast schema r source q skimmed)
    (h : r.steps schema source count = .ok (seen, r', source')) :
    ∃ count' q' skimmed',
      q.skim schema skimmed count' = .ok (besidesClosings seen, q', skimmed') := by
  induction count generalizing r source q skimmed seen with
  | zero =>
    cases h
    exact ⟨0, q, skimmed, rfl⟩
  | succ count ih =>
    obtain ⟨report, r₁, source₁, later, stepped, rest, rfl⟩ := cases_of_steps h
    have there' := lasting_next ending.lasts there stepped
    have stacked' := (stacked.next truthful stepped).1
    cases abreast.next truthful ending there stacked stepped with
    | closes closes _ abreast' =>
      rw [besidesClosings_cons_of_closing closes]
      exact ih there' stacked' abreast' rest
    | gives other stepped' abreast' =>
      obtain ⟨count', q', skimmed', skims⟩ := ih there' stacked' abreast' rest
      refine ⟨count' + 1, q', skimmed', ?_⟩
      rw [besidesClosings_cons_of_other other, skim_succ stepped', skims]
      rfl

/-- What a reader gives next that skims the stream, the other gives after some closing tags. -/
theorem Abreast.catch_up (defectless : schema.Defectless) (truthful : schema.Truthful)
    (ending : Ending holds) {report : Report} (there : holds source) (stacked : r.ClosingsStacked)
    (abreast : Abreast schema r source q skimmed)
    (h : q.bare.next schema skimmed = .ok (report, q', skimmed')) :
    ∃ taken first o r₁ source₁, (∀ count, r.steps schema source (count + taken) =
        (r₁.steps schema source₁ count).map fun later => (first ++ later.1, later.2)) ∧
      besidesClosings first = [report] ∧ first.getLast? = some o ∧ o.report = report ∧
      report.isClosing = false ∧ holds source₁ ∧ r₁.ClosingsStacked ∧
      Abreast schema r₁ source₁ q' skimmed' := by
  induction owed : r.backlog using Nat.strongRecOn generalizing r source with
  | ind _ ih =>
    subst owed
    obtain ⟨⟨report₁, r₁, source₁⟩, stepped⟩ := defectless.exists_next r source
    have there₁ := lasting_next ending.lasts there stepped
    have stacked₁ := (stacked.next truthful stepped).1
    cases abreast.next truthful ending there stacked stepped with
    | closes closes less abreast₁ =>
      obtain ⟨taken, first, o, r₂, source₂, steps, besides, last, rest⟩ :=
        ih _ less there₁ stacked₁ abreast₁ rfl
      refine ⟨taken + 1, r₁.observe report₁ :: first, o, r₂, source₂, ?_, ?_, ?_, rest⟩
      · intro count
        rw [← Nat.add_assoc, steps_succ stepped, steps]
        cases r₂.steps schema source₂ count <;> rfl
      · rw [besidesClosings_cons_of_closing closes]
        exact besides
      · rw [List.getLast?_cons, last]
        rfl
    | gives other stepped' abreast₁ =>
      rw [h] at stepped'
      cases stepped'
      refine ⟨1, [r₁.observe report], r₁.observe report, r₁, source₁, ?_, ?_, rfl, rfl, other,
        there₁, stacked₁, abreast₁⟩
      · intro count
        rw [steps_succ stepped]
        rfl
      · exact besidesClosings_cons_of_other other []

/-- What a reader gives that skims the stream, the other gives with closing tags in between. -/
theorem exists_steps_of_skim (defectless : schema.Defectless) (truthful : schema.Truthful)
    (ending : Ending holds) {count : Nat} {reports : List Report} (there : holds source)
    (stacked : r.ClosingsStacked) (abreast : Abreast schema r source q skimmed)
    (h : q.skim schema skimmed count = .ok (reports, q', skimmed')) :
    ∃ count' seen r' source', r.steps schema source count' = .ok (seen, r', source') ∧
      besidesClosings seen = reports ∧
      ∀ o, seen.getLast? = some o → o.report.isClosing = false := by
  induction count generalizing r source q skimmed reports with
  | zero =>
    cases h
    exact ⟨0, [], r, source, rfl, rfl, by intro o last; cases last⟩
  | succ count ih =>
    obtain ⟨report, q₁, skimmed₁, later, stepped, rest, rfl⟩ := cases_of_skim h
    obtain ⟨taken, first, o, r₁, source₁, steps, besides, last, rfl, other, there₁, stacked₁,
      abreast₁⟩ := abreast.catch_up defectless truthful ending there stacked stepped
    obtain ⟨count', seen, r', source', steps', besides', last'⟩ := ih there₁ stacked₁ abreast₁ rest
    refine ⟨count' + taken, first ++ seen, r', source', ?_, ?_, ?_⟩
    · rw [steps, steps']
      rfl
    · rw [besidesClosings_append, besides, besides']
      rfl
    · intro p final
      rw [List.getLast?_append, last] at final
      cases final' : seen.getLast? with
      | none =>
        rw [final'] at final
        cases final
        exact other
      | some p' =>
        rw [final'] at final
        cases final
        exact last' _ final'

end Reader

end TagStream
