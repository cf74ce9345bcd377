import TagStream.Proofs.Course
import TagStream.Proofs.Fetch
import TagStream.Proofs.Step

/-!
Readers follow their course. Whatever a source delivers at a time, and however a window keeps what
has been delivered, a step of a reader is a step of the course it is on, or a pause that leaves it
where it is (`next_follows`), as long as storage is granted. By induction the reports of a run, its
pauses left out, are those of the course (`Run.follows`).
-/

namespace TagStream

/-- Whether the step has to be taken again once more bytes have come. -/
def Report.isPause : Report → Bool
  | .needMoreData _ => true
  | _ => false

/-- What is seen of a run when its pauses are left out. -/
def withoutPauses (seen : List Observation) : List Observation :=
  seen.filter fun o => !o.report.isPause

theorem withoutPauses_cons_of_pause {o : Observation} (paused : o.report.isPause = true)
    (later : List Observation) : withoutPauses (o :: later) = withoutPauses later :=
  List.filter_cons_of_neg (by simp [paused])

theorem withoutPauses_cons_of_move {o : Observation} (moves : o.report.isPause = false)
    (later : List Observation) : withoutPauses (o :: later) = o :: withoutPauses later :=
  List.filter_cons_of_pos (by simp [moves])

/-- No step was refused storage. -/
def StorageGranted (seen : List Observation) : Prop :=
  ∀ o ∈ seen, o.report.outcome ≠ .fault .allocationFailed

instance (seen : List Observation) : Decidable (StorageGranted seen) :=
  inferInstanceAs (Decidable (∀ o ∈ seen, o.report.outcome ≠ .fault .allocationFailed))

/-! ### One step -/

namespace Reader

/-- A reader that has not stopped holds fewer bytes than its next tag demands. -/
def Steady (r : Reader) (schema : Schema) : Prop :=
  r.stopped = none → r.window.Awaits schema

/-- Consuming all that is resident drains the window. -/
theorem awaits_advance {w : Window} {schema : Schema} {count : Nat}
    (all : w.available = count) : (w.advance count).Awaits schema := by
  have drained : (w.advance count).available = 0 := by
    rw [← Window.length_resident, Window.resident_advance, List.length_drop,
      Window.length_resident, all, Nat.sub_self]
  refine Window.awaits_of_drained ?_ drained
  unfold Window.advance at drained ⊢
  simp only at drained ⊢
  split
  · exact Nat.le_refl _
  · next nonempty =>
    rw [if_neg nonempty] at drained
    exact absurd drained nonempty

/-- Consuming a part of what is resident leaves the rest. -/
theorem available_advance (w : Window) (count : Nat) :
    (w.advance count).available = w.available - count := by
  rw [← Window.length_resident, Window.resident_advance, List.length_drop, Window.length_resident]

variable {σ : Type} [ByteSource σ] {d : Delivery σ}

/-- Acting leaves the window drained or the tag awaited, and its limit as it was. -/
theorem steady_of_acted {r : Reader} {schema : Schema} {settled : Except Lack Verdict}
    {given : Report × Reader} (acted : Acted schema r settled given)
    (taken : ∀ verdict, settled = .ok verdict → (∀ fault, verdict ≠ .refuse fault) →
      r.window.available = verdict.extent)
    (awaits : ∀ lack, settled = .error lack → r.window.Awaits schema) :
    given.2.Steady schema ∧ given.2.window.maxCapacity = r.window.maxCapacity := by
  have limit (w : Window) (count : Nat) : (w.advance count).maxCapacity = w.maxCapacity := by
    unfold Window.advance
    simp only
    split <;> rfl
  cases acted with
  | @enter header closing opening _ _ =>
    obtain ⟨window, -⟩ := window_place (r.consume header.length) schema header.id
      ⟨opening, ⟨r.offset, header.length, header.size⟩⟩
      (some ⟨closing, ⟨r.offset, header.length, header.size⟩⟩)
    refine ⟨fun _ => ?_, by rw [window]; exact limit _ _⟩
    rw [window]
    exact awaits_advance (taken _ rfl (by intro _ h; cases h))
  | @leaf header length tag _ =>
    obtain ⟨window, -⟩ := window_place ((r.consume header.length).consume length) schema header.id
      ⟨tag, ⟨r.offset, header.length, header.size⟩⟩ none
    refine ⟨fun _ => ?_, by rw [window]; exact (limit _ _).trans (limit _ _)⟩
    rw [window]
    refine awaits_advance ?_
    have all := taken _ rfl (by intro _ h; cases h)
    simp only [Verdict.extent] at all
    rw [consume, available_advance]
    omega
  | malformed _ => exact ⟨(by intro h; cases h), (limit _ _).trans (limit _ _)⟩
  | refuse fault => exact ⟨(by intro h; cases h), rfl⟩
  | fallShort lack =>
    have window := window_fallShort r lack
    refine ⟨fun _ => ?_, by rw [window]⟩
    rw [window]
    exact awaits _ rfl

theorem isPause_of_acted {r : Reader} {schema : Schema} {settled : Except Lack Verdict}
    {given : Report × Reader} (acted : Acted schema r settled given)
    (moves : ∀ lack, settled = .error lack → lack.why ≠ .wouldBlock) :
    given.1.isPause = false := by
  have tag {report : Report} (h : report.isTag = true) : report.isPause = false := by
    cases report <;> simp_all [Report.isTag, Report.isPause]
  cases acted with
  | enter => exact tag (isTag_place ..)
  | leaf => exact tag (isTag_place ..)
  | malformed | refuse => rfl
  | fallShort lack =>
    have why := moves _ rfl
    unfold fallShort
    split
    · exact absurd rfl why
    · unfold closeAtEnd
      split <;> rfl
    all_goals rfl

/-- A reader that pauses is left as it was. -/
theorem eq_of_acted_of_pause {r : Reader} {schema : Schema} {settled : Except Lack Verdict}
    {given : Report × Reader} (acted : Acted schema r settled given)
    (paused : given.1.isPause = true) : given.2 = r := by
  cases settled with
  | ok verdict =>
    rw [isPause_of_acted acted (by intro _ h; cases h)] at paused
    cases paused
  | error lack =>
    by_cases why : lack.why = .wouldBlock
    · obtain ⟨_, part⟩ := lack
      obtain rfl := why
      cases acted
      rfl
    · rw [isPause_of_acted acted (by rintro _ ⟨⟩; exact why)] at paused
      cases paused

/-- A tag that is gathered is acted upon as on the course, or the source pauses, unless storage is
refused. -/
theorem acted_follows {r : Reader} {schema : Schema} {source source' : σ} {window : Window}
    {settled : Except Lack Verdict} {given : Report × Reader} (awaits : r.window.Awaits schema)
    (sound : d.sound source) (stopped : r.stopped = none) (owed : r.owed? = none)
    (gathered : r.window.gather schema source = (settled, window, source'))
    (acted : act { r with window } schema settled = .ok given) :
    given.1.outcome = .fault .allocationFailed ∨
      d.sound source' ∧ given.2.Steady schema ∧
        given.2.window.maxCapacity = r.window.maxCapacity ∧
        (given.1.isPause = true ∧ given.2.course (d.left source') = r.course (d.left source) ∨
          given.1.isPause = false ∧
            (r.course (d.left source)).next schema r.window.maxCapacity =
              .ok (given.1, given.2.course (d.left source'))) := by
  obtain ⟨moved, within, result, taken⟩ := awaits.gather sound gathered
  have same : ({ r with window } : Reader).course (d.left source') = r.course (d.left source) := by
    simp only [course, Reader.offset, moved.bytes, moved.offset]
  have awaits' : ∀ lack, settled = .error lack → window.Awaits schema := by
    rintro lack rfl
    obtain ⟨⟨needed, demanded⟩, -⟩ := result
    exact ⟨moved.inside, within, needed, _, demanded⟩
  have resident : ∀ verdict, settled = .ok verdict → verdict.extent ≤ window.available := by
    rintro verdict rfl
    have enough := Schema.extent_le_length ((window.demand_eq_demandOf schema).symm.trans result.2)
    rwa [Window.length_resident] at enough
  obtain ⟨steady, limit⟩ := steady_of_acted (acted_of_act acted) taken awaits'
  have followed : (act { r with window } schema settled).map (onCourse (d.left source')) = _ :=
    onCourse_act _ resident
  rw [acted, same] at followed
  -- Unless the source pauses or storage is refused, the course settles the tag as the reader did.
  have onward (moves : ∀ lack, settled = .error lack → lack.why ≠ .wouldBlock)
      (agreed : schema.settle r.window.maxCapacity (r.window.resident ++ d.left source) 0 =
        settled) :
      given.1.isPause = false ∧ (r.course (d.left source)).next schema r.window.maxCapacity =
        .ok (given.1, given.2.course (d.left source')) := by
    refine ⟨isPause_of_acted (acted_of_act acted) moves, ?_⟩
    rw [next_course_of_idle stopped owed, agreed]
    exact followed.symm
  cases settled with
  | ok verdict =>
    have settles := onward (by intro _ h; cases h) result.1
    exact .inr ⟨moved.sound, steady, limit.trans moved.limit, .inr settles⟩
  | error lack =>
    obtain ⟨why, part⟩ := lack
    cases why with
    | allocationFailed =>
      cases acted
      exact .inl rfl
    | wouldBlock =>
      cases acted
      exact .inr ⟨moved.sound, steady, limit.trans moved.limit, .inl ⟨rfl, same⟩⟩
    | endOfData | readFailed | exceedsLimit =>
      rcases result with ⟨-, paused | refused | agreed⟩
      · cases paused
      · cases refused
      · refine .inr ⟨moved.sound, steady, limit.trans moved.limit, .inr (onward ?_ agreed)⟩
        rintro lack ⟨⟩ ⟨⟩

/-- A step is a step of the course, or a pause on it, unless storage is refused. -/
theorem next_follows {r r' : Reader} {schema : Schema} {source source' : σ} {report : Report}
    (steady : r.Steady schema) (sound : d.sound source)
    (h : r.next schema source = .ok (report, r', source')) :
    report.outcome = .fault .allocationFailed ∨
      d.sound source' ∧ r'.Steady schema ∧ r'.window.maxCapacity = r.window.maxCapacity ∧
        (report.isPause = true ∧ r'.course (d.left source') = r.course (d.left source) ∨
          report.isPause = false ∧
            (r.course (d.left source)).next schema r.window.maxCapacity =
              .ok (report, r'.course (d.left source'))) := by
  cases stepped_of_next h with
  | @repeated faultClass stopped =>
    refine .inr ⟨sound, steady, rfl, .inr ⟨rfl, ?_⟩⟩
    unfold Course.next course
    simp only [stopped]
  | @owed emission r₁ stopped owed =>
    obtain ⟨window, running⟩ := window_of_owed owed
    refine .inr ⟨sound, ?_, by simp only [emit, window], .inr ⟨rfl, ?_⟩⟩
    · intro _
      simp only [emit, window]
      exact steady stopped
    · exact next_course_of_owed stopped owed schema _
  | acted stopped owed gathered acted =>
    exact acted_follows (steady stopped) sound stopped owed gathered acted

end Reader

/-! ### Runs -/

variable {σ : Type} [ByteSource σ] {d : Delivery σ}

/-- What is seen of a run, its pauses left out, is what is seen of the course. -/
theorem Run.follows {schema : Schema} {r r' : Reader} {source source' : σ}
    {seen : List Observation} (run : Run schema d.Keeps r source seen r' source')
    (sound : d.sound source) (steady : r.Steady schema) (granted : StorageGranted seen) :
    r'.Steady schema ∧ r'.window.maxCapacity = r.window.maxCapacity ∧
      (r.course (d.left source)).steps schema r.window.maxCapacity (withoutPauses seen).length =
        .ok (withoutPauses seen, r'.course (d.left source')) := by
  induction run with
  | nil r source => exact ⟨steady, rfl, rfl⟩
  | @cons r r₁ r' source source₁ source₂ source' report later changed stepped rest ih =>
    obtain ⟨sound, same⟩ := changed sound
    obtain ⟨given, granted⟩ := List.forall_mem_cons.mp granted
    rcases Reader.next_follows steady sound stepped with refused | ⟨sound', steady', limit, step⟩
    · exact absurd refused given
    · obtain ⟨steady'', limit', steps⟩ := ih sound' steady' granted
      refine ⟨steady'', limit'.trans limit, ?_⟩
      rw [limit] at steps
      rw [same] at step
      rcases step with ⟨paused, here⟩ | ⟨moved, onward⟩
      · rw [withoutPauses_cons_of_pause (o := r₁.observe report) paused, ← here]
        exact steps
      · rw [withoutPauses_cons_of_move (o := r₁.observe report) moved, List.length_cons,
          Course.steps, onward]
        simp only [bind, Except.bind, steps]
        rfl

end TagStream
