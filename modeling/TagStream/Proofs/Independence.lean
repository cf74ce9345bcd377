import TagStream.Proofs.Simulation
import TagStream.Proofs.Sources
import TagStream.Schema.Matroska

/-!
Independence of the delivery. Two readers that start on the same bytes with the same limit report
the same, pauses left out, however the bytes are delivered to each of them and whatever storage it
has (`withoutPauses_eq_of_runs`): both are on the same course, and a course is never in two minds.
Where neither has come to a final report, the reports of one continue those of the other
(`Run.prefix_or_prefix`).
-/

namespace TagStream

/-! ### Readers at the start of a stream -/

/-- A reader that has read nothing yet and owes nothing. -/
structure Reader.AtStart (r : Reader) : Prop where
  cells : r.window.cells = #[]
  head : r.window.head = 0
  offset : r.window.offset = 0
  deferred : r.deferred = none
  containers : r.containers = []
  stopped : r.stopped = none

namespace Reader

theorem atStart_new (c : Config) : (Reader.new c).AtStart := by
  constructor <;> rfl

theorem atStart_reset (r : Reader) : r.reset.AtStart := by
  constructor <;> rfl

variable {r : Reader}

theorem AtStart.resident (start : r.AtStart) : r.window.resident = [] := by
  rw [Window.resident, start.cells]
  exact List.drop_nil

theorem AtStart.steady (start : r.AtStart) (schema : Schema) : r.Steady schema := by
  intro _
  refine Window.awaits_of_drained ?_ ?_
  · rw [start.head]
    exact Nat.zero_le _
  · rw [← Window.length_resident, start.resident, List.length_nil]

theorem AtStart.course (start : r.AtStart) (left : List UInt8) :
    r.course left = { rest := left } := by
  unfold Reader.course Reader.offset
  rw [start.resident, start.offset, start.deferred, start.containers, start.stopped]
  rfl

end Reader

/-! ### One course -/

/-- More steps of a course continue what fewer have shown. -/
theorem Course.prefix_of_steps {schema : Schema} {limit few many : Nat} {c c₁ c₂ : Course}
    {seen later : List Observation} (h₁ : c.steps schema limit few = .ok (seen, c₁))
    (h₂ : c.steps schema limit many = .ok (later, c₂)) (le : few ≤ many) : seen <+: later := by
  induction few generalizing c c₁ c₂ seen many later with
  | zero =>
    cases h₁
    exact List.nil_prefix
  | succ few ih =>
    obtain ⟨many, rfl⟩ := Nat.exists_eq_succ_of_ne_zero (Nat.ne_zero_of_lt le)
    obtain ⟨report, c, shorter, stepped, first, rfl⟩ := cases_of_steps h₁
    obtain ⟨report', c', longer, stepped', second, rfl⟩ := cases_of_steps h₂
    obtain ⟨rfl, rfl⟩ := Prod.mk.inj (Except.ok.inj (stepped.symm.trans stepped'))
    exact List.cons_prefix_cons.mpr ⟨rfl, ih first second (Nat.le_of_succ_le_succ le)⟩

variable {σ τ : Type} [ByteSource σ] [ByteSource τ] {d : Delivery σ} {e : Delivery τ}
  {schema : Schema} {bytes : List UInt8} {r r' q q' : Reader} {source source' : σ}
  {other other' : τ} {seen later : List Observation}

/-- What a run from the start of a stream shows, its pauses left out, is what the course of the
bytes shows. -/
theorem Run.steps_of_atStart (start : r.AtStart) (owes : d.Owes source bytes)
    (run : Run schema d.Keeps r source seen r' source') (granted : StorageGranted seen) :
    ∃ c, ({ rest := bytes } : Course).steps schema r.window.maxCapacity
      (withoutPauses seen).length = .ok (withoutPauses seen, c) := by
  obtain ⟨sound, rfl⟩ := owes
  obtain ⟨-, -, steps⟩ := run.follows sound (start.steady schema) granted
  rw [start.course] at steps
  exact ⟨_, steps⟩

/-- Of two runs on the same bytes with the same limit, one continues what the other has shown. -/
theorem Run.prefix_or_prefix (start : r.AtStart) (start' : q.AtStart)
    (limit : r.window.maxCapacity = q.window.maxCapacity)
    (owes : d.Owes source bytes) (owes' : e.Owes other bytes)
    (run : Run schema d.Keeps r source seen r' source')
    (run' : Run schema e.Keeps q other later q' other')
    (granted : StorageGranted seen) (granted' : StorageGranted later) :
    withoutPauses seen <+: withoutPauses later ∨ withoutPauses later <+: withoutPauses seen := by
  obtain ⟨c, steps⟩ := run.steps_of_atStart start owes granted
  obtain ⟨c', steps'⟩ := run'.steps_of_atStart start' owes' granted'
  rw [← limit] at steps'
  rcases Nat.le_total (withoutPauses seen).length (withoutPauses later).length with le | le
  · exact .inl (Course.prefix_of_steps steps steps' le)
  · exact .inr (Course.prefix_of_steps steps' steps le)

/-! ### Concluded runs -/

/-- Whether a reading is over with this report. -/
def Report.isFinal : Report → Bool
  | .endOfStream | .fault _ => true
  | .tag _ | .needMoreData _ => false

/-- Whether the last report that was seen, and no other, is a final one. -/
def concluded : List Observation → Bool
  | [] => false
  | o :: later => if o.report.isFinal then later.isEmpty else concluded later

theorem Report.isPause_of_isFinal {report : Report} (final : report.isFinal = true) :
    report.isPause = false := by
  cases report with
  | tag | needMoreData => cases final
  | endOfStream | fault => rfl

theorem concluded_withoutPauses (h : concluded seen = true) :
    concluded (withoutPauses seen) = true := by
  induction seen with
  | nil => cases h
  | cons o seen ih =>
    unfold concluded at h
    split at h
    · next final =>
      rw [List.isEmpty_iff.mp h, withoutPauses_cons_of_move (Report.isPause_of_isFinal final),
        concluded, if_pos final]
      rfl
    · next going =>
      by_cases paused : o.report.isPause = true
      · rw [withoutPauses_cons_of_pause paused]
        exact ih h
      · rw [withoutPauses_cons_of_move (Bool.eq_false_iff.mpr paused), concluded, if_neg going]
        exact ih h

/-- Nothing can be seen after a concluded reading. -/
theorem eq_of_prefix_of_concluded (isFront : seen <+: later) (first : concluded seen = true)
    (second : concluded later = true) : seen = later := by
  induction seen generalizing later with
  | nil => cases first
  | cons o seen ih =>
    obtain ⟨more, rfl⟩ := isFront
    rw [List.cons_append] at second ⊢
    unfold concluded at first second
    split at first
    · next final =>
      rw [if_pos final] at second
      rw [List.isEmpty_iff.mp second, List.isEmpty_iff.mp first]
    · next going =>
      rw [if_neg going] at second
      rw [← ih ⟨more, rfl⟩ first second]

/-- Two readers that start on the same bytes with the same limit, and go on to the first final
report, show the same but for pauses: the reports, and the offset and depth after each. -/
theorem withoutPauses_eq_of_runs (start : r.AtStart) (start' : q.AtStart)
    (limit : r.window.maxCapacity = q.window.maxCapacity)
    (owes : d.Owes source bytes) (owes' : e.Owes other bytes)
    (run : Run schema d.Keeps r source seen r' source')
    (run' : Run schema e.Keeps q other later q' other')
    (granted : StorageGranted seen) (granted' : StorageGranted later)
    (ended : concluded seen = true) (ended' : concluded later = true) :
    withoutPauses seen = withoutPauses later := by
  have ended := concluded_withoutPauses ended
  have ended' := concluded_withoutPauses ended'
  rcases Run.prefix_or_prefix start start' limit owes owes' run run' granted granted'
    with isFront | isFront
  · exact eq_of_prefix_of_concluded isFront ended ended'
  · exact (eq_of_prefix_of_concluded isFront ended' ended).symm

/-- An EBML header, and a segment and a cluster of unknown size with a timestamp. -/
def clusterBytes : List UInt8 :=
  [0x1A, 0x45, 0xDF, 0xA3, 0x84, 0x42, 0x86, 0x81, 0x01, 0x18, 0x53, 0x80, 0x67, 0xFF, 0x1F, 0x43,
    0xB6, 0x75, 0xFF, 0xE7, 0x81, 0x05]

/-- Delivers one byte at a time, with pauses of both sorts around it. -/
def Script.dripping (bytes : List UInt8) : Script :=
  ⟨bytes.flatMap fun byte => [.silence .nothing, .data [byte], .silence .wouldBlock], .endOfData⟩

theorem withoutPauses_eq_of_dripping :
    withoutPauses ((Reader.new { minWindow := 1, maxWindow := 64 }).shown Matroska.schema
        (Script.dripping clusterBytes) 53) =
      withoutPauses ((Reader.new { minWindow := 16, maxWindow := 64 }).shown Matroska.schema
        (File.readable clusterBytes.toArray 0) 9) := by
  obtain ⟨r', source', run⟩ := Run.exists_shown Script.delivery.keeps_refl
    (.new { minWindow := 1, maxWindow := 64 }) Matroska.schema (Script.dripping clusterBytes) 53
  obtain ⟨q', other', run'⟩ := Run.exists_shown File.delivery.keeps_refl
    (.new { minWindow := 16, maxWindow := 64 }) Matroska.schema (.readable clusterBytes.toArray 0) 9
  have owes : Script.delivery.Owes (Script.dripping clusterBytes) clusterBytes :=
    ⟨by change Script.IsPatient _; decide, by decide⟩
  have owes' : File.delivery.Owes (File.readable clusterBytes.toArray 0) clusterBytes :=
    ⟨rfl, rfl⟩
  exact withoutPauses_eq_of_runs (Reader.atStart_new { minWindow := 1, maxWindow := 64 })
    (Reader.atStart_new { minWindow := 16, maxWindow := 64 }) rfl owes owes' run run'
    (by decide +kernel) (by decide +kernel) (by decide +kernel) (by decide +kernel)

end TagStream
