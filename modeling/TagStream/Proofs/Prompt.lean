import TagStream.Proofs.Simulation
import TagStream.Proofs.Sources

/-!
Sources that never pause. A reader pauses only where its source does: a delivery that always has a
byte to give, or is at its end, lets every step of a run come to a report (`Run.withoutPauses_eq`).
A file that can be read is such a source (`File.prompt`).
-/

namespace TagStream

/-- Whether nothing is given for the moment. -/
def Answer.isPause : Answer → Bool
  | .data bytes => bytes.size == 0
  | .wouldBlock => true
  | .endOfData | .failed => false

/-- The source never has nothing to give but at its end. -/
def Delivery.Prompt {σ : Type} [ByteSource σ] (d : Delivery σ) : Prop :=
  ∀ {source : σ} {limit : Nat}, d.sound source → 0 < limit →
    (ByteSource.read source limit).1.isPause = false

theorem File.prompt : File.delivery.Prompt := by
  intro f limit readable asked
  cases f with
  | unopened | broken => cases readable
  | readable bytes position =>
    change (File.read (.readable bytes position) limit).1.isPause = false
    simp only [File.read]
    by_cases gone : (bytes.extract position (position + limit)).isEmpty = true
    · rw [if_pos gone]
      rfl
    · rw [if_neg gone, Answer.isPause, beq_eq_false_iff_ne]
      intro empty
      exact gone (Array.isEmpty_iff_size_eq_zero.mpr empty)

variable {σ : Type} [ByteSource σ] {d : Delivery σ}

/-! ### Windows -/

namespace Window

theorem fill_of_prompt (prompt : d.Prompt) {w w' : Window} {needed : Nat} {source source' : σ}
    {why : Option Shortfall} (sound : d.sound source)
    (h : w.fill needed source = (why, w', source')) :
    d.sound source' ∧ why ≠ some .wouldBlock := by
  -- An answer that ends the loop with a pause is one that a prompt source does not give.
  have never {w : Window} {source source₁ : σ} {answer : Answer} (sound : d.sound source)
      (few : w.available < needed)
      (answered : ByteSource.read source (needed - w.available) = (answer, source₁)) :
      answer.isPause = false := by
    have given := prompt sound (Nat.sub_pos_of_lt few)
    rwa [answered] at given
  fun_induction fill w needed source with
  | case1 w source few bytes source₁ delivered empty =>
    have given := never sound few delivered
    simp [Answer.isPause, empty] at given
  | case2 w source few bytes source₁ delivered nonempty ih =>
    exact ih (d.accounts sound (Nat.sub_pos_of_lt few) delivered).1 h
  | case3 w source few source₁ answered =>
    cases h
    refine ⟨(d.accounts sound (Nat.sub_pos_of_lt few) answered).1, ?_⟩
    rintro ⟨⟩
  | case4 w source few source₁ answered =>
    cases never sound few answered
  | case5 w source few source₁ answered =>
    exact (d.accounts sound (Nat.sub_pos_of_lt few) answered).2.elim
  | case6 w source enough =>
    cases h
    refine ⟨sound, ?_⟩
    rintro ⟨⟩

theorem ensure_of_prompt (prompt : d.Prompt) {w w' : Window} {needed : Nat} {source source' : σ}
    {why : Option Shortfall} (sound : d.sound source)
    (h : w.ensure needed source = (why, w', source')) :
    d.sound source' ∧ why ≠ some .wouldBlock := by
  cases ensured_of_ensure h with
  | resident | exceeds | refused =>
    refine ⟨sound, ?_⟩
    rintro ⟨⟩
  | filled _ _ _ filled => exact fill_of_prompt prompt sound filled

theorem gather_of_prompt (prompt : d.Prompt) {w w' : Window} {schema : Schema} {source source' : σ}
    {settled : Except Lack Verdict} (sound : d.sound source)
    (h : w.gather schema source = (settled, w', source')) :
    d.sound source' ∧ ∀ lack, settled = .error lack → lack.why ≠ .wouldBlock := by
  fun_induction Window.gather w schema source with
  | case1 w source verdict demanded =>
    cases h
    refine ⟨sound, ?_⟩
    rintro lack ⟨⟩
  | case2 w source needed part demanded w₁ source₁ ensured ih =>
    exact ih (ensure_of_prompt prompt sound ensured).1 h
  | case3 w source needed part demanded why w₁ source₁ ensured =>
    cases h
    obtain ⟨sound', moves⟩ := ensure_of_prompt prompt sound ensured
    refine ⟨sound', ?_⟩
    rintro lack ⟨⟩ rfl
    exact moves rfl

end Window

/-! ### Steps and runs -/

variable {schema : Schema} {r r' : Reader} {source source' : σ} {seen : List Observation}

/-- Where the source does not pause, no step does. -/
theorem Reader.isPause_of_next (prompt : d.Prompt) {report : Report} (sound : d.sound source)
    (h : r.next schema source = .ok (report, r', source')) :
    d.sound source' ∧ report.isPause = false := by
  cases stepped_of_next h with
  | repeated | owed => exact ⟨sound, rfl⟩
  | acted stopped owed gathered acted =>
    obtain ⟨sound', moves⟩ := Window.gather_of_prompt prompt sound gathered
    exact ⟨sound', isPause_of_acted (acted_of_act acted) moves⟩

/-- A run over a source that never pauses has no pauses. -/
theorem Run.withoutPauses_eq (prompt : d.Prompt) (sound : d.sound source)
    (run : Run schema d.Keeps r source seen r' source') : withoutPauses seen = seen := by
  induction run with
  | nil => rfl
  | @cons r r₁ r' source source₁ source₂ source' report later changed stepped rest ih =>
    obtain ⟨sound', moves⟩ := Reader.isPause_of_next prompt (changed sound).1 stepped
    rw [withoutPauses_cons_of_move moves, ih sound']

end TagStream
