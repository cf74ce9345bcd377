import TagStream.Window.Basic

/-!
What a window shows of itself: its resident bytes, as a queue, and their offset. Consuming takes
bytes off the front, appending adds them at the end, and moving them within the storage changes
nothing. Making bytes resident can go in four ways (`Ensured`): it succeeds only with the bytes that
were asked for, and only if the window may hold as many.
-/

namespace TagStream.Window

variable {σ : Type} [ByteSource σ]

/-! ### The queue of resident bytes -/

@[simp] theorem length_resident (w : Window) : w.resident.length = w.available := by
  simp [resident, available]

theorem front_eq_take (w : Window) (count : Nat) : w.front count = w.resident.take count := by
  simp [front, resident]

@[simp] theorem length_front (w : Window) (count : Nat) :
    (w.front count).length = min count w.available := by
  simp [front_eq_take]

/-- Consuming takes bytes off the front. -/
theorem resident_advance (w : Window) (count : Nat) :
    (w.advance count).resident = w.resident.drop count := by
  have len := w.length_resident
  simp only [advance]
  split
  · next empty =>
    have : w.resident.length ≤ count := by
      simp only [available] at empty len ⊢; omega
    simp [resident] at this ⊢
    omega
  · next nonempty =>
    have : min count w.available = count := by
      simp only [available] at nonempty ⊢; omega
    simp [resident, this]

/-- Consuming moves the offset by the number of bytes consumed. -/
theorem offset_advance (w : Window) (count : Nat) :
    (w.advance count).offset = w.offset + min count w.available := by
  simp only [advance]; split <;> rfl

/-- Consuming goes no further than what was written. -/
theorem inside_advance {w : Window} (inside : w.head ≤ w.cells.size) (count : Nat) :
    (w.advance count).head ≤ (w.advance count).cells.size := by
  simp only [advance]
  split
  · exact Nat.zero_le _
  · simp only [available]
    omega

/-- Bytes that arrive stand behind those that are resident. -/
theorem resident_append {w : Window} {bytes : Array UInt8} (inside : w.head ≤ w.cells.size) :
    (w.append bytes).resident = w.resident ++ bytes.toList := by
  simp [resident, append, List.drop_append_of_le_length, inside]

@[simp] theorem resident_compact (w : Window) : w.compact.resident = w.resident := by
  unfold compact
  split
  · rfl
  · simp [resident, List.take_of_length_le]

/-! ### The limit -/

@[simp] theorem maxCapacity_compact (w : Window) : w.compact.maxCapacity = w.maxCapacity := by
  unfold compact; split <;> rfl

@[simp] theorem maxCapacity_obtain (w : Window) (needed : Nat) :
    (w.obtain needed).2.maxCapacity = w.maxCapacity := by
  unfold obtain
  split
  · rfl
  · simp only; split <;> rfl

@[simp] theorem maxCapacity_enlarge (w : Window) (needed : Nat) :
    (w.enlarge needed).2.maxCapacity = w.maxCapacity := by
  unfold enlarge
  split
  · rfl
  · simp only; split <;> rfl

@[simp] theorem maxCapacity_reserve (w : Window) (needed : Nat) :
    (w.reserve needed).2.maxCapacity = w.maxCapacity := by
  have obtained := maxCapacity_obtain w needed
  unfold reserve
  split
  · next v h => rw [h] at obtained; simpa using obtained
  · exact obtained

/-! ### Filling -/

/-- Filling keeps the limit of the window. -/
theorem maxCapacity_fill (w : Window) (needed : Nat) (source : σ) :
    (w.fill needed source).2.1.maxCapacity = w.maxCapacity := by
  fun_induction fill w needed source <;> simp_all [append]

/-- A window that has been filled holds the bytes it was to be filled with. -/
theorem le_available_fill {w : Window} {needed : Nat} {source : σ}
    (filled : (w.fill needed source).1 = none) :
    needed ≤ (w.fill needed source).2.1.available := by
  fun_induction fill w needed source <;> simp_all

/-! ### Making bytes resident -/

@[simp] theorem maxCapacity_prepareWith (add : Nat → Nat → Nat) (w : Window) (needed : Nat) :
    (w.prepareWith add needed).2.maxCapacity = w.maxCapacity := by
  rw [prepareWith, maxCapacity_reserve]
  split
  · exact maxCapacity_compact w
  · rfl

/-- What making `needed` bytes resident can give. -/
inductive Ensured (add : Nat → Nat → Nat) (w : Window) (needed : Nat) (source : σ) :
    Option Shortfall × Window × σ → Prop where
  | resident : needed ≤ w.available → Ensured add w needed source (none, w, source)
  | exceeds : w.available < needed → w.maxCapacity < needed →
      Ensured add w needed source (some .exceedsLimit, w, source)
  | filled {v : Window} {given : Option Shortfall × Window × σ} : w.available < needed →
      needed ≤ w.maxCapacity → w.prepareWith add needed = (true, v) →
      v.fill needed source = given → Ensured add w needed source given
  | refused {v : Window} : w.available < needed → needed ≤ w.maxCapacity →
      w.prepareWith add needed = (false, v) →
      Ensured add w needed source (some .allocationFailed, v, source)

/-- There are no other cases. -/
theorem ensured_of_ensureWith {add : Nat → Nat → Nat} {w : Window} {needed : Nat} {source : σ}
    {given : Option Shortfall × Window × σ} (h : w.ensureWith add needed source = given) :
    Ensured add w needed source given := by
  subst h
  unfold ensureWith
  split
  · next enough => exact .resident enough
  · next lacking =>
    have lacking := Nat.lt_of_not_le lacking
    split
    · next exceeds => exact .exceeds lacking exceeds
    · next fits =>
      have fits := Nat.le_of_not_lt fits
      split
      · next v granted => exact .filled lacking fits granted rfl
      · next v refused => exact .refused lacking fits refused

theorem ensured_of_ensure {w : Window} {needed : Nat} {source : σ}
    {given : Option Shortfall × Window × σ} (h : w.ensure needed source = given) :
    Ensured (· + ·) w needed source given :=
  ensured_of_ensureWith h

/-- Ensuring keeps the limit of the window. -/
theorem maxCapacity_ensure (w : Window) (needed : Nat) (source : σ) :
    (w.ensure needed source).2.1.maxCapacity = w.maxCapacity := by
  generalize ensured : w.ensure needed source = given
  have kept := maxCapacity_prepareWith (· + ·) w needed
  cases ensured_of_ensure ensured with
  | resident | exceeds => rfl
  | @filled v given lacking fits granted filled =>
    rw [granted] at kept
    rw [← filled, maxCapacity_fill, kept]
  | refused lacking fits refused =>
    rw [refused] at kept
    exact kept

/-- A window that ensures bytes holds them. -/
theorem le_available_ensure {w : Window} {needed : Nat} {source : σ}
    (met : (w.ensure needed source).1 = none) :
    needed ≤ (w.ensure needed source).2.1.available := by
  generalize ensured : w.ensure needed source = given at met ⊢
  cases ensured_of_ensure ensured with
  | resident enough => exact enough
  | filled lacking fits granted filled =>
    subst filled
    exact le_available_fill met
  | exceeds | refused => cases met

/-- A window never ensures more bytes than its limit, unless they were resident before. -/
theorem le_maxCapacity_of_ensure {w : Window} {needed : Nat} {source : σ}
    (lacking : w.available < needed) (met : (w.ensure needed source).1 = none) :
    needed ≤ w.maxCapacity := by
  generalize ensured : w.ensure needed source = given at met
  cases ensured_of_ensure ensured with
  | resident enough => exact absurd enough (Nat.not_le.mpr lacking)
  | filled lacking fits granted filled => exact fits
  | exceeds | refused => cases met

end TagStream.Window
