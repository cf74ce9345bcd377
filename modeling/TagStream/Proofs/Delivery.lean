import TagStream.Reader.Run

/-!
Deliveries. A `Delivery` reads the states of a source as the bytes that are still to come from them:
a read takes some of these off the front, pauses, or finds that there are none left. Where a source
cuts its bytes, and how often it pauses, is left open. A `Run` is a sequence of steps between which
the source may be changed, for instance fed; `Delivery.Keeps` allows every change that leaves the
bytes to come as they are.
-/

namespace TagStream

/-- What an answer to a read of at most `limit` bytes says, if the bytes to come were `before` and
are now `after`. -/
def Answer.Accounts (answer : Answer) (limit : Nat) (before after : List UInt8) : Prop :=
  match answer with
  | .data bytes => bytes.size ≤ limit ∧ before = bytes.toList ++ after
  | .wouldBlock => after = before
  | .endOfData => before = [] ∧ after = []
  | .failed => False

/-- A reading of the states of a source as the bytes still to come from them. -/
structure Delivery (σ : Type) [ByteSource σ] where
  sound : σ → Prop
  left : σ → List UInt8
  read_accounts : ∀ {source : σ} {limit : Nat}, sound source → 0 < limit →
    sound (ByteSource.read source limit).2 ∧
      (ByteSource.read source limit).1.Accounts limit (left source)
        (left (ByteSource.read source limit).2)

/-- The account of a read whose answer is known. -/
theorem Delivery.accounts {σ : Type} [ByteSource σ] (d : Delivery σ) {source source' : σ}
    {limit : Nat} {answer : Answer} (sound : d.sound source) (asked : 0 < limit)
    (answered : ByteSource.read source limit = (answer, source')) :
    d.sound source' ∧ answer.Accounts limit (d.left source) (d.left source') := by
  have accounts := d.read_accounts sound asked
  rw [answered] at accounts
  exact accounts

/-- The source is one from which exactly `bytes` are still to come. -/
def Delivery.Owes {σ : Type} [ByteSource σ] (d : Delivery σ) (source : σ) (bytes : List UInt8) :
    Prop :=
  d.sound source ∧ d.left source = bytes

/-- A change of a source that leaves the bytes to come as they are. -/
def Delivery.Keeps {σ : Type} [ByteSource σ] (d : Delivery σ) (source source' : σ) : Prop :=
  d.sound source → d.Owes source' (d.left source)

theorem Delivery.keeps_refl {σ : Type} [ByteSource σ] (d : Delivery σ) (source : σ) :
    d.Keeps source source :=
  fun sound => ⟨sound, rfl⟩

/-- Steps of reading in a row, and what the reader shows after each. Before each step the source may
be changed as `change` allows. -/
inductive Run {σ : Type} [ByteSource σ] (schema : Schema) (change : σ → σ → Prop) :
    Reader → σ → List Observation → Reader → σ → Prop where
  | nil (r : Reader) (source : σ) : Run schema change r source [] r source
  | cons {r r₁ r' : Reader} {source source₁ source₂ source' : σ} {report : Report}
      {later : List Observation} : change source source₁ →
      r.next schema source₁ = .ok (report, r₁, source₂) →
      Run schema change r₁ source₂ later r' source' →
      Run schema change r source (r₁.observe report :: later) r' source'

namespace Reader

variable {σ : Type} [ByteSource σ] {schema : Schema} {r r₁ r' : Reader} {source source₁ source' : σ}
  {count : Nat}

theorem steps_succ {report : Report} (stepped : r.next schema source = .ok (report, r₁, source₁))
    (count : Nat) :
    r.steps schema source (count + 1) =
      (r₁.steps schema source₁ count).map fun later => (r₁.observe report :: later.1, later.2) := by
  simp only [steps, stepped, bind, Except.bind]
  cases r₁.steps schema source₁ count <;> rfl

theorem cases_of_steps {seen : List Observation}
    (h : r.steps schema source (count + 1) = .ok (seen, r', source')) :
    ∃ report r₁ source₁ later, r.next schema source = .ok (report, r₁, source₁) ∧
      r₁.steps schema source₁ count = .ok (later, r', source') ∧
      seen = r₁.observe report :: later := by
  cases stepped : r.next schema source with
  | error defect => simp [steps, stepped, bind, Except.bind] at h
  | ok result =>
    obtain ⟨report, r₁, source₁⟩ := result
    rw [steps_succ stepped] at h
    cases rest : r₁.steps schema source₁ count with
    | error defect => simp [rest, Except.map] at h
    | ok result' =>
      obtain ⟨later, r'', source''⟩ := result'
      rw [rest] at h
      cases h
      exact ⟨report, r₁, source₁, later, rfl, rest, rfl⟩

end Reader

/-- Steps over a source that nobody else touches are a run. -/
theorem Run.of_steps {σ : Type} [ByteSource σ] {schema : Schema} {change : σ → σ → Prop}
    (refl : ∀ source, change source source) {count : Nat} {r r' : Reader} {source source' : σ}
    {seen : List Observation} (h : r.steps schema source count = .ok (seen, r', source')) :
    Run schema change r source seen r' source' := by
  induction count generalizing r source seen with
  | zero =>
    cases h
    exact .nil _ _
  | succ count ih =>
    obtain ⟨report, r₁, source₁, later, stepped, rest, rfl⟩ := Reader.cases_of_steps h
    exact .cons (refl source) stepped (ih rest)

/-- What `count` steps show; nothing, if they meet a defect of the schema. -/
def Reader.shown {σ : Type} [ByteSource σ] (r : Reader) (schema : Schema) (source : σ)
    (count : Nat) : List Observation :=
  match r.steps schema source count with
  | .ok (seen, _) => seen
  | .error _ => []

theorem Run.exists_shown {σ : Type} [ByteSource σ] {change : σ → σ → Prop}
    (refl : ∀ source, change source source) (r : Reader) (schema : Schema) (source : σ)
    (count : Nat) :
    ∃ r' source', Run schema change r source (r.shown schema source count) r' source' := by
  unfold Reader.shown
  split
  · next seen result steps => exact ⟨result.1, result.2, .of_steps refl steps⟩
  · exact ⟨r, source, .nil r source⟩

end TagStream
