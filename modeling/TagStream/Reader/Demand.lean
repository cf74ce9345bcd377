import TagStream.Reader.Fault
import TagStream.Schema.Basic
import TagStream.Window.Lemmas

/-!
What the next tag demands. `Schema.demand` looks at the front of the window and either settles what
is to be done about the tag there, or says how many bytes must be resident before it can: those of
the header first, then those of a leaf's payload. `Window.gather` meets one demand after another
until the tag is settled or the bytes cannot be had.
-/

namespace TagStream

/-- What is to be done about a tag: a container can be entered once its header is resident, a leaf
can be read once its payload is, too, and a tag can be refused. -/
inductive Verdict where
  | enter (header : Header)
  | read (header : Header) (length : Nat)
  | refuse (fault : Fault)
  deriving DecidableEq, Repr

/-- What a tag demands, as far as its bytes are resident. -/
inductive Demand where
  | await (needed : Nat) (part : Part)
  | settled (verdict : Verdict)
  deriving DecidableEq, Repr

/-- A leaf must declare its size, and fit in `limit` bytes together with its header. -/
def Header.leafDemand (header : Header) (limit available : Nat) : Demand :=
  match header.size with
  | .unknown => .settled (.refuse (.leafWithoutSize header.id))
  | .known length =>
    if limit - header.length < length then .settled (.refuse (.leafTooLarge header.id))
    else if available < header.length + length then
      .await (header.length + length) (.payload header.id)
    else .settled (.read header length)

/-- What a tag demands whose first bytes are `front`, with `available` bytes resident in all. -/
def Schema.demand (schema : Schema) (limit : Nat) (front : List UInt8) (available : Nat) : Demand :=
  match Header.scan front with
  | .short needed part => .await needed part
  | .flawed flaw => .settled (.refuse (.header flaw))
  | .complete header =>
    match schema.kindOf header.id with
    | .master => .settled (.enter header)
    | _ => header.leafDemand limit available

/-- What the tag at the front of a window demands. -/
def Window.demand (w : Window) (schema : Schema) : Demand :=
  schema.demand w.maxCapacity (w.front Header.maxLength) w.available

/-- What is awaited is more than what is resident. -/
theorem Window.available_lt_of_demand {w : Window} {schema : Schema} {needed : Nat} {part : Part}
    (h : w.demand schema = .await needed part) : w.available < needed := by
  unfold Window.demand Schema.demand at h
  split at h
  · next scanned =>
    have short := Header.scan_short scanned
    rw [w.length_front] at short
    injection h
    omega
  · simp at h
  · split at h
    · simp at h
    · unfold Header.leafDemand at h
      split at h
      · simp at h
      · split at h
        · simp at h
        · split at h
          · injection h; omega
          · simp at h

/-- Why a tag is not settled: what kept its bytes away, and which part of it they belong to. -/
structure Lack where
  why : Shortfall
  part : Part
  deriving DecidableEq, Repr

/-- Settles the tag at the front of a window, reading the bytes it demands. -/
def Window.gather {σ : Type} [ByteSource σ] (w : Window) (schema : Schema) (source : σ) :
    Except Lack Verdict × Window × σ :=
  match _demanded : w.demand schema with
  | .settled verdict => (.ok verdict, w, source)
  | .await needed part =>
    match _ensured : w.ensure needed source with
    | (none, w', source') => w'.gather schema source'
    | (some why, w', source') => (.error ⟨why, part⟩, w', source')
termination_by w.maxCapacity - w.available
decreasing_by
  have lacking := w.available_lt_of_demand _demanded
  have met : (w.ensure needed source).1 = none := by rw [_ensured]
  have holds := w.le_available_ensure met
  have fits := w.le_maxCapacity_of_ensure lacking met
  have kept := w.maxCapacity_ensure needed source
  rw [_ensured] at holds kept
  simp only at holds kept
  omega

end TagStream
