/-!
Byte sources. A source is read in pieces of bounded length, and may at any time have nothing to give
for the moment, be at its end, or fail. An end need not be final.

A `Memory` is a source that its owner fills: bytes are fed in at one end and read from the other, in
the same order. Until it is finished, a source with nothing left would block. Bytes that have been
read are dropped once there are many of them, which no reader can notice.
-/

namespace TagStream

/-- What a source answers to a read. -/
inductive Answer where
  | data (bytes : Array UInt8)
  | endOfData
  | wouldBlock
  | failed
  deriving DecidableEq, Repr

/-- A source of bytes: a read of at most `limit` bytes gives an answer and the source after it. -/
class ByteSource (σ : Type) where
  read : σ → (limit : Nat) → Answer × σ

/-- A source never delivers more bytes than it was asked for. -/
class LawfulByteSource (σ : Type) [ByteSource σ] : Prop where
  size_le : ∀ (s s' : σ) (limit : Nat) (bytes : Array UInt8),
    ByteSource.read s limit = (.data bytes, s') → bytes.size ≤ limit

/-! ### Sources that are fed -/

/-- The bytes fed so far, less a dropped part, and how many of them have been read. A `cap` other
than zero bounds every delivery. -/
structure Memory where
  stored : Array UInt8 := #[]
  position : Nat := 0
  cap : Nat := 0
  finished : Bool := false
  deriving DecidableEq, Repr

namespace Memory

/-- How many bytes must have been read before a feed drops them. -/
def dropThreshold : Nat := 4096

/-- The number of bytes that have been fed and not read. -/
def pending (m : Memory) : Nat :=
  m.stored.size - m.position

/-- The bytes that have been fed and not read. -/
def remaining (m : Memory) : List UInt8 :=
  m.stored.toList.drop m.position

/-- Forgets the bytes that have been read. -/
def dropRead (m : Memory) : Memory :=
  { m with stored := m.stored.extract m.position m.stored.size, position := 0 }

/-- Adds bytes at the end. A finished source takes no more. -/
def feed (m : Memory) (bytes : Array UInt8) : Memory :=
  if m.finished || bytes.isEmpty then m
  else
    let m := if dropThreshold ≤ m.position then m.dropRead else m
    { m with stored := m.stored ++ bytes }

/-- Declares that no more bytes will come. -/
def finish (m : Memory) : Memory :=
  { m with finished := true }

/-- Bounds the deliveries from now on; zero lifts the bound. -/
def setCap (m : Memory) (cap : Nat) : Memory :=
  { m with cap }

/-- The finished source of these bytes. -/
def ofBytes (bytes : Array UInt8) : Memory :=
  (({} : Memory).feed bytes).finish

/-- How many bytes a read of at most `limit` delivers. -/
def delivery (m : Memory) (limit : Nat) : Nat :=
  let count := min m.pending limit
  if 0 < m.cap then min count m.cap else count

/-- Delivers pending bytes, if there are any and any are asked for. -/
def read (m : Memory) (limit : Nat) : Answer × Memory :=
  if m.pending = 0 then (if m.finished then .endOfData else .wouldBlock, m)
  else
    let count := m.delivery limit
    if count = 0 then (.wouldBlock, m)
    else
      (.data (m.stored.extract m.position (m.position + count)),
        { m with position := m.position + count })

instance : ByteSource Memory := ⟨read⟩

/-! ### What is left to read -/

@[simp] theorem length_remaining (m : Memory) : m.remaining.length = m.pending := by
  simp [remaining, pending]

theorem delivery_le (m : Memory) (limit : Nat) : m.delivery limit ≤ limit := by
  simp only [delivery]; split <;> omega

theorem delivery_le_pending (m : Memory) (limit : Nat) : m.delivery limit ≤ m.pending := by
  simp only [delivery]; split <;> omega

theorem feed_of_finished {m : Memory} (finished : m.finished = true) (bytes : Array UInt8) :
    m.feed bytes = m := by
  unfold feed
  rw [if_pos (by rw [finished]; rfl)]

theorem finished_feed (m : Memory) (bytes : Array UInt8) :
    (m.feed bytes).finished = m.finished := by
  unfold feed
  split
  · rfl
  · simp only
    split <;> rfl

theorem cap_feed (m : Memory) (bytes : Array UInt8) : (m.feed bytes).cap = m.cap := by
  unfold feed
  split
  · rfl
  · simp only
    split <;> rfl

/-- A feed leaves no more read than is stored. -/
theorem inside_feed {m : Memory} (inside : m.position ≤ m.stored.size) (bytes : Array UInt8) :
    (m.feed bytes).position ≤ (m.feed bytes).stored.size := by
  unfold feed
  split
  · exact inside
  · simp only
    split
    · exact Nat.zero_le _
    · rw [Array.size_append]
      omega

/-- A feed adds its bytes at the end, whether or not it drops those that have been read. -/
theorem remaining_feed {m : Memory} {bytes : Array UInt8} (unfinished : m.finished = false)
    (inside : m.position ≤ m.stored.size) :
    (m.feed bytes).remaining = m.remaining ++ bytes.toList := by
  unfold feed
  split
  · next h => simp_all
  · split
    · simp [remaining, dropRead, List.take_of_length_le]
    · simp [remaining, List.drop_append_of_le_length, inside]

/-- A read delivers the first of the bytes that are left, and leaves the others. -/
theorem remaining_of_read {m m' : Memory} {limit : Nat} {bytes : Array UInt8}
    (delivered : m.read limit = (.data bytes, m')) :
    m.remaining = bytes.toList ++ m'.remaining := by
  unfold read at delivered
  split at delivered
  · split at delivered <;> simp at delivered
  · simp only at delivered
    split at delivered
    · simp at delivered
    · obtain ⟨rfl, rfl⟩ : _ ∧ _ := by simpa using delivered
      simp [remaining, ← List.drop_drop]

instance : LawfulByteSource Memory where
  size_le m m' limit bytes delivered := by
    change m.read limit = _ at delivered
    have small := m.delivery_le limit
    unfold read at delivered
    split at delivered
    · split at delivered <;> simp at delivered
    · simp only at delivered
      split at delivered
      · simp at delivered
      · obtain ⟨rfl, rfl⟩ : _ ∧ _ := by simpa using delivered
        simp only [Array.size_extract]
        omega

end Memory

end TagStream
