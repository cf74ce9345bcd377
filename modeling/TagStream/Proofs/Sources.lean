import TagStream.Proofs.Delivery
import TagStream.Supply.File
import TagStream.Supply.Script

/-!
Deliveries that sources make: a file that can be read, a script that never fails and ends when its
bytes are gone, and memory together with the bytes that its owner has still to feed. Feeding some of
these, finishing when there are none, and a change of the cap leave the bytes to come as they are.
-/

namespace TagStream

/-! ### Files -/

namespace File

/-- The bytes of a file that have not been read. -/
def left : File → List UInt8
  | .readable bytes position => bytes.toList.drop position
  | .unopened | .broken _ => []

def isReadable : File → Bool
  | .readable .. => true
  | .unopened | .broken _ => false

/-- A readable file delivers its bytes in order. -/
theorem read_accounts {f : File} {limit : Nat} (readable : f.isReadable = true)
    (asked : 0 < limit) :
    (f.read limit).2.isReadable = true ∧
      (f.read limit).1.Accounts limit f.left (f.read limit).2.left := by
  cases f with
  | unopened | broken => cases readable
  | readable bytes position =>
    refine ⟨rfl, ?_⟩
    simp only [read, left]
    generalize piece_eq : bytes.extract position (position + limit) = piece
    have piece_toList : piece.toList = (bytes.toList.drop position).take limit := by
      rw [← piece_eq, Array.toList_extract, List.extract_eq_take_drop, Nat.add_sub_cancel_left]
    have split : bytes.toList.drop position =
        piece.toList ++ bytes.toList.drop (position + piece.size) := by
      rw [← List.drop_drop, ← Array.length_toList, piece_toList]
      exact (List.prefix_iff_eq_append.mp (List.take_prefix _ _)).symm
    by_cases gone : piece.isEmpty = true
    · obtain rfl := Array.isEmpty_iff.mp gone
      rcases List.take_eq_nil_iff.mp piece_toList.symm with unasked | ended
      · exact absurd unasked (Nat.ne_of_gt asked)
      · exact ⟨ended, ended⟩
    · rw [if_neg gone]
      refine ⟨?_, split⟩
      rw [← Array.length_toList, piece_toList, List.length_take]
      exact Nat.min_le_left _ _

def delivery : Delivery File where
  sound f := f.isReadable = true
  left := left
  read_accounts := read_accounts

end File

/-! ### Scripts -/

namespace Cue

def bytes : Cue → List UInt8
  | .data bytes => bytes
  | .silence _ => []

/-- Whether the step delivers bytes or pauses. -/
def isPatient : Cue → Bool
  | .data _ | .silence .wouldBlock | .silence .nothing => true
  | .silence .failed | .silence .endOfData => false

end Cue

namespace Script

/-- The bytes that the steps deliver. -/
def left (s : Script) : List UInt8 :=
  s.cues.flatMap Cue.bytes

/-- The script delivers all its bytes, with pauses, and then ends for good. -/
def IsPatient (s : Script) : Prop :=
  (∀ cue ∈ s.cues, cue.isPatient = true) ∧ s.last = .endOfData

instance (s : Script) : Decidable s.IsPatient :=
  inferInstanceAs (Decidable (_ ∧ _))

theorem readCues_accounts {limit : Nat} {cues : List Cue} (asked : 0 < limit)
    (patient : ∀ cue ∈ cues, cue.isPatient = true) :
    (∀ cue ∈ (readCues .endOfData limit cues).2, cue.isPatient = true) ∧
      (readCues .endOfData limit cues).1.Accounts limit (cues.flatMap Cue.bytes)
        ((readCues .endOfData limit cues).2.flatMap Cue.bytes) := by
  fun_induction readCues .endOfData limit cues with
  | case1 => exact ⟨patient, rfl, rfl⟩
  | case2 answer rest =>
    obtain ⟨first, later⟩ := List.forall_mem_cons.mp patient
    refine ⟨later, ?_⟩
    cases answer with
    | wouldBlock => rfl
    | nothing => exact ⟨Nat.zero_le _, rfl⟩
    | failed | endOfData => cases first
  | case3 bytes rest passed ih =>
    obtain ⟨-, later⟩ := List.forall_mem_cons.mp patient
    have empty : bytes = [] := by
      simpa [Nat.ne_of_gt asked] using passed
    subst empty
    exact ih later
  | case4 bytes rest brings left =>
    obtain ⟨-, later⟩ := List.forall_mem_cons.mp patient
    have cut : bytes = bytes.take limit ++ left := (List.take_append_drop limit bytes).symm
    have few : (bytes.take limit).toArray.size ≤ limit := by
      rw [List.size_toArray, List.length_take]
      exact Nat.min_le_left _ _
    by_cases gone : left.isEmpty = true
    · rw [if_pos gone]
      refine ⟨later, few, ?_⟩
      rw [List.isEmpty_iff.mp gone, List.append_nil] at cut
      rw [List.flatMap_cons, Cue.bytes, ← cut]
    · rw [if_neg gone]
      refine ⟨List.forall_mem_cons.mpr ⟨rfl, later⟩, few, ?_⟩
      rw [List.flatMap_cons, List.flatMap_cons, Cue.bytes, Cue.bytes, ← List.append_assoc, ← cut]

def delivery : Delivery Script where
  sound := IsPatient
  left := left
  read_accounts := by
    rintro ⟨cues, last⟩ limit ⟨patient, rfl⟩ asked
    obtain ⟨patient', accounts⟩ := readCues_accounts asked patient
    exact ⟨⟨patient', rfl⟩, accounts⟩

end Script

/-! ### Memory that is fed -/

/-- Memory, and the bytes that its owner has still to feed. -/
structure FedMemory where
  memory : Memory
  unfed : List UInt8 := []
  deriving DecidableEq, Repr

namespace FedMemory

instance : ByteSource FedMemory where
  read f limit := ((f.memory.read limit).1, { f with memory := (f.memory.read limit).2 })

/-- Feeds the next `count` bytes. -/
def feed (f : FedMemory) (count : Nat) : FedMemory :=
  ⟨f.memory.feed (f.unfed.take count).toArray, f.unfed.drop count⟩

/-- Finishes the memory if there is nothing more to feed. -/
def finish (f : FedMemory) : FedMemory :=
  if f.unfed.isEmpty then { f with memory := f.memory.finish } else f

def setCap (f : FedMemory) (cap : Nat) : FedMemory :=
  { f with memory := f.memory.setCap cap }

/-- A memory that reads nothing but what was fed, and is not finished before all is. -/
structure Sound (f : FedMemory) : Prop where
  inside : f.memory.position ≤ f.memory.stored.size
  closed : f.memory.finished = true → f.unfed = []

def left (f : FedMemory) : List UInt8 :=
  f.memory.remaining ++ f.unfed

theorem read_accounts {f : FedMemory} (sound : f.Sound) (limit : Nat) :
    Sound (ByteSource.read f limit).2 ∧
      (ByteSource.read f limit).1.Accounts limit f.left (left (ByteSource.read f limit).2) := by
  obtain ⟨m, unfed⟩ := f
  obtain ⟨inside : m.position ≤ m.stored.size, finished : m.finished = true → unfed = []⟩ := sound
  change Sound ⟨(m.read limit).2, unfed⟩ ∧
    (m.read limit).1.Accounts limit (m.remaining ++ unfed) ((m.read limit).2.remaining ++ unfed)
  have size_le : ∀ bytes, m.read limit = (.data bytes, (m.read limit).2) → bytes.size ≤ limit :=
    LawfulByteSource.size_le m (m.read limit).2 limit
  have split : ∀ bytes, m.read limit = (.data bytes, (m.read limit).2) →
      m.remaining = bytes.toList ++ (m.read limit).2.remaining :=
    fun _ => Memory.remaining_of_read
  unfold Memory.read at size_le split ⊢
  by_cases drained : m.pending = 0
  · rw [if_pos drained]
    refine ⟨⟨inside, finished⟩, ?_⟩
    have spent : m.remaining = [] := by
      rw [← List.length_eq_zero_iff, m.length_remaining, drained]
    by_cases ended : m.finished = true
    · have all : m.remaining ++ unfed = [] := by
        rw [spent, finished ended]
        rfl
      rw [if_pos ended]
      exact ⟨all, all⟩
    · rw [if_neg ended]
      rfl
  · simp only [if_neg drained] at size_le split ⊢
    by_cases nothing : m.delivery limit = 0
    · rw [if_pos nothing]
      exact ⟨⟨inside, finished⟩, rfl⟩
    · simp only [if_neg nothing] at size_le split ⊢
      have few := m.delivery_le_pending limit
      refine ⟨⟨?_, finished⟩, size_le _ rfl, ?_⟩
      · simp only [Memory.pending] at few ⊢
        omega
      · rw [split _ rfl, List.append_assoc]

def delivery : Delivery FedMemory where
  sound := Sound
  left := left
  read_accounts := fun sound _ => read_accounts sound _

/-- What is fed was to come before and is to come after. -/
theorem keeps_feed (f : FedMemory) (count : Nat) : delivery.Keeps f (f.feed count) := by
  obtain ⟨m, unfed⟩ := f
  rintro ⟨inside : m.position ≤ m.stored.size, finished : m.finished = true → unfed = []⟩
  change Sound ⟨_, _⟩ ∧ left ⟨_, _⟩ = left ⟨_, _⟩
  by_cases ended : m.finished = true
  · obtain rfl : unfed = [] := finished ended
    rw [Memory.feed_of_finished ended, List.drop_nil]
    exact ⟨⟨inside, fun _ => rfl⟩, rfl⟩
  · have unfinished : m.finished = false := Bool.eq_false_iff.mpr ended
    refine ⟨⟨Memory.inside_feed inside _, ?_⟩, ?_⟩
    · intro closed
      exact absurd (m.finished_feed _ ▸ closed) ended
    · simp only [left, Memory.remaining_feed unfinished inside, List.append_assoc,
        List.take_append_drop]

theorem keeps_finish (f : FedMemory) : delivery.Keeps f f.finish := by
  intro sound
  unfold finish
  split
  · next allFed => exact ⟨⟨sound.inside, fun _ => List.isEmpty_iff.mp allFed⟩, rfl⟩
  · exact ⟨sound, rfl⟩

theorem keeps_setCap (f : FedMemory) (cap : Nat) : delivery.Keeps f (f.setCap cap) :=
  fun sound => ⟨⟨sound.inside, sound.closed⟩, rfl⟩

end FedMemory

end TagStream
