import TagStream.Proofs.Hearing

/-!
The window as a queue. A `Queue` is the bytes that have been delivered since the last reset, of
which some are consumed and the others resident; its storage has a say in which requests are met,
and in nothing else. Whatever is done with a window, and in whichever order, what is seen of it is
what is seen of the queue (`Window.refines_queue`): where the bytes lie, when they are moved and how
the storage grows does not show.
-/

namespace TagStream

/-! ### Storage -/

/-- What is known of the storage of a window: its bounds, where it comes from, how much of it is
held, and the calls on record. -/
structure Storage where
  least : Nat
  greatest : Nat
  allocator : Allocator
  held : Option Nat
  calls : Array StorageCall

/-- Asks for storage of `needed` bytes, unless as many are held. -/
def Storage.reserve (s : Storage) (needed : Nat) : Bool × Storage :=
  match s.held with
  | none =>
    let size := min (max s.least needed) s.greatest
    let (granted, calls) := s.allocator.alloc s.calls size
    (granted, { s with held := if granted then some size else none, calls })
  | some held =>
    if needed ≤ held then (true, s)
    else
      let size := min (max (held * 2) needed) s.greatest
      let (granted, calls) := s.allocator.realloc s.calls size
      (granted, { s with held := some (if granted then size else held), calls })

/-- The storage of a window. -/
def Window.room (w : Window) : Storage :=
  ⟨w.minCapacity, w.maxCapacity, w.allocator, w.storage, w.calls⟩

/-- A window comes by storage as if there were nothing in it. -/
theorem Window.room_reserve {w : Window} {needed : Nat} (fits : needed ≤ w.maxCapacity) :
    w.room.reserve needed = ((w.reserve needed).1, (w.reserve needed).2.room) := by
  cases held : w.storage with
  | none =>
    simp only [Storage.reserve, room, reserve, obtain, held]
    -- Storage that is obtained is large enough at once.
    have enough : needed ≤ min (max w.minCapacity needed) w.maxCapacity := by omega
    generalize min (max w.minCapacity needed) w.maxCapacity = size at enough
    cases granted : (w.allocator.alloc w.calls size).1 with
    | true => simp [enlarge, capacity, enough]
    | false => simp
  | some size =>
    simp only [Storage.reserve, room, reserve, obtain, held, enlarge, capacity, Option.getD_some]
    by_cases enough : needed ≤ size
    · simp [enough, held]
    · simp only [enough, if_false]
      generalize min (max (size * 2) needed) w.maxCapacity = size'
      cases granted : (w.allocator.realloc w.calls size').1 with
      | true => simp
      | false => simp

theorem Window.room_compact (w : Window) : w.compact.room = w.room := by
  unfold compact
  split <;> rfl

/-- Room is made by reserving storage. -/
theorem Window.room_prepareWith (add : Nat → Nat → Nat) {w : Window} {needed : Nat}
    (fits : needed ≤ w.maxCapacity) :
    w.room.reserve needed = ((w.prepareWith add needed).1, (w.prepareWith add needed).2.room) := by
  have same : (if w.capacity < add w.head needed then w.compact else w).room = w.room := by
    split
    · exact room_compact w
    · rfl
  have limit : (if w.capacity < add w.head needed then w.compact else w).maxCapacity =
      w.maxCapacity := congrArg Storage.greatest same
  unfold prepareWith
  rw [← same, room_reserve (limit ▸ fits)]

/-! ### Queues -/

/-- The bytes that have been delivered since the last reset, the first `consumed` of which are
gone. -/
structure Queue where
  delivered : List UInt8 := []
  consumed : Nat := 0
  storage : Storage

namespace Queue

variable {σ : Type} [ByteSource σ]

/-- The bytes that are left. -/
def resident (q : Queue) : List UInt8 :=
  q.delivered.drop q.consumed

/-- Consumes `count` bytes, or all if there are fewer. -/
def advance (q : Queue) (count : Nat) : Queue :=
  { q with consumed := q.consumed + min count q.resident.length }

/-- Starts again with no bytes. -/
def reset (q : Queue) : Queue :=
  { storage := q.storage }

/-- Reads until `needed` bytes are resident, asking for those that are missing. -/
def pull (q : Queue) (needed : Nat) (source : σ) : Option Shortfall × Queue × σ :=
  if q.resident.length < needed then
    match ByteSource.read source (needed - q.resident.length) with
    | (.data bytes, source) =>
      if bytes.size = 0 then (some .wouldBlock, q, source)
      else pull { q with delivered := q.delivered ++ bytes.toList } needed source
    | (.endOfData, source) => (some .endOfData, q, source)
    | (.wouldBlock, source) => (some .wouldBlock, q, source)
    | (.failed, source) => (some .readFailed, q, source)
  else (none, q, source)
termination_by needed + q.consumed - q.delivered.length
decreasing_by
  simp only [resident, List.length_drop, List.length_append, Array.length_toList] at *
  omega

/-- Makes `needed` bytes resident, unless they are too many or storage for them is refused. -/
def ensure (q : Queue) (needed : Nat) (source : σ) : Option Shortfall × Queue × σ :=
  if needed ≤ q.resident.length then (none, q, source)
  else if q.storage.greatest < needed then (some .exceedsLimit, q, source)
  else
    match q.storage.reserve needed with
    | (true, storage) => pull { q with storage } needed source
    | (false, storage) => (some .allocationFailed, { q with storage }, source)

/-- A queue that is filled has just as many bytes as it was to be filled with; one that is not has
fewer. -/
theorem pull_exact [LawfulByteSource σ] {q : Queue} {needed : Nat}
    (within : q.consumed ≤ q.delivered.length) (lacking : q.resident.length ≤ needed) (source : σ) :
    (q.pull needed source).2.1.resident.length ≤ needed ∧
      ((q.pull needed source).1 = none ↔ (q.pull needed source).2.1.resident.length = needed) := by
  fun_induction pull q needed source with
  | case1 q source few | case3 q source few | case4 q source few | case5 q source few =>
    exact ⟨lacking, iff_of_false (by intro h; cases h) (Nat.ne_of_lt few)⟩
  | case2 q source few bytes source₁ delivered nonempty ih =>
    have size := LawfulByteSource.size_le _ _ _ _ delivered
    simp only [resident, List.length_drop] at few size
    apply ih
    · rw [List.length_append]
      exact Nat.le_add_right_of_le within
    · simp only [resident, List.length_drop, List.length_append, Array.length_toList]
      omega
  | case6 q source enough =>
    exact ⟨lacking, iff_of_true rfl (Nat.le_antisymm lacking (Nat.le_of_not_lt enough))⟩

theorem ensure_exact [LawfulByteSource σ] {q : Queue} {needed : Nat}
    (within : q.consumed ≤ q.delivered.length) (lacking : q.resident.length < needed) (source : σ) :
    (q.ensure needed source).2.1.resident.length ≤ needed ∧
      ((q.ensure needed source).1 = none ↔
        (q.ensure needed source).2.1.resident.length = needed) := by
  have short : q.resident.length ≠ needed := Nat.ne_of_lt lacking
  unfold ensure
  rw [if_neg (Nat.not_le.mpr lacking)]
  by_cases exceeds : q.storage.greatest < needed
  · rw [if_pos exceeds]
    exact ⟨Nat.le_of_lt lacking, iff_of_false (by intro h; cases h) short⟩
  · rw [if_neg exceeds]
    split
    · next storage _ =>
      exact pull_exact (q := { q with storage }) within (Nat.le_of_lt lacking) source
    · exact ⟨Nat.le_of_lt lacking, iff_of_false (by intro h; cases h) short⟩

end Queue

/-! ### Operations -/

/-- What can be done with a window. -/
inductive Operation where
  | ensure (needed : Nat)
  | advance (count : Nat)
  | take (count : Nat)
  | reset
  deriving DecidableEq, Repr

/-- What is seen of an operation: why it fell short, if it did, the bytes it gave out, and what is
resident then, with the offset. -/
structure Sight where
  short : Option Shortfall := none
  taken : List UInt8 := []
  resident : List UInt8
  offset : Nat
  deriving DecidableEq, Repr

section Performing

variable {σ : Type} [ByteSource σ]

/-- What is seen of a window. -/
def Window.sight (w : Window) (short : Option Shortfall) (taken : List UInt8) : Sight :=
  ⟨short, taken, w.resident, w.offset⟩

/-- What is seen of a queue. -/
def Queue.sight (q : Queue) (short : Option Shortfall) (taken : List UInt8) : Sight :=
  ⟨short, taken, q.resident, q.consumed⟩

def Window.perform (w : Window) (source : σ) : Operation → Sight × Window × σ
  | .ensure needed =>
    let (short, w, source) := w.ensure needed source
    (w.sight short [], w, source)
  | .advance count => ((w.advance count).sight none [], w.advance count, source)
  | .take count =>
    let (taken, w) := w.take count
    (w.sight none taken, w, source)
  | .reset => (w.reset.sight none [], w.reset, source)

def Queue.perform (q : Queue) (source : σ) : Operation → Sight × Queue × σ
  | .ensure needed =>
    let (short, q, source) := q.ensure needed source
    (q.sight short [], q, source)
  | .advance count => ((q.advance count).sight none [], q.advance count, source)
  | .take count => ((q.advance count).sight none (q.resident.take count), q.advance count, source)
  | .reset => (q.reset.sight none [], q.reset, source)

/-- Performs one operation after another. -/
def Window.performAll (w : Window) (source : σ) : List Operation → List Sight × Window × σ
  | [] => ([], w, source)
  | operation :: later =>
    let (sight, w, source) := w.perform source operation
    let (sights, w, source) := w.performAll source later
    (sight :: sights, w, source)

def Queue.performAll (q : Queue) (source : σ) : List Operation → List Sight × Queue × σ
  | [] => ([], q, source)
  | operation :: later =>
    let (sight, q, source) := q.perform source operation
    let (sights, q, source) := q.performAll source later
    (sight :: sights, q, source)

end Performing

/-! ### What shows -/

namespace Window

variable {σ : Type} [ByteSource σ]

/-- The window holds what is left of the queue, and has its storage. -/
structure Shows (w : Window) (q : Queue) : Prop where
  inside : w.head ≤ w.cells.size
  resident : w.resident = q.resident
  offset : w.offset = q.consumed
  within : q.consumed ≤ q.delivered.length
  room : w.room = q.storage

section Shows

variable {w : Window} {q : Queue}

theorem Shows.available (shows' : w.Shows q) : w.available = q.resident.length := by
  rw [← shows'.resident, length_resident]

theorem Shows.sight (shows' : w.Shows q) (short : Option Shortfall) (taken : List UInt8) :
    w.sight short taken = q.sight short taken := by
  rw [Window.sight, Queue.sight, shows'.resident, shows'.offset]

theorem Shows.advance (shows' : w.Shows q) (count : Nat) :
    (w.advance count).Shows (q.advance count) := by
  have left : q.resident.length = q.delivered.length - q.consumed := List.length_drop
  have within := shows'.within
  constructor
  · exact inside_advance shows'.inside count
  · rw [resident_advance, shows'.resident, Queue.resident, List.drop_drop]
    change _ = q.delivered.drop (q.consumed + min count q.resident.length)
    by_cases all : count ≤ q.resident.length
    · rw [Nat.min_eq_left all]
    · rw [List.drop_eq_nil_of_le (by omega), List.drop_eq_nil_of_le (by omega)]
  · rw [offset_advance, shows'.offset, shows'.available]
    rfl
  · simp only [Queue.advance]
    omega
  · rw [← show w.room = (q.advance count).storage from shows'.room]
    simp only [Window.advance]
    split <;> rfl

theorem Shows.reset (shows' : w.Shows q) : w.reset.Shows q.reset where
  inside := Nat.le_refl _
  resident := rfl
  offset := rfl
  within := Nat.le_refl _
  room := shows'.room

theorem Shows.append (shows' : w.Shows q) (bytes : Array UInt8) :
    (w.append bytes).Shows { q with delivered := q.delivered ++ bytes.toList } where
  inside := (drawn_append shows'.inside bytes).inside
  resident := by
    rw [resident_append shows'.inside, shows'.resident]
    exact (List.drop_append_of_le_length shows'.within).symm
  offset := shows'.offset
  within := by
    rw [List.length_append]
    exact Nat.le_add_right_of_le shows'.within
  room := shows'.room

/-- Making room does not show, whether or not storage is granted. -/
theorem Shows.prepare (shows' : w.Shows q) {needed : Nat} (fits : needed ≤ w.maxCapacity)
    {granted : Bool} {v : Window} (prepared : w.prepareWith (· + ·) needed = (granted, v)) :
    q.storage.reserve needed = (granted, v.room) ∧ v.Shows { q with storage := v.room } := by
  have moved := drawn_prepareWith (· + ·) shows'.inside needed
  have reserved := room_prepareWith (· + ·) fits
  rw [prepared] at moved reserved
  rw [shows'.room] at reserved
  refine ⟨reserved, moved.inside, ?_, ?_, shows'.within, rfl⟩
  · rw [moved.resident, List.append_nil]
    exact shows'.resident
  · rw [moved.offset]
    exact shows'.offset

end Shows

theorem Shows.fill {w : Window} {q : Queue} (shows' : w.Shows q) {needed : Nat} {source : σ} :
    ∃ q', q.pull needed source =
        ((w.fill needed source).1, q', (w.fill needed source).2.2) ∧
      (w.fill needed source).2.1.Shows q' := by
  fun_induction Window.fill w needed source generalizing q with
  | case1 w source few bytes source₁ delivered empty =>
    rw [shows'.available] at few delivered
    exact ⟨q, by rw [Queue.pull, if_pos few, delivered]; simp [empty], shows'⟩
  | case2 w source few bytes source₁ delivered nonempty ih =>
    rw [shows'.available] at few delivered
    obtain ⟨q', pulled, later⟩ := ih (shows'.append bytes)
    exact ⟨q', by rw [Queue.pull, if_pos few, delivered]; simp only [if_neg nonempty]; exact pulled,
      later⟩
  | case3 w source few source₁ answered | case4 w source few source₁ answered
  | case5 w source few source₁ answered =>
    rw [shows'.available] at few answered
    exact ⟨q, by rw [Queue.pull, if_pos few, answered], shows'⟩
  | case6 w source enough =>
    rw [shows'.available] at enough
    exact ⟨q, by rw [Queue.pull, if_neg enough], shows'⟩

theorem Shows.ensure {w : Window} {q : Queue} (shows' : w.Shows q) (needed : Nat) (source : σ) :
    ∃ q', q.ensure needed source =
        ((w.ensure needed source).1, q', (w.ensure needed source).2.2) ∧
      (w.ensure needed source).2.1.Shows q' := by
  have limit : q.storage.greatest = w.maxCapacity := congrArg Storage.greatest shows'.room.symm
  generalize ensured : w.ensure needed source = given
  unfold Queue.ensure
  rw [← shows'.available, limit]
  cases ensured_of_ensure ensured with
  | resident enough =>
    rw [if_pos enough]
    exact ⟨q, rfl, shows'⟩
  | exceeds lacking exceeds =>
    rw [if_neg (Nat.not_le.mpr lacking), if_pos exceeds]
    exact ⟨q, rfl, shows'⟩
  | filled lacking fits granted filled =>
    obtain ⟨asked, later⟩ := shows'.prepare fits granted
    rw [if_neg (Nat.not_le.mpr lacking), if_neg (Nat.not_lt.mpr fits), asked, ← filled]
    exact later.fill
  | refused lacking fits refused =>
    obtain ⟨asked, later⟩ := shows'.prepare fits refused
    rw [if_neg (Nat.not_le.mpr lacking), if_neg (Nat.not_lt.mpr fits), asked]
    exact ⟨_, rfl, later⟩

/-- What one operation shows is what it shows of the queue. -/
theorem Shows.perform {w : Window} {q : Queue} (shows' : w.Shows q) (source : σ)
    (operation : Operation) :
    ∃ q', q.perform source operation =
        ((w.perform source operation).1, q', (w.perform source operation).2.2) ∧
      (w.perform source operation).2.1.Shows q' := by
  cases operation with
  | ensure needed =>
    obtain ⟨q', ensured, later⟩ := shows'.ensure needed source
    refine ⟨q', ?_, later⟩
    simp only [Queue.perform, Window.perform, ensured, later.sight]
  | advance count =>
    have later := shows'.advance count
    exact ⟨_, by simp only [Queue.perform, Window.perform, later.sight], later⟩
  | take count =>
    have later := shows'.advance count
    refine ⟨_, ?_, later⟩
    simp only [Queue.perform, Window.perform, take, later.sight, front_eq_take, shows'.resident]
  | reset =>
    have later := shows'.reset
    exact ⟨_, by simp only [Queue.perform, Window.perform, later.sight], later⟩

theorem Shows.performAll {w : Window} {q : Queue} (shows' : w.Shows q) (source : σ)
    (operations : List Operation) :
    ∃ q', q.performAll source operations =
        ((w.performAll source operations).1, q', (w.performAll source operations).2.2) ∧
      (w.performAll source operations).2.1.Shows q' := by
  induction operations generalizing w q source with
  | nil => exact ⟨q, rfl, shows'⟩
  | cons operation later ih =>
    obtain ⟨q₁, performed, shown⟩ := shows'.perform source operation
    obtain ⟨q', rest, shown'⟩ := ih shown (w.perform source operation).2.2
    refine ⟨q', ?_, shown'⟩
    simp only [Queue.performAll, Window.performAll, performed, rest]

/-! ### What is heard -/

/-- Operations on a window that is read from one source are those over any that answers alike. -/
theorem performAll_map {τ : Type} [ByteSource τ] {f : σ → τ} (echoes : Echoes f) (w : Window)
    (source : σ) (operations : List Operation) :
    w.performAll (f source) operations =
      (w.performAll source operations).map id (Prod.map id f) := by
  induction operations generalizing w source with
  | nil => rfl
  | cons operation later ih =>
    have one : w.perform (f source) operation =
        (w.perform source operation).map id (Prod.map id f) := by
      cases operation with
      | ensure needed =>
        simp only [perform, ensure_map echoes]
        rfl
      | advance | take | reset => rfl
    simp only [performAll, one, Prod.map, id, ih]

/-- The bytes that an operation hears come to stand behind the resident ones, and those that pass
are taken off the front. -/
theorem hears_perform {w : Window} (inside : w.head ≤ w.cells.size) (heard : Heard σ)
    {operation : Operation} (kept : operation ≠ .reset) :
    ∃ answers passed, (w.perform heard operation).2.2.answers = heard.answers ++ answers ∧
      w.resident ++ answers.flatMap Answer.bytes =
        passed ++ (w.perform heard operation).2.1.resident ∧
      (w.perform heard operation).2.1.offset = w.offset + passed.length ∧
      (w.perform heard operation).2.1.head ≤ (w.perform heard operation).2.1.cells.size := by
  have passes (count : Nat) : ∃ answers passed, heard.answers = heard.answers ++ answers ∧
      w.resident ++ answers.flatMap Answer.bytes = passed ++ (w.advance count).resident ∧
      (w.advance count).offset = w.offset + passed.length ∧
      (w.advance count).head ≤ (w.advance count).cells.size := by
    refine ⟨[], w.resident.take count, (List.append_nil _).symm, ?_, ?_,
      inside_advance inside count⟩
    · rw [resident_advance, List.take_append_drop, List.flatMap_nil, List.append_nil]
    · rw [offset_advance, List.length_take, length_resident]
  cases operation with
  | reset => exact absurd rfl kept
  | advance count | take count => exact passes count
  | ensure needed =>
    by_cases enough : needed ≤ w.available
    · have still : w.ensure needed heard = (none, w, heard) := if_pos enough
      simp only [perform, still]
      refine ⟨[], [], (List.append_nil _).symm, ?_, rfl, inside⟩
      rw [List.flatMap_nil, List.append_nil, List.nil_append]
    · obtain ⟨answers, told, hears, -⟩ := hears_ensure inside (Nat.lt_of_not_le enough)
        (show w.ensure needed heard = (_, _, _) from rfl)
      exact ⟨answers, [], told, hears.drawn.resident.symm, hears.drawn.offset, hears.drawn.inside⟩

theorem hears_performAll {w : Window} (inside : w.head ≤ w.cells.size) (heard : Heard σ)
    {operations : List Operation} (kept : .reset ∉ operations) :
    ∃ answers passed, (w.performAll heard operations).2.2.answers = heard.answers ++ answers ∧
      w.resident ++ answers.flatMap Answer.bytes =
        passed ++ (w.performAll heard operations).2.1.resident ∧
      (w.performAll heard operations).2.1.offset = w.offset + passed.length := by
  induction operations generalizing w heard with
  | nil =>
    refine ⟨[], [], (List.append_nil _).symm, ?_, rfl⟩
    rw [List.flatMap_nil, List.append_nil, List.nil_append]
    rfl
  | cons operation later ih =>
    rw [List.mem_cons, not_or] at kept
    obtain ⟨other, others⟩ := kept
    obtain ⟨answers, passed, told, split, moved, inside'⟩ :=
      hears_perform inside heard (Ne.symm other)
    obtain ⟨answers', passed', told', split', moved'⟩ := ih inside' _ others
    refine ⟨answers ++ answers', passed ++ passed', ?_, ?_, ?_⟩
    · rw [← List.append_assoc, ← told]
      exact told'
    · rw [List.flatMap_append, ← List.append_assoc, split, List.append_assoc, split',
        List.append_assoc]
      rfl
    · rw [List.length_append, ← Nat.add_assoc, ← moved]
      exact moved'

/-- Whatever is done with a window, from its making or a reset on, what is seen of it is what is
seen of the queue, and the source is used in the same way. A window that is filled has just as many
bytes as are wanted, and one that is not has fewer, all that came among them. The bytes delivered
since the last reset are those that have passed, as many as the offset says, and then the resident
ones. -/
theorem refines_queue [LawfulByteSource σ] {w : Window} (fresh : w.reset = w)
    (operations : List Operation) (source : σ) :
    ∃ sights w' q' source',
      w.performAll source operations = (sights, w', source') ∧
      ({ storage := w.room } : Queue).performAll source operations = (sights, q', source') ∧
      w'.Shows q' ∧
      (∀ {needed why w₁ source₁}, w'.available < needed →
        w'.ensure needed source' = (why, w₁, source₁) →
        w₁.available ≤ needed ∧ (why = none ↔ w₁.available = needed)) ∧
      (.reset ∉ operations → ∃ answers passed,
        w.performAll (⟨source, []⟩ : Heard σ) operations = (sights, w', ⟨source', answers⟩) ∧
        answers.flatMap Answer.bytes = passed ++ w'.resident ∧ passed.length = w'.offset) := by
  have start : w.Shows { storage := w.room } := by
    rw [← fresh]
    exact ⟨Nat.le_refl _, rfl, rfl, Nat.le_refl _, rfl⟩
  obtain ⟨q', performed, shown⟩ := start.performAll source operations
  refine ⟨_, _, q', _, rfl, performed, shown, ?_, ?_⟩
  · intro needed why w₁ source₁ lacking ensured
    obtain ⟨q₁, asked, shown₁⟩ := shown.ensure needed (w.performAll source operations).2.2
    rw [shown.available] at lacking
    have filled := Queue.ensure_exact shown.within lacking (w.performAll source operations).2.2
    rw [asked, ensured] at filled
    rw [ensured] at shown₁
    rw [shown₁.available]
    exact filled
  · intro kept
    have plain : w.performAll source operations = _ :=
      w.performAll_map Heard.echoes_source (⟨source, []⟩ : Heard σ) operations
    obtain ⟨answers, passed, told, split, moved⟩ :=
      hears_performAll start.inside (⟨source, []⟩ : Heard σ) kept
    have empty : w.resident = [] := congrArg resident fresh.symm
    have still : w.offset = 0 := congrArg offset fresh.symm
    rw [empty] at split
    rw [still, Nat.zero_add] at moved
    rw [plain]
    generalize w.performAll (⟨source, []⟩ : Heard σ) operations = heard at told split moved
    obtain ⟨sights, w', source', answered⟩ := heard
    cases told
    exact ⟨answers, passed, rfl, split, moved.symm⟩

/-- A window that can get no storage of more than three bytes. -/
def scantWindow : Window where
  minCapacity := 1
  maxCapacity := 4
  allocator := .supplied (fun _ size => size ≤ 3) (fun _ size => size ≤ 3)

/-- Five bytes in two pieces, with a pause between them. -/
def haltingBytes : Script where
  cues := [.data [1, 2, 3], .silence .nothing, .data [4, 5]]
  last := .endOfData

/-- Storage for three bytes is refused, with two bytes held of which one is consumed. A byte fits in
all the same; then all are taken out, and one more is awaited in vain and awaited again. -/
def scantOperations : List Operation :=
  [.ensure 2, .advance 1, .ensure 3, .ensure 2, .take 5, .ensure 1, .ensure 1, .ensure 5]

theorem refines_queue_scantWindow :
    ∃ w' q' source' answers passed,
      scantWindow.performAll haltingBytes scantOperations =
        ([⟨none, [], [1, 2], 0⟩, ⟨none, [], [2], 1⟩, ⟨some .allocationFailed, [], [2], 1⟩,
          ⟨none, [], [2, 3], 1⟩, ⟨none, [2, 3], [], 3⟩, ⟨some .wouldBlock, [], [], 3⟩,
          ⟨none, [], [4], 3⟩, ⟨some .exceedsLimit, [], [4], 3⟩], w', source') ∧
      w'.Shows q' ∧
      (scantWindow.performAll (⟨haltingBytes, []⟩ : Heard Script) scantOperations).2 =
        (w', ⟨source', answers⟩) ∧
      answers.flatMap Answer.bytes = passed ++ w'.resident ∧ passed.length = w'.offset := by
  obtain ⟨sights, w', q', source', performed, -, shown, -, told⟩ :=
    refines_queue (w := scantWindow) rfl scantOperations haltingBytes
  obtain ⟨answers, passed, heard, split, moved⟩ := told (by decide)
  have seen : (scantWindow.performAll haltingBytes scantOperations).1 =
      [⟨none, [], [1, 2], 0⟩, ⟨none, [], [2], 1⟩, ⟨some .allocationFailed, [], [2], 1⟩,
        ⟨none, [], [2, 3], 1⟩, ⟨none, [2, 3], [], 3⟩, ⟨some .wouldBlock, [], [], 3⟩,
        ⟨none, [], [4], 3⟩, ⟨some .exceedsLimit, [], [4], 3⟩] := by
    decide +kernel
  rw [performed] at seen
  obtain rfl : sights = _ := seen
  exact ⟨w', q', source', answers, passed, performed, shown, congrArg Prod.snd heard, split, moved⟩

end Window

end TagStream
