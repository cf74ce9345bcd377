import TagStream.Proofs.Footprint
import TagStream.Proofs.History
import TagStream.Schema.Matroska

/-!
What passes between a window and the functions that supply its storage. `Dealings` are the calls of
a window's life as they may be: allocations that are refused, then one that is granted, then
reallocations, each for more than is held. The calls on record are always of this form, and when the
window is given up there is one more, which gives the storage back, if there is any
(`Window.deals_in_order`). This holds of windows that are used on their own and of those of readers,
which are used by the same operations (`Reader.Reached.window`). A request that is refused changes
nothing that shows, and the operation that made it can be tried again.
-/

namespace TagStream

/-! ### Requests -/

namespace Storage

/-- The size that is asked for so that `needed` bytes are held, if as many are not. -/
def request? (s : Storage) (needed : Nat) : Option Nat :=
  match s.held with
  | none => some (min (max s.least needed) s.greatest)
  | some held => if needed ≤ held then none else some (min (max (held * 2) needed) s.greatest)

/-- Whether a size is granted. -/
def grants (s : Storage) (size : Nat) : Bool :=
  match s.held with
  | none => (s.allocator.alloc s.calls size).1
  | some _ => (s.allocator.realloc s.calls size).1

/-- The call that asks for a size: the first storage is allocated, other storage reallocated. -/
def call (s : Storage) (size : Nat) (granted : Bool) : StorageCall :=
  match s.held with
  | none => .alloc size granted
  | some _ => .realloc size granted

/-- The storage after a request. Only functions that were supplied are called on record. -/
def answered (s : Storage) (size : Nat) (granted : Bool) : Storage :=
  { s with
    held := if granted then some size else s.held
    calls :=
      match s.allocator with
      | .standard _ => s.calls
      | .supplied _ _ => s.calls.push (s.call size granted) }

variable {s : Storage} {needed size : Nat}

/-- A size that is needed is asked for once, and the answer decides. -/
theorem reserve_of_request (asked : s.request? needed = some size) :
    s.reserve needed = (s.grants size, s.answered size (s.grants size)) := by
  obtain ⟨least, greatest, allocator, held, calls⟩ := s
  cases held with
  | none =>
    obtain rfl := Option.some.inj asked
    cases allocator <;> rfl
  | some held =>
    simp only [request?] at asked
    split at asked
    · cases asked
    · next scarce =>
      obtain rfl := Option.some.inj asked
      simp only [reserve, if_neg scarce, grants]
      generalize min (max (held * 2) needed) greatest = size
      have record : (allocator.realloc calls size).2 =
          (answered ⟨least, greatest, allocator, some held, calls⟩ size
            (allocator.realloc calls size).1).calls := by cases allocator <;> rfl
      rw [record]
      cases (allocator.realloc calls size).1 <;> rfl

theorem reserve_of_none (unasked : s.request? needed = none) : s.reserve needed = (true, s) := by
  obtain ⟨least, greatest, allocator, held, calls⟩ := s
  cases held with
  | none => cases unasked
  | some held =>
    simp only [request?] at unasked
    split at unasked
    · next enough => simp only [reserve, if_pos enough]
    · cases unasked

/-- A request is for no less than is needed, no more than is allowed, and more than is held. -/
theorem bounds_of_request (fits : needed ≤ s.greatest) (asked : s.request? needed = some size) :
    needed ≤ size ∧ size ≤ s.greatest ∧ ∀ held ∈ s.held, held < size := by
  unfold request? at asked
  split at asked
  · next bare =>
    obtain rfl := Option.some.inj asked
    refine ⟨by omega, Nat.min_le_right _ _, fun held mem => ?_⟩
    rw [bare] at mem
    cases mem
  · next held' holds =>
    split at asked
    · cases asked
    · obtain rfl := Option.some.inj asked
      refine ⟨by omega, Nat.min_le_right _ _, fun held mem => ?_⟩
      rw [holds] at mem
      cases mem
      omega

/-- What is refused is asked for again. -/
theorem request?_refused (s : Storage) (size needed : Nat) :
    (s.answered size false).request? needed = s.request? needed :=
  rfl

end Storage

/-! ### Dealings -/

/-- The calls of a window: allocations of these sizes that were refused, and once one is granted,
reallocations, each with its answer. -/
inductive Dealings where
  | seeking (refused : List Nat)
  | holding (refused : List Nat) (first : Nat) (later : List (Nat × Bool))

namespace Dealings

/-- The size that is held after reallocations: that of the last one granted. -/
def heldAfter (held : Nat) (later : List (Nat × Bool)) : Nat :=
  later.foldl (fun held (size, granted) => if granted then size else held) held

/-- Each reallocation is for more than is held when it is made. -/
def Grow (held : Nat) : List (Nat × Bool) → Prop
  | [] => True
  | (size, granted) :: later => held < size ∧ Grow (if granted then size else held) later

/-- The size that is held in the end, if any storage is. -/
def held : Dealings → Option Nat
  | seeking _ => none
  | holding _ first later => some (heldAfter first later)

/-- Each reallocation is for more than is held when it is made. -/
def Growing : Dealings → Prop
  | seeking _ => True
  | holding _ first later => Grow first later

/-- The calls, in order. -/
def calls : Dealings → List StorageCall
  | seeking refused => refused.map (.alloc · false)
  | holding refused first later =>
    refused.map (.alloc · false) ++ .alloc first true ::
      later.map fun (size, granted) => .realloc size granted

/-- The call that ends the dealings: storage that is held is given back. -/
def ending : Dealings → List StorageCall
  | seeking _ => []
  | holding _ _ _ => [.free]

/-- The dealings with one more request. -/
def request : Dealings → (size : Nat) → (granted : Bool) → Dealings
  | seeking refused, size, false => seeking (refused ++ [size])
  | seeking refused, size, true => holding refused size []
  | holding refused first later, size, granted => holding refused first (later ++ [(size, granted)])

theorem grow_append {held size : Nat} {granted : Bool} {later : List (Nat × Bool)}
    (grow : Grow held later) (more : heldAfter held later < size) :
    Grow held (later ++ [(size, granted)]) := by
  induction later generalizing held with
  | nil => exact ⟨more, trivial⟩
  | cons request later ih => exact ⟨grow.1, ih grow.2 more⟩

variable {d : Dealings} {size : Nat}

theorem Growing.request (growing : d.Growing) (more : ∀ held ∈ d.held, held < size)
    (granted : Bool) : (d.request size granted).Growing := by
  cases d with
  | seeking refused => cases granted <;> exact trivial
  | holding refused first later => exact grow_append growing (more _ rfl)

theorem held_request (d : Dealings) (size : Nat) (granted : Bool) :
    (d.request size granted).held = if granted then some size else d.held := by
  cases d with
  | seeking refused => cases granted <;> rfl
  | holding refused first later =>
    simp only [Dealings.request, held, heldAfter, List.foldl_append, List.foldl_cons,
      List.foldl_nil]
    cases granted <;> rfl

theorem calls_request {s : Storage} (same : s.held = d.held) (size : Nat) (granted : Bool) :
    (d.request size granted).calls = d.calls ++ [s.call size granted] := by
  unfold Storage.call
  rw [same]
  cases d with
  | seeking refused => cases granted <;> simp [Dealings.request, calls, held]
  | holding refused first later => simp [Dealings.request, calls, held]

end Dealings

/-- The calls on record are dealings that account for what is held; with the standard allocator
there are none. -/
def Storage.Recorded (s : Storage) : Prop :=
  match s.allocator with
  | .standard _ => s.calls = #[]
  | .supplied _ _ => ∃ d : Dealings, d.Growing ∧ s.held = d.held ∧ s.calls.toList = d.calls

/-- A request for more than is held is one of the dealings. -/
theorem Storage.Recorded.answered {s : Storage} {size : Nat} (recorded : s.Recorded)
    (more : ∀ held ∈ s.held, held < size) (granted : Bool) :
    (s.answered size granted).Recorded := by
  obtain ⟨least, greatest, allocator, held, calls⟩ := s
  cases allocator with
  | standard => exact recorded
  | supplied alloc realloc =>
    obtain ⟨d, growing, rfl, record⟩ := recorded
    refine ⟨d.request size granted, growing.request more granted, ?_, ?_⟩
    · exact (d.held_request size granted).symm
    · rw [d.calls_request (s := ⟨least, greatest, _, d.held, calls⟩) rfl, ← record]
      exact Array.toList_push

namespace Window

variable {σ : Type} [ByteSource σ] {add : Nat → Nat → Nat} {start w w' : Window} {needed : Nat}

/-! ### What an operation asks for -/

theorem room_advance (w : Window) (count : Nat) : (w.advance count).room = w.room := by
  simp only [advance]
  split <;> rfl

theorem room_fill (w : Window) (needed : Nat) (source : σ) :
    (w.fill needed source).2.1.room = w.room := by
  fun_induction fill w needed source with
  | case1 | case3 | case4 | case5 | case6 => rfl
  | case2 _ _ _ _ _ _ _ ih => exact ih

/-- Filling asks for no storage, so it is never refused any. -/
theorem fill_ne_allocationFailed (w : Window) (needed : Nat) (source : σ) :
    (w.fill needed source).1 ≠ some .allocationFailed := by
  fun_induction fill w needed source with
  | case1 | case3 | case4 | case5 | case6 =>
    intro h
    cases h
  | case2 _ _ _ _ _ _ _ ih => exact ih

/-- Making room asks for storage once, if there is not enough, and otherwise not at all. -/
theorem cases_prepareWith (add : Nat → Nat → Nat) (fits : needed ≤ w.maxCapacity) :
    (w.prepareWith add needed).1 = true ∧ (w.prepareWith add needed).2.room = w.room ∨
      ∃ size, w.room.request? needed = some size ∧
        (w.prepareWith add needed).1 = w.room.grants size ∧
        (w.prepareWith add needed).2.room = w.room.answered size (w.room.grants size) := by
  have reserved := room_prepareWith add fits
  cases asked : w.room.request? needed with
  | none =>
    rw [Storage.reserve_of_none asked] at reserved
    obtain ⟨granted, room⟩ := Prod.mk.inj reserved
    exact .inl ⟨granted.symm, room.symm⟩
  | some size =>
    rw [Storage.reserve_of_request asked] at reserved
    obtain ⟨answer, room⟩ := Prod.mk.inj reserved
    exact .inr ⟨size, rfl, answer.symm, room.symm⟩

/-- Making bytes resident asks for storage once, if they are missing and there is not room for
them, and otherwise not at all. -/
theorem room_ensureWith (add : Nat → Nat → Nat) (w : Window) (needed : Nat) (source : σ) :
    (w.ensureWith add needed source).2.1.room = w.room ∨
      ∃ size, (w.available < needed ∧ needed ≤ w.maxCapacity) ∧
        w.room.request? needed = some size ∧
        (w.ensureWith add needed source).2.1.room =
          w.room.answered size (w.room.grants size) := by
  generalize ensured : w.ensureWith add needed source = given
  cases ensured_of_ensureWith ensured with
  | resident | exceeds => exact .inl rfl
  | filled lacking fits granted filled =>
    have made := cases_prepareWith add fits
    rw [granted] at made
    rw [← filled, room_fill]
    rcases made with ⟨-, same⟩ | ⟨size, asked, -, room⟩
    · exact .inl same
    · exact .inr ⟨size, ⟨lacking, fits⟩, asked, room⟩
  | refused lacking fits refused =>
    have made := cases_prepareWith add fits
    rw [refused] at made
    rcases made with ⟨-, same⟩ | ⟨size, asked, -, room⟩
    · exact .inl same
    · exact .inr ⟨size, ⟨lacking, fits⟩, asked, room⟩

/-- A window that is refused storage asked for it, and nothing else has changed. -/
theorem refused_ensureWith {source source' : σ}
    (refused : w.ensureWith add needed source = (some .allocationFailed, w', source')) :
    ∃ size, (w.available < needed ∧ needed ≤ w.maxCapacity) ∧
      w.room.request? needed = some size ∧ w.room.grants size = false ∧
      w' = (w.prepareWith add needed).2 ∧ w'.room = w.room.answered size false ∧
      source' = source := by
  cases ensured_of_ensureWith refused with
  | filled _ _ _ filled =>
    exact absurd (congrArg Prod.fst filled) (fill_ne_allocationFailed _ needed source)
  | refused lacking fits denied =>
    have made := cases_prepareWith add fits
    rw [denied] at made ⊢
    rcases made with ⟨granted, -⟩ | ⟨size, asked, answer, room⟩
    · cases granted
    · rw [← answer] at room
      exact ⟨size, ⟨lacking, fits⟩, asked, answer.symm, rfl, room, rfl⟩

/-- What every request keeps holds of the storage, whatever has been done with the window. -/
theorem Reached.of_requests {P : Storage → Prop} (reached : Reached σ add start w)
    (first : P start.room)
    (request : ∀ {s : Storage} {needed size : Nat}, needed ≤ s.greatest →
      s.request? needed = some size → P s → ∀ granted, P (s.answered size granted)) :
    P w.room := by
  induction reached with
  | start => exact first
  | @ensure w needed source _ ih =>
    rcases room_ensureWith add w needed source with same | ⟨size, ⟨-, fits⟩, asked, room⟩
    · rw [same]
      exact ih
    · rw [room]
      exact request fits asked ih _
  | advance count _ ih | take count _ ih => exact (room_advance _ count).symm ▸ ih
  | reset _ ih => exact ih

/-- The calls on record account for the storage. -/
theorem Reached.recorded (reached : Reached σ add start w) (recorded : start.room.Recorded) :
    w.room.Recorded :=
  reached.of_requests recorded fun fits asked recorded =>
    recorded.answered (Storage.bounds_of_request fits asked).2.2

/-- Where storage comes from, and how much of it there may be, stays as it is. -/
theorem Reached.terms (reached : Reached σ add start w) :
    w.room.greatest = start.room.greatest ∧ w.room.allocator = start.room.allocator :=
  reached.of_requests (P := fun s => s.greatest = start.room.greatest ∧
    s.allocator = start.room.allocator) ⟨rfl, rfl⟩ fun _ _ same _ => same

/-- Gathering a tag makes bytes resident, and does nothing else to the window. -/
theorem Reached.gather (reached : Reached σ (· + ·) start w) (schema : Schema) (source : σ) :
    Reached σ (· + ·) start (w.gather schema source).2.1 := by
  fun_induction Window.gather w schema source with
  | case1 => exact reached
  | case2 w source needed part demanded w' source' ensured ih =>
    have later : Reached σ (· + ·) start (w.ensure needed source).2.1 :=
      reached.ensure needed source
    rw [ensured] at later
    exact ih later
  | case3 w source needed part demanded why w' source' ensured =>
    have later : Reached σ (· + ·) start (w.ensure needed source).2.1 :=
      reached.ensure needed source
    rw [ensured] at later
    exact later

end Window

namespace Reader

variable {σ : Type} [ByteSource σ] {schema : Schema} {c : Config} {start : Window}

/-- Acting on a tag consumes bytes, and does nothing else to the window. -/
theorem Acted.window {r : Reader} {settled : Except Lack Verdict} {given : Report × Reader}
    (acted : Acted schema r settled given) (reached : Window.Reached σ (· + ·) start r.window) :
    Window.Reached σ (· + ·) start given.2.window := by
  cases acted with
  | enter =>
    rw [(window_place ..).1]
    exact reached.advance _
  | leaf =>
    rw [(window_place ..).1]
    exact (reached.advance _).advance _
  | malformed => exact (reached.advance _).advance _
  | refuse fault => exact reached
  | fallShort lack =>
    rw [window_fallShort]
    exact reached

/-- The window of a reader comes about as any window does. -/
theorem Reached.window {r : Reader} (reached : Reached σ schema c r) :
    Window.Reached σ (· + ·) c.window r.window := by
  induction reached with
  | new => exact .start
  | @next r r' source source' report _ stepped ih =>
    cases stepped_of_next stepped with
    | repeated => exact ih
    | owed _ owed =>
      rw [emit, (window_of_owed owed).1]
      exact ih
    | acted _ _ gathered acted =>
      have later := ih.gather schema source
      rw [gathered] at later
      exact (acted_of_act acted).window later
  | reset _ ih => exact ih.reset

end Reader

/-! ### The main result -/

/-- All three functions are supplied. -/
def StorageConfig.Complete (c : StorageConfig) : Prop :=
  c.alloc.isSome = true ∧ c.realloc.isSome = true ∧ c.free = true

theorem StorageConfig.cases_allocator (c : StorageConfig) :
    (¬c.Complete ∧ c.allocator = .standard c.memory) ∨
      c.Complete ∧ ∃ alloc realloc, c.allocator = .supplied alloc realloc := by
  obtain ⟨alloc, realloc, free, memory⟩ := c
  cases alloc with
  | none => exact .inl ⟨fun complete => (by cases complete.1), rfl⟩
  | some alloc =>
    cases realloc with
    | none => exact .inl ⟨fun complete => (by cases complete.2.1), rfl⟩
    | some realloc =>
      cases free with
      | false => exact .inl ⟨fun complete => (by cases complete.2.2), rfl⟩
      | true => exact .inr ⟨⟨rfl, rfl, rfl⟩, alloc, realloc, rfl⟩

namespace Window

/-- What passes between a window and the functions supplied is in order: what is on record, what it
becomes when the storage is given back, and what each operation adds to it. -/
structure Orderly (σ : Type) [ByteSource σ] (add : Nat → Nat → Nat) (c : StorageConfig)
    (greatest : Nat) (w : Window) : Prop where
  /-- Unless all three functions are supplied, none is called. -/
  silent : ¬c.Complete → w.calls = #[] ∧ w.release = #[]
  /-- The storage is of the size last granted, and it is given back once, when all is over. -/
  dealings : c.Complete → ∃ d : Dealings, d.Growing ∧ w.storage = d.held ∧
    w.calls.toList = d.calls ∧ w.release.toList = d.calls ++ d.ending
  /-- Consuming bytes and starting again asks for nothing and gives nothing back. -/
  quiet : ∀ count, (w.advance count).room = w.room ∧ (w.take count).2.room = w.room ∧
    w.reset.room = w.room
  /-- Making bytes resident asks for storage at most once: for enough, not too much, and more than
  there is. -/
  requests : ∀ (needed : Nat) (source : σ),
    (w.ensureWith add needed source).2.1.room = w.room ∨
      ∃ size, (needed ≤ size ∧ size ≤ greatest ∧ w.capacity < size) ∧
        (w.ensureWith add needed source).2.1.room = w.room.answered size (w.room.grants size)
  /-- If it is refused, nothing else has changed. The same is asked for if bytes are to be made
  resident again, and if it is granted then, they are read as they would have been before. -/
  refusals : ∀ {needed : Nat} {source source' : σ} {w' : Window},
    w.ensureWith add needed source = (some .allocationFailed, w', source') →
      source' = source ∧ w'.resident = w.resident ∧ w'.offset = w.offset ∧
      w'.capacity = w.capacity ∧
      ∃ size, w'.room = w.room.answered size false ∧
        (w'.room.grants size = true → ∃ v : Window, v.resident = w.resident ∧
          v.offset = w.offset ∧ v.room = w'.room.answered size true ∧
          ∀ later : σ, w'.ensureWith add needed later = v.fill needed later)

variable {σ : Type} [ByteSource σ] {add : Nat → Nat → Nat} {start w w' : Window} {needed : Nat}

/-! ### What is on record -/

theorem recorded_made (least greatest : Nat) (allocator : Allocator) :
    (made least greatest allocator).room.Recorded := by
  unfold Storage.Recorded
  split
  · rfl
  · exact ⟨.seeking [], trivial, rfl, rfl⟩

/-- The standard allocator has no record, not even of the storage being given back. -/
theorem silent_of_recorded {memory : Nat} (recorded : w.room.Recorded)
    (standard : w.allocator = .standard memory) : w.calls = #[] ∧ w.release = #[] := by
  simp only [Storage.Recorded, room, standard] at recorded
  refine ⟨recorded, ?_⟩
  simp only [release, standard, Allocator.free, recorded, ite_self]

/-- Giving the storage back is the end of the dealings. -/
theorem dealings_of_recorded {alloc realloc : Policy} (recorded : w.room.Recorded)
    (supplied : w.allocator = .supplied alloc realloc) :
    ∃ d : Dealings, d.Growing ∧ w.storage = d.held ∧ w.calls.toList = d.calls ∧
      w.release.toList = d.calls ++ d.ending := by
  simp only [Storage.Recorded, room, supplied] at recorded
  obtain ⟨d, growing, held, calls⟩ := recorded
  refine ⟨d, growing, held, calls, ?_⟩
  rw [release, held, supplied]
  cases d with
  | seeking refused => exact calls.trans (List.append_nil _).symm
  | holding refused first later => exact Array.toList_push.trans (congrArg (· ++ [.free]) calls)

/-- More than any storage that is held is more than the capacity. -/
theorem capacity_lt {size : Nat} (pos : 0 < size) (more : ∀ held ∈ w.storage, held < size) :
    w.capacity < size := by
  unfold capacity
  cases storage : w.storage with
  | none => exact pos
  | some held => exact more held storage

/-! ### What is refused -/

/-- Storage that is refused can be granted when it is asked for again. -/
theorem retry_of_refused {size : Nat} (lacking : w.available < needed)
    (fits : needed ≤ w.maxCapacity) (asked : w.room.request? needed = some size)
    (same : w'.available = w.available) (room : w'.room = w.room.answered size false)
    (granted : w'.room.grants size = true) :
    ∃ v : Window, v.resident = w'.resident ∧ v.offset = w'.offset ∧
      v.room = w'.room.answered size true ∧
      ∀ later : σ, w'.ensureWith add needed later = v.fill needed later := by
  have fits' : needed ≤ w'.maxCapacity := by
    rw [show w'.maxCapacity = w.maxCapacity from congrArg Storage.greatest room]
    exact fits
  have asked' : w'.room.request? needed = some size := by
    rw [room, Storage.request?_refused, asked]
  have reserved := room_prepareWith add fits'
  rw [Storage.reserve_of_request asked', granted] at reserved
  obtain ⟨given, room'⟩ := Prod.mk.inj reserved
  refine ⟨_, resident_prepareWith add w' needed, offset_prepareWith add w' needed, room'.symm,
    fun later => ?_⟩
  have prepared : w'.prepareWith add needed = (true, (w'.prepareWith add needed).2) :=
    Prod.ext given.symm rfl
  rw [ensureWith, if_neg (Nat.not_le.mpr (same ▸ lacking)), if_neg (Nat.not_lt.mpr fits'), prepared]

theorem Reached.orderly {c : StorageConfig} {least greatest : Nat}
    (reached : Reached σ add (made least greatest c.allocator) w) : Orderly σ add c greatest w := by
  obtain ⟨limit, allocator⟩ := reached.terms
  have limit : w.maxCapacity = greatest := limit
  have allocator : w.allocator = c.allocator := allocator
  have recorded := reached.recorded (recorded_made least greatest c.allocator)
  constructor
  · intro incomplete
    rcases c.cases_allocator with ⟨-, standard⟩ | ⟨complete, -⟩
    · exact silent_of_recorded recorded (allocator.trans standard)
    · exact absurd complete incomplete
  · intro complete
    rcases c.cases_allocator with ⟨incomplete, -⟩ | ⟨-, alloc, realloc, supplied⟩
    · exact absurd complete incomplete
    · exact dealings_of_recorded recorded (allocator.trans supplied)
  · intro count
    exact ⟨room_advance w count, room_advance w count, rfl⟩
  · intro needed source
    rcases room_ensureWith add w needed source with same | ⟨size, ⟨lacking, fits⟩, asked, room⟩
    · exact .inl same
    · obtain ⟨enough, allowed, more⟩ := Storage.bounds_of_request fits asked
      have pos : 0 < size := by omega
      exact .inr ⟨size, ⟨enough, limit ▸ allowed, capacity_lt pos more⟩, room⟩
  · intro needed source source' w' refused
    obtain ⟨size, ⟨lacking, fits⟩, asked, -, rfl, room, rfl⟩ := refused_ensureWith refused
    have resident := resident_prepareWith add w needed
    have offset := offset_prepareWith add w needed
    have available := available_prepareWith add w needed
    refine ⟨rfl, resident, offset, congrArg (fun s => s.held.getD 0) room, size, room, ?_⟩
    rw [← resident, ← offset]
    exact retry_of_refused lacking fits asked available room

/-- **A window deals with its allocator in order**, whatever is done with it, and so does the window
of a reader: it seeks storage until it is granted some, then asks only for more than it has, and
gives it back once. Each request is for as much as the operation needs and no more than allowed, and
one that is refused changes nothing. -/
theorem deals_in_order (σ : Type) [ByteSource σ] :
    (∀ {add : Nat → Nat → Nat} {c : StorageConfig} {least greatest : Nat} {w : Window},
      Reached σ add (made least greatest c.allocator) w → Orderly σ add c greatest w) ∧
    ∀ {schema : Schema} {c : Config} {r : Reader}, Reader.Reached σ schema c r →
      Orderly σ (· + ·) c.storage c.maxCapacity r.window :=
  ⟨fun reached => reached.orderly, fun reached => reached.window.orderly⟩

/-- Functions that refuse storage when they are first asked, and more storage when they are first
asked for it. -/
def reluctant : StorageConfig where
  alloc := some fun calls _ => 1 ≤ calls.size
  realloc := some fun calls _ => 3 ≤ calls.size
  free := true

/-- Six bytes. -/
def sixBytes : Script where
  cues := [.data [1, 2, 3, 4, 5, 6]]
  last := .endOfData

/-- A window that was refused storage, then got it, was refused more, and started again. -/
def refusedWindow : Window :=
  let w := ((made 2 16 reluctant.allocator).ensureWith (· + ·) 3 sixBytes).2.1
  let w := (w.ensureWith (· + ·) 3 sixBytes).2.1.advance 1
  (w.ensureWith (· + ·) 5 sixBytes).2.1.reset

/-- A reader that was refused storage, started again, got some and was refused more. -/
def refusedReader : Reader :=
  let r := ((Reader.new { minWindow := 2, maxWindow := 16, storage := reluctant }).after
    Matroska.schema sixBytes 1).1.reset
  (r.after Matroska.schema (⟨[.data [0x18, 0x53, 0x80, 0x67, 0xFF]], .endOfData⟩ : Script) 1).1

theorem deals_in_order_reluctant :
    refusedWindow.release = #[.alloc 3 false, .alloc 3 true, .realloc 6 false, .free] ∧
      (refusedWindow.ensureWith (· + ·) 5 sixBytes).2.1.release =
        #[.alloc 3 false, .alloc 3 true, .realloc 6 false, .realloc 6 true, .free] ∧
      Orderly Script (· + ·) reluctant 16 refusedWindow ∧
      refusedReader.window.release =
        #[.alloc 2 false, .alloc 2 true, .realloc 4 false, .free] ∧
      Orderly Script (· + ·) reluctant 16 refusedReader.window := by
  refine ⟨by decide +kernel, by decide +kernel, ?_, by decide +kernel, ?_⟩
  · exact (deals_in_order Script).1
      (.reset (.ensure 5 sixBytes (.advance 1 (.ensure 3 sixBytes (.ensure 3 sixBytes .start)))))
  · have reached : Reader.Reached Script Matroska.schema
        { minWindow := 2, maxWindow := 16, storage := reluctant } refusedReader :=
      (Reader.Reached.new.after sixBytes 1).reset.after _ 1
    exact (deals_in_order Script).2 reached

end Window

end TagStream
