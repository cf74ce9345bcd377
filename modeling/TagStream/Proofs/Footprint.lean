import TagStream.Proofs.Queue

/-!
What a window does to its storage. Making bytes resident writes to the storage in two ways: the
resident bytes are moved to its front (`Window.movesWith`), and the source is asked to put bytes
behind them (`Window.readsWith`, one range for each read). Whatever has been done with a window
before, all these ranges lie inside the storage that it then has (`Window.within_storage`): whether
the bytes must be moved is decided by where they lie, and whether the storage must grow by how many
are needed, but the two together always leave room.

A machine adds in registers of 64 bits, and what it makes of a sum that does not fit in one is not
the sum. The one addition this could befall is the parameter of `Window.ensureWith`, which is taken
to be right where the sum fits. A wrong sum can only come of a request for which no allocator has
storage.
-/

namespace TagStream

namespace Allocator

theorem lt_sizeLimit_of_alloc {a : Allocator} {calls : Array StorageCall} {size : Nat}
    (granted : (a.alloc calls size).1 = true) : size < sizeLimit := by
  cases a <;> simp_all [alloc]

theorem lt_sizeLimit_of_realloc {a : Allocator} {calls : Array StorageCall} {size : Nat}
    (granted : (a.realloc calls size).1 = true) : size < sizeLimit := by
  cases a <;> simp_all [realloc]

end Allocator

namespace Window

variable {σ : Type} [ByteSource σ] {add : Nat → Nat → Nat} {w w' : Window} {needed : Nat}

/-! ### Windows that can be reached -/

/-- A window that has not been used: it has no storage yet. -/
def made (least greatest : Nat) (allocator : Allocator) : Window where
  minCapacity := least
  maxCapacity := greatest
  allocator

/-- The window can come of `start` by operations in any order, each over a source in any state. -/
inductive Reached (σ : Type) [ByteSource σ] (add : Nat → Nat → Nat) (start : Window) :
    Window → Prop where
  | start : Reached σ add start start
  | ensure {w : Window} (needed : Nat) (source : σ) : Reached σ add start w →
      Reached σ add start (w.ensureWith add needed source).2.1
  | advance {w : Window} (count : Nat) : Reached σ add start w →
      Reached σ add start (w.advance count)
  | take {w : Window} (count : Nat) : Reached σ add start w → Reached σ add start (w.take count).2
  | reset {w : Window} : Reached σ add start w → Reached σ add start w.reset

/-! ### Bounds -/

/-- The machine's sums are right where they fit in a register. -/
def ExactInWords (add : Nat → Nat → Nat) : Prop :=
  ∀ a b, a + b < 2 ^ 64 → add a b = a + b

/-- The written part of the storage lies in the storage, and this within its limits: what may be
granted can be doubled in a register. -/
structure Bounded (w : Window) : Prop where
  inside : w.head ≤ w.cells.size
  written : w.cells.size ≤ w.capacity
  limited : w.capacity ≤ w.maxCapacity
  grantable : w.capacity < Allocator.sizeLimit
  held : w.storage.isSome = true ↔ 0 < w.capacity
  peak : w.peak = w.capacity

theorem bounded_made (least greatest : Nat) (allocator : Allocator) :
    (made least greatest allocator).Bounded where
  inside := Nat.le_refl _
  written := Nat.le_refl _
  limited := Nat.zero_le _
  grantable := show 0 < Allocator.sizeLimit by decide
  held := by simp [made, capacity]
  peak := rfl

/-- What keeps the storage keeps its bounds, as long as the written part lies inside. -/
theorem Bounded.of_same (bounded : w.Bounded) (storage : w'.storage = w.storage)
    (peak : w'.peak = w.peak) (limit : w'.maxCapacity = w.maxCapacity)
    (inside : w'.head ≤ w'.cells.size) (written : w'.cells.size ≤ w.capacity) : w'.Bounded := by
  have same : w'.capacity = w.capacity := congrArg (Option.getD · 0) storage
  constructor
  · exact inside
  · rw [same]
    exact written
  · rw [same, limit]
    exact bounded.limited
  · rw [same]
    exact bounded.grantable
  · rw [same, storage]
    exact bounded.held
  · rw [same, peak]
    exact bounded.peak

theorem Bounded.reset (bounded : w.Bounded) : w.reset.Bounded :=
  bounded.of_same rfl rfl rfl (Nat.le_refl _) (Nat.zero_le _)

/-- Consuming leaves the storage as it is. -/
theorem storage_advance (w : Window) (count : Nat) :
    (w.advance count).storage = w.storage ∧ (w.advance count).peak = w.peak ∧
      (w.advance count).maxCapacity = w.maxCapacity ∧
      (w.advance count).cells.size ≤ w.cells.size := by
  simp only [Window.advance]
  split
  · exact ⟨rfl, rfl, rfl, Nat.zero_le _⟩
  · exact ⟨rfl, rfl, rfl, Nat.le_refl _⟩

theorem Bounded.advance (bounded : w.Bounded) (count : Nat) : (w.advance count).Bounded := by
  obtain ⟨storage, peak, limit, written⟩ := storage_advance w count
  exact bounded.of_same storage peak limit (inside_advance bounded.inside count)
    (Nat.le_trans written bounded.written)

theorem Bounded.compact (bounded : w.Bounded) :
    w.compact.Bounded ∧ w.compact.capacity = w.capacity ∧ w.compact.head = 0 := by
  unfold Window.compact
  split
  · next front => exact ⟨bounded, rfl, front⟩
  · have written : (w.cells.extract w.head w.cells.size).size ≤ w.capacity := by
      have := bounded.written
      rw [Array.size_extract]
      omega
    exact ⟨bounded.of_same rfl rfl rfl (Nat.zero_le _) written, rfl, rfl⟩

/-! ### Room -/

/-- A window that is granted more storage keeps within its bounds. -/
theorem Bounded.granted (bounded : w.Bounded) {size : Nat} (calls : Array StorageCall)
    (more : w.capacity < size) (limited : size ≤ w.maxCapacity)
    (grantable : size < Allocator.sizeLimit) :
    ({ w with storage := some size, peak := size, calls } : Window).Bounded where
  inside := bounded.inside
  written := Nat.le_of_lt (Nat.lt_of_le_of_lt bounded.written more)
  limited := limited
  grantable := grantable
  held := iff_of_true rfl (Nat.lt_of_le_of_lt (Nat.zero_le _) more)
  peak := rfl

/-- The window keeps within its bounds and gives no storage back. -/
structure Grows (w w' : Window) : Prop where
  bounded : w'.Bounded
  capacity : w.capacity ≤ w'.capacity
  limit : w'.maxCapacity = w.maxCapacity

theorem Grows.refl (bounded : w.Bounded) : Grows w w :=
  ⟨bounded, Nat.le_refl _, rfl⟩

theorem Grows.trans {w₁ w₂ : Window} (first : Grows w w₁) (second : Grows w₁ w₂) : Grows w w₂ where
  bounded := second.bounded
  capacity := Nat.le_trans first.capacity second.capacity
  limit := second.limit.trans first.limit

theorem Bounded.obtain (bounded : w.Bounded) (pos : 0 < needed) (fits : needed ≤ w.maxCapacity) :
    Grows w (w.obtain needed).2 := by
  cases held : w.storage with
  | some size =>
    simp only [Window.obtain, held]
    exact .refl bounded
  | none =>
    have bare : w.capacity = 0 := by simp [capacity, held]
    have more : w.capacity < min (max w.minCapacity needed) w.maxCapacity := by omega
    have limited : min (max w.minCapacity needed) w.maxCapacity ≤ w.maxCapacity := by omega
    simp only [Window.obtain, held]
    generalize min (max w.minCapacity needed) w.maxCapacity = size at more limited ⊢
    split
    · next granted =>
      have larger := bounded.granted (w.allocator.alloc w.calls size).2 more limited
        (Allocator.lt_sizeLimit_of_alloc granted)
      exact ⟨larger, Nat.le_of_lt more, rfl⟩
    · exact ⟨bounded.of_same held.symm rfl rfl bounded.inside bounded.written,
        Nat.le_of_eq bare, rfl⟩

theorem Bounded.enlarge (bounded : w.Bounded) (fits : needed ≤ w.maxCapacity) :
    Grows w (w.enlarge needed).2 := by
  unfold Window.enlarge
  split
  · exact .refl bounded
  · next scarce =>
    have more : w.capacity < min (max (w.capacity * 2) needed) w.maxCapacity := by omega
    have limited : min (max (w.capacity * 2) needed) w.maxCapacity ≤ w.maxCapacity := by omega
    simp only
    generalize min (max (w.capacity * 2) needed) w.maxCapacity = size at more limited ⊢
    split
    · next granted =>
      have larger := bounded.granted (w.allocator.realloc w.calls size).2 more limited
        (Allocator.lt_sizeLimit_of_realloc granted)
      rw [bounded.peak, Nat.max_eq_right (Nat.le_of_lt more)]
      exact ⟨larger, Nat.le_of_lt more, rfl⟩
    · exact ⟨bounded.of_same rfl rfl rfl bounded.inside bounded.written, Nat.le_refl _, rfl⟩

theorem Bounded.reserve (bounded : w.Bounded) (pos : 0 < needed) (fits : needed ≤ w.maxCapacity) :
    Grows w (w.reserve needed).2 := by
  have obtained := bounded.obtain pos fits
  unfold Window.reserve
  generalize w.obtain needed = given at obtained ⊢
  obtain ⟨granted, v⟩ := given
  cases granted with
  | true => exact obtained.trans (obtained.bounded.enlarge (obtained.limit.symm ▸ fits))
  | false => exact obtained

/-- **A window that is granted room has it behind the consumed bytes.** The sum that decides whether
the resident bytes are moved may be wrong only if it does not fit in a register, and then no
allocator grants as much as is needed. -/
theorem Bounded.prepare (bounded : w.Bounded) (sums : ExactInWords add) (pos : 0 < needed)
    (fits : needed ≤ w.maxCapacity) :
    Grows w (w.prepareWith add needed).2 ∧
      ((w.prepareWith add needed).1 = true →
        (w.prepareWith add needed).2.head + needed ≤ (w.prepareWith add needed).2.capacity) := by
  unfold prepareWith
  split
  · obtain ⟨compact, same, front⟩ := bounded.compact
    have limit := maxCapacity_compact w
    have grows := compact.reserve pos (limit.symm ▸ fits)
    refine ⟨⟨grows.bounded, same ▸ grows.capacity, grows.limit.trans limit⟩, fun granted => ?_⟩
    rw [(cells_reserve w.compact needed).2.1, front, Nat.zero_add]
    exact le_capacity_of_reserve (limit.symm ▸ fits) granted
  · next roomy =>
    have grows := bounded.reserve pos fits
    refine ⟨grows, fun granted => ?_⟩
    rw [(cells_reserve w needed).2.1]
    have enough := le_capacity_of_reserve fits granted
    have inside := bounded.inside
    have written := bounded.written
    have grantable := bounded.grantable
    have grantable' := grows.bounded.grantable
    have capacity := grows.capacity
    simp only [Allocator.sizeLimit] at grantable grantable'
    have right := sums w.head needed (by omega)
    omega

theorem Bounded.append (bounded : w.Bounded) {bytes : Array UInt8} {limit : Nat}
    (few : bytes.size ≤ limit) (room : w.cells.size + limit ≤ w.capacity) :
    (w.append bytes).Bounded := by
  have inside := bounded.inside
  refine bounded.of_same rfl rfl rfl ?_ ?_
  · rw [Window.append, Array.size_append]
    exact Nat.le_add_right_of_le inside
  · rw [Window.append, Array.size_append]
    omega

/-- A window that is filled keeps within its bounds, as long as it has room for what it awaits. -/
theorem Bounded.fill [LawfulByteSource σ] (bounded : w.Bounded)
    (room : w.head + needed ≤ w.capacity) (source : σ) : Grows w (w.fill needed source).2.1 := by
  fun_induction Window.fill w needed source with
  | case1 | case3 | case4 | case5 | case6 => exact .refl bounded
  | case2 w source few bytes source₁ delivered nonempty ih =>
    have size := LawfulByteSource.size_le _ _ _ _ delivered
    have inside := bounded.inside
    simp only [available] at few size
    have grows : Grows w (w.append bytes) :=
      ⟨bounded.append size (by omega), Nat.le_refl _, rfl⟩
    exact grows.trans (ih grows.bounded room)

/-! ### Steps -/

theorem Bounded.ensureWith [LawfulByteSource σ] (bounded : w.Bounded) (sums : ExactInWords add)
    (needed : Nat) (source : σ) : Grows w (w.ensureWith add needed source).2.1 := by
  generalize ensured : w.ensureWith add needed source = given
  cases ensured_of_ensureWith ensured with
  | resident | exceeds => exact .refl bounded
  | filled lacking fits granted filled =>
    obtain ⟨grows, room⟩ := bounded.prepare sums (Nat.zero_lt_of_lt lacking) fits
    rw [granted] at grows room
    rw [← filled]
    exact grows.trans (grows.bounded.fill (room rfl) source)
  | refused lacking fits refused =>
    obtain ⟨grows, -⟩ := bounded.prepare sums (Nat.zero_lt_of_lt lacking) fits
    rw [refused] at grows
    exact grows

theorem Bounded.grows_advance (bounded : w.Bounded) (count : Nat) : Grows w (w.advance count) := by
  obtain ⟨storage, -, limit, -⟩ := storage_advance w count
  exact ⟨bounded.advance count, Nat.le_of_eq (congrArg (Option.getD · 0) storage.symm), limit⟩

theorem Reached.grows [LawfulByteSource σ] (sums : ExactInWords add) (bounded : w.Bounded)
    (reached : Reached σ add w w') : Grows w w' := by
  induction reached with
  | start => exact .refl bounded
  | ensure needed source _ ih => exact ih.trans (ih.bounded.ensureWith sums needed source)
  | advance count _ ih | take count _ ih => exact ih.trans (ih.bounded.grows_advance count)
  | reset _ ih => exact ih.trans ⟨ih.bounded.reset, Nat.le_refl _, rfl⟩

/-! ### What is written to -/

/-- A range of the storage that is written to: where it starts, how long it is, and how large the
storage is at that time. -/
structure Access where
  start : Nat
  count : Nat
  size : Nat
  deriving DecidableEq, Repr

/-- The range lies in the storage. -/
def Access.Inside (a : Access) : Prop :=
  a.start + a.count ≤ a.size

instance (a : Access) : Decidable a.Inside :=
  inferInstanceAs (Decidable (_ ≤ _))

/-- The range that the resident bytes are moved from to make room for `needed` bytes. -/
def movesWith (add : Nat → Nat → Nat) (w : Window) (needed : Nat) : List Access :=
  if needed ≤ w.available then []
  else if w.maxCapacity < needed then []
  else if w.capacity < add w.head needed ∧ w.head ≠ 0 then [⟨w.head, w.available, w.capacity⟩]
  else []

/-- The range behind the resident bytes that takes those missing. -/
def gap (w : Window) (needed : Nat) : Access :=
  ⟨w.cells.size, needed - w.available, w.capacity⟩

/-- The ranges that the source is asked to fill until `needed` bytes are resident. -/
def reads (w : Window) (needed : Nat) (source : σ) : List Access :=
  if w.available < needed then
    match ByteSource.read source (needed - w.available) with
    | (.data bytes, source) =>
      if bytes.size = 0 then [w.gap needed]
      else w.gap needed :: reads (w.append bytes) needed source
    | _ => [w.gap needed]
  else []
termination_by needed + w.head - w.cells.size
decreasing_by simp only [append, available, Array.size_append] at *; omega

/-- The ranges that the source is asked to fill when `needed` bytes are to be made resident. -/
def readsWith (add : Nat → Nat → Nat) (w : Window) (needed : Nat) (source : σ) : List Access :=
  if needed ≤ w.available then []
  else if w.maxCapacity < needed then []
  else
    match w.prepareWith add needed with
    | (true, w) => w.reads needed source
    | (false, _) => []

end Window

/-- A source, and the limits of the reads that have been made of it. -/
structure Asked (σ : Type) where
  source : σ
  limits : List Nat := []

instance {σ : Type} [ByteSource σ] : ByteSource (Asked σ) where
  read a limit :=
    ((ByteSource.read a.source limit).1,
      ⟨(ByteSource.read a.source limit).2, a.limits ++ [limit]⟩)

theorem Asked.of_read {σ : Type} [ByteSource σ] {a a' : Asked σ} {limit : Nat} {answer : Answer}
    (answered : ByteSource.read a limit = (answer, a')) :
    ByteSource.read a.source limit = (answer, a'.source) ∧ a'.limits = a.limits ++ [limit] := by
  obtain ⟨rfl, rfl⟩ := Prod.mk.inj answered
  exact ⟨rfl, rfl⟩

namespace Window

variable {σ : Type} [ByteSource σ] {add : Nat → Nat → Nat} {w w' : Window} {needed : Nat}

/-- The reads are those that the source hears of. -/
theorem limits_fill (w : Window) (needed : Nat) (asked : Asked σ) :
    (w.fill needed asked).2.2.limits =
      asked.limits ++ (w.reads needed asked.source).map Access.count := by
  fun_induction fill w needed asked with
  | case1 w asked few bytes asked₁ delivered empty =>
    obtain ⟨read, told⟩ := Asked.of_read delivered
    rw [reads, if_pos few, read]
    simp [empty, told, gap]
  | case2 w asked few bytes asked₁ delivered nonempty ih =>
    obtain ⟨read, told⟩ := Asked.of_read delivered
    rw [reads, if_pos few, read, ih, told]
    simp [nonempty, gap]
  | case3 w asked few asked₁ answered | case4 w asked few asked₁ answered
  | case5 w asked few asked₁ answered =>
    obtain ⟨read, told⟩ := Asked.of_read answered
    rw [reads, if_pos few, read]
    simp [told, gap]
  | case6 w asked enough =>
    rw [reads, if_neg enough]
    simp

/-- Each read asks for some bytes behind those that are there, and there is room for them. -/
theorem inside_reads (inside : w.head ≤ w.cells.size) (room : w.head + needed ≤ w.capacity)
    (source : σ) : ∀ access ∈ w.reads needed source,
      w.cells.size ≤ access.start ∧ 0 < access.count ∧ access.Inside := by
  have gap {v : Window} (inside : v.head ≤ v.cells.size) (room : v.head + needed ≤ v.capacity)
      (few : v.available < needed) : v.cells.size ≤ (v.gap needed).start ∧
        0 < (v.gap needed).count ∧ (v.gap needed).Inside := by
    refine ⟨Nat.le_refl _, Nat.sub_pos_of_lt few, ?_⟩
    simp only [Access.Inside, Window.gap, available] at few ⊢
    omega
  fun_induction reads w needed source with
  | case1 w source few | case3 w source few =>
    intro access mem
    cases List.mem_singleton.mp mem
    exact gap inside room few
  | case2 w source few bytes source₁ delivered nonempty ih =>
    have grown : w.cells.size ≤ (w.append bytes).cells.size := by
      rw [append, Array.size_append]
      exact Nat.le_add_right _ _
    intro access mem
    rcases List.mem_cons.mp mem with rfl | mem
    · exact gap inside room few
    · obtain ⟨behind, rest⟩ := ih (Nat.le_trans inside grown) room access mem
      exact ⟨Nat.le_trans grown behind, rest⟩
  | case4 => exact List.forall_mem_nil _

/-- Each read but the last brings at least one byte: the next starts behind it, and there are no
more reads than bytes missing. -/
theorem reads_advance (inside : w.head ≤ w.cells.size) (room : w.head + needed ≤ w.capacity)
    (source : σ) : (w.reads needed source).Pairwise (·.start < ·.start) ∧
      (w.reads needed source).length ≤ needed - w.available := by
  fun_induction reads w needed source with
  | case1 w source few | case3 w source few =>
    exact ⟨List.pairwise_singleton _ _, Nat.sub_pos_of_lt few⟩
  | case2 w source few bytes source₁ delivered nonempty ih =>
    have size : (w.append bytes).cells.size = w.cells.size + bytes.size := Array.size_append
    have inside' : (w.append bytes).head ≤ (w.append bytes).cells.size := by
      rw [size]
      exact Nat.le_add_right_of_le inside
    obtain ⟨later, short⟩ := ih inside' room
    refine ⟨List.pairwise_cons.mpr ⟨fun access mem => ?_, later⟩, ?_⟩
    · obtain ⟨behind, -⟩ := inside_reads inside' room source₁ access mem
      rw [size] at behind
      simp only [gap]
      omega
    · have head : (w.append bytes).head = w.head := rfl
      rw [available, size, head] at short
      rw [available] at few ⊢
      rw [List.length_cons]
      omega
  | case4 => exact ⟨List.Pairwise.nil, Nat.zero_le _⟩

/-- The source is read only by a window that has been granted room. -/
theorem readsWith_cases (add : Nat → Nat → Nat) (w : Window) (needed : Nat) (source : σ) :
    w.readsWith add needed source = [] ∨
      (w.available < needed ∧ needed ≤ w.maxCapacity) ∧
        ∃ v, w.prepareWith add needed = (true, v) ∧
          w.readsWith add needed source = v.reads needed source := by
  unfold readsWith
  split
  · exact .inl rfl
  · next lacking =>
    split
    · exact .inl rfl
    · next fits =>
      split
      · next v granted =>
        exact .inr ⟨⟨Nat.lt_of_not_le lacking, Nat.le_of_not_lt fits⟩, v, granted, rfl⟩
      · exact .inl rfl

theorem limits_ensureWith (add : Nat → Nat → Nat) (w : Window) (needed : Nat) (asked : Asked σ) :
    (w.ensureWith add needed asked).2.2.limits =
      asked.limits ++ (w.readsWith add needed asked.source).map Access.count := by
  generalize ensured : w.ensureWith add needed asked = given
  unfold readsWith
  cases ensured_of_ensureWith ensured with
  | resident enough =>
    rw [if_pos enough]
    exact (List.append_nil _).symm
  | exceeds lacking exceeds =>
    rw [if_neg (Nat.not_le.mpr lacking), if_pos exceeds]
    exact (List.append_nil _).symm
  | filled lacking fits granted filled =>
    rw [if_neg (Nat.not_le.mpr lacking), if_neg (Nat.not_lt.mpr fits), granted, ← filled]
    exact limits_fill _ needed asked
  | refused lacking fits refused =>
    rw [if_neg (Nat.not_le.mpr lacking), if_neg (Nat.not_lt.mpr fits), refused]
    exact (List.append_nil _).symm

/-- Reading puts bytes behind those that are there, and moves none. -/
theorem cells_fill (w : Window) (needed : Nat) (source : σ) :
    (∃ drawn, (w.fill needed source).2.1.cells.toList = w.cells.toList ++ drawn) ∧
      (w.fill needed source).2.1.head = w.head := by
  fun_induction fill w needed source with
  | case1 | case3 | case4 | case5 | case6 => exact ⟨⟨[], (List.append_nil _).symm⟩, rfl⟩
  | case2 w source few bytes source₁ delivered nonempty ih =>
    obtain ⟨⟨drawn, written⟩, head⟩ := ih
    rw [append, Array.toList_append, List.append_assoc] at written
    exact ⟨⟨_, written⟩, head⟩

/-- Bytes are moved exactly if a move is listed, and then the resident ones to the front. -/
theorem cells_ensureWith (add : Nat → Nat → Nat) (w : Window) (needed : Nat) (source : σ) :
    (∃ drawn, (w.ensureWith add needed source).2.1.cells.toList =
        (if w.movesWith add needed = [] then w.cells.toList else w.resident) ++ drawn) ∧
      (w.ensureWith add needed source).2.1.head =
        if w.movesWith add needed = [] then w.head else 0 := by
  unfold ensureWith movesWith
  split
  · exact ⟨⟨[], (List.append_nil _).symm⟩, rfl⟩
  · split
    · exact ⟨⟨[], (List.append_nil _).symm⟩, rfl⟩
    · have listed : ((if w.capacity < add w.head needed ∧ w.head ≠ 0
          then [(⟨w.head, w.available, w.capacity⟩ : Access)] else []) = []) ↔
          ¬(w.capacity < add w.head needed ∧ w.head ≠ 0) := by
        by_cases moved : w.capacity < add w.head needed ∧ w.head ≠ 0
        · rw [if_pos moved]
          exact iff_of_false (List.cons_ne_nil _ _) (not_not_intro moved)
        · rw [if_neg moved]
          exact iff_of_true rfl moved
      obtain ⟨cells, head⟩ := cells_prepareWith add w needed
      simp only [listed, ite_not]
      rw [← cells, ← head]
      generalize w.prepareWith add needed = given
      obtain ⟨granted, v⟩ := given
      cases granted with
      | true => exact cells_fill v needed source
      | false => exact ⟨⟨[], (List.append_nil _).symm⟩, rfl⟩

theorem inside_movesWith (bounded : w.Bounded) (add : Nat → Nat → Nat) (needed : Nat) :
    ∀ access ∈ w.movesWith add needed, access.Inside := by
  have range : w.head + w.available ≤ w.capacity := by
    have inside := bounded.inside
    have written := bounded.written
    rw [available]
    omega
  intro access mem
  unfold movesWith at mem
  split at mem
  · cases mem
  · split at mem
    · cases mem
    · split at mem
      · cases List.mem_singleton.mp mem
        exact range
      · cases mem

/-- **A window stays within its storage.** Whatever has been done with it, the consumed bytes are
among those written, these lie in the storage, and the storage is no larger than the window may be;
there is storage if it has any size, this is the largest it has had, and it never shrinks. While
bytes are made resident, the range that is moved and each range that the source is asked to fill lie
in the storage. The bytes stay where they are, or the range was moved to the front, and those that
are drawn stand behind them. These are the reads that the source hears of; each asks for some bytes,
and each but the last brings some, so there are no more of them than bytes are missing. -/
theorem within_storage [LawfulByteSource σ] (sums : ExactInWords add) {least greatest : Nat}
    {allocator : Allocator} (reached : Reached σ add (made least greatest allocator) w) :
    (w.Bounded ∧ w.maxCapacity = greatest) ∧
      (∀ w', Reached σ add w w' → w.capacity ≤ w'.capacity) ∧
      ∀ (needed : Nat) (source : σ),
        (∀ access ∈ w.movesWith add needed, access.Inside) ∧
        ((∃ drawn, (w.ensureWith add needed source).2.1.cells.toList =
            (if w.movesWith add needed = [] then w.cells.toList else w.resident) ++ drawn) ∧
          (w.ensureWith add needed source).2.1.head =
            if w.movesWith add needed = [] then w.head else 0) ∧
        (∀ access ∈ w.readsWith add needed source, 0 < access.count ∧ access.Inside) ∧
        (w.readsWith add needed source).Pairwise (·.start < ·.start) ∧
        (w.readsWith add needed source).length ≤ needed - w.available ∧
        (w.ensureWith add needed (⟨source, []⟩ : Asked σ)).2.2.limits =
          (w.readsWith add needed source).map Access.count := by
  have grows := reached.grows sums (bounded_made least greatest allocator)
  have bounded := grows.bounded
  refine ⟨⟨bounded, grows.limit⟩, fun w' later => (later.grows sums bounded).capacity, ?_⟩
  intro needed source
  refine ⟨inside_movesWith bounded add needed, cells_ensureWith add w needed source, ?_⟩
  have heard := limits_ensureWith add w needed (⟨source, []⟩ : Asked σ)
  rcases readsWith_cases add w needed source with unread | ⟨⟨lacking, fits⟩, v, granted, same⟩
  · rw [unread] at heard ⊢
    exact ⟨List.forall_mem_nil _, .nil, Nat.zero_le _, heard⟩
  · obtain ⟨grown, room⟩ := bounded.prepare sums (Nat.lt_of_le_of_lt (Nat.zero_le _) lacking) fits
    have kept := available_prepareWith add w needed
    rw [granted] at grown room kept
    obtain ⟨advance, few⟩ := reads_advance grown.bounded.inside (room rfl) source
    rw [same] at heard ⊢
    refine ⟨fun access mem => ?_, advance, kept ▸ few, heard⟩
    exact (inside_reads grown.bounded.inside (room rfl) source access mem).2

/-- Addition in a register of 64 bits. -/
def addInRegister (a b : Nat) : Nat :=
  (a + b) % 2 ^ 64

/-- Three bytes, and no more for the moment. -/
def pouredBytes : Script where
  cues := [.data [1, 2, 3]]
  last := .wouldBlock

/-- Three more bytes, in two pieces. -/
def laterBytes : Script where
  cues := [.data [4], .data [5, 6]]
  last := .wouldBlock

/-- A window that may grow as large as a register can say. -/
def wideWindow : Window :=
  made 1 (2 ^ 64 - 1) (.supplied (fun _ _ => true) fun _ _ => true)

/-- The window once three bytes have come and one is consumed. -/
def pouredWindow : Window :=
  (wideWindow.ensureWith addInRegister 3 pouredBytes).2.1.advance 1

/-- For five bytes the two resident ones are moved and three are read behind them, in two reads. For
as many as a register can count the sum is wrong, and nothing is moved or read. -/
theorem within_storage_pouredWindow :
    ExactInWords addInRegister ∧ Reached Script addInRegister wideWindow pouredWindow ∧
      (pouredWindow.head = 1 ∧ pouredWindow.cells.size = 3 ∧ pouredWindow.capacity = 3) ∧
      pouredWindow.Bounded ∧
      pouredWindow.movesWith addInRegister 5 = [⟨1, 2, 3⟩] ∧
      pouredWindow.readsWith addInRegister 5 laterBytes = [⟨2, 3, 6⟩, ⟨3, 2, 6⟩] ∧
      (pouredWindow.ensureWith addInRegister 5
        (⟨laterBytes, []⟩ : Asked Script)).2.2.limits = [3, 2] ∧
      pouredWindow.movesWith addInRegister (2 ^ 64 - 1) = [] ∧
      pouredWindow.readsWith addInRegister (2 ^ 64 - 1) laterBytes = [] := by
  have sums : ExactInWords addInRegister := fun a b fits => Nat.mod_eq_of_lt fits
  have reached : Reached Script addInRegister wideWindow pouredWindow :=
    .advance 1 (.ensure 3 pouredBytes .start)
  obtain ⟨⟨bounded, -⟩, -, uses⟩ := within_storage sums reached
  obtain ⟨-, -, -, -, -, heard⟩ := uses 5 laterBytes
  have reads : pouredWindow.readsWith addInRegister 5 laterBytes = [⟨2, 3, 6⟩, ⟨3, 2, 6⟩] := by
    decide +kernel
  rw [reads] at heard
  exact ⟨sums, reached, by decide +kernel, bounded, by decide +kernel, reads, heard,
    by decide +kernel, by decide +kernel⟩

end Window

end TagStream
