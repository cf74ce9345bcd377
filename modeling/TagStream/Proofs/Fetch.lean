import TagStream.Proofs.Delivery
import TagStream.Proofs.Demand

/-!
Fetching bytes. However a window obtains its storage, moves its bytes and cuts its reads, all that
shows is that bytes come to stand behind the resident ones (`Window.Drawn`), and these are from the
front of what the source owes (`Window.Fetch`). Hence gathering a tag comes to what the tag demands
of all bytes together (`gather_settles`), unless the source pauses or storage is refused; and it
takes no byte beyond the tag (`available_eq_extent`).
-/

namespace TagStream.Window

variable {σ : Type} [ByteSource σ] {d : Delivery σ}

/-! ### What shows -/

/-- These bytes have come to stand behind the resident ones, and nothing else has happened that
shows. -/
structure Drawn (w w' : Window) (drawn : List UInt8) : Prop where
  inside : w'.head ≤ w'.cells.size
  resident : w'.resident = w.resident ++ drawn
  offset : w'.offset = w.offset
  limit : w'.maxCapacity = w.maxCapacity

theorem Drawn.refl {w : Window} (inside : w.head ≤ w.cells.size) : Drawn w w [] :=
  ⟨inside, (List.append_nil _).symm, rfl, rfl⟩

theorem Drawn.trans {w w₁ w₂ : Window} {drawn drawn' : List UInt8} (first : Drawn w w₁ drawn)
    (second : Drawn w₁ w₂ drawn') : Drawn w w₂ (drawn ++ drawn') where
  inside := second.inside
  resident := by rw [second.resident, first.resident, List.append_assoc]
  offset := second.offset.trans first.offset
  limit := second.limit.trans first.limit

theorem Drawn.available {w w' : Window} {drawn : List UInt8} (h : Drawn w w' drawn) :
    w'.available = w.available + drawn.length := by
  rw [← length_resident, h.resident, List.length_append, length_resident]

theorem drawn_append {w : Window} (inside : w.head ≤ w.cells.size) (bytes : Array UInt8) :
    Drawn w (w.append bytes) bytes.toList where
  inside := by
    simp only [append, Array.size_append]
    omega
  resident := resident_append inside
  offset := rfl
  limit := rfl

/-! ### Making room -/

/-- Obtaining storage changes none of what shows. -/
theorem cells_reserve (w : Window) (needed : Nat) :
    (w.reserve needed).2.cells = w.cells ∧ (w.reserve needed).2.head = w.head ∧
      (w.reserve needed).2.offset = w.offset := by
  have obtained : (w.obtain needed).2.cells = w.cells ∧ (w.obtain needed).2.head = w.head ∧
      (w.obtain needed).2.offset = w.offset := by
    unfold obtain
    split
    · exact ⟨rfl, rfl, rfl⟩
    · simp only
      split <;> exact ⟨rfl, rfl, rfl⟩
  have enlarged (v : Window) : (v.enlarge needed).2.cells = v.cells ∧
      (v.enlarge needed).2.head = v.head ∧ (v.enlarge needed).2.offset = v.offset := by
    unfold enlarge
    split
    · exact ⟨rfl, rfl, rfl⟩
    · simp only
      split <;> exact ⟨rfl, rfl, rfl⟩
  unfold reserve
  split
  · next v h =>
    rw [h] at obtained
    obtain ⟨cells, head, offset⟩ := enlarged v
    exact ⟨cells.trans obtained.1, head.trans obtained.2.1, offset.trans obtained.2.2⟩
  · exact obtained

/-- Storage that is large enough is kept as it is. -/
theorem reserve_of_le {w : Window} {needed : Nat} (pos : 0 < needed)
    (enough : needed ≤ w.capacity) : w.reserve needed = (true, w) := by
  cases storage : w.storage with
  | none =>
    rw [capacity, storage, Option.getD_none] at enough
    omega
  | some size => simp only [reserve, obtain, storage, enlarge, if_pos enough]

theorem le_capacity_of_enlarge {w : Window} {needed : Nat} (fits : needed ≤ w.maxCapacity) :
    (w.enlarge needed).1 = true → needed ≤ (w.enlarge needed).2.capacity := by
  unfold enlarge
  split
  · next enough => exact fun _ => enough
  · have enough : needed ≤ min (max (w.capacity * 2) needed) w.maxCapacity := by omega
    simp only
    split
    · exact fun _ => enough
    · intro h
      cases h

/-- Storage that is granted is large enough. -/
theorem le_capacity_of_reserve {w : Window} {needed : Nat} (fits : needed ≤ w.maxCapacity)
    (granted : (w.reserve needed).1 = true) : needed ≤ (w.reserve needed).2.capacity := by
  have kept := w.maxCapacity_obtain needed
  unfold reserve at granted ⊢
  generalize w.obtain needed = given at granted kept ⊢
  obtain ⟨obtained, v⟩ := given
  cases obtained with
  | true => exact le_capacity_of_enlarge (kept.symm ▸ fits) granted
  | false => cases granted

/-- Making room moves the resident bytes to the front, where it moves them. -/
theorem cells_prepareWith (add : Nat → Nat → Nat) (w : Window) (needed : Nat) :
    (w.prepareWith add needed).2.cells.toList =
        (if w.capacity < add w.head needed ∧ w.head ≠ 0 then w.resident else w.cells.toList) ∧
      (w.prepareWith add needed).2.head =
        if w.capacity < add w.head needed ∧ w.head ≠ 0 then 0 else w.head := by
  unfold prepareWith
  obtain ⟨cells, head, -⟩ :=
    cells_reserve (if w.capacity < add w.head needed then w.compact else w) needed
  rw [cells, head]
  by_cases scarce : w.capacity < add w.head needed
  · by_cases front : w.head = 0
    · have still : w.compact = w := if_pos front
      simp [front, still]
    · have moved : w.compact.head = 0 := by rw [compact, if_neg front]
      have resident := resident_compact w
      rw [Window.resident, moved, List.drop_zero] at resident
      simp [scarce, front, moved, resident]
  · simp [scarce]

theorem resident_prepareWith (add : Nat → Nat → Nat) (w : Window) (needed : Nat) :
    (w.prepareWith add needed).2.resident = w.resident := by
  obtain ⟨cells, head⟩ := cells_prepareWith add w needed
  rw [resident, cells, head]
  by_cases moved : w.capacity < add w.head needed ∧ w.head ≠ 0
  · rw [if_pos moved, if_pos moved, List.drop_zero]
  · rw [if_neg moved, if_neg moved, resident]

theorem available_prepareWith (add : Nat → Nat → Nat) (w : Window) (needed : Nat) :
    (w.prepareWith add needed).2.available = w.available := by
  rw [← length_resident, resident_prepareWith, length_resident]

theorem offset_prepareWith (add : Nat → Nat → Nat) (w : Window) (needed : Nat) :
    (w.prepareWith add needed).2.offset = w.offset := by
  rw [prepareWith, (cells_reserve _ needed).2.2]
  split
  · unfold compact
    split <;> rfl
  · rfl

/-- Making room draws nothing. -/
theorem drawn_prepareWith (add : Nat → Nat → Nat) {w : Window} (inside : w.head ≤ w.cells.size)
    (needed : Nat) : Drawn w (w.prepareWith add needed).2 [] where
  inside := by
    obtain ⟨cells, head⟩ := cells_prepareWith add w needed
    rw [head, ← Array.length_toList, cells]
    split
    · exact Nat.zero_le _
    · exact inside
  resident := by rw [resident_prepareWith, List.append_nil]
  offset := offset_prepareWith add w needed
  limit := maxCapacity_prepareWith add w needed

/-! ### Reading -/

/-- Bytes have moved from the source to the end of the window, and nothing else has happened that
shows. -/
structure Fetch (d : Delivery σ) (w : Window) (source : σ) (w' : Window) (source' : σ) : Prop where
  inside : w'.head ≤ w'.cells.size
  sound : d.sound source'
  bytes : w'.resident ++ d.left source' = w.resident ++ d.left source
  offset : w'.offset = w.offset
  limit : w'.maxCapacity = w.maxCapacity
  grows : w.available ≤ w'.available

theorem Fetch.refl {w : Window} {source : σ} (inside : w.head ≤ w.cells.size)
    (sound : d.sound source) : Fetch d w source w source :=
  ⟨inside, sound, rfl, rfl, rfl, Nat.le_refl _⟩

theorem Fetch.trans {w w₁ w₂ : Window} {source source₁ source₂ : σ}
    (first : Fetch d w source w₁ source₁) (second : Fetch d w₁ source₁ w₂ source₂) :
    Fetch d w source w₂ source₂ where
  inside := second.inside
  sound := second.sound
  bytes := second.bytes.trans first.bytes
  offset := second.offset.trans first.offset
  limit := second.limit.trans first.limit
  grows := Nat.le_trans first.grows second.grows

/-- Bytes that are drawn from the front of what a source owes have moved. -/
theorem Drawn.fetch {w w' : Window} {source source' : σ} {drawn : List UInt8} (h : Drawn w w' drawn)
    (sound : d.sound source') (split : d.left source = drawn ++ d.left source') :
    Fetch d w source w' source' where
  inside := h.inside
  sound := sound
  bytes := by rw [h.resident, split, List.append_assoc]
  offset := h.offset
  limit := h.limit
  grows := by
    rw [h.available]
    exact Nat.le_add_right _ _

/-- A delivery moves its bytes into the window. -/
theorem fetch_append {w : Window} {source source' : σ} {bytes : Array UInt8} {limit : Nat}
    (inside : w.head ≤ w.cells.size) (sound : d.sound source) (asked : 0 < limit)
    (delivered : ByteSource.read source limit = (.data bytes, source')) :
    Fetch d w source (w.append bytes) source' ∧ bytes.size ≤ limit := by
  obtain ⟨sound', few, split⟩ := d.accounts sound asked delivered
  exact ⟨(drawn_append inside bytes).fetch sound' split, few⟩

/-- What filling comes to: the bytes are there, or too few are left, or the source pauses. -/
theorem fetch_fill {w w' : Window} {needed : Nat} {source source' : σ} {why : Option Shortfall}
    (inside : w.head ≤ w.cells.size) (sound : d.sound source) (lacking : w.available ≤ needed)
    (h : w.fill needed source = (why, w', source')) :
    Fetch d w source w' source' ∧
      (why = none ∧ w'.available = needed ∨
        w'.available < needed ∧
          (why = some .wouldBlock ∨ why = some .endOfData ∧ d.left source' = [])) := by
  fun_induction fill w needed source with
  | case1 w source few bytes source₁ delivered empty =>
    cases h
    obtain ⟨sound', -, split⟩ := d.accounts sound (Nat.sub_pos_of_lt few) delivered
    rw [Array.eq_empty_of_size_eq_zero empty] at split
    exact ⟨⟨inside, sound', by rw [split]; rfl, rfl, rfl, Nat.le_refl _⟩, .inr ⟨few, .inl rfl⟩⟩
  | case2 w source few bytes source₁ delivered nonempty ih =>
    obtain ⟨moved, size⟩ := fetch_append (w := w) inside sound (Nat.sub_pos_of_lt few) delivered
    have room : (w.append bytes).available ≤ needed := by
      simp only [available, append, Array.size_append] at few size ⊢; omega
    obtain ⟨moved', result⟩ := ih moved.inside moved.sound room h
    exact ⟨moved.trans moved', result⟩
  | case3 w source few source₁ answered =>
    cases h
    obtain ⟨sound', before, after⟩ := d.accounts sound (Nat.sub_pos_of_lt few) answered
    exact ⟨⟨inside, sound', by rw [before, after], rfl, rfl, Nat.le_refl _⟩,
      .inr ⟨few, .inr ⟨rfl, after⟩⟩⟩
  | case4 w source few source₁ answered =>
    cases h
    obtain ⟨sound', same⟩ := d.accounts sound (Nat.sub_pos_of_lt few) answered
    exact ⟨⟨inside, sound', congrArg _ same, rfl, rfl, Nat.le_refl _⟩, .inr ⟨few, .inl rfl⟩⟩
  | case5 w source few source₁ answered =>
    exact (d.accounts sound (Nat.sub_pos_of_lt few) answered).2.elim
  | case6 w source enough =>
    cases h
    exact ⟨.refl inside sound, .inl ⟨rfl, by omega⟩⟩

/-- What ensuring comes to, for bytes that are not yet resident. -/
theorem fetch_ensure {w w' : Window} {needed : Nat} {source source' : σ} {why : Option Shortfall}
    (inside : w.head ≤ w.cells.size) (sound : d.sound source) (lacking : w.available < needed)
    (h : w.ensure needed source = (why, w', source')) :
    Fetch d w source w' source' ∧
      (why = some .allocationFailed ∧ w'.available = w.available ∨
        w.maxCapacity < needed ∧ why = some .exceedsLimit ∧ w'.available = w.available ∨
        needed ≤ w.maxCapacity ∧
          (why = none ∧ w'.available = needed ∨
            w'.available < needed ∧
              (why = some .wouldBlock ∨ why = some .endOfData ∧ d.left source' = []))) := by
  have room := drawn_prepareWith (· + ·) inside needed
  have reserved : Fetch d w source _ source := room.fetch sound rfl
  have held := available_prepareWith (· + ·) w needed
  cases ensured_of_ensure h with
  | resident enough => exact absurd enough (Nat.not_le.mpr lacking)
  | exceeds _ exceeds => exact ⟨.refl inside sound, .inr (.inl ⟨exceeds, rfl, rfl⟩)⟩
  | filled _ fits granted filled =>
    rw [granted] at reserved held
    obtain ⟨moved, result⟩ := fetch_fill reserved.inside reserved.sound
      (Nat.le_trans (Nat.le_of_eq held) (Nat.le_of_lt lacking)) filled
    exact ⟨reserved.trans moved, .inr (.inr ⟨fits, result⟩)⟩
  | refused _ _ refused =>
    rw [refused] at reserved held
    exact ⟨reserved, .inl ⟨rfl, held⟩⟩

/-! ### Gathering -/

/-- What is resident is the front of all bytes. -/
theorem take_available (w : Window) (left : List UInt8) :
    (w.resident ++ left).take w.available = w.resident := by
  rw [← w.length_resident, List.take_left]

/-- What is resident stays in front. -/
theorem Fetch.resident_prefix {w w' : Window} {source source' : σ}
    (h : Fetch d w source w' source') : w.resident <+: w'.resident := by
  refine List.prefix_of_prefix_length_le ⟨_, rfl⟩ ⟨_, h.bytes⟩ ?_
  rw [length_resident, length_resident]
  exact h.grows

/-- A demand that is not met stays. -/
theorem Fetch.demand_await {w w' : Window} {source source' : σ} (h : Fetch d w source w' source')
    {schema : Schema} {needed : Nat} {part : Part} (demanded : w.demand schema = .await needed part)
    (few : w'.available < needed) : w'.demand schema = .await needed part := by
  obtain ⟨more, split⟩ := h.resident_prefix
  rw [demand_eq_demandOf] at demanded ⊢
  rw [← length_resident, ← split] at few
  rw [h.limit, ← split]
  exact Schema.demandOf_await_append demanded more few

/-- What gathering a tag comes to, with `bytes` to come in all and the first `seen` of them there
from the beginning. The tag is settled as by all bytes together, and this rests on what is resident
then; or a demand is left that is not met, because all bytes together cannot meet it, the source
pauses or storage is refused. -/
def Gathered (schema : Schema) (limit : Nat) (bytes : List UInt8) (seen : Nat) (w' : Window) :
    Except Lack Verdict → Prop
  | .ok verdict =>
    schema.settle limit bytes seen = .ok verdict ∧ w'.demand schema = .settled verdict
  | .error lack =>
    (∃ needed, w'.demand schema = .await needed lack.part) ∧
      (lack.why = .wouldBlock ∨ lack.why = .allocationFailed ∨
        schema.settle limit bytes seen = .error lack)

theorem gather_settles {w w' : Window} {schema : Schema} {source source' : σ}
    {settled : Except Lack Verdict} (inside : w.head ≤ w.cells.size) (sound : d.sound source)
    (within : w.available ≤ w.maxCapacity) (h : w.gather schema source = (settled, w', source')) :
    Fetch d w source w' source' ∧ w'.available ≤ w.maxCapacity ∧
      Gathered schema w.maxCapacity (w.resident ++ d.left source) w.available w' settled := by
  fun_induction Window.gather w schema source with
  | case1 w source verdict demanded =>
    cases h
    have front := demanded
    rw [demand_eq_demandOf, ← take_available w' (d.left source')] at front
    exact ⟨.refl inside sound, within, Schema.settle_of_settled front, demanded⟩
  | case2 w source needed part demanded w₁ source₁ ensured ih =>
    have lacking := w.available_lt_of_demand demanded
    obtain ⟨moved, result⟩ := fetch_ensure inside sound lacking ensured
    obtain ⟨fits, held⟩ : needed ≤ w.maxCapacity ∧ w₁.available = needed := by simp_all
    obtain ⟨moved', later⟩ := ih moved.inside moved.sound (by rw [moved.limit, held]; exact fits) h
    rw [moved.limit, moved.bytes, held] at later
    rw [demand_eq_demandOf, ← take_available w (d.left source)] at demanded
    have enough : needed ≤ (w.resident ++ d.left source).length := by
      rw [← moved.bytes, List.length_append, length_resident]
      omega
    have next : schema.settle w.maxCapacity (w.resident ++ d.left source) w.available =
        schema.settle w.maxCapacity (w.resident ++ d.left source) needed := by
      rw [Schema.settle_of_await demanded, if_neg (by omega), if_neg (by omega)]
    refine ⟨moved.trans moved', later.1, ?_⟩
    unfold Gathered
    rw [next]
    exact later.2
  | case3 w source needed part demanded why w₁ source₁ ensured =>
    cases h
    have lacking := w.available_lt_of_demand demanded
    obtain ⟨moved, result⟩ := fetch_ensure inside sound lacking ensured
    have front := demanded
    rw [demand_eq_demandOf, ← take_available w (d.left source)] at front
    have all : w'.available + (d.left source').length = (w.resident ++ d.left source).length := by
      rw [← moved.bytes, List.length_append, length_resident]
    rcases result with ⟨stopped, same⟩ | ⟨exceeds, stopped, same⟩ | ⟨fits, ⟨met, -⟩ | ⟨few, ended⟩⟩
    · cases stopped
      rw [← same] at lacking within
      exact ⟨moved, within, ⟨needed, moved.demand_await demanded lacking⟩, .inr (.inl rfl)⟩
    · cases stopped
      rw [← same] at lacking within
      refine ⟨moved, within, ⟨needed, moved.demand_await demanded lacking⟩, .inr (.inr ?_)⟩
      rw [Schema.settle_of_await front, if_pos exceeds]
    · cases met
    · refine ⟨moved, by omega, ⟨needed, moved.demand_await demanded few⟩, ?_⟩
      rcases ended with paused | ⟨stopped, empty⟩
      · cases paused
        exact .inl rfl
      · cases stopped
        rw [empty, List.length_nil] at all
        refine .inr (.inr ?_)
        rw [Schema.settle_of_await front, if_neg (by omega), if_pos (by omega)]

/-- A tag that is settled by what is resident needs no reading. -/
theorem gather_of_settled {w : Window} {schema : Schema} {source : σ} {verdict : Verdict}
    (demanded : w.demand schema = .settled verdict) :
    w.gather schema source = (.ok verdict, w, source) := by
  unfold Window.gather
  split
  · next settled =>
    rw [demanded] at settled
    cases settled
    rfl
  · next awaits =>
    rw [demanded] at awaits
    cases awaits

/-- What a demand that is not settled comes to. -/
theorem gather_of_await {w : Window} {schema : Schema} {source : σ} {needed : Nat} {part : Part}
    (demanded : w.demand schema = .await needed part) :
    w.gather schema source =
      match w.ensure needed source with
      | (none, w', source') => w'.gather schema source'
      | (some why, w', source') => (.error ⟨why, part⟩, w', source') := by
  rw [Window.gather]
  split
  · next settled =>
    rw [demanded] at settled
    cases settled
  · next awaits =>
    rw [demanded] at awaits
    cases awaits
    split <;> simp_all

/-- A tag is settled by what the window then holds. -/
theorem demand_of_gather {w w' : Window} {schema : Schema} {source source' : σ}
    {verdict : Verdict} (h : w.gather schema source = (.ok verdict, w', source')) :
    w'.demand schema = .settled verdict := by
  fun_induction gather w schema source with
  | case1 w source verdict' demanded =>
    cases h
    exact demanded
  | case2 w source needed part demanded w₁ source₁ ensured ih => exact ih h
  | case3 => simp at h

theorem settled_of_gather {w w' : Window} {schema : Schema} {source source' : σ}
    {settled : Except Lack Verdict} (h : w.gather schema source = (settled, w', source')) :
    ∀ verdict, settled = .ok verdict → w'.demand schema = .settled verdict := by
  rintro verdict rfl
  exact demand_of_gather h

/-- Where the demand that was met last has settled the tag, no more is resident than the tag: it
never demands more than it has, and what is there is no less. -/
theorem eq_extent_of_met {w w' : Window} {schema : Schema} {part : Part} {verdict : Verdict}
    (demanded : w.demand schema = .await w'.available part)
    (limit : w'.maxCapacity = w.maxCapacity) (grown : w.resident <+: w'.resident)
    (settled : w'.demand schema = .settled verdict)
    (accepted : ∀ fault, verdict ≠ .refuse fault) : w'.available = verdict.extent := by
  rw [demand_eq_demandOf] at demanded settled
  rw [limit] at settled
  have least := Schema.le_extent_of_await demanded grown settled accepted
  have enough := Schema.extent_le_length settled
  rw [length_resident] at enough
  omega

/-- Nothing beyond the tag is gathered: a window that awaits bytes ends up with those of the tag
that it can enter or read. -/
theorem available_eq_extent {w w' : Window} {schema : Schema} {source source' : σ} {needed : Nat}
    {part : Part} {verdict : Verdict} (inside : w.head ≤ w.cells.size) (sound : d.sound source)
    (awaits : w.demand schema = .await needed part)
    (h : w.gather schema source = (.ok verdict, w', source'))
    (accepted : ∀ fault, verdict ≠ .refuse fault) : w'.available = verdict.extent := by
  fun_induction Window.gather w schema source generalizing needed part with
  | case1 w source verdict' demanded =>
    rw [awaits] at demanded
    cases demanded
  | case2 w source needed' part' demanded w₁ source₁ ensured ih =>
    have lacking := w.available_lt_of_demand demanded
    obtain ⟨moved, result⟩ := fetch_ensure inside sound lacking ensured
    obtain ⟨-, held⟩ : needed' ≤ w.maxCapacity ∧ w₁.available = needed' := by simp_all
    cases demanded' : w₁.demand schema with
    | await needed'' part'' => exact ih moved.inside moved.sound demanded' h
    | settled verdict' =>
      rw [gather_of_settled demanded'] at h
      cases h
      rw [← held] at demanded
      exact eq_extent_of_met demanded moved.limit moved.resident_prefix demanded' accepted
  | case3 w source needed' part' demanded why w₁ source₁ ensured => simp at h

/-- A window in which a tag is awaited: it holds fewer bytes than the tag demands. -/
structure Awaits (w : Window) (schema : Schema) : Prop where
  inside : w.head ≤ w.cells.size
  within : w.available ≤ w.maxCapacity
  demands : ∃ needed part, w.demand schema = .await needed part

/-- A drained window awaits the first byte of a tag. -/
theorem awaits_of_drained {w : Window} {schema : Schema} (inside : w.head ≤ w.cells.size)
    (drained : w.available = 0) : w.Awaits schema := by
  refine ⟨inside, by omega, 1, .start, ?_⟩
  rw [← length_resident, List.length_eq_zero_iff] at drained
  rw [demand_eq_demandOf, drained]
  rfl

/-- Gathering, for a window in which a tag is awaited. -/
theorem Awaits.gather {w w' : Window} {schema : Schema} {source source' : σ}
    {settled : Except Lack Verdict} (awaits : w.Awaits schema) (sound : d.sound source)
    (h : w.gather schema source = (settled, w', source')) :
    Fetch d w source w' source' ∧ w'.available ≤ w'.maxCapacity ∧
      Gathered schema w.maxCapacity (w.resident ++ d.left source) 0 w' settled ∧
      ∀ verdict, settled = .ok verdict → (∀ fault, verdict ≠ .refuse fault) →
        w'.available = verdict.extent := by
  obtain ⟨inside, within, needed, part, demanded⟩ := awaits
  obtain ⟨moved, within', result⟩ := gather_settles inside sound within h
  have front := demanded
  rw [demand_eq_demandOf, ← take_available w (d.left source)] at front
  have start := Schema.settle_eq_of_le front
    (by rw [List.length_append, length_resident]; omega) within (Nat.zero_le _)
  refine ⟨moved, by rw [moved.limit]; exact within', ?_, ?_⟩
  · unfold Gathered
    rw [start]
    exact result
  · rintro verdict rfl
    exact available_eq_extent inside sound demanded h

end TagStream.Window
