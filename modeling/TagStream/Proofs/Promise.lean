import TagStream.Proofs.Hearing

/-!
Promises. A source may be known to have some bytes to deliver next, and nothing be known of what
comes after them: in which pieces they come, how often the source pauses, and whether it then ends,
fails or goes on is left open. As long as a window asks for no byte behind those promised, it gets
them, or the source pauses (`Promise.ensure`); so a tag all of whose demands are promised is settled
in the end (`Promise.Stands.gather`). Every `Delivery` promises what is left of it.
-/

namespace TagStream

/-- A reading of the states of a source as bytes that they will deliver next. While no more than
these are asked for, a read takes some off the front, or pauses. -/
structure Promise (σ : Type) [ByteSource σ] where
  owes : σ → List UInt8 → Prop
  read_accounts : ∀ {source : σ} {bytes : List UInt8} {limit : Nat}, owes source bytes →
    0 < limit → limit ≤ bytes.length →
    ∃ left, (ByteSource.read source limit).1.Accounts limit bytes left ∧
      owes (ByteSource.read source limit).2 left

/-- A change of a source that breaks no promise. -/
def Promise.Keeps {σ : Type} [ByteSource σ] (p : Promise σ) (source source' : σ) : Prop :=
  ∀ bytes, p.owes source bytes → p.owes source' bytes

/-- What is left to be delivered is promised. -/
def Delivery.promise {σ : Type} [ByteSource σ] (d : Delivery σ) : Promise σ where
  owes source bytes := d.sound source ∧ d.left source = bytes
  read_accounts := by
    rintro source bytes limit ⟨sound, rfl⟩ asked -
    obtain ⟨sound', accounts⟩ := d.read_accounts sound asked
    exact ⟨_, accounts, sound', rfl⟩

theorem Delivery.Keeps.promise {σ : Type} [ByteSource σ] {d : Delivery σ} {source source' : σ}
    (keeps : d.Keeps source source') : d.promise.Keeps source source' := by
  rintro bytes ⟨sound, rfl⟩
  exact keeps sound

namespace Promise

open Window (Drawn drawn_append drawn_prepareWith)

variable {σ : Type} [ByteSource σ] {p : Promise σ}

/-- The account of a read whose answer is known. -/
theorem accounts {source source' : σ} {bytes : List UInt8} {limit : Nat} {answer : Answer}
    (owes : p.owes source bytes) (asked : 0 < limit) (within : limit ≤ bytes.length)
    (answered : ByteSource.read source limit = (answer, source')) :
    ∃ left, answer.Accounts limit bytes left ∧ p.owes source' left := by
  have accounts := p.read_accounts owes asked within
  rw [answered] at accounts
  exact accounts

/-- These bytes have moved from the front of those promised to the window. -/
structure Moved (p : Promise σ) (w : Window) (owed : List UInt8) (w' : Window) (source' : σ)
    (drawn left : List UInt8) : Prop where
  split : owed = drawn ++ left
  drawn : Drawn w w' drawn
  owes : p.owes source' left

theorem Moved.refl {w : Window} {source : σ} {owed : List UInt8} (inside : w.head ≤ w.cells.size)
    (owes : p.owes source owed) : Moved p w owed w source [] owed :=
  ⟨rfl, .refl inside, owes⟩

theorem Moved.trans {w w₁ w₂ : Window} {source₁ source₂ : σ}
    {owed drawn left drawn' left' : List UInt8} (first : Moved p w owed w₁ source₁ drawn left)
    (second : Moved p w₁ left w₂ source₂ drawn' left') :
    Moved p w owed w₂ source₂ (drawn ++ drawn') left' where
  split := by rw [first.split, second.split, List.append_assoc]
  drawn := first.drawn.trans second.drawn
  owes := second.owes

/-- All bytes together stay the same. -/
theorem Moved.bytes {w w' : Window} {source' : σ} {owed drawn left : List UInt8}
    (moved : Moved p w owed w' source' drawn left) :
    w'.resident ++ left = w.resident ++ owed := by
  rw [moved.drawn.resident, moved.split, List.append_assoc]

/-- Filling with bytes that are promised succeeds, unless the source pauses. -/
theorem fill {w w' : Window} {needed : Nat} {source source' : σ} {owed : List UInt8}
    {why : Option Shortfall} (inside : w.head ≤ w.cells.size) (owes : p.owes source owed)
    (lacking : w.available ≤ needed) (covers : needed ≤ w.available + owed.length)
    (h : w.fill needed source = (why, w', source')) :
    ∃ drawn left, Moved p w owed w' source' drawn left ∧
      (why = none ∧ w'.available = needed ∨ why = some .wouldBlock ∧ w'.available < needed) := by
  fun_induction Window.fill w needed source generalizing owed with
  | case1 w source few bytes source₁ delivered empty =>
    cases h
    obtain ⟨left, ⟨-, split⟩, owes'⟩ :=
      accounts owes (Nat.sub_pos_of_lt few) (by omega) delivered
    rw [Array.eq_empty_of_size_eq_zero empty] at split
    obtain rfl : owed = left := split
    exact ⟨[], owed, .refl inside owes', .inr ⟨rfl, few⟩⟩
  | case2 w source few bytes source₁ delivered nonempty ih =>
    obtain ⟨left, ⟨size, rfl⟩, owes'⟩ :=
      accounts owes (Nat.sub_pos_of_lt few) (by omega) delivered
    have appended := drawn_append inside bytes
    have first : Moved p w (bytes.toList ++ left) (w.append bytes) source₁ bytes.toList left :=
      ⟨rfl, appended, owes'⟩
    have held := appended.available
    rw [List.length_append, Array.length_toList] at covers
    rw [Array.length_toList] at held
    obtain ⟨drawn, left', moved, result⟩ :=
      ih appended.inside owes' (by omega) (by omega) h
    exact ⟨_, left', first.trans moved, result⟩
  | case3 w source few source₁ answered =>
    obtain ⟨left, ⟨empty, -⟩, -⟩ := accounts owes (Nat.sub_pos_of_lt few) (by omega) answered
    rw [empty, List.length_nil] at covers
    omega
  | case4 w source few source₁ answered =>
    cases h
    obtain ⟨left, same, owes'⟩ := accounts owes (Nat.sub_pos_of_lt few) (by omega) answered
    obtain rfl : left = owed := same
    exact ⟨[], left, .refl inside owes', .inr ⟨rfl, few⟩⟩
  | case5 w source few source₁ answered =>
    obtain ⟨left, ⟨⟩, -⟩ := accounts owes (Nat.sub_pos_of_lt few) (by omega) answered
  | case6 w source enough =>
    cases h
    exact ⟨[], owed, .refl inside owes, .inl ⟨rfl, by omega⟩⟩

/-- What ensuring bytes that are promised comes to. -/
theorem ensure {w w' : Window} {needed : Nat} {source source' : σ} {owed : List UInt8}
    {why : Option Shortfall} (inside : w.head ≤ w.cells.size) (owes : p.owes source owed)
    (lacking : w.available < needed) (covers : needed ≤ w.available + owed.length)
    (h : w.ensure needed source = (why, w', source')) :
    ∃ drawn left, Moved p w owed w' source' drawn left ∧
      (needed ≤ w.maxCapacity ∧
          (why = none ∧ w'.available = needed ∨ why = some .wouldBlock ∧ w'.available < needed) ∨
        w'.available = w.available ∧
          (why = some .allocationFailed ∨ why = some .exceedsLimit ∧ w.maxCapacity < needed)) := by
  have room := drawn_prepareWith (· + ·) inside needed
  have held := room.available
  cases Window.ensured_of_ensure h with
  | resident enough => exact absurd enough (Nat.not_le.mpr lacking)
  | exceeds _ exceeds => exact ⟨[], owed, .refl inside owes, .inr ⟨rfl, .inr ⟨rfl, exceeds⟩⟩⟩
  | @filled u _ _ fits granted filled =>
    rw [granted] at room held
    have reserved : Moved p w owed u source [] owed := ⟨rfl, room, owes⟩
    obtain ⟨drawn, left, moved, result⟩ :=
      fill room.inside owes (held ▸ Nat.le_of_lt lacking) (held ▸ covers) filled
    exact ⟨drawn, left, reserved.trans moved, .inl ⟨fits, result⟩⟩
  | refused _ _ refused =>
    rw [refused] at room held
    exact ⟨[], owed, ⟨rfl, room, owes⟩, .inr ⟨held, .inl rfl⟩⟩

/-- The tag at the front of these bytes demands none of those from `bound` on. -/
structure EndsAt (schema : Schema) (limit : Nat) (bytes : List UInt8) (bound : Nat) : Prop where
  covers : bound ≤ bytes.length
  bounded : ∀ {front : List UInt8} {needed : Nat} {part : Part}, front <+: bytes →
    schema.demandOf limit front = .await needed part → needed ≤ bound

/-- What is resident, up to `bound`, and what is promised behind it are these bytes. -/
structure Stands (p : Promise σ) (limit : Nat) (bytes : List UInt8) (bound : Nat) (w : Window)
    (source : σ) : Prop where
  inside : w.head ≤ w.cells.size
  capped : w.maxCapacity = limit
  within : w.available ≤ limit
  few : w.available ≤ bound
  owes : ∃ left, w.resident ++ left = bytes ∧ p.owes source left

theorem Stands.keeps {limit bound : Nat} {bytes : List UInt8} {w : Window} {source source' : σ}
    (stands : p.Stands limit bytes bound w source) (keeps : p.Keeps source source') :
    p.Stands limit bytes bound w source' := by
  obtain ⟨left, split, owes⟩ := stands.owes
  exact ⟨stands.inside, stands.capped, stands.within, stands.few, left, split, keeps left owes⟩

/-- What meeting a demand of the tag comes to. -/
theorem Stands.ensure {limit bound needed : Nat} {bytes : List UInt8} {w w' : Window}
    {schema : Schema} {part : Part} {source source' : σ} {why : Option Shortfall}
    (ends : EndsAt schema limit bytes bound) (stands : p.Stands limit bytes bound w source)
    (demanded : w.demand schema = .await needed part)
    (h : w.ensure needed source = (why, w', source')) :
    ∃ drawn, Drawn w w' drawn ∧ p.Stands limit bytes bound w' source' ∧
      (why = none ∨ w'.available < needed ∧ (why = some .wouldBlock ∨
        why = some .allocationFailed ∨ why = some .exceedsLimit ∧ limit < needed)) := by
  obtain ⟨owed, rfl, owes⟩ := stands.owes
  have lacking := w.available_lt_of_demand demanded
  rw [Window.demand_eq_demandOf, stands.capped] at demanded
  have least := ends.bounded ⟨owed, rfl⟩ demanded
  have covers := ends.covers
  rw [List.length_append, Window.length_resident] at covers
  obtain ⟨drawn, left, moved, result⟩ :=
    Promise.ensure stands.inside owes lacking (Nat.le_trans least covers) h
  rw [stands.capped] at result
  have few : w'.available ≤ needed ∧ w'.available ≤ limit := by
    have within := stands.within
    omega
  refine ⟨drawn, moved.drawn, ⟨moved.drawn.inside, moved.drawn.limit.trans stands.capped, few.2,
    Nat.le_trans few.1 least, left, moved.bytes, moved.owes⟩, ?_⟩
  rcases result with ⟨-, ⟨met, -⟩ | ⟨paused, short⟩⟩ | ⟨same, refused⟩
  · exact .inl met
  · exact .inr ⟨short, .inl paused⟩
  · exact .inr ⟨same ▸ lacking, .inr refused⟩

/-- What gathering a tag comes to, all of whose demands are promised: it is settled, unless the
source pauses, storage is refused, or more is demanded than the limit. -/
theorem Stands.gather {limit bound : Nat} {bytes : List UInt8} {w w' : Window} {schema : Schema}
    {source source' : σ} {settled : Except Lack Verdict} (ends : EndsAt schema limit bytes bound)
    (stands : p.Stands limit bytes bound w source)
    (h : w.gather schema source = (settled, w', source')) :
    ∃ drawn, Drawn w w' drawn ∧ p.Stands limit bytes bound w' source' ∧
      ∀ lack, settled = .error lack →
        lack.why = .wouldBlock ∨ lack.why = .allocationFailed ∨
          lack.why = .exceedsLimit ∧ ∃ needed, limit < needed ∧
            schema.demandOf limit w'.resident = .await needed lack.part := by
  fun_induction Window.gather w schema source with
  | case1 w source verdict demanded =>
    cases h
    exact ⟨[], .refl stands.inside, stands, by intro lack h; cases h⟩
  | case2 w source needed part demanded w₁ source₁ ensured ih =>
    obtain ⟨drawn, moved, stands', -⟩ := stands.ensure ends demanded ensured
    obtain ⟨drawn', moved', result⟩ := ih stands' h
    exact ⟨_, moved.trans moved', result⟩
  | case3 w source needed part demanded why w₁ source₁ ensured =>
    cases h
    obtain ⟨drawn, moved, stands', result⟩ := stands.ensure ends demanded ensured
    refine ⟨drawn, moved, stands', ?_⟩
    rintro lack ⟨⟩
    rcases result with met | ⟨few, paused | refused | ⟨exceeds, beyond⟩⟩
    · cases met
    · exact .inl (Option.some.inj paused)
    · exact .inr (.inl (Option.some.inj refused))
    · refine .inr (.inr ⟨Option.some.inj exceeds, needed, beyond, ?_⟩)
      -- The demand that was not met is still there, for the bytes that have arrived.
      rw [Window.demand_eq_demandOf, stands.capped] at demanded
      rw [moved.resident]
      apply Schema.demandOf_await_append demanded
      rw [← moved.resident, Window.length_resident]
      exact few

end Promise

end TagStream
