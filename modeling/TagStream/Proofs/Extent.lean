import TagStream.Proofs.Turn

/-!
Containers of known size. Tags are read one behind the other (`Run.inOrder`), so a container that
declares its length is complete once a tag has been read that stops where it ends; and containers
that are complete are closed before anything else is read (`Run.closes_complete`). Hence a container
inside which none ends behind it, and none of unknown size is left open, is closed before a tag is
given that begins where it ends (`closes_at_extent`). One of unknown size that is left open keeps it
from being closed (`not_closesAtExtents_openCluster`).
-/

namespace TagStream

/-! ### What is open -/

/-- The container `k` is still open, with others inside it that were open before or have been
opened, or it was closed as the innermost one. -/
theorem open_or_closed_inside {inner outer unclosed : List (ElementId × Position)}
    {k : ElementId × Position} {emissions : List Emission}
    (matched : nest (inner ++ k :: outer) emissions = some unclosed) :
    (∃ inner', unclosed = inner' ++ k :: outer ∧
      ∀ u ∈ inner', u ∈ inner ∨ ∃ m ∈ emissions, m.isOpening = true ∧ m.element = u) ∨
    ∃ ended e more, emissions = ended ++ e :: more ∧ e.isClosing = true ∧ e.element = k ∧
      nest (inner ++ k :: outer) ended = some (k :: outer) := by
  induction emissions generalizing inner with
  | nil =>
    cases matched
    exact .inl ⟨inner, rfl, fun u mem => .inl mem⟩
  | cons e later ih =>
    rw [nest_cons] at matched
    obtain ⟨unclosed₁, first, rest⟩ := Option.bind_eq_some_iff.mp matched
    -- What is found in the later tags is found in all of them.
    have onward (inner₁ : List (ElementId × Position))
        (first : nestTag (inner ++ k :: outer) e = some (inner₁ ++ k :: outer))
        (source : ∀ u ∈ inner₁, u ∈ inner ∨ e.isOpening = true ∧ e.element = u)
        (rest : nest (inner₁ ++ k :: outer) later = some unclosed) :
        (∃ inner', unclosed = inner' ++ k :: outer ∧ ∀ u ∈ inner',
          u ∈ inner ∨ ∃ m ∈ e :: later, m.isOpening = true ∧ m.element = u) ∨
        ∃ ended e' more, e :: later = ended ++ e' :: more ∧ e'.isClosing = true ∧
          e'.element = k ∧ nest (inner ++ k :: outer) ended = some (k :: outer) := by
      rcases ih rest with ⟨inner', rfl, opened⟩ | ⟨ended, e', more, rfl, closes, same, ended'⟩
      · refine .inl ⟨inner', rfl, ?_⟩
        intro u mem
        rcases opened u mem with mem | ⟨m, mem, opening⟩
        · rcases source u mem with mem | opening
          · exact .inl mem
          · exact .inr ⟨e, List.mem_cons_self, opening⟩
        · exact .inr ⟨m, List.mem_cons_of_mem _ mem, opening⟩
      · refine .inr ⟨e :: ended, e', more, rfl, closes, same, ?_⟩
        rw [nest_cons, first]
        exact ended'
    rcases cases_of_nestTag first with ⟨opening, -, rfl⟩ | ⟨-, closes, popped⟩ | ⟨-, -, rfl⟩
    · refine onward (e.element :: inner) first ?_ rest
      intro u mem
      rcases List.mem_cons.mp mem with rfl | mem
      · exact .inr ⟨opening, rfl⟩
      · exact .inl mem
    · cases inner with
      | nil =>
        obtain ⟨same, -⟩ := List.cons.inj popped
        exact .inr ⟨[], e, later, rfl, closes, same.symm, rfl⟩
      | cons top inner =>
        obtain ⟨rfl, rfl⟩ := List.cons.inj popped
        exact onward _ first (fun u mem => .inl (List.mem_cons_of_mem _ mem)) rest
    · exact onward inner first (fun u mem => .inl mem) rest

/-- The innermost container is still open, with those that have been opened inside it, or it was
closed when it was the innermost one again. -/
theorem open_or_closed {outer unclosed : List (ElementId × Position)} {k : ElementId × Position}
    {emissions : List Emission} (matched : nest (k :: outer) emissions = some unclosed) :
    (∃ inner, unclosed = inner ++ k :: outer ∧
      ∀ u ∈ inner, ∃ m ∈ emissions, m.isOpening = true ∧ m.element = u) ∨
    ∃ ended e more, emissions = ended ++ e :: more ∧ e.isClosing = true ∧ e.element = k ∧
      nest (k :: outer) ended = some (k :: outer) := by
  have matched : nest ([] ++ k :: outer) emissions = some unclosed := matched
  rcases open_or_closed_inside matched with ⟨inner, rfl, opened⟩ | closed
  · refine .inl ⟨inner, rfl, ?_⟩
    intro u mem
    rcases opened u mem with absent | opened
    · cases absent
    · exact opened
  · exact .inr closed

/-- Closing tags close what they belong to. -/
theorem nest_closings {ks : List Emission} (outer : List (ElementId × Position))
    (closings : ∀ k ∈ ks, k.tag.content = .master .closing) :
    nest (ks.map Emission.element ++ outer) ks = some outer := by
  induction ks with
  | nil => rfl
  | cons k ks ih =>
    obtain ⟨first, others⟩ := List.forall_mem_cons.mp closings
    rw [nest_cons, List.map_cons, List.cons_append, nestTag_closing _ first]
    exact ih others

/-! ### Complete containers -/

namespace Reader

variable {schema : Schema}

theorem isComplete_of_known {p : Position} {length offset : Nat} (size : p.size = .known length)
    (le : p.dataOffset + length ≤ offset) : isComplete p offset = true := by
  rw [isComplete, size]
  exact decide_eq_true le

theorem isComplete_mono {p : Position} {offset offset' : Nat} (le : offset ≤ offset')
    (complete : isComplete p offset = true) : isComplete p offset' = true := by
  unfold isComplete at complete ⊢
  split
  · next length size =>
    rw [size] at complete
    exact decide_eq_true (Nat.le_trans (of_decide_eq_true complete) le)
  · next size =>
    rw [size] at complete
    cases complete

/-- A container that is complete is of known size, and displaced by nothing. -/
theorem displaces_of_complete {k : Emission} {offset : Nat}
    (complete : isComplete k.position offset = true) (id : ElementId) :
    displaces schema id k = false := by
  unfold isComplete at complete
  split at complete
  · next size => rw [displaces, size, Size.isKnown, Bool.not_true, Bool.false_and]
  · cases complete

theorem owed_of_complete {r : Reader} {k : Emission} {outer : List Emission}
    (stack : r.containers = k :: outer) (complete : isComplete k.position r.offset = true) :
    r.owed? ≠ none := by
  intro owed
  have incomplete := (owed?_eq_none_iff.mp owed).2 k (by rw [stack]; rfl)
  rw [complete] at incomplete
  cases incomplete

end Reader

variable {σ : Type} [ByteSource σ] {change : σ → σ → Prop} {schema : Schema} {r r' : Reader}
  {source source' : σ} {seen : List Observation}

/-- Complete containers are closed first. -/
theorem Run.closes_complete (tabular : schema.Tabular)
    (run : Run schema change r source seen r' source') {ks outer : List Emission}
    (idle : r.deferred = none) (stack : r.containers = ks ++ outer)
    (complete : ∀ k ∈ ks, Reader.isComplete k.position r.offset = true) :
    ks <+: tagsSeen seen ∨ tagsSeen seen <+: ks := by
  induction run generalizing ks with
  | nil => exact .inr List.nil_prefix
  | @cons r r₁ r' source source₁ source₂ source' report later changed stepped rest ih =>
    cases ks with
    | nil => exact .inl List.nil_prefix
    | cons k ks =>
      obtain ⟨top, others⟩ := List.forall_mem_cons.mp complete
      rw [tagsSeen_cons]
      cases Reader.turn_of_next tabular stepped with
      | still silent deferred containers moved =>
        have untagged : (r₁.observe report).report.tag? = none := silent
        rw [untagged]
        exact ih (deferred.trans idle) (containers.trans stack)
          (fun k mem => Reader.isComplete_mono moved (complete k mem))
      | deferred given =>
        rw [idle] at given
        cases given
      | @close k' _ _ idle' stack' same =>
        obtain ⟨rfl, below⟩ := List.cons.inj (stack.symm.trans stack')
        have still : ∀ k ∈ ks, Reader.isComplete k.position r₁.offset = true := by
          rw [same]
          exact others
        rcases ih idle' below.symm still with isFront | isFront
        · exact .inl (List.cons_prefix_cons.mpr ⟨rfl, isFront⟩)
        · exact .inr (List.cons_prefix_cons.mpr ⟨rfl, isFront⟩)
      | place _ owed => exact absurd owed (Reader.owed_of_complete stack top)
      | @displace e k' _ _ _ _ stack' _ displaced =>
        obtain ⟨rfl, -⟩ := List.cons.inj (stack.symm.trans stack')
        rw [Reader.displaces_of_complete top] at displaced
        cases displaced

/-! ### The order of tags -/

theorem Size.exists_known {size : Size} (known : size.isKnown = true) :
    ∃ length, size = .known length := by
  cases size with
  | known length => exact ⟨length, rfl⟩
  | unknown => cases known

namespace Emission

theorem begins_of_opening {e : Emission} (opens : e.isOpening = true) : e.isClosing = false := by
  have opening : e.tag.content = .master .opening := beq_iff_eq.mp opens
  rw [isClosing, opening]
  rfl

/-- What is read of a container, where it is opened, is its header. -/
theorem stop_of_opening {e : Emission} (opens : e.isOpening = true) :
    e.stop = e.position.dataOffset := by
  have opening : e.tag.content = .master .opening := beq_iff_eq.mp opens
  rw [stop, Tag.isMaster, opening]
  exact if_pos rfl

end Emission

/-- The tags that begin elements, of those that a reader has given, and the one that it has put off.
-/
def Reader.passed (r : Reader) (given : List Emission) : List Emission :=
  given.filter (fun e => !e.isClosing) ++ r.deferred.toList

/-- Tags that begin elements are read one behind the other, up to the reader's offset. -/
structure InOrder (given : List Emission) (r : Reader) : Prop where
  closings : r.OwesClosings
  begins : ∀ e ∈ r.deferred, e.isClosing = false
  ordered : (r.passed given).Pairwise fun a b => a.stop ≤ b.position.offset
  within : ∀ e ∈ r.passed given, e.position.offset < e.stop ∧ e.stop ≤ r.offset

theorem Reader.AtStart.inOrder (start : r.AtStart) : InOrder [] r := by
  have nothing : r.passed [] = [] := by
    rw [Reader.passed, start.deferred]
    rfl
  refine ⟨start.owesClosings, ?_, ?_, ?_⟩
  · rw [start.deferred]
    intro e mem
    cases mem
  · rw [nothing]
    exact .nil
  · rw [nothing]
    intro e mem
    cases mem

/-- A turn gives a tag that was put off or closes a container, or reads one more tag. -/
theorem Reader.Turn.passed {given : List Emission} {report : Report}
    (turn : r.Turn schema report r') (closings : r.OwesClosings)
    (begins : ∀ e ∈ r.deferred, e.isClosing = false) :
    (r'.passed (given ++ report.tag?.toList) = r.passed given ∧ r.offset ≤ r'.offset) ∨
      ∃ e, r'.passed (given ++ report.tag?.toList) = r.passed given ++ [e] ∧
        e.Covers r.offset r'.offset := by
  have dropped {k : Emission} (mem : k ∈ r.containers) :
      (given ++ (Report.tag k).tag?.toList).filter (fun e => !e.isClosing) =
        given.filter (fun e => !e.isClosing) := by
    have closes : k.isClosing = true := beq_iff_eq.mpr (closings k mem)
    simp [Report.tag?, closes]
  have kept {e : Emission} (begins : e.isClosing = false) :
      (given ++ (Report.tag e).tag?.toList).filter (fun e => !e.isClosing) =
        given.filter (fun e => !e.isClosing) ++ [e] := by
    simp [Report.tag?, begins]
  unfold Reader.passed
  cases turn with
  | still silent deferred _ moved =>
    refine .inl ⟨?_, moved⟩
    rw [silent, deferred, Option.toList_none, List.append_nil]
  | deferred deferred idle _ same =>
    refine .inl ⟨?_, Nat.le_of_eq same.symm⟩
    rw [kept (begins _ deferred), deferred, idle, Option.toList_none, List.append_nil]
    rfl
  | close idle idle' stack same =>
    refine .inl ⟨?_, Nat.le_of_eq same.symm⟩
    rw [dropped (stack ▸ List.mem_cons_self), idle, idle']
  | place idle _ covers _ _ idle' =>
    refine .inr ⟨_, ?_, covers⟩
    rw [kept covers.begins, idle, idle', Option.toList_none, List.append_nil, List.append_nil]
  | displace idle stack covers _ _ deferred =>
    refine .inr ⟨_, ?_, covers⟩
    rw [dropped (stack ▸ List.mem_cons_self), idle, deferred, Option.toList_none, List.append_nil]
    rfl

theorem InOrder.turn {given : List Emission} {report : Report} (inOrder : InOrder given r)
    (turn : r.Turn schema report r') : InOrder (given ++ report.tag?.toList) r' := by
  obtain ⟨closings, begins, ordered, within⟩ := inOrder
  have begins' : ∀ e ∈ r'.deferred, e.isClosing = false := by
    intro e mem
    cases turn with
    | still _ deferred => exact begins e (deferred ▸ mem)
    | deferred _ idle | close _ idle | place _ _ _ _ _ idle =>
      rw [idle] at mem
      cases mem
    | displace _ _ covers _ _ deferred =>
      rw [deferred] at mem
      cases mem
      exact covers.begins
  rcases turn.passed closings begins with ⟨same, moved⟩ | ⟨e, more, covers⟩
  · refine ⟨turn.owesClosings closings, begins', by rw [same]; exact ordered, ?_⟩
    rw [same]
    intro e mem
    obtain ⟨lt, le⟩ := within e mem
    exact ⟨lt, Nat.le_trans le moved⟩
  · refine ⟨turn.owesClosings closings, begins', ?_, ?_⟩
    · rw [more, List.pairwise_append]
      refine ⟨ordered, List.pairwise_singleton .., ?_⟩
      intro a mem b mem'
      rw [List.mem_singleton.mp mem', covers.starts]
      exact (within a mem).2
    · rw [more]
      intro a mem
      rcases List.mem_append.mp mem with mem | mem
      · obtain ⟨lt, le⟩ := within a mem
        exact ⟨lt, Nat.le_trans le (Nat.le_of_lt covers.lt)⟩
      · rw [List.mem_singleton.mp mem, covers.stops, covers.starts]
        exact ⟨covers.lt, Nat.le_refl _⟩

/-- The tags that a run gives are in order. -/
theorem Run.inOrder (tabular : schema.Tabular) (start : r.AtStart)
    (run : Run schema change r source seen r' source') : InOrder (tagsSeen seen) r' :=
  run.keeps tabular InOrder.turn start.inOrder

namespace InOrder

variable {given xs ys : List Emission} {a b : Emission}

/-- A tag begins where those before it stop, or behind. -/
theorem stop_le (inOrder : InOrder given r) (split : given = xs ++ a :: ys) (mem : b ∈ ys)
    (begins : a.isClosing = false) (begins' : b.isClosing = false) :
    a.stop ≤ b.position.offset := by
  obtain ⟨passed, -, -⟩ := List.pairwise_append.mp inOrder.ordered
  rw [split, List.filter_append, List.filter_cons_of_pos (by simp [begins])] at passed
  obtain ⟨-, later, -⟩ := List.pairwise_append.mp passed
  exact (List.pairwise_cons.mp later).1 b (List.mem_filter.mpr ⟨mem, by simp [begins']⟩)

theorem lt_stop (inOrder : InOrder given r) (mem : a ∈ given) (begins : a.isClosing = false) :
    a.position.offset < a.stop ∧ a.stop ≤ r.offset :=
  inOrder.within a (List.mem_append_left _ (List.mem_filter.mpr ⟨mem, by simp [begins]⟩))

/-- A tag that comes no later than another one begins before that one stops. -/
theorem lt_stop_of_mem {mid rest : List Emission} (inOrder : InOrder given r)
    (split : given = xs ++ (mid ++ b :: rest)) (mem : a ∈ mid ++ [b]) (begins : a.isClosing = false)
    (begins' : b.isClosing = false) : a.position.offset < b.stop := by
  have mem' : b ∈ given := by
    rw [split]
    simp
  obtain ⟨lt, -⟩ := inOrder.lt_stop mem' begins'
  rcases List.mem_append.mp mem with mem | mem
  · obtain ⟨front, back, rfl⟩ := List.append_of_mem mem
    have place : given = (xs ++ front) ++ a :: (back ++ b :: rest) := by
      rw [split]
      simp
    have before := inOrder.stop_le place (by simp) begins begins'
    have nonempty := inOrder.lt_stop (a := a) (by rw [place]; simp) begins
    omega
  · rw [List.mem_singleton.mp mem]
    exact lt

/-- A tag that begins at the end of another one, or behind, comes after it. -/
theorem exists_between {earlier later mid rest : List Emission} (inOrder : InOrder given r)
    (split : given = xs ++ (mid ++ b :: rest)) (split' : mid ++ b :: rest = earlier ++ a :: later)
    (begins : a.isClosing = false) (begins' : b.isClosing = false)
    (beyond : b.stop ≤ a.position.offset) :
    ∃ between, earlier = mid ++ b :: between ∧ rest = between ++ a :: later := by
  have mem : a ∈ given := by
    rw [split, split']
    simp
  obtain ⟨lt, -⟩ := inOrder.lt_stop mem begins
  have mem' : b ∈ given := by
    rw [split]
    simp
  obtain ⟨lt', -⟩ := inOrder.lt_stop mem' begins'
  rcases List.append_eq_append_iff.mp split' with ⟨between, same, same'⟩ | ⟨between, same, same'⟩
  · cases between with
    | nil =>
      obtain ⟨rfl, -⟩ := List.cons.inj same'
      omega
    | cons b' between =>
      obtain ⟨rfl, rest'⟩ := List.cons.inj same'
      exact ⟨between, same, rest'⟩
  · cases between with
    | nil =>
      obtain ⟨rfl, -⟩ := List.cons.inj same'
      omega
    | cons a' between =>
      obtain ⟨rfl, rest'⟩ := List.cons.inj same'
      have place : given = (xs ++ earlier) ++ a :: later := by
        rw [split, split', List.append_assoc]
      have behind : b ∈ later := by
        rw [rest']
        simp
      have before := inOrder.stop_le place behind begins begins'
      omega

end InOrder

/-- What complete containers are closed by comes before any tag that begins an element. -/
theorem prefix_of_not_mem {ks xs ys : List Emission} {t : Emission} (other : t ∉ ks)
    (comparable : ks <+: xs ++ t :: ys ∨ xs ++ t :: ys <+: ks) : ks <+: xs := by
  induction ks generalizing xs with
  | nil => exact List.nil_prefix
  | cons k ks ih =>
    rw [List.mem_cons, not_or] at other
    obtain ⟨differs, others⟩ := other
    cases xs with
    | nil =>
      rcases comparable with isFront | isFront
      · exact absurd (List.cons_prefix_cons.mp isFront).1.symm differs
      · exact absurd (List.cons_prefix_cons.mp isFront).1 differs
    | cons x xs =>
      rcases comparable with isFront | isFront
      · obtain ⟨rfl, shorter⟩ := List.cons_prefix_cons.mp isFront
        exact List.cons_prefix_cons.mpr ⟨rfl, ih others (.inl shorter)⟩
      · obtain ⟨rfl, shorter⟩ := List.cons_prefix_cons.mp isFront
        exact List.cons_prefix_cons.mpr ⟨rfl, ih others (.inr shorter)⟩

/-! ### Extents -/

/-- A container that declares its length, in a string of tags: it is opened after `before`, the tag
`last` stops where it ends, and no container that begins inside it ends behind it. -/
structure Extent (emissions : List Emission) where
  before : List Emission
  opening : Emission
  after : List Emission
  length : Nat
  front : List Emission
  last : Emission
  behind : List Emission
  split : emissions = before ++ opening :: after
  opens : opening.isOpening = true
  declared : opening.position.size = .known length
  boundary : opening :: after = front ++ last :: behind
  begins : last.isClosing = false
  stops : last.stop = opening.position.dataOffset + length
  inside : ∀ m ∈ after, m.isOpening = true → ∀ l, m.position.size = .known l →
    opening.position.dataOffset ≤ m.position.offset →
      m.position.offset < opening.position.dataOffset + length →
        m.position.dataOffset + l ≤ opening.position.dataOffset + length

namespace Extent

variable {emissions : List Emission}

/-- The offset at which the container ends. -/
def stop (x : Extent emissions) : Nat :=
  x.opening.position.dataOffset + x.length

/-- Where the container ends, none of unknown size is open inside it. -/
def Sized (x : Extent emissions) : Prop :=
  ∀ inner outer, nest [] (x.before ++ x.front ++ [x.last]) =
    some (inner ++ x.opening.element :: outer) → ∀ u ∈ inner, u.2.size.isKnown = true

/-- One of the tags that follow the opening tag closes the container, when that is the innermost one
that is open. -/
def ClosedIn (x : Extent emissions) (following : List Emission) : Prop :=
  ∃ ended e more outer, following = ended ++ e :: more ∧ e.isClosing = true ∧
    e.element = x.opening.element ∧ nest [] x.before = some outer ∧
    nest [] (x.before ++ x.opening :: ended) = some (x.opening.element :: outer)

end Extent

/-- Every container of known size that ends where a tag stops is closed before a tag is given that
begins there or behind. -/
def ClosesAtExtents (emissions : List Emission) : Prop :=
  ∀ (x : Extent emissions) (earlier later : List Emission) (t : Emission),
    x.after = earlier ++ t :: later → t.isClosing = false → x.stop ≤ t.position.offset →
      x.ClosedIn earlier

namespace Extent

variable {emissions : List Emission}

theorem split_last (x : Extent emissions) :
    emissions = x.before ++ (x.front ++ x.last :: x.behind) :=
  x.split.trans (congrArg (x.before ++ ·) x.boundary)

/-- The tags up to the last one inside start with the opening tag; those before a tag behind it go
on with others. -/
theorem exists_upTo (x : Extent emissions) (inOrder : InOrder emissions r)
    {earlier later : List Emission} {t : Emission} (next : x.after = earlier ++ t :: later)
    (begins : t.isClosing = false) (beyond : x.stop ≤ t.position.offset) :
    ∃ upTo between, x.front ++ [x.last] = x.opening :: upTo ∧ earlier = upTo ++ between ∧
      x.behind = between ++ t :: later := by
  have order : x.front ++ x.last :: x.behind = (x.opening :: earlier) ++ t :: later := by
    rw [← x.boundary, next]
    rfl
  have beyond : x.last.stop ≤ t.position.offset := by
    rw [x.stops]
    exact beyond
  obtain ⟨between, early, behind⟩ :=
    inOrder.exists_between x.split_last order begins x.begins beyond
  cases front : x.front with
  | nil =>
    rw [front] at early
    obtain ⟨opening, same⟩ := List.cons.inj early
    exact ⟨[], between, by rw [opening]; rfl, same, behind⟩
  | cons m mid =>
    rw [front] at early
    obtain ⟨opening, same⟩ := List.cons.inj early
    exact ⟨mid ++ [x.last], between, by rw [opening]; rfl, by rw [same]; simp, behind⟩

/-- What is opened inside the container ends inside it, if it declares its length. -/
theorem stop_inside (x : Extent emissions) (inOrder : InOrder emissions r) {m : Emission} {l : Nat}
    (after : m ∈ x.after) (upTo : m ∈ x.front ++ [x.last]) (opens : m.isOpening = true)
    (declared : m.position.size = .known l) : m.position.dataOffset + l ≤ x.stop := by
  have begins := Emission.begins_of_opening opens
  have behind := inOrder.stop_le x.split after (Emission.begins_of_opening x.opens) begins
  rw [Emission.stop_of_opening x.opens] at behind
  have before := inOrder.lt_stop_of_mem x.split_last upTo begins x.begins
  rw [x.stops] at before
  exact x.inside m after opens l declared behind before

end Extent

/-! ### Runs -/

/-- Where a container is complete, and so is all that is open inside it, these are closed before a
tag is given that begins an element. -/
theorem Run.closes_down_to (tabular : schema.Tabular)
    (run : Run schema change r source seen r' source') (idle : r.deferred = none)
    (closings : r.OwesClosings) {inner outer : List (ElementId × Position)}
    {k : ElementId × Position} (stack : inner ++ k :: outer = r.containers.map Emission.element)
    (inside : ∀ u ∈ inner, Reader.isComplete u.2 r.offset = true)
    (complete : Reader.isComplete k.2 r.offset = true) {between later : List Emission}
    {t : Emission} (given : tagsSeen seen = between ++ t :: later) (begins : t.isClosing = false) :
    ∃ ks e more, between = ks ++ e :: more ∧ e.isClosing = true ∧ e.element = k ∧
      nest (inner ++ k :: outer) ks = some (k :: outer) := by
  obtain ⟨ks, rest, containers, rfl, below⟩ := List.map_eq_append_iff.mp stack.symm
  obtain ⟨e, others, rfl, rfl, rfl⟩ := List.map_eq_cons_iff.mp below
  have split : r.containers = (ks ++ [e]) ++ others := by
    rw [containers, List.append_assoc]
    rfl
  have owes : ∀ k ∈ ks ++ [e], k.tag.content = .master .closing := by
    intro k mem
    exact closings k (split ▸ List.mem_append_left _ mem)
  have owed : t ∉ ks ++ [e] := by
    intro mem
    have closes : t.isClosing = true := beq_iff_eq.mpr (owes t mem)
    rw [begins] at closes
    cases closes
  have finished : ∀ k ∈ ks ++ [e], Reader.isComplete k.position r.offset = true := by
    intro k mem
    rcases List.mem_append.mp mem with mem | mem
    · exact inside _ (List.mem_map_of_mem mem)
    · rw [List.mem_singleton.mp mem]
      exact complete
  have comparable := run.closes_complete tabular idle split finished
  rw [given] at comparable
  obtain ⟨more, rfl⟩ := prefix_of_not_mem owed comparable
  refine ⟨ks, e, more, by simp, ?_, rfl, ?_⟩
  · exact beq_iff_eq.mpr (owes e (by simp))
  · exact nest_closings _ fun k mem => owes k (List.mem_append_left _ mem)

/-- Over every run from the start of a stream, a container of known size that ends where a tag stops
is closed before a tag is given that begins there or behind, if none of unknown size is still open
inside it. -/
theorem closes_at_extent (tabular : schema.Tabular) (start : r.AtStart)
    (run : Run schema change r source seen r' source') (x : Extent (tagsSeen seen))
    (sized : x.Sized) {earlier later : List Emission} {t : Emission}
    (next : x.after = earlier ++ t :: later) (begins : t.isClosing = false)
    (beyond : x.stop ≤ t.position.offset) : x.ClosedIn earlier := by
  have inOrder := run.inOrder tabular start
  have opening : x.opening.tag.content = .master .opening := beq_iff_eq.mp x.opens
  obtain ⟨upTo, between, front, rfl, behind⟩ := x.exists_upTo inOrder next begins beyond
  -- The reader stands where the container ends, and no tag is put off.
  obtain ⟨r₁, r₂, source₁, source₂, first, through, onward, ⟨early, -⟩, ⟨reached, given⟩,
    ⟨onwards, left⟩, turn⟩ :=
    run.exists_turn tabular (x.split_last.trans (List.append_assoc ..).symm)
  have idle := turn.idle_of_begins (early.owesClosings tabular start.owesClosings) x.begins
  have offset : x.stop ≤ r₂.offset := by
    rw [Extent.stop, ← x.stops]
    exact ((reached.inOrder tabular start).lt_stop (by rw [given]; simp) x.begins).2
  obtain ⟨unclosed, matched, stack⟩ := reached.unclosed tabular start
  have stack := stack idle
  rw [given] at matched
  have whole := matched
  rw [List.append_assoc, front, nest_append] at whole
  obtain ⟨outer, outside, whole⟩ := Option.bind_eq_some_iff.mp whole
  have entered (emissions : List Emission) :
      nest outer (x.opening :: emissions) = nest (x.opening.element :: outer) emissions := by
    rw [nest_cons, nestTag_opening _ opening]
    rfl
  have within (emissions : List Emission) : nest [] (x.before ++ x.opening :: emissions) =
      nest (x.opening.element :: outer) emissions := by
    rw [nest_append, outside]
    exact entered emissions
  rw [entered] at whole
  rcases open_or_closed whole
    with ⟨inner, rfl, opened⟩ | ⟨ended, e, more, rfl, closes, same, ended'⟩
  · -- It is still open, but complete, as is all that is open inside it.
    have inside : ∀ u ∈ inner, Reader.isComplete u.2 r₂.offset = true := by
      intro u mem
      obtain ⟨l, size⟩ := Size.exists_known (sized inner outer matched u mem)
      obtain ⟨m, mem', opens, rfl⟩ := opened u mem
      have after : m ∈ x.after := by
        rw [next, List.append_assoc]
        exact List.mem_append_left _ mem'
      have fits := x.stop_inside inOrder after (front ▸ List.mem_cons_of_mem _ mem') opens size
      exact Reader.isComplete_of_known size (Nat.le_trans fits offset)
    have complete : Reader.isComplete x.opening.element.2 r₂.offset = true :=
      Reader.isComplete_of_known x.declared offset
    rw [behind] at left
    obtain ⟨ks, e, more, rfl, closes, same, nested⟩ := onwards.closes_down_to tabular idle
      (reached.owesClosings tabular start.owesClosings) stack inside complete left begins
    refine ⟨upTo ++ ks, e, more, outer, (List.append_assoc ..).symm, closes, same, outside, ?_⟩
    rw [within, nest_append, whole]
    exact nested
  · -- It was closed before, when the source had come to an end.
    refine ⟨ended, e, more ++ between, outer, by simp, closes, same, outside, ?_⟩
    rw [within]
    exact ended'

/-- Whether what begins inside a container ends inside it can be read off a list of tags. -/
theorem ends_inside_of_listed {emissions : List Emission} {start stop : Nat}
    (listed : ∀ m ∈ emissions, m.isOpening = true → m.position.offset < stop →
      m.position.dataOffset + m.position.size.length ≤ stop) :
    ∀ m ∈ emissions, m.isOpening = true → ∀ l, m.position.size = .known l →
      start ≤ m.position.offset → m.position.offset < stop → m.position.dataOffset + l ≤ stop := by
  intro m mem opens l size _ lt
  have fits := listed m mem opens lt
  rwa [size] at fits

/-- A segment of thirteen bytes, in which a cluster of unknown size is ended by information, and
then a header. -/
def closedClusterBytes : List UInt8 :=
  [0x18, 0x53, 0x80, 0x67, 0x8D, 0x1F, 0x43, 0xB6, 0x75, 0xFF, 0xE7, 0x81, 0x05,
    0x15, 0x49, 0xA9, 0x66, 0x80, 0x1A, 0x45, 0xDF, 0xA3, 0x80]

/-- The tags of `closedClusterBytes`. -/
def closedClusterTags : List Emission :=
  tagsSeen ((Reader.new {}).shown Matroska.schema (File.readable closedClusterBytes.toArray 0) 9)

/-- The segment ends where the opening tag of the information stops. -/
def closedClusterExtent : Extent closedClusterTags where
  before := []
  opening := ⟨Matroska.schema.half Matroska.segment .opening, ⟨0, 5, .known 13⟩⟩
  after := closedClusterTags.drop 1
  length := 13
  front := closedClusterTags.take 4
  last := ⟨Matroska.schema.half Matroska.info .opening, ⟨13, 5, .known 0⟩⟩
  behind := closedClusterTags.drop 5
  split := by decide +kernel
  opens := by decide +kernel
  declared := rfl
  boundary := by decide +kernel
  begins := by decide +kernel
  stops := rfl
  inside := ends_inside_of_listed (by decide +kernel)

/-- The segment is closed before the header. -/
theorem closes_at_extent_closedCluster :
    closedClusterExtent.ClosedIn ((closedClusterTags.take 7).drop 1) := by
  obtain ⟨r', source', run⟩ : ∃ r' source', Run Matroska.schema (fun _ _ => True) (.new {})
      (File.readable closedClusterBytes.toArray 0)
      ((Reader.new {}).shown Matroska.schema (File.readable closedClusterBytes.toArray 0) 9)
      r' source' :=
    Run.exists_shown (fun _ => trivial) _ _ _ _
  have sized : closedClusterExtent.Sized := by
    have nested : nest [] (closedClusterExtent.before ++ closedClusterExtent.front ++
        [closedClusterExtent.last]) =
          some [(Matroska.info, ⟨13, 5, .known 0⟩), (Matroska.segment, ⟨0, 5, .known 13⟩)] := by
      decide +kernel
    have known : ∀ u ∈ [(Matroska.info, (⟨13, 5, .known 0⟩ : Position)),
        (Matroska.segment, ⟨0, 5, .known 13⟩)], u.2.size.isKnown = true := by
      decide
    intro inner outer matched u mem
    have same := Option.some.inj (nested.symm.trans matched)
    exact known u (same ▸ List.mem_append_left _ mem)
  have next : closedClusterExtent.after = (closedClusterTags.take 7).drop 1 ++
      ⟨Matroska.schema.half Matroska.ebml .opening, ⟨18, 5, .known 0⟩⟩ ::
        closedClusterTags.drop 8 := by
    decide +kernel
  exact closes_at_extent .matroska (Reader.atStart_new {}) run closedClusterExtent sized next rfl
    (by decide)

/-- A segment of eight bytes with a cluster of unknown size, and then a header. -/
def openClusterBytes : List UInt8 :=
  [0x18, 0x53, 0x80, 0x67, 0x88, 0x1F, 0x43, 0xB6, 0x75, 0xFF, 0xE7, 0x81, 0x05,
    0x1A, 0x45, 0xDF, 0xA3, 0x80]

/-- The tags of `openClusterBytes`. -/
def openClusterTags : List Emission :=
  tagsSeen ((Reader.new {}).shown Matroska.schema (File.readable openClusterBytes.toArray 0) 8)

/-- The segment ends where the timestamp in the cluster stops. -/
def openClusterExtent : Extent openClusterTags where
  before := []
  opening := ⟨Matroska.schema.half Matroska.segment .opening, ⟨0, 5, .known 8⟩⟩
  after := openClusterTags.drop 1
  length := 8
  front := openClusterTags.take 2
  last := ⟨⟨0xE7, some "Timestamp", .unsigned 5⟩, ⟨10, 2, .known 1⟩⟩
  behind := openClusterTags.drop 3
  split := by decide +kernel
  opens := by decide +kernel
  declared := rfl
  boundary := by decide +kernel
  begins := by decide +kernel
  stops := rfl
  inside := ends_inside_of_listed (by decide +kernel)

/-- The cluster is closed by the header, and the segment only after that. -/
theorem not_closesAtExtents_openCluster : ¬ ClosesAtExtents openClusterTags := by
  intro closes
  have next : openClusterExtent.after = (openClusterTags.take 4).drop 1 ++
      ⟨Matroska.schema.half Matroska.ebml .opening, ⟨13, 5, .known 0⟩⟩ ::
        openClusterTags.drop 5 := by
    decide +kernel
  obtain ⟨ended, e, more, outer, split, -, same, -⟩ :=
    closes openClusterExtent _ _ _ next rfl (by decide)
  have others : ∀ e ∈ (openClusterTags.take 4).drop 1,
      e.element ≠ openClusterExtent.opening.element := by
    decide +kernel
  exact others e (by rw [split]; simp) same

end TagStream
