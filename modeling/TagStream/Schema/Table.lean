import TagStream.Schema.Basic

/-!
Schemas given by a table of rows, each declaring an element's id, name, kind and parent. An element
may be declared more than once, to give it several parents; its first row fixes its name and kind.
The rows are kept sorted by id, rows of one id in the order they were declared, and are looked up by
bisection.
-/

namespace TagStream

/-- Where an element may stand: at the top level, anywhere, or inside the containers of one id. -/
inductive Parent where
  | root
  | anywhere
  | element (id : ElementId)
  deriving DecidableEq, Repr

namespace Parent

/-- The id by which a parent is written: no element bears 0, which stands for the top level, nor the
largest word, which stands for every place. -/
def word : Parent → ElementId
  | .root => 0
  | .anywhere => 0xFFFFFFFFFFFFFFFF
  | .element id => id

def ofWord (w : ElementId) : Parent :=
  if w = 0 then .root else if w = 0xFFFFFFFFFFFFFFFF then .anywhere else .element w

/-- Whether this parent is the container `id`, or any place will do. -/
def covers (p : Parent) (id : ElementId) : Bool :=
  p == .anywhere || p.word == id

end Parent

/-- A declaration of one element under one parent. -/
structure Row where
  id : ElementId
  name : Option String
  kind : Kind
  parent : Parent
  deriving DecidableEq, Repr

/-- The first index from `lo` on whose row is not `below`, for rows where `below` holds up to some
index and fails from there on. -/
def bisect (rows : Array Row) (below : Row → Bool) (lo hi : Nat) (bound : hi ≤ rows.size) : Nat :=
  if less : lo < hi then
    if below rows[lo + (hi - lo) / 2] then bisect rows below (lo + (hi - lo) / 2 + 1) hi bound
    else bisect rows below lo (lo + (hi - lo) / 2) (by omega)
  else lo
termination_by hi - lo

/-- Puts a row among rows in ascending order of their ids, before those of its own id. -/
def Row.insert (row : Row) : List Row → List Row
  | [] => [row]
  | first :: rest =>
    if row.id ≤ first.id then row :: first :: rest else first :: row.insert rest

/-- The rows in ascending order of their ids, those of one id in the order they have. -/
def Row.sort (rows : List Row) : List Row :=
  rows.foldr Row.insert []

theorem Row.mem_insert {row r : Row} {rows : List Row} :
    r ∈ row.insert rows ↔ r = row ∨ r ∈ rows := by
  induction rows with
  | nil => simp [insert]
  | cons first rest ih => simp only [insert]; split <;> grind

theorem Row.pairwise_insert {row : Row} {rows : List Row}
    (sorted : rows.Pairwise fun a b => a.id ≤ b.id) :
    (row.insert rows).Pairwise fun a b => a.id ≤ b.id := by
  induction rows with
  | nil => simp [insert]
  | cons first rest ih =>
    obtain ⟨least, rest_sorted⟩ := List.pairwise_cons.mp sorted
    simp only [insert]
    split
    · next before =>
      refine List.pairwise_cons.mpr ⟨fun r mem => ?_, sorted⟩
      rcases List.mem_cons.mp mem with rfl | mem
      · exact before
      · exact UInt64.le_trans before (least r mem)
    · next after =>
      refine List.pairwise_cons.mpr ⟨fun r mem => ?_, ih rest_sorted⟩
      rcases mem_insert.mp mem with rfl | mem
      · exact (UInt64.le_total _ _).resolve_left after
      · exact least r mem

theorem Row.pairwise_sort (rows : List Row) :
    (Row.sort rows).Pairwise fun a b => a.id ≤ b.id := by
  induction rows with
  | nil => exact .nil
  | cons row rows ih => exact pairwise_insert ih

/-- Declarations in ascending order of their ids. -/
structure Table where
  rows : Array Row
  sorted : rows.toList.Pairwise fun a b => a.id ≤ b.id

namespace Table

/-- The table of these declarations. -/
def ofRows (rows : List Row) : Table where
  rows := (Row.sort rows).toArray
  sorted := Row.pairwise_sort rows

/-- The index of the first row whose id is at least `id`. -/
def lower (t : Table) (id : ElementId) : Nat :=
  bisect t.rows (·.id < id) 0 t.rows.size (Nat.le_refl _)

/-- The index of the first row whose id exceeds `id`. -/
def upper (t : Table) (id : ElementId) : Nat :=
  bisect t.rows (·.id ≤ id) 0 t.rows.size (Nat.le_refl _)

/-- The first declaration of an element. -/
def find? (t : Table) (id : ElementId) : Option Row :=
  t.rows[t.lower id]?.filter (·.id == id)

/-- All declarations of an element, in the order they were made. -/
def declarations (t : Table) (id : ElementId) : List Row :=
  (t.rows.extract (t.lower id) (t.upper id)).toList

def kindOf (t : Table) (id : ElementId) : Kind :=
  ((t.find? id).map Row.kind).getD .binary

def name (t : Table) (id : ElementId) : Option String :=
  (t.find? id).bind Row.name

/-- Whether some declaration of `id` names the container `parent`, or any place. -/
def admits (t : Table) (parent id : ElementId) : Bool :=
  (t.declarations id).any (·.parent.covers parent)

/-- The tag of a value of the kind declared for the element. Binary values are left to be made raw.
-/
def make (t : Table) (id : ElementId) (value : Value) : Option Tag :=
  (t.find? id).bind fun row =>
    if row.kind = value.kind then (plain value).map (⟨id, row.name, ·⟩) else none
where
  plain : Value → Option Content
    | .master marker => some (.master marker)
    | .unsigned n => some (.unsigned n)
    | .signed n => some (.signed n)
    | .float x => some (.float x)
    | .text bytes => some (.text bytes)
    | .binary _ => none

/-- The schema that a table describes; an element that is not declared is binary and has no name. -/
def schema (t : Table) : Schema where
  kindOf := t.kindOf
  name := t.name
  make := t.make
  raw id data := some ⟨id, t.name id, .raw data⟩
  admits parent id := t.admits parent.id id

end Table

end TagStream
