import TagStream.Schema.Table

/-!
Schemas that are another one in part: a schema without names or structured binary values, one that
declines chosen tags, which need not be free of defects, and one that admits its elements elsewhere.
Tables whose rows differ in their parents only describe one schema, but for what may stand where
(`Table.schema_reparent`).
-/

namespace TagStream

/-- A tag that a schema can be made to decline. -/
inductive Refusal where
  | half (marker : Marker)
  | value (kind : Kind)
  | raw
  deriving DecidableEq, Repr

/-- Whether declining this includes declining a tag of `v`. -/
def Refusal.covers (r : Refusal) (v : Value) : Bool :=
  match r, v with
  | .half refused, .master marker => refused == marker
  | .value kind, v => kind == v.kind
  | _, _ => false

namespace Schema

/-- Declines the listed tags and makes all others as `schema` does. -/
def declining (schema : Schema) (refusals : List (ElementId × Refusal)) : Schema :=
  { schema with
    make := fun id value =>
      if refusals.any fun (refused, r) => refused == id && r.covers value then none
      else schema.make id value
    raw := fun id data =>
      if refusals.contains (id, .raw) then none else schema.raw id data }

/-- Leaves every binary payload raw and nameless, and names no element when asked. -/
def bare (schema : Schema) : Schema :=
  { schema with
    name := fun _ => none
    make := fun id value =>
      if value.kind = .binary then none else schema.make id value
    raw := fun id data => some ⟨id, none, .raw data⟩ }

/-- The same elements, admitted elsewhere. -/
def reparent (schema : Schema) (admits : Tag → ElementId → Bool) : Schema :=
  { schema with admits }

end Schema

/-! ### Tables without their parents -/

/-- The row without its parent. -/
def Row.orphan (row : Row) : Row :=
  { row with parent := .root }

theorem Row.map_orphan_insert (row : Row) (rows : List Row) :
    (row.insert rows).map orphan = row.orphan.insert (rows.map orphan) := by
  induction rows with
  | nil => rfl
  | cons first rest ih =>
    by_cases before : row.id ≤ first.id
    · have before' : row.orphan.id ≤ first.orphan.id := before
      simp only [insert, List.map_cons, if_pos before, if_pos before']
    · have after : ¬ row.orphan.id ≤ first.orphan.id := before
      simp only [insert, List.map_cons, if_neg before, if_neg after, ih]

/-- Rows are sorted without regard to their parents. -/
theorem Row.map_orphan_sort (rows : List Row) :
    (Row.sort rows).map orphan = Row.sort (rows.map orphan) := by
  induction rows with
  | nil => rfl
  | cons row rows ih =>
    change (row.insert (Row.sort rows)).map orphan = row.orphan.insert (Row.sort (rows.map orphan))
    rw [map_orphan_insert, ih]

/-- Bisection looks at nothing but what it compares. -/
theorem bisect_map {rows : Array Row} {below : Row → Bool} {f : Row → Row}
    (same : ∀ row, below (f row) = below row) {lo hi : Nat} (bound : hi ≤ rows.size)
    (bound' : hi ≤ (rows.map f).size) :
    bisect (rows.map f) below lo hi bound' = bisect rows below lo hi bound := by
  fun_induction bisect rows below lo hi bound with
  | case1 lo hi bound less middle ih =>
    rw [bisect, dif_pos less, if_pos (by rw [Array.getElem_map, same]; exact middle)]
    exact ih _
  | case2 lo hi bound less middle ih =>
    rw [bisect, dif_pos less, if_neg (by rw [Array.getElem_map, same]; exact middle)]
    exact ih _
  | case3 lo hi bound done => rw [bisect, dif_neg done]

namespace Table

/-- The table without its parents. -/
def orphan (t : Table) : Table where
  rows := t.rows.map Row.orphan
  sorted := by
    rw [Array.toList_map, List.pairwise_map]
    exact t.sorted

theorem lower_orphan (t : Table) (id : ElementId) : t.orphan.lower id = t.lower id := by
  have size : t.orphan.rows.size = t.rows.size := Array.size_map ..
  unfold lower
  simp only [size]
  exact bisect_map (f := Row.orphan) (fun _ => rfl) (Nat.le_refl _) _

/-- An element's first declaration is found without regard to the parents. -/
theorem find?_orphan (t : Table) (id : ElementId) :
    t.orphan.find? id = (t.find? id).map Row.orphan := by
  have row : t.orphan.rows[t.lower id]? = t.rows[t.lower id]?.map Row.orphan :=
    Array.getElem?_map ..
  rw [find?, find?, lower_orphan, row, Option.filter_map]
  rfl

theorem orphan_ofRows (rows : List Row) : (ofRows rows).orphan = ofRows (rows.map Row.orphan) := by
  have same :
      (Row.sort rows).toArray.map Row.orphan = (Row.sort (rows.map Row.orphan)).toArray := by
    rw [List.map_toArray, Row.map_orphan_sort]
  simp only [orphan, ofRows, same]

end Table

/-- But for what may stand where, the schema of a table does not depend on the parents. -/
theorem Table.schema_orphan (t : Table) :
    t.schema = t.orphan.schema.reparent t.schema.admits := by
  have kindOf : t.orphan.kindOf = t.kindOf := by
    funext id
    rw [Table.kindOf, Table.kindOf, find?_orphan, Option.map_map]
    rfl
  have name : t.orphan.name = t.name := by
    funext id
    rw [Table.name, Table.name, find?_orphan, Option.bind_map]
    rfl
  have make : t.orphan.make = t.make := by
    funext id value
    rw [Table.make, Table.make, find?_orphan, Option.bind_map]
    rfl
  simp only [schema, Schema.reparent, kindOf, name, make]

/-- Tables that differ in the parents only have schemas that differ in what they admit only. -/
theorem Table.schema_reparent {rows rows' : List Row}
    (same : rows.map Row.orphan = rows'.map Row.orphan) :
    (ofRows rows').schema = (ofRows rows).schema.reparent (ofRows rows').schema.admits := by
  rw [(ofRows rows').schema_orphan, (ofRows rows).schema_orphan, orphan_ofRows, orphan_ofRows, same]
  rfl

end TagStream
