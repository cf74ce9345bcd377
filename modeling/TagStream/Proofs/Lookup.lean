import TagStream.Proofs.Payload
import TagStream.Proofs.Provision

/-!
Looking an element up. A table sorts its rows and bisects them; this comes to reading through the
declarations in the order in which they were made, and taking the first one of the element
(`Table.find?_ofRows`) or all of them (`Table.declarations_ofRows`). Sorting keeps the rows of one
element in order (`Row.filter_sort`), so that they stand together, between those of smaller and
those of greater ids (`Row.eq_append_of_sorted`), and bisection finds where they begin and end.
What a table answers therefore does not depend on how the rows of different elements are mixed
(`Table.ofRows_congr`).
-/

namespace TagStream

/-! ### Bisection -/

/-- Rows that are below up to some place and not from there on have that place found. -/
theorem bisect_eq {rows : Array Row} {below : Row → Bool} {lo hi place : Nat}
    (bound : hi ≤ rows.size)
    (front : ∀ i (inside : i < rows.size), i < place → below rows[i] = true)
    (back : ∀ i (inside : i < rows.size), place ≤ i → below rows[i] = false)
    (least : lo ≤ place) (most : place ≤ hi) : bisect rows below lo hi bound = place := by
  fun_induction bisect rows below lo hi bound with
  | case1 lo hi bound less middle ih =>
    apply ih
    · apply Nat.lt_of_not_le
      intro past
      rw [back _ _ past] at middle
      cases middle
    · exact most
  | case2 lo hi bound less middle ih =>
    apply ih
    · exact least
    · apply Nat.le_of_not_lt
      intro before
      exact middle (front _ _ before)
  | case3 lo hi bound done => omega

/-- In a list of two parts, one below and one not, bisection finds where the second begins. -/
theorem bisect_append {rows : Array Row} {below : Row → Bool} {smaller others : List Row}
    (parts : rows.toList = smaller ++ others) (front : ∀ row ∈ smaller, below row = true)
    (back : ∀ row ∈ others, below row = false) :
    bisect rows below 0 rows.size (Nat.le_refl _) = smaller.length := by
  have size : rows.size = smaller.length + others.length := by
    rw [← Array.length_toList, parts, List.length_append]
  have row (i : Nat) (inside : i < rows.size) : rows[i]? = (smaller ++ others)[i]? := by
    rw [← parts, Array.getElem?_toList]
  apply bisect_eq
  · intro i inside before
    have here := row i inside
    rw [Array.getElem?_eq_getElem inside, List.getElem?_append_left before] at here
    exact front _ (List.mem_of_getElem? here.symm)
  · intro i inside past
    have here := row i inside
    rw [Array.getElem?_eq_getElem inside, List.getElem?_append_right past] at here
    exact back _ (List.mem_of_getElem? here.symm)
  · exact Nat.zero_le _
  · omega

/-! ### Rows of one element -/

namespace Row

/-- A row goes before the rows of its own element, and past none of them. -/
theorem filter_insert (row : Row) (rows : List Row) (id : ElementId) :
    (row.insert rows).filter (·.id == id) = (row :: rows).filter (·.id == id) := by
  induction rows with
  | nil => rfl
  | cons first rest ih =>
    rw [insert]
    split
    · rfl
    · next after =>
      rw [List.filter_cons, ih]
      by_cases mine : row.id = id
      · -- The row that is gone past has a smaller id, and is not the element's.
        have other : first.id ≠ id := by
          rintro rfl
          exact after (mine ▸ UInt64.le_refl _)
        simp only [List.filter_cons, beq_iff_eq, if_pos mine, if_neg other]
      · simp only [List.filter_cons, beq_iff_eq, if_neg mine]

/-- Sorting keeps the rows of one element in the order that they have. -/
theorem filter_sort (rows : List Row) (id : ElementId) :
    (Row.sort rows).filter (·.id == id) = rows.filter (·.id == id) := by
  induction rows with
  | nil => rfl
  | cons row rows ih =>
    change (row.insert (Row.sort rows)).filter _ = _
    rw [filter_insert, List.filter_cons, ih, List.filter_cons]

/-- Sorted rows are those of smaller ids, those of the element, and those of greater ids. -/
theorem eq_append_of_sorted {rows : List Row} (sorted : rows.Pairwise fun a b => a.id ≤ b.id)
    (id : ElementId) :
    rows = rows.filter (·.id < id) ++ (rows.filter (·.id == id) ++ rows.filter (id < ·.id)) := by
  induction rows with
  | nil => rfl
  | cons row rows ih =>
    obtain ⟨least, sorted⟩ := List.pairwise_cons.mp sorted
    have later := ih sorted
    by_cases smaller : row.id < id
    · have other : row.id ≠ id := UInt64.ne_of_lt smaller
      have less : ¬ id < row.id := UInt64.lt_asymm smaller
      simp only [List.filter_cons, decide_eq_true smaller, beq_false_of_ne other,
        decide_eq_false less, if_true, List.cons_append]
      exact congrArg (row :: ·) later
    · have reached : id ≤ row.id := UInt64.not_lt.mp smaller
      have noneSmaller : rows.filter (·.id < id) = [] := by
        rw [List.filter_eq_nil_iff]
        intro r mem
        simpa using UInt64.le_trans reached (least r mem)
      rw [noneSmaller, List.nil_append] at later
      by_cases same : row.id = id
      · subst same
        simp only [List.filter_cons, decide_eq_false smaller, beq_self_eq_true, noneSmaller,
          if_true, List.cons_append]
        exact congrArg (row :: ·) later
      · have greater : id < row.id := UInt64.lt_of_le_of_ne reached (Ne.symm same)
        have gone : rows.filter (·.id == id) = [] := by
          rw [List.filter_eq_nil_iff]
          intro r mem
          have past := UInt64.lt_of_lt_of_le greater (least r mem)
          simpa using (UInt64.ne_of_lt past).symm
        rw [gone, List.nil_append] at later
        simp only [List.filter_cons, decide_eq_false smaller, beq_false_of_ne same,
          decide_eq_true greater, noneSmaller, gone, if_true]
        exact congrArg (row :: ·) later

theorem mem_of_filter_eq {rows rows' : List Row}
    (same : ∀ id : ElementId, rows.filter (·.id == id) = rows'.filter (·.id == id)) {row : Row}
    (there : row ∈ rows) : row ∈ rows' := by
  have kept : row ∈ rows.filter (·.id == row.id) := by simp [there]
  rw [same row.id] at kept
  exact (List.mem_filter.mp kept).1

theorem first_le {first row : Row} {rows : List Row}
    (sorted : (first :: rows).Pairwise fun a b => a.id ≤ b.id) (there : row ∈ first :: rows) :
    first.id ≤ row.id := by
  rcases List.mem_cons.mp there with rfl | there
  · exact UInt64.le_refl _
  · exact (List.pairwise_cons.mp sorted).1 row there

/-- Sorted rows are known by the rows of each element. -/
theorem eq_of_filter_eq {rows rows' : List Row} (sorted : rows.Pairwise fun a b => a.id ≤ b.id)
    (sorted' : rows'.Pairwise fun a b => a.id ≤ b.id)
    (same : ∀ id : ElementId, rows.filter (·.id == id) = rows'.filter (·.id == id)) :
    rows = rows' := by
  have back (id : ElementId) := (same id).symm
  induction rows generalizing rows' with
  | nil =>
    symm
    rw [List.eq_nil_iff_forall_not_mem]
    intro row there
    exact List.not_mem_nil (mem_of_filter_eq back there)
  | cons row rows ih =>
    cases rows' with
    | nil => exact absurd (mem_of_filter_eq same List.mem_cons_self) List.not_mem_nil
    | cons row' rows' =>
      -- Each of the first rows stands in the other list, so that neither has the smaller id.
      have one : row.id = row'.id := by
        apply UInt64.le_antisymm
        · exact first_le sorted (mem_of_filter_eq back List.mem_cons_self)
        · exact first_le sorted' (mem_of_filter_eq same List.mem_cons_self)
      have first := same row.id
      simp only [List.filter_cons, ← one, beq_self_eq_true, if_true] at first
      obtain rfl : row = row' := (List.cons.inj first).1
      have rest (id : ElementId) : rows.filter (·.id == id) = rows'.filter (·.id == id) := by
        have both := same id
        simp only [List.filter_cons] at both
        split at both
        · exact (List.cons.inj both).2
        · exact both
      exact congrArg (row :: ·) (ih sorted.of_cons sorted'.of_cons rest fun id => (rest id).symm)

end Row

/-! ### Parents -/

namespace Parent

theorem covers_iff {p : Parent} {id : ElementId} :
    p.covers id = true ↔ p = .anywhere ∨ p.word = id := by
  rw [covers, Bool.or_eq_true, beq_iff_eq, beq_iff_eq]

/-- Each word stands for a parent, and is what that parent is written as. -/
theorem word_ofWord (w : ElementId) : (ofWord w).word = w := by
  unfold ofWord
  split
  · next zero => exact zero.symm
  · split
    · next ones => exact ones.symm
    · rfl

theorem ofWord_eq_anywhere_iff {w : ElementId} : ofWord w = .anywhere ↔ w = anywhere.word := by
  constructor
  · intro same
    rw [← word_ofWord w, same]
  · rintro rfl
    rfl

end Parent

/-! ### Answers of a table -/

namespace Table

section

variable (t : Table) (id : ElementId)

theorem lower_eq : t.lower id = (t.rows.toList.filter (·.id < id)).length := by
  apply bisect_append (Row.eq_append_of_sorted t.sorted id)
  · intro row mem
    exact (List.mem_filter.mp mem).2
  · intro row mem
    rw [decide_eq_false_iff_not]
    rcases List.mem_append.mp mem with mem | mem
    · rw [beq_iff_eq.mp (List.mem_filter.mp mem).2]
      exact UInt64.lt_irrefl id
    · exact UInt64.lt_asymm (of_decide_eq_true (List.mem_filter.mp mem).2)

theorem upper_eq : t.upper id =
    (t.rows.toList.filter (·.id < id)).length + (t.rows.toList.filter (·.id == id)).length := by
  have parts := Row.eq_append_of_sorted t.sorted id
  rw [← List.append_assoc] at parts
  rw [← List.length_append]
  apply bisect_append parts
  · intro row mem
    rw [decide_eq_true_eq]
    rcases List.mem_append.mp mem with mem | mem
    · exact UInt64.le_of_lt (of_decide_eq_true (List.mem_filter.mp mem).2)
    · rw [beq_iff_eq.mp (List.mem_filter.mp mem).2]
      exact UInt64.le_refl id
  · intro row mem
    rw [decide_eq_false_iff_not, UInt64.not_le]
    exact of_decide_eq_true (List.mem_filter.mp mem).2

/-- From the lower end on stand the rows of the element, and then those of greater ids. -/
theorem drop_lower : t.rows.toList.drop (t.lower id) =
    t.rows.toList.filter (·.id == id) ++ t.rows.toList.filter (id < ·.id) :=
  calc t.rows.toList.drop (t.lower id)
    _ = (t.rows.toList.filter (·.id < id) ++ (t.rows.toList.filter (·.id == id) ++
          t.rows.toList.filter (id < ·.id))).drop (t.lower id) :=
        congrArg (List.drop _) (Row.eq_append_of_sorted t.sorted id)
    _ = _ := List.drop_left' (t.lower_eq id).symm

/-- The declarations of an element are all of its rows. -/
theorem declarations_eq : t.declarations id = t.rows.toList.filter (·.id == id) := by
  rw [declarations, Array.toList_extract, List.extract_eq_take_drop, drop_lower, upper_eq, lower_eq,
    Nat.add_sub_cancel_left, List.take_left]

/-- An element is found by the first of its rows. -/
theorem find?_eq : t.find? id = (t.rows.toList.filter (·.id == id)).head? := by
  rw [find?, ← Array.getElem?_toList, ← List.head?_drop, drop_lower]
  cases rows : t.rows.toList.filter (·.id == id) with
  | nil =>
    rw [List.nil_append, List.head?_nil, Option.filter_eq_none_iff]
    intro row first same
    have greater := (List.mem_filter.mp (List.mem_of_head? first)).2
    rw [beq_iff_eq.mp same, decide_eq_true_eq] at greater
    exact UInt64.lt_irrefl id greater
  | cons row rest =>
    have mem : row ∈ t.rows.toList.filter (·.id == id) := by
      rw [rows]
      exact List.mem_cons_self
    rw [List.cons_append, List.head?_cons, List.head?_cons, Option.filter_some,
      if_pos (List.mem_filter.mp mem).2]

end

/-- A value is given a tag if the row that the element is found by declares its kind. -/
theorem make_isSome_iff (t : Table) {id : ElementId} {value : Value}
    (plain : value.kind ≠ .binary) :
    (t.make id value).isSome = true ↔ ∃ row, t.find? id = some row ∧ row.kind = value.kind := by
  obtain ⟨content, held⟩ := make.exists_plain plain
  rw [make]
  cases found : t.find? id with
  | none => simp
  | some row => simp [held]

/-- The tag that a value is given is named by the table and holds the value. -/
theorem name_value_of_make {t : Table} {id : ElementId} {value : Value} {tag : Tag}
    (made : t.make id value = some tag) :
    tag.id = id ∧ tag.name = t.name id ∧ tag.content.value = value := by
  obtain ⟨row, found, made⟩ := Option.bind_eq_some_iff.mp made
  split at made
  · obtain ⟨content, held, rfl⟩ := Option.map_eq_some_iff.mp made
    refine ⟨rfl, ?_, ?_⟩
    · rw [name, found, Option.bind_some]
    · cases value with
      | binary => cases held
      | master | unsigned | signed | float | text =>
        cases held
        rfl
  · cases made

variable {rows rows' : List Row} {id : ElementId}

theorem declarations_ofRows : (ofRows rows).declarations id = rows.filter (·.id == id) := by
  rw [declarations_eq]
  exact Row.filter_sort rows id

theorem find?_ofRows : (ofRows rows).find? id = rows.find? (·.id == id) := by
  rw [find?_eq, ← List.head?_filter]
  exact congrArg List.head? (Row.filter_sort rows id)

/-- What may stand in a container is what some declaration says, wherever it was made. -/
theorem admits_ofRows_iff {parent : ElementId} : (ofRows rows).admits parent id = true ↔
    ∃ row ∈ rows, row.id = id ∧ (row.parent = .anywhere ∨ row.parent.word = parent) := by
  rw [admits, declarations_ofRows, List.any_eq_true]
  simp only [List.mem_filter, beq_iff_eq, Parent.covers_iff, and_assoc]

/-- Rows of different elements may be mixed in any way. -/
theorem ofRows_congr
    (same : ∀ id : ElementId, rows'.filter (·.id == id) = rows.filter (·.id == id)) :
    ofRows rows' = ofRows rows := by
  have sorted : Row.sort rows' = Row.sort rows := by
    apply Row.eq_of_filter_eq (Row.pairwise_sort rows') (Row.pairwise_sort rows)
    intro id
    rw [Row.filter_sort, Row.filter_sort, same]
  simp only [ofRows, sorted]

end Table

/-- **A table answers as its declarations read.** However they are ordered and whatever is declared
more than once, the first declaration of an element is found, and its kind and its name are given;
an element without one is binary and has no name. It may stand where any of its declarations says,
those of other elements notwithstanding; what they say is written as a word. A value other than a
binary one gets a tag exactly if the first declaration is of its kind, and binary values are all
left raw. So to mix the declarations of different elements in another way changes nothing. -/
theorem Table.answers_as_declared (rows : List Row) :
    (∀ id : ElementId,
      (ofRows rows).find? id = rows.find? (·.id == id) ∧
      (ofRows rows).schema.kindOf id = ((rows.find? (·.id == id)).map Row.kind).getD .binary ∧
      (ofRows rows).schema.name id = (rows.find? (·.id == id)).bind Row.name ∧
      (∀ parent : Tag, (ofRows rows).schema.admits parent id = true ↔
        ∃ row ∈ rows, row.id = id ∧ (row.parent = .anywhere ∨ row.parent.word = parent.id)) ∧
      (∀ value : Value,
        (value.kind ≠ .binary → (((ofRows rows).schema.make id value).isSome = true ↔
          ∃ row, rows.find? (·.id == id) = some row ∧ row.kind = value.kind)) ∧
        ∀ tag, (ofRows rows).schema.make id value = some tag → tag.id = id ∧
          tag.name = (rows.find? (·.id == id)).bind Row.name ∧ tag.content.value = value) ∧
      ∀ data, (ofRows rows).schema.tagOf id (.binary data) =
        .ok ⟨id, (rows.find? (·.id == id)).bind Row.name, .raw data⟩) ∧
    (∀ word : ElementId, (Parent.ofWord word).word = word ∧
      (Parent.ofWord word = .anywhere ↔ word = Parent.anywhere.word)) ∧
    ∀ {rows' : List Row},
      (∀ id : ElementId, rows'.filter (·.id == id) = rows.filter (·.id == id)) →
        ofRows rows' = ofRows rows := by
  refine ⟨?_, ?_, ofRows_congr⟩
  · intro id
    have first : (ofRows rows).find? id = rows.find? (·.id == id) := find?_ofRows
    have name : (ofRows rows).name id = (rows.find? (·.id == id)).bind Row.name := by
      rw [Table.name, first]
    refine ⟨first, ?_, name, fun parent => admits_ofRows_iff, ?_, ?_⟩
    · change (ofRows rows).kindOf id = _
      rw [kindOf, first]
    · intro value
      rw [← name, ← first]
      exact ⟨make_isSome_iff _, fun tag => name_value_of_make⟩
    · intro data
      have declined : (ofRows rows).schema.make id (.binary data) = none := make_binary _ id data
      simp only [Schema.tagOf, declined, ← name]
      rfl
  · intro word
    exact ⟨Parent.word_ofWord word, Parent.ofWord_eq_anywhere_iff⟩

/-- A group, declared between two declarations of one element that contradict each other. -/
def mixedRows : List Row :=
  [⟨0xA1, some "Count", .unsigned, .element 0xA0⟩, ⟨0xA0, some "Group", .master, .root⟩,
    ⟨0xA1, some "Text", .text, .anywhere⟩]

/-- The same declarations, the group's first. -/
def groupedRows : List Row :=
  [⟨0xA0, some "Group", .master, .root⟩, ⟨0xA1, some "Count", .unsigned, .element 0xA0⟩,
    ⟨0xA1, some "Text", .text, .anywhere⟩]

theorem filter_groupedRows (id : ElementId) :
    groupedRows.filter (·.id == id) = mixedRows.filter (·.id == id) := by
  by_cases group : id = 0xA0
  · subst group
    rfl
  · have other : ((0xA0 : ElementId) == id) = false := beq_false_of_ne (Ne.symm group)
    simp only [groupedRows, mixedRows, List.filter_cons, other]
    rfl

theorem Table.answers_as_declared_mixedRows :
    ((Value.unsigned 5).kind ≠ .binary ∧
      ∃ tag, (ofRows mixedRows).schema.make 0xA1 (.unsigned 5) = some tag ∧ tag.id = 0xA1 ∧
        tag.name = some "Count" ∧ tag.content.value = .unsigned 5) ∧
    (∀ id : ElementId, groupedRows.filter (·.id == id) = mixedRows.filter (·.id == id)) ∧
      ofRows groupedRows = ofRows mixedRows := by
  obtain ⟨answers, -, mixes⟩ := answers_as_declared mixedRows
  obtain ⟨-, -, -, -, makes, -⟩ := answers 0xA1
  obtain ⟨made, held⟩ := makes (.unsigned 5)
  have plain : (Value.unsigned 5).kind ≠ .binary := by decide
  have declared : ∃ row, mixedRows.find? (·.id == 0xA1) = some row ∧
      row.kind = (Value.unsigned 5).kind := ⟨_, rfl, rfl⟩
  obtain ⟨tag, tagged⟩ := Option.isSome_iff_exists.mp ((made plain).mpr declared)
  exact ⟨⟨plain, tag, tagged, held tag tagged⟩, filter_groupedRows, mixes filter_groupedRows⟩

end TagStream
