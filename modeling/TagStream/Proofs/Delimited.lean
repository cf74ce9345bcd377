import TagStream.Proofs.Traversal

/-!
Why documents are delimited. Of the documents whose elements can be read, those that are delimited
are exactly those whose tags a course gives (`Document.delimited_iff_emits`): a container of unknown
size that is followed by an element it admits is not closed before that element, and one that is the
last of another container is closed without it.
-/

namespace TagStream

namespace Course

variable {schema : Schema} {limit : Nat}

/-- A course gives its tags in one way only. -/
theorem Emits.isPrefix {c c₁ c' : Course} {few many : List Emission}
    (h : Emits schema limit c few c₁) (h' : Emits schema limit c many c')
    (le : few.length ≤ many.length) : few <+: many := by
  induction h generalizing many with
  | nil => exact List.nil_prefix
  | cons step _ ih =>
    cases h' with
    | nil => cases le
    | cons step' onward =>
      obtain ⟨given, rfl⟩ := Prod.mk.inj (Except.ok.inj (step.symm.trans step'))
      cases given
      exact List.cons_prefix_cons.mpr ⟨rfl, ih onward (Nat.le_of_succ_le_succ le)⟩

/-- What a course gives after some tags, it gives from where it is then. -/
theorem Emits.onward {c c₁ c' : Course} {first later : List Emission}
    (h : Emits schema limit c first c₁) (h' : Emits schema limit c (first ++ later) c') :
    Emits schema limit c₁ later c' := by
  induction h with
  | nil => exact h'
  | cons step _ ih =>
    cases h' with
    | cons step' onward =>
      obtain ⟨given, rfl⟩ := Prod.mk.inj (Except.ok.inj (step.symm.trans step'))
      exact ih onward

end Course

namespace Document

variable {schema : Schema} {limit : Nat} {pending : Option Emission} {containers : List Emission}
  {offset : Nat} {doc : Document}

/-- The first element of a document, without those after it. -/
def first : Document → Document
  | .empty => .empty
  | .leaf heading payload _ => .leaf heading payload .empty
  | .master heading sized children _ => .master heading sized children .empty

theorem ids_first (doc : Document) : doc.first.ids = doc.ids.take 1 := by
  cases doc <;> rfl

/-- The first element of a document is met with a tag that closes nothing. -/
theorem emits_first (containers : List Emission) (offset : Nat) (tabular : schema.Tabular)
    (valid : doc.Valid schema limit) (nonempty : doc ≠ empty) (ends : Ends schema pending doc)
    (holds : pending = none → Holds schema containers offset doc.first) (tail : List UInt8) :
    ∃ emission c, emission.tag.content ≠ .master .closing ∧
      Course.Emits schema limit
        (.between (pending.toList ++ containers) offset (doc.encode ++ tail))
        (pending.toList ++ [emission]) c := by
  cases doc with
  | empty => exact absurd rfl nonempty
  | leaf heading payload next =>
    have valid' : (leaf heading payload empty).Valid schema limit := ⟨valid.1, trivial⟩
    obtain ⟨tag, -, made, content⟩ := tabular.exists_leaf? valid.1.2.2.1
    have emits := emits_leaf tabular valid' ends holds (next.encode ++ tail)
    rw [made] at emits
    exact ⟨_, _, Tag.content_ne_master content .closing, by simpa [encode] using emits⟩
  | master heading sized children next =>
    have valid' : (master heading sized children empty).Valid schema limit :=
      ⟨valid.1, valid.2.1, trivial⟩
    have emits := emits_opening tabular valid' ends holds (next.encode ++ tail)
    exact ⟨half schema heading sized children offset .opening, _, (by intro h; cases h),
      by simpa [encode] using emits⟩

/-- A container of unknown size that is closed where the elements of `doc` begin does not admit the
first of them. -/
theorem endsBefore_of_emits (tabular : schema.Tabular) (valid : doc.Valid schema limit)
    (nonempty : doc ≠ empty) {heading : Heading} {children : Document} {start : Nat}
    {tail : List UInt8} {later : List Emission} {c : Course} (followed : Bool)
    (emits : Course.Emits schema limit
      (.between (half schema heading false children start .closing :: containers) offset
        (doc.encode ++ tail))
      (half schema heading false children start .closing :: later) c) :
    endsBefore schema heading.tagId followed doc.ids = true := by
  obtain ⟨id, others, ids⟩ :=
    List.exists_cons_of_ne_nil fun unlisted => nonempty (ids_eq_nil_iff.mp unlisted)
  rw [ids, endsBefore, Bool.not_eq_true', ← Bool.not_eq_true]
  intro admitted
  have holds : Holds schema (half schema heading false children start .closing :: containers) offset
      doc.first := by
    intro top mem
    obtain rfl := Option.some.inj mem
    intro id' inside
    rw [ids_first, ids] at inside
    obtain rfl := List.mem_singleton.mp inside
    exact admitted
  obtain ⟨emission, c₁, content, given⟩ :=
    emits_first _ offset tabular valid nonempty ends_none (fun _ => holds) tail
  obtain ⟨rfl, -⟩ := List.cons_prefix_cons.mp (given.isPrefix emits (by simp))
  exact content rfl

/-- Where more elements follow, a container of unknown size cannot be the last of a container. -/
theorem not_emits_closings (tabular : schema.Tabular) (valid : doc.Valid schema limit)
    (nonempty : doc ≠ empty) {heading : Heading} {children : Document} {start : Nat}
    {tail : List UInt8} {outer : Emission} {later : List Emission} {c : Course}
    (closing : outer.tag.content = .master .closing) :
    ¬ Course.Emits schema limit
      (.between (half schema heading false children start .closing :: containers) offset
        (doc.encode ++ tail))
      (half schema heading false children start .closing :: outer :: later) c := by
  intro emits
  have ends : Ends schema (some (half schema heading false children start .closing)) doc :=
    ends_of_endsBefore (endsBefore_of_emits tabular valid nonempty false emits) start
  obtain ⟨emission, c₁, content, given⟩ := emits_first containers offset tabular valid nonempty ends
    (by intro h; cases h) tail
  obtain ⟨-, both⟩ := List.cons_prefix_cons.mp (given.isPrefix emits (by simp))
  obtain ⟨rfl, -⟩ := List.cons_prefix_cons.mp both
  exact content closing

/-- What follows a document that is not the last, inside a container: elements, and in the end the
tag that closes the container. -/
def Continues (schema : Schema) (limit : Nat) (tail : List UInt8) (later : List Emission) : Prop :=
  (∃ (doc : Document) (rest : List UInt8), doc.Valid schema limit ∧ doc ≠ empty ∧
      tail = doc.encode ++ rest) ∧
    ∃ outer rest, later = outer :: rest ∧ outer.tag.content = .master .closing

/-- A document whose tags are emitted is delimited. -/
theorem delimited_of_emits (tabular : schema.Tabular) (pending : Option Emission)
    (containers : List Emission) (offset : Nat) {tail : List UInt8} {later : List Emission}
    {c : Course} {followed : Bool} (valid : doc.Valid schema limit) (ends : Ends schema pending doc)
    (idle : doc = empty → pending = none) (holds : Holds schema containers offset doc)
    (continues : followed = true → Continues schema limit tail later)
    (emits : Course.Emits schema limit
      (.between (pending.toList ++ containers) offset (doc.encode ++ tail))
      (pending.toList ++ doc.emissions schema offset ++ later) c) :
    doc.Delimited schema followed := by
  induction doc generalizing pending containers offset tail later followed with
  | empty => trivial
  | leaf heading payload next ih =>
    have first := emits_leaf tabular valid ends (fun _ => holds) tail
    refine ih none containers _ valid.2 ends_none (fun _ => rfl) holds.after_leaf continues ?_
    refine first.onward ?_
    simpa [emissions] using emits
  | master heading sized children next ihChildren ihNext =>
    have held := holds_children valid containers offset
    have inside : Course.Emits schema limit
        (.between (half schema heading sized children offset .closing :: containers)
          (offset + heading.length) (children.encode ++ (next.encode ++ tail)))
        (children.emissions schema (offset + heading.length) ++
          half schema heading sized children offset .closing ::
            (next.emissions schema (offset + heading.length + children.encode.length) ++ later))
        c := by
      refine (emits_opening tabular valid ends (fun _ => holds) tail).onward ?_
      simpa [emissions] using emits
    have delimited : children.Delimited schema (followed || !next.ids.isEmpty) := by
      refine ihChildren none _ _ valid.2.1 ends_none (fun _ => rfl) held ?_ inside
      intro more
      refine ⟨?_, _, _, rfl, rfl⟩
      by_cases last : next = empty
      · subst last
        exact (continues (by simpa [ids] using more)).1
      · exact ⟨next, tail, valid.2.2, last, rfl⟩
    have closed (more : (followed || !next.ids.isEmpty) = true) : Course.Emits schema limit
        (.between (half schema heading sized children offset .closing :: containers)
          (offset + heading.length + children.encode.length) (next.encode ++ tail))
        (half schema heading sized children offset .closing ::
          (next.emissions schema (offset + heading.length + children.encode.length) ++ later)) c :=
      (emits_within tabular none _ _ (next.encode ++ tail) valid.2.1 (more ▸ delimited) ends_none
        (fun _ => rfl) held).onward inside
    by_cases last : next = empty
    · -- What follows the last of a container's children would have to close two containers at once.
      subst last
      refine ⟨?_, delimited, trivial⟩
      rintro rfl
      by_cases more : followed = true
      · obtain ⟨⟨doc, rest, valid', nonempty, rfl⟩, outer, rest', rfl, closing⟩ := continues more
        have emits := closed (by simp [more])
        exact absurd emits (not_emits_closings tabular valid' nonempty closing)
      · simpa [endsBefore, ids] using more
    · have onward := closed (by simp [isEmpty_ids last])
      cases sized with
      | true =>
        refine ⟨(by intro h; cases h), delimited, ?_⟩
        refine ihNext none containers _ valid.2.2 ends_none (fun _ => rfl) holds.after_master
          continues ?_
        refine (Course.emits_complete ?_).onward onward
        simp [Reader.isComplete, half, declared, Position.dataOffset]
      | false =>
        have ended : endsBefore schema heading.tagId followed next.ids = true :=
          endsBefore_of_emits tabular valid.2.2 last followed onward
        refine ⟨fun _ => ended, delimited, ?_⟩
        exact ihNext (some _) containers _ valid.2.2 (ends_of_endsBefore ended offset)
          (fun empty => absurd empty last) holds.after_master continues onward

/-- The tags of a document are those that a course gives, and nothing else follows, if and only if
the document is delimited. -/
theorem delimited_iff_emits (tabular : schema.Tabular) (pos : 0 < limit)
    (valid : doc.Valid schema limit) :
    doc.Delimited schema false ↔
      Course.Emits schema limit (.between [] 0 doc.encode) (doc.emissions schema 0)
        (.between [] doc.encode.length []) := by
  constructor
  · intro delimited
    have emits := emits_at_end tabular pos none [] 0 valid delimited ends_none holds_nil
    simpa using emits
  · intro emits
    have emits : Course.Emits schema limit (.between ([] ++ []) 0 (doc.encode ++ []))
        ([] ++ doc.emissions schema 0 ++ []) (.between [] doc.encode.length []) := by
      simpa using emits
    exact delimited_of_emits tabular none [] 0 valid ends_none (fun _ => rfl) holds_nil
      (by intro h; cases h) emits

end Document

end TagStream
