import TagStream.Proofs.Document
import TagStream.Proofs.Turn

/-!
Tags inside containers of unknown size. A tag is held against the container on top of the stack when
it is read. If it may not stand there, it closes that container, takes its place, and is given next
without being held against the container around it. Hence a tag that is given inside a container of
unknown size either may stand in it, or has just displaced another one (`admits_or_displaced`); and
where two such containers end with one tag, only the inner one is closed for it
(`not_holdsChildren_nestedHeader`).
-/

namespace TagStream

/-- Every tag that begins an element inside a container of unknown size may stand there. -/
def HoldsChildren (schema : Schema) (emissions : List Emission) : Prop :=
  ∀ (before after : List Emission) (e : Emission) (u : ElementId × Position)
    (outer : List (ElementId × Position)),
    emissions = before ++ e :: after → e.isClosing = false → nest [] before = some (u :: outer) →
      u.2.size = .unknown → Document.admits schema u.1 e.tag.id = true

/-- Whether an element may stand in a container depends on the container's id alone. -/
theorem Schema.Tabular.admits_eq {schema : Schema} (tabular : schema.Tabular) (k : Tag)
    (id : ElementId) : schema.admits k id = Document.admits schema k.id id := by
  cases tabular <;> rfl

/-- What it takes to be displaced: an unknown size, and a tag that may not stand inside. -/
theorem Reader.displaces_eq_true_iff {schema : Schema} (tabular : schema.Tabular)
    {id : ElementId} {k : Emission} :
    displaces schema id k = true ↔
      k.position.size = .unknown ∧ Document.admits schema k.tag.id id = false := by
  rw [displaces, tabular.admits_eq]
  cases k.position.size <;> simp [Size.isKnown]

/-! ### Tags that were put off -/

/-- A tag that has been put off displaced the container that was closed last. -/
structure Displacing (schema : Schema) (given : List Emission) (r : Reader) : Prop where
  closings : r.OwesClosings
  displaced : ∀ e, r.deferred = some e → ∃ first k, given = first ++ [k] ∧ k.isClosing = true ∧
    Reader.displaces schema e.tag.id k = true

theorem Displacing.turn {schema : Schema} {given : List Emission} {r r' : Reader} {report : Report}
    (displacing : Displacing schema given r) (turn : r.Turn schema report r') :
    Displacing schema (given ++ report.tag?.toList) r' := by
  obtain ⟨closings, displaced⟩ := displacing
  refine ⟨turn.owesClosings closings, ?_⟩
  intro e deferred'
  cases turn with
  | still silent deferred =>
    rw [silent, Option.toList_none, List.append_nil]
    exact displaced e (deferred.symm.trans deferred')
  | deferred _ idle | close _ idle | place _ _ _ _ _ idle =>
    rw [idle] at deferred'
    cases deferred'
  | @displace e' k closing outer _ _ stack _ displaces _ deferred =>
    rw [deferred] at deferred'
    cases deferred'
    have closes : k.isClosing = true := beq_iff_eq.mpr (closings k (stack ▸ List.mem_cons_self))
    exact ⟨given, k, rfl, closes, displaces⟩

/-! ### Runs -/

variable {σ : Type} [ByteSource σ] {change : σ → σ → Prop} {schema : Schema} {r r' : Reader}
  {source source' : σ} {seen : List Observation}

/-- Over every run from the start of a stream, a tag that begins an element inside a container of
unknown size may stand in it; or it was given right after the closing tag of another container of
unknown size, the innermost one until then, in which it may not stand. -/
theorem admits_or_displaced (tabular : schema.Tabular) (start : r.AtStart)
    (run : Run schema change r source seen r' source') {before after : List Emission} {e : Emission}
    {u : ElementId × Position} {outer : List (ElementId × Position)}
    (split : tagsSeen seen = before ++ e :: after) (begins : e.isClosing = false)
    (inside : nest [] before = some (u :: outer)) (unsized : u.2.size = .unknown) :
    Document.admits schema u.1 e.tag.id = true ∨
      ∃ first k, before = first ++ [k] ∧ k.isClosing = true ∧ k.position.size = .unknown ∧
        nest [] first = some (k.element :: u :: outer) ∧
        Document.admits schema k.tag.id e.tag.id = false := by
  obtain ⟨r₁, r₂, source₁, source₂, first, upTo, later, ⟨early, rfl⟩, -, -, turn⟩ :=
    run.exists_turn tabular split
  obtain ⟨unclosed, matched, stack⟩ := early.unclosed tabular start
  have closings := early.owesClosings tabular start.owesClosings
  obtain rfl := Option.some.inj (matched.symm.trans inside)
  -- What is on the stack closes a container, and so is not the tag that begins an element.
  have absurd_of_mem : e ∈ r₁.containers → False := by
    intro mem
    have closes : e.isClosing = true := beq_iff_eq.mpr (closings e mem)
    rw [begins] at closes
    cases closes
  cases turn with
  | still silent => cases silent
  | close _ _ containers => exact (absurd_of_mem (containers ▸ List.mem_cons_self)).elim
  | displace _ containers => exact (absurd_of_mem (containers ▸ List.mem_cons_self)).elim
  | place idle _ _ kept =>
    obtain ⟨k, ks, containers, rfl, -⟩ := List.map_eq_cons_iff.mp (stack idle).symm
    have stays := kept k (by rw [containers]; rfl)
    refine .inl ?_
    cases admits : Document.admits schema k.element.1 e.tag.id with
    | true => rfl
    | false =>
      rw [(Reader.displaces_eq_true_iff tabular).mpr ⟨unsized, admits⟩] at stays
      cases stays
  | deferred deferred =>
    have begun : Displacing schema [] r := by
      refine ⟨start.owesClosings, ?_⟩
      rw [start.deferred]
      intro e deferred
      cases deferred
    have displacing := early.keeps tabular Displacing.turn begun
    obtain ⟨given, k, rest, closes, displaced⟩ := displacing.displaced e deferred
    rw [List.nil_append] at rest
    obtain ⟨unknown, barred⟩ := (Reader.displaces_eq_true_iff tabular).mp displaced
    rw [rest] at inside
    exact .inr ⟨given, k, rest, closes, unknown, nest_of_closing closes inside, barred⟩

/-- A segment and a cluster of unknown size, and then another header. -/
def nestedHeaderBytes : List UInt8 :=
  [0x18, 0x53, 0x80, 0x67, 0xFF, 0x1F, 0x43, 0xB6, 0x75, 0xFF, 0x1A, 0x45, 0xDF, 0xA3, 0x80]

/-- The tags of `nestedHeaderBytes`. -/
def nestedHeaderTags : List Emission :=
  tagsSeen ((Reader.new {}).shown Matroska.schema (File.readable nestedHeaderBytes.toArray 0) 7)

/-- The header that ends the cluster begins inside the segment, where it may not stand. -/
theorem not_holdsChildren_nestedHeader : ¬ HoldsChildren Matroska.schema nestedHeaderTags := by
  intro holds
  have admitted := holds (nestedHeaderTags.take 3) (nestedHeaderTags.drop 4)
    ⟨Matroska.schema.half Matroska.ebml .opening, ⟨10, 5, .known 0⟩⟩
    (Matroska.segment, ⟨0, 5, .unknown⟩) [] (by decide +kernel) rfl (by decide +kernel) rfl
  have barred : Document.admits Matroska.schema Matroska.segment Matroska.ebml = false := by
    decide +kernel
  exact absurd (admitted.symm.trans barred) (by intro h; cases h)

/-- The header was given right after the closing tag of the cluster, in which it may not stand
either. -/
theorem admits_or_displaced_nestedHeader :
    ∃ first k, nestedHeaderTags.take 3 = first ++ [k] ∧ k.isClosing = true ∧
      k.position.size = .unknown ∧
      Document.admits Matroska.schema k.tag.id Matroska.ebml = false := by
  obtain ⟨r', source', run⟩ : ∃ r' source', Run Matroska.schema (fun _ _ => True) (.new {})
      (File.readable nestedHeaderBytes.toArray 0)
      ((Reader.new {}).shown Matroska.schema (File.readable nestedHeaderBytes.toArray 0) 7)
      r' source' :=
    Run.exists_shown (fun _ => trivial) _ _ _ _
  have split : nestedHeaderTags = nestedHeaderTags.take 3 ++
      ⟨Matroska.schema.half Matroska.ebml .opening, ⟨10, 5, .known 0⟩⟩ ::
        nestedHeaderTags.drop 4 := by
    decide +kernel
  have inside : nest [] (nestedHeaderTags.take 3) =
      some [(Matroska.segment, ⟨0, 5, .unknown⟩)] := by
    decide +kernel
  rcases admits_or_displaced .matroska (Reader.atStart_new {}) run split rfl inside rfl
    with admitted | ⟨first, k, rest, closes, unknown, -, barred⟩
  · have barred : Document.admits Matroska.schema Matroska.segment Matroska.ebml = false := by
      decide +kernel
    exact absurd (admitted.symm.trans barred) (by intro h; cases h)
  · exact ⟨first, k, rest, closes, unknown, barred⟩

end TagStream
