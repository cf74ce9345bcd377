import TagStream.Reader.Basic

/-!
What a step of a reader can be. `Reader.Stepped` and `Reader.Acted` list the cases of a step that
gives a report, each with what has been found out on the way; `stepped_of_next` says that there are
no others. The frame lemmas say which parts of a reader a step leaves alone.
-/

namespace TagStream.Reader

/-- What acting on a settled tag gives. -/
inductive Acted (schema : Schema) (r : Reader) : Except Lack Verdict → Report × Reader → Prop where
  | enter {header : Header} {closing opening : Tag} :
      schema.tagOf header.id (.master .closing) = .ok closing →
      schema.tagOf header.id (.master .opening) = .ok opening →
      Acted schema r (.ok (.enter header))
        ((r.consume header.length).place schema header.id
          ⟨opening, ⟨r.offset, header.length, header.size⟩⟩
          (some ⟨closing, ⟨r.offset, header.length, header.size⟩⟩))
  | leaf {header : Header} {length : Nat} {tag : Tag} :
      schema.tagOfPayload header.id (schema.kindOf header.id)
        ((r.consume header.length).window.front length) = .ok (.ok tag) →
      Acted schema r (.ok (.read header length))
        (((r.consume header.length).consume length).place schema header.id
          ⟨tag, ⟨r.offset, header.length, header.size⟩⟩ none)
  | malformed {header : Header} {length : Nat} {malformed : Malformed} :
      schema.tagOfPayload header.id (schema.kindOf header.id)
        ((r.consume header.length).window.front length) = .ok (.error malformed) →
      Acted schema r (.ok (.read header length))
        (((r.consume header.length).consume length).stop
          (.payload header.id malformed ((r.consume header.length).window.front length)))
  | refuse (fault : Fault) : Acted schema r (.ok (.refuse fault)) (r.stop fault)
  | fallShort (lack : Lack) : Acted schema r (.error lack) (r.fallShort lack)

theorem acted_of_act {schema : Schema} {r : Reader} {settled : Except Lack Verdict}
    {given : Report × Reader} (h : act r schema settled = .ok given) :
    Acted schema r settled given := by
  cases settled with
  | error lack =>
    cases h
    exact .fallShort lack
  | ok verdict =>
    cases verdict with
    | refuse fault =>
      cases h
      exact .refuse fault
    | enter header =>
      simp only [act, enter, bind, Except.bind, pure, Except.pure] at h
      cases closed : schema.tagOf header.id (.master .closing) with
      | error defect => simp [closed] at h
      | ok closing =>
        cases opened : schema.tagOf header.id (.master .opening) with
        | error defect => simp [closed, opened] at h
        | ok opening =>
          simp only [closed, opened, Except.ok.injEq] at h
          subst h
          exact .enter closed opened
    | read header length =>
      simp only [act, readLeaf, bind, Except.bind, pure, Except.pure] at h
      cases read : schema.tagOfPayload header.id (schema.kindOf header.id)
          ((r.consume header.length).window.front length) with
      | error defect => simp [read] at h
      | ok result =>
        cases result with
        | ok tag =>
          simp only [read, Except.ok.injEq] at h
          subst h
          exact .leaf read
        | error malformed =>
          simp only [read, Except.ok.injEq] at h
          subst h
          exact .malformed read

/-- What a step gives. -/
inductive Stepped {σ : Type} [ByteSource σ] (schema : Schema) (r : Reader) (source : σ) :
    Report × Reader × σ → Prop where
  | repeated {faultClass : FaultClass} : r.stopped = some faultClass →
      Stepped schema r source (.fault (.repeated faultClass), r, source)
  | owed {emission : Emission} {r₁ : Reader} : r.stopped = none →
      r.owed? = some (emission, r₁) →
      Stepped schema r source (.tag emission, (r₁.emit emission).2, source)
  | acted {settled : Except Lack Verdict} {window : Window} {source' : σ}
      {given : Report × Reader} : r.stopped = none → r.owed? = none →
      r.window.gather schema source = (settled, window, source') →
      act { r with window } schema settled = .ok given →
      Stepped schema r source (given.1, given.2, source')

/-- A step that reads acts on what it has gathered. -/
theorem next_of_gather {σ : Type} [ByteSource σ] {schema : Schema} {r : Reader}
    {source source' : σ} {settled : Except Lack Verdict} {window : Window}
    (running : r.stopped = none) (idle : r.owed? = none)
    (gathered : r.window.gather schema source = (settled, window, source')) :
    r.next schema source =
      (act { r with window } schema settled).map fun given => (given.1, given.2, source') := by
  unfold next
  split
  · next stopped =>
    rw [running] at stopped
    cases stopped
  · rw [idle]
    simp only [gathered]

theorem stepped_of_next {σ : Type} [ByteSource σ] {schema : Schema} {r : Reader} {source : σ}
    {result : Report × Reader × σ} (h : r.next schema source = .ok result) :
    Stepped schema r source result := by
  unfold next at h
  split at h
  · next faultClass stopped =>
    cases h
    exact .repeated stopped
  · next stopped =>
    split at h
    · next emission r₁ owed =>
      cases h
      exact .owed stopped owed
    · next owed =>
      obtain ⟨settled, window, source', gathered⟩ :
          ∃ settled window source', r.window.gather schema source = (settled, window, source') :=
        ⟨_, _, _, rfl⟩
      simp only [gathered] at h
      cases acted : act { r with window } schema settled with
      | error defect => simp [acted, Except.map] at h
      | ok given =>
        simp only [acted, Except.map, Except.ok.injEq] at h
        subst h
        exact .acted stopped owed gathered acted

/-- The cases are steps. -/
theorem Stepped.next_eq {σ : Type} [ByteSource σ] {schema : Schema} {r : Reader} {source : σ}
    {result : Report × Reader × σ} (h : Stepped schema r source result) :
    r.next schema source = .ok result := by
  cases h with
  | repeated stopped => simp only [next, stopped]
  | owed stopped owed =>
    simp only [next, stopped, owed]
    rfl
  | acted stopped owed gathered acted =>
    rw [next_of_gather stopped owed gathered, acted]
    rfl

/-! ### What a step leaves alone -/

/-- Nothing is owed where no tag is put off and the innermost container is not complete. -/
theorem owed?_eq_none_iff {r : Reader} :
    r.owed? = none ↔
      r.deferred = none ∧ ∀ k ∈ r.containers.head?, isComplete k.position r.offset = false := by
  cases deferred : r.deferred <;> cases containers : r.containers <;>
    simp [owed?, deferred, containers]

theorem deferred_of_owed {r : Reader} (owed : r.owed? = none) : r.deferred = none :=
  (owed?_eq_none_iff.mp owed).1

/-- Whether a tag is owed does not depend on the resident bytes. -/
theorem owed?_eq_none_of_offset {r : Reader} {window : Window} (owed : r.owed? = none)
    (same : window.offset = r.offset) : owed? { r with window } = none := by
  obtain ⟨idle, incomplete⟩ := owed?_eq_none_iff.mp owed
  rw [owed?_eq_none_iff, offset, same]
  exact ⟨idle, incomplete⟩

/-- Giving what is owed reads nothing. -/
theorem window_of_owed {r r' : Reader} {emission : Emission} (h : r.owed? = some (emission, r')) :
    r'.window = r.window ∧ r'.stopped = r.stopped := by
  unfold owed? at h
  split at h
  · obtain ⟨-, rfl⟩ : _ ∧ _ := by simpa using h
    exact ⟨rfl, rfl⟩
  · cases h
  · split at h
    · obtain ⟨-, rfl⟩ : _ ∧ _ := by simpa using h
      exact ⟨rfl, rfl⟩
    · cases h

theorem window_place (r : Reader) (schema : Schema) (id : ElementId) (emission : Emission)
    (closing : Option Emission) :
    (r.place schema id emission closing).2.window = r.window ∧
      (r.place schema id emission closing).2.stopped = r.stopped := by
  unfold place
  split
  · split <;> exact ⟨rfl, rfl⟩
  · exact ⟨rfl, rfl⟩

theorem window_closeAtEnd (r : Reader) :
    r.closeAtEnd.2.window = r.window ∧ r.closeAtEnd.2.stopped = r.stopped := by
  unfold closeAtEnd
  split <;> exact ⟨rfl, rfl⟩

/-- A lack of bytes consumes none. -/
theorem window_fallShort (r : Reader) (lack : Lack) : (r.fallShort lack).2.window = r.window := by
  unfold fallShort
  split
  · rfl
  · exact (window_closeAtEnd r).1
  all_goals rfl

/-- The report of a tag that has been placed is a tag. -/
theorem isTag_place (r : Reader) (schema : Schema) (id : ElementId) (emission : Emission)
    (closing : Option Emission) : (r.place schema id emission closing).1.isTag = true := by
  unfold place
  split
  · split <;> rfl
  · rfl

/-! ### What a step leaves on the stack -/

theorem mem_containers_of_place {r : Reader} {schema : Schema} {id : ElementId}
    {emission k : Emission} {closing : Option Emission}
    (mem : k ∈ (r.place schema id emission closing).2.containers) :
    k ∈ closing ∨ k ∈ r.containers := by
  unfold place at mem
  split at mem
  · next innermost outer stack =>
    rw [stack]
    split at mem
    · rcases List.mem_append.mp mem with mem | mem
      · exact .inl (Option.mem_toList.mp mem)
      · exact .inr (List.mem_cons_of_mem _ mem)
    · rcases List.mem_append.mp mem with mem | mem
      · exact .inl (Option.mem_toList.mp mem)
      · exact .inr (stack ▸ mem)
  · exact .inl (Option.mem_toList.mp mem)

theorem mem_containers_of_fallShort {r : Reader} (lack : Lack) {k : Emission}
    (mem : k ∈ (r.fallShort lack).2.containers) : k ∈ r.containers := by
  unfold fallShort at mem
  split at mem
  · exact mem
  · unfold closeAtEnd at mem
    split at mem
    · exact mem
    · next stack =>
      rw [stack]
      exact List.mem_cons_of_mem _ mem
  all_goals exact mem

theorem mem_containers_of_owed {r r' : Reader} {emission k : Emission}
    (h : r.owed? = some (emission, r')) (mem : k ∈ r'.containers) : k ∈ r.containers := by
  unfold owed? at h
  split at h
  · cases h
    exact mem
  · cases h
  · next stack =>
    rw [stack]
    split at h
    · cases h
      exact List.mem_cons_of_mem _ mem
    · cases h

end TagStream.Reader
