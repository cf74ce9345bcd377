import TagStream.Proofs.History
import TagStream.Proofs.Independence
import TagStream.Proofs.Tabular

/-!
Progress. The burden of a course is what can still be given on it: no more than one tag for each
byte that follows, for each container that is open, and for the tag that was put off
(`Course.burden`). A header has at least two bytes, so that every tag that is given lessens the
burden, also one that opens a container and one that is put off (`burden_lt_of_next`). Hence no more
tags are given than there are bytes, and a step that gives none is a pause of the source or the last
one (`concludes_within`).
-/

namespace TagStream

/-! ### The burden of a course -/

/-- What is entered or read has an id and a size field. -/
theorem Schema.two_le_extent {schema : Schema} {limit : Nat} {bytes : List UInt8}
    {verdict : Verdict} (h : schema.demandOf limit bytes = .settled verdict)
    (accepted : ∀ fault, verdict ≠ .refuse fault) : 2 ≤ verdict.extent := by
  have least {id size : Vint} (fits : id.Fits) (fits' : size.Fits) : 2 ≤ id.width + size.width :=
    Nat.add_le_add fits.width_pos fits'.width_pos
  cases verdict with
  | refuse fault => exact absurd rfl (accepted fault)
  | enter header =>
    obtain ⟨id, size, rest, fits, fits', -, rfl, -⟩ := container_of_enter h
    exact least fits fits'
  | read header length =>
    obtain ⟨id, size, payload, rest, fits, fits', -, -, rfl, -⟩ := leaf_of_read h
    exact Nat.le_trans (least fits fits') (Nat.le_add_right _ _)

namespace Course

variable {schema : Schema} {limit : Nat} {c c' : Course} {e : Emission}

/-- The tags that can still be given, at most. -/
def burden (c : Course) : Nat :=
  c.rest.length + c.containers.length + c.deferred.toList.length

theorem burden_of_owed (h : c.owed? = some (e, c')) : c'.burden < c.burden := by
  obtain ⟨rest, offset, deferred, containers, stopped⟩ := c
  cases deferred with
  | some emission =>
    cases h
    exact Nat.lt_succ_self _
  | none =>
    cases containers with
    | nil => cases h
    | cons innermost outer =>
      simp only [owed?] at h
      split at h
      · cases h
        exact Nat.lt_succ_self _
      · cases h

theorem burden_closeAtEnd (h : c.closeAtEnd = (.tag e, c')) : c'.burden < c.burden := by
  unfold closeAtEnd at h
  split at h
  · cases h
  · next stack =>
    cases h
    simp only [burden, stack, List.length_cons]
    omega

theorem burden_consume {count : Nat} (there : count ≤ c.rest.length) :
    (c.consume count).burden + count = c.burden := by
  simp only [burden, consume, List.length_drop]
  omega

/-- Placing a tag leaves one more to be given: its closing tag, or the tag itself. -/
theorem burden_place (idle : c.deferred = none) {id : ElementId} {emission : Emission}
    {closing : Option Emission} {report : Report}
    (h : c.place schema id emission closing = (report, c')) : c'.burden ≤ c.burden + 1 := by
  have few : closing.toList.length ≤ 1 := Option.length_toList_le
  unfold place at h
  split at h
  · next stack =>
    split at h
    · cases h
      simp only [burden, stack, idle, List.length_append, List.length_cons, Option.toList_some,
        Option.toList_none, List.length_nil]
      omega
    · cases h
      simp only [burden, stack, List.length_append, List.length_cons]
      omega
  · next stack =>
    cases h
    simp only [burden, stack, List.length_nil]
    omega

/-- A step that gives a tag without owing it places the tag at the front, or closes a container at
the end of the stream. -/
theorem place_or_close_of_act {settled : Except Lack Verdict}
    (h : c.act schema settled = .ok (.tag e, c')) :
    (∃ verdict id emission closing, settled = .ok verdict ∧ (∀ fault, verdict ≠ .refuse fault) ∧
        (c.consume verdict.extent).place schema id emission closing = (.tag e, c')) ∨
      c.closeAtEnd = (.tag e, c') := by
  rcases cases_of_act h with placed | failed | ⟨lack, rfl, short⟩
  · exact .inl placed
  · cases failed
  · obtain ⟨why, part⟩ := lack
    cases why with
    | wouldBlock | readFailed | exceedsLimit | allocationFailed => cases short
    | endOfData =>
      cases part with
      | start => exact .inr short
      | idField | sizeField | payload => cases short

/-- Every tag that is given lessens the burden. -/
theorem burden_lt_of_next (h : c.next schema limit = .ok (.tag e, c')) :
    c'.burden < c.burden := by
  cases running : c.stopped with
  | some faultClass => simp [next, running] at h
  | none =>
    rcases owed_or_act_of_next running h with ⟨emission, owed, -⟩ | ⟨idle, acted⟩
    · exact burden_of_owed owed
    · rcases place_or_close_of_act acted with ⟨verdict, id, emission, closing, settles, accepted,
        placed⟩ | closed
      · obtain ⟨demanded, -⟩ := Schema.demandOf_of_settle settles (Nat.zero_le _)
        have least := Schema.two_le_extent demanded accepted
        have spent := burden_consume (Schema.extent_le_length demanded)
        have still : (c.consume verdict.extent).deferred = none := idle
        have left := burden_place still placed
        omega
      · exact burden_closeAtEnd closed

end Course

/-! ### Before the first final report -/

/-- What is given before the first final report. -/
def underway (given : List (Report × Reader)) : List (Report × Reader) :=
  given.takeWhile fun shown => !shown.1.isFinal

/-- A report that is not final is a tag or a pause. -/
theorem length_underway (given : List (Report × Reader)) :
    (underway given).length ≤
      (underway given).countP (·.1.isTag) + given.countP (·.1.isPause) := by
  have others : (underway given).countP (fun shown => ¬ shown.1.isTag = true) ≤
      (underway given).countP (·.1.isPause) := by
    refine List.countP_mono_left ?_
    intro shown mem silent
    have going := List.all_eq_true.mp List.all_takeWhile shown mem
    obtain ⟨report, r⟩ := shown
    cases report with
    | tag => simp [Report.isTag] at silent
    | needMoreData => rfl
    | endOfStream | fault => simp [Report.isFinal] at going
  have within : (underway given).countP (·.1.isPause) ≤ given.countP (·.1.isPause) :=
    (List.takeWhile_sublist _).countP_le
  rw [List.length_eq_countP_add_countP (·.1.isTag)]
  omega

theorem underway_cons_of_final {report : Report} (final : report.isFinal = true) (r : Reader)
    (later : List (Report × Reader)) : underway ((report, r) :: later) = [] :=
  List.takeWhile_cons_of_neg (by simp [final])

theorem underway_cons_of_going {report : Report} (going : report.isFinal = false) (r : Reader)
    (later : List (Report × Reader)) :
    underway ((report, r) :: later) = (report, r) :: underway later :=
  List.takeWhile_cons_of_pos (by simp [going])

/-- Where not all that is given comes before a final report, there is one. -/
theorem exists_isFinal_of_length {given : List (Report × Reader)}
    (fewer : (underway given).length < given.length) : ∃ shown ∈ given, shown.1.isFinal = true := by
  induction given with
  | nil => cases fewer
  | cons shown later ih =>
    obtain ⟨report, r⟩ := shown
    cases final : report.isFinal with
    | true => exact ⟨_, List.mem_cons_self, final⟩
    | false =>
      rw [underway_cons_of_going final] at fewer
      obtain ⟨shown, mem, final⟩ := ih (Nat.lt_of_succ_lt_succ fewer)
      exact ⟨shown, List.mem_cons_of_mem _ mem, final⟩

variable {σ : Type} [ByteSource σ] {schema : Schema} {d : Delivery σ} {bytes : List UInt8}

namespace Reader

variable {r r' : Reader} {source source' : σ} {changes : List (σ → σ)}
  {given : List (Report × Reader)}

/-- The tags that a reader gives lessen the burden of its course, however often it pauses. -/
theorem countP_isTag_le (steady : r.Steady schema) (sound : d.sound source)
    (keeps : ∀ change ∈ changes, ∀ source, d.Keeps source (change source))
    (h : r.interleave schema source changes = .ok (given, r', source')) :
    (underway given).countP (·.1.isTag) ≤ (r.course (d.left source)).burden := by
  induction changes generalizing r source given with
  | nil =>
    cases h
    exact Nat.zero_le _
  | cons change changes ih =>
    obtain ⟨report, r₁, source₁, later, stepped, rest, rfl⟩ := cases_of_interleave h
    obtain ⟨first, others⟩ := List.forall_mem_cons.mp keeps
    obtain ⟨sound, same⟩ := first source sound
    cases final : report.isFinal with
    | true =>
      rw [underway_cons_of_final final]
      exact Nat.zero_le _
    | false =>
      rw [underway_cons_of_going final, ← same]
      rcases next_follows steady sound stepped
        with refused | ⟨sound', steady', -, ⟨paused, here⟩ | ⟨moves, onward⟩⟩
      · -- Where storage is refused, the report is final.
        cases report <;> simp_all [Report.isFinal, Report.outcome]
      · have left := ih steady' sound' others rest
        rw [here] at left
        rw [List.countP_cons_of_neg (by cases report <;> simp_all [Report.isPause, Report.isTag])]
        exact left
      · have left := ih steady' sound' others rest
        cases report with
        | tag e =>
          have less := Course.burden_lt_of_next onward
          rw [List.countP_cons_of_pos rfl]
          omega
        | needMoreData => cases moves
        | endOfStream | fault => cases final

end Reader

/-! ### Deliveries that are heard -/

/-- The source still owes what is left of `bytes` after what it has answered. -/
def Delivery.Accounted (d : Delivery σ) (bytes : List UInt8) (h : Heard σ) : Prop :=
  d.sound h.source ∧ bytes = h.answers.flatMap Answer.bytes ++ d.left h.source

theorem Delivery.lasting_accounted (d : Delivery σ) (bytes : List UInt8) :
    Lasting (d.Accounted bytes) := by
  intro h limit before asked
  obtain ⟨sound, split⟩ := before
  obtain ⟨sound', accounts⟩ := d.read_accounts sound asked
  refine ⟨sound', ?_⟩
  change _ = List.flatMap Answer.bytes (h.answers ++ [(ByteSource.read h.source limit).1]) ++ _
  rw [split, List.flatMap_append, List.flatMap_singleton, List.append_assoc]
  congr 1
  change _ = _ ++ d.left (ByteSource.read h.source limit).2
  cases answered : (ByteSource.read h.source limit).1 with
  | data bytes =>
    rw [answered] at accounts
    exact accounts.2
  | wouldBlock =>
    rw [answered] at accounts
    exact accounts.symm
  | endOfData =>
    rw [answered] at accounts
    rw [accounts.1, accounts.2]
    rfl
  | failed =>
    rw [answered] at accounts
    exact accounts.elim

theorem Delivery.Keeps.accounted {change : σ → σ} (keeps : ∀ source, d.Keeps source (change source))
    (h : Heard σ) (before : d.Accounted bytes h) : d.Accounted bytes (h.lift change) := by
  obtain ⟨sound, split⟩ := before
  obtain ⟨sound', same⟩ := keeps h.source sound
  refine ⟨sound', ?_⟩
  change bytes = List.flatMap Answer.bytes h.answers ++ d.left (change h.source)
  rw [same]
  exact split

/-! ### Bounds -/

theorem Schema.Defectless.exists_interleave (defectless : schema.Defectless) (r : Reader)
    (source : σ) (changes : List (σ → σ)) :
    ∃ result, r.interleave schema source changes = .ok result := by
  induction changes generalizing r source with
  | nil => exact ⟨_, rfl⟩
  | cons change changes ih =>
    obtain ⟨⟨report, r₁, source₁⟩, stepped⟩ := defectless.exists_next r (change source)
    obtain ⟨result, rest⟩ := ih r₁ source₁
    exact ⟨_, by rw [Reader.interleave_cons stepped, rest]; rfl⟩

theorem Schema.Defectless.exists_steps (defectless : schema.Defectless) (r : Reader) (source : σ)
    (count : Nat) : ∃ result, r.steps schema source count = .ok result := by
  induction count generalizing r source with
  | zero => exact ⟨_, rfl⟩
  | succ count ih =>
    obtain ⟨⟨report, r₁, source₁⟩, stepped⟩ := defectless.exists_next r source
    obtain ⟨result, rest⟩ := ih r₁ source₁
    exact ⟨_, by rw [Reader.steps_succ stepped, rest]; rfl⟩

/-- Over a source that delivers some bytes and then comes to its end, with a schema that has no
defects, every step gives a report. Before the first final one there are no more tags than bytes,
and no more steps than bytes and pauses of the source; with more steps than that, there is a final
report. No more reads are made than there are bytes and steps. -/
theorem concludes_within (defectless : schema.Defectless) (c : Config) {source : σ}
    (owes : d.Owes source bytes) (changes : List (σ → σ))
    (keeps : ∀ change ∈ changes, ∀ source, d.Keeps source (change source)) :
    ∃ given r' source' answers,
      (Reader.new c).interleave schema source changes = .ok (given, r', source') ∧
      (Reader.new c).interleave schema (⟨source, []⟩ : Heard σ) (changes.map Heard.lift) =
        .ok (given, r', ⟨source', answers⟩) ∧
      (underway given).countP (·.1.isTag) ≤ bytes.length ∧
      (underway given).length ≤ bytes.length + answers.countP Answer.isPause ∧
      (bytes.length + answers.countP Answer.isPause < changes.length →
        ∃ shown ∈ given, shown.1.isFinal = true) ∧
      answers.length ≤ bytes.length + changes.length := by
  have start := Reader.atStart_new c
  obtain ⟨⟨given, r', source', answers⟩, heard⟩ :=
    defectless.exists_interleave (.new c) (⟨source, []⟩ : Heard σ) (changes.map Heard.lift)
  have plain := Reader.interleave_heard (.new c) schema (⟨source, []⟩ : Heard σ) changes
  rw [heard] at plain
  have tags := Reader.countP_isTag_le (start.steady schema) owes.1 keeps plain
  rw [start.course, owes.2] at tags
  obtain ⟨told, heard_eq, pauses, reads⟩ := Reader.hears_interleave (Nat.le_refl _) heard
  obtain rfl : answers = told := heard_eq
  have accounted : d.Accounted bytes ⟨source', answers⟩ := by
    refine Reader.lasting_interleave (d.lasting_accounted bytes) ?_ ?_ heard
    · intro lifted listed
      obtain ⟨change, mem, rfl⟩ := List.mem_map.mp listed
      exact Delivery.Keeps.accounted (keeps change mem)
    · exact ⟨owes.1, owes.2.symm⟩
  have delivered : (answers.flatMap Answer.bytes).length ≤ bytes.length := by
    rw [accounted.2, List.length_append]
    exact Nat.le_add_right _ _
  have few : (underway given).countP (·.1.isTag) ≤ bytes.length := tags
  have enough : (underway given).length ≤ bytes.length + answers.countP Answer.isPause := by
    have steps := length_underway given
    omega
  refine ⟨given, r', source', answers, plain, heard, few, enough, ?_, by omega⟩
  intro more
  refine exists_isFinal_of_length ?_
  rw [Reader.length_of_interleave plain]
  exact Nat.lt_of_le_of_lt enough more

/-- What a reader with a small window hears and gives over twenty-two bytes, each of which comes
with two pauses. -/
def drippingRun : Except Defect (List (Report × Reader) × Reader × Heard Script) :=
  (Reader.new { minWindow := 1, maxWindow := 64 }).interleave Matroska.schema
    (⟨Script.dripping clusterBytes, []⟩ : Heard Script) ((List.replicate 67 id).map Heard.lift)

/-- The source pauses forty-four times, so that sixty-seven steps reach the end. -/
theorem concludes_within_dripping :
    ∃ given r' source' answers, drippingRun = .ok (given, r', ⟨source', answers⟩) ∧
      answers.countP Answer.isPause = 44 ∧
      (underway given).countP (·.1.isTag) ≤ 22 ∧ (underway given).length ≤ 66 ∧
      (∃ shown ∈ given, shown.1.isFinal = true) ∧ answers.length ≤ 89 := by
  have owes : Script.delivery.Owes (Script.dripping clusterBytes) clusterBytes :=
    ⟨by change Script.IsPatient _; decide, by decide⟩
  obtain ⟨given, r', source', answers, -, heard, tags, steps, final, reads⟩ :=
    concludes_within Schema.Tabular.matroska.defectless { minWindow := 1, maxWindow := 64 } owes
      (List.replicate 67 id) fun change mem source => by
        rw [List.eq_of_mem_replicate mem]
        exact Script.delivery.keeps_refl source
  have heard : drippingRun = .ok (given, r', ⟨source', answers⟩) := heard
  have pauses : drippingRun.toOption.map (fun given => given.2.2.answers.countP Answer.isPause) =
      some 44 := by
    decide +kernel
  rw [heard] at pauses
  have pauses : answers.countP Answer.isPause = 44 := Option.some.inj pauses
  rw [pauses] at steps final
  exact ⟨given, r', source', answers, heard, pauses, tags, steps, final (by decide), reads⟩

end TagStream
