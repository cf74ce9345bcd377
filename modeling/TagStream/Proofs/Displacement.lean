import TagStream.Proofs.Limit

/-!
A tag that closes a container is not lost. It has been read when it is found that it may not stand
in the innermost container, which has unknown size; the step then gives that container's closing tag
and puts the tag off, and the next step gives the tag without reading on (`displaced_tag_follows`).
Reading a valid tag comes to the same for a container and for a leaf (`Schema.Valid.act`): its bytes
are consumed and the tag is placed. So it is only in what comes to stand in place of the container
that the two differ.
-/

namespace TagStream

/-- The tag with this header and payload is valid: it gives `tag`, and if it opens a container, that
one will owe the tag `closing`. -/
inductive Schema.Valid (schema : Schema) (id size : Vint) :
    (payload : List UInt8) → (tag : Tag) → (closing : Option Tag) → Prop where
  | master {opening closing : Tag} : schema.kindOf (.ofVint id) = .master →
      schema.tagOf (.ofVint id) (.master .closing) = .ok closing →
      schema.tagOf (.ofVint id) (.master .opening) = .ok opening →
      Valid schema id size [] opening (some closing)
  | leaf {payload : List UInt8} {tag : Tag} : schema.kindOf (.ofVint id) ≠ .master →
      .ofVint size = Size.known payload.length →
      schema.tagOfPayload (.ofVint id) (schema.kindOf (.ofVint id)) payload = .ok (.ok tag) →
      Valid schema id size payload tag none

section Valid

variable {schema : Schema} {id size : Vint} {payload rest : List UInt8} {tag : Tag}
  {closing : Option Tag}

/-- Of all bytes to come the resident ones are the first. -/
theorem Window.front_of_append {w : Window} {front behind left : List UInt8}
    (split : w.resident ++ left = front ++ behind) (there : front.length ≤ w.available) :
    w.front front.length = front := by
  rw [← w.length_resident] at there
  have taken : (w.resident ++ left).take front.length = w.resident.take front.length :=
    List.take_append_of_le_length there
  rw [w.front_eq_take, ← taken, split, List.take_left]

/-- Consuming takes bytes off the front of all that are to come. -/
theorem Window.resident_advance_append {w : Window} {front behind left : List UInt8}
    (split : w.resident ++ left = front ++ behind) (there : front.length ≤ w.available) :
    (w.advance front.length).resident ++ left = behind := by
  rw [← w.length_resident] at there
  rw [w.resident_advance, ← List.drop_append_of_le_length there, split, List.drop_left]

/-- Once it has been settled what is to be done about a valid tag, its bytes are consumed and it is
placed. -/
theorem Schema.Valid.act (valid : schema.Valid id size payload tag closing) {q : Reader}
    {verdict : Verdict} {left : List UInt8}
    (whole : Header.scan (id.bytes ++ (size.bytes ++ (payload ++ rest))) =
      .complete (.ofVints id size))
    (small : ¬ schema.TooLarge q.window.maxCapacity (.ofVints id size))
    (split : q.window.resident ++ left = id.bytes ++ (size.bytes ++ (payload ++ rest)))
    (settles : q.window.demand schema = .settled verdict) :
    ∃ window : Window, window.offset = q.offset + (id.width + size.width + payload.length) ∧
      window.resident ++ left = rest ∧
      Reader.act q schema (.ok verdict) =
        .ok (({ q with window } : Reader).place schema (.ofVint id)
          ⟨tag, ⟨q.offset, id.width + size.width, .ofVint size⟩⟩
          (closing.map fun tag => ⟨tag, ⟨q.offset, id.width + size.width, .ofVint size⟩⟩)) := by
  rw [Window.demand_eq_demandOf] at settles
  have demanded := Schema.demandOf_append settles left
  have there := Schema.extent_le_length settles
  have header : (id.bytes ++ size.bytes).length = id.width + size.width := by simp
  rw [split] at demanded
  rw [Window.length_resident] at there
  rw [← List.append_assoc] at split
  cases valid with
  | @master opening closing kind closed opened =>
    obtain rfl : verdict = .enter (.ofVints id size) := by
      rw [(Schema.Demands.enter whole kind).demandOf_eq] at demanded
      exact (Demand.settled.inj demanded).symm
    have enough : (id.bytes ++ size.bytes).length ≤ q.window.available := header ▸ there
    refine ⟨q.window.advance (id.width + size.width), ?_, ?_, ?_⟩
    · exact Reader.offset_consume there
    · have moved := Window.resident_advance_append split enough
      rwa [header] at moved
    · simp only [Reader.act, Reader.enter, Header.ofVints, closed, opened, bind, Except.bind]
      rfl
  | @leaf payload tag kind declared read =>
    obtain rfl : verdict = .read (.ofVints id size) payload.length := by
      have room : payload.length ≤ q.window.maxCapacity - (id.width + size.width) := by
        apply Nat.le_of_not_lt
        intro beyond
        refine small (.inr ⟨kind, payload.length, declared, ?_⟩)
        simp only [Header.ofVints]
        omega
      have enough : id.width + size.width + payload.length ≤
          (id.bytes ++ (size.bytes ++ (payload ++ rest))).length := by
        simp only [List.length_append, Vint.length_bytes]
        omega
      rw [(Schema.Demands.read whole kind declared room enough).demandOf_eq] at demanded
      exact (Demand.settled.inj demanded).symm
    have enough : id.width + size.width + payload.length ≤ q.window.available := there
    have first := Window.resident_advance_append split (by omega)
    rw [header] at first
    have behind : payload.length ≤ (q.window.advance (id.width + size.width)).available := by
      rw [Reader.available_advance]
      omega
    have front := Window.front_of_append first behind
    have second := Window.resident_advance_append first behind
    refine ⟨(q.window.advance (id.width + size.width)).advance payload.length, ?_, second, ?_⟩
    · rw [← Nat.add_assoc]
      exact Reader.offset_consume_consume enough
    · simp only [Reader.act, Reader.readLeaf, Reader.consume, Header.ofVints, front, read, bind,
        Except.bind]
      rfl

end Valid

/-! ### Two steps -/

namespace Reader

/-- A tag that may not stand in the innermost container is put off, and the container closed. -/
theorem place_of_foreign {q : Reader} {schema : Schema} {id : ElementId} {innermost : Emission}
    {outer : List Emission} (stack : q.containers = innermost :: outer)
    (unsized : innermost.position.size = .unknown)
    (foreign : schema.admits innermost.tag id = false) (emission : Emission)
    (closing : Option Emission) :
    ∃ r', q.place schema id emission closing = (.tag innermost, r') ∧ r'.window = q.window ∧
      r'.stopped = q.stopped ∧ r'.deferred = some emission ∧
      r'.containers = closing.toList ++ outer := by
  have displaced : displaces schema id innermost = true := by
    rw [displaces, unsized, foreign]
    rfl
  unfold place
  rw [stack]
  simp only [if_pos displaced]
  exact ⟨_, rfl, rfl, rfl, rfl, rfl⟩

/-- A tag that has been put off is given next, and nothing is read for it. -/
theorem next_of_deferred {r : Reader} {emission : Emission} (running : r.stopped = none)
    (deferred : r.deferred = some emission) :
    ∃ r', (∀ {σ : Type} [ByteSource σ] (schema : Schema) (source : σ),
        r.next schema source = .ok (.tag emission, r', source)) ∧
      r'.window = r.window ∧ r'.stopped = none ∧ r'.deferred = none ∧
      r'.containers = r.containers := by
  have owed : r.owed? = some (emission, { r with deferred := none }) := by
    rw [owed?, deferred]
  exact ⟨_, fun schema source => (Stepped.owed running owed).next_eq, rfl, running, rfl, rfl⟩

end Reader

/-- **A tag that closes a container follows the closing tag.** Let a valid tag come next that may
not stand in the innermost container, which has unknown size. The first step that does not pause
gives the container's closing tag, and the next one the tag itself, at the offset where the reader
stood before both. For that nothing is read, whatever source is at hand, and the offset does not
move: the bytes of the tag have been consumed, and those behind them are still to come. The
containers further out stay, and in place of the one that was closed stands the one that the tag
opens, if it is such a tag. -/
theorem displaced_tag_follows {σ : Type} [ByteSource σ] [LawfulByteSource σ] {schema : Schema}
    {c : Config} {r : Reader} (reached : Reader.Reached σ schema c r) (running : r.stopped = none)
    (undeferred : r.deferred = none) {innermost : Emission} {outer : List Emission}
    (stack : r.containers = innermost :: outer) (unsized : innermost.position.size = .unknown)
    {id size : Vint} {payload rest : List UInt8} {tag : Tag} {closing : Option Tag}
    (valid : schema.Valid id size payload tag closing)
    (foreign : schema.admits innermost.tag (.ofVint id) = false)
    (small : ¬ schema.TooLarge c.maxCapacity (.ofVints id size))
    {p : Promise σ} {change : σ → σ → Prop} {source : σ}
    (kept : ∀ source source', change source source' → p.Keeps source source')
    (upcoming : p.Upcoming schema c.maxCapacity id size (payload ++ rest) r.window source)
    {result : Except Defect (Report × Reader × σ)}
    (first : Reader.FirstMove schema change r source result)
    (granted : ∀ given, result = .ok given → given.1.outcome ≠ .fault .allocationFailed) :
    ∃ (position : Position) (r₁ : Reader) (source₁ : σ) (r₂ : Reader),
      position = ⟨r.offset, id.width + size.width, .ofVint size⟩ ∧
      (∃ id, schema.tagOf id (.master .closing) = .ok innermost.tag) ∧
      result = .ok (.tag innermost, r₁, source₁) ∧
      r₁.offset = r.offset + (id.width + size.width + payload.length) ∧
      (∃ left, r₁.window.resident ++ left = rest ∧ p.owes source₁ left) ∧
      (∀ {τ : Type} [ByteSource τ] (later : τ),
        r₁.next schema later = .ok (.tag ⟨tag, position⟩, r₂, later)) ∧
      r₂.window = r₁.window ∧ r₂.stopped = none ∧ r₂.deferred = none ∧
      r₂.containers = (closing.map fun tag => (⟨tag, position⟩ : Emission)).toList ++ outer := by
  obtain ⟨taken, frugal⟩ := reached.seasoned.frugal
  have closings := reached.seasoned.closings innermost (stack ▸ List.mem_cons_self)
  have idle : r.owed? = none := by
    rw [Reader.owed?_eq_none_iff, stack]
    refine ⟨undeferred, ?_⟩
    rintro k ⟨⟩
    rw [Reader.isComplete, unsized]
  rw [← reached.founded.limit] at upcoming small
  have whole := (Header.Seen.complete (payload ++ rest) upcoming.id_fits upcoming.size_fits).scan_eq
  obtain ⟨bound, ends, -, stands⟩ := upcoming.exists_stands (frugal.steady running)
  obtain ⟨r₁, source₁, drawn, pauses, running', idle', stands', rfl, moves⟩ :=
    first.exists_last kept ends running idle stands
  obtain ⟨settled, window, source', gathered⟩ :
      ∃ settled window source', r₁.window.gather schema source₁ = (settled, window, source') :=
    ⟨_, _, _, rfl⟩
  obtain ⟨drawn', moved, settledAt, exceeds⟩ :=
    Reader.exceeds_of_gather ends running' idle' stands' gathered moves granted
  have demanded := Window.settled_of_gather gathered
  have oversized := settledAt.oversized_iff whole demanded exceeds
  -- A tag that is not too large has been settled.
  obtain ⟨verdict, rfl⟩ : ∃ verdict, settled = .ok verdict := by
    cases settled with
    | ok verdict => exact ⟨verdict, rfl⟩
    | error lack => exact absurd (oversized.mp (exceeds lack rfl).1) small
  obtain ⟨left, split, owes⟩ := settledAt.owes
  have capped : window.maxCapacity = r.window.maxCapacity := settledAt.capped
  obtain ⟨window', offset', behind, acted⟩ :=
    valid.act (q := { r₁ with window }) whole (capped ▸ small) split (demanded verdict rfl)
  have same : Reader.offset { r₁ with window } = r.offset :=
    moved.offset.trans pauses.window.offset
  rw [same] at offset' acted
  obtain ⟨r₂, placed, window₂, stopped₂, deferred₂, containers₂⟩ :=
    Reader.place_of_foreign (q := { r₁ with window := window' })
      (by rw [pauses.rest]; exact stack) unsized foreign
      ⟨tag, ⟨r.offset, id.width + size.width, .ofVint size⟩⟩
      (closing.map fun tag => ⟨tag, ⟨r.offset, id.width + size.width, .ofVint size⟩⟩)
  obtain ⟨r₃, next, window₃, stopped₃, deferred₃, containers₃⟩ :=
    Reader.next_of_deferred (stopped₂.trans running') deferred₂
  refine ⟨_, r₂, source', r₃, rfl, closings, ?_, ?_, ?_, ?_, window₃, stopped₃, deferred₃, ?_⟩
  · rw [Reader.next_of_gather running' idle' gathered, acted, placed]
    rfl
  · rw [Reader.offset, window₂]
    exact offset'
  · exact ⟨left, window₂ ▸ behind, owes⟩
  · intro τ _ later
    exact next schema later
  · rw [containers₃, containers₂]

/-- A segment and two clusters, all of unknown size, with a pause in the id of the second one. -/
def interruptedCluster : Script where
  cues := [.data [0x18, 0x53, 0x80, 0x67, 0xFF, 0x1F, 0x43, 0xB6, 0x75, 0xFF, 0xE7, 0x81, 5,
    0x1F, 0x43], .silence .wouldBlock, .data [0xB6, 0x75, 0xFF]]
  last := .endOfData

/-- The reader that has given the timestamp of the first cluster, and what is left of the script. -/
def interruptedReader : Reader × Script :=
  (Reader.new {}).after Matroska.schema interruptedCluster 3

/-- The second cluster closes the first, and follows. -/
theorem displaced_tag_follows_interruptedCluster :
    ∃ (r₁ r₂ : Reader) (source₁ : Script),
      Reader.FirstMove Matroska.schema Script.delivery.Keeps interruptedReader.1
        interruptedReader.2
        (.ok (.tag ⟨Matroska.schema.half 0x1F43B675 .closing, ⟨5, 5, .unknown⟩⟩, r₁, source₁)) ∧
      r₁.offset = 18 ∧
      (∀ later : Script, r₁.next Matroska.schema later =
        .ok (.tag ⟨Matroska.schema.half 0x1F43B675 .opening, ⟨13, 5, .unknown⟩⟩, r₂, later)) ∧
      r₂.containers = [⟨Matroska.schema.half 0x1F43B675 .closing, ⟨13, 5, .unknown⟩⟩,
        ⟨Matroska.schema.half 0x18538067 .closing, ⟨0, 5, .unknown⟩⟩] := by
  have reached : Reader.Reached Script Matroska.schema {} interruptedReader.1 :=
    Reader.Reached.new.after _ _
  have stack : interruptedReader.1.containers =
      [⟨Matroska.schema.half 0x1F43B675 .closing, ⟨5, 5, .unknown⟩⟩,
        ⟨Matroska.schema.half 0x18538067 .closing, ⟨0, 5, .unknown⟩⟩] := by
    decide +kernel
  have reports : (interruptedReader.1.interleave Matroska.schema interruptedReader.2
      [id, id]).toOption.map (·.1.map fun item => (item.1.isPause, item.1.outcome)) =
        some [(true, .needMoreData), (false, .ok)] := by
    decide +kernel
  cases run : interruptedReader.1.interleave Matroska.schema interruptedReader.2 [id, id] with
  | error defect =>
    rw [run] at reports
    cases reports
  | ok result =>
    obtain ⟨given, r', source'⟩ := result
    rw [run] at reports
    obtain ⟨report, q, source₁, later, paused, run', rfl⟩ := Reader.cases_of_interleave run
    obtain ⟨report', q', source₂, later', moved, done, rfl⟩ := Reader.cases_of_interleave run'
    cases done
    obtain ⟨pauses, told⟩ := List.cons.inj (Option.some.inj reports)
    obtain ⟨isPause, -⟩ := Prod.mk.inj pauses
    obtain ⟨moves, gives⟩ := Prod.mk.inj (List.cons.inj told).1
    have same (source : Script) : Script.delivery.Keeps source source :=
      fun sound => ⟨sound, rfl⟩
    have first : Reader.FirstMove Matroska.schema Script.delivery.Keeps interruptedReader.1
        interruptedReader.2 (.ok (report', r', source')) :=
      .pause (same _) paused isPause (.move (same _) moved (by rintro _ ⟨⟩; exact moves))
    have upcoming : Script.delivery.promise.Upcoming Matroska.schema ({} : Config).maxCapacity
        ⟨0x0F43B675, 4⟩ ⟨0x7F, 1⟩ ([] ++ []) interruptedReader.1.window interruptedReader.2 := by
      refine ⟨by decide, by decide, ⟨interruptedReader.2.left, by decide +kernel, ?_, rfl⟩, ?_⟩
      · exact show Script.IsPatient interruptedReader.2 by decide +kernel
      · intro _
        decide +kernel
    have master : Matroska.schema.kindOf (.ofVint ⟨0x0F43B675, 4⟩) = .master := by decide +kernel
    have valid : Matroska.schema.Valid ⟨0x0F43B675, 4⟩ ⟨0x7F, 1⟩ []
        (Matroska.schema.half 0x1F43B675 .opening)
        (some (Matroska.schema.half 0x1F43B675 .closing)) :=
      .master master (Schema.Tabular.matroska.tagOf_master .closing master)
        (Schema.Tabular.matroska.tagOf_master .opening master)
    have small : ¬ Matroska.schema.TooLarge ({} : Config).maxCapacity
        (.ofVints ⟨0x0F43B675, 4⟩ ⟨0x7F, 1⟩) := by
      rintro (long | ⟨leaf, -⟩)
      · exact absurd long (by decide)
      · exact leaf master
    obtain ⟨_, r₁, source₃, r₂, rfl, -, closes, offset, -, follows, -, -, -, containers⟩ :=
      displaced_tag_follows reached (by decide +kernel)
        (Option.isNone_iff_eq_none.mp (by decide +kernel)) stack rfl valid (by decide +kernel) small
        (fun _ _ keeps => keeps.promise) upcoming first (by rintro _ ⟨⟩; rw [gives]; decide)
    have start : interruptedReader.1.offset = 13 := by decide +kernel
    rw [start] at offset follows containers
    exact ⟨r₁, r₂, source₃, closes ▸ first, offset, follows, containers⟩

end TagStream
