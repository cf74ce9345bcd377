import TagStream.Proofs.Demand
import TagStream.Reader.Run

/-!
The course of a reading. A `Course` is a reader that has all bytes of its stream at hand: it has no
window, no source and no storage, never pauses, and takes one tag off the front of its bytes at a
time. `Course.next` takes the same decisions as a reader does, in the same order, so that what a
reader reports can be told from the bytes alone.
-/

namespace TagStream

/-- A reading at some point of a stream: the bytes that follow and the offset of the first of them,
the tag that was put off, and the closing tags owed, innermost first. -/
structure Course where
  rest : List UInt8
  offset : Nat := 0
  deferred : Option Emission := none
  containers : List Emission := []
  stopped : Option FaultClass := none
  deriving DecidableEq, Repr

namespace Course

/-- The number of containers whose closing tag is owed. -/
def depth (c : Course) : Nat :=
  c.containers.length

/-- The tag that can be given without reading on. -/
def owed? (c : Course) : Option (Emission × Course) :=
  match c.deferred, c.containers with
  | some emission, _ => some (emission, { c with deferred := none })
  | none, [] => none
  | none, innermost :: outer =>
    if Reader.isComplete innermost.position c.offset then
      some (innermost, { c with containers := outer })
    else none

/-- Closes the innermost container of a stream that has ended. -/
def closeAtEnd (c : Course) : Report × Course :=
  match c.containers with
  | [] => (.endOfStream, c)
  | innermost :: outer => (.tag innermost, { c with containers := outer })

/-- Gives a tag, or puts it off and closes the innermost container that it may not stand in. -/
def place (c : Course) (schema : Schema) (id : ElementId) (emission : Emission)
    (closing : Option Emission) : Report × Course :=
  match c.containers with
  | innermost :: outer =>
    if Reader.displaces schema id innermost then
      (.tag innermost,
        { c with deferred := some emission, containers := closing.toList ++ outer })
    else (.tag emission, { c with containers := closing.toList ++ c.containers })
  | [] => (.tag emission, { c with containers := closing.toList })

def stop (c : Course) (fault : Fault) : Report × Course :=
  (.fault fault, { c with stopped := some fault.faultClass })

def consume (c : Course) (count : Nat) : Course :=
  { c with rest := c.rest.drop count, offset := c.offset + count }

/-- Consuming what stands in front leaves what follows. -/
theorem consume_append {c : Course} {front rest : List UInt8} {count : Nat}
    (split : c.rest = front ++ rest) (length : front.length = count) :
    c.consume count = { c with rest, offset := c.offset + count } := by
  simp only [consume, split, List.drop_left' length]

def enter (c : Course) (schema : Schema) (header : Header) : Except Defect (Report × Course) := do
  let position : Position := ⟨c.offset, header.length, header.size⟩
  let closing ← schema.tagOf header.id (.master .closing)
  let opening ← schema.tagOf header.id (.master .opening)
  return (c.consume header.length).place schema header.id ⟨opening, position⟩
    (some ⟨closing, position⟩)

def readLeaf (c : Course) (schema : Schema) (header : Header) (length : Nat) :
    Except Defect (Report × Course) := do
  let position : Position := ⟨c.offset, header.length, header.size⟩
  let c := c.consume header.length
  let payload := c.rest.take length
  match ← schema.tagOfPayload header.id (schema.kindOf header.id) payload with
  | .ok tag => return (c.consume length).place schema header.id ⟨tag, position⟩ none
  | .error malformed => return (c.consume length).stop (.payload header.id malformed payload)

/-- What a lack of bytes comes to. -/
def fallShort (c : Course) : Lack → Report × Course
  | ⟨.wouldBlock, part⟩ => (.needMoreData part, c)
  | ⟨.endOfData, .start⟩ => c.closeAtEnd
  | ⟨.endOfData, part⟩ => c.stop (.truncated part)
  | ⟨.readFailed, part⟩ => c.stop (.readFailed part)
  | ⟨.exceedsLimit, part⟩ => c.stop (.windowExceeded part)
  | ⟨.allocationFailed, part⟩ => c.stop (.allocationFailed part)

/-- Acts on what has been settled about the tag at the front. -/
def act (c : Course) (schema : Schema) : Except Lack Verdict → Except Defect (Report × Course)
  | .ok (.enter header) => c.enter schema header
  | .ok (.read header length) => c.readLeaf schema header length
  | .ok (.refuse fault) => .ok (c.stop fault)
  | .error lack => .ok (c.fallShort lack)

/-- One step of reading. -/
def next (c : Course) (schema : Schema) (limit : Nat) : Except Defect (Report × Course) :=
  match c.stopped with
  | some faultClass => .ok (.fault (.repeated faultClass), c)
  | none =>
    match c.owed? with
    | some (emission, c) => .ok (.tag emission, c)
    | none => c.act schema (schema.settle limit c.rest 0)

/-- A step gives a tag that is owed, or acts on the tag at the front. -/
theorem owed_or_act_of_next {schema : Schema} {limit : Nat} {c c' : Course} {report : Report}
    (running : c.stopped = none) (h : c.next schema limit = .ok (report, c')) :
    (∃ emission, c.owed? = some (emission, c') ∧ report = .tag emission) ∨
      c.deferred = none ∧ c.act schema (schema.settle limit c.rest 0) = .ok (report, c') := by
  unfold next at h
  rw [running] at h
  simp only at h
  cases owed : c.owed? with
  | some given =>
    simp only [owed] at h
    cases h
    exact .inl ⟨_, rfl, rfl⟩
  | none =>
    simp only [owed] at h
    refine .inr ⟨?_, h⟩
    cases deferred : c.deferred with
    | none => rfl
    | some e => simp [owed?, deferred] at owed

/-- Acting on what has been settled places the tag at the front, stops, or falls short of bytes. -/
theorem cases_of_act {schema : Schema} {c c' : Course} {settled : Except Lack Verdict}
    {report : Report} (h : c.act schema settled = .ok (report, c')) :
    (∃ verdict id emission closing, settled = .ok verdict ∧ (∀ fault, verdict ≠ .refuse fault) ∧
        (c.consume verdict.extent).place schema id emission closing = (report, c')) ∨
      report.isFault = true ∨ ∃ lack, settled = .error lack ∧ c.fallShort lack = (report, c') := by
  cases settled with
  | error lack => exact .inr (.inr ⟨lack, rfl, Except.ok.inj h⟩)
  | ok verdict =>
    cases verdict with
    | refuse fault =>
      cases h
      exact .inr (.inl rfl)
    | enter header =>
      simp only [act, enter, bind, Except.bind] at h
      cases closed : schema.tagOf header.id (.master .closing) with
      | error defect => simp [closed] at h
      | ok closing =>
        cases opened : schema.tagOf header.id (.master .opening) with
        | error defect => simp [closed, opened] at h
        | ok opening =>
          simp only [closed, opened] at h
          exact .inl ⟨_, _, _, _, rfl, (by intro _ h; cases h), Except.ok.inj h⟩
    | read header length =>
      have both : (c.consume header.length).consume length =
          c.consume (header.length + length) := by
        simp only [consume, List.drop_drop, Nat.add_assoc]
      simp only [act, readLeaf, bind, Except.bind, both] at h
      cases read : schema.tagOfPayload header.id (schema.kindOf header.id)
          ((c.consume header.length).rest.take length) with
      | error defect => simp [read] at h
      | ok result =>
        cases result with
        | error malformed =>
          simp only [read, pure, Except.pure, Except.ok.injEq] at h
          cases h
          exact .inr (.inl rfl)
        | ok tag =>
          simp only [read] at h
          exact .inl ⟨_, _, _, _, rfl, (by intro _ h; cases h), Except.ok.inj h⟩

theorem isTag_place (c : Course) (schema : Schema) (id : ElementId) (emission : Emission)
    (closing : Option Emission) : (c.place schema id emission closing).1.isTag = true := by
  unfold place
  split
  · split <;> rfl
  · rfl

/-- What is seen after a report. -/
def observe (c : Course) (report : Report) : Observation :=
  ⟨report, c.offset, c.depth⟩

/-- Takes `count` steps, whatever they report. -/
def steps (c : Course) (schema : Schema) (limit : Nat) :
    (count : Nat) → Except Defect (List Observation × Course)
  | 0 => .ok ([], c)
  | count + 1 => do
    let (report, c) ← c.next schema limit
    let (later, c') ← c.steps schema limit count
    return (c.observe report :: later, c')

/-- What several steps show is what the first shows and then what the others do. -/
theorem cases_of_steps {schema : Schema} {limit count : Nat} {c c' : Course}
    {seen : List Observation} (h : c.steps schema limit (count + 1) = .ok (seen, c')) :
    ∃ report c₁ later, c.next schema limit = .ok (report, c₁) ∧
      c₁.steps schema limit count = .ok (later, c') ∧ seen = c₁.observe report :: later := by
  simp only [steps, bind, Except.bind] at h
  cases stepped : c.next schema limit with
  | error defect => simp [stepped] at h
  | ok given =>
    obtain ⟨report, c₁⟩ := given
    simp only [stepped] at h
    cases rest : c₁.steps schema limit count with
    | error defect => simp [rest] at h
    | ok result =>
      obtain ⟨later, c₂⟩ := result
      simp only [rest, pure, Except.pure, Except.ok.injEq, Prod.mk.injEq] at h
      obtain ⟨rfl, rfl⟩ := h
      exact ⟨report, c₁, later, rfl, rest, rfl⟩

end Course

/-! ### The course of a reader -/

namespace Reader

/-- The course that a reader is on, if `left` is what is still to come from its source. -/
def course (r : Reader) (left : List UInt8) : Course where
  rest := r.window.resident ++ left
  offset := r.offset
  deferred := r.deferred
  containers := r.containers
  stopped := r.stopped

variable {left : List UInt8}

/-- What a step has given, as the course sees it. -/
def onCourse (left : List UInt8) (given : Report × Reader) : Report × Course :=
  (given.1, given.2.course left)

theorem course_owed (r : Reader) (left : List UInt8) :
    r.owed?.map (fun given => (given.1, given.2.course left)) = (r.course left).owed? := by
  obtain ⟨window, deferred, containers, stopped, tally, journal⟩ := r
  cases deferred with
  | some emission => rfl
  | none =>
    cases containers with
    | nil => rfl
    | cons innermost outer =>
      by_cases complete : isComplete innermost.position window.offset = true
      · simp [owed?, Course.owed?, course, offset, complete]
      · simp [owed?, Course.owed?, course, offset, complete]

/-- A tag that the reader owes is the next of the course. -/
theorem next_course_of_owed {r r₁ : Reader} {emission : Emission} (stopped : r.stopped = none)
    (owed : r.owed? = some (emission, r₁)) (schema : Schema) (limit : Nat) :
    (r.course left).next schema limit = .ok (.tag emission, r₁.course left) := by
  have owed' := course_owed r left
  rw [owed] at owed'
  have running : (r.course left).stopped = none := stopped
  simp only [Course.next, running, ← owed', Option.map_some]

/-- Where no tag is owed, the course acts on the tag that all bytes together settle. -/
theorem next_course_of_idle {r : Reader} (stopped : r.stopped = none) (owed : r.owed? = none)
    (schema : Schema) (limit : Nat) :
    (r.course left).next schema limit =
      (r.course left).act schema (schema.settle limit (r.window.resident ++ left) 0) := by
  have owed' := course_owed r left
  rw [owed] at owed'
  have running : (r.course left).stopped = none := stopped
  have rest : (r.course left).rest = r.window.resident ++ left := rfl
  simp only [Course.next, running, ← owed', Option.map_none, rest]

theorem onCourse_closeAtEnd (r : Reader) :
    onCourse left r.closeAtEnd = (r.course left).closeAtEnd := by
  obtain ⟨window, deferred, containers, stopped, tally, journal⟩ := r
  cases containers <;> rfl

theorem onCourse_place (r : Reader) (schema : Schema) (id : ElementId) (emission : Emission)
    (closing : Option Emission) :
    onCourse left (r.place schema id emission closing) =
      (r.course left).place schema id emission closing := by
  obtain ⟨window, deferred, containers, stopped, tally, journal⟩ := r
  cases containers with
  | nil => rfl
  | cons innermost outer =>
    simp only [place, Course.place, course]
    split <;> rfl

theorem onCourse_fallShort (r : Reader) (lack : Lack) :
    onCourse left (r.fallShort lack) = (r.course left).fallShort lack := by
  obtain ⟨why, part⟩ := lack
  cases why with
  | endOfData =>
    cases part with
    | start => exact onCourse_closeAtEnd r
    | idField | sizeField _ | payload _ => rfl
  | wouldBlock | readFailed | exceedsLimit | allocationFailed => rfl

/-- Consuming bytes that are resident consumes them on the course. -/
theorem course_consume {r : Reader} {count : Nat} (resident : count ≤ r.window.available) :
    (r.consume count).course left = (r.course left).consume count := by
  have offset : (r.window.advance count).offset = r.window.offset + count := by
    rw [r.window.offset_advance, Nat.min_eq_left resident]
  have rest : (r.window.advance count).resident ++ left =
      (r.window.resident ++ left).drop count := by
    rw [r.window.resident_advance, List.drop_append_of_le_length (by simpa using resident)]
  simp only [consume, Course.consume, course, Reader.offset, offset, rest]

/-- Entering a container whose header is resident is the same on the course. -/
theorem onCourse_enter {r : Reader} {schema : Schema} {header : Header}
    (resident : header.length ≤ r.window.available) :
    (r.enter schema header).map (onCourse left) = (r.course left).enter schema header := by
  simp only [enter, Course.enter, bind, Except.bind, pure, Except.pure]
  cases schema.tagOf header.id (.master .closing) with
  | error defect => rfl
  | ok closing =>
    cases schema.tagOf header.id (.master .opening) with
    | error defect => rfl
    | ok opening =>
      simp only [Except.map, onCourse_place, course_consume resident]
      rfl

/-- Reading a leaf whose header and payload are resident is the same on the course. -/
theorem onCourse_readLeaf {r : Reader} {schema : Schema} {header : Header} {length : Nat}
    (resident : header.length + length ≤ r.window.available) :
    (r.readLeaf schema header length).map (onCourse left) =
      (r.course left).readLeaf schema header length := by
  have payload : (r.consume header.length).window.front length =
      ((r.course left).consume header.length).rest.take length := by
    rw [Window.front_eq_take, ← course_consume (by omega)]
    simp only [consume, course, Window.resident_advance]
    rw [List.take_append_of_le_length]
    rw [List.length_drop, Window.length_resident]
    omega
  have rest : (r.consume header.length).window.available = r.window.available - header.length := by
    rw [← Window.length_resident, consume, Window.resident_advance, List.length_drop,
      Window.length_resident]
  have both : ((r.consume header.length).consume length).course left =
      ((r.course left).consume header.length).consume length := by
    rw [course_consume (by omega), course_consume (by omega)]
  simp only [readLeaf, Course.readLeaf, bind, Except.bind, pure, Except.pure, payload]
  cases schema.tagOfPayload header.id (schema.kindOf header.id) _ with
  | error defect => rfl
  | ok read =>
    cases read with
    | error malformed =>
      simp only [Except.map, ← both]
      rfl
    | ok tag =>
      simp only [Except.map, onCourse_place, both]
      rfl

/-- Acting on a tag whose bytes are resident is the same on the course. -/
theorem onCourse_act {r : Reader} {schema : Schema} {settled : Except Lack Verdict}
    (left : List UInt8)
    (resident : ∀ verdict, settled = .ok verdict → verdict.extent ≤ r.window.available) :
    (act r schema settled).map (onCourse left) = (r.course left).act schema settled := by
  cases settled with
  | error lack => exact congrArg Except.ok (onCourse_fallShort r lack)
  | ok verdict =>
    cases verdict with
    | enter header => exact onCourse_enter (resident _ rfl)
    | read header length => exact onCourse_readLeaf (resident _ rfl)
    | refuse fault => rfl

end Reader

end TagStream
