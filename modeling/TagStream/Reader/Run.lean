import TagStream.Reader.Basic

/-!
Runs: several steps of reading in a row, with what can be seen of the reader after each. A run stops
early at a defect of the schema, and its other results are then dropped.

The reports can also be had as a lazy sequence. A cursor stands on one report; it takes one step of
reading when it is made and one each time it moves on. The sequence ends at the end of the stream,
which is not part of it, or after a fault, which is.
-/

namespace TagStream

/-- A place in the sequence of reports: the report last seen, and whether the sequence has ended. -/
structure Cursor where
  current : Report := .endOfStream
  ended : Bool := true
  deriving DecidableEq, Repr

namespace Cursor

variable {σ : Type} [ByteSource σ]

/-- The place that a report belongs to. -/
def ofReport (report : Report) : Cursor :=
  ⟨report, report == .endOfStream⟩

/-- Takes one step of reading and stands on its report. -/
def step (r : Reader) (schema : Schema) (source : σ) : Except Defect (Cursor × Reader × σ) :=
  (r.next schema source).map fun (report, r, source) => (ofReport report, r, source)

/-- Moves to the next report. A cursor that has ended stays, and one that stands on a fault ends; in
neither case is anything read. -/
def advance (c : Cursor) (r : Reader) (schema : Schema) (source : σ) :
    Except Defect (Cursor × Reader × σ) :=
  if c.ended then .ok (c, r, source)
  else if c.current.isFault then .ok ({ c with ended := true }, r, source)
  else step r schema source

end Cursor

/-- A report, and the reader's offset and depth after the step. -/
structure Observation where
  report : Report
  offset : Nat
  depth : Nat
  deriving DecidableEq, Repr

/-- What a reader shows after giving a report. -/
def Reader.observe (r : Reader) (report : Report) : Observation :=
  ⟨report, r.offset, r.depth⟩

namespace Reader

variable {σ : Type} [ByteSource σ]

/-- Takes `count` steps, whatever they report. -/
def steps (r : Reader) (schema : Schema) (source : σ) :
    (count : Nat) → Except Defect (List Observation × Reader × σ)
  | 0 => .ok ([], r, source)
  | count + 1 => do
    let (report, r, source) ← r.next schema source
    let (later, r', source') ← r.steps schema source count
    return (r.observe report :: later, r', source')

/-- Takes steps up to the first that gives no tag, but no more than `limit`. -/
def drain (r : Reader) (schema : Schema) (source : σ) :
    (limit : Nat) → Except Defect (List Observation × Reader × σ)
  | 0 => .ok ([], r, source)
  | limit + 1 => do
    let (report, r, source) ← r.next schema source
    if report.isTag then
      let (later, r', source') ← r.drain schema source limit
      return (r.observe report :: later, r', source')
    else return ([r.observe report], r, source)

/-- The report that a cursor stands on and up to `further` more, for which it moves on. -/
def walk (r : Reader) (schema : Schema) (source : σ) (cursor : Cursor) (further : Nat) :
    Except Defect (List Observation × Reader × σ) :=
  if cursor.ended then .ok ([], r, source)
  else
    let seen := r.observe cursor.current
    match further with
    | 0 => .ok ([seen], r, source)
    | further + 1 => do
      let (cursor, r, source) ← cursor.advance r schema source
      let (later, r, source) ← r.walk schema source cursor further
      return (seen :: later, r, source)

/-- The first `count` reports of the lazy sequence, or all if there are fewer. The first of them is
read to begin the sequence, so that it is there even for a `count` of zero. -/
def firstReports (r : Reader) (schema : Schema) (source : σ) (count : Nat) :
    Except Defect (List Observation × Reader × σ) := do
  let (cursor, r, source) ← Cursor.step r schema source
  r.walk schema source cursor (count - 1)

/-- A bound on the tags that a reader can give before it has to wait for more bytes: every tag given
either consumes a byte or is owed. -/
def tagBound (r : Reader) (m : Memory) : Nat :=
  r.window.available + m.pending + r.depth + 1

/-- Reads all that can be read at the moment, then feeds the next piece, and so on; after the last
piece the source is finished. Gives the number of pauses and the reports that were none. The run
ends with the first report that is neither a tag nor a pause. -/
def pump (r : Reader) (schema : Schema) (m : Memory) (pieces : List (Array UInt8)) :
    Except Defect (Nat × List Observation × Reader × Memory) := do
  let (seen, r, m) ← r.drain schema m (r.tagBound m + 1)
  match seen.getLast? with
  | some ⟨.needMoreData _, _, _⟩ =>
    let given := seen.dropLast
    match pieces with
    | piece :: pieces =>
      let (pauses, later, r, m) ← r.pump schema (m.feed piece) pieces
      return (pauses + 1, given ++ later, r, m)
    | [] =>
      let m := m.finish
      let (later, r, m) ← r.drain schema m (r.tagBound m + 1)
      return (1, given ++ later, r, m)
  | _ => return (0, seen, r, m)
termination_by pieces.length

end Reader

/-- Cuts bytes into pieces of `size`, the last of which may be shorter. There are no pieces of size
zero. -/
def pieces (size : Nat) (bytes : List UInt8) : List (Array UInt8) :=
  if size = 0 ∨ bytes = [] then []
  else (bytes.take size).toArray :: pieces size (bytes.drop size)
termination_by bytes.length
decreasing_by
  have := List.length_pos_iff.mpr (show bytes ≠ [] by simp_all)
  simp only [List.length_drop]; omega

end TagStream
