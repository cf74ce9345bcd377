import TagStream.Element.Tag
import TagStream.Reader.Fault

/-!
What one step of reading reports: a tag with its position, the end of the stream, a pause until more
bytes come, or a fault. Each report has an outcome, which has a number and a name.
-/

namespace TagStream

/-- A tag and where its element stands. The closing tag of a container has the position of its
opening tag. -/
structure Emission where
  tag : Tag
  position : Position
  deriving DecidableEq, Repr

/-- The report of one step. A pause tells how far the tag that is under way has been read. -/
inductive Report where
  | tag (emission : Emission)
  | endOfStream
  | needMoreData (part : Part)
  | fault (fault : Fault)
  deriving DecidableEq, Repr

/-- The outcome of a step, its details left aside. -/
inductive Outcome where
  | ok
  | endOfStream
  | needMoreData
  | fault (faultClass : FaultClass)
  deriving DecidableEq, Repr

namespace Outcome

/-- Outcomes are numbered in one signed byte, so that the faults are the negative ones. -/
def ofCode? (code : Int8) : Option Outcome :=
  match code.toInt with
  | 0 => some .ok
  | 1 => some .endOfStream
  | 2 => some .needMoreData
  | -1 => some (.fault .readError)
  | -2 => some (.fault .corruptedData)
  | -3 => some (.fault .corruptedTagData)
  | -4 => some (.fault .tagTooLarge)
  | -5 => some (.fault .allocationFailed)
  | _ => none

def name : Outcome → String
  | .ok => "EBML_OK"
  | .endOfStream => "EBML_END_OF_STREAM"
  | .needMoreData => "EBML_NEED_MORE_DATA"
  | .fault .readError => "EBML_READ_ERROR"
  | .fault .corruptedData => "EBML_CORRUPTED_DATA"
  | .fault .corruptedTagData => "EBML_CORRUPTED_TAG_DATA"
  | .fault .tagTooLarge => "EBML_TAG_TOO_LARGE"
  | .fault .allocationFailed => "EBML_ALLOCATION_FAILED"

/-- The name that goes by a number. -/
def nameOfCode (code : Int8) : String :=
  ((ofCode? code).map name).getD "EBML_UNKNOWN_RESULT"

end Outcome

namespace Report

def outcome : Report → Outcome
  | .tag _ => .ok
  | .endOfStream => .endOfStream
  | .needMoreData _ => .needMoreData
  | .fault cause => .fault cause.faultClass

/-- Whether the step gave a tag. -/
def isTag : Report → Bool
  | .tag _ => true
  | _ => false

def isFault : Report → Bool
  | .fault _ => true
  | _ => false

/-- The element concerned by a report that gives no tag, if its id had been read. -/
def id? : Report → Option ElementId
  | .tag _ | .endOfStream => none
  | .needMoreData part => part.id?
  | .fault cause => cause.id?

end Report

end TagStream
