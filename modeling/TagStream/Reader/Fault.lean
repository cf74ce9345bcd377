import TagStream.Header.Scan

/-!
Why reading stops. A fault is a cause with what belongs to it; its class, the element it concerns
and its wording follow from the cause.
-/

namespace TagStream

/-- The five classes of faults. -/
inductive FaultClass where
  | readError
  | corruptedData
  | corruptedTagData
  | tagTooLarge
  | allocationFailed
  deriving DecidableEq, Repr

/-- The causes for which reading stops. `repeated` is the answer of a reader that has stopped
before. -/
inductive Fault where
  | header (flaw : Header.Flaw)
  | truncated (part : Part)
  | leafWithoutSize (id : ElementId)
  | leafTooLarge (id : ElementId)
  | payload (id : ElementId) (malformed : Malformed) (bytes : List UInt8)
  | windowExceeded (part : Part)
  | readFailed (part : Part)
  | allocationFailed (part : Part)
  | repeated (faultClass : FaultClass)
  deriving DecidableEq, Repr

namespace Fault

def faultClass : Fault → FaultClass
  | .header _ | .truncated _ | .leafWithoutSize _ => .corruptedData
  | .leafTooLarge _ | .windowExceeded _ => .tagTooLarge
  | .payload .. => .corruptedTagData
  | .readFailed _ => .readError
  | .allocationFailed _ => .allocationFailed
  | .repeated faultClass => faultClass

/-- The element concerned, if its id had been read. -/
def id? : Fault → Option ElementId
  | .header .idWithoutMarker | .header .idUnreadable | .repeated _ => none
  | .header (.sizeWithoutMarker id) | .header (.sizeUnreadable id) => some id
  | .leafWithoutSize id | .leafTooLarge id | .payload id .. => some id
  | .truncated part | .windowExceeded part | .readFailed part | .allocationFailed part => part.id?

def message : Fault → String
  | .header .idWithoutMarker => "invalid tag id: no VINT length marker"
  | .header .idUnreadable => "invalid tag id"
  | .header (.sizeWithoutMarker _) => "invalid tag size: no VINT length marker"
  | .header (.sizeUnreadable _) => "invalid tag size"
  | .truncated .start => "unexpected end of source"
  | .truncated .idField => "expected tag id, but reached end of source"
  | .truncated (.sizeField _) => "expected tag size, but reached end of source"
  | .truncated (.payload _) => "reached end of source but expecting more tag data"
  | .leafWithoutSize _ => "unknown size for primitive tag not allowed"
  | .leafTooLarge _ => "leaf payload larger than max_buffer_size"
  | .payload _ malformed _ => malformed.message
  | .windowExceeded _ => "tag larger than max_buffer_size"
  | .readFailed _ => "byte source reported a read error"
  | .allocationFailed _ => "window allocation failed"
  | .repeated _ => "reader terminated by a previous error"

/-- What is wrong with the payload, if that is the cause. -/
def malformed? : Fault → Option Malformed
  | .payload _ malformed _ => some malformed
  | _ => none

/-- The payload that could not be read, if that is the cause. -/
def offending : Fault → List UInt8
  | .payload _ _ bytes => bytes
  | _ => []

end Fault

end TagStream
