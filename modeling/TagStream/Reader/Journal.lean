import TagStream.Reader.Report

/-!
The journal of a reader. Three things are worth an entry: a tag that closes a container of unknown
size, a container left open when the source ends, and a fault. A journal keeps the entries that are
at least as severe as its threshold, in the order in which they arise.
-/

namespace TagStream

inductive Severity where
  | debug
  | info
  | warning
  | error
  deriving DecidableEq, Repr

def Severity.rank : Severity → UInt8
  | .debug => 0
  | .info => 1
  | .warning => 2
  | .error => 3

/-- What happened: the tag `id` at `offset` closed the container `closed`; the source ended at
`offset` with `depth` containers open, of which `closed` was closed; or a fault arose at `offset`.
-/
inductive Event where
  | closedByTag (id : ElementId) (offset : Nat) (closed : ElementId)
  | closedByEnd (offset depth : Nat) (closed : ElementId)
  | stopped (fault : Fault) (offset : Nat)
  deriving DecidableEq, Repr

namespace Event

def severity : Event → Severity
  | .closedByTag .. => .debug
  | .closedByEnd .. => .warning
  | .stopped .. => .error

def text : Event → String
  | .closedByTag id offset closed =>
    s!"tag {id.text} at offset {offset} closes unknown-size container {closed.text}"
  | .closedByEnd offset depth closed =>
    s!"source ended at offset {offset} with {depth} open container(s), closing {closed.text}"
  | .stopped fault offset =>
    s!"{(Outcome.fault fault.faultClass).name} at offset {offset} " ++
      s!"(tag id {(fault.id?.getD 0).text}): {fault.message}"

end Event

/-- The events noted so far, and the rank from which on events are noted; without a threshold, none
are. -/
structure Journal where
  threshold : Option UInt8
  events : Array Event := #[]
  deriving DecidableEq, Repr

/-- Whether a journal keeps events of this severity. -/
def Journal.keeps (j : Journal) (severity : Severity) : Bool :=
  j.threshold.any (· ≤ severity.rank)

def Journal.note (j : Journal) (event : Event) : Journal :=
  if j.keeps event.severity then { j with events := j.events.push event } else j

end TagStream
