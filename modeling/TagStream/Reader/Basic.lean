import TagStream.Reader.Demand
import TagStream.Reader.Journal

/-!
The reader. One step gives one tag: the tag that was put off, the closing tag of a container whose
bytes are all consumed, or the tag at the front of the window. A tag that may not stand in the
innermost container, where that one has unknown size, first closes it: the step gives the closing
tag and puts the tag off. When the source ends, each step closes one container. A step that cannot
finish for want of bytes leaves the reader as it was, but for the bytes that arrived; a fault stops
the reader until it is reset.
-/

namespace TagStream

/-- How a reader is set up: the sizes of its window, where its storage comes from, and the threshold
of its journal. -/
structure Config where
  minWindow : Nat := 1024
  maxWindow : Nat := 1048576
  storage : StorageConfig := {}
  threshold : Option UInt8 := none

namespace Config

/-- The least capacity of the window; zero stands for the default. -/
def minCapacity (c : Config) : Nat :=
  if c.minWindow = 0 then ({} : Config).minWindow else c.minWindow

/-- The greatest capacity of the window, which is no less than the least. -/
def maxCapacity (c : Config) : Nat :=
  max c.maxWindow c.minCapacity

/-- The window of a reader. -/
def window (c : Config) : Window where
  minCapacity := c.minCapacity
  maxCapacity := c.maxCapacity
  allocator := c.storage.allocator

end Config

/-- What a reader has counted: the tags given, the containers closed by a tag that may not stand in
them, and those closed because the source ended. -/
structure Tally where
  tags : Nat := 0
  closedByTag : Nat := 0
  closedByEnd : Nat := 0
  deriving DecidableEq, Repr

/-- A reader. `containers` holds the closing tags owed, innermost first, and `deferred` the tag that
was put off. -/
structure Reader where
  window : Window
  deferred : Option Emission := none
  containers : List Emission := []
  stopped : Option FaultClass := none
  tally : Tally := {}
  journal : Journal

namespace Reader

/-- A reader at the start of a stream. -/
def new (c : Config) : Reader where
  window := c.window
  journal := { threshold := c.threshold }

/-- Starts on a new stream. What was read of the old one and the tags owed are dropped. -/
def reset (r : Reader) : Reader :=
  { r with
    window := r.window.reset
    deferred := none
    containers := []
    stopped := none
    tally := {} }

/-- The offset of the next byte that has not been consumed. -/
def offset (r : Reader) : Nat :=
  r.window.offset

/-- The number of containers whose closing tag is owed. -/
def depth (r : Reader) : Nat :=
  r.containers.length

/-! ### Reports -/

/-- Gives a tag. -/
def emit (r : Reader) (emission : Emission) : Report × Reader :=
  (.tag emission, { r with tally := { r.tally with tags := r.tally.tags + 1 } })

/-- Stops with a fault. -/
def stop (r : Reader) (fault : Fault) : Report × Reader :=
  (.fault fault,
    { r with
      stopped := some fault.faultClass
      journal := r.journal.note (.stopped fault r.offset) })

/-! ### Tags that are owed -/

/-- Whether all bytes of a container are consumed, for a stream read up to `offset`. -/
def isComplete (container : Position) (offset : Nat) : Bool :=
  match container.size with
  | .known length => container.dataOffset + length ≤ offset
  | .unknown => false

/-- The tag that can be given without reading on, and the reader that no longer owes it: the tag
that was put off, or the closing tag of a container that is complete. -/
def owed? (r : Reader) : Option (Emission × Reader) :=
  match r.deferred, r.containers with
  | some emission, _ => some (emission, { r with deferred := none })
  | none, [] => none
  | none, innermost :: outer =>
    if isComplete innermost.position r.offset then some (innermost, { r with containers := outer })
    else none

/-- Closes the innermost container of a stream that has ended. -/
def closeAtEnd (r : Reader) : Report × Reader :=
  match r.containers with
  | [] => (.endOfStream, r)
  | innermost :: outer =>
    { r with
      containers := outer
      tally := { r.tally with closedByEnd := r.tally.closedByEnd + 1 }
      journal := r.journal.note (.closedByEnd r.offset r.depth innermost.tag.id) }.emit innermost

/-! ### Tags that are read -/

/-- Whether a tag with this id closes the container: only one of unknown size can be closed so, by a
tag that it does not admit. -/
def displaces (schema : Schema) (id : ElementId) (container : Emission) : Bool :=
  !container.position.size.isKnown && !schema.admits container.tag id

/-- Gives the tag that has been read of the element `id`, or puts it off and closes the innermost
container if the element may not stand there. A container comes with the closing tag it will owe,
which takes the place of the one it displaces. -/
def place (r : Reader) (schema : Schema) (id : ElementId) (emission : Emission)
    (closing : Option Emission) : Report × Reader :=
  match r.containers with
  | innermost :: outer =>
    if displaces schema id innermost then
      { r with
        deferred := some emission
        containers := closing.toList ++ outer
        tally := { r.tally with closedByTag := r.tally.closedByTag + 1 }
        journal := r.journal.note (.closedByTag id emission.position.offset innermost.tag.id) }.emit
          innermost
    else { r with containers := closing.toList ++ r.containers }.emit emission
  | [] => { r with containers := closing.toList }.emit emission

/-- Consumes bytes of the window. -/
def consume (r : Reader) (count : Nat) : Reader :=
  { r with window := r.window.advance count }

/-- Enters a container whose header is resident. -/
def enter (r : Reader) (schema : Schema) (header : Header) : Except Defect (Report × Reader) := do
  let position : Position := ⟨r.offset, header.length, header.size⟩
  let closing ← schema.tagOf header.id (.master .closing)
  let opening ← schema.tagOf header.id (.master .opening)
  return (r.consume header.length).place schema header.id ⟨opening, position⟩
    (some ⟨closing, position⟩)

/-- Reads a leaf whose header and payload are resident. -/
def readLeaf (r : Reader) (schema : Schema) (header : Header) (length : Nat) :
    Except Defect (Report × Reader) := do
  let position : Position := ⟨r.offset, header.length, header.size⟩
  let r := r.consume header.length
  let payload := r.window.front length
  match ← schema.tagOfPayload header.id (schema.kindOf header.id) payload with
  | .ok tag => return (r.consume length).place schema header.id ⟨tag, position⟩ none
  | .error malformed => return (r.consume length).stop (.payload header.id malformed payload)

/-! ### Steps -/

/-- What a lack of bytes comes to: a pause, the end of the stream if it falls between tags, or a
fault. -/
def fallShort (r : Reader) : Lack → Report × Reader
  | ⟨.wouldBlock, part⟩ => (.needMoreData part, r)
  | ⟨.endOfData, .start⟩ => r.closeAtEnd
  | ⟨.endOfData, part⟩ => r.stop (.truncated part)
  | ⟨.readFailed, part⟩ => r.stop (.readFailed part)
  | ⟨.exceedsLimit, part⟩ => r.stop (.windowExceeded part)
  | ⟨.allocationFailed, part⟩ => r.stop (.allocationFailed part)

/-- Acts on what has been settled about the tag at the front of the window. -/
def act (r : Reader) (schema : Schema) : Except Lack Verdict → Except Defect (Report × Reader)
  | .ok (.enter header) => r.enter schema header
  | .ok (.read header length) => r.readLeaf schema header length
  | .ok (.refuse fault) => .ok (r.stop fault)
  | .error lack => .ok (r.fallShort lack)

variable {σ : Type} [ByteSource σ]

/-- One step of reading. -/
def next (r : Reader) (schema : Schema) (source : σ) : Except Defect (Report × Reader × σ) :=
  match r.stopped with
  | some faultClass => .ok (.fault (.repeated faultClass), r, source)
  | none =>
    match r.owed? with
    | some (emission, r) =>
      let (report, r) := r.emit emission
      .ok (report, r, source)
    | none =>
      let (settled, window, source) := r.window.gather schema source
      (act { r with window } schema settled).map fun (report, r) => (report, r, source)

end Reader

end TagStream
