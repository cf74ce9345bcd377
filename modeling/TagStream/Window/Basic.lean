import TagStream.Supply.Basic
import TagStream.Window.Allocator

/-!
The window: the bytes that have been taken from a source and not yet been consumed. They lie in a
storage area of bounded size, which is obtained when the first byte is needed and grows on demand;
the front of the area is reused once the bytes there are consumed. To its user a window is a queue
of `resident` bytes and the `offset` of the first of them in the stream.
-/

namespace TagStream

/-- A window of at least `minCapacity` and at most `maxCapacity` bytes of storage. `cells` is the
written part of the storage, of which the first `head` bytes are consumed. -/
structure Window where
  minCapacity : Nat
  maxCapacity : Nat
  allocator : Allocator
  storage : Option Nat := none
  peak : Nat := 0
  cells : Array UInt8 := #[]
  head : Nat := 0
  offset : Nat := 0
  calls : Array StorageCall := #[]

/-- Why a window does not hold the bytes that were asked for. -/
inductive Shortfall where
  | endOfData
  | wouldBlock
  | readFailed
  | exceedsLimit
  | allocationFailed
  deriving DecidableEq, Repr

namespace Window

/-- The size of the storage, zero before there is any. -/
def capacity (w : Window) : Nat :=
  w.storage.getD 0

/-- The number of resident bytes. -/
def available (w : Window) : Nat :=
  w.cells.size - w.head

/-- The resident bytes. -/
def resident (w : Window) : List UInt8 :=
  w.cells.toList.drop w.head

/-- The first `count` resident bytes, or all if there are fewer. -/
def front (w : Window) (count : Nat) : List UInt8 :=
  (w.cells.extract w.head (w.head + count)).toList

/-- Empties the window for a new stream; the storage is kept. -/
def reset (w : Window) : Window :=
  { w with cells := #[], head := 0, offset := 0 }

/-- Consumes `count` bytes, or all if there are fewer. An empty window starts again at the front of
its storage. -/
def advance (w : Window) (count : Nat) : Window :=
  let count := min count w.available
  let w := { w with head := w.head + count, offset := w.offset + count }
  if w.available = 0 then { w with cells := #[], head := 0 } else w

/-- Consumes `count` bytes, or all if there are fewer, and gives them out. -/
def take (w : Window) (count : Nat) : List UInt8 × Window :=
  (w.front count, w.advance count)

/-- Moves the resident bytes to the front of the storage. -/
def compact (w : Window) : Window :=
  if w.head = 0 then w
  else { w with cells := w.cells.extract w.head w.cells.size, head := 0 }

/-- Obtains storage if there is none yet: `minCapacity` bytes, or more if more are needed, but no
more than `maxCapacity`. -/
def obtain (w : Window) (needed : Nat) : Bool × Window :=
  match w.storage with
  | some _ => (true, w)
  | none =>
    let size := min (max w.minCapacity needed) w.maxCapacity
    let (granted, calls) := w.allocator.alloc w.calls size
    if granted then (true, { w with storage := some size, peak := size, calls })
    else (false, { w with calls })

/-- Enlarges the storage if it is too small: it doubles, or takes the needed size if that is more,
but never exceeds `maxCapacity`. -/
def enlarge (w : Window) (needed : Nat) : Bool × Window :=
  if needed ≤ w.capacity then (true, w)
  else
    let size := min (max (w.capacity * 2) needed) w.maxCapacity
    let (granted, calls) := w.allocator.realloc w.calls size
    if granted then (true, { w with storage := some size, peak := max w.peak size, calls })
    else (false, { w with calls })

/-- Makes sure that the storage holds `needed` bytes, for `needed` at most `maxCapacity`. -/
def reserve (w : Window) (needed : Nat) : Bool × Window :=
  match w.obtain needed with
  | (true, w) => w.enlarge needed
  | refused => refused

/-- Puts bytes behind the resident ones. -/
def append (w : Window) (bytes : Array UInt8) : Window :=
  { w with cells := w.cells ++ bytes }

variable {σ : Type} [ByteSource σ]

/-- Reads until `needed` bytes are resident, asking each time for exactly those still missing. A
delivery of no bytes counts as a pause. -/
def fill (w : Window) (needed : Nat) (source : σ) : Option Shortfall × Window × σ :=
  if w.available < needed then
    match ByteSource.read source (needed - w.available) with
    | (.data bytes, source) =>
      if bytes.size = 0 then (some .wouldBlock, w, source)
      else fill (w.append bytes) needed source
    | (.endOfData, source) => (some .endOfData, w, source)
    | (.wouldBlock, source) => (some .wouldBlock, w, source)
    | (.failed, source) => (some .readFailed, w, source)
  else (none, w, source)
termination_by needed + w.head - w.cells.size
decreasing_by simp only [append, available, Array.size_append] at *; omega

/-- Makes room for `needed` bytes behind the consumed ones: the resident bytes are moved if they and
the bytes to come reach beyond the storage, and the storage grows if it is too small. How far they
reach is a sum that a register may not hold; `add` is the addition that takes it. -/
def prepareWith (add : Nat → Nat → Nat) (w : Window) (needed : Nat) : Bool × Window :=
  (if w.capacity < add w.head needed then w.compact else w).reserve needed

/-- Makes `needed` bytes resident, on a machine that adds by `add`. Nothing is asked of the source
or the allocator if they already are, nor if the window can never hold them. -/
def ensureWith (add : Nat → Nat → Nat) (w : Window) (needed : Nat) (source : σ) :
    Option Shortfall × Window × σ :=
  if needed ≤ w.available then (none, w, source)
  else if w.maxCapacity < needed then (some .exceedsLimit, w, source)
  else
    match w.prepareWith add needed with
    | (true, w) => w.fill needed source
    | (false, w) => (some .allocationFailed, w, source)

/-- Makes `needed` bytes resident, where every sum is exact. -/
def ensure (w : Window) (needed : Nat) (source : σ) : Option Shortfall × Window × σ :=
  w.ensureWith (· + ·) needed source

/-- Gives the storage back, if there is any, and the calls on record afterwards. -/
def release (w : Window) : Array StorageCall :=
  if w.storage.isSome then w.allocator.free w.calls else w.calls

end Window

end TagStream
