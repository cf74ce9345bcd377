/-!
Where a window gets its storage. Storage comes from the standard allocator, which has a fixed amount
of memory to give, or from three functions supplied together; every call of a supplied function is
kept on record.
-/

namespace TagStream

/-- A call of a supplied function: what was asked for, and whether it was granted. -/
inductive StorageCall where
  | alloc (size : Nat) (granted : Bool)
  | realloc (size : Nat) (granted : Bool)
  | free
  deriving DecidableEq, Repr

/-- How a supplied function decides on a size, given the calls made before. -/
abbrev Policy := Array StorageCall → Nat → Bool

/-- The functions that are supplied, and the memory of the standard allocator. -/
structure StorageConfig where
  alloc : Option Policy := none
  realloc : Option Policy := none
  free : Bool := false
  memory : Nat := 0x800000000

/-- The standard allocator of a machine with this much memory, or functions that decide on each
request. -/
inductive Allocator where
  | standard (memory : Nat)
  | supplied (alloc realloc : Policy)

/-- Supplied functions are used only if all three are there. -/
def StorageConfig.allocator : StorageConfig → Allocator
  | ⟨some alloc, some realloc, true, _⟩ => .supplied alloc realloc
  | c => .standard c.memory

namespace Allocator

/-- No allocator grants this size or a larger one. -/
def sizeLimit : Nat := 0x8000000000000000

/-- Asks for new storage, and gives the calls on record afterwards. -/
def alloc (a : Allocator) (calls : Array StorageCall) (size : Nat) : Bool × Array StorageCall :=
  match a with
  | .standard memory => (size < sizeLimit && size < memory, calls)
  | .supplied alloc _ =>
    let granted := size < sizeLimit && alloc calls size
    (granted, calls.push (.alloc size granted))

/-- Asks for the storage at hand to be given another size. -/
def realloc (a : Allocator) (calls : Array StorageCall) (size : Nat) : Bool × Array StorageCall :=
  match a with
  | .standard memory => (size < sizeLimit && size < memory, calls)
  | .supplied _ realloc =>
    let granted := size < sizeLimit && realloc calls size
    (granted, calls.push (.realloc size granted))

/-- Gives storage back. -/
def free (a : Allocator) (calls : Array StorageCall) : Array StorageCall :=
  match a with
  | .standard _ => calls
  | .supplied _ _ => calls.push .free

end Allocator

end TagStream
