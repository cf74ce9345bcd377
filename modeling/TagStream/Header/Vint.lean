import TagStream.Value.Integer

/-!
Variable-length integers. The position of the highest set bit of the first byte, the marker, gives
the width of the whole integer in bytes; the bits after the marker are its value, most significant
first. `encode` writes a value in a chosen width; `read` reads one off the front of a byte string,
and tells a string that is too short from one that no further bytes could mend.
-/

namespace TagStream

/-- What the front of a byte string says about an item: it is there, more bytes are needed to tell,
or no bytes that follow can complete it. -/
inductive Front (α : Type) where
  | complete (item : α)
  | incomplete
  | malformed
  deriving DecidableEq, Repr

/-- Changes the item that is there. -/
def Front.map {α β : Type} (f : α → β) : Front α → Front β
  | .complete item => .complete (f item)
  | .incomplete => .incomplete
  | .malformed => .malformed

/-- A variable-length integer: the bits after the marker, and the width it was written in. -/
structure Vint where
  value : UInt64
  width : Nat
  deriving DecidableEq, Repr

namespace Vint

/-- The width in bytes of the integer that starts with `first`; a zero byte has no marker. -/
def width? (first : UInt8) : Option Nat :=
  if first = 0 then none else some (8 - first.toNat.log2)

theorem width?_le {first : UInt8} {width : Nat} (h : width? first = some width) : width ≤ 8 := by
  unfold width? at h
  split at h
  · simp at h
  · injection h; omega

/-- The bits of `first` after the marker of an integer of this width. -/
def payloadBits (first : UInt8) (width : Nat) : UInt64 :=
  first.toUInt64 &&& (1 <<< UInt64.ofNat (8 - width)) - 1

/-- Reads the integer at the front of a byte string. -/
def read : List UInt8 → Front Vint
  | [] => .incomplete
  | first :: rest =>
    match width? first with
    | none => .malformed
    | some width =>
      if rest.length + 1 < width then .incomplete
      else .complete ⟨BigEndian.extend (payloadBits first width) (rest.take (width - 1)), width⟩

/-- Writes `value` in `width` bytes: the marker is the bit above the `7 * width` value bits. -/
def encode (width value : Nat) : List UInt8 :=
  BigEndian.encode width ((1 <<< (7 * width)) + value)

end Vint

end TagStream
