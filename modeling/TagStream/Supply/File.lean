import TagStream.Supply.Basic

/-!
Sources over files. A file that can be read delivers its bytes up to its end; one that was never
opened fails every read; one on a failing device fails the first read that asks for bytes and every
read after it.
-/

namespace TagStream

/-- A file, as far as reading it goes. `failing` says of a broken file whether a read has failed
yet. -/
inductive File where
  | readable (bytes : Array UInt8) (position : Nat)
  | unopened
  | broken (failing : Bool)
  deriving DecidableEq, Repr

namespace File

/-- A readable file that has no byte to give, or is asked for none, is taken to be at its end. -/
def read : File → Nat → Answer × File
  | .readable bytes position, limit =>
    let piece := bytes.extract position (position + limit)
    (if piece.isEmpty then .endOfData else .data piece, .readable bytes (position + piece.size))
  | .unopened, _ => (.failed, .unopened)
  | .broken failing, limit =>
    let failing := failing || 0 < limit
    (if failing then .failed else .endOfData, .broken failing)

instance : ByteSource File := ⟨read⟩

instance : LawfulByteSource File where
  size_le f f' limit bytes delivered := by
    change f.read limit = _ at delivered
    unfold read at delivered
    split at delivered
    · simp only at delivered
      split at delivered
      · simp at delivered
      · obtain ⟨rfl, rfl⟩ : _ ∧ _ := by simpa using delivered
        simp only [Array.size_extract]
        omega
    · simp at delivered
    · simp only at delivered
      split at delivered <;> simp at delivered

end File

end TagStream
