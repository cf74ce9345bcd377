import TagStream.Supply.Basic

/-!
A source that follows a script of answers, and can so behave in every way a source may: bytes in
pieces of any size, pauses, failures and ends in any order.
-/

namespace TagStream

/-- An answer that brings no bytes: nothing for the moment, which may also be said by delivering no
bytes, a failure, or the end. -/
inductive Silence where
  | wouldBlock
  | nothing
  | failed
  | endOfData
  deriving DecidableEq, Repr

def Silence.answer : Silence → Answer
  | .wouldBlock => .wouldBlock
  | .nothing => .data #[]
  | .failed => .failed
  | .endOfData => .endOfData

theorem Silence.size_le_of_answer {answer : Silence} {limit : Nat} {bytes : Array UInt8}
    (delivered : answer.answer = .data bytes) : bytes.size ≤ limit := by
  cases answer <;> simp_all [Silence.answer]

/-- One step of a script: bytes to deliver, or an answer to give once. -/
inductive Cue where
  | data (bytes : List UInt8)
  | silence (answer : Silence)
  deriving DecidableEq, Repr

/-- The steps that are left, and the answer given once there are none. -/
structure Script where
  cues : List Cue
  last : Silence
  deriving DecidableEq, Repr

namespace Script

/-- Reads along a list of steps. A step delivers its bytes over as many reads as it takes, and is
left when they are gone; one that has no byte for a read is passed over. -/
def readCues (last : Silence) (limit : Nat) : List Cue → Answer × List Cue
  | [] => (last.answer, [])
  | .silence answer :: rest => (answer.answer, rest)
  | .data bytes :: rest =>
    if bytes.isEmpty || limit = 0 then readCues last limit rest
    else
      let left := bytes.drop limit
      (.data (bytes.take limit).toArray, if left.isEmpty then rest else .data left :: rest)

def read (s : Script) (limit : Nat) : Answer × Script :=
  let (answer, cues) := readCues s.last limit s.cues
  (answer, { s with cues })

instance : ByteSource Script := ⟨read⟩

theorem size_le_of_readCues {last : Silence} {limit : Nat} {cues : List Cue} {bytes : Array UInt8}
    (delivered : (readCues last limit cues).1 = .data bytes) : bytes.size ≤ limit := by
  fun_induction readCues last limit cues with
  | case1 => exact Silence.size_le_of_answer delivered
  | case2 => exact Silence.size_le_of_answer delivered
  | case3 bytes' rest passed ih => exact ih delivered
  | case4 bytes' rest brings left =>
    simp only [Answer.data.injEq] at delivered
    simp only [← delivered, List.size_toArray, List.length_take]
    omega

instance : LawfulByteSource Script where
  size_le s s' limit bytes delivered := by
    change s.read limit = _ at delivered
    exact size_le_of_readCues (congrArg Prod.fst delivered)

end Script

end TagStream
