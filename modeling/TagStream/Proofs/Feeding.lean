import TagStream.Proofs.Hearing
import TagStream.Supply.Basic

/-!
Memory as a queue. Whatever its owner and its readers do to a memory, in any order, the bytes that
have been delivered and the bytes that are left are together the bytes that were fed before it was
finished (`conserved_performAll`). One operation neither loses nor reorders a byte, whether or not
it drops those that have been read (`conserved_perform`); the rest is an induction on the
operations. A memory that has answered the end of its data answers nothing else from then on
(`answers_of_spent`).
-/

namespace TagStream.Memory

/-! ### Operations -/

/-- What can be done to a memory. -/
inductive Operation where
  | feed (bytes : Array UInt8)
  | read (limit : Nat)
  | finish
  | setCap (cap : Nat)
  deriving DecidableEq, Repr

namespace Operation

/-- The bytes that an operation offers. -/
def fed : Operation → List UInt8
  | .feed bytes => bytes.toList
  | _ => []

/-- The cap after an operation. -/
def capAfter (cap : Nat) : Operation → Nat
  | .setCap cap => cap
  | _ => cap

end Operation

/-- Performs an operation. Gives the answer, if it is a read. -/
def perform (m : Memory) : Operation → Option Answer × Memory
  | .feed bytes => (none, m.feed bytes)
  | .read limit => ((m.read limit).1, (m.read limit).2)
  | .finish => (none, m.finish)
  | .setCap cap => (none, m.setCap cap)

/-- Performs operations in a row. Gives the answers to the reads among them. -/
def performAll (m : Memory) : List Operation → List Answer × Memory
  | [] => ([], m)
  | op :: ops =>
    let (answer, m) := m.perform op
    let (answers, m) := m.performAll ops
    (answer.toList ++ answers, m)

/-- The bytes fed before the memory is finished, in order. -/
def accepted (ops : List Operation) : List UInt8 :=
  (ops.takeWhile (· != .finish)).flatMap Operation.fed

theorem accepted_cons (op : Operation) (ops : List Operation) :
    accepted (op :: ops) = if op = .finish then [] else op.fed ++ accepted ops := by
  unfold accepted
  rw [List.takeWhile_cons]
  by_cases finish : op = .finish
  · rw [if_pos finish, finish]
    rfl
  · rw [if_neg finish, if_pos (by simpa using finish), List.flatMap_cons]

/-! ### One read -/

/-- How many bytes a read delivers. -/
theorem delivery_eq (m : Memory) (limit : Nat) :
    m.delivery limit =
      if m.cap = 0 then min m.pending limit else min (min m.pending limit) m.cap := by
  unfold delivery
  by_cases uncapped : m.cap = 0
  · rw [if_pos uncapped, if_neg (by omega)]
  · rw [if_neg uncapped, if_pos (by omega)]

/-- Of the bytes that are left none are delivered only if none are asked for. -/
theorem delivery_eq_zero_iff {m : Memory} (left : m.pending ≠ 0) (limit : Nat) :
    m.delivery limit = 0 ↔ limit = 0 := by
  rw [delivery_eq]
  split <;> omega

theorem read_of_drained {m : Memory} (drained : m.pending = 0) (limit : Nat) :
    m.read limit = (if m.finished then .endOfData else .wouldBlock, m) := by
  unfold read
  rw [if_pos drained]

theorem read_zero {m : Memory} (left : m.pending ≠ 0) : m.read 0 = (.wouldBlock, m) := by
  unfold read
  rw [if_neg left]
  exact if_pos ((delivery_eq_zero_iff left 0).mpr rfl)

/-- A read that asks for some of the bytes that are left takes the first of them. -/
theorem read_of_pending {m : Memory} (left : m.pending ≠ 0) {limit : Nat} (asked : limit ≠ 0) :
    m.read limit = (.data (m.remaining.take (m.delivery limit)).toArray,
      { m with position := m.position + m.delivery limit }) := by
  have delivers : m.delivery limit ≠ 0 := mt (delivery_eq_zero_iff left limit).mp asked
  unfold read
  rw [if_neg left]
  simp only [if_neg delivers, remaining]
  congr 2
  apply Array.toList_inj.mp
  rw [Array.toList_extract, List.extract_eq_take_drop, Nat.add_sub_cancel_left]

theorem remaining_of_position (m : Memory) (count : Nat) :
    remaining { m with position := m.position + count } = m.remaining.drop count := by
  simp [remaining]

/-- A read finds nothing left, is asked for nothing, or delivers. -/
theorem cases_of_read (m : Memory) (limit : Nat) :
    (m.read limit).2 = m ∧ (m.read limit).1.bytes = [] ∨
      m.read limit = (.data (m.remaining.take (m.delivery limit)).toArray,
        { m with position := m.position + m.delivery limit }) := by
  by_cases drained : m.pending = 0
  · left
    rw [read_of_drained drained]
    cases m.finished <;> exact ⟨rfl, rfl⟩
  · by_cases asked : limit = 0
    · left
      rw [asked, read_zero drained]
      exact ⟨rfl, rfl⟩
    · right
      exact read_of_pending drained asked

/-! ### One operation -/

/-- No operation has more read than is stored. -/
theorem inside_perform {m : Memory} (inside : m.position ≤ m.stored.size) (op : Operation) :
    (m.perform op).2.position ≤ (m.perform op).2.stored.size := by
  cases op with
  | feed bytes => exact inside_feed inside bytes
  | finish | setCap cap => exact inside
  | read limit =>
    change (m.read limit).2.position ≤ (m.read limit).2.stored.size
    rcases m.cases_of_read limit with ⟨same, -⟩ | delivers
    · rw [same]
      exact inside
    · have few := m.delivery_le_pending limit
      rw [pending] at few
      rw [delivers]
      change m.position + m.delivery limit ≤ m.stored.size
      omega

theorem finished_perform (m : Memory) (op : Operation) :
    (m.perform op).2.finished = (m.finished || op == .finish) := by
  cases op with
  | feed bytes => simp [perform, finished_feed]
  | finish => simp [perform, finish]
  | setCap cap => simp [perform, setCap]
  | read limit =>
    rw [show (Operation.read limit == .finish) = false from rfl, Bool.or_false]
    change (m.read limit).2.finished = m.finished
    rcases m.cases_of_read limit with ⟨same, -⟩ | delivers
    · rw [same]
    · rw [delivers]

theorem cap_perform (m : Memory) (op : Operation) :
    (m.perform op).2.cap = Operation.capAfter m.cap op := by
  cases op with
  | feed bytes => exact cap_feed m bytes
  | finish | setCap cap => rfl
  | read limit =>
    change (m.read limit).2.cap = m.cap
    rcases m.cases_of_read limit with ⟨same, -⟩ | delivers
    · rw [same]
    · rw [delivers]

/-- What an operation delivers and what it leaves is what was left and what it adds. -/
theorem conserved_perform {m : Memory} (inside : m.position ≤ m.stored.size) (op : Operation) :
    (m.perform op).1.toList.flatMap Answer.bytes ++ (m.perform op).2.remaining =
      m.remaining ++ if m.finished then [] else op.fed := by
  cases op with
  | feed bytes =>
    change (m.feed bytes).remaining = m.remaining ++ if m.finished then [] else bytes.toList
    cases finished : m.finished with
    | true =>
      rw [feed_of_finished finished, if_pos rfl, List.append_nil]
    | false =>
      rw [remaining_feed finished inside, if_neg Bool.false_ne_true]
  | finish | setCap cap =>
    change m.remaining = m.remaining ++ if m.finished then [] else []
    rw [ite_self, List.append_nil]
  | read limit =>
    change [(m.read limit).1].flatMap Answer.bytes ++ (m.read limit).2.remaining =
      m.remaining ++ if m.finished then [] else []
    rw [ite_self, List.append_nil, List.flatMap_singleton]
    rcases m.cases_of_read limit with ⟨same, nothing⟩ | delivers
    · rw [same, nothing, List.nil_append]
    · rw [delivers, remaining_of_position]
      exact List.take_append_drop _ _

/-! ### Operations in a row -/

theorem performAll_cons (m : Memory) (op : Operation) (ops : List Operation) :
    m.performAll (op :: ops) =
      ((m.perform op).1.toList ++ ((m.perform op).2.performAll ops).1,
        ((m.perform op).2.performAll ops).2) :=
  rfl

theorem finished_performAll (m : Memory) (ops : List Operation) :
    (m.performAll ops).2.finished = true ↔ m.finished = true ∨ .finish ∈ ops := by
  induction ops generalizing m with
  | nil => simp [performAll]
  | cons op ops ih =>
    rw [performAll_cons, ih, finished_perform, List.mem_cons, Bool.or_eq_true, beq_iff_eq,
      or_assoc, eq_comm (a := op)]

theorem cap_performAll (m : Memory) (ops : List Operation) :
    (m.performAll ops).2.cap = ops.foldl Operation.capAfter m.cap := by
  induction ops generalizing m with
  | nil => rfl
  | cons op ops ih => rw [performAll_cons, ih, cap_perform, List.foldl_cons]

/-- What operations deliver and what they leave is what was left and what they add, which is nothing
once the memory is finished. -/
theorem conserved_performAll {m : Memory} (inside : m.position ≤ m.stored.size)
    (ops : List Operation) :
    (m.performAll ops).1.flatMap Answer.bytes ++ (m.performAll ops).2.remaining =
      m.remaining ++ if m.finished then [] else accepted ops := by
  induction ops generalizing m with
  | nil =>
    change m.remaining = m.remaining ++ if m.finished then [] else []
    rw [ite_self, List.append_nil]
  | cons op ops ih =>
    rw [performAll_cons, List.flatMap_append, List.append_assoc, ih (inside_perform inside op),
      ← List.append_assoc, conserved_perform inside, finished_perform, List.append_assoc,
      accepted_cons]
    cases finished : m.finished with
    | true => rfl
    | false =>
      by_cases finish : op = .finish
      · rw [finish]
        rfl
      · simp [finish]

/-- A memory that is finished and has nothing left answers every read with the end of its data. -/
theorem answers_of_spent {m : Memory} (drained : m.pending = 0) (finished : m.finished = true)
    (ops : List Operation) : ∀ answer ∈ (m.performAll ops).1, answer = .endOfData := by
  induction ops generalizing m with
  | nil => simp [performAll]
  | cons op ops ih =>
    have answers : ∀ answer ∈ (m.perform op).1.toList, answer = .endOfData := by
      cases op with
      | feed | finish | setCap => simp [perform]
      | read limit => simp [perform, read_of_drained drained, finished]
    have drained' : (m.perform op).2.pending = 0 := by
      cases op with
      | feed bytes => simpa [perform, feed_of_finished finished] using drained
      | finish | setCap => exact drained
      | read limit => simpa [perform, read_of_drained drained] using drained
    have finished' : (m.perform op).2.finished = true := by
      rw [finished_perform, finished]
      rfl
    rw [performAll_cons]
    exact List.forall_mem_append.mpr ⟨answers, ih drained' finished'⟩

/-- The end of the data is what a read of a finished memory with nothing left answers. -/
theorem endOfData_iff (m : Memory) (limit : Nat) :
    (m.read limit).1 = .endOfData ↔ m.pending = 0 ∧ m.finished = true := by
  by_cases drained : m.pending = 0
  · rw [read_of_drained drained]
    cases m.finished <;> simp [drained]
  · by_cases asked : limit = 0
    · rw [asked, read_zero drained]
      simp [drained]
    · rw [read_of_pending drained asked]
      simp [drained]

/-- **Memory is a lossless queue.** After any operations on a new memory, the bytes delivered and
then the bytes left are the bytes fed before the memory was finished, and as many are pending as are
left. A read of them delivers the first, as many as are asked for and the cap lets through, and
leaves the others; it would block if none are asked for. With nothing left a read answers the end of
the data if the memory has been finished, as every read does from then on, and would block if
not. -/
theorem performAll_lossless (ops : List Operation) :
    ∃ answers m, performAll {} ops = (answers, m) ∧
      answers.flatMap Answer.bytes ++ m.remaining = accepted ops ∧
      m.pending = m.remaining.length ∧
      m.cap = ops.foldl Operation.capAfter 0 ∧
      ∀ limit,
        (m.pending ≠ 0 → limit ≠ 0 → ∃ count m',
          count = (if m.cap = 0 then min m.pending limit else min (min m.pending limit) m.cap) ∧
          0 < count ∧ m.read limit = (.data (m.remaining.take count).toArray, m') ∧
          m'.remaining = m.remaining.drop count) ∧
        (m.pending ≠ 0 → limit = 0 → m.read limit = (.wouldBlock, m)) ∧
        (m.pending = 0 → .finish ∉ ops → m.read limit = (.wouldBlock, m)) ∧
        ((m.read limit).1 = .endOfData ↔ m.pending = 0 ∧ .finish ∈ ops) ∧
        ((m.read limit).1 = .endOfData →
          ∀ later, ∀ answer ∈ ((m.read limit).2.performAll later).1, answer = .endOfData) := by
  have inside : ({} : Memory).position ≤ ({} : Memory).stored.size := Nat.le_refl _
  have finished := finished_performAll {} ops
  have conserved := conserved_performAll inside ops
  have cap := cap_performAll {} ops
  obtain ⟨answers, m, performed⟩ : ∃ answers m, performAll {} ops = (answers, m) := ⟨_, _, rfl⟩
  rw [performed] at finished conserved cap
  simp only [Bool.false_eq_true, false_or] at finished
  refine ⟨answers, m, performed, conserved, m.length_remaining.symm, cap, fun limit => ?_⟩
  refine ⟨?_, ?_, ?_, ?_, ?_⟩
  · intro left asked
    have delivers := mt (delivery_eq_zero_iff left limit).mp asked
    refine ⟨m.delivery limit, _, delivery_eq m limit, by omega, read_of_pending left asked, ?_⟩
    exact remaining_of_position m _
  · rintro left rfl
    exact read_zero left
  · intro drained unfinished
    rw [read_of_drained drained, if_neg (mt finished.mp unfinished)]
  · rw [endOfData_iff, finished]
  · intro ended
    obtain ⟨drained, isFinished⟩ := (endOfData_iff m limit).mp ended
    rw [read_of_drained drained]
    exact answers_of_spent drained isFinished

end TagStream.Memory
