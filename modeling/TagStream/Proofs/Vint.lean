import TagStream.Header.Field
import TagStream.Proofs.BigEndian

/-!
Variable-length integers, read and written. `Vint.Fits` says that a value fits in its width;
`Vint.bytes` writes such an integer, and `Vint.read` is its exact inverse: it gives back what was
written whatever stands behind it (`read_bytes_append`), and it gives nothing else
(`bytes_of_read`). Every byte string is empty, cut short inside an integer, without a marker, or
starts with an integer (`front_cases`).
-/

namespace TagStream

namespace Vint

/-- The width is one to eight bytes, and the value fits in seven bits for each of them. -/
structure Fits (v : Vint) : Prop where
  width_pos : 0 < v.width
  width_le : v.width ≤ 8
  value_lt : v.value.toNat < 2 ^ (7 * v.width)

instance (v : Vint) : Decidable v.Fits :=
  decidable_of_iff (0 < v.width ∧ v.width ≤ 8 ∧ v.value.toNat < 2 ^ (7 * v.width))
    ⟨fun ⟨pos, le, lt⟩ => ⟨pos, le, lt⟩, fun ⟨pos, le, lt⟩ => ⟨pos, le, lt⟩⟩

/-- The integer as it is written. -/
def bytes (v : Vint) : List UInt8 :=
  encode v.width v.value.toNat

@[simp] theorem length_bytes (v : Vint) : v.bytes.length = v.width := by
  simp [bytes, encode]

/-- The marker is the bit above those of the value. -/
theorem bytes_eq (v : Vint) :
    v.bytes = BigEndian.encode v.width (2 ^ (7 * v.width) + v.value.toNat) := by
  rw [bytes, encode, Nat.one_shiftLeft]

/-- The marker and the value fit in the bytes of the width. -/
theorem Fits.marked_lt {v : Vint} (fits : v.Fits) :
    2 ^ (7 * v.width) + v.value.toNat < 256 ^ v.width := by
  have marker : 2 ^ (7 * v.width) * 2 ≤ 256 ^ v.width := by
    rw [show 256 ^ v.width = 2 ^ (8 * v.width) from (Nat.pow_mul 2 8 _).symm, ← Nat.pow_succ]
    exact Nat.pow_le_pow_right (by decide) (by have := fits.width_pos; omega)
  have below := fits.value_lt
  omega

/-! ### The first byte -/

/-- A first byte names the width whose marker is its highest set bit. -/
theorem width?_eq_some_iff {first : UInt8} {width : Nat} :
    width? first = some width ↔
      (0 < width ∧ width ≤ 8) ∧ 2 ^ (8 - width) ≤ first.toNat ∧ first.toNat < 2 ^ (9 - width) := by
  have byte : first.toNat < 2 ^ 8 := first.toNat_lt
  unfold width?
  split
  · next zero =>
    subst zero
    have := Nat.pow_pos (n := 8 - width) (show 0 < 2 by decide)
    simp only [reduceCtorEq, UInt8.toNat_zero, false_iff]
    omega
  · next nonzero =>
    have positive : first.toNat ≠ 0 := fun h => nonzero (UInt8.toNat_inj.mp h)
    have top := (Nat.log2_lt positive).mpr byte
    rw [Option.some.injEq]
    constructor
    · rintro rfl
      refine ⟨by omega, ?_, ?_⟩
      · rw [show 8 - (8 - first.toNat.log2) = first.toNat.log2 by omega]
        exact Nat.log2_self_le positive
      · rw [show 9 - (8 - first.toNat.log2) = first.toNat.log2 + 1 by omega]
        exact Nat.lt_log2_self
    · rintro ⟨range, low, high⟩
      have low := (Nat.le_log2 positive).mpr low
      have high := (Nat.log2_lt positive).mpr high
      omega

theorem width?_eq_none_iff {first : UInt8} : width? first = none ↔ first = 0 := by
  unfold width?
  split <;> simp_all

/-- A bit of a register, by its place. -/
theorem toNat_one_shiftLeft {k : Nat} (small : k < 64) :
    (1 <<< UInt64.ofNat k : UInt64).toNat = 2 ^ k := by
  rw [BigEndian.toNat_shiftLeft_ofNat small, UInt64.toNat_one, Nat.one_mul,
    Nat.mod_eq_of_lt (Nat.pow_lt_pow_right (by decide) small)]

/-- The mask of the bits below a place. -/
theorem toNat_one_shiftLeft_sub_one {k : Nat} (small : k < 64) :
    (1 <<< UInt64.ofNat k - 1 : UInt64).toNat = 2 ^ k - 1 := by
  have one : (1 : UInt64) ≤ 1 <<< UInt64.ofNat k := by
    rw [UInt64.le_iff_toNat_le, toNat_one_shiftLeft small]
    exact Nat.pow_pos (by decide)
  rw [UInt64.toNat_sub_of_le _ _ one, toNat_one_shiftLeft small, UInt64.toNat_one]

/-- The bits after the marker are what the first byte exceeds the marker by. -/
theorem toNat_payloadBits {first : UInt8} {width : Nat} (h : width? first = some width) :
    (payloadBits first width).toNat + 2 ^ (8 - width) = first.toNat := by
  obtain ⟨⟨pos, le⟩, low, high⟩ := width?_eq_some_iff.mp h
  have twice : 2 ^ (9 - width) = 2 * 2 ^ (8 - width) := by
    rw [show 9 - width = 8 - width + 1 by omega, Nat.pow_succ, Nat.mul_comm]
  rw [payloadBits, UInt64.toNat_and, toNat_one_shiftLeft_sub_one (by omega), UInt8.toNat_toUInt64,
    Nat.and_two_pow_sub_one_eq_mod, Nat.mod_eq_sub_mod low, Nat.mod_eq_of_lt (by omega)]
  omega

/-! ### Reading what was written -/

/-- The register holds the number that all bytes spell, less the marker, and that number has no bit
above the marker. -/
theorem toNat_extend_payloadBits {first : UInt8} {rest : List UInt8}
    (named : width? first = some (rest.length + 1)) :
    BigEndian.value (first :: rest) =
        2 ^ (7 * (rest.length + 1)) +
          (BigEndian.extend (payloadBits first (rest.length + 1)) rest).toNat ∧
      (BigEndian.extend (payloadBits first (rest.length + 1)) rest).toNat <
        2 ^ (7 * (rest.length + 1)) := by
  obtain ⟨⟨-, le⟩, low, high⟩ := width?_eq_some_iff.mp named
  have bits := toNat_payloadBits named
  have below := BigEndian.value_lt rest
  have marker : 2 ^ (8 - (rest.length + 1)) * 256 ^ rest.length = 2 ^ (7 * (rest.length + 1)) := by
    rw [show 256 ^ rest.length = 2 ^ (8 * rest.length) from (Nat.pow_mul 2 8 _).symm,
      ← Nat.pow_add]
    congr 1; omega
  have double : 2 ^ (9 - (rest.length + 1)) = 2 * 2 ^ (8 - (rest.length + 1)) := by
    rw [show 9 - (rest.length + 1) = 8 - (rest.length + 1) + 1 by omega, Nat.pow_succ,
      Nat.mul_comm]
  have room : ((payloadBits first (rest.length + 1)).toNat + 1) * 256 ^ rest.length ≤
      2 ^ (7 * (rest.length + 1)) := by
    rw [← marker]
    exact Nat.mul_le_mul_right _ (by omega)
  have word : 2 ^ (7 * (rest.length + 1)) ≤ 2 ^ 64 :=
    Nat.pow_le_pow_right (by decide) (by omega)
  rw [BigEndian.toNat_extend (Nat.le_trans room word), BigEndian.value_cons, ← bits,
    Nat.add_mul, marker]
  rw [Nat.add_mul] at room
  omega

/-- What is read is the number that the integer's bytes spell, less the marker. -/
theorem value_take_of_read {bytes : List UInt8} {v : Vint} (h : read bytes = .complete v) :
    v.Fits ∧ v.width ≤ bytes.length ∧
      BigEndian.value (bytes.take v.width) = 2 ^ (7 * v.width) + v.value.toNat := by
  unfold read at h
  split at h
  · simp at h
  · next first rest =>
    split at h
    · simp at h
    · next width named =>
      have range := (width?_eq_some_iff.mp named).1
      split at h
      · simp at h
      · next enough =>
        injection h with h
        subst h
        have length : (rest.take (width - 1)).length + 1 = width := by
          rw [List.length_take]; omega
        have named : width? first = some ((rest.take (width - 1)).length + 1) := by
          rw [length]; exact named
        obtain ⟨spelled, below⟩ := toNat_extend_payloadBits named
        rw [length] at spelled below
        have front : (first :: rest).take width = first :: rest.take (width - 1) := by
          rw [List.take_cons range.1]
        exact ⟨⟨range.1, range.2, below⟩, by simp at enough ⊢; omega, by rw [front, spelled]⟩

/-- Only what was written is read. -/
theorem bytes_of_read {bytes : List UInt8} {v : Vint} (h : read bytes = .complete v) :
    v.Fits ∧ bytes = v.bytes ++ bytes.drop v.width := by
  obtain ⟨fits, enough, value⟩ := value_take_of_read h
  have front : v.bytes = bytes.take v.width := by
    have length : (bytes.take v.width).length = v.width := by
      rw [List.length_take]; omega
    have written := BigEndian.encode_value (bytes.take v.width)
    rw [length, value] at written
    rw [bytes_eq, written]
  exact ⟨fits, by rw [front, List.take_append_drop]⟩

/-- A written integer starts with a byte that names its width. -/
theorem width?_head {v : Vint} (fits : v.Fits) :
    ∃ first rest, v.bytes = first :: rest ∧ width? first = some v.width := by
  obtain ⟨pos, le, lt⟩ := fits
  obtain ⟨tail, width⟩ : ∃ tail, v.width = tail + 1 := ⟨v.width - 1, by omega⟩
  refine ⟨_, _, by rw [bytes_eq, width, BigEndian.encode_succ], ?_⟩
  have unit : 0 < 256 ^ tail := Nat.pow_pos (by decide)
  have marker : 2 ^ (7 * (tail + 1)) = 2 ^ (7 - tail) * 256 ^ tail := by
    rw [show 256 ^ tail = 2 ^ (8 * tail) from (Nat.pow_mul 2 8 _).symm, ← Nat.pow_add]
    congr 1; omega
  rw [width, marker] at lt
  have above : v.value.toNat / 256 ^ tail < 2 ^ (7 - tail) := Nat.div_lt_of_lt_mul
    (by rw [Nat.mul_comm]; exact lt)
  have first : (2 ^ (7 * (tail + 1)) + v.value.toNat) / 256 ^ tail =
      2 ^ (7 - tail) + v.value.toNat / 256 ^ tail := by
    rw [marker, Nat.add_comm, Nat.add_mul_div_right _ _ unit, Nat.add_comm]
  have fits : 2 ^ (7 - tail) + v.value.toNat / 256 ^ tail < 2 ^ 8 := by
    have : 2 ^ (7 - tail) ≤ 2 ^ 7 := Nat.pow_le_pow_right (by decide) (by omega)
    omega
  have double : 2 ^ (9 - (tail + 1)) = 2 * 2 ^ (7 - tail) := by
    rw [show 9 - (tail + 1) = 7 - tail + 1 by omega, Nat.pow_succ, Nat.mul_comm]
  rw [width?_eq_some_iff, width, first, UInt8.toNat_ofNat', Nat.mod_eq_of_lt fits, double,
    show 8 - (tail + 1) = 7 - tail by omega]
  generalize v.value.toNat / 256 ^ tail = high at above
  omega

/-- What was written is read, whatever stands behind it. -/
theorem read_bytes_append {v : Vint} (fits : v.Fits) (rest : List UInt8) :
    read (v.bytes ++ rest) = .complete v := by
  obtain ⟨first, tail, written, named⟩ := width?_head fits
  have length := v.length_bytes
  rw [written, List.length_cons] at length
  -- Something of the right width is read; its bytes spell the number that those of `v` spell.
  have complete : ∃ u, read (v.bytes ++ rest) = .complete u ∧ u.width = v.width := by
    rw [written, List.cons_append, read, named]
    simp only [List.length_append]
    rw [if_neg (by omega)]
    exact ⟨_, rfl, rfl⟩
  obtain ⟨u, h, width⟩ := complete
  have value := (value_take_of_read h).2.2
  have spelled : BigEndian.value v.bytes = 2 ^ (7 * v.width) + v.value.toNat := by
    rw [bytes_eq, BigEndian.value_encode, Nat.mod_eq_of_lt fits.marked_lt]
  rw [width, List.take_left' v.length_bytes, spelled] at value
  have same : u.value = v.value := UInt64.toNat_inj.mp (by omega)
  rw [h]
  cases u; cases v
  simp_all

/-- Bytes that name a width but are fewer are the front of something written. -/
theorem exists_bytes_of_width? {first : UInt8} {rest : List UInt8} {width : Nat}
    (named : width? first = some width) (short : rest.length + 1 ≤ width) :
    ∃ v : Vint, v.Fits ∧ v.width = width ∧ first :: rest <+: v.bytes := by
  have enough : ¬ (rest ++ List.replicate (width - 1 - rest.length) 0).length + 1 < width := by
    rw [List.length_append, List.length_replicate]; omega
  have complete := show read (first :: (rest ++ List.replicate (width - 1 - rest.length) 0)) =
      .complete ⟨_, width⟩ by rw [read, named]; exact if_neg enough
  obtain ⟨fits, written⟩ := bytes_of_read complete
  refine ⟨_, fits, rfl, ?_⟩
  refine List.prefix_of_prefix_length_le ⟨_, rfl⟩ ⟨_, written.symm⟩ ?_
  rw [length_bytes]
  exact short

/-- A front of something written, unless it is empty, starts with a byte that names the width. -/
theorem width?_of_prefix {v : Vint} (fits : v.Fits) {first : UInt8} {rest : List UInt8}
    (front : first :: rest <+: v.bytes) : width? first = some v.width := by
  obtain ⟨first', tail, written, named⟩ := width?_head fits
  rw [written, List.cons_prefix_cons] at front
  rw [front.1, named]

/-- Every byte string is empty, starts with a zero byte, is cut short inside an integer, or starts
with one. -/
theorem front_cases (bytes : List UInt8) :
    bytes = [] ∨ (∃ rest, bytes = 0 :: rest) ∨
      (∃ v : Vint, v.Fits ∧ bytes ≠ [] ∧ bytes.length < v.width ∧ bytes <+: v.bytes) ∨
      ∃ (v : Vint) (rest : List UInt8), v.Fits ∧ bytes = v.bytes ++ rest := by
  cases bytes with
  | nil => exact .inl rfl
  | cons first rest =>
    cases named : width? first with
    | none => exact .inr (.inl ⟨rest, by rw [width?_eq_none_iff.mp named]⟩)
    | some width =>
      by_cases short : rest.length + 1 < width
      · have few : rest.length + 1 ≤ width := by omega
        obtain ⟨v, fits, same, front⟩ := exists_bytes_of_width? named few
        exact .inr (.inr (.inl ⟨v, fits, by simp, by rw [same]; exact short, front⟩))
      · have complete := show read (first :: rest) = .complete ⟨_, width⟩ by
          rw [read, named]; exact if_neg short
        obtain ⟨fits, written⟩ := bytes_of_read complete
        exact .inr (.inr (.inr ⟨_, _, fits, written⟩))

end Vint

/-! ### The fields of a header -/

/-- An id is the value with its marker bit. -/
theorem ElementId.toNat_ofVint {v : Vint} (fits : v.Fits) :
    (ElementId.ofVint v).toNat = v.value.toNat + 2 ^ (7 * v.width) := by
  obtain ⟨-, le, lt⟩ := fits
  have small : 2 ^ (7 * v.width) ≤ 2 ^ 56 := Nat.pow_le_pow_right (by decide) (by omega)
  rw [ElementId.ofVint, UInt64.toNat_add, Vint.toNat_one_shiftLeft (by omega)]
  omega

/-- A size is unknown if all value bits are set, and otherwise the value. -/
theorem Size.ofVint_eq {v : Vint} (fits : v.Fits) :
    Size.ofVint v =
      if v.value.toNat = 2 ^ (7 * v.width) - 1 then .unknown else .known v.value.toNat := by
  have mask := Vint.toNat_one_shiftLeft_sub_one (k := 7 * v.width)
    (by have := fits.width_le; omega)
  have same : v.value = 1 <<< UInt64.ofNat (7 * v.width) - 1 ↔
      v.value.toNat = 2 ^ (7 * v.width) - 1 := by
    rw [← UInt64.toNat_inj, mask]
  unfold Size.ofVint
  simp only [same]

theorem ElementId.read_bytes_append {v : Vint} (fits : v.Fits) (rest : List UInt8) :
    ElementId.read (v.bytes ++ rest) = .complete (ElementId.ofVint v, v.width) := by
  rw [ElementId.read, Vint.read_bytes_append fits, Front.map]

theorem Size.read_bytes_append {v : Vint} (fits : v.Fits) (rest : List UInt8) :
    Size.read (v.bytes ++ rest) = .complete (Size.ofVint v, v.width) := by
  rw [Size.read, Vint.read_bytes_append fits, Front.map]

namespace Size

/-- The number of bytes that a size declares; none, if it is unknown. -/
def length : Size → Nat
  | .known length => length
  | .unknown => 0

/-- The integer that a size is written as in `width` bytes: an unknown one sets all value bits. -/
def toVint (width : Nat) : Size → Vint
  | .known length => ⟨UInt64.ofNat length, width⟩
  | .unknown => ⟨UInt64.ofNat (2 ^ (7 * width) - 1), width⟩

/-- The size can be written in `width` bytes, and is not mistaken for an unknown one. -/
def Fits (width : Nat) (size : Size) : Prop :=
  0 < width ∧ width ≤ 8 ∧
    match size with
    | .known length => length < 2 ^ (7 * width) - 1
    | .unknown => True

instance (width : Nat) (size : Size) : Decidable (size.Fits width) :=
  match size with
  | .known length => inferInstanceAs (Decidable (_ ∧ _ ∧ length < 2 ^ (7 * width) - 1))
  | .unknown => inferInstanceAs (Decidable (_ ∧ _ ∧ True))

@[simp] theorem width_toVint (width : Nat) (size : Size) : (size.toVint width).width = width := by
  cases size <;> rfl

/-- A size is read back from what it is written as. -/
theorem ofVint_toVint {width : Nat} {size : Size} (fits : size.Fits width) :
    (size.toVint width).Fits ∧ ofVint (size.toVint width) = size := by
  obtain ⟨pos, le, fits⟩ := fits
  have room : 0 < 2 ^ (7 * width) := Nat.pow_pos (by decide)
  have held {n : Nat} (small : n < 2 ^ (7 * width)) : (UInt64.ofNat n).toNat = n := by
    have word : 2 ^ (7 * width) ≤ 2 ^ 64 := Nat.pow_le_pow_right (by decide) (by omega)
    rw [UInt64.toNat_ofNat', Nat.mod_eq_of_lt (by omega)]
  cases size with
  | known length =>
    have fits : length < 2 ^ (7 * width) - 1 := fits
    have value : (toVint width (.known length)).value.toNat = length := held (by omega)
    have written : (toVint width (.known length)).Fits :=
      ⟨pos, le, by rw [value, width_toVint]; omega⟩
    refine ⟨written, ?_⟩
    rw [ofVint_eq written, value, width_toVint, if_neg (by omega)]
  | unknown =>
    have value : (toVint width .unknown).value.toNat = 2 ^ (7 * width) - 1 := held (by omega)
    have written : (toVint width .unknown).Fits := ⟨pos, le, by rw [value, width_toVint]; omega⟩
    refine ⟨written, ?_⟩
    rw [ofVint_eq written, value, width_toVint, if_pos rfl]

end Size

end TagStream
