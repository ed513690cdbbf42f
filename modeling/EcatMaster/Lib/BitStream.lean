import Mathlib.Data.Nat.Bitwise
import Mathlib.Tactic.Linarith

/-! # Bit fields of a little-endian stream

A stream of bytes is read bit by bit, the lowest bit of each byte first, and a field is the number
that so many of its bits spell. Programs cut a field out with shifts of two or three neighbouring
bytes and a mask; the `extract` lemmas say which field such an expression is.
-/

namespace BitStream
set_option autoImplicit false

def bit (b : ℕ → ℕ) (i : ℕ) : Bool := (b (i / 8)).testBit (i % 8)

/-- The `w` bits from `pos` on, as a number. -/
def field (b : ℕ → ℕ) (pos w : ℕ) : ℕ := Nat.ofBits fun j : Fin w => bit b (pos + j)

section Field
variable (b : ℕ → ℕ)

theorem testBit_field (pos w j : ℕ) :
    (field b pos w).testBit j = (decide (j < w) && bit b (pos + j)) := by
  unfold field
  by_cases hj : j < w
  · rw [Nat.testBit_ofBits_lt _ _ hj, decide_eq_true hj, Bool.true_and]
  · rw [Nat.testBit_ofBits_ge _ _ (Nat.le_of_not_lt hj), decide_eq_false hj, Bool.false_and]

theorem field_lt (pos w : ℕ) : field b pos w < 2 ^ w := Nat.ofBits_lt_two_pow _

/-- A field has the value whose bits are at its place. -/
theorem field_eq_iff {pos w v : ℕ} (hv : v < 2 ^ w) :
    field b pos w = v ↔ ∀ j < w, bit b (pos + j) = v.testBit j := by
  constructor
  · rintro rfl j hj
    rw [testBit_field, decide_eq_true hj, Bool.true_and]
  · intro h
    apply Nat.eq_of_testBit_eq
    intro j
    rw [testBit_field]
    by_cases hj : j < w
    · rw [decide_eq_true hj, Bool.true_and, h j hj]
    · have hpow : 2 ^ w ≤ 2 ^ j := Nat.pow_le_pow_right (by decide) (Nat.le_of_not_lt hj)
      rw [decide_eq_false hj, Bool.false_and, Nat.testBit_lt_two_pow (Nat.lt_of_lt_of_le hv hpow)]

/-- The stream carries `v` from `pos` on. -/
def Carries (pos : ℕ) {w : ℕ} (v : BitVec w) : Prop := ∀ j < w, bit b (pos + j) = v.getLsbD j

theorem field_of_carries {b : ℕ → ℕ} {pos w : ℕ} {v : BitVec w} (h : Carries b pos v) :
    field b pos w = v.toNat := by
  rw [field_eq_iff b v.isLt]
  intro j hj
  rw [h j hj, BitVec.testBit_toNat]

theorem bit_byte (q : ℕ) {j : ℕ} (hj : j < 8) : bit b (8 * q + j) = (b q).testBit j := by
  unfold bit
  rw [show (8 * q + j) / 8 = q by omega, show (8 * q + j) % 8 = j by omega]

theorem extract_one {q r w : ℕ} (h : r + w ≤ 8) :
    b q >>> r &&& (2 ^ w - 1) = field b (8 * q + r) w := by
  apply Nat.eq_of_testBit_eq
  intro j
  rw [testBit_field, Nat.testBit_and, Nat.testBit_two_pow_sub_one, Nat.testBit_shiftRight,
    Bool.and_comm]
  by_cases hj : j < w
  · rw [Nat.add_assoc, bit_byte b q (by omega)]
  · rw [decide_eq_false hj, Bool.false_and, Bool.false_and]

end Field

section Extract
variable {b : ℕ → ℕ} (hb : ∀ i, b i < 2 ^ 8)
include hb

theorem testBit_high {q j : ℕ} (hj : 8 ≤ j) : (b q).testBit j = false :=
  Nat.testBit_lt_two_pow (Nat.lt_of_lt_of_le (hb q) (Nat.pow_le_pow_right (by decide) hj))

theorem field_byte (q : ℕ) : field b (8 * q) 8 = b q := by
  rw [field_eq_iff b (hb q)]
  intro j hj
  rw [bit_byte b q hj]

theorem extract_two {q r w : ℕ} (hr : r < 8) (h : r + w ≤ 16) :
    (b q >>> r ||| b (q + 1) <<< (8 - r)) &&& (2 ^ w - 1) = field b (8 * q + r) w := by
  apply Nat.eq_of_testBit_eq
  intro j
  rw [testBit_field, Nat.testBit_and, Nat.testBit_two_pow_sub_one, Nat.testBit_or,
    Nat.testBit_shiftRight, Nat.testBit_shiftLeft, Bool.and_comm]
  by_cases hj : j < w
  · congr 1
    by_cases hlow : r + j < 8
    · rw [Nat.add_assoc, bit_byte b q hlow, decide_eq_false (by omega), Bool.false_and, Bool.or_false]
    · rw [testBit_high hb (by omega), Bool.false_or, decide_eq_true (by omega), Bool.true_and,
        show 8 * q + r + j = 8 * (q + 1) + (j - (8 - r)) by omega, bit_byte b (q + 1) (by omega)]
  · rw [decide_eq_false hj, Bool.false_and, Bool.false_and]

theorem extract_three {q r w : ℕ} (hr : r < 8) (h : r + w ≤ 24) :
    (b q >>> r ||| b (q + 1) <<< (8 - r) ||| b (q + 2) <<< (16 - r)) &&& (2 ^ w - 1) =
      field b (8 * q + r) w := by
  apply Nat.eq_of_testBit_eq
  intro j
  rw [testBit_field, Nat.testBit_and, Nat.testBit_two_pow_sub_one, Nat.testBit_or, Nat.testBit_or,
    Nat.testBit_shiftRight, Nat.testBit_shiftLeft, Nat.testBit_shiftLeft, Bool.and_comm]
  by_cases hj : j < w
  · congr 1
    by_cases hlow : r + j < 8
    · rw [Nat.add_assoc, bit_byte b q hlow, decide_eq_false (by omega), decide_eq_false (by omega),
        Bool.false_and, Bool.or_false, Bool.false_and, Bool.or_false]
    rw [testBit_high hb (by omega), Bool.false_or, decide_eq_true (by omega), Bool.true_and]
    by_cases hmid : r + j < 16
    · rw [decide_eq_false (by omega), Bool.false_and, Bool.or_false,
        show 8 * q + r + j = 8 * (q + 1) + (j - (8 - r)) by omega, bit_byte b (q + 1) (by omega)]
    · rw [testBit_high hb (by omega), Bool.false_or, decide_eq_true (by omega), Bool.true_and,
        show 8 * q + r + j = 8 * (q + 2) + (j - (16 - r)) by omega, bit_byte b (q + 2) (by omega)]
  · rw [decide_eq_false hj, Bool.false_and, Bool.false_and]

/-- Two bytes without a mask. -/
theorem field_word (q : ℕ) : b q ||| b (q + 1) <<< 8 = field b (8 * q) 16 := by
  have hshift : b (q + 1) <<< 8 < 2 ^ 16 := by
    have hlt := hb (q + 1)
    rw [Nat.shiftLeft_eq]
    omega
  have hlow : b q < 2 ^ 16 := Nat.lt_trans (hb q) (by decide)
  have hlt : b q ||| b (q + 1) <<< 8 < 2 ^ 16 := Nat.or_lt_two_pow hlow hshift
  have h : (b q ||| b (q + 1) <<< 8) &&& (2 ^ 16 - 1) = field b (8 * q) 16 :=
    extract_two hb (q := q) (r := 0) (by decide) (by decide)
  rw [← h, Nat.and_two_pow_sub_one_of_lt_two_pow hlt]

theorem byte_eq_of_bits {b' : ℕ → ℕ} (hb' : ∀ i, b' i < 2 ^ 8) {q : ℕ}
    (h : ∀ j < 8, bit b (8 * q + j) = bit b' (8 * q + j)) : b q = b' q := by
  rw [← field_byte hb q, field_eq_iff b (hb' q)]
  intro j hj
  rw [h j hj, bit_byte b' q hj]

end Extract

end BitStream
