import Mathlib.Algebra.Order.Floor.Ring
import Mathlib.Algebra.Order.Field.Basic
import Mathlib.Tactic.Linarith

/-! # Codes of a truncated linear map

A range `[lo, hi]` is mapped linearly onto the codes `0 .. n` and the fraction is dropped. The map is
monotone, it stays within the codes on the range, and outside it the code is that of a clamped map as
long as it has not left `0 .. n` yet. A code stands for the point of the range it comes from: the map
undoes that exactly, and a point of the range is less than one step above the point of its code.
-/

namespace Quantize
set_option autoImplicit false

variable {K : Type*} [Field K] [LinearOrder K] [FloorRing K]
variable {n : ℕ} {lo hi x y : K}

/-- Rounding towards zero. -/
def trunc (q : K) : ℤ := if 0 ≤ q then ⌊q⌋ else ⌈q⌉

theorem trunc_of_nonneg {q : K} (h : 0 ≤ q) : trunc q = ⌊q⌋ := if_pos h

/-- The code of `x`, not clamped. -/
def level (n : ℕ) (lo hi x : K) : ℤ := trunc ((x - lo) * n / (hi - lo))

/-- The code of a map that saturates at both ends. -/
def clamped (n : ℕ) (lo hi x : K) : ℕ := (max 0 (min (level n lo hi x) n)).toNat

theorem clamped_of_mem (h0 : 0 ≤ level n lo hi x) (hn : level n lo hi x ≤ n) :
    (clamped n lo hi x : ℤ) = level n lo hi x := by
  unfold clamped
  rw [min_eq_left hn, max_eq_right h0, Int.toNat_of_nonneg h0]

variable [IsStrictOrderedRing K]

theorem trunc_of_nonpos {q : K} (h : q ≤ 0) : trunc q = ⌈q⌉ := by
  unfold trunc
  split
  · next h0 =>
    obtain rfl := le_antisymm h h0
    simp
  · rfl

theorem trunc_mono {a b : K} (hab : a ≤ b) : trunc a ≤ trunc b := by
  by_cases ha : 0 ≤ a
  · rw [trunc_of_nonneg ha, trunc_of_nonneg (ha.trans hab)]
    exact Int.floor_mono hab
  · rw [trunc_of_nonpos (not_le.mp ha).le]
    by_cases hb : 0 ≤ b
    · rw [trunc_of_nonneg hb]
      exact (Int.ceil_le.mpr (by exact_mod_cast (not_le.mp ha).le)).trans (Int.floor_nonneg.mpr hb)
    · rw [trunc_of_nonpos (not_le.mp hb).le]
      exact Int.ceil_mono hab

theorem level_mono (h : lo < hi) (hxy : x ≤ y) : level n lo hi x ≤ level n lo hi y := by
  have hspan : 0 ≤ hi - lo := (sub_pos.mpr h).le
  have hn : (0 : K) ≤ n := Nat.cast_nonneg n
  exact trunc_mono (div_le_div_of_nonneg_right
    (mul_le_mul_of_nonneg_right (sub_le_sub_right hxy lo) hn) hspan)

theorem level_lo : level n lo hi lo = 0 := by
  simp [level, trunc]

theorem level_hi (h : lo < hi) : level n lo hi hi = n := by
  have hspan : hi - lo ≠ 0 := (sub_pos.mpr h).ne'
  unfold level
  rw [mul_div_assoc, mul_div_cancel₀ _ hspan, trunc_of_nonneg (Nat.cast_nonneg n), Int.floor_natCast]

theorem level_le_zero (h : lo < hi) (hx : x ≤ lo) : level n lo hi x ≤ 0 := by
  have hmono := level_mono (n := n) h hx
  rw [level_lo] at hmono
  exact hmono

theorem le_level (h : lo < hi) (hx : hi ≤ x) : n ≤ level n lo hi x := by
  have hmono := level_mono (n := n) h hx
  rw [level_hi h] at hmono
  exact hmono

theorem level_nonneg (h : lo < hi) (hx : lo ≤ x) : 0 ≤ level n lo hi x := by
  have hmono := level_mono (n := n) h hx
  rw [level_lo] at hmono
  exact hmono

theorem level_le (h : lo < hi) (hx : x ≤ hi) : level n lo hi x ≤ n := by
  have hmono := level_mono (n := n) h hx
  rw [level_hi h] at hmono
  exact hmono

theorem clamped_mono (h : lo < hi) (hxy : x ≤ y) : clamped n lo hi x ≤ clamped n lo hi y :=
  Int.toNat_le_toNat (max_le_max_left 0 (min_le_min_right _ (level_mono h hxy)))

theorem clamped_below (h : lo < hi) (hx : x ≤ lo) : clamped n lo hi x = 0 := by
  unfold clamped
  rw [max_eq_left ((min_le_left _ _).trans (level_le_zero h hx)), Int.toNat_zero]

theorem clamped_above (h : lo < hi) (hx : hi ≤ x) : clamped n lo hi x = n := by
  unfold clamped
  rw [min_eq_right (le_level h hx), max_eq_right (Int.natCast_nonneg n), Int.toNat_natCast]

/-! ## Back from the codes -/

/-- The point a code stands for. -/
def value (n : ℕ) (lo hi : K) (c : ℤ) : K := c * (hi - lo) / n + lo

omit [FloorRing K] [LinearOrder K] [IsStrictOrderedRing K] in
theorem value_zero : value n lo hi 0 = lo := by
  simp [value]

omit [FloorRing K] in
theorem value_top (hn : 0 < n) : value n lo hi n = hi := by
  have hn' : (n : K) ≠ 0 := Nat.cast_ne_zero.mpr hn.ne'
  unfold value
  rw [Int.cast_natCast, mul_div_cancel_left₀ _ hn', sub_add_cancel]

omit [FloorRing K] in
theorem value_lt (hn : 0 < n) (h : lo < hi) {c c' : ℤ} (hc : c < c') :
    value n lo hi c < value n lo hi c' := by
  have hspan : 0 < hi - lo := sub_pos.mpr h
  have hn' : (0 : K) < n := Nat.cast_pos.mpr hn
  have hcast : (c : K) < c' := Int.cast_lt.mpr hc
  exact add_lt_add_left (div_lt_div_of_pos_right (mul_lt_mul_of_pos_right hcast hspan) hn') lo

omit [FloorRing K] in
theorem value_mono (hn : 0 < n) (h : lo < hi) {c c' : ℤ} (hc : c ≤ c') :
    value n lo hi c ≤ value n lo hi c' := by
  obtain hlt | rfl := Int.lt_or_eq_of_le hc
  · exact (value_lt hn h hlt).le
  · exact le_rfl

omit [FloorRing K] in
theorem value_mem (hn : 0 < n) (h : lo < hi) {c : ℤ} (h0 : 0 ≤ c) (hc : c ≤ n) :
    lo ≤ value n lo hi c ∧ value n lo hi c ≤ hi := by
  constructor
  · calc lo = value n lo hi 0 := value_zero.symm
      _ ≤ value n lo hi c := value_mono hn h h0
  · calc value n lo hi c ≤ value n lo hi n := value_mono hn h hc
      _ = hi := value_top hn

theorem trunc_intCast (c : ℤ) : trunc (c : K) = c := by
  unfold trunc
  rw [Int.floor_intCast, Int.ceil_intCast, ite_self]

/-- The code of the point of a code is that code. -/
theorem level_value (hn : 0 < n) (h : lo < hi) (c : ℤ) : level n lo hi (value n lo hi c) = c := by
  have hspan : hi - lo ≠ 0 := (sub_pos.mpr h).ne'
  have hn' : (n : K) ≠ 0 := Nat.cast_ne_zero.mpr hn.ne'
  have hback : (value n lo hi c - lo) * n / (hi - lo) = c := by
    rw [value, add_sub_cancel_right, div_mul_cancel₀ _ hn', mul_div_cancel_right₀ _ hspan]
  rw [level, hback, trunc_intCast]

/-- A point is less than one step above the point of its code. -/
theorem value_level (hn : 0 < n) (h : lo < hi) (hx : lo ≤ x) :
    value n lo hi (level n lo hi x) ≤ x ∧ x < value n lo hi (level n lo hi x) + (hi - lo) / n := by
  have hspan : 0 < hi - lo := sub_pos.mpr h
  have hn' : (0 : K) < n := Nat.cast_pos.mpr hn
  have hstep : 0 < (hi - lo) / n := div_pos hspan hn'
  let q : K := (x - lo) * n / (hi - lo)
  have hq : 0 ≤ q := div_nonneg (mul_nonneg (sub_nonneg.mpr hx) hn'.le) hspan.le
  have hxq : x = q * ((hi - lo) / n) + lo := by
    show x = (x - lo) * n / (hi - lo) * ((hi - lo) / n) + lo
    rw [div_mul_div_cancel₀ hspan.ne', mul_div_cancel_right₀ _ hn'.ne', sub_add_cancel]
  have hlevel : value n lo hi (level n lo hi x) = (⌊q⌋ : K) * ((hi - lo) / n) + lo := by
    rw [value, level, trunc_of_nonneg hq, mul_div_assoc]
  have hfloor : (⌊q⌋ : K) * ((hi - lo) / n) ≤ q * ((hi - lo) / n) :=
    mul_le_mul_of_nonneg_right (Int.floor_le q) hstep.le
  have hceil : q * ((hi - lo) / n) < (⌊q⌋ + 1) * ((hi - lo) / n) :=
    mul_lt_mul_of_pos_right (Int.lt_floor_add_one q) hstep
  rw [hlevel]
  constructor
  · linarith only [hxq, hfloor]
  · linarith only [hxq, hceil]

theorem abs_value_sub_lt (hn : 0 < n) (h : lo < hi) (hx : lo ≤ x) :
    |value n lo hi (level n lo hi x) - x| < (hi - lo) / n := by
  have hstep : 0 < (hi - lo) / n := div_pos (sub_pos.mpr h) (Nat.cast_pos.mpr hn)
  obtain ⟨hle, hlt⟩ := value_level hn h hx
  rw [abs_sub_lt_iff]
  constructor
  · exact (sub_nonpos.mpr hle).trans_lt hstep
  · exact sub_lt_iff_lt_add'.mpr hlt

end Quantize
