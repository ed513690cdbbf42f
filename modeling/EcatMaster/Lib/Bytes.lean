import Mathlib.Data.List.Basic
import Mathlib.Tactic.Linarith

/-! # Byte buffers written at offsets

`put buf off bytes` overwrites `bytes.length` cells of `buf` from `off` on; a cell past the end of
the buffer is not part of it and nothing is written there. Two writes to disjoint ranges commute,
a write leaves every cell outside its range as it was, and inside it the buffer reads back what was
written. `Growable` is a vector of bytes seen from outside: the memory behind `data()` and `size()`,
which `clear` and `resize` move separately.
-/

namespace ByteBuf
set_option autoImplicit false

universe u
variable {α : Type u}

/-- Overwrite `bytes.length` cells of `buf` from position `off` on. -/
def put : List α → ℕ → List α → List α
  | buf, _, [] => buf
  | buf, off, b :: bs => put (buf.set off b) (off + 1) bs

@[simp] theorem put_nil (buf : List α) (off : ℕ) : put buf off [] = buf := rfl

theorem put_cons (buf : List α) (off : ℕ) (b : α) (bs : List α) :
    put buf off (b :: bs) = put (buf.set off b) (off + 1) bs := rfl

@[simp] theorem put_length (buf : List α) (off : ℕ) (bytes : List α) :
    (put buf off bytes).length = buf.length := by
  induction bytes generalizing buf off with
  | nil => rfl
  | cons b bs ih => rw [put_cons, ih, List.length_set]

theorem put_append (buf : List α) (off : ℕ) (as bs : List α) :
    put buf off (as ++ bs) = put (put buf off as) (off + as.length) bs := by
  induction as generalizing buf off with
  | nil => rfl
  | cons a as ih =>
    rw [List.cons_append, put_cons, put_cons, ih, List.length_cons, Nat.add_right_comm,
      Nat.add_assoc]

theorem put_getElem? (buf : List α) (off : ℕ) (bytes : List α) (j : ℕ) :
    (put buf off bytes)[j]? =
      if off ≤ j ∧ j < off + bytes.length ∧ j < buf.length then bytes[j - off]? else buf[j]? := by
  induction bytes generalizing buf off with
  | nil => simp only [put_nil, List.length_nil]; rw [if_neg (by omega)]
  | cons b bs ih =>
    rw [put_cons, ih, List.length_set, List.length_cons]
    by_cases hj : off ≤ j ∧ j < off + (bs.length + 1) ∧ j < buf.length
    · rw [if_pos hj]
      by_cases he : j = off
      · subst he
        rw [if_neg (by omega), Nat.sub_self, List.getElem?_set_self hj.2.2]
        rfl
      · rw [if_pos (by omega), show j - off = (j - (off + 1)) + 1 by omega, List.getElem?_cons_succ]
    · rw [if_neg hj, if_neg (by omega)]
      by_cases he : off = j
      · subst he
        rw [List.getElem?_eq_none (by rw [List.length_set]; omega), List.getElem?_eq_none (by omega)]
      · rw [List.getElem?_set_ne he]

theorem put_getElem?_outside (buf : List α) (off : ℕ) (bytes : List α) (j : ℕ)
    (hj : j < off ∨ off + bytes.length ≤ j) : (put buf off bytes)[j]? = buf[j]? := by
  rw [put_getElem?, if_neg (by omega)]

theorem put_getElem?_inside (buf : List α) (off : ℕ) (bytes : List α) (j : ℕ)
    (hj : j < bytes.length) (hfit : off + j < buf.length) :
    (put buf off bytes)[off + j]? = bytes[j]? := by
  rw [put_getElem?, if_pos (by omega), Nat.add_sub_cancel_left]

theorem put_full (buf bytes : List α) (h : bytes.length = buf.length) : put buf 0 bytes = bytes := by
  apply List.ext_getElem?
  intro j
  rw [put_getElem?]
  by_cases hj : j < bytes.length
  · rw [if_pos (by omega), Nat.sub_zero]
  · rw [if_neg (by omega), List.getElem?_eq_none (by omega), List.getElem?_eq_none (by omega)]

theorem mem_put {buf : List α} {off : ℕ} {bytes : List α} {c : α} (h : c ∈ put buf off bytes) :
    c ∈ buf ∨ c ∈ bytes := by
  induction bytes generalizing buf off with
  | nil => exact Or.inl h
  | cons b bs ih =>
    rw [put_cons] at h
    obtain hbuf | hbs := ih h
    · obtain hc | hc := List.mem_or_eq_of_mem_set hbuf
      · exact Or.inl hc
      · exact Or.inr (hc ▸ List.mem_cons_self)
    · exact Or.inr (List.mem_cons_of_mem b hbs)

theorem put_map {β : Type u} (f : α → β) (buf : List α) (off : ℕ) (bytes : List α) :
    (put buf off bytes).map f = put (buf.map f) off (bytes.map f) := by
  induction bytes generalizing buf off with
  | nil => rfl
  | cons b bs ih => rw [put_cons, ih, List.map_set, List.map_cons, put_cons]

/-- The `len` cells of `buf` from `off` on. -/
def window (buf : List α) (off len : ℕ) : List α := (buf.drop off).take len

theorem window_getElem? (buf : List α) (off len j : ℕ) :
    (window buf off len)[j]? = if j < len then buf[off + j]? else none := by
  rw [window, List.getElem?_take]
  split
  · rw [List.getElem?_drop]
  · rfl

theorem window_congr (buf buf' : List α) (off len : ℕ)
    (h : ∀ j, off ≤ j → j < off + len → buf[j]? = buf'[j]?) :
    window buf off len = window buf' off len := by
  apply List.ext_getElem?
  intro j
  rw [window_getElem?, window_getElem?]
  split
  · exact h (off + j) (by omega) (by omega)
  · rfl

theorem window_put_disjoint (buf : List α) (off : ℕ) (bytes : List α) (o len : ℕ)
    (h : o + len ≤ off ∨ off + bytes.length ≤ o) :
    window (put buf off bytes) o len = window buf o len :=
  window_congr _ _ _ _ fun j h1 h2 => put_getElem?_outside buf off bytes j (by omega)

theorem window_put_self (buf : List α) (off : ℕ) (bytes : List α)
    (h : off + bytes.length ≤ buf.length) :
    window (put buf off bytes) off bytes.length = bytes := by
  apply List.ext_getElem?
  intro j
  rw [window_getElem?]
  split
  · next hj => exact put_getElem?_inside buf off bytes j hj (by omega)
  · next hj => rw [List.getElem?_eq_none (by omega)]

/-! ## Several writers -/

section Writers
variable {ι : Type u} {β : Type} [DecidableEq ι] (off : ι → ℕ) (bytes : ι → List β)

/-- What a write leaves at a cell depends on that cell only. -/
theorem put_getElem?_congr {buf buf' : List β} {i : ℕ} (h : buf[i]? = buf'[i]?) (o : ℕ)
    (bs : List β) : (put buf o bs)[i]? = (put buf' o bs)[i]? := by
  have hlt : i < buf.length ↔ i < buf'.length := by
    rw [← not_iff_not, Nat.not_lt, Nat.not_lt, ← List.getElem?_eq_none_iff,
      ← List.getElem?_eq_none_iff, h]
  rw [put_getElem?, put_getElem?, h]
  simp only [hlt]

theorem put_getElem?_twice (buf : List β) (o : ℕ) (bs : List β) (i : ℕ) :
    (put (put buf o bs) o bs)[i]? = (put buf o bs)[i]? := by
  rw [put_getElem?, put_length]
  split
  · next h => rw [put_getElem?, if_pos h]
  · rfl

/-- A cell that at most one of the writers covers holds what that writer leaves there. -/
theorem foldl_put_getElem? {a : ι} {i : ℕ} (ws : List ι) (buf : List β)
    (h : ∀ w ∈ ws, w ≠ a → i < off w ∨ off w + (bytes w).length ≤ i) :
    (ws.foldl (fun buf w => put buf (off w) (bytes w)) buf)[i]? =
      if a ∈ ws then (put buf (off a) (bytes a))[i]? else buf[i]? := by
  induction ws generalizing buf with
  | nil => simp
  | cons w ws ih =>
    rw [List.foldl_cons, ih _ fun v hv => h v (List.mem_cons_of_mem w hv)]
    by_cases hw : w = a
    · subst hw
      rw [put_getElem?_twice, ite_self, if_pos List.mem_cons_self]
    · have hout := put_getElem?_outside buf (off w) (bytes w) i (h w List.mem_cons_self hw)
      have hmem : a ∈ w :: ws ↔ a ∈ ws := by
        rw [List.mem_cons]
        exact or_iff_right (Ne.symm hw)
      simp only [hmem]
      rw [put_getElem?_congr hout, hout]

end Writers

/-! ## Vectors whose size and memory move separately -/

/-- A vector: the memory behind `data()` and the number of elements `size()` reports. -/
structure Growable (α : Type u) where
  data : List α
  size : ℕ
deriving DecidableEq, Repr

namespace Growable

def empty : Growable α := ⟨[], 0⟩

/-- `clear()`: no element is left, the memory stays. -/
def clear (v : Growable α) : Growable α := { v with size := 0 }

/-- `resize(n)`: new elements hold `zero`; memory past the new elements stays. -/
def resize (zero : α) (v : Growable α) (n : ℕ) : Growable α where
  data := if n ≤ v.size then v.data
    else v.data.take v.size ++ List.replicate (n - v.size) zero ++ v.data.drop n
  size := n

@[simp] theorem clear_size (v : Growable α) : v.clear.size = 0 := rfl
@[simp] theorem clear_data (v : Growable α) : v.clear.data = v.data := rfl

theorem resize_clear_data (zero : α) (v : Growable α) (n : ℕ) (h : v.data.length ≤ n) :
    (v.clear.resize zero n).data = List.replicate n zero := by
  unfold resize
  rw [clear_size, clear_data]
  by_cases hn : n ≤ 0
  · have hv : v.data = [] := List.eq_nil_of_length_eq_zero (by omega)
    rw [if_pos hn, hv, show n = 0 by omega]
    rfl
  · rw [if_neg hn, List.drop_eq_nil_of_le h]
    simp

end Growable
end ByteBuf
