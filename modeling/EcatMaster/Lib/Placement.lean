import Mathlib.Data.List.Basic
import Mathlib.Data.Nat.Notation

/-! # Areas placed one after the other

Areas of given lengths are placed in a row, each at the next cell or, where it asks for it, at the
next multiple of a unit. Whatever each of them asks for, no two of them overlap (`areas_pairwise`)
and they lie between the cursor they start from and the one they end at (`areas_bounds`).
-/

namespace Placement
set_option autoImplicit false

/-- An area to place: whether it starts at a multiple of the unit, and how many cells it has. -/
structure Item where
  aligned : Bool
  length : ℕ
deriving Repr, DecidableEq

/-- Cells `start` up to `start + length`. -/
structure Area where
  start : ℕ
  length : ℕ
deriving Repr, DecidableEq

def Area.stop (a : Area) : ℕ := a.start + a.length

section Align
variable {unit x y : ℕ}

def alignUp (unit x : ℕ) : ℕ := (x + (unit - 1)) / unit * unit

theorem le_alignUp (hunit : 0 < unit) (x : ℕ) : x ≤ alignUp unit x := by
  have hdiv := Nat.div_add_mod (x + (unit - 1)) unit
  have hmod := Nat.mod_lt (x + (unit - 1)) hunit
  rw [Nat.mul_comm] at hdiv
  unfold alignUp
  omega

end Align

section Place
variable (unit : ℕ)

/-- Where an item goes when the cursor is at `x`. -/
def Item.start (item : Item) (x : ℕ) : ℕ := if item.aligned then alignUp unit x else x

/-- The areas of the items, from cursor `x` on. -/
def areas : List Item → (x : ℕ) → List Area
  | [], _ => []
  | item :: items, x =>
    ⟨item.start unit x, item.length⟩ :: areas items (item.start unit x + item.length)

def finish : List Item → (x : ℕ) → ℕ
  | [], x => x
  | item :: items, x => finish items (item.start unit x + item.length)

variable {unit} {items : List Item} {x : ℕ}

@[simp] theorem areas_length (items : List Item) (x : ℕ) : (areas unit items x).length = items.length := by
  induction items generalizing x with
  | nil => rfl
  | cons item items ih => simp [areas, ih]

theorem Item.le_start (hunit : 0 < unit) (item : Item) (x : ℕ) : x ≤ item.start unit x := by
  unfold Item.start
  split
  · exact le_alignUp hunit x
  · exact Nat.le_refl x

theorem le_finish (hunit : 0 < unit) (items : List Item) (x : ℕ) : x ≤ finish unit items x := by
  induction items generalizing x with
  | nil => exact Nat.le_refl x
  | cons item items ih =>
    have hstart := item.le_start hunit x
    have hrest := ih (item.start unit x + item.length)
    simp only [finish]
    omega

/-- Every area lies between the two cursors. -/
theorem areas_bounds (hunit : 0 < unit) {a : Area} (h : a ∈ areas unit items x) :
    x ≤ a.start ∧ a.stop ≤ finish unit items x := by
  induction items generalizing x with
  | nil => cases h
  | cons item items ih =>
    have hstart := item.le_start hunit x
    rcases List.mem_cons.mp h with rfl | h
    · exact ⟨hstart, le_finish hunit items _⟩
    · have := ih h
      simp only [finish]
      omega

/-- The areas follow each other without overlapping. -/
theorem areas_pairwise (hunit : 0 < unit) (items : List Item) (x : ℕ) :
    (areas unit items x).Pairwise fun a b => a.stop ≤ b.start := by
  induction items generalizing x with
  | nil => exact List.Pairwise.nil
  | cons item items ih =>
    refine List.Pairwise.cons ?_ (ih _)
    intro b hb
    exact (areas_bounds hunit hb).1

end Place
end Placement
