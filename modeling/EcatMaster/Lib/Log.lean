import Mathlib.Data.Fin.Tuple.Basic
import Mathlib.Order.Fin.Basic

/-! # What a growing log has recorded

A log is a list that entries are appended to. `Recorded P log m` says that it holds, in this order,
entries of which the first satisfies `P 0`, the second `P 1`, up to `P (m - 1)`, with any others in
between. A longer log has recorded at least as much, and a last entry may be the next one.
-/

namespace EventLog
set_option autoImplicit false

universe u
variable {α : Type u} {P : ℕ → α → Prop} {log : List α} {m : ℕ}

/-- The log holds entries that satisfy `P 0`, .., `P (m - 1)` at increasing positions. -/
def Recorded (P : ℕ → α → Prop) (log : List α) (m : ℕ) : Prop :=
  ∃ t : Fin m → ℕ, StrictMono t ∧ ∀ k, ∃ c, log[t k]? = some c ∧ P k c

theorem recorded_zero : Recorded P log 0 :=
  ⟨Fin.elim0, fun a => a.elim0, fun k => k.elim0⟩

theorem lt_length {j : ℕ} {c : α} (h : log[j]? = some c) : j < log.length := by
  obtain ⟨hj, -⟩ := List.getElem?_eq_some_iff.mp h
  exact hj

theorem Recorded.append (h : Recorded P log m) (more : List α) : Recorded P (log ++ more) m := by
  obtain ⟨t, hmono, hall⟩ := h
  refine ⟨t, hmono, fun k => ?_⟩
  obtain ⟨c, hc, hP⟩ := hall k
  exact ⟨c, by rw [List.getElem?_append_left (lt_length hc), hc], hP⟩

/-- The entry appended last is the next one. -/
theorem Recorded.next (h : Recorded P log m) {c : α} (hc : P m c) :
    Recorded P (log ++ [c]) (m + 1) := by
  obtain ⟨t, hmono, hall⟩ := h
  have hlt (k : Fin m) : t k < log.length := by
    obtain ⟨e, he, -⟩ := hall k
    exact lt_length he
  refine ⟨Fin.snoc (α := fun _ => ℕ) t log.length, ?_, fun k => ?_⟩
  · intro a b hab
    induction b using Fin.lastCases with
    | last =>
      induction a using Fin.lastCases with
      | last => exact absurd hab (lt_irrefl _)
      | cast a =>
        rw [Fin.snoc_castSucc, Fin.snoc_last]
        exact hlt a
    | cast b =>
      induction a using Fin.lastCases with
      | last => exact absurd hab (not_lt.mpr (Fin.le_last _))
      | cast a =>
        rw [Fin.snoc_castSucc, Fin.snoc_castSucc]
        exact hmono (Fin.castSucc_lt_castSucc_iff.mp hab)
  · induction k using Fin.lastCases with
    | last =>
      rw [Fin.snoc_last, List.getElem?_concat_length]
      exact ⟨c, rfl, hc⟩
    | cast k =>
      obtain ⟨e, he, hP⟩ := hall k
      rw [Fin.snoc_castSucc, List.getElem?_append_left (hlt k)]
      exact ⟨e, he, hP⟩

end EventLog
