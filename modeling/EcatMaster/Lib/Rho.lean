import Mathlib.Data.List.Nodup
import Mathlib.Dynamics.PeriodicPts.Defs

/-! # Counters that enter a cycle

The iterates of `f` from `a` pass through a tail of length `t` once and then repeat a cycle of length
`p`. If no value occurs twice in tail and cycle, any `p` consecutive iterates are pairwise different,
wherever they start.
-/

namespace Rho
set_option autoImplicit false
open Function

universe u
variable {α : Type u} {f : α → α} {a : α} {t p : ℕ}

/-- The iterates enter a cycle of length `p` after `t` steps, and tail and cycle repeat no value. -/
structure Enters (f : α → α) (a : α) (t p : ℕ) : Prop where
  pos : 0 < p
  cycle : f^[t + p] a = f^[t] a
  nodup : ((List.range (t + p)).map fun k => f^[k] a).Nodup

theorem Enters.iterate_mod (h : Enters f a t p) (u : ℕ) : f^[t + u] a = f^[t + u % p] a := by
  have hperiodic : IsPeriodicPt f p (f^[t] a) := by
    show f^[p] (f^[t] a) = f^[t] a
    rw [← iterate_add_apply, Nat.add_comm, h.cycle]
  rw [Nat.add_comm, iterate_add_apply, Nat.add_comm, iterate_add_apply]
  exact (hperiodic.iterate_mod_apply u).symm

theorem Enters.injective (h : Enters f a t p) {i j : ℕ} (hi : i < t + p) (hj : j < t + p)
    (heq : f^[i] a = f^[j] a) : i = j := by
  have hmem (k : ℕ) (hk : k < t + p) : k ∈ List.range (t + p) := List.mem_range.mpr hk
  exact List.inj_on_of_nodup_map h.nodup (hmem i hi) (hmem j hj) heq

/-- Every iterate is one of the tail and the first turn of the cycle. -/
theorem Enters.exists_lt (h : Enters f a t p) (k : ℕ) : ∃ j < t + p, f^[k] a = f^[j] a := by
  by_cases hk : k < t
  · exact ⟨k, by omega, rfl⟩
  · have hmod := Nat.mod_lt (k - t) h.pos
    refine ⟨t + (k - t) % p, by omega, ?_⟩
    rw [← h.iterate_mod, Nat.add_sub_cancel' (not_lt.mp hk)]

/-- **Two iterates less than a turn apart are different.** -/
theorem Enters.ne (h : Enters f a t p) {i j : ℕ} (hij : i < j) (hjp : j < i + p) :
    f^[i] a ≠ f^[j] a := by
  intro heq
  by_cases hj : j < t + p
  · exact absurd (h.injective (by omega) hj heq) (by omega)
  · have hi : t ≤ i := by omega
    rw [← Nat.add_sub_cancel' hi, ← Nat.add_sub_cancel' (hi.trans hij.le), h.iterate_mod (i - t),
      h.iterate_mod (j - t)] at heq
    have hmi := Nat.mod_lt (i - t) h.pos
    have hmj := Nat.mod_lt (j - t) h.pos
    have hmod : (i - t) % p = (j - t) % p := by
      have hsame := h.injective (by omega) (by omega) heq
      omega
    have hdvd : p ∣ (j - t) - (i - t) :=
      Nat.dvd_of_mod_eq_zero (Nat.sub_mod_eq_zero_of_mod_eq hmod.symm)
    have hle := Nat.le_of_dvd (by omega) hdvd
    omega

/-- Any `p` consecutive iterates are pairwise different. -/
theorem Enters.nodup_window (h : Enters f a t p) (m k : ℕ) :
    ((((List.range m).map fun j => f^[j] a).drop k).take p).Nodup := by
  rw [List.nodup_iff_pairwise_ne, List.pairwise_iff_getElem]
  intro i j hi hj hij
  have hlen : j < p := by
    rw [List.length_take] at hj
    omega
  simp only [List.getElem_take, List.getElem_drop, List.getElem_map, List.getElem_range]
  exact h.ne (by omega) (by omega)

end Rho
