import Mathlib.Data.List.Basic

/-! # A store filled by assignments, under joined keys

A store maps keys to values and a list of assignments is made one after the other. A key keeps the
value of its last assignment, so assignments that agree wherever they meet can be read back in any
order. Keys that are joined from pieces stay apart when every piece but the last ends at a separator
it does not contain, as a decimal number does.
-/

namespace Store
set_option autoImplicit false

section Assignments
variable {K V : Type} [DecidableEq K] {m : K → Option V} {ws : List (K × V)} {k : K} {v : V}

def assign (m : K → Option V) (k : K) (v : V) : K → Option V :=
  fun k' => if k' = k then some v else m k'

def assignAll (m : K → Option V) : List (K × V) → K → Option V
  | [] => m
  | w :: ws => assignAll (assign m w.1 w.2) ws

@[simp] theorem assign_self : assign m k v k = some v := if_pos rfl

theorem assign_of_ne {k' : K} (h : k' ≠ k) : assign m k v k' = m k' := if_neg h

theorem assignAll_append (ws us : List (K × V)) :
    assignAll m (ws ++ us) = assignAll (assignAll m ws) us := by
  induction ws generalizing m with
  | nil => rfl
  | cons w ws ih => exact ih

theorem assignAll_of_not_mem (h : ∀ v, (k, v) ∉ ws) : assignAll m ws k = m k := by
  induction ws generalizing m with
  | nil => rfl
  | cons w ws ih =>
    have hne : k ≠ w.1 := by
      rintro rfl
      exact h w.2 List.mem_cons_self
    have htail := ih (m := assign m w.1 w.2) fun v hv => h v (List.mem_cons_of_mem w hv)
    rw [assign_of_ne hne] at htail
    exact htail

theorem assignAll_of_mem (hmem : (k, v) ∈ ws) (hagree : ∀ u, (k, u) ∈ ws → u = v) :
    assignAll m ws k = some v := by
  induction ws generalizing m with
  | nil => cases hmem
  | cons w ws ih =>
    have htail : ∀ u, (k, u) ∈ ws → u = v := fun u hu => hagree u (List.mem_cons_of_mem w hu)
    by_cases hlater : (k, v) ∈ ws
    · exact ih hlater htail
    · have hnone : ∀ u, (k, u) ∉ ws := by
        intro u hu
        rw [htail u hu] at hu
        exact hlater hu
      obtain rfl : w = (k, v) := (List.mem_cons.mp hmem).elim Eq.symm fun h => absurd h hlater
      show assignAll (assign m k v) ws k = some v
      rw [assignAll_of_not_mem hnone, assign_self]

theorem assignAll_eq_some (hm : m k = none)
    (hagree : ∀ u v, (k, u) ∈ ws → (k, v) ∈ ws → u = v) :
    assignAll m ws k = some v ↔ (k, v) ∈ ws := by
  constructor
  · intro h
    by_contra hmem
    by_cases hany : ∃ u, (k, u) ∈ ws
    · obtain ⟨u, hu⟩ := hany
      rw [assignAll_of_mem hu fun u' hu' => hagree u' u hu' hu] at h
      obtain rfl := Option.some.inj h
      exact hmem hu
    · rw [assignAll_of_not_mem fun u hu => hany ⟨u, hu⟩, hm] at h
      cases h
  · intro h
    exact assignAll_of_mem h fun u hu => hagree u v hu h

end Assignments

/-! ## Joined keys -/

section Joined
variable {α : Type} {sep : α} {as bs xs ys : List α}

/-- A piece without the separator ends at the first one. -/
theorem split_at_separator (ha : sep ∉ as) (hb : sep ∉ bs)
    (h : as ++ sep :: xs = bs ++ sep :: ys) : as = bs ∧ xs = ys := by
  induction as generalizing bs with
  | nil =>
    cases bs with
    | nil => exact ⟨rfl, (List.cons.inj h).2⟩
    | cons b bs => exact absurd (by simp [(List.cons.inj h).1]) hb
  | cons a as ih =>
    cases bs with
    | nil => exact absurd (by simp [(List.cons.inj h).1]) ha
    | cons b bs =>
      obtain ⟨rfl, htail⟩ := List.cons.inj h
      obtain ⟨rfl, hrest⟩ := ih (List.not_mem_of_not_mem_cons ha) (List.not_mem_of_not_mem_cons hb) htail
      exact ⟨rfl, hrest⟩

/-- A decimal number has digits only. -/
theorem separator_not_mem_decimal (n : ℕ) {c : Char} (hc : c.isDigit = false) :
    c ∉ (toString n).toList := by
  intro h
  rw [Nat.toString_eq_repr, Nat.toList_repr] at h
  rw [Nat.isDigit_of_mem_toDigits (by decide) (by decide) h] at hc
  cases hc

/-- A decimal number before a separator can be read back. -/
theorem decimal_joined_inj {n n' : ℕ} {x x' : String}
    (h : toString n ++ "_" ++ x = toString n' ++ "_" ++ x') : n = n' ∧ x = x' := by
  have hlist := congrArg String.toList h
  rw [String.toList_append, String.toList_append, String.toList_append, String.toList_append,
    List.append_assoc, List.append_assoc] at hlist
  obtain ⟨hn, hx⟩ := split_at_separator (separator_not_mem_decimal n (by decide : '_'.isDigit = false))
    (separator_not_mem_decimal n' (by decide)) hlist
  refine ⟨?_, String.toList_inj.mp hx⟩
  rw [Nat.toString_eq_repr, Nat.toString_eq_repr, Nat.toList_repr, Nat.toList_repr] at hn
  have hdigits := congrArg (fun digits => Nat.ofDigitChars 10 digits 0) hn
  simp only [Nat.ofDigitChars_ten_toDigits] at hdigits
  exact hdigits

end Joined
end Store
