import Mathlib.Data.Finset.Card
import Mathlib.Order.Interval.Finset.Nat

/-! # Slots that are handed out in turn

`n` slots in a ring are handed out in turn: the search begins after the slot that was handed out last, and
takes the first one that is free. As long as fewer than `k` slots are held when one is handed out, a slot
comes back only after at least `n - k` others (`Turns.reuse`).
-/

namespace RoundRobin
set_option autoImplicit false

def next (n idx : ℕ) : ℕ := if n ≤ idx + 1 then 0 else idx + 1

/-- The search from `idx` on, which passes at most `cnt` slots that are not free. -/
def search (n : ℕ) (free : ℕ → Bool) : (cnt idx : ℕ) → ℕ
  | 0, idx => idx
  | cnt + 1, idx => if free idx then idx else search n free cnt (next n idx)

/-- How many slots ago the search has passed `j`. -/
def ago (n last j : ℕ) : ℕ := if j ≤ last then last - j else last + n - j

section Search
variable {n last j : ℕ} {free : ℕ → Bool}

theorem ago_lt (hlast : last < n) (hj : j < n) : ago n last j < n := by
  unfold ago
  split <;> omega

theorem ago_inj {i : ℕ} (hi : i < n) (hj : j < n) (h : ago n last i = ago n last j) :
    i = j := by
  unfold ago at h
  split at h <;> split at h <;> omega

theorem ago_next (hlast : last < n) (hj : j < n) (hpos : 0 < ago n last j) :
    next n j < n ∧ ago n last (next n j) + 1 = ago n last j := by
  unfold ago at *
  by_cases hle : j ≤ last
  · rw [if_pos hle] at hpos ⊢
    have hnext : next n j = j + 1 := if_neg (by omega)
    rw [hnext, if_pos (by omega)]
    omega
  · rw [if_neg hle] at hpos ⊢
    by_cases hwrap : n ≤ j + 1
    · have hnext : next n j = 0 := if_pos hwrap
      rw [hnext, if_pos (Nat.zero_le last)]
      omega
    · have hnext : next n j = j + 1 := if_neg hwrap
      rw [hnext, if_neg (by omega)]
      omega

theorem next_lt {idx : ℕ} (hidx : idx < n) : next n idx < n := by
  unfold next
  split <;> omega

theorem search_lt {cnt idx : ℕ} (hidx : idx < n) : search n free cnt idx < n := by
  induction cnt generalizing idx with
  | zero => exact hidx
  | succ cnt ih =>
    unfold search
    split
    · exact hidx
    · exact ih (next_lt hidx)

/-- The search goes on from the slot that was passed longest ago. -/
theorem search_spec {cnt idx : ℕ} (hlast : last < n) (hidx : idx < n) (hcnt : ago n last idx + 1 = cnt)
    (hfree : ∃ j < n, free j = true ∧ ago n last j ≤ ago n last idx) :
    search n free cnt idx < n ∧ free (search n free cnt idx) = true ∧
      ∀ j < n, ago n last (search n free cnt idx) < ago n last j → ago n last j ≤ ago n last idx →
        free j = false := by
  induction cnt generalizing idx with
  | zero => omega
  | succ cnt ih =>
    unfold search
    split
    · next h => exact ⟨hidx, h, fun j _ hlt hle => absurd hlt (Nat.not_lt.mpr hle)⟩
    · next h =>
      obtain ⟨k, hk, hkfree, hkago⟩ := hfree
      have hne : ago n last k ≠ ago n last idx := by
        intro heq
        rw [ago_inj hk hidx heq] at hkfree
        exact h hkfree
      have hnext := ago_next hlast hidx (by omega)
      obtain ⟨hlt, hfound, hpassed⟩ := ih hnext.1 (by omega) ⟨k, hk, hkfree, by omega⟩
      refine ⟨hlt, hfound, fun j hj hago hle => ?_⟩
      by_cases hthis : ago n last j = ago n last idx
      · rw [ago_inj hj hidx hthis]
        exact Bool.eq_false_iff.mpr h
      · exact hpassed j hj hago (by omega)

end Search

/-! ## Turns -/

/-- `stamp` says when a slot was last handed out, with `time` for the last of all and `0` for never; `seen i`
are the slots that were held when `i` was. Whatever the search has passed since then was handed out
after `i`, or was held then. -/
structure Turns (n k last time : ℕ) (stamp : ℕ → ℕ) (held : ℕ → Prop) (seen : ℕ → Finset ℕ) : Prop where
  last_lt : last < n
  stamp_le : ∀ j, stamp j ≤ time
  stamp_inj : ∀ i < n, ∀ j < n, stamp i = stamp j → 0 < stamp i → i = j
  card : ∀ i, (seen i).card < k
  held_seen : ∀ i j, 0 < stamp i → j < n → held j → j = i ∨ stamp i < stamp j ∨ j ∈ seen i
  passed : ∀ i < n, ∀ j < n, 0 < stamp i → ago n last j < ago n last i → stamp i < stamp j ∨ j ∈ seen i

section Turns
variable {n k last time new : ℕ} {stamp : ℕ → ℕ} {held held' : ℕ → Prop} {seen : ℕ → Finset ℕ}

theorem Turns.release (h : Turns n k last time stamp held seen) (hheld : ∀ j, held' j → held j) :
    Turns n k last time stamp held' seen :=
  { h with held_seen := fun i j hi hj hj' => h.held_seen i j hi hj (hheld j hj') }

/-- The search has passed only slots that are held. -/
structure Found (n last new : ℕ) (held : ℕ → Prop) : Prop where
  lt : new < n
  free : ¬ held new
  passed : ∀ j < n, ago n last new < ago n last j → held j

/-- A search from the next slot on, with as many slots as there are. -/
theorem search_found {free : ℕ → Bool} (hlast : last < n) (hheld : ∀ j < n, free j = true ↔ ¬ held j)
    (hfree : ∃ j < n, ¬ held j) : Found n last (search n free n (next n last)) held := by
  have hnext : next n last < n ∧ ago n last (next n last) + 1 = n := by
    by_cases hwrap : n ≤ last + 1
    · have hzero : next n last = 0 := if_pos hwrap
      rw [hzero, ago, if_pos (Nat.zero_le last)]
      omega
    · have hsucc : next n last = last + 1 := if_neg hwrap
      rw [hsucc, ago, if_neg (by omega)]
      omega
  have hago : ∀ j < n, ago n last j ≤ ago n last (next n last) := by
    intro j hj
    have := ago_lt hlast hj
    omega
  obtain ⟨j, hj, hj'⟩ := hfree
  obtain ⟨hlt, hfound, hpassed⟩ :=
    search_spec hlast hnext.1 hnext.2 ⟨j, hj, (hheld j hj).mpr hj', hago j hj⟩
  refine ⟨hlt, (hheld _ hlt).mp hfound, fun i hi hi' => ?_⟩
  have hbusy := hpassed i hi hi' (hago i hi)
  exact Classical.not_not.mp fun hnot => Bool.false_ne_true (hbusy.symm.trans ((hheld i hi).mpr hnot))

/-- A slot comes back after `n - k` others. -/
theorem Turns.reuse (h : Turns n k last time stamp held seen) (hnew : Found n last new held)
    (hpos : 0 < stamp new) : stamp new + n ≤ time + k := by
  have hothers : ∀ j < n, j ≠ new → stamp new < stamp j ∨ j ∈ seen new := by
    intro j hj hne
    rcases Nat.lt_or_ge (ago n last new) (ago n last j) with hago | hago
    · exact (h.held_seen new j hpos hj (hnew.passed j hj hago)).resolve_left hne
    · refine h.passed new hnew.lt j hj hpos (Nat.lt_of_le_of_ne hago fun heq => ?_)
      exact hne (ago_inj hj hnew.lt heq)
  have hcover : (Finset.range n).erase new ⊆
      (Finset.range n).filter (fun j => stamp new < stamp j) ∪ seen new := by
    intro j hj
    obtain ⟨hne, hmem⟩ := Finset.mem_erase.mp hj
    have hlt := Finset.mem_range.mp hmem
    rcases hothers j hlt hne with hlater | hseen
    · exact Finset.mem_union_left _ (Finset.mem_filter.mpr ⟨hmem, hlater⟩)
    · exact Finset.mem_union_right _ hseen
  have hlater : ((Finset.range n).filter fun j => stamp new < stamp j).card ≤ time - stamp new := by
    rw [← Nat.card_Ioc]
    refine Finset.card_le_card_of_injOn stamp (fun j hj => ?_) (fun i hi j hj heq => ?_)
    · exact Finset.mem_Ioc.mpr ⟨(Finset.mem_filter.mp hj).2, h.stamp_le j⟩
    · obtain ⟨hi, hlt⟩ := Finset.mem_filter.mp hi
      have hj := (Finset.mem_filter.mp hj).1
      exact h.stamp_inj i (Finset.mem_range.mp hi) j (Finset.mem_range.mp hj) heq (by omega)
  have hcard := (Finset.card_le_card hcover).trans (Finset.card_union_le _ _)
  rw [Finset.card_erase_of_mem (Finset.mem_range.mpr hnew.lt), Finset.card_range] at hcard
  have hseen := h.card new
  have hle := h.stamp_le new
  omega

theorem ago_new (hlast : last < n) (hnew : new < n) {j : ℕ} (hj : j < n) :
    ago n new j = if ago n last new ≤ ago n last j then ago n last j - ago n last new
      else ago n last j + n - ago n last new := by
  unfold ago
  by_cases hj' : j ≤ last <;> by_cases hn : new ≤ last <;> by_cases hjn : j ≤ new
  all_goals
    simp only [hj', hn, hjn, if_true, if_false]
    split <;> omega

/-- A slot is handed out, while those in `others` are held. -/
theorem Turns.take (h : Turns n k last time stamp held seen) (hnew : Found n last new held)
    {others : Finset ℕ} (hothers : ∀ j < n, held j → j ∈ others) (hcard : others.card < k)
    (hheld : ∀ j, held' j → j = new ∨ held j) :
    Turns n k new (time + 1) (Function.update stamp new (time + 1)) held'
      (Function.update seen new others) where
  last_lt := hnew.lt
  stamp_le j := by
    by_cases hj : j = new
    · rw [hj, Function.update_self]
    · rw [Function.update_of_ne hj]
      exact (h.stamp_le j).trans (Nat.le_succ time)
  stamp_inj i hi j hj heq hpos := by
    have hle := h.stamp_le
    by_cases hin : i = new <;> by_cases hjn : j = new
    · exact hin.trans hjn.symm
    · rw [hin, Function.update_self, Function.update_of_ne hjn] at heq
      have := hle j
      omega
    · rw [hjn, Function.update_self, Function.update_of_ne hin] at heq
      have := hle i
      omega
    · rw [Function.update_of_ne hin, Function.update_of_ne hjn] at heq
      rw [Function.update_of_ne hin] at hpos
      exact h.stamp_inj i hi j hj heq hpos
  card i := by
    by_cases hi : i = new
    · rw [hi, Function.update_self]
      exact hcard
    · rw [Function.update_of_ne hi]
      exact h.card i
  held_seen i j hi hj hj' := by
    by_cases hin : i = new
    · rw [hin, Function.update_self, Function.update_self]
      rcases hheld j hj' with rfl | hold
      · exact Or.inl rfl
      · exact Or.inr (Or.inr (hothers j hj hold))
    · rw [Function.update_of_ne hin] at hi ⊢
      rw [Function.update_of_ne hin]
      by_cases hjn : j = new
      · have := h.stamp_le i
        rw [hjn, Function.update_self]
        exact Or.inr (Or.inl (by omega))
      · rw [Function.update_of_ne hjn]
        exact h.held_seen i j hi hj ((hheld j hj').resolve_left hjn)
  passed i hi j hj hpos hago := by
    rw [ago_new h.last_lt hnew.lt hi, ago_new h.last_lt hnew.lt hj] at hago
    by_cases hin : i = new
    · rw [hin] at hago
      split at hago <;> split at hago <;> omega
    · rw [Function.update_of_ne hin] at hpos ⊢
      rw [Function.update_of_ne hin]
      by_cases hjn : j = new
      · have := h.stamp_le i
        rw [hjn, Function.update_self]
        exact Or.inl (by omega)
      · rw [Function.update_of_ne hjn]
        have hlast := ago_lt h.last_lt hj
        by_cases hnow : ago n last new < ago n last j ∧ ago n last i ≤ ago n last new
        · have hne : j ≠ i := by
            rintro rfl
            omega
          exact (h.held_seen i j hpos hj (hnew.passed j hj hnow.1)).resolve_left hne
        · refine h.passed i hi j hj hpos ?_
          have hapart : ago n last new ≠ ago n last j := fun heq => hjn (ago_inj hj hnew.lt heq.symm)
          split at hago <;> split at hago <;> omega

end Turns
end RoundRobin
