import Mathlib.Algebra.BigOperators.Intervals
import Mathlib.Tactic.Ring

/-! # Ordered forests, listed parent first

A forest is its first tree (a label and the forest of that tree's children) and the forest of the
trees after it. Listed parent first, node after node, it is determined by how many children each
node has, and the parent of a node is found by scanning back from it: with every node passed counted
as its number of children less one, the parent is the first one at which the count is not negative
(`excess_parent`). The reason is that a finished tree counts for -1 and what is behind any point
inside it for less than nothing (`excess_suffix`).
-/

inductive Forest (α : Type) where
  | nil
  | tree (label : α) (children siblings : Forest α)
deriving Repr, DecidableEq

namespace Forest
set_option autoImplicit false
variable {α : Type}

def size : Forest α → ℕ
  | nil => 0
  | tree _ c s => 1 + c.size + s.size

def width : Forest α → ℕ
  | nil => 0
  | tree _ _ s => 1 + s.width

def labels : Forest α → List α
  | nil => []
  | tree a c s => a :: (c.labels ++ s.labels)

/-- The index of every node's parent, where the nodes take the indices from `k` on, parent first,
and `p` is the parent of the trees. -/
def parents : Forest α → (p k : ℕ) → List ℕ
  | nil, _, _ => []
  | tree _ c s, p, k => p :: (c.parents k (k + 1) ++ s.parents p (k + 1 + c.size))

/-- Every node, at the index it has, with the index of its parent and its own tree, satisfies `R`. -/
def Every (R : (p k : ℕ) → α → Forest α → Prop) : Forest α → (p k : ℕ) → Prop
  | nil, _, _ => True
  | tree a c s, p, k => R p k a c ∧ Every R c k (k + 1) ∧ Every R s p (k + 1 + c.size)

instance decidableEvery (R : (p k : ℕ) → α → Forest α → Prop) [∀ p k a c, Decidable (R p k a c)] :
    ∀ (f : Forest α) (p k : ℕ), Decidable (f.Every R p k)
  | nil, _, _ => .isTrue trivial
  | tree a c s, p, k =>
    have := decidableEvery R c k (k + 1)
    have := decidableEvery R s p (k + 1 + c.size)
    inferInstanceAs (Decidable (R p k a c ∧ _ ∧ _))

@[simp] theorem labels_length (f : Forest α) : f.labels.length = f.size := by
  induction f with
  | nil => rfl
  | tree a c s ihc ihs => simp [labels, size, ihc, ihs]; omega

@[simp] theorem parents_length (f : Forest α) (p k : ℕ) : (f.parents p k).length = f.size := by
  induction f generalizing p k with
  | nil => rfl
  | tree a c s ihc ihs => simp [parents, size, ihc, ihs]; omega

/-- The indices of a tree are its own, those of its children and those after it. -/
theorem range_tree (a : α) (c s : Forest α) (k : ℕ) : List.range' k (tree a c s).size =
    k :: (List.range' (k + 1) c.size ++ List.range' (k + 1 + c.size) s.size) := by
  have hlen : (tree a c s).size = (c.size + s.size) + 1 := by
    simp only [size]
    omega
  rw [hlen, List.range'_succ, List.range'_append_1]

theorem eq_tree_of_width {f : Forest α} (h : f.width = 1) : ∃ a c, f = tree a c nil := by
  cases f with
  | nil => simp [width] at h
  | tree a c s =>
    cases s with
    | nil => exact ⟨a, c, rfl⟩
    | tree _ _ _ => simp [width] at h

section Every
variable {R S : (p k : ℕ) → α → Forest α → Prop}

theorem Every.mono {f : Forest α} : ∀ {p k : ℕ}, f.Every R p k →
    (∀ p k a c, R p k a c → S p k a c) → f.Every S p k := by
  induction f with
  | nil =>
    intro p k hf _
    exact hf
  | tree a c s ihc ihs =>
    intro p k hf h
    exact ⟨h p k a c hf.1, ihc hf.2.1 h, ihs hf.2.2 h⟩

theorem Every.and {f : Forest α} : ∀ {p k : ℕ}, f.Every R p k → f.Every S p k →
    f.Every (fun p k a c => R p k a c ∧ S p k a c) p k := by
  induction f with
  | nil =>
    intro p k _ _
    trivial
  | tree a c s ihc ihs =>
    intro p k hr hs
    exact ⟨⟨hr.1, hs.1⟩, ihc hr.2.1 hs.2.1, ihs hr.2.2 hs.2.2⟩

/-- What only depends on the index holds of all the indices the forest takes. -/
theorem every_index {P : ℕ → Prop} {f : Forest α} : ∀ {p k : ℕ},
    f.Every (fun _ i _ _ => P i) p k ↔ ∀ i, k ≤ i → i < k + f.size → P i := by
  induction f with
  | nil =>
    intro p k
    simp only [Every, size, true_iff]
    intro i hl hh
    omega
  | tree a c s ihc ihs =>
    intro p k
    simp only [Every, ihc, ihs, size]
    constructor
    · rintro ⟨hk, hc, hs⟩ i hl hh
      rcases Nat.lt_or_ge i (k + 1) with h1 | h1
      · obtain rfl : i = k := by omega
        exact hk
      rcases Nat.lt_or_ge i (k + 1 + c.size) with h2 | h2
      · exact hc i h1 h2
      · exact hs i h2 (by omega)
    · intro h
      refine ⟨h k (by omega) (by omega), ?_, ?_⟩
      · intro i hl hh
        exact h i (by omega) (by omega)
      · intro i hl hh
        exact h i (by omega) (by omega)

/-- Parents come before their children, and none before `p`. -/
theorem every_range (f : Forest α) : ∀ {p k : ℕ}, p < k →
    f.Every (fun q i _ _ => p ≤ q ∧ q < i ∧ k ≤ i ∧ i < k + f.size) p k := by
  induction f with
  | nil =>
    intro p k _
    trivial
  | tree a c s ihc ihs =>
    intro p k hpk
    refine ⟨⟨Nat.le_refl p, hpk, Nat.le_refl k, ?_⟩, ?_, ?_⟩
    · simp only [size]
      omega
    · apply (ihc (Nat.lt_succ_self k)).mono
      intro q i _ _ hi
      simp only [size]
      omega
    · apply (ihs (p := p) (k := k + 1 + c.size) (by omega)).mono
      intro q i _ _ hi
      simp only [size]
      omega

/-- A table that gives every node its parent is the list of the parents. -/
theorem map_parents {f : Forest α} (t : ℕ → ℕ) : ∀ {p k : ℕ},
    f.Every (fun q i _ _ => t i = q) p k → (List.range' k f.size).map t = f.parents p k := by
  induction f with
  | nil =>
    intro p k _
    rfl
  | tree a c s ihc ihs =>
    rintro p k ⟨hk, hc, hs⟩
    rw [range_tree, List.map_cons, hk, List.map_append, ihc hc, ihs hs]
    rfl

end Every

section Scan
variable {d : ℕ → ℕ} {f : Forest α} {p k : ℕ}

/-- The nodes at `j` up to `i`, each counted as the number of its children less one. -/
def excess (d : ℕ → ℕ) (j i : ℕ) : ℤ := ∑ x ∈ Finset.Ico j i, ((d x : ℤ) - 1)

@[simp] theorem excess_self (d : ℕ → ℕ) (j : ℕ) : excess d j j = 0 := by
  rw [excess, Finset.Ico_self, Finset.sum_empty]

theorem excess_head {j i : ℕ} (h : j < i) : excess d j i = (d j : ℤ) - 1 + excess d (j + 1) i := by
  rw [excess, Finset.sum_eq_sum_Ico_succ_bot h]
  rfl

theorem excess_add {j m i : ℕ} (h : j ≤ m) (h' : m ≤ i) :
    excess d j i = excess d j m + excess d m i :=
  (Finset.sum_Ico_consecutive _ h h').symm

/-- Node `i` has `d i` children. -/
def Degrees (d : ℕ → ℕ) (f : Forest α) (p k : ℕ) : Prop := f.Every (fun _ i _ c => d i = c.width) p k

/-- A finished tree counts for -1. -/
theorem excess_forest : ∀ {p k : ℕ}, Degrees d f p k → excess d k (k + f.size) = -f.width := by
  induction f with
  | nil =>
    intro p k _
    simp [size, width]
  | tree a c s ihc ihs =>
    rintro p k ⟨hk, hc, hs⟩
    have hcut : k + (tree a c s).size = k + 1 + c.size + s.size := by
      simp only [size]
      omega
    rw [hcut, excess_head (by omega), excess_add (m := k + 1 + c.size) (by omega) (by omega),
      ihc hc, ihs hs, hk]
    simp only [width]
    push_cast
    ring

/-- Behind any point of finished trees the count is negative. -/
theorem excess_suffix : ∀ {p k : ℕ}, Degrees d f p k → ∀ j, k ≤ j → j < k + f.size →
    excess d j (k + f.size) < 0 := by
  induction f with
  | nil =>
    intro p k _ j hl hh
    simp only [size] at hh
    omega
  | tree a c s ihc ihs =>
    rintro p k h j hl hh
    have hcut : k + (tree a c s).size = k + 1 + c.size + s.size := by
      simp only [size]
      omega
    have hwhole := excess_forest h
    obtain ⟨hk, hc, hs⟩ := h
    have hrest := excess_forest hs
    rw [hcut] at hh hwhole ⊢
    rcases Nat.lt_or_ge j (k + 1 + c.size) with hj | hj
    · rcases Nat.eq_or_lt_of_le hl with rfl | hkj
      · rw [hwhole]
        simp only [width]
        omega
      · have := ihc hc j (by omega) hj
        rw [excess_add (m := k + 1 + c.size) (by omega) (by omega), hrest]
        omega
    · exact ihs hs j hj hh

/-- The nodes from `p` up to `k` are a node with `w` more children to come and its finished trees. -/
structure Open (d : ℕ → ℕ) (p k w : ℕ) : Prop where
  before : p < k
  toCome : excess d p k = w - 1
  finished : ∀ j, p < j → j < k → excess d j k < 0

theorem Open.first (hd : d p = f.width) : Open d p (p + 1) f.width := by
  refine ⟨by omega, ?_, ?_⟩
  · rw [excess_head (by omega), excess_self, hd]
    ring
  · intro j hl hh
    omega

theorem Open.next {w : ℕ} (ho : Open d p k (f.width + w)) (hf : Degrees d f p k) :
    Open d p (k + f.size) w := by
  have hlt := ho.before
  refine ⟨by omega, ?_, ?_⟩
  · rw [excess_add (m := k) (by omega) (by omega), ho.toCome, excess_forest hf]
    push_cast
    ring
  · intro j hl hh
    rcases Nat.lt_or_ge j k with hj | hj
    · have hneg := ho.finished j hl hj
      have hwhole := excess_forest hf
      rw [excess_add (m := k) (by omega) (by omega), hwhole]
      omega
    · exact excess_suffix hf j hj hh

/-- Back from a node, its parent is the first one at which the count is not negative. -/
theorem excess_parent : ∀ {p k : ℕ}, Degrees d f p k → Open d p k f.width →
    f.Every (fun q i _ _ => q < i ∧ 0 ≤ excess d q i ∧ ∀ j, q < j → j < i → excess d j i < 0) p k := by
  induction f with
  | nil =>
    intro p k _ _
    trivial
  | tree a c s ihc ihs =>
    rintro p k ⟨hk, hc, hs⟩ ho
    refine ⟨⟨ho.before, ?_, ho.finished⟩, ihc hc (Open.first hk), ihs hs ?_⟩
    · rw [ho.toCome]
      simp only [width]
      omega
    · have hone : Degrees d (tree a c nil) p k := ⟨hk, hc, trivial⟩
      have := Open.next (w := s.width) (f := tree a c nil) (by simpa [width] using ho) hone
      simpa [size, Nat.add_assoc] using this

end Scan
end Forest
