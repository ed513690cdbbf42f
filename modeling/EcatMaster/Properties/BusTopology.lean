import EcatMaster.Soem.Topology

/-! # The parents the enumeration finds

The enumeration sees the bus only as a row of slaves, each with the number of its links. Every slave
but the first has one link towards the master and one to each slave that hangs from it, so the row
is the bus listed parent first, and the search for the parent is the general scan of `Forest`.
-/

namespace EcatMaster.Soem
set_option autoImplicit false

section Bus
variable {α : Type} {f : Forest α} {status : ℕ → DlStatus}

/-- Every slave has a link to the slave it hangs from and to each slave that hangs from it. -/
def Linked (status : ℕ → DlStatus) (f : Forest α) : Prop :=
  f.Every (fun _ i _ c => (links (status i).dlstat).1 = 1 + c.width) 0 1

instance (status : ℕ → DlStatus) (f : Forest α) : Decidable (Linked status f) :=
  Forest.decidableEvery _ f 0 1

theorem Linked.degrees (h : Linked status f) :
    Forest.Degrees (fun i => (links (status i).dlstat).1 - 1) f 0 1 := by
  apply h.mono
  intro p k a c hk
  simp only [hk]
  omega

theorem Linked.pos (h : Linked status f) {i : ℕ} (hpos : 0 < i) (hle : i ≤ f.size) :
    1 ≤ (links (status i).dlstat).1 := by
  have hall : f.Every (fun _ i _ _ => 1 ≤ (links (status i).dlstat).1) 0 1 := by
    apply h.mono
    intro p k a c hk
    omega
  exact Forest.every_index.mp hall i hpos (by omega)

/-- A slave below the first finds the slave it hangs from. -/
theorem search_below {a : α} {c : Forest α} (h : Linked status (Forest.tree a c .nil)) :
    c.Every (fun p i _ _ => 1 < i ∧ i ≤ 1 + c.size ∧
      searchParent (fun j => (links (status j).dlstat).1) (i - 1) 0 = p) 1 2 := by
  have hdeg := h.degrees
  have hscan := Forest.excess_parent hdeg.2.1 (Forest.Open.first hdeg.1)
  have hrange := Forest.every_range c (Nat.lt_succ_self 1)
  apply (hscan.and hrange).mono
  rintro p i _ _ ⟨⟨hlt, hstop, hpass⟩, hp, -, -, hi⟩
  refine ⟨by omega, by omega, ?_⟩
  have := searchParent_eq (by omega) (t := fun j => (links (status j).dlstat).1) ?_ hstop hpass i hlt
    (Nat.le_refl i)
  · simpa using this
  · intro j hpj hji
    have hone := h.pos (i := j) (by omega) (by simp only [Forest.size]; omega)
    have hfour := links_le (status j).dlstat
    omega

/-- On every bus the enumeration finds each slave's parent. -/
theorem parents_found (hone : f.width = 1) (h : Linked status f) :
    (List.range' 1 f.size).map (fun i => (configSlaves status f.size i).parent) = f.parents 0 1 := by
  obtain ⟨a, c, rfl⟩ := Forest.eq_tree_of_width hone
  have hsize : (Forest.tree a c .nil).size = 1 + c.size := rfl
  apply Forest.map_parents
  rw [hsize]
  refine ⟨?_, (search_below h).mono ?_, trivial⟩
  · simp only [configSlaves_eq (Nat.zero_lt_one) (Nat.le_add_right 1 c.size)]
    rfl
  · rintro p i _ _ ⟨hone, hle, hp⟩
    rw [configSlaves_eq (by omega) hle]
    exact (if_pos hone).trans hp

/-- A split point with a chain of two and a slave: the fourth slave hangs from the first. -/
theorem parents_found_split : (List.range' 1 4).map (fun i => (configSlaves (fun i =>
    ⟨true, [0x0000, 0x8a00, 0x0a00, 0x0200, 0x0200].getD i 0⟩) 4 i).parent) = [0, 1, 2, 1] :=
  parents_found (f := .tree () (.tree () (.tree () .nil .nil) (.tree () .nil .nil)) .nil) rfl
    (by decide)

end Bus
end EcatMaster.Soem
