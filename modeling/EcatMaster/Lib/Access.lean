import EcatMaster.Lib.Bytes

/-! # The cells an access of a buffer uses

A function of a buffer uses a cell that its value depends on; a writer writes a cell that it can change.
What depends on a range only uses cells of the range, and one `put` writes exactly its range.
-/

namespace ByteBuf
set_option autoImplicit false

universe u
variable {α β : Type u}

/-- The value of `f` depends on cell `i`. -/
def Uses (f : List α → β) (i : ℕ) : Prop := ∃ buf b, f (buf.set i b) ≠ f buf

/-- `w` can change cell `i`. -/
def Writes (w : List α → List α) (i : ℕ) : Prop := ∃ buf, (w buf)[i]? ≠ buf[i]?

theorem Uses.inside {f : List α → β} {off len i : ℕ}
    (hf : ∀ buf buf' : List α, (∀ j, off ≤ j → j < off + len → buf[j]? = buf'[j]?) → f buf = f buf')
    (h : Uses f i) : off ≤ i ∧ i < off + len := by
  obtain ⟨buf, b, hne⟩ := h
  by_contra hout
  refine hne (hf _ _ fun j hlo hhi => List.getElem?_set_ne fun hij => ?_)
  subst hij
  exact hout ⟨hlo, hhi⟩

theorem writes_put [Nontrivial α] {off i : ℕ} {bytes : List α} :
    Writes (fun buf => put buf off bytes) i ↔ off ≤ i ∧ i < off + bytes.length := by
  constructor
  · rintro ⟨buf, hne⟩
    by_contra hout
    exact hne (put_getElem?_outside buf off bytes i (by omega))
  · rintro ⟨hlo, hhi⟩
    have hlt : i - off < bytes.length := by omega
    obtain ⟨b, hb⟩ := exists_ne bytes[i - off]
    refine ⟨List.replicate (i + 1) b, fun heq => hb ?_⟩
    rw [put_getElem?, if_pos ⟨hlo, hhi, by rw [List.length_replicate]; omega⟩,
      List.getElem?_eq_getElem hlt, List.getElem?_replicate_of_lt (by omega)] at heq
    exact (Option.some.inj heq).symm

/-- A range is below `n` when it is empty or ends there. -/
theorem forall_range_lt {off len n : ℕ} :
    (∀ i, off ≤ i ∧ i < off + len → i < n) ↔ len = 0 ∨ off + len ≤ n := by
  constructor
  · intro h
    by_cases h0 : len = 0
    · exact .inl h0
    · have hlast := h (off + len - 1) (by omega)
      exact .inr (by omega)
  · rintro (h0 | hle) i hi <;> omega

end ByteBuf
