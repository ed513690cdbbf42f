import Mathlib.Data.List.Induction
import EcatMaster.Lib.Bytes

/-! # Writers with regions of their own

Several writers share a buffer, each with a region that no other one writes to and that each of its
writes fills. However their writes are interleaved, the buffer ends up as it was, overlaid with the
last write of every writer; the order between different writers plays no part.
-/

namespace ByteBuf
set_option autoImplicit false

universe u
variable {ι : Type u} {α : Type}

def writeAll (off : ι → ℕ) (ws : List (ι × List α)) (buf : List α) : List α :=
  ws.foldl (fun buf w => put buf (off w.1) w.2) buf

theorem writeAll_concat (off : ι → ℕ) (ws : List (ι × List α)) (w : ι × List α) (buf : List α) :
    writeAll off (ws ++ [w]) buf = put (writeAll off ws buf) (off w.1) w.2 := by
  unfold writeAll
  rw [List.foldl_append, List.foldl_cons, List.foldl_nil]

theorem writeAll_length (off : ι → ℕ) (ws : List (ι × List α)) (buf : List α) :
    (writeAll off ws buf).length = buf.length := by
  induction ws using List.reverseRecOn with
  | nil => rfl
  | append_singleton ws w ih => rw [writeAll_concat, put_length, ih]

/-- The buffer with the last write of every writer. -/
def overlay (off : ι → ℕ) (last : ι → Option (List α)) (as : List ι) (buf : List α) : List α :=
  as.foldl (fun buf a => put buf (off a) ((last a).getD [])) buf

theorem overlay_outside {off : ι → ℕ} {last : ι → Option (List α)} {as : List ι} {i : ℕ}
    (h : ∀ a ∈ as, i < off a ∨ off a + ((last a).getD []).length ≤ i) (buf : List α) :
    (overlay off last as buf)[i]? = buf[i]? := by
  induction as generalizing buf with
  | nil => rfl
  | cons a as ih =>
    have htail := ih (fun b hb => h b (List.mem_cons_of_mem a hb))
      (put buf (off a) ((last a).getD []))
    exact htail.trans (put_getElem?_outside _ _ _ _ (h a List.mem_cons_self))

/-- Cell `i` belongs to the region of `a`. -/
def InRegion (off len : ι → ℕ) (a : ι) (i : ℕ) : Prop := off a ≤ i ∧ i < off a + len a

theorem writeAll_outside {off len : ι → ℕ} {ws : List (ι × List α)}
    (hlen : ∀ w ∈ ws, w.2.length = len w.1) (buf : List α) {i : ℕ}
    (hi : ∀ w ∈ ws, ¬ InRegion off len w.1 i) : (writeAll off ws buf)[i]? = buf[i]? := by
  induction ws using List.reverseRecOn with
  | nil => rfl
  | append_singleton ws w ih =>
    have hw := hi w (by simp)
    have hlenW := hlen w (by simp)
    unfold InRegion at hw
    rw [writeAll_concat, put_getElem?_outside _ _ _ _ (by omega)]
    exact ih (fun v hv => hlen v (List.mem_append_left _ hv))
      fun v hv => hi v (List.mem_append_left _ hv)

variable [DecidableEq ι]

def lastWrite (ws : List (ι × List α)) (a : ι) : Option (List α) :=
  ((ws.filter fun w => w.1 = a).getLast?).map Prod.snd

theorem lastWrite_concat (ws : List (ι × List α)) (w : ι × List α) (a : ι) :
    lastWrite (ws ++ [w]) a = if w.1 = a then some w.2 else lastWrite ws a := by
  unfold lastWrite
  rw [List.filter_append, List.filter_singleton]
  by_cases hw : w.1 = a
  · simp [hw]
  · simp [hw]

theorem lastWrite_mem {ws : List (ι × List α)} {a : ι} {bytes : List α}
    (h : lastWrite ws a = some bytes) : (a, bytes) ∈ ws := by
  obtain ⟨w, hw, rfl⟩ := Option.map_eq_some_iff.mp h
  have hmem := List.mem_of_getLast? hw
  rw [List.mem_filter, decide_eq_true_eq] at hmem
  obtain ⟨hmem, rfl⟩ := hmem
  exact hmem

section Disjoint
variable {off len : ι → ℕ} {ws : List (ι × List α)}

/-- A cell that only the region of `a` covers holds what the last write of `a` leaves there. -/
theorem writeAll_getElem? (hlen : ∀ w ∈ ws, w.2.length = len w.1) (buf : List α) {a : ι} {i : ℕ}
    (ha : InRegion off len a i) (hi : ∀ w ∈ ws, w.1 ≠ a → ¬ InRegion off len w.1 i) :
    (writeAll off ws buf)[i]? = (put buf (off a) ((lastWrite ws a).getD []))[i]? := by
  induction ws using List.reverseRecOn with
  | nil => rfl
  | append_singleton ws w ih =>
    have hlenW := hlen w (by simp)
    rw [writeAll_concat, lastWrite_concat]
    by_cases hw : w.1 = a
    · obtain ⟨hlo, hhi⟩ := ha
      rw [if_pos hw, hw, Option.getD_some, put_getElem?, put_getElem?, writeAll_length]
      rw [hw] at hlenW
      by_cases hfit : i < buf.length
      · rw [if_pos ⟨hlo, by omega, hfit⟩, if_pos ⟨hlo, by omega, hfit⟩]
      · have hl := writeAll_length off ws buf
        rw [if_neg (by omega), if_neg (by omega), List.getElem?_eq_none (by omega),
          List.getElem?_eq_none (by omega)]
    · have hout := hi w (by simp) hw
      unfold InRegion at hout
      rw [if_neg hw, put_getElem?_outside _ _ _ _ (by omega)]
      exact ih (fun v hv => hlen v (List.mem_append_left _ hv))
        fun v hv => hi v (List.mem_append_left _ hv)

/-- **Overlay.** Writes that fill disjoint regions leave the last one of each writer. -/
theorem writeAll_eq_overlay {as : List ι} (hmem : ∀ w ∈ ws, w.1 ∈ as)
    (hlen : ∀ w ∈ ws, w.2.length = len w.1)
    (hdis : ∀ a ∈ as, ∀ b ∈ as, a ≠ b → ∀ i, InRegion off len a i → ¬ InRegion off len b i)
    (buf : List α) : writeAll off ws buf = overlay off (lastWrite ws) as buf := by
  have hbytes {b : ι} {i : ℕ} (hb : ¬ InRegion off len b i) :
      i < off b ∨ off b + ((lastWrite ws b).getD []).length ≤ i := by
    unfold InRegion at hb
    cases hlast : lastWrite ws b with
    | none =>
      rw [Option.getD_none, List.length_nil]
      omega
    | some bytes =>
      have hlenB : bytes.length = len b := hlen _ (lastWrite_mem hlast)
      rw [Option.getD_some, hlenB]
      omega
  apply List.ext_getElem?
  intro i
  by_cases hin : ∃ a ∈ as, InRegion off len a i
  · obtain ⟨a, ha, hai⟩ := hin
    rw [writeAll_getElem? hlen buf hai fun w hw hne => hdis a ha w.1 (hmem w hw) hne.symm i hai]
    have hcell := foldl_put_getElem? off (fun b => (lastWrite ws b).getD []) (a := a) as buf
      fun b hb hne => hbytes (hdis a ha b hb hne.symm i hai)
    rw [if_pos ha] at hcell
    exact hcell.symm
  · rw [not_exists] at hin
    have hout (b : ι) (hb : b ∈ as) : ¬ InRegion off len b i := fun hbi => hin b ⟨hb, hbi⟩
    rw [writeAll_outside hlen buf fun w hw => hout w.1 (hmem w hw),
      overlay_outside fun b hb => hbytes (hout b hb)]

/-- Only the order of each writer's own writes counts. -/
theorem writeAll_congr {ws' : List (ι × List α)} {as : List ι} (hmem : ∀ w ∈ ws, w.1 ∈ as)
    (hlen : ∀ w ∈ ws, w.2.length = len w.1)
    (hdis : ∀ a ∈ as, ∀ b ∈ as, a ≠ b → ∀ i, InRegion off len a i → ¬ InRegion off len b i)
    (h : ∀ a, ws'.filter (fun w => w.1 = a) = ws.filter fun w => w.1 = a) (buf : List α) :
    writeAll off ws' buf = writeAll off ws buf := by
  have hsub {w : ι × List α} (hw : w ∈ ws') : w ∈ ws := by
    have hself : w ∈ ws'.filter fun v => v.1 = w.1 :=
      List.mem_filter.mpr ⟨hw, decide_eq_true rfl⟩
    rw [h w.1] at hself
    exact List.mem_of_mem_filter hself
  have hlast : lastWrite ws' = lastWrite ws := by
    funext a
    unfold lastWrite
    rw [h a]
  rw [writeAll_eq_overlay (fun w hw => hmem w (hsub hw)) (fun w hw => hlen w (hsub hw)) hdis,
    writeAll_eq_overlay hmem hlen hdis, hlast]

end Disjoint

end ByteBuf
