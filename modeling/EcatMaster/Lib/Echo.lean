import Mathlib.Data.Nat.Notation
import Mathlib.Logic.Function.Basic
import Mathlib.Data.Option.Basic

/-! # A store that is filled over a link with echoes

A peer stores values by index and echoes what it stores. Its echoes come back in order, each any time
later, and stay visible until the next one; a restart empties the store, but the echoes of before it
stay on the link. Against a fixed list of arguments, an echo of this session vouches for the store
(`Vouched`) as long as the peer sees no frame that overwrites an argument it has right (`Spares`).
-/

namespace EchoLink
set_option autoImplicit false

universe u v
variable {ι : Type u} {ν : Type v}

structure Echo (ι : Type u) (ν : Type v) where
  index : ι
  value : ν
  ofSession : Bool
deriving DecidableEq

/-- The peer's store, the contents of its echo area from the visible one on, and the echo last read. -/
structure Link (ι : Type u) (ν : Type v) where
  store : ι → Option ν
  areas : List (Echo ι ν)
  held : Echo ι ν

def Echo.stale (e : Echo ι ν) : Echo ι ν := { e with ofSession := false }

namespace Link

def restart (L : Link ι ν) : Link ι ν := ⟨fun _ => none, L.areas.map Echo.stale, L.held.stale⟩

/-- The peer stores a value and echoes it. -/
def see [DecidableEq ι] (L : Link ι ν) (i : ι) (v : ν) : Link ι ν :=
  { L with store := Function.update L.store i (some v), areas := L.areas ++ [⟨i, v, true⟩] }

/-- The peer puts something else into its echo area. -/
def feedback (L : Link ι ν) (i : ι) (v : ν) : Link ι ν :=
  { L with areas := L.areas ++ [⟨i, v, false⟩] }

/-- The echo after the next `skip` ones is visible, and is read. -/
def read (L : Link ι ν) (skip : ℕ) : Option (Link ι ν) :=
  match L.areas.drop skip with
  | [] => none
  | e :: rest => some { L with areas := e :: rest, held := e }

end Link

/-- Every echo of this session with the right value is stored. -/
def Vouched (arg : ι → Option ν) (L : Link ι ν) : Prop :=
  ∀ e, e = L.held ∨ e ∈ L.areas → e.ofSession = true → arg e.index = some e.value →
    L.store e.index = some e.value

/-- The arguments at these indices are stored. -/
def Stored (arg : ι → Option ν) (done : ι → Prop) (L : Link ι ν) : Prop :=
  ∀ i w, done i → arg i = some w → L.store i = some w

/-- A frame that does not overwrite an argument that is stored right. -/
def Spares (arg : ι → Option ν) (L : Link ι ν) (i : ι) (v : ν) : Prop :=
  ∀ w ∈ arg i, L.store i = some w → v = w

instance [DecidableEq ν] (arg : ι → Option ν) (L : Link ι ν) (i : ι) (v : ν) :
    Decidable (Spares arg L i v) :=
  Option.decidableForallMem _

section Rules
variable {arg : ι → Option ν} {L : Link ι ν} {i : ι} {v : ν}

theorem vouched_restart (arg : ι → Option ν) (L : Link ι ν) : Vouched arg L.restart := by
  intro e he hsession
  obtain rfl | he := he
  · cases hsession
  · obtain ⟨e, -, rfl⟩ := List.mem_map.mp he
    cases hsession

theorem store_see [DecidableEq ι] (L : Link ι ν) (i j : ι) (v : ν) :
    (L.see i v).store j = if j = i then some v else L.store j := by
  unfold Link.see
  exact Function.update_apply _ _ _ _

theorem store_see_of_spares [DecidableEq ι] (hs : Spares arg L i v) {j : ι} {w : ν}
    (harg : arg j = some w) (h : L.store j = some w) : (L.see i v).store j = some w := by
  rw [store_see]
  split
  · next hij =>
    subst hij
    rw [hs w harg h]
  · exact h

theorem vouched_see [DecidableEq ι] (h : Vouched arg L) (hs : Spares arg L i v) :
    Vouched arg (L.see i v) := by
  intro e he hsession harg
  have hold (he : e = L.held ∨ e ∈ L.areas) : (L.see i v).store e.index = some e.value :=
    store_see_of_spares hs harg (h e he hsession harg)
  obtain he | he := he
  · exact hold (Or.inl he)
  · obtain he | he := List.mem_append.mp he
    · exact hold (Or.inr he)
    · obtain rfl := List.mem_singleton.mp he
      rw [store_see, if_pos rfl]

theorem stored_see [DecidableEq ι] {done : ι → Prop} (h : Stored arg done L)
    (hs : Spares arg L i v) : Stored arg done (L.see i v) :=
  fun j w hj harg => store_see_of_spares hs harg (h j w hj harg)

theorem vouched_feedback (h : Vouched arg L) (i : ι) (v : ν) : Vouched arg (L.feedback i v) := by
  intro e he hsession harg
  obtain he | he := he
  · exact h e (Or.inl he) hsession harg
  · obtain he | he := List.mem_append.mp he
    · exact h e (Or.inr he) hsession harg
    · obtain rfl := List.mem_singleton.mp he
      cases hsession

theorem read_some {M : Link ι ν} {skip : ℕ} (h : L.read skip = some M) :
    M.store = L.store ∧ ∀ e, e = M.held ∨ e ∈ M.areas → e ∈ L.areas := by
  unfold Link.read at h
  split at h
  · cases h
  · next e rest hdrop =>
    cases h
    refine ⟨rfl, fun e' he => ?_⟩
    have hmem : e' ∈ L.areas.drop skip := by
      rw [hdrop]
      obtain rfl | he := he
      · exact List.mem_cons_self
      · exact he
    exact List.mem_of_mem_drop hmem

theorem vouched_read {M : Link ι ν} {skip : ℕ} (h : Vouched arg L) (hr : L.read skip = some M) :
    Vouched arg M := by
  obtain ⟨hstore, hmem⟩ := read_some hr
  intro e he hsession harg
  rw [hstore]
  exact h e (Or.inr (hmem e he)) hsession harg

theorem stored_read {M : Link ι ν} {skip : ℕ} {done : ι → Prop} (h : Stored arg done L)
    (hr : L.read skip = some M) : Stored arg done M := by
  obtain ⟨hstore, -⟩ := read_some hr
  intro j w hj harg
  rw [hstore]
  exact h j w hj harg

/-- An echo of this session that is right adds its index. -/
theorem stored_held {done : ι → Prop} (h : Stored arg done L) (hv : Vouched arg L)
    (hsession : L.held.ofSession = true) (harg : arg L.held.index = some L.held.value) :
    Stored arg (fun j => done j ∨ j = L.held.index) L := by
  intro j w hj hw
  obtain hj | rfl := hj
  · exact h j w hj hw
  · rw [hv L.held (Or.inl rfl) hsession harg, ← hw, harg]

end Rules
end EchoLink
