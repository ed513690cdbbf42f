import Mathlib.Data.List.Basic

/-! # Clients of one shared state

Clients `k : ι` act on one state `σ`, and each call yields an observation. `observe` are the
observations of one client in a sequence of calls of all of them. A client whose calls yield the same
observation from every state is isolated: its observations depend on its own calls only
(`observe_of_overwriting`); otherwise a foreign call just before one of them shows
(`observe_interject`).
-/

namespace Clients
set_option autoImplicit false

universe u v w x
variable {ι : Type u} {κ : Type v} {σ : Type w} {ο : Type x}

def after (act : ι → κ → σ → σ × ο) (s : σ) (calls : List (ι × κ)) : σ :=
  calls.foldl (fun s ic => (act ic.1 ic.2 s).1) s

theorem after_cons {act : ι → κ → σ → σ × ο} (s : σ) (i : ι) (c : κ) (calls : List (ι × κ)) :
    after act s ((i, c) :: calls) = after act (act i c s).1 calls := rfl

variable [DecidableEq ι]

def own (k : ι) : List (ι × κ) → List κ
  | [] => []
  | (i, c) :: calls => if i = k then c :: own k calls else own k calls

/-- What client `k` observes. -/
def observe (act : ι → κ → σ → σ × ο) (k : ι) : σ → List (ι × κ) → List ο
  | _, [] => []
  | s, (i, c) :: calls =>
      if i = k then (act i c s).2 :: observe act k (act i c s).1 calls
      else observe act k (act i c s).1 calls

section Rules
variable {act : ι → κ → σ → σ × ο} {k : ι}

theorem own_cons (i : ι) (c : κ) (calls : List (ι × κ)) :
    own k ((i, c) :: calls) = if i = k then c :: own k calls else own k calls := rfl

theorem observe_cons (s : σ) (i : ι) (c : κ) (calls : List (ι × κ)) :
    observe act k s ((i, c) :: calls) =
      if i = k then (act i c s).2 :: observe act k (act i c s).1 calls
      else observe act k (act i c s).1 calls := rfl

theorem own_append (calls calls' : List (ι × κ)) :
    own k (calls ++ calls') = own k calls ++ own k calls' := by
  induction calls with
  | nil => rfl
  | cons ic calls ih =>
    rw [List.cons_append, own_cons, own_cons, ih]
    split <;> rfl

theorem own_map_self (cs : List κ) : own k (cs.map fun c => (k, c)) = cs := by
  induction cs with
  | nil => rfl
  | cons c cs ih => rw [List.map_cons, own_cons, if_pos rfl, ih]

theorem observe_append (s : σ) (calls calls' : List (ι × κ)) :
    observe act k s (calls ++ calls') =
      observe act k s calls ++ observe act k (after act s calls) calls' := by
  induction calls generalizing s with
  | nil => rfl
  | cons ic calls ih =>
    rw [List.cons_append, observe_cons, observe_cons, after_cons, ih]
    split <;> rfl

theorem observe_length (s : σ) (calls : List (ι × κ)) :
    (observe act k s calls).length = (own k calls).length := by
  induction calls generalizing s with
  | nil => rfl
  | cons ic calls ih =>
    rw [observe_cons, own_cons]
    split
    · rw [List.length_cons, List.length_cons, ih]
    · exact ih _

/-- **Isolation.** Calls that yield the same from every state are all that their client observes. -/
theorem observe_of_overwriting (f : κ → ο) {calls : List (ι × κ)}
    (h : ∀ c ∈ own k calls, ∀ s, (act k c s).2 = f c) (s : σ) :
    observe act k s calls = (own k calls).map f := by
  induction calls generalizing s with
  | nil => rfl
  | cons ic calls ih =>
    obtain ⟨i, c⟩ := ic
    rw [own_cons] at h
    rw [observe_cons, own_cons]
    by_cases hi : i = k
    · subst hi
      rw [if_pos rfl] at h
      have hrest := ih (fun c' hc' => h c' (List.mem_cons_of_mem _ hc')) (act i c s).1
      rw [if_pos rfl, if_pos rfl, List.map_cons, h c List.mem_cons_self s, hrest]
    · rw [if_neg hi] at h
      rw [if_neg hi, if_neg hi]
      exact ih h _

/-- The calls of `k` alone, but for one foreign call before the call `c`. -/
def interject (k i : ι) (pre : List κ) (x c : κ) (post : List κ) : List (ι × κ) :=
  pre.map (fun c => (k, c)) ++ (i, x) :: (c :: post).map fun c => (k, c)

theorem own_interject {i : ι} (hi : i ≠ k) (pre : List κ) (x c : κ) (post : List κ) :
    own k (interject k i pre x c post) = pre ++ c :: post := by
  unfold interject
  rw [own_append, own_map_self, own_cons, if_neg hi, own_map_self]

theorem observe_interject {i : ι} (hi : i ≠ k) (s : σ) (pre : List κ) (x c : κ) (post : List κ) :
    (observe act k s (interject k i pre x c post))[pre.length]? =
      some (act k c (act i x (after act s (pre.map fun c => (k, c)))).1).2 := by
  have hlen : (observe act k s (pre.map fun c => (k, c))).length = pre.length := by
    rw [observe_length, own_map_self]
  unfold interject
  rw [observe_append, List.getElem?_append_right (Nat.le_of_eq hlen), hlen, Nat.sub_self, observe_cons,
    if_neg hi, List.map_cons, observe_cons, if_pos rfl]
  rfl

end Rules
end Clients
