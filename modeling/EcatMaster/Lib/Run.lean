import Mathlib.Logic.Function.Basic
import Mathlib.Data.Nat.Notation
import Mathlib.Data.Option.Basic

/-! # Runs of a partial step function

A system is a partial step function `step : σ → ε → Option σ`; a run is a list of events, and an
event that is not enabled ends it. Safety properties of runs are stated with `Along` (every step of
the run satisfies a predicate of the state before, the event and the state after) and proved with an
invariant of the states (`along_of_invariant`, `along_iff_of_invariant`).

`watch` adds a history variable that is updated next to each step and that no step reads.
-/

namespace EventRun
set_option autoImplicit false

universe u v w
variable {σ : Type u} {ε : Type v} {γ : Type w}

/-- The state after a list of events, if every one of them is enabled. -/
def exec (step : σ → ε → Option σ) : σ → List ε → Option σ
  | s, [] => some s
  | s, e :: es => (step s e).bind fun s' => exec step s' es

/-- Every step of the run of `es` from `s` satisfies `P` (state before, event, state after). -/
def Along (step : σ → ε → Option σ) (P : σ → ε → σ → Prop) : σ → List ε → Prop
  | _, [] => True
  | s, e :: es => ∀ s' ∈ step s e, P s e s' ∧ Along step P s' es

instance decidableAlong (step : σ → ε → Option σ) (P : σ → ε → σ → Prop)
    [∀ s e s', Decidable (P s e s')] : ∀ s es, Decidable (Along step P s es)
  | _, [] => .isTrue trivial
  | s, e :: es =>
    have : DecidablePred fun s' => P s e s' ∧ Along step P s' es := fun s' =>
      have := decidableAlong step P s' es
      inferInstanceAs (Decidable (_ ∧ _))
    Option.decidableForallMem (step s e)

section Rules
variable {step : σ → ε → Option σ} {P Q : σ → ε → σ → Prop}

theorem along_cons {s : σ} {e : ε} {es : List ε} :
    Along step P s (e :: es) ↔ ∀ s', step s e = some s' → P s e s' ∧ Along step P s' es := Iff.rfl

theorem along_imp₂ {R : σ → ε → σ → Prop} (h : ∀ s e s', P s e s' → Q s e s' → R s e s') {s : σ}
    {es : List ε} (hP : Along step P s es) (hQ : Along step Q s es) : Along step R s es := by
  induction es generalizing s with
  | nil => trivial
  | cons e es ih =>
    intro s' hs
    obtain ⟨hp, hP'⟩ := hP s' hs
    obtain ⟨hq, hQ'⟩ := hQ s' hs
    exact ⟨h s e s' hp hq, ih hP' hQ'⟩

/-- **The invariant rule.** `I` holds at the start, and a step from an `I`-state that meets `P`
also meets `Q` and leads to an `I`-state. -/
theorem along_of_invariant (I : σ → Prop)
    (hstep : ∀ s e s', I s → step s e = some s' → P s e s' → Q s e s' ∧ I s')
    {s : σ} {es : List ε} (hI : I s) (h : Along step P s es) : Along step Q s es := by
  induction es generalizing s with
  | nil => trivial
  | cons e es ih =>
    intro s' hs
    obtain ⟨hP, hrest⟩ := h s' hs
    obtain ⟨hQ, hI'⟩ := hstep s e s' hI hs hP
    exact ⟨hQ, ih hI' hrest⟩

/-- An invariant that every step keeps, with no condition on the run. -/
theorem along_of_closed (I : σ → Prop)
    (hstep : ∀ s e s', I s → step s e = some s' → Q s e s' ∧ I s')
    {s : σ} (hI : I s) (es : List ε) : Along step Q s es := by
  induction es generalizing s with
  | nil => trivial
  | cons e es ih =>
    intro s' hs
    obtain ⟨hQ, hI'⟩ := hstep s e s' hI hs
    exact ⟨hQ, ih hI'⟩

/-- Two step predicates that agree on `I`-states, where each step that meets `P` keeps `I`. -/
theorem along_iff_of_invariant (I : σ → Prop)
    (hstep : ∀ s e s', I s → step s e = some s' → (P s e s' ↔ Q s e s') ∧ (P s e s' → I s'))
    {s : σ} (hI : I s) (es : List ε) : Along step P s es ↔ Along step Q s es := by
  induction es generalizing s with
  | nil => exact Iff.rfl
  | cons e es ih =>
    refine forall_congr' fun s' => forall_congr' fun hs => ?_
    obtain ⟨hPQ, hkeep⟩ := hstep s e s' hI hs
    constructor
    · rintro ⟨hP, hrest⟩
      exact ⟨hPQ.mp hP, (ih (hkeep hP)).mp hrest⟩
    · rintro ⟨hQ, hrest⟩
      have hP := hPQ.mpr hQ
      exact ⟨hP, (ih (hkeep hP)).mpr hrest⟩

theorem exec_cons {s t : σ} {e : ε} {es : List ε} :
    exec step s (e :: es) = some t ↔ ∃ m, step s e = some m ∧ exec step m es = some t := by
  simp only [exec, Option.bind_eq_some_iff]

theorem exec_invariant (I : σ → Prop) (hstep : ∀ s e s', I s → step s e = some s' → I s')
    {s t : σ} {es : List ε} (hI : I s) (h : exec step s es = some t) : I t := by
  induction es generalizing s with
  | nil =>
    obtain rfl : s = t := by simpa [exec] using h
    exact hI
  | cons e es ih =>
    obtain ⟨m, hm, hrest⟩ := exec_cons.mp h
    exact ih (hstep s e m hI hm) hrest

theorem exec_append {s t : σ} {es fs : List ε} :
    exec step s (es ++ fs) = some t ↔ ∃ m, exec step s es = some m ∧ exec step m fs = some t := by
  induction es generalizing s with
  | nil => simp [exec]
  | cons e es ih =>
    rw [List.cons_append, exec_cons]
    constructor
    · rintro ⟨m, hm, hrest⟩
      obtain ⟨m', hes, hfs⟩ := ih.mp hrest
      exact ⟨m', exec_cons.mpr ⟨m, hm, hes⟩, hfs⟩
    · rintro ⟨m', hes, hfs⟩
      obtain ⟨m, hm, hrest⟩ := exec_cons.mp hes
      exact ⟨m, hm, ih.mpr ⟨m', hrest, hfs⟩⟩

/-- **The countdown rule.** Until `G` holds every event of the class `p` lowers `μ` and no other
event raises it; a run then has at most `μ` events of the class before `G`. -/
theorem exec_countdown {I G : σ → Prop} {μ : σ → ℕ} {p : ε → Bool}
    (hkeep : ∀ s e s', I s → step s e = some s' → I s')
    (hgoal : ∀ s e s', I s → step s e = some s' → G s → G s')
    (hdown : ∀ s e s', I s → step s e = some s' → ¬ G s →
      G s' ∨ μ s' + (if p e then 1 else 0) ≤ μ s)
    {s t : σ} {es : List ε} (hI : I s) (h : exec step s es = some t) :
    G t ∨ μ t + es.countP p ≤ μ s := by
  induction es generalizing s with
  | nil =>
    obtain rfl : s = t := by simpa [exec] using h
    exact Or.inr (Nat.le_refl _)
  | cons e es ih =>
    obtain ⟨m, hm, hrest⟩ := exec_cons.mp h
    have hmI := hkeep s e m hI hm
    have hstay : G m → G t := fun hg =>
      (exec_invariant (fun s => I s ∧ G s)
        (fun s e s' hs he => ⟨hkeep s e s' hs.1 he, hgoal s e s' hs.1 he hs.2⟩)
        ⟨hmI, hg⟩ hrest).2
    by_cases hs : G s
    · exact Or.inl (hstay (hgoal s e m hI hm hs))
    obtain hg | hμ := hdown s e m hI hm hs
    · exact Or.inl (hstay hg)
    · refine (ih hmI hrest).imp_right fun hcount => ?_
      rw [List.countP_cons]
      omega

end Rules

/-! ## History variables -/

/-- The system with a history variable: `upd` sees the step, the step does not see `γ`. -/
def watch (step : σ → ε → Option σ) (upd : γ → σ → ε → σ → γ) : σ × γ → ε → Option (σ × γ)
  | (s, g), e => (step s e).map fun s' => (s', upd g s e s')

theorem watch_eq_some {step : σ → ε → Option σ} {upd : γ → σ → ε → σ → γ} {p q : σ × γ} {e : ε} :
    watch step upd p e = some q ↔ step p.1 e = some q.1 ∧ q.2 = upd p.2 p.1 e q.1 := by
  obtain ⟨s, g⟩ := p
  obtain ⟨s', g'⟩ := q
  simp only [watch, Option.map_eq_some_iff, Prod.mk.injEq]
  constructor
  · rintro ⟨t, ht, rfl, rfl⟩
    exact ⟨ht, rfl⟩
  · rintro ⟨hs, rfl⟩
    exact ⟨s', hs, rfl, rfl⟩

/-- A history changes nothing about the steps of the system. -/
theorem along_watch {step : σ → ε → Option σ} {upd : γ → σ → ε → σ → γ} {P : σ → ε → σ → Prop}
    {s : σ} {g : γ} {es : List ε} :
    Along (watch step upd) (fun p e q => P p.1 e q.1) (s, g) es ↔ Along step P s es := by
  induction es generalizing s g with
  | nil => exact Iff.rfl
  | cons e es ih =>
    rw [along_cons, along_cons]
    constructor
    · intro h s' hs
      obtain ⟨hP, hrest⟩ := h (s', upd g s e s') (watch_eq_some.mpr ⟨hs, rfl⟩)
      exact ⟨hP, ih.mp hrest⟩
    · intro h q hq
      obtain ⟨hs, -⟩ := watch_eq_some.mp hq
      obtain ⟨hP, hrest⟩ := h q.1 hs
      exact ⟨hP, ih.mpr hrest⟩

end EventRun
