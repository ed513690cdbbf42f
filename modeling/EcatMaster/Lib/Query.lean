import Mathlib.Data.Nat.Notation

/-! # Programs that ask

A program that gets its data by asking for it, one answer at a time, whoever gives the answers. With fixed
answers it asks certain questions and comes to a certain result (`Yields`); whoever gives these answers to
these questions, and keeps an invariant meanwhile, gets that result (`Yields.run`).
-/

set_option autoImplicit false

/-- Questions `ι` with answers `ρ`. -/
inductive Query (ι ρ α : Type) where
  | done (a : α)
  | ask (i : ι) (next : ρ → Query ι ρ α)

namespace Query
variable {ι ρ σ α β : Type}

def bind : Query ι ρ α → (α → Query ι ρ β) → Query ι ρ β
  | .done a, k => k a
  | .ask i next, k => .ask i fun r => (next r).bind k

instance : Monad (Query ι ρ) where
  pure := .done
  bind := bind

def get (i : ι) : Query ι ρ ρ := .ask i .done

/-- Somebody with a state answers. -/
def run (answer : ι → σ → ρ × σ) : Query ι ρ α → σ → α × σ
  | .done a, s => (a, s)
  | .ask i next, s =>
    let (r, s) := answer i s
    (next r).run answer s

/-- Somebody answers who may not come to an answer. -/
def attempt (answer : ι → σ → Option (ρ × σ)) : Query ι ρ α → σ → Option (α × σ)
  | .done a, s => some (a, s)
  | .ask i next, s => (answer i s).bind fun r => (next r.1).attempt answer r.2

theorem run_ask (answer : ι → σ → ρ × σ) (i : ι) (next : ρ → Query ι ρ α) (s : σ) :
    (ask i next).run answer s = (next (answer i s).1).run answer (answer i s).2 := rfl

/-- With the answers `f` the program asks only what satisfies `P`, and the result is `a`. -/
inductive Yields (f : ι → ρ) (P : ι → Prop) : Query ι ρ α → α → Prop where
  | done (a : α) : Yields f P (.done a) a
  | ask {i : ι} {next : ρ → Query ι ρ α} {a : α} (hi : P i) (h : Yields f P (next (f i)) a) :
      Yields f P (.ask i next) a

namespace Yields
variable {f : ι → ρ} {P : ι → Prop} {q : Query ι ρ α} {a : α}

theorem pure (a : α) : Yields f P (Pure.pure a : Query ι ρ α) a := .done a

theorem get {i : ι} (hi : P i) : Yields f P (Query.get i) (f i) := .ask hi (.done _)

theorem bind {k : α → Query ι ρ β} {b : β} (h : Yields f P q a) (hk : Yields f P (k a) b) :
    Yields f P (q >>= k) b := by
  induction h with
  | done a => exact hk
  | ask hi _ ih => exact .ask hi (ih hk)

/-- The result does not depend on who answers. -/
theorem run {answer : ι → σ → ρ × σ} {I : σ → Prop}
    (hanswer : ∀ i s, P i → I s → (answer i s).1 = f i ∧ I (answer i s).2) (h : Yields f P q a) {s : σ}
    (hs : I s) : (q.run answer s).1 = a ∧ I (q.run answer s).2 := by
  induction h generalizing s with
  | done a => exact ⟨rfl, hs⟩
  | @ask i next a hi _ ih =>
    obtain ⟨hfst, hkept⟩ := hanswer i s hi hs
    rw [Query.run_ask, hfst]
    exact ih hkept

/-- The same where every one of the questions gets an answer. -/
theorem attempt {answer : ι → σ → Option (ρ × σ)} {I : σ → Prop}
    (hanswer : ∀ i s, P i → I s → ∃ s', answer i s = some (f i, s') ∧ I s') (h : Yields f P q a) {s : σ}
    (hs : I s) : ∃ s', q.attempt answer s = some (a, s') ∧ I s' := by
  induction h generalizing s with
  | done a => exact ⟨s, rfl, hs⟩
  | @ask i next a hi _ ih =>
    obtain ⟨s', hstep, hkept⟩ := hanswer i s hi hs
    rw [Query.attempt, hstep]
    exact ih hkept

end Yields
end Query
