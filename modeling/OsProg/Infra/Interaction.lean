import Mathlib.Data.List.Basic

/-!
# Programs that make calls

A program is a tree: it returns, or it makes a call and goes on with what came of it. Whatever
serves the calls may fail and keeps a state. Since a program is any such tree, what is proved of
all of them holds of code that nobody has written yet.

* `Program.run` — the calls that a program makes, and what they leave behind
* `run_invariant` — what each call keeps is kept by a run of any program, if none of them fails
-/

namespace OsProg.Infra

/-- Calls of type `γ` with outcomes of type `ο`, and a result of type `α`. -/
inductive Program (γ ο α : Type) where
  | returns (a : α)
  | call (c : γ) (next : ο → Program γ ο α)

/-- A program that has returned. -/
structure Finished (γ ο α σ : Type) where
  value : α
  state : σ
  trace : List (γ × ο)
  deriving DecidableEq, Repr

variable {γ ο α σ ε : Type}

def Program.run (serve : γ → σ → Except ε (ο × σ)) :
    Program γ ο α → σ → Except ε (Finished γ ο α σ)
  | .returns a, s => .ok { value := a, state := s, trace := [] }
  | .call c next, s =>
    match serve c s with
    | .error e => .error e
    | .ok (o, s') => ((next o).run serve s').map fun r => { r with trace := (c, o) :: r.trace }

/-- **What every call keeps that does not fail**, of the state and of the calls so far, every
program keeps that returns. -/
theorem Program.run_invariant {serve : γ → σ → Except ε (ο × σ)} {P : List (γ × ο) → σ → Prop}
    (hstep : ∀ before s c o s', serve c s = .ok (o, s') → P before s →
      P (before ++ [(c, o)]) s') (p : Program γ ο α) :
    ∀ {before : List (γ × ο)} {s : σ} {r : Finished γ ο α σ}, p.run serve s = .ok r →
      P before s → P (before ++ r.trace) r.state := by
  induction p with
  | returns a =>
    intro before s r hrun h
    cases hrun
    exact (List.append_nil before).symm ▸ h
  | call c next ih =>
    intro before s r hrun h
    rw [Program.run] at hrun
    cases hserve : serve c s with
    | error e =>
      rw [hserve] at hrun
      cases hrun
    | ok x =>
      obtain ⟨o, s'⟩ := x
      rw [hserve] at hrun
      dsimp only at hrun
      cases hnext : (next o).run serve s' with
      | error e =>
        rw [hnext] at hrun
        cases hrun
      | ok r' =>
        rw [hnext] at hrun
        cases hrun
        have hr := ih o hnext (hstep before s c o s' hserve h)
        rwa [List.append_assoc] at hr

end OsProg.Infra
