import Mathlib.Data.Stream.Init

/-!
# Sequences of calls

A function that is called again and again on a state that it keeps for itself, and what a
client sees of it. The calls to come are a stream, so that a client may go on for as long as
it wants.
-/

namespace OsProg.Infra

variable {γ σ ε ο : Type}

/-- What the calls return, each with the state behind it. -/
def callAll (f : γ → σ → Except ε (ο × σ)) : List γ → σ → Except ε (List (ο × σ))
  | [], _ => .ok []
  | c :: calls, s => do
    let (o, s) ← f c s
    let trace ← callAll f calls s
    return (o, s) :: trace

variable {f : γ → σ → Except ε (ο × σ)} {c : γ} {s s' : σ} {o : ο}

@[simp] theorem callAll_nil : callAll f [] s = .ok [] := rfl

/-- The first call, when it returns. -/
theorem callAll_cons (h : f c s = .ok (o, s')) (calls : List γ) :
    callAll f (c :: calls) s = (callAll f calls s').map ((o, s') :: ·) := by
  rw [callAll, h]
  rfl

theorem callAll_cons_ok {calls : List γ} {trace : List (ο × σ)} (h : f c s = .ok (o, s'))
    (hcalls : callAll f calls s' = .ok trace) :
    callAll f (c :: calls) s = .ok ((o, s') :: trace) := by
  rw [callAll_cons h, hcalls]
  rfl

/-- What was returned starts with what the first call returned. -/
theorem callAll_head {calls : List γ} {trace : List (ο × σ)} (h : f c s = .ok (o, s'))
    (hcalls : callAll f (c :: calls) s = .ok trace) : ∃ tail, trace = (o, s') :: tail := by
  rw [callAll_cons h] at hcalls
  cases htail : callAll f calls s' with
  | error e =>
    rw [htail] at hcalls
    cases hcalls
  | ok tail =>
    rw [htail] at hcalls
    cases hcalls
    exact ⟨tail, rfl⟩

end OsProg.Infra
