import Mathlib.Init

/-!
# Programs that leave a trace

A program that emits events, and may stop before its end: `exit`, `return` out of `main`, or
a fault. What it emitted until then stays. The rules say what a first step contributes.
-/

namespace OsProg.Infra

/-- A computation with its events, and its value or the reason why it stopped. -/
structure Traced (β ε α : Type) where
  events : List β
  result : Except ε α

namespace Traced

variable {β ε α γ : Type}

def andThen (x : Traced β ε α) (f : α → Traced β ε γ) : Traced β ε γ :=
  match x.result with
  | .ok a => { events := x.events ++ (f a).events, result := (f a).result }
  | .error e => { events := x.events, result := .error e }

instance : Monad (Traced β ε) where
  pure a := { events := [], result := .ok a }
  bind := andThen

def emit (b : β) : Traced β ε Unit := { events := [b], result := .ok () }

def stop (e : ε) : Traced β ε α := { events := [], result := .error e }

/-- A partial function. Where it has no value, the program stops. -/
def orStop (e : ε) : Option α → Traced β ε α
  | some a => pure a
  | none => stop e

variable {x : Traced β ε α} {f : α → Traced β ε γ}

theorem pure_eq (a : α) : (pure a : Traced β ε α) = { events := [], result := .ok a } := rfl

@[simp] theorem pure_bind (a : α) : (pure a >>= f) = f a := rfl

/-- An event comes in front of those of the program behind it. -/
theorem emit_bind (b : β) (f : Unit → Traced β ε γ) :
    (emit b >>= f) = { events := b :: (f ()).events, result := (f ()).result } := rfl

@[simp] theorem orStop_some (e : ε) (a : α) :
    (orStop e (some a) : Traced β ε α) = pure a := rfl

theorem bind_ok {a : α} (h : x.result = .ok a) :
    (x >>= f) = { events := x.events ++ (f a).events, result := (f a).result } := by
  show andThen x f = _
  unfold andThen
  rw [h]

/-- A program that came to its end, opened after its first step. -/
theorem result_bind_ok {c : γ} (h : (x >>= f).result = .ok c) :
    ∃ a, x.result = .ok a ∧ (f a).result = .ok c := by
  change (andThen x f).result = .ok c at h
  unfold andThen at h
  cases hx : x.result with
  | ok a =>
    rw [hx] at h
    exact ⟨a, rfl, h⟩
  | error e =>
    rw [hx] at h
    cases h

/-- An event is one of the first step, or of what comes behind it. -/
theorem mem_events_bind {b : β} (h : b ∈ (x >>= f).events) :
    b ∈ x.events ∨ ∃ a, x.result = .ok a ∧ b ∈ (f a).events := by
  change b ∈ (andThen x f).events at h
  unfold andThen at h
  cases hx : x.result with
  | ok a =>
    rw [hx] at h
    exact (List.mem_append.mp h).imp_right fun h => ⟨a, rfl, h⟩
  | error e =>
    rw [hx] at h
    exact .inl h

theorem orStop_events (e : ε) (o : Option α) : (orStop e o : Traced β ε α).events = [] := by
  cases o <;> rfl

theorem orStop_ok {e : ε} {o : Option α} {a : α}
    (h : (orStop e o : Traced β ε α).result = .ok a) : o = some a := by
  cases o with
  | none => cases h
  | some b =>
    cases h
    rfl

end Traced

end OsProg.Infra
