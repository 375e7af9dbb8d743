import Mathlib.Init

/-!
# Ghost state

A computation with a second state that it writes to but never looks at, next to the same
computation without it. The two end alike, and what holds between the states is kept
(`Tracks`). An error may be one that stops a computation half-way (`abort`); after it nothing is
asked of the ghost state.
-/

namespace OsProg.Infra.Ghost

open EStateM (Result)

variable {ε σ γ α β : Type}

/-- A result, with the ghost state that it leaves. -/
def withGhost (g : γ) : Result ε σ α → Result ε (σ × γ) α
  | .ok a s => .ok a (s, g)
  | .error e s => .error e (s, g)

/-- A computation that leaves the ghost state alone. -/
def lift (m : EStateM ε σ α) : EStateM ε (σ × γ) α := fun s => withGhost s.2 (m.run s.1)

/-- A write to the ghost state. -/
def ghost (f : γ → γ) : EStateM ε (σ × γ) Unit := modify fun s => (s.1, f s.2)

variable {R : σ → γ → Prop} {abort : ε → Prop}

/-- The ghost state is related to the state of a result, unless that is an abort. -/
def Kept (R : σ → γ → Prop) (abort : ε → Prop) (g : γ) : Result ε σ α → Prop
  | .ok _ s => R s g
  | .error e s => abort e ∨ R s g

/-- From these states the two computations end alike, and the relation is kept. -/
def TracksAt (R : σ → γ → Prop) (abort : ε → Prop) (m : EStateM ε (σ × γ) α)
    (m' : EStateM ε σ α) (s : σ) (g : γ) : Prop :=
  ∃ g', m.run (s, g) = withGhost g' (m'.run s) ∧ (R s g → Kept R abort g' (m'.run s))

def Tracks (R : σ → γ → Prop) (abort : ε → Prop) (m : EStateM ε (σ × γ) α)
    (m' : EStateM ε σ α) : Prop :=
  ∀ s g, TracksAt R abort m m' s g

theorem tracks_lift {m : EStateM ε σ α} (h : ∀ s g, R s g → Kept R abort g (m.run s)) :
    Tracks R abort (lift m) m := fun s g => ⟨g, rfl, h s g⟩

theorem tracksAt_get {f : σ → EStateM ε (σ × γ) α} {f' : σ → EStateM ε σ α} {s : σ} {g : γ}
    (h : TracksAt R abort (f s) (f' s) s g) :
    TracksAt R abort (lift get >>= f) (get >>= f') s g := h

theorem tracks_pure (a : α) : Tracks R abort (pure a) (pure a) := fun _ g => ⟨g, rfl, id⟩

theorem tracks_bind {m : EStateM ε (σ × γ) α} {m' : EStateM ε σ α}
    {f : α → EStateM ε (σ × γ) β} {f' : α → EStateM ε σ β} (hm : Tracks R abort m m')
    (hf : ∀ a, Tracks R abort (f a) (f' a)) : Tracks R abort (m >>= f) (m' >>= f') := by
  intro s g
  obtain ⟨g₁, hrun, hkept⟩ := hm s g
  unfold TracksAt
  rw [EStateM.run_bind, EStateM.run_bind, hrun]
  cases hr : m'.run s with
  | error e t =>
    rw [hr] at hkept
    exact ⟨g₁, rfl, hkept⟩
  | ok a t =>
    rw [hr] at hkept
    obtain ⟨g₂, hrun₂, hkept₂⟩ := hf a t g₁
    exact ⟨g₂, hrun₂, fun h => hkept₂ (hkept h)⟩

theorem tracks_ite {c : Prop} [Decidable c] {m n : EStateM ε (σ × γ) α} {m' n' : EStateM ε σ α}
    (hm : Tracks R abort m m') (hn : Tracks R abort n n') :
    Tracks R abort (if c then m else n) (if c then m' else n') := by
  split
  · exact hm
  · exact hn

/-- With the ghost state, a computation ends as it does without. -/
theorem Tracks.run_ok {m : EStateM ε (σ × γ) α} {m' : EStateM ε σ α} (h : Tracks R abort m m')
    {s : σ × γ} {a : α} {s' : σ × γ} (hr : m.run s = .ok a s') : m'.run s.1 = .ok a s'.1 := by
  obtain ⟨g, hrun, -⟩ := h s.1 s.2
  rw [hr] at hrun
  cases hm : m'.run s.1 with
  | ok b t =>
    rw [hm] at hrun
    cases hrun
    rfl
  | error e t =>
    rw [hm] at hrun
    cases hrun

end OsProg.Infra.Ghost
