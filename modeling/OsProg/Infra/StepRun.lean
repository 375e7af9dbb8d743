import Mathlib.Data.List.Basic

/-!
# Runs of step functions

A system that may fail is a step function into `Option`, and its run over a trace is
`List.foldlM` of it. What one step keeps of a state and the trace that led to it holds at the end
of a run (`foldlM_invariant`). Where all steps but those of some kind use up a measure, a run is
not longer than that (`foldlM_length_le`).
-/

namespace OsProg.Infra

variable {τ α : Type} {spec : τ → α → Option τ}

/-! ## Runs that do not fail -/

theorem foldlM_cons_iff {a : α} {as : List α} {t t' : τ} :
    (a :: as).foldlM spec t = some t' ↔ ∃ t₁, spec t a = some t₁ ∧ as.foldlM spec t₁ = some t' := by
  rw [List.foldlM_cons, Option.bind_eq_bind, Option.bind_eq_some_iff]

theorem foldlM_append_iff {as bs : List α} {t t' : τ} :
    (as ++ bs).foldlM spec t = some t' ↔
      ∃ t₁, as.foldlM spec t = some t₁ ∧ bs.foldlM spec t₁ = some t' := by
  rw [List.foldlM_append, Option.bind_eq_bind, Option.bind_eq_some_iff]

/-! ## What runs keep -/

/-- **Invariants over histories.** -/
theorem foldlM_invariant {P : List α → τ → Prop}
    (hstep : ∀ before t a t', P before t → spec t a = some t' → P (before ++ [a]) t') :
    ∀ {as before : List α} {t t' : τ}, P before t → as.foldlM spec t = some t' →
      P (before ++ as) t'
  | [], before, t, t', hP, h => by
    rw [List.foldlM_nil] at h
    cases h
    rwa [List.append_nil]
  | a :: as, before, t, t', hP, h => by
    obtain ⟨t₁, ht₁, h⟩ := foldlM_cons_iff.mp h
    have hP₁ := hstep before t a t₁ hP ht₁
    rw [← List.singleton_append, ← List.append_assoc]
    exact foldlM_invariant hstep hP₁ h

/-- **A measure bounds the length of runs.** The steps that are `free` do not use it up. -/
theorem foldlM_length_le {P : τ → Prop} {m : τ → Nat} {free : α → Bool}
    (hstep : ∀ t a t', P t → spec t a = some t' →
      P t' ∧ m t' + 1 ≤ m t + if free a then 1 else 0) :
    ∀ {as : List α} {t t' : τ}, P t → as.foldlM spec t = some t' →
      as.length + m t' ≤ m t + as.countP free
  | [], t, t', _, h => by
    rw [List.foldlM_nil] at h
    cases h
    simp
  | a :: as, t, t', hP, h => by
    obtain ⟨t₁, ht₁, h⟩ := foldlM_cons_iff.mp h
    obtain ⟨hP₁, hlt⟩ := hstep t a t₁ hP ht₁
    have hle := foldlM_length_le hstep hP₁ h
    rw [List.length_cons, List.countP_cons]
    omega

end OsProg.Infra
