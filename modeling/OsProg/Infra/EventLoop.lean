import Mathlib.Data.List.Basic

/-!
# Loops over outcomes

A loop that waits for an outcome, handles it and waits again, until an outcome that stops
it. The history is the list of the outcomes so far, so that a loop that has not stopped is
still waiting.

* `eventLoop_eq` — what the loop emits, in terms of the first outcome that stops it
* `eventLoop_eq_iff`, `find?_eq_find?_iff` — two loops with different ideas of when to stop
  behave the same iff the same outcome stops them first
-/

namespace OsProg.Infra

variable {α β : Type}

/-- The events of a loop over `history`, and whether it has stopped. -/
def eventLoop (stops : α → Bool) (handle giveUp : α → List β) : List α → List β × Bool
  | [] => ([], false)
  | a :: history =>
    if stops a then (giveUp a, true)
    else
      let (events, stopped) := eventLoop stops handle giveUp history
      (handle a ++ events, stopped)

section Rules

variable {stops stops' : α → Bool} {handle giveUp : α → List β} {a : α} {history : List α}

theorem eventLoop_stop (h : stops a = true) :
    eventLoop stops handle giveUp (a :: history) = (giveUp a, true) := by
  rw [eventLoop, if_pos h]

theorem eventLoop_handle (h : stops a = false) :
    eventLoop stops handle giveUp (a :: history) =
      (handle a ++ (eventLoop stops handle giveUp history).1,
        (eventLoop stops handle giveUp history).2) := by
  rw [eventLoop, if_neg (by rw [h]; exact Bool.false_ne_true)]

/-- The loop handles what comes before the first outcome that stops it, and gives up there. -/
theorem eventLoop_eq (stops : α → Bool) (handle giveUp : α → List β) :
    ∀ history : List α, eventLoop stops handle giveUp history =
      ((history.takeWhile fun a => !stops a).flatMap handle ++
        ((history.find? stops).map giveUp).getD [], (history.find? stops).isSome)
  | [] => rfl
  | a :: history => by
    cases h : stops a with
    | true =>
      rw [eventLoop_stop h, List.takeWhile_cons, List.find?_cons, h]
      rfl
    | false =>
      rw [eventLoop_handle h, eventLoop_eq stops handle giveUp history, List.takeWhile_cons,
        List.find?_cons, h]
      simp only [Bool.not_false, if_true, List.flatMap_cons, List.append_assoc]

/-- A loop that has not stopped has handled everything. -/
theorem eventLoop_running : ∀ {history : List α},
    (eventLoop stops handle giveUp history).2 = false →
      (∀ a ∈ history, stops a = false) ∧
        (eventLoop stops handle giveUp history).1 = history.flatMap handle
  | [], _ => ⟨by simp, rfl⟩
  | a :: history, h => by
    cases ha : stops a with
    | true =>
      rw [eventLoop_stop ha] at h
      cases h
    | false =>
      rw [eventLoop_handle ha] at h ⊢
      obtain ⟨hall, hevents⟩ := eventLoop_running h
      exact ⟨List.forall_mem_cons.mpr ⟨ha, hall⟩, by rw [hevents, List.flatMap_cons]⟩

/-- Whether a loop gives up at `a` can be told from its events. -/
def Visible (handle giveUp : α → List β) : Prop :=
  ∀ (stops : α → Bool) (a : α) (history : List α),
    giveUp a ≠ handle a ++ (eventLoop stops handle giveUp history).1

/-- A loop that gives up where another goes on behaves differently. -/
theorem eventLoop_ne (hvis : Visible handle giveUp) (h : stops a = true) (h' : stops' a = false)
    (history : List α) :
    eventLoop stops handle giveUp (a :: history) ≠
      eventLoop stops' handle giveUp (a :: history) := by
  rw [eventLoop_stop h, eventLoop_handle h']
  intro heq
  exact hvis stops' a history (congrArg Prod.fst heq)

theorem find?_ne (h : stops a = true) (h' : stops' a = false) (history : List α) :
    (a :: history).find? stops ≠ (a :: history).find? stops' := by
  rw [List.find?_cons, List.find?_cons, h, h']
  intro heq
  -- an outcome that does not stop the loop is not found
  have hfound := List.find?_some heq.symm
  rw [h'] at hfound
  cases hfound

/-- **Two loops that differ in when they stop.** -/
theorem eventLoop_eq_iff (hvis : Visible handle giveUp) :
    ∀ history : List α,
      eventLoop stops handle giveUp history = eventLoop stops' handle giveUp history ↔
        history.find? stops = history.find? stops'
  | [] => iff_of_true rfl rfl
  | a :: history => by
    cases h : stops a with
    | true =>
      cases h' : stops' a with
      | true =>
        rw [eventLoop_stop h, eventLoop_stop h', List.find?_cons, List.find?_cons, h, h']
        exact iff_of_true rfl rfl
      | false => exact iff_of_false (eventLoop_ne hvis h h' history) (find?_ne h h' history)
    | false =>
      cases h' : stops' a with
      | true =>
        exact iff_of_false (eventLoop_ne hvis h' h history).symm (find?_ne h' h history).symm
      | false =>
        rw [eventLoop_handle h, eventLoop_handle h', List.find?_cons, List.find?_cons, h, h',
          ← eventLoop_eq_iff hvis history]
        constructor
        · intro heq
          obtain ⟨h₁, h₂⟩ := Prod.mk.inj heq
          exact Prod.ext (List.append_cancel_left h₁) h₂
        · intro heq
          rw [heq]

/-- When everything that stops the second loop stops the first, the two behave the same iff
what stops the first one stops the second as well. -/
theorem find?_eq_find?_iff (himp : ∀ a, stops' a = true → stops a = true) :
    ∀ history : List α, history.find? stops = history.find? stops' ↔
      ∀ a, history.find? stops = some a → stops' a = true
  | [] => by simp
  | a :: history => by
    cases h : stops a with
    | true =>
      rw [List.find?_cons, List.find?_cons, h]
      constructor
      · intro heq b hb
        rw [hb] at heq
        cases h' : stops' a with
        | true =>
          cases hb
          exact h'
        | false =>
          rw [h'] at heq
          exact List.find?_some heq.symm
      · intro hall
        rw [hall a rfl]
    | false =>
      have h' : stops' a = false := by
        cases h' : stops' a with
        | true => exact absurd (himp a h') (by rw [h]; exact Bool.false_ne_true)
        | false => rfl
      rw [List.find?_cons, List.find?_cons, h, h']
      exact find?_eq_find?_iff himp history

end Rules

end OsProg.Infra
