import OsProg.T1000.Wakeup

/-!
# The destructor of the watchdog comes to an end

Once it has stored, a few steps are left, whatever wakes the thread up and however often
(`used_step`). The program stands still in one place only: the thread has missed the notification,
and waits for the deadline (`not_stuck`). So the destructor returns, or `std::terminate` is called,
at the latest behind the deadline (`destructor_ends`).
-/

namespace OsProg.T1000

open Infra

variable {s s' : State} {a : Act} {acts : List Act}

/-! ## The lock -/

/-- The places where the thread has the lock. -/
def Watchdog.holdsLock : Watchdog → Bool
  | .test | .blocking | .finalTest | .passed | .failed | .terminated => true
  | .start | .blocked | .woken | .finished => false

/-- Nobody else takes it. -/
def Guarded (s : State) : Prop := s.locked = s.watchdog.holdsLock

theorem guarded_init : Guarded State.init := rfl

theorem guarded_step (hlock : Guarded s) (hs : Step s a s') : Guarded s' := by
  unfold Guarded at hlock ⊢
  cases hs with
  | test h | finalTest h => cases hd : s.disarmed <;> simp [hlock, h, Watchdog.holdsLock]
  | notify h => by_cases hw : s.watchdog = .blocked <;> simp [hlock, hw, Watchdog.holdsLock]
  | store | notifyLost | join | deadline => exact hlock
  | lock h | block h | spurious h | timeout h | relock h | relockTimedOut h | finish h
  | terminate h => simp [hlock, h, Watchdog.holdsLock]

theorem guarded_run (h : Run acts s) : Guarded s :=
  @foldlM_invariant State Act State.step (fun _ t => Guarded t)
    (fun _ _ _ _ hi hs => guarded_step hi (step_cases hs)) acts [] _ _ guarded_init h

/-! ## What is left to do -/

/-- The steps that the thread has still to take when it will read `true`. -/
def Watchdog.left : Watchdog → Nat
  | .blocking => 5
  | .blocked => 4
  | .start | .woken => 3
  | .test | .finalTest => 2
  | .passed | .failed => 1
  | .finished | .terminated => 0

def Destructor.left : Destructor → Nat
  | .alive => 3
  | .stored => 2
  | .notified => 1
  | .joined => 0

def State.left (s : State) : Nat := s.watchdog.left + s.destructor.left

/-- **Every step but the deadline brings the end nearer.** -/
theorem left_lt (hd : s.disarmed = true) (hs : Step s a s') (ha : a ≠ .deadline) :
    s'.left < s.left := by
  unfold State.left
  cases hs with
  | deadline => exact absurd rfl ha
  | store h | notifyLost h | join h hw => simp [Destructor.left, h]
  | notify h =>
    by_cases hw : s.watchdog = .blocked <;> simp [Watchdog.left, Destructor.left, h, hw]
  | test h | finalTest h => simp [Watchdog.left, h, hd]
  | lock h | block h | spurious h | timeout h | relock h | relockTimedOut h | finish h
  | terminate h => simp [Watchdog.left, h]

theorem disarmed_step (hd : s.disarmed = true) (hs : Step s a s') : s'.disarmed = true := by
  cases hs with
  | store h => rfl
  | _ => exact hd

/-- What is left to do bounds the rest of a run. -/
theorem length_le_left (hd : s.disarmed = true) (h : acts.foldlM State.step s = some s') :
    acts.length + s'.left ≤ s.left + acts.count .deadline := by
  -- each step but the deadline uses up one of what is left
  refine foldlM_length_le (P := fun t => t.disarmed = true) ?_ hd h
  intro t a t' hd hstep
  have hs := step_cases hstep
  refine ⟨disarmed_step hd hs, ?_⟩
  by_cases ha : a = .deadline
  · subst ha
    cases hs with
    | deadline => exact Nat.le_refl _
  · have hlt := left_lt hd hs ha
    omega

/-! ## Where the program can stand still -/

/-- A step that is neither up to the clock nor spurious. -/
def CanStep (s : State) : Prop := ∃ a, a ≠ .deadline ∧ a ≠ .spurious ∧ (s.step a).isSome = true

/-- **The program stands still only where the notification was missed**, and until the deadline. -/
theorem not_stuck (h : Run acts s) (hterminated : s.watchdog ≠ .terminated)
    (hjoined : s.destructor ≠ .joined) : CanStep s ∨ Asleep s ∧ s.deadline = false := by
  have hlock : s.locked = s.watchdog.holdsLock := guarded_run h
  have hgo : ∀ a, (s.step a).isSome = true → a ≠ .deadline ∧ a ≠ .spurious →
      CanStep s ∨ Asleep s ∧ s.deadline = false := fun a h ha => .inl ⟨a, ha.1, ha.2, h⟩
  cases hd : s.destructor with
  | joined => exact absurd hd hjoined
  | alive => exact hgo .store (by simp [State.step, State.destroy, hd, hterminated]) (by simp)
  | stored => exact hgo .notify (by simp [State.step, State.destroy, hd, hterminated]) (by simp)
  | notified =>
    have hdisarmed : s.disarmed = true := disarms_run h (by simp [hd])
    -- behind the notification the thread has a step wherever it is, or it has missed it
    cases hw : s.watchdog with
    | terminated => exact absurd hw hterminated
    | blocked =>
      cases hdl : s.deadline with
      | false => exact .inr ⟨⟨hw, hdisarmed, hd⟩, rfl⟩
      | true => exact hdl ▸ hgo .timeout (by simp [State.step, State.watch, hw, hdl]) (by simp)
    | start =>
      rw [hw] at hlock
      exact hgo .lock (by simp [State.step, State.watch, hw, hlock, Watchdog.holdsLock]) (by simp)
    | woken =>
      rw [hw] at hlock
      exact hgo (.relock false) (by simp [State.step, State.watch, hw, hlock, Watchdog.holdsLock])
        (by simp)
    | test | finalTest =>
      exact hgo (.test true) (by simp [State.step, State.watch, State.read, hw, hdisarmed])
        (by simp)
    | blocking => exact hgo .block (by simp [State.step, State.watch, hw]) (by simp)
    | passed => exact hgo .finish (by simp [State.step, State.watch, hw]) (by simp)
    | failed => exact hgo .terminate (by simp [State.step, State.watch, hw]) (by simp)
    | finished => exact hgo .join (by simp [State.step, State.destroy, hw, hd]) (by simp)

/-- The deadline wakes a thread that is asleep. -/
theorem wakes_at_deadline (h : Asleep s) : ∃ s', s.step .deadline = some s' ∧ CanStep s' := by
  obtain ⟨hw, -, -⟩ := h
  refine ⟨{ s with deadline := true }, by simp [State.step, hw], .timeout, nofun, nofun, ?_⟩
  simp [State.step, State.watch, hw]

theorem left_le (s : State) : s.watchdog.left ≤ 5 := by
  cases s.watchdog <;> simp [Watchdog.left]

/-- **The destructor comes to an end.** Behind its store at most seven steps are left to both
threads, spurious wake-ups included. Until it has returned or the program is terminated, a step
can be taken, now or when the deadline passes. -/
theorem destructor_ends {before rest : List Act} (h : Run (before ++ .store :: rest) s) :
    rest.length ≤ 7 + rest.count .deadline ∧
      (s.watchdog = .terminated ∨ s.destructor = .joined ∨ CanStep s ∨
        Asleep s ∧ ∃ s', s.step .deadline = some s' ∧ CanStep s') := by
  constructor
  · obtain ⟨t, -, htail⟩ := foldlM_append_iff.mp h
    obtain ⟨t', ht', hrest⟩ := foldlM_cons_iff.mp htail
    cases step_cases ht' with
    | store hd =>
      have hle := length_le_left (by rfl) hrest
      have hleft := left_le t
      simp only [State.left, Destructor.left] at hle
      omega
  · by_cases hterminated : s.watchdog = .terminated
    · exact .inl hterminated
    · by_cases hjoined : s.destructor = .joined
      · exact .inr (.inl hjoined)
      · rcases not_stuck h hterminated hjoined with hcan | ⟨hasleep, -⟩
        · exact .inr (.inr (.inl hcan))
        · exact .inr (.inr (.inr ⟨hasleep, wakes_at_deadline hasleep⟩))

/-- The thread has to be woken up, and all seven steps are taken. -/
theorem destructor_ends_seven : ∃ before rest s, Run (before ++ .store :: rest) s ∧
    rest.length = 7 ∧ s.destructor = .joined ∧ rest.length ≤ 7 + rest.count .deadline := by
  have hrun : Run ([.lock, .test false] ++ .store ::
      [.notify, .block, .spurious, .relock false, .test true, .finish, .join])
      { watchdog := .finished, locked := false, disarmed := true, destructor := .joined,
        deadline := false } := rfl
  exact ⟨_, _, _, hrun, rfl, rfl, (destructor_ends hrun).1⟩

end OsProg.T1000
