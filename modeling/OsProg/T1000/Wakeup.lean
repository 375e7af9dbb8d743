import OsProg.T1000.Model

/-!
# Lost wake-ups

The destructor does not hold the lock when it stores and notifies. A `notify_all` between the
test of the predicate and the wait reaches nobody, and the watchdog waits for the deadline
(`not_notified_in_time`). When no `notify_all` falls there, none is lost (`wakeup_iff`).
-/

namespace OsProg.T1000

open Infra

variable {s s' : State} {a : Act} {acts : List Act}

/-! ## The bad window -/

/-- The watchdog waits although it was disarmed and notified. -/
def Asleep (s : State) : Prop :=
  s.watchdog = .blocked ∧ s.disarmed = true ∧ s.destructor = .notified

/-- `notify_all` does not fall between a test that read `false` and the wait behind it. -/
def InTime (s : State) (a : Act) : Prop := a = .notify → s.watchdog ≠ .blocking

/-- So at each step of a run. -/
def AllInTime (s : State) : List Act → Prop
  | [] => True
  | a :: acts => InTime s a ∧ ∀ s' ∈ s.step a, AllInTime s' acts

instance (s : State) (a : Act) : Decidable (InTime s a) :=
  inferInstanceAs (Decidable (a = .notify → s.watchdog ≠ .blocking))

instance AllInTime.decidable : ∀ (acts : List Act) (s : State), Decidable (AllInTime s acts)
  | [], _ => isTrue trivial
  | a :: acts, s =>
    have := AllInTime.decidable acts
    inferInstanceAs (Decidable (InTime s a ∧ ∀ s' ∈ s.step a, AllInTime s' acts))

/-- The destructor disarms first. -/
def Disarms (s : State) : Prop := s.destructor ≠ .alive → s.disarmed = true

theorem disarms_step (hi : Disarms s) (hs : Step s a s') : Disarms s' := by
  cases hs with
  | store h => exact fun _ => rfl
  | notify h | notifyLost h | join h =>
    intro _
    exact hi (by simp [h])
  | _ => exact hi

/-- Once it has notified, the watchdog neither waits nor is about to. -/
structure Awake (s : State) : Prop where
  disarms : Disarms s
  notWaiting : s.destructor = .notified ∨ s.destructor = .joined →
    s.watchdog ≠ .blocking ∧ s.watchdog ≠ .blocked

theorem awake_init : Awake State.init := ⟨fun h => absurd rfl h, by simp [State.init]⟩

theorem Awake.disarmed (hi : Awake s) (h : s.destructor = .notified ∨ s.destructor = .joined) :
    s.disarmed = true := by
  refine hi.disarms ?_
  rintro h0
  simp [h0] at h

theorem awake_step (hi : Awake s) (hin : InTime s a) (hlost : a ≠ .notifyLost)
    (hs : Step s a s') : Awake s' := by
  refine ⟨disarms_step hi.disarms hs, ?_⟩
  cases hs with
  | test h =>
    intro hd
    -- what is read now is `true`
    have hdisarmed := hi.disarmed hd
    simp [hdisarmed]
  | finalTest h =>
    intro hd
    have hdisarmed := hi.disarmed hd
    simp [hdisarmed]
  | block h =>
    intro hd
    exact absurd h (hi.notWaiting hd).1
  | store h => simp
  | notify h =>
    intro _
    have hin : s.watchdog ≠ .blocking := hin rfl
    by_cases hw : s.watchdog = .blocked
    · simp [hw]
    · simp [hw, hin]
  | notifyLost h => exact absurd rfl hlost
  | join h hw => simp [hw]
  | deadline => exact hi.notWaiting
  | _ => simp

theorem awake_run : ∀ {acts : List Act} {s s' : State}, Awake s → AllInTime s acts →
    .notifyLost ∉ acts → acts.foldlM State.step s = some s' → Awake s'
  | [], s, s', hi, _, _, h => by
    cases h
    exact hi
  | a :: acts, s, s', hi, hin, hlost, h => by
    obtain ⟨s₁, hs₁, h⟩ := foldlM_cons_iff.mp h
    rw [List.mem_cons, not_or] at hlost
    exact awake_run (awake_step hi hin.1 (Ne.symm hlost.1) (step_cases hs₁)) (hin.2 s₁ hs₁)
      hlost.2 h

/-- A notification that comes at a bad time. -/
theorem exists_late : ∀ {acts : List Act} {s s' : State}, ¬ AllInTime s acts →
    acts.foldlM State.step s = some s' →
      ∃ (before after : List Act) (t t' : State), acts = before ++ .notify :: after ∧
        before.foldlM State.step s = some t ∧ t.watchdog = .blocking ∧ t.step .notify = some t'
  | [], _, _, hlate, _ => absurd trivial hlate
  | a :: acts, s, s', hlate, h => by
    obtain ⟨s₁, hs₁, h⟩ := foldlM_cons_iff.mp h
    by_cases hin : InTime s a
    · have htail : ¬ AllInTime s₁ acts := by
        intro hall
        refine hlate ⟨hin, ?_⟩
        intro s₂ hs₂
        rw [hs₁] at hs₂
        cases hs₂
        exact hall
      obtain ⟨before, after, t, t', rfl, ht, hw, ht'⟩ := exists_late htail h
      exact ⟨a :: before, after, t, t', rfl, foldlM_cons_iff.mpr ⟨s₁, hs₁, ht⟩, hw, ht'⟩
    · unfold InTime at hin
      obtain ⟨rfl, hw⟩ := Classical.not_imp.mp hin
      exact ⟨[], acts, s, s₁, rfl, rfl, Decidable.not_not.mp hw, hs₁⟩

theorem disarms_run (h : Run acts s) : Disarms s := by
  have hinit : Disarms State.init := fun h => absurd rfl h
  exact @foldlM_invariant State Act State.step (fun _ t => Disarms t)
    (fun _ _ _ _ hi hs => disarms_step hi (step_cases hs)) acts [] _ _ hinit h

/-- The thread is about to wait when the notification comes, and then it waits. -/
theorem asleep_after {t t' : State} (hi : Disarms t) (hw : t.watchdog = .blocking)
    (h : t.step .notify = some t') :
    ∃ s, [Act.notify, .block].foldlM State.step t = some s ∧ Asleep s := by
  cases step_cases h with
  | notify hd =>
    have hdisarmed : t.disarmed = true := hi (by simp [hd])
    refine ⟨{ t with watchdog := .blocked, locked := false, destructor := .notified }, ?_, ?_⟩
    · simp [State.step, State.watch, State.destroy, hw, hd]
    · exact ⟨rfl, hdisarmed, rfl⟩

/-- **No wake-up is lost in a run whose notification does not fall between a test that read
`false` and the wait behind it.** Every other run has a beginning from which the watchdog can
fall asleep for good. -/
theorem wakeup_iff (h : Run acts s) (hlost : .notifyLost ∉ acts) :
    (AllInTime State.init acts → ¬ Asleep s) ∧
      (¬ AllInTime State.init acts →
        ∃ before after s', acts = before ++ .notify :: after ∧
          Run (before ++ [.notify, .block]) s' ∧ Asleep s') := by
  constructor
  · rintro hin ⟨hw, _, hd⟩
    have hawake := awake_run awake_init hin hlost h
    exact (hawake.notWaiting (.inl hd)).2 hw
  · intro hlate
    obtain ⟨before, after, t, t', rfl, ht, hw, ht'⟩ := exists_late hlate h
    obtain ⟨s', hs', hasleep⟩ := asleep_after (disarms_run ht) hw ht'
    exact ⟨before, after, s', rfl, foldlM_append_iff.mpr ⟨t, ht, hs'⟩, hasleep⟩

/-- The notification wakes the thread. -/
theorem wakeup_waiting : ∃ acts s, Run acts s ∧ .notify ∈ acts ∧
    AllInTime State.init acts ∧ ¬ Asleep s := by
  have hrun : Run [.lock, .test false, .block, .store, .notify]
      { watchdog := .woken, locked := false, disarmed := true, destructor := .notified,
        deadline := false } := rfl
  have hin : AllInTime State.init [.lock, .test false, .block, .store, .notify] := by decide
  exact ⟨_, _, hrun, by decide, hin, (wakeup_iff hrun (by decide)).1 hin⟩

/-- The notification falls into the window. -/
theorem not_notified_in_time :
    ¬ ∀ (acts : List Act) (s : State), Run acts s → .notifyLost ∉ acts → ¬ Asleep s := by
  intro hall
  exact hall [.lock, .test false, .store, .notify, .block]
    { watchdog := .blocked, locked := false, disarmed := true, destructor := .notified,
      deadline := false } rfl (by decide) ⟨rfl, rfl, rfl⟩

end OsProg.T1000
