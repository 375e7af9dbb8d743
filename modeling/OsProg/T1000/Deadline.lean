import OsProg.T1000.Model

/-!
# The verdict of the watchdog

`std::terminate` is called behind the deadline only, and only when the predicate was `false`
behind the deadline. Whether a notification is lost makes no difference.

* `judged_run` — what the history of a run says about its state
* `terminate_late` — what it says about a run that ends with `std::terminate`
-/

namespace OsProg.T1000

open Infra

/-- The deadline has passed, and the last test, behind it, read `false`. -/
def ReadFalseLate (acts : List Act) : Prop :=
  ∃ before between after, acts = before ++ .deadline :: (between ++ .test false :: after) ∧
    ∀ value, .test value ∉ after

/-- What the history of a run says about its state. -/
structure Judged (acts : List Act) (s : State) : Prop where
  deadline : s.deadline = true → .deadline ∈ acts
  store : .store ∈ acts → s.disarmed = true
  finalTest : s.watchdog = .finalTest → s.deadline = true
  failed : s.watchdog = .failed ∨ s.watchdog = .terminated → ReadFalseLate acts
  terminate : .terminate ∈ acts → s.watchdog = .terminated

theorem judged_init : Judged [] State.init := by
  refine ⟨?_, ?_, ?_, ?_, ?_⟩ <;> simp [State.init]

variable {acts : List Act} {s s' : State} {a : Act}

/-- A step that tests nothing leaves the last test where it is. -/
theorem ReadFalseLate.append (h : ReadFalseLate acts) (ha : ∀ value, a ≠ .test value) :
    ReadFalseLate (acts ++ [a]) := by
  obtain ⟨before, between, after, rfl, hafter⟩ := h
  refine ⟨before, between, after ++ [a], by simp, ?_⟩
  intro value hmem
  rcases List.mem_append.mp hmem with hmem | hmem
  · exact hafter value hmem
  · exact ha value (List.mem_singleton.mp hmem).symm

/-- A test that reads `false` behind the deadline is the last one. -/
theorem readFalseLate_test (h : .deadline ∈ acts) : ReadFalseLate (acts ++ [.test false]) := by
  obtain ⟨before, between, rfl⟩ := List.append_of_mem h
  exact ⟨before, between, [], by simp, fun _ => List.not_mem_nil⟩

theorem step_running (h : s.step a = some s') : s.watchdog ≠ .terminated := by
  intro hw
  unfold State.step at h
  rw [if_pos hw] at h
  cases h

theorem deadline_step (hi : s.deadline = true → .deadline ∈ acts) (hs : Step s a s') :
    s'.deadline = true → .deadline ∈ acts ++ [a] := by
  cases hs with
  | deadline => exact fun _ => List.mem_append_right acts List.mem_cons_self
  | _ => exact fun h => List.mem_append_left _ (hi h)

theorem store_step (hi : .store ∈ acts → s.disarmed = true) (hs : Step s a s') :
    .store ∈ acts ++ [a] → s'.disarmed = true := by
  cases hs with
  | store h => exact fun _ => rfl
  | _ => simpa using hi

/-- The watchdog comes to its last test when it is told that the deadline has passed. -/
theorem finalTest_step (hi : s.watchdog = .finalTest → s.deadline = true) (hs : Step s a s') :
    s'.watchdog = .finalTest → s'.deadline = true := by
  cases hs with
  | test h | finalTest h =>
    intro hw
    cases hd : s.disarmed <;> simp [hd] at hw
  | relockTimedOut h hd => exact fun _ => hd
  | notify h =>
    intro hw
    refine hi ?_
    by_cases hb : s.watchdog = .blocked
    · simp [hb] at hw
    · simpa [hb] using hw
  | deadline => exact fun _ => rfl
  | store | notifyLost | join => exact hi
  | _ => simp

/-- **It fails in its last test, which reads `false`.** -/
theorem failed_step (hi : Judged acts s) (hs : Step s a s')
    (hw : s'.watchdog = .failed ∨ s'.watchdog = .terminated) : ReadFalseLate (acts ++ [a]) := by
  cases hs with
  | test h => cases hd : s.disarmed <;> simp [hd] at hw
  | finalTest h =>
    have hdeadline := hi.deadline (hi.finalTest h)
    cases hd : s.disarmed with
    | false => exact readFalseLate_test hdeadline
    | true => simp [hd] at hw
  | terminate h => exact (hi.failed (.inl h)).append nofun
  | notify h =>
    refine (hi.failed ?_).append nofun
    by_cases hb : s.watchdog = .blocked
    · simp [hb] at hw
    · simpa [hb] using hw
  | store | notifyLost | join | deadline => exact (hi.failed hw).append nofun
  | _ => simp at hw

theorem terminate_step (hi : .terminate ∉ acts) (hs : Step s a s') :
    .terminate ∈ acts ++ [a] → s'.watchdog = .terminated := by
  cases hs with
  | terminate h => exact fun _ => rfl
  | _ => simp [hi]

theorem judged_step (hi : Judged acts s) (h : s.step a = some s') : Judged (acts ++ [a]) s' := by
  have hs := step_cases h
  have hterminate : .terminate ∉ acts := fun hmem => step_running h (hi.terminate hmem)
  exact ⟨deadline_step hi.deadline hs, store_step hi.store hs, finalTest_step hi.finalTest hs,
    failed_step hi hs, terminate_step hterminate hs⟩

theorem judged_run (h : Run acts s) : Judged acts s :=
  @foldlM_invariant State Act State.step Judged (fun _ _ _ _ hi hs => judged_step hi hs) acts []
    _ _ judged_init h

/-! ## Runs that end with `std::terminate` -/

theorem test_reads {value : Bool} (h : s.step (.test value) = some s') : value = s.disarmed := by
  have hs := step_cases h
  generalize ha : Act.test value = a at hs
  cases hs with
  | test | finalTest => exact Act.test.inj ha
  | _ => cases ha

/-- A test that reads `false` comes before the store. -/
theorem not_stored {before after : List Act} (h : Run (before ++ .test false :: after) s) :
    .store ∉ before := by
  unfold Run at h
  obtain ⟨t, ht, h⟩ := foldlM_append_iff.mp h
  obtain ⟨t', ht', _⟩ := foldlM_cons_iff.mp h
  intro hstore
  have hdisarmed := (judged_run ht).store hstore
  rw [← test_reads ht'] at hdisarmed
  cases hdisarmed

/-- What is behind the last test makes no difference. -/
theorem ReadFalseLate.before_store {before after : List Act} (h : ReadFalseLate acts)
    (hrun : Run acts s) (hstore : acts = before ++ .store :: after) : ReadFalseLate before := by
  obtain ⟨front, between, tail, rfl, htail⟩ := h
  have hsplit : front ++ .deadline :: (between ++ .test false :: tail) =
      (front ++ .deadline :: between) ++ .test false :: tail := by simp
  rw [hsplit] at hrun hstore
  have hnot := not_stored hrun
  rcases List.append_eq_append_iff.mp hstore with ⟨mid, rfl, hmid⟩ | ⟨mid, hmid, hmid'⟩
  · -- the store comes behind the test
    match mid, hmid with
    | _ :: mid, hmid =>
      obtain ⟨rfl, rfl⟩ := List.cons.inj hmid
      refine ⟨front, between, mid, by simp, ?_⟩
      intro value hmem
      exact htail value (List.mem_append_left _ hmem)
  · match mid, hmid' with
    | _ :: mid, hmid' =>
      obtain ⟨rfl, _⟩ := List.cons.inj hmid'
      exact absurd (hmid ▸ List.mem_append_right before List.mem_cons_self) hnot

/-- **The watchdog terminates the program only behind the deadline and only when its last test,
behind the deadline, read `false`.** So the deadline comes before the store of the destructor,
and that test as well. -/
theorem terminate_late (h : Run acts s) (ht : .terminate ∈ acts) :
    ReadFalseLate acts ∧
      ∀ before after, acts = before ++ .store :: after →
        .deadline ∈ before ∧ ReadFalseLate before := by
  have hlate := (judged_run h).failed (.inr ((judged_run h).terminate ht))
  refine ⟨hlate, ?_⟩
  intro before after hstore
  have hbefore := hlate.before_store h hstore
  obtain ⟨front, between, tail, hfront, _⟩ := id hbefore
  exact ⟨hfront ▸ List.mem_append_right front List.mem_cons_self, hbefore⟩

/-- A run in which the destructor comes too late. -/
theorem terminate_late_store : ∃ acts s, Run acts s ∧ .terminate ∈ acts ∧
    ReadFalseLate acts ∧
      ∀ before after, acts = before ++ .store :: after →
        .deadline ∈ before ∧ ReadFalseLate before := by
  have hrun : Run [.lock, .test false, .block, .deadline, .timeout, .relock true, .test false,
      .store, .terminate]
      { watchdog := .terminated, locked := true, disarmed := true, destructor := .stored,
        deadline := true } := rfl
  exact ⟨_, _, hrun, by decide, terminate_late hrun (by decide)⟩

end OsProg.T1000
