import OsProg.Infra.StepRun

/-!
# The watchdog

`T1000` of `test/TestHelpers.h`: a thread that terminates the program unless it is disarmed in
time, and the destructor that disarms it. The two take their steps in any order. `wait_for`
with a predicate is the loop of the C++ standard:

    while (!pred())
      if (wait_until(lock, deadline) == cv_status::timeout)
        return pred();
    return true;

A thread that waits wakes up when it is notified, when the deadline has passed, or for no
reason. That the deadline has passed is reported only when it has.
-/

namespace OsProg.T1000

/-- Where the thread of the watchdog is. -/
inductive Watchdog where
  /-- it has not got the lock yet -/
  | start
  /-- it has the lock, and is about to evaluate the predicate -/
  | test
  /-- it read `false`, and is about to release the lock and wait -/
  | blocking
  | blocked
  /-- it was woken, and is about to get the lock back -/
  | woken
  /-- the deadline was reported, and it is about to evaluate the predicate for the last time -/
  | finalTest
  /-- `wait_for` returned `true` -/
  | passed
  /-- `wait_for` returned `false` -/
  | failed
  /-- the function of the thread has returned -/
  | finished
  /-- `std::terminate` was called -/
  | terminated
  deriving DecidableEq, Repr

/-- What the destructor has done. -/
inductive Destructor where
  | alive
  | stored
  | notified
  | joined
  deriving DecidableEq, Repr

structure State where
  watchdog : Watchdog
  locked : Bool
  disarmed : Bool
  destructor : Destructor
  deadline : Bool
  deriving DecidableEq, Repr

/-- Behind the constructor. -/
def State.init : State :=
  { watchdog := .start, locked := false, disarmed := false, destructor := .alive,
    deadline := false }

inductive Act where
  | lock
  /-- the predicate is evaluated, and reads a value -/
  | test (read : Bool)
  /-- the lock is released and the thread waits, in one step -/
  | block
  /-- a spurious wake-up -/
  | spurious
  /-- the thread wakes up because the deadline has passed -/
  | timeout
  /-- the thread has the lock again and is told whether the deadline has passed -/
  | relock (timedOut : Bool)
  /-- the function of the thread returns -/
  | finish
  /-- `std::terminate` -/
  | terminate
  /-- `disarmed = true` -/
  | store
  /-- `cv.notify_all()` -/
  | notify
  /-- a `cv.notify_all()` that does not reach the thread -/
  | notifyLost
  /-- `t.join()` -/
  | join
  /-- the deadline passes -/
  | deadline
  deriving DecidableEq, Repr

/-- What the watchdog reads decides where it goes. -/
def State.read (s : State) (value : Bool) (onFalse : Watchdog) : Option State :=
  if value = s.disarmed then
    some { s with watchdog := if value then .passed else onFalse }
  else none

/-- A step of the thread of the watchdog. -/
def State.watch (s : State) : Act → Option State
  | .lock =>
    if s.watchdog = .start ∧ s.locked = false then
      some { s with watchdog := .test, locked := true }
    else none
  | .test value =>
    match s.watchdog with
    | .test => s.read value .blocking
    | .finalTest => s.read value .failed
    | _ => none
  | .block =>
    if s.watchdog = .blocking then some { s with watchdog := .blocked, locked := false } else none
  | .spurious => if s.watchdog = .blocked then some { s with watchdog := .woken } else none
  | .timeout =>
    if s.watchdog = .blocked ∧ s.deadline = true then some { s with watchdog := .woken } else none
  | .relock timedOut =>
    if s.watchdog = .woken ∧ s.locked = false ∧ (timedOut = true → s.deadline = true) then
      some { s with watchdog := if timedOut then .finalTest else .test, locked := true }
    else none
  | .finish =>
    if s.watchdog = .passed then some { s with watchdog := .finished, locked := false } else none
  | .terminate => if s.watchdog = .failed then some { s with watchdog := .terminated } else none
  | _ => none

/-- A step of the destructor. -/
def State.destroy (s : State) : Act → Option State
  | .store =>
    if s.destructor = .alive then some { s with disarmed := true, destructor := .stored } else none
  | .notify =>
    if s.destructor = .stored then
      some { s with
        watchdog := if s.watchdog = .blocked then .woken else s.watchdog
        destructor := .notified }
    else none
  | .notifyLost =>
    if s.destructor = .stored then some { s with destructor := .notified } else none
  | .join =>
    if s.destructor = .notified ∧ s.watchdog = .finished then
      some { s with destructor := .joined }
    else none
  | _ => none

/-- A step of the program. There is none after `std::terminate`. -/
def State.step (s : State) (a : Act) : Option State :=
  if s.watchdog = .terminated then none
  else
    match a with
    | .deadline => some { s with deadline := true }
    | .store | .notify | .notifyLost | .join => s.destroy a
    | _ => s.watch a

/-! ## One step -/

/-- The steps, one by one. -/
inductive Step (s : State) : Act → State → Prop where
  | lock (h : s.watchdog = .start) : Step s .lock { s with watchdog := .test, locked := true }
  | test (h : s.watchdog = .test) :
    Step s (.test s.disarmed)
      { s with watchdog := if s.disarmed then .passed else .blocking }
  | finalTest (h : s.watchdog = .finalTest) :
    Step s (.test s.disarmed) { s with watchdog := if s.disarmed then .passed else .failed }
  | block (h : s.watchdog = .blocking) :
    Step s .block { s with watchdog := .blocked, locked := false }
  | spurious (h : s.watchdog = .blocked) : Step s .spurious { s with watchdog := .woken }
  | timeout (h : s.watchdog = .blocked) (hd : s.deadline = true) :
    Step s .timeout { s with watchdog := .woken }
  | relock (h : s.watchdog = .woken) :
    Step s (.relock false) { s with watchdog := .test, locked := true }
  | relockTimedOut (h : s.watchdog = .woken) (hd : s.deadline = true) :
    Step s (.relock true) { s with watchdog := .finalTest, locked := true }
  | finish (h : s.watchdog = .passed) :
    Step s .finish { s with watchdog := .finished, locked := false }
  | terminate (h : s.watchdog = .failed) : Step s .terminate { s with watchdog := .terminated }
  | store (h : s.destructor = .alive) :
    Step s .store { s with disarmed := true, destructor := .stored }
  | notify (h : s.destructor = .stored) :
    Step s .notify
      { s with
        watchdog := if s.watchdog = .blocked then .woken else s.watchdog
        destructor := .notified }
  | notifyLost (h : s.destructor = .stored) :
    Step s .notifyLost { s with destructor := .notified }
  | join (h : s.destructor = .notified) (hw : s.watchdog = .finished) :
    Step s .join { s with destructor := .joined }
  | deadline : Step s .deadline { s with deadline := true }

/-- **What a step can do.** -/
theorem step_cases {s s' : State} {a : Act} (h : s.step a = some s') : Step s a s' := by
  unfold State.step at h
  split at h
  · cases h
  · cases a with
    | test value =>
      simp only [State.watch, State.read] at h
      split at h
      · rename_i hw
        split at h
        · rename_i hvalue
          cases h
          subst hvalue
          exact .test hw
        · cases h
      · rename_i hw
        split at h
        · rename_i hvalue
          cases h
          subst hvalue
          exact .finalTest hw
        · cases h
      · cases h
    | relock timedOut =>
      simp only [State.watch] at h
      split at h
      · rename_i hw
        cases h
        cases timedOut with
        | false => exact .relock hw.1
        | true => exact .relockTimedOut hw.1 (hw.2.2 rfl)
      · cases h
    | deadline =>
      cases h
      exact .deadline
    | lock | block | spurious | timeout | finish | terminate =>
      simp only [State.watch] at h
      split at h
      · rename_i hw
        cases h
        first
          | exact .lock hw.1
          | exact .block hw
          | exact .spurious hw
          | exact .timeout hw.1 hw.2
          | exact .finish hw
          | exact .terminate hw
      · cases h
    | store | notify | notifyLost | join =>
      simp only [State.destroy] at h
      split at h
      · rename_i hw
        cases h
        first
          | exact .store hw
          | exact .notify hw
          | exact .notifyLost hw
          | exact .join hw.1 hw.2
      · cases h

/-! ## Runs -/

/-- A run from behind the constructor. -/
def Run (acts : List Act) (s : State) : Prop := acts.foldlM State.step State.init = some s

end OsProg.T1000
