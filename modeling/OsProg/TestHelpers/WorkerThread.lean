import OsProg.Infra.Ownership

/-!
# A thread that belongs to a scope

`WorkerThread` of `l07/TestWorkerThread.h`. The tests call its member functions in any order, and
may leave the scope at any point, also by an exception. The destructor runs there.

The thread is joined once, the worker is told to quit, and only a `wait` that comes before
everything else waits for a worker that was not told (`lifetime_exact`).
-/

namespace OsProg.TestHelpers

open OsProg.Infra

/-! ## The class -/

inductive ThreadEvent where
  /-- the thread is started with `Worker::run` -/
  | start
  /-- `w.quit()` -/
  | quit
  /-- `thread.join()` -/
  | join
  /-- `std::terminate`, from the destructor of a thread that was not joined -/
  | terminate
  deriving DecidableEq, Repr

/-- The members. Of `std::thread` it matters whether it can be joined. -/
structure WorkerThread where
  joinable : Bool
  sentQuit : Bool
  deriving DecidableEq, Repr

namespace WorkerThread

/-- `WorkerThread::WorkerThread`. -/
def new : WorkerThread × List ThreadEvent := ({ joinable := true, sentQuit := false }, [.start])

def wait (t : WorkerThread) : WorkerThread × List ThreadEvent :=
  if t.joinable then ({ t with joinable := false }, [.join]) else (t, [])

def sendQuit (t : WorkerThread) : WorkerThread × List ThreadEvent :=
  ({ t with sentQuit := true }, [.quit])

def quitAndWait (t : WorkerThread) : WorkerThread × List ThreadEvent :=
  let (t, events) := if !t.sentQuit then t.sendQuit else (t, [])
  let (t, events') := t.wait
  (t, events ++ events')

/-- `WorkerThread::~WorkerThread`, and the destructor of the member `thread` behind it. -/
def destroy (t : WorkerThread) : List ThreadEvent :=
  let (t, events) := t.quitAndWait
  events ++ if t.joinable then [.terminate] else []

end WorkerThread

/-- A member function. -/
inductive ThreadCall where
  | quitAndWait
  | wait
  | sendQuit
  deriving DecidableEq, Repr

def WorkerThread.call (t : WorkerThread) : ThreadCall → WorkerThread × List ThreadEvent
  | .quitAndWait => t.quitAndWait
  | .wait => t.wait
  | .sendQuit => t.sendQuit

/-- The calls that the scope makes, and its end. -/
def WorkerThread.scope (t : WorkerThread) : List ThreadCall → List ThreadEvent
  | [] => t.destroy
  | c :: calls => (t.call c).2 ++ (t.call c).1.scope calls

def lifetime (calls : List ThreadCall) : List ThreadEvent :=
  WorkerThread.new.2 ++ WorkerThread.new.1.scope calls

/-! ## The thread -/

/-- Starting a thread makes it something to be joined. -/
def ThreadEvent.use : ThreadEvent → Option (Use Unit)
  | .start => some (.acquire ())
  | .join => some (.release ())
  | .quit | .terminate => none

variable {t : WorkerThread} {calls : List ThreadCall} {events : List ThreadEvent}

/-- What a call leaves of the thread, and does with it. -/
theorem call_joinable (t : WorkerThread) (c : ThreadCall) :
    (t.call c).1.joinable = (t.joinable && (c == .sendQuit)) ∧
      (t.call c).2.filterMap ThreadEvent.use =
        if t.joinable && (c != .sendQuit) then [.release ()] else [] := by
  cases t with
  | mk joinable sentQuit =>
    cases c <;> cases joinable <;> cases sentQuit <;> decide

/-- **A thread that can be joined is joined once**, and one that cannot is left alone. -/
theorem scope_use : ∀ (calls : List ThreadCall) (t : WorkerThread),
    (t.scope calls).filterMap ThreadEvent.use = if t.joinable then [.release ()] else []
  | [], ⟨joinable, sentQuit⟩ => by
    cases joinable <;> cases sentQuit <;> rfl
  | c :: calls, t => by
    obtain ⟨hjoinable, huse⟩ := call_joinable t c
    rw [WorkerThread.scope, List.filterMap_append, huse, scope_use calls, hjoinable]
    cases t.joinable <;> cases c <;> rfl

theorem not_terminate_scope : ∀ (calls : List ThreadCall) (t : WorkerThread),
    .terminate ∉ t.scope calls
  | [], ⟨joinable, sentQuit⟩ => by
    cases joinable <;> cases sentQuit <;> decide
  | c :: calls, t => by
    have hcall : .terminate ∉ (t.call c).2 := by
      cases t with
      | mk joinable sentQuit => cases c <;> cases joinable <;> cases sentQuit <;> decide
    rw [WorkerThread.scope, List.mem_append, not_or]
    exact ⟨hcall, not_terminate_scope calls _⟩

/-! ## Telling the worker to quit -/

/-- The `quit` of the first `quitAndWait`, or of the destructor, when none was sent before. -/
def ownQuit (sentQuit : Bool) (calls : List ThreadCall) : Nat :=
  if sentQuit = true ∨ calls.find? (fun c => c != .wait) = some .sendQuit then 0 else 1

theorem count_quit_scope : ∀ (calls : List ThreadCall) (t : WorkerThread),
    (t.scope calls).count .quit = calls.count .sendQuit + ownQuit t.sentQuit calls
  | [], ⟨joinable, sentQuit⟩ => by
    cases joinable <;> cases sentQuit <;> rfl
  | c :: calls, ⟨joinable, sentQuit⟩ => by
    rw [WorkerThread.scope, List.count_append, count_quit_scope calls]
    cases c <;> cases joinable <;> cases sentQuit <;>
      simp [WorkerThread.call, WorkerThread.quitAndWait, WorkerThread.wait, WorkerThread.sendQuit,
        ownQuit] <;> omega

/-- Before each `join` the worker was told to quit. -/
def Told (told : Bool) (events : List ThreadEvent) : Prop :=
  ∀ before, before ++ [.join] <+: events → told = true ∨ .quit ∈ before

theorem told_quit (told : Bool) (events : List ThreadEvent) : Told told (.quit :: events) := by
  intro before h
  cases before with
  | nil => cases (List.cons_prefix_cons.mp h).1
  | cons e before =>
    rw [(List.cons_prefix_cons.mp h).1]
    exact .inr List.mem_cons_self

theorem told_join (told : Bool) (events : List ThreadEvent) :
    Told told (.join :: events) ↔ told = true := by
  constructor
  · intro htold
    simpa using htold [] (List.prefix_append [ThreadEvent.join] events)
  · exact fun ht _ _ => .inl ht

theorem told_start (told : Bool) (events : List ThreadEvent) :
    Told told (.start :: events) ↔ Told told events := by
  constructor
  · intro h before hbefore
    rcases h (.start :: before) (List.cons_prefix_cons.mpr ⟨rfl, hbefore⟩) with ht | hmem
    · exact .inl ht
    · exact .inr (by simpa using hmem)
  · intro h before hbefore
    cases before with
    | nil => cases (List.cons_prefix_cons.mp hbefore).1
    | cons e before =>
      rcases h before (List.cons_prefix_cons.mp hbefore).2 with ht | hmem
      · exact .inl ht
      · exact .inr (List.mem_cons_of_mem e hmem)

/-- **The worker was told**, unless the scope begins with a `wait`. -/
theorem told_scope (h : t.joinable = true) (calls : List ThreadCall) :
    Told t.sentQuit (t.scope calls) ↔ t.sentQuit = true ∨ calls.head? ≠ some .wait := by
  obtain ⟨joinable, sentQuit⟩ := t
  cases h
  cases calls with
  | nil =>
    cases sentQuit with
    | false => exact iff_of_true (told_quit _ _) (.inr nofun)
    | true => exact iff_of_true ((told_join _ _).mpr rfl) (.inl rfl)
  | cons c calls =>
    cases c with
    | sendQuit => exact iff_of_true (told_quit _ _) (.inr nofun)
    | wait => exact (told_join _ _).trans (by simp)
    | quitAndWait =>
      cases sentQuit with
      | false => exact iff_of_true (told_quit _ _) (.inr nofun)
      | true => exact iff_of_true ((told_join _ _).mpr rfl) (.inl rfl)

/-! ## The whole life -/

/-- **The life of a `WorkerThread`**, whatever its scope calls. The thread is joined once, and not
destroyed before; `quit` is sent by each `sendQuit` and once more when no `sendQuit` comes before
the first `quitAndWait`, be it that of the destructor; and no `join` comes before the worker was
told, unless the scope begins with a `wait`. -/
theorem lifetime_exact (calls : List ThreadCall) :
    Tidy ((lifetime calls).filterMap ThreadEvent.use) ∧ .terminate ∉ lifetime calls ∧
      (lifetime calls).count .quit = calls.count .sendQuit + ownQuit false calls ∧
      (Told false (lifetime calls) ↔ calls.head? ≠ some .wait) := by
  have hstart : lifetime calls = .start :: WorkerThread.new.1.scope calls := rfl
  refine ⟨?_, ?_, ?_, ?_⟩
  · rw [tidy_iff, hstart, List.filterMap_cons_some (show ThreadEvent.use .start = _ from rfl),
      scope_use]
    rfl
  · rw [hstart, List.mem_cons, not_or]
    exact ⟨nofun, not_terminate_scope calls _⟩
  · rw [hstart, List.count_cons_of_ne (show ThreadEvent.start ≠ .quit from nofun),
      count_quit_scope]
    rfl
  · have htold := @told_scope WorkerThread.new.1 rfl calls
    rw [hstart, told_start]
    simpa [WorkerThread.new] using htold

end OsProg.TestHelpers
