import OsProg.Infra.EventLoop
import OsProg.Net.Model

/-!
# Which failures of `accept` a server survives

`EAGAIN` and `EINTR` are passing troubles, and the condition of both servers names them. But
`errno != EAGAIN || errno != EINTR` holds for every `errno`, so that each failure ends the
loop.

* `acceptLoop_eq` — the loop of the code is an event loop that any failure stops
* `Survives` — what the condition is there for
* `survives_iff` — the servers do that exactly when the first failure is not a passing one
-/

namespace OsProg.Net

open OsProg.Infra

/-! ## The loop as an event loop -/

def Accept.failed (call : Accept) : Bool := call.clientSock = -1

/-- A failure that is neither `EAGAIN` nor `EINTR`. -/
def Accept.fatal (call : Accept) : Bool :=
  call.clientSock = -1 ∧ call.errno ≠ EAGAIN ∧ call.errno ≠ EINTR

/-- A call of `accept` after which the loop goes on. -/
def handled (sock : Int) (call : Accept) : List Event :=
  .accept sock call ::
    if call.clientSock ≠ -1 then [.fprintf (newConnection call.clientAddr)] else []

/-- A call of `accept` that ends the loop. -/
def gaveUp (sock : Int) (call : Accept) : List Event :=
  [.accept sock call, .perror "accept" call.errno]

/-- No `errno` is both. -/
theorem not_both (errno : Int) : errno ≠ EAGAIN ∨ errno ≠ EINTR := by
  by_cases h : errno = EAGAIN
  · right
    rw [h]
    decide
  · exact .inl h

theorem acceptLoop_eq (stop : Status) (sock : Int) : ∀ history : List Accept,
    acceptLoop stop sock history =
      ((eventLoop Accept.failed (handled sock) (gaveUp sock) history).1,
        if (eventLoop Accept.failed (handled sock) (gaveUp sock) history).2 then stop
        else .waiting)
  | [] => rfl
  | call :: history => by
    unfold acceptLoop
    by_cases hc : call.clientSock = -1
    · have hf : call.failed = true := decide_eq_true hc
      rw [if_pos ⟨hc, not_both call.errno⟩, eventLoop_stop hf]
      rfl
    · have hf : call.failed = false := decide_eq_false hc
      rw [if_neg fun h => hc h.1, acceptLoop_eq stop sock history, eventLoop_handle hf, handled]
      simp only [ne_eq, hc, not_false_eq_true, if_true]
      rfl

/-- Giving up is seen from the events: `perror` follows, and no other call. -/
theorem visible (sock : Int) : Visible (handled sock) (gaveUp sock) := by
  intro stops call history h
  unfold gaveUp handled at h
  rw [List.cons_append] at h
  have h := (List.cons.inj h).2
  split at h
  · exact Event.noConfusion (List.cons.inj h).1
  · -- what follows a failure is another call of `accept`, if anything does
    rw [List.nil_append] at h
    cases history with
    | nil => cases h
    | cons call' history =>
      rw [eventLoop] at h
      split at h
      · exact Event.noConfusion (List.cons.inj h).1
      · exact Event.noConfusion (List.cons.inj h).1

/-! ## Surviving -/

/-- The loop handles every call before the first fatal failure, stops there, and waits if
there is none. `before` is what was done before the loop. -/
structure Survives (stop : Status) (before : List Event) (sys : System)
    (result : List Event × Status) : Prop where
  events : result.1 = before ++
    ((sys.accepts.takeWhile fun call => !call.fatal).flatMap (handled sys.socket.result) ++
      ((sys.accepts.find? Accept.fatal).map (gaveUp sys.socket.result)).getD [])
  status : result.2 = if (sys.accepts.find? Accept.fatal).isSome then stop else .waiting

/-- The first failure, if there is one, is not a passing one. -/
def FirstFailureFatal (history : List Accept) : Prop :=
  ∀ call, history.find? Accept.failed = some call → call.fatal = true

theorem failed_of_fatal (call : Accept) (h : call.fatal = true) : call.failed = true :=
  decide_eq_true (of_decide_eq_true h).1

theorem stopped_inj {stop : Status} (hstop : stop ≠ .waiting) {b b' : Bool}
    (h : (if b then stop else .waiting) = if b' then stop else .waiting) : b = b' := by
  cases b with
  | true =>
    cases b' with
    | true => rfl
    | false => exact absurd h hstop
  | false =>
    cases b' with
    | true => exact absurd h.symm hstop
    | false => rfl

theorem survives_loop_iff {stop : Status} (hstop : stop ≠ .waiting) (before : List Event)
    (sys : System) :
    Survives stop before sys (before ++ (acceptLoop stop sys.socket.result sys.accepts).1,
        (acceptLoop stop sys.socket.result sys.accepts).2) ↔
      FirstFailureFatal sys.accepts := by
  unfold FirstFailureFatal
  rw [← find?_eq_find?_iff failed_of_fatal, ← eventLoop_eq_iff (visible sys.socket.result),
    acceptLoop_eq]
  constructor
  · rintro ⟨hevents, hstatus⟩
    rw [eventLoop_eq Accept.fatal]
    refine Prod.ext (List.append_cancel_left hevents) ?_
    exact stopped_inj hstop hstatus
  · intro heq
    rw [heq, eventLoop_eq]
    exact ⟨rfl, rfl⟩

/-! ## The servers -/

/-- What hello does before its loop. -/
def bound (port : BitVec 16) (sys : System) : List Event :=
  [.socket sys.socket, .bind sys.socket.result ⟨AF_INET, INADDR_ANY, htons port⟩ sys.bind,
    .listen sys.socket.result 10 sys.listen]

/-- What `Server::listen` does before its loop. -/
def listening (port : BitVec 16) (sys : System) : List Event :=
  bound port sys ++ [.fprintf s!"Listenning on port {port.toNat}\n"]

section Servers

variable {sys : System}

theorem listen_eq (hsocket : sys.socket.result ≠ -1) (hbind : sys.bind.result ≠ -1)
    (hlisten : sys.listen.result ≠ -1) (port : BitVec 16) (server : Server) :
    (server.listen port sys).2 =
      (listening port sys ++ (acceptLoop (.returned (-1)) sys.socket.result sys.accepts).1,
        (acceptLoop (.returned (-1)) sys.socket.result sys.accepts).2) := by
  unfold Server.listen
  simp only [if_neg hsocket, if_neg hbind, if_neg hlisten]
  rfl

theorem main_eq (hsocket : sys.socket.result ≠ -1) (hbind : sys.bind.result ≠ -1)
    (hlisten : sys.listen.result ≠ -1) (name port : String) (args : List String) :
    main (name :: port :: args) sys =
      (bound (BitVec.ofInt 16 (atoi port)) sys ++
          (acceptLoop (.exited EXIT_FAILURE) sys.socket.result sys.accepts).1,
        (acceptLoop (.exited EXIT_FAILURE) sys.socket.result sys.accepts).2) := by
  unfold main
  simp only [if_neg hsocket, if_neg hbind, if_neg hlisten]
  rfl

/-- **When the servers survive.** Once it listens, each server handles every connection
before the first fatal failure and stops there, exactly when no passing failure comes
before it. -/
theorem survives_iff (hsocket : sys.socket.result ≠ -1) (hbind : sys.bind.result ≠ -1)
    (hlisten : sys.listen.result ≠ -1) :
    (∀ (port : BitVec 16) (server : Server),
      Survives (.returned (-1)) (listening port sys) sys (server.listen port sys).2 ↔
        FirstFailureFatal sys.accepts) ∧
    ∀ (name port : String) (args : List String),
      Survives (.exited EXIT_FAILURE) (bound (BitVec.ofInt 16 (atoi port)) sys) sys
          (main (name :: port :: args) sys) ↔
        FirstFailureFatal sys.accepts := by
  constructor
  · intro port server
    rw [listen_eq hsocket hbind hlisten]
    exact survives_loop_iff Status.noConfusion _ sys
  · intro name port args
    rw [main_eq hsocket hbind hlisten]
    exact survives_loop_iff Status.noConfusion _ sys

end Servers

/-- One client, and then the process is out of descriptors. -/
def exhausted : System where
  socket := ⟨3, 0⟩
  bind := ⟨0, 0⟩
  listen := ⟨0, 0⟩
  accepts := [⟨4, 0, ⟨AF_INET, ⟨127, 0, 0, 1⟩, 0xd204⟩⟩, ⟨-1, 24, ⟨0, INADDR_ANY, 0⟩⟩]

theorem survives_exhausted : Survives (.returned (-1)) (listening 80 exhausted) exhausted
    (Server.new.listen 80 exhausted).2 := by
  refine ((survives_iff ?_ ?_ ?_).1 80 Server.new).mpr ?_
  · decide
  · decide
  · decide
  · intro call hcall
    cases hcall
    rfl

/-- A signal comes first, and a client after it. -/
def interrupted : System :=
  { exhausted with
    accepts := [⟨-1, EINTR, ⟨0, INADDR_ANY, 0⟩⟩, ⟨4, 0, ⟨AF_INET, ⟨127, 0, 0, 1⟩, 0xd204⟩⟩] }

theorem not_survives_interrupted :
    ¬ Survives (.returned (-1)) (listening 80 interrupted) interrupted
        (Server.new.listen 80 interrupted).2 ∧
    ¬ Survives (.exited EXIT_FAILURE) (bound 80 interrupted) interrupted
        (main ["hello", "80"] interrupted) := by
  constructor
  · intro h
    exact Status.noConfusion h.status
  · intro h
    exact Status.noConfusion h.status

end OsProg.Net
