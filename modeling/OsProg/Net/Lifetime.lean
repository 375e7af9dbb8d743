import OsProg.Infra.Ownership
import OsProg.Net.Model

/-!
# Who closes the listening socket

The destructor of a `Server` closes its `sock`, and that is the only `close`. Every `listen`
overwrites `sock` with the result of a new `socket()`, so that the socket of an attempt that
failed later on is forgotten when the next attempt begins.

* `held_lifetime` — what is still open after the destructor
* `closed_once_iff` — every socket is closed exactly when only the last attempt got one
-/

namespace OsProg.Net

open OsProg.Infra

/-! ## The life of a server -/

/-- One object: the calls of `listen`, as far as they return, and the destructor. -/
def Server.lifetime (server : Server) : List (BitVec 16 × System) → List Event
  | [] => server.destroy
  | (port, sys) :: calls =>
    match server.listen port sys with
    | (server, events, .returned _) => events ++ server.lifetime calls
    | (_, events, _) => events

/-- What an event does with listening sockets. The descriptors that `accept` returns are
those of connections. -/
def Event.use : Event → Option (Use Int)
  | .socket call => if call.result ≠ -1 then some (.acquire call.result) else none
  | .close sock => some (.release sock)
  | _ => none

def uses (events : List Event) : List (Use Int) := events.filterMap Event.use

/-- A call of `listen` that ends in one of its failures. -/
def Fails (call : BitVec 16 × System) : Prop :=
  ∀ server : Server, (server.listen call.1 call.2).2.2 = .returned (-1)

/-! ## One call -/

/-- The socket of a call, if it got one. -/
def opened (call : BitVec 16 × System) : List Int :=
  if call.2.socket.result ≠ -1 then [call.2.socket.result] else []

variable {server : Server} {call : BitVec 16 × System} {calls : List (BitVec 16 × System)}

theorem uses_append (events events' : List Event) :
    uses (events ++ events') = uses events ++ uses events' := List.filterMap_append

theorem uses_acceptLoop (stop : Status) (sock : Int) : ∀ accepts : List Accept,
    uses (acceptLoop stop sock accepts).1 = []
  | [] => rfl
  | call :: accepts => by
    have ih := uses_acceptLoop stop sock accepts
    unfold acceptLoop
    split
    · rfl
    · dsimp only
      split
      · exact ih
      · exact ih

/-- A call acquires its socket and releases nothing, least of all the socket from before. -/
theorem uses_listen (server : Server) (call : BitVec 16 × System) :
    uses (server.listen call.1 call.2).2.1 = (opened call).map .acquire := by
  unfold Server.listen opened
  by_cases hs : call.2.socket.result = -1
  · simp [hs, uses, Event.use]
  · have hsock : uses [.socket call.2.socket] = [.acquire call.2.socket.result] := by
      simp [hs, uses, Event.use]
    simp only [hs, if_false, ne_eq, not_false_eq_true, if_true, List.map_cons, List.map_nil]
    split
    · exact hsock
    · split
      · exact hsock
      · dsimp only
        rw [uses_append, uses_acceptLoop, List.append_nil]
        exact hsock

theorem sock_listen (server : Server) (call : BitVec 16 × System) :
    (server.listen call.1 call.2).1.sock = call.2.socket.result := by
  unfold Server.listen
  dsimp only
  split
  · rfl
  · split
    · rfl
    · split
      · rfl
      · rfl

theorem uses_destroy (server : Server) :
    uses server.destroy = if server.sock ≠ -1 then [.release server.sock] else [] := by
  unfold Server.destroy
  split
  · rfl
  · rfl

theorem lifetime_cons (h : Fails call) :
    server.lifetime (call :: calls) = (server.listen call.1 call.2).2.1 ++
      (server.listen call.1 call.2).1.lifetime calls := by
  have hr := h server
  rw [Server.lifetime]
  generalize server.listen call.1 call.2 = result at hr
  obtain ⟨server', events, status⟩ := result
  cases hr
  rfl

/-! ## All of them -/

/-- The server that the destructor finds. -/
def Server.last (server : Server) (calls : List (BitVec 16 × System)) : Server :=
  calls.foldl (fun server call => (server.listen call.1 call.2).1) server

theorem sock_last (server : Server) (calls : List (BitVec 16 × System))
    (call : BitVec 16 × System) :
    (server.last (calls ++ [call])).sock = call.2.socket.result := by
  unfold Server.last
  rw [List.foldl_append]
  exact sock_listen _ call

theorem uses_lifetime (h : ∀ call ∈ calls, Fails call) (server : Server) :
    uses (server.lifetime calls) =
      (calls.flatMap opened).map .acquire ++ uses (server.last calls).destroy := by
  induction calls generalizing server with
  | nil => rfl
  | cons call calls ih =>
    obtain ⟨hcall, hcalls⟩ := List.forall_mem_cons.mp h
    rw [lifetime_cons hcall, uses_append, uses_listen, ih hcalls, List.flatMap_cons,
      List.map_append, List.append_assoc]
    rfl

/-- After the destructor, the sockets of all calls but the last are still open. -/
theorem held_lifetime (h : ∀ call ∈ calls, Fails call) :
    (uses (Server.new.lifetime calls)).foldlM Use.step [] =
      some (calls.dropLast.flatMap opened).reverse := by
  rw [uses_lifetime h]
  rcases List.eq_nil_or_concat' calls with rfl | ⟨calls, call, rfl⟩
  · rfl
  · rw [List.dropLast_concat, List.flatMap_append, uses_destroy, sock_last]
    by_cases hs : call.2.socket.result = -1
    · simp [opened, hs, run_acquires]
    · simp only [opened, hs, ne_eq, not_false_eq_true, if_true, List.flatMap_cons,
        List.flatMap_nil, List.append_nil]
      exact run_release_last _ _

/-- **Every socket is closed once** exactly when none of the earlier attempts got one. -/
theorem closed_once_iff (calls : List (BitVec 16 × System)) (h : ∀ call ∈ calls, Fails call) :
    Tidy (uses (Server.new.lifetime calls)) ↔
      ∀ call ∈ calls.dropLast, call.2.socket.result = -1 := by
  rw [tidy_iff, held_lifetime h, Option.some.injEq, List.reverse_eq_nil_iff,
    List.flatMap_eq_nil_iff]
  refine forall₂_congr fun call _ => ?_
  unfold opened
  split
  case isTrue hs => simpa using hs
  case isFalse hs => simpa using hs

/-! ## Two attempts -/

def EMFILE : Int := 24
def EADDRINUSE : Int := 98

/-- There is no descriptor left. -/
def noSocket : System := ⟨⟨-1, EMFILE⟩, ⟨0, 0⟩, ⟨0, 0⟩, []⟩

/-- The port is taken. -/
def noPort (sock : Int) : System := ⟨⟨sock, 0⟩, ⟨-1, EADDRINUSE⟩, ⟨0, 0⟩, []⟩

theorem fails_noSocket (port : BitVec 16) : Fails (port, noSocket) := fun _ => rfl

theorem fails_noPort (port : BitVec 16) {sock : Int} (hs : sock ≠ -1) :
    Fails (port, noPort sock) := by
  intro server
  simp [Server.listen, noPort, hs]

/-- The first attempt has no socket to lose. -/
theorem closed_once_iff_retry :
    Tidy (uses (Server.new.lifetime [(80, noSocket), (80, noPort 3)])) := by
  refine (closed_once_iff _ ?_).mpr ?_
  · simp [fails_noSocket, fails_noPort]
  · simp [noSocket]

/-- The port is taken twice, and the socket of the first attempt is never closed. -/
theorem not_closed_once : ¬∀ calls : List (BitVec 16 × System), (∀ call ∈ calls, Fails call) →
    Tidy (uses (Server.new.lifetime calls)) := by
  intro h
  have hfails : ∀ call ∈ [((80 : BitVec 16), noPort 3), (80, noPort 4)], Fails call := by
    simp [fails_noPort]
  have hheld := (held_lifetime hfails).symm.trans (tidy_iff.mp (h _ hfails))
  exact absurd hheld (by decide)

end OsProg.Net
