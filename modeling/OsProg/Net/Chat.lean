import OsProg.Net.Accept
import OsProg.Net.Lifetime

/-!
# The chat server

`l08/chat.cpp`: the server of hello as an object. It differs from hello in one line on `stderr`,
in closing the listening socket, and in its exit status. Neither of them ever closes the socket of
a client, so that the descriptors of a process bound the number of clients that it can take.

* `chat_hello` — what chat does, in terms of what hello does
* `clients_limited` — no server waits for more clients than it has descriptors
-/

namespace OsProg.Net

open OsProg.Infra

/-! ## `l08/chat.cpp` -/

/-- `main` of chat. Its `server` is destroyed on return, and the value is passed to `exit`. -/
def Chat.main (argv : List String) (sys : System) : List Event × Status :=
  match argv with
  | _ :: port :: _ =>
    match Server.new.listen (BitVec.ofInt 16 (atoi port)) sys with
    | (server, events, .returned value) => (events ++ server.destroy, .exited value)
    | (_, events, status) => (events, status)
  | _ => ([.fprintf "USAGE:\n", .fprintf "chat PORT_NUMBER\n"], .exited EXIT_FAILURE)

/-! ## Chat and hello -/

/-- The line that chat writes once it listens. -/
def announce (port : BitVec 16) : Event → List Event
  | .listen sock backlog call => .listen sock backlog call ::
      if call.result ≠ -1 then [.fprintf s!"Listenning on port {port.toNat}\n"] else []
  | e => [e]

/-- What chat does when hello just ends. -/
def cleanup (sys : System) : Status → List Event
  | .waiting => []
  | _ => if sys.socket.result ≠ -1 then [.close sys.socket.result] else []

/-- The status of chat where hello exits with `EXIT_FAILURE`. -/
def failed : Status → Status
  | .waiting => .waiting
  | _ => .exited (-1)

theorem announce_acceptLoop (port : BitVec 16) (stop : Status) (sock : Int) :
    ∀ accepts : List Accept,
      (acceptLoop stop sock accepts).1.flatMap (announce port) = (acceptLoop stop sock accepts).1
  | [] => rfl
  | call :: accepts => by
    have ih := announce_acceptLoop port stop sock accepts
    unfold acceptLoop
    split
    · rfl
    · dsimp only
      split
      · simp [announce, ih]
      · simp [announce, ih]

theorem acceptLoop_status (stop : Status) (sock : Int) (accepts : List Accept) :
    (acceptLoop stop sock accepts).2 = .waiting ∨ (acceptLoop stop sock accepts).2 = stop := by
  rw [acceptLoop_eq]
  dsimp only
  split
  · exact .inr rfl
  · exact .inl rfl

/-- How chat ends when its `listen` returns, and that it waits when that waits. -/
theorem chat_of_listen {port : String} {sys : System} {events : List Event} {status : Status}
    (h : (Server.new.listen (BitVec.ofInt 16 (atoi port)) sys).2 = (events, status))
    (name : String) (args : List String) :
    (∀ value, status = .returned value →
        Chat.main (name :: port :: args) sys =
          (events ++ (Server.mk sys.socket.result).destroy, .exited value)) ∧
      (status = .waiting → Chat.main (name :: port :: args) sys = (events, .waiting)) := by
  have hsock := sock_listen Server.new (BitVec.ofInt 16 (atoi port), sys)
  unfold Chat.main
  dsimp only at hsock ⊢
  generalize Server.new.listen (BitVec.ofInt 16 (atoi port)) sys = result at h hsock
  obtain ⟨server, events', status'⟩ := result
  cases h
  obtain ⟨sock⟩ := server
  obtain rfl : sock = sys.socket.result := hsock
  exact ⟨fun value hvalue => by subst hvalue; rfl, fun hwaiting => by subst hwaiting; rfl⟩

/-- **Chat is hello with a line and a destructor**, for every port and whatever the system
answers. -/
theorem chat_hello (name port : String) (args : List String) (sys : System) :
    Chat.main (name :: port :: args) sys =
      ((main (name :: port :: args) sys).1.flatMap (announce (BitVec.ofInt 16 (atoi port))) ++
          cleanup sys (main (name :: port :: args) sys).2,
        failed (main (name :: port :: args) sys).2) := by
  by_cases hsocket : sys.socket.result = -1
  · simp [Chat.main, Server.listen, main, err, hsocket, announce, cleanup, failed, Server.destroy]
  · by_cases hbind : sys.bind.result = -1
    · simp [Chat.main, Server.listen, main, err, hsocket, hbind, announce, cleanup, failed,
        Server.destroy]
    · by_cases hlisten : sys.listen.result = -1
      · simp [Chat.main, Server.listen, main, err, hsocket, hbind, hlisten, announce, cleanup,
          failed, Server.destroy]
      · -- both go through the same loop, which they leave in different ways
        obtain ⟨hreturned, hwaiting⟩ := chat_of_listen
          (listen_eq hsocket hbind hlisten (BitVec.ofInt 16 (atoi port)) Server.new) name args
        have hlistening : (bound (BitVec.ofInt 16 (atoi port)) sys).flatMap
            (announce (BitVec.ofInt 16 (atoi port))) =
              listening (BitVec.ofInt 16 (atoi port)) sys := by
          simp [bound, listening, announce, hlisten]
        rw [main_eq hsocket hbind hlisten, List.flatMap_append, announce_acceptLoop, hlistening]
        rw [acceptLoop_eq] at hreturned hwaiting ⊢
        generalize eventLoop Accept.failed (handled sys.socket.result)
          (gaveUp sys.socket.result) sys.accepts = loop at hreturned hwaiting ⊢
        obtain ⟨events, stopped⟩ := loop
        cases stopped with
        | false => simpa [cleanup, failed] using hwaiting rfl
        | true => simpa [cleanup, failed, Server.destroy, hsocket] using hreturned (-1) rfl

/-! ## Clients -/

/-- What an event does with descriptors of any kind. -/
def Event.descriptor : Event → Option (Use Int)
  | .socket call => if call.result ≠ -1 then some (.acquire call.result) else none
  | .accept _ call => if call.clientSock ≠ -1 then some (.acquire call.clientSock) else none
  | .close fd => some (.release fd)
  | _ => none

def descriptors (events : List Event) : List (Use Int) := events.filterMap Event.descriptor

/-- The free descriptors of a process that may have `limit`, of which the standard streams use
the first three. -/
def table (limit : Nat) : List Int := (List.range' 3 (limit - 3)).map Int.ofNat

/-- The sockets of the server and of its clients. -/
def sockets (sys : System) : List Int :=
  sys.socket.result :: sys.accepts.map Accept.clientSock

/-- A loop that waits has taken a client with each call. -/
theorem acceptLoop_waiting {stop : Status} (hstop : stop ≠ .waiting) {sock : Int}
    {accepts : List Accept} (h : (acceptLoop stop sock accepts).2 = .waiting) :
    (∀ call ∈ accepts, call.clientSock ≠ -1) ∧
      (acceptLoop stop sock accepts).1 = accepts.flatMap (handled sock) := by
  rw [acceptLoop_eq] at h ⊢
  -- every failure ends the loop, so there was none
  have hrunning : (eventLoop Accept.failed (handled sock) (gaveUp sock) accepts).2 = false := by
    by_contra hstopped
    rw [Bool.not_eq_false] at hstopped
    exact hstop (by simpa [hstopped] using h)
  obtain ⟨hall, hevents⟩ := eventLoop_running hrunning
  exact ⟨fun call hcall => of_decide_eq_false (hall call hcall), hevents⟩

theorem descriptors_handled (sock : Int) {accepts : List Accept}
    (h : ∀ call ∈ accepts, call.clientSock ≠ -1) :
    descriptors (accepts.flatMap (handled sock)) =
      (accepts.map Accept.clientSock).map .acquire := by
  induction accepts with
  | nil => rfl
  | cons call accepts ih =>
    obtain ⟨hcall, haccepts⟩ := List.forall_mem_cons.mp h
    rw [List.map_cons, List.map_cons, ← ih haccepts]
    simp [descriptors, List.filterMap_cons, handled, Event.descriptor, hcall]

theorem descriptors_append (events events' : List Event) :
    descriptors (events ++ events') = descriptors events ++ descriptors events' :=
  List.filterMap_append

section Clients

variable {name port : String} {args : List String} {sys : System}

theorem descriptors_bound (hsocket : sys.socket.result ≠ -1) (port : BitVec 16) :
    descriptors (bound port sys) = [.acquire sys.socket.result] := by
  simp [descriptors, bound, Event.descriptor, hsocket]

/-- Hello waits in its loop only. -/
theorem main_waiting (h : (main (name :: port :: args) sys).2 = .waiting) :
    sys.socket.result ≠ -1 ∧ (∀ call ∈ sys.accepts, call.clientSock ≠ -1) ∧
      (main (name :: port :: args) sys).1 = bound (BitVec.ofInt 16 (atoi port)) sys ++
        sys.accepts.flatMap (handled sys.socket.result) := by
  by_cases hsocket : sys.socket.result = -1
  · simp [main, err, hsocket] at h
  · by_cases hbind : sys.bind.result = -1
    · simp [main, err, hsocket, hbind] at h
    · by_cases hlisten : sys.listen.result = -1
      · simp [main, err, hsocket, hbind, hlisten] at h
      · rw [main_eq hsocket hbind hlisten] at h ⊢
        obtain ⟨hclients, hevents⟩ := acceptLoop_waiting Status.noConfusion h
        exact ⟨hsocket, hclients, by rw [hevents]⟩

/-- And so does chat. -/
theorem chat_waiting (h : (Chat.main (name :: port :: args) sys).2 = .waiting) :
    sys.socket.result ≠ -1 ∧ (∀ call ∈ sys.accepts, call.clientSock ≠ -1) ∧
      (Chat.main (name :: port :: args) sys).1 = listening (BitVec.ofInt 16 (atoi port)) sys ++
        sys.accepts.flatMap (handled sys.socket.result) := by
  by_cases hsocket : sys.socket.result = -1
  · simp [Chat.main, Server.listen, hsocket] at h
  · by_cases hbind : sys.bind.result = -1
    · simp [Chat.main, Server.listen, hsocket, hbind] at h
    · by_cases hlisten : sys.listen.result = -1
      · simp [Chat.main, Server.listen, hsocket, hbind, hlisten] at h
      · obtain ⟨hreturned, hwaiting⟩ := chat_of_listen
          (listen_eq hsocket hbind hlisten (BitVec.ofInt 16 (atoi port)) Server.new) name args
        rcases acceptLoop_status (.returned (-1)) sys.socket.result sys.accepts with hloop | hloop
        · obtain ⟨hclients, hevents⟩ := acceptLoop_waiting Status.noConfusion hloop
          exact ⟨hsocket, hclients, by rw [hwaiting hloop, hevents]⟩
        · rw [hreturned _ hloop] at h
          cases h

/-- While hello waits, all sockets are in use. -/
theorem descriptors_main (h : (main (name :: port :: args) sys).2 = .waiting) :
    descriptors (main (name :: port :: args) sys).1 = (sockets sys).map .acquire := by
  obtain ⟨hsocket, hclients, hevents⟩ := main_waiting h
  rw [hevents, descriptors_append, descriptors_bound hsocket, descriptors_handled _ hclients]
  rfl

/-- And so it is with chat. -/
theorem descriptors_chat (h : (Chat.main (name :: port :: args) sys).2 = .waiting) :
    descriptors (Chat.main (name :: port :: args) sys).1 = (sockets sys).map .acquire := by
  obtain ⟨hsocket, hclients, hevents⟩ := chat_waiting h
  rw [hevents, listening, descriptors_append, descriptors_append, descriptors_bound hsocket,
    descriptors_handled _ hclients]
  rfl

theorem run_sockets (sys : System) :
    ((sockets sys).map Use.acquire).foldlM Use.step [] = some (sockets sys).reverse := by
  rw [run_acquires, List.append_nil]

theorem length_table (limit : Nat) : (table limit).length = limit - 3 := by
  rw [table, List.length_map, List.length_range']

/-- What the sockets of a waiting server leave free. -/
theorem sockets_limited {limit : Nat} (h : Allots (table limit) ((sockets sys).map .acquire)) :
    sys.accepts.length + 4 ≤ limit := by
  have hle := held_length_le h (run_sockets sys)
  rw [List.length_reverse, length_table, sockets, List.length_cons, List.length_map] at hle
  omega

end Clients

/-- **A server takes no more clients than it has descriptors**: since it never closes the socket
of a client, it has ended by the time that `accept` has returned `limit - 3` times. -/
theorem clients_limited (name port : String) (args : List String) (sys : System) (limit : Nat) :
    (Allots (table limit) (descriptors (main (name :: port :: args) sys).1) →
        (main (name :: port :: args) sys).2 = .waiting → sys.accepts.length + 4 ≤ limit) ∧
      (Allots (table limit) (descriptors (Chat.main (name :: port :: args) sys).1) →
        (Chat.main (name :: port :: args) sys).2 = .waiting → sys.accepts.length + 4 ≤ limit) := by
  constructor
  · intro hallots hwaiting
    rw [descriptors_main hwaiting] at hallots
    exact sockets_limited hallots
  · intro hallots hwaiting
    rw [descriptors_chat hwaiting] at hallots
    exact sockets_limited hallots

/-- Two clients, and the table is full. -/
def twoClients : System where
  socket := ⟨3, 0⟩
  bind := ⟨0, 0⟩
  listen := ⟨0, 0⟩
  accepts := [⟨4, 0, ⟨AF_INET, ⟨127, 0, 0, 1⟩, 0xd204⟩⟩, ⟨5, 0, ⟨AF_INET, ⟨127, 0, 0, 1⟩, 0xd304⟩⟩]

theorem clients_limited_two : twoClients.accepts.length + 4 ≤ 6 := by
  refine (clients_limited "chat" "80" [] twoClients 6).2 ?_ rfl
  have hsockets : descriptors (Chat.main ["chat", "80"] twoClients).1 = [3, 4, 5].map .acquire :=
    descriptors_chat rfl
  rw [hsockets, allots_acquires_iff]
  decide

end OsProg.Net
