import OsProg.Infra.Printf
import OsProg.Net.Chat

/-!
# The log of a server

What a server writes to `stderr` while it waits: chat a line with its port, and both servers a line
for each client. The lines follow each other without anything between them, and they are read in
one way only (`log_inj`), so that the log tells who has connected (`stderr_tells_clients`).
-/

namespace OsProg.Net

open OsProg.Infra

/-- What `fprintf` has written. A server that waits has written nothing else. -/
def stderr (events : List Event) : Bytes :=
  events.flatMap fun
    | .fprintf text => ascii text
    | _ => []

/-- The address of a client, and its port. -/
abbrev Peer := InAddr × BitVec 16

def Accept.peer (call : Accept) : Peer :=
  (call.clientAddr.sin_addr, ntohs call.clientAddr.sin_port)

/-- The clients of a server that waits. -/
def clients (sys : System) : List Peer := sys.accepts.map Accept.peer

/-! ## One line -/

def line (peer : Peer) : Bytes :=
  ascii s!"New connection from {inet_ntoa peer.1}:{peer.2.toNat}\n"

theorem line_append (peer : Peer) (rest : Bytes) :
    line peer ++ rest = ascii "New connection from " ++
      (formatD peer.1.a.toNat ++ 0x2E :: (formatD peer.1.b.toNat ++ 0x2E ::
        (formatD peer.1.c.toNat ++ 0x2E :: (formatD peer.1.d.toNat ++ 0x3A ::
          (formatD peer.2.toNat ++ 0x0A :: rest))))) := by
  unfold line inet_ntoa
  simp only [toString_text, ascii_append, ascii_toString, List.append_assoc]
  rfl

theorem toNat_inj {w : Nat} {m n : BitVec w} (h : (m.toNat : Int) = n.toNat) : m = n :=
  BitVec.eq_of_toNat_eq (Int.ofNat.inj h)

/-- A line ends where the next one begins, and tells the client. -/
theorem line_inj {p q : Peer} {r r' : Bytes} (h : line p ++ r = line q ++ r') :
    p = q ∧ r = r' := by
  obtain ⟨⟨a, b, c, d⟩, port⟩ := p
  obtain ⟨⟨a', b', c', d'⟩, port'⟩ := q
  rw [line_append, line_append] at h
  -- a dot, a colon or the newline ends each number
  obtain ⟨ha, h⟩ := formatD_append_inj (by decide) (by decide) (List.append_cancel_left h)
  obtain ⟨hb, h⟩ := formatD_append_inj (by decide) (by decide) h
  obtain ⟨hc, h⟩ := formatD_append_inj (by decide) (by decide) h
  obtain ⟨hd, h⟩ := formatD_append_inj (by decide) (by decide) h
  obtain ⟨hport, hrest⟩ := formatD_append_inj (by decide) (by decide) h
  obtain rfl : a = a' := toNat_inj ha
  obtain rfl : b = b' := toNat_inj hb
  obtain rfl : c = c' := toNat_inj hc
  obtain rfl : d = d' := toNat_inj hd
  obtain rfl : port = port' := toNat_inj hport
  exact ⟨rfl, hrest⟩

theorem line_ne_nil (p : Peer) : line p ≠ [] := by
  rw [← List.append_nil (line p), line_append]
  simp [formatD]

theorem selfDelimiting_line : SelfDelimiting (fun _ => True) line :=
  ⟨fun _ => line_ne_nil _, fun _ _ => line_inj⟩

/-! ## The log -/

/-- **A log is read in one way only.** -/
theorem log_inj {ps qs : List Peer} (h : ps.flatMap line = qs.flatMap line) : ps = qs :=
  selfDelimiting_line.flatMap_inj (fun _ _ => trivial) (fun _ _ => trivial) h

theorem stderr_append (events events' : List Event) :
    stderr (events ++ events') = stderr events ++ stderr events' := List.flatMap_append

theorem stderr_bound (port : BitVec 16) (sys : System) : stderr (bound port sys) = [] := rfl

theorem stderr_accept (sock : Int) (call : Accept) (events : List Event) :
    stderr (.accept sock call :: events) = stderr events := rfl

theorem stderr_fprintf (text : String) : stderr [.fprintf text] = ascii text :=
  List.append_nil _

theorem stderr_handled (sock : Int) {accepts : List Accept}
    (h : ∀ call ∈ accepts, call.clientSock ≠ -1) :
    stderr (accepts.flatMap (handled sock)) = (accepts.map Accept.peer).flatMap line := by
  induction accepts with
  | nil => rfl
  | cons call accepts ih =>
    obtain ⟨hcall, haccepts⟩ := List.forall_mem_cons.mp h
    have hline : stderr (handled sock call) = line call.peer := by
      rw [handled, if_pos hcall, stderr_accept, stderr_fprintf]
      rfl
    rw [List.flatMap_cons, List.map_cons, List.flatMap_cons, stderr_append, ih haccepts, hline]

/-- What chat writes before the lines about its clients. -/
theorem stderr_listening (port : BitVec 16) (sys : System) (log : Bytes) :
    stderr (listening port sys) ++ log =
      ascii "Listenning on port " ++ (formatD port.toNat ++ 0x0A :: log) := by
  rw [listening, stderr_append, stderr_bound, List.nil_append, stderr_fprintf]
  simp only [toString_text, ascii_append, ascii_toString, List.append_assoc]
  rfl

section Waiting

variable {name port : String} {args : List String} {sys : System}

theorem stderr_main (h : (main (name :: port :: args) sys).2 = .waiting) :
    stderr (main (name :: port :: args) sys).1 = (clients sys).flatMap line := by
  obtain ⟨-, hclients, hevents⟩ := main_waiting h
  rw [hevents, stderr_append, stderr_bound, stderr_handled _ hclients]
  rfl

theorem stderr_chat (h : (Chat.main (name :: port :: args) sys).2 = .waiting) :
    stderr (Chat.main (name :: port :: args) sys).1 = ascii "Listenning on port " ++
      (formatD (BitVec.ofInt 16 (atoi port)).toNat ++ 0x0A :: (clients sys).flatMap line) := by
  obtain ⟨-, hclients, hevents⟩ := chat_waiting h
  rw [hevents, stderr_append, stderr_handled _ hclients, stderr_listening]
  rfl

end Waiting

/-- **The log tells the clients.** Two servers that wait have written the same exactly when the
same clients have connected to them, in the same order; and two chat servers have to listen on the
same port as well. -/
theorem stderr_tells_clients (name name' port port' : String) (args args' : List String)
    (sys sys' : System) :
    ((main (name :: port :: args) sys).2 = .waiting →
      (main (name' :: port' :: args') sys').2 = .waiting →
        (stderr (main (name :: port :: args) sys).1 =
            stderr (main (name' :: port' :: args') sys').1 ↔ clients sys = clients sys')) ∧
      ((Chat.main (name :: port :: args) sys).2 = .waiting →
        (Chat.main (name' :: port' :: args') sys').2 = .waiting →
          (stderr (Chat.main (name :: port :: args) sys).1 =
              stderr (Chat.main (name' :: port' :: args') sys').1 ↔
            BitVec.ofInt 16 (atoi port) = BitVec.ofInt 16 (atoi port') ∧
              clients sys = clients sys')) := by
  constructor
  · intro h h'
    rw [stderr_main h, stderr_main h']
    constructor
    · intro hlog
      exact log_inj hlog
    · intro hclients
      rw [hclients]
  · intro h h'
    rw [stderr_chat h, stderr_chat h']
    constructor
    · intro hlog
      obtain ⟨hport, hlog⟩ :=
        formatD_append_inj (by decide) (by decide) (List.append_cancel_left hlog)
      exact ⟨toNat_inj hport, log_inj hlog⟩
    · rintro ⟨hport, hclients⟩
      rw [hport, hclients]

theorem stderr_tells_clients_two :
    stderr (Chat.main ["chat", "80"] twoClients).1 = stderr (Chat.main ["chat", "080"] twoClients).1 :=
  ((stderr_tells_clients "chat" "chat" "80" "080" [] [] twoClients twoClients).2 rfl rfl).mpr
    ⟨by decide, rfl⟩

end OsProg.Net
