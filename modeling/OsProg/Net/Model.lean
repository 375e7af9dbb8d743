import Mathlib.Data.List.Basic

/-!
# The TCP servers

`l08/Server.cpp` and `l06/hello.cpp`. What the system answers is given: the outcomes of
`socket`, `bind` and `listen`, and those of `accept` so far. What a server does is the list
of its system calls and of the lines that it writes to `stderr`.
-/

namespace OsProg.Net

/-! ## System calls -/

def EINTR : Int := 4
def EAGAIN : Int := 11
def EXIT_FAILURE : Int := 1
def AF_INET : Nat := 2

/-- `htons` and `ntohs` of a little-endian host. -/
def htons (n : BitVec 16) : BitVec 16 := n <<< 8 ||| n >>> 8

abbrev ntohs := htons

/-- `struct in_addr`: the bytes of the address, in network order. -/
structure InAddr where
  a : BitVec 8
  b : BitVec 8
  c : BitVec 8
  d : BitVec 8
  deriving DecidableEq, Repr

def INADDR_ANY : InAddr := ⟨0, 0, 0, 0⟩

def inet_ntoa (addr : InAddr) : String :=
  s!"{addr.a.toNat}.{addr.b.toNat}.{addr.c.toNat}.{addr.d.toNat}"

/-- `struct sockaddr_in`. The port is in network order. -/
structure SockAddrIn where
  sin_family : Nat
  sin_addr : InAddr
  sin_port : BitVec 16
  deriving DecidableEq, Repr

/-- What a call returns, and the value of `errno` after it. -/
structure Call where
  result : Int
  errno : Int
  deriving DecidableEq, Repr

/-- What `accept` returns and stores, and the value of `errno` after it. -/
structure Accept where
  clientSock : Int
  errno : Int
  clientAddr : SockAddrIn
  deriving DecidableEq, Repr

/-- The answers of the system. `accepts` are the calls of `accept` that have returned. -/
structure System where
  socket : Call
  bind : Call
  listen : Call
  accepts : List Accept
  deriving DecidableEq, Repr

inductive Event where
  | socket (call : Call)
  | bind (sock : Int) (addr : SockAddrIn) (call : Call)
  | listen (sock : Int) (backlog : Nat) (call : Call)
  | accept (sock : Int) (call : Accept)
  | close (sock : Int)
  | fprintf (text : String)
  | perror (msg : String) (errno : Int)
  deriving DecidableEq, Repr

/-- Where a function stands after the answers of the system: it waits in `accept`, it has
returned, or the process has exited. -/
inductive Status where
  | waiting
  | returned (value : Int)
  | exited (code : Int)
  deriving DecidableEq, Repr

/-! ## The accept loop -/

/-- The line about a new connection. -/
def newConnection (clientAddr : SockAddrIn) : String :=
  s!"New connection from {inet_ntoa clientAddr.sin_addr}:{(ntohs clientAddr.sin_port).toNat}\n"

/-- The `while (1)` of both servers. They differ in `stop`, how they leave it. -/
def acceptLoop (stop : Status) (sock : Int) : List Accept → List Event × Status
  | [] => ([], .waiting)
  | call :: accepts =>
    -- the second operand of `∧` holds for every `errno`
    if call.clientSock = -1 ∧ (call.errno ≠ EAGAIN ∨ call.errno ≠ EINTR) then
      ([.accept sock call, .perror "accept" call.errno], stop)
    else
      let (events, status) := acceptLoop stop sock accepts
      if call.clientSock ≠ -1 then
        (.accept sock call :: .fprintf (newConnection call.clientAddr) :: events, status)
      else (.accept sock call :: events, status)

/-! ## `l08/Server.cpp` -/

structure Server where
  sock : Int
  deriving DecidableEq, Repr

/-- `Server::Server`. -/
def Server.new : Server := { sock := -1 }

/-- `Server::~Server`. -/
def Server.destroy (server : Server) : List Event :=
  if server.sock ≠ -1 then [.close server.sock] else []

/-- `Server::listen`. The old value of `sock` is overwritten. -/
def Server.listen (port : BitVec 16) (sys : System) (_ : Server) :
    Server × List Event × Status :=
  let sock := sys.socket.result
  let server : Server := { sock }
  if sock = -1 then
    (server, [.socket sys.socket, .perror "socket" sys.socket.errno], .returned (-1))
  else
    let addr : SockAddrIn := ⟨AF_INET, INADDR_ANY, htons port⟩
    let events := [.socket sys.socket, .bind sock addr sys.bind]
    if sys.bind.result = -1 then
      -- the socket stays open, and `server` keeps it
      (server, events ++ [.perror "bind" sys.bind.errno], .returned (-1))
    else
      let events := events ++ [.listen sock 10 sys.listen]
      if sys.listen.result = -1 then
        (server, events ++ [.perror "listen" sys.listen.errno], .returned (-1))
      else
        let (served, status) := acceptLoop (.returned (-1)) sock sys.accepts
        (server, events ++ [.fprintf s!"Listenning on port {port.toNat}\n"] ++ served, status)

/-! ## `l06/hello.cpp` -/

/-- `atoi` of a number that fits an `int`. What it returns for others is undefined, and the
library clamps those that do not fit a `long`. -/
def atoi (s : String) : Int :=
  let digits (cs : List Char) : Nat :=
    (cs.takeWhile Char.isDigit).foldl (fun n c => 10 * n + (c.toNat - '0'.toNat)) 0
  match s.toList.dropWhile fun c => c = ' ' ∨ ('\t' ≤ c ∧ c ≤ '\r') with
  | '-' :: cs => -digits cs
  | '+' :: cs => digits cs
  | cs => digits cs

/-- `err`: what it writes, and the end of the process. -/
def err (msg : String) (errno : Int) : List Event × Status :=
  ([.perror msg errno], .exited EXIT_FAILURE)

/-- `main` of hello. `argv` has the name of the program first. -/
def main (argv : List String) (sys : System) : List Event × Status :=
  match argv with
  | _ :: port :: _ =>
    let serverSock := sys.socket.result
    if serverSock = -1 then
      let (events, status) := err "socket" sys.socket.errno
      (.socket sys.socket :: events, status)
    else
      let portno := BitVec.ofInt 16 (atoi port)
      let addr : SockAddrIn := ⟨AF_INET, INADDR_ANY, htons portno⟩
      let called := [.socket sys.socket, .bind serverSock addr sys.bind]
      if sys.bind.result = -1 then
        let (events, status) := err "bind" sys.bind.errno
        (called ++ events, status)
      else
        let called := called ++ [.listen serverSock 10 sys.listen]
        if sys.listen.result = -1 then
          let (events, status) := err "listen" sys.listen.errno
          (called ++ events, status)
        else
          let (events, status) := acceptLoop (.exited EXIT_FAILURE) serverSock sys.accepts
          (called ++ events, status)
  | _ =>
    ([.fprintf "USAGE:\n", .fprintf "  hello PORT_NUMBER\n"], .exited EXIT_FAILURE)

end OsProg.Net
