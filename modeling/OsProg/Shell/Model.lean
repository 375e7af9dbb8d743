import OsProg.Infra.Fgets
import OsProg.Infra.InStream
import OsProg.Infra.Printf
import OsProg.Infra.Strtok
import OsProg.Infra.Traced
import Mathlib.Data.Stream.Defs

/-!
# The shell

`l09/shell.c`. What becomes of the processes that the shell starts is given, and what the shell
does is a trace of its calls and of the texts that it prints. `main` is the shell on the bytes that
it reads. `mainOn` is the shell on a standard input whose offset it shares with its children: a
child that comes back from `execvp` calls `exit`, and that may move the offset back.

A pointer into `cmdline` is an offset there, and a slot of `cmdargv` holds such a pointer or
`NULL`. `int n` and `int i` are 32-bit words and their increments wrap.
-/

namespace OsProg.Shell

open Infra

/-! ## What can be seen of the shell -/

def EXIT_FAILURE : Int := 1

/-- What becomes of a process: what `fork` returns to the shell, the `errno` of `execvp` when
it fails in the child, what `waitpid` returns to the shell and stores. -/
structure Process where
  fork : Int
  execvp : Option Int
  waitpid : Int
  wstatus : Nat
  deriving DecidableEq, Repr

/-- What the child does, at some time between `fork` and the return of `waitpid`. -/
inductive ChildEvent where
  | execvp (argv : List Bytes)
  | perror (msg : String)
  | exit (code : Int)
  deriving DecidableEq, Repr

inductive Event where
  | printf (text : Bytes)
  | perror (msg : String)
  | fgets (s : Option Bytes)
  | run_command (n : Int) (argv : List Bytes)
  | fork (pid : Int) (child : List ChildEvent)
  | waitpid (pid : Int) (result : Int)
  deriving DecidableEq, Repr

/-- The accesses that the shell could make out of bounds. -/
inductive Fault where
  | fgets
  | strtok
  | cmdargv
  | strcmp
  deriving DecidableEq, Repr

/-- How the shell ends. -/
inductive Stop where
  | returned (value : Int)
  | exited (code : Int)
  | fault (f : Fault)
  deriving DecidableEq, Repr

abbrev M := Traced Event Stop

open Traced

def checked {α : Type} : Except Fault α → M α
  | .ok a => pure a
  | .error f => stop (.fault f)

/-! ## `parse_command` and `readline` -/

/-- `" \t\n"`. -/
def delim : Bytes := [0x20, 0x09, 0x0A]

/-- The loop of `parse_command`, with the slots from `argv[i]` on: how many tokens there are,
and the slots and the bytes of `cmdline` afterwards. `int i` is a 32-bit word, and behind
`INT_MAX` comes an index in front of the slots. -/
def parseLoop (i : BitVec 32) : List (Option Nat) → Option Nat → Option Nat → Bytes →
    Except Fault (Nat × List (Option Nat) × Bytes)
  | [], _, _, _ => .error .cmdargv
  | _ :: argv, cmdline, saveptr, object =>
    if i.toInt < 0 then .error .cmdargv
    else
      match strtok_r cmdline delim saveptr object with
      | none => .error .strtok
      | some { token := none, saveptr := _, object } => .ok (i.toNat, none :: argv, object)
      | some { token := some p, saveptr, object } =>
        match parseLoop (i + 1) argv none saveptr object with
        | .ok (num, argv, object) => .ok (num, some p :: argv, object)
        | .error f => .error f

def parse_command (cmdline : Bytes) (argv : List (Option Nat)) :
    Except Fault (Nat × List (Option Nat) × Bytes) :=
  parseLoop 0 argv (some 0) none cmdline

/-- `readline`: the array and the rest of standard input after it. -/
def readline (s : Bytes) (size : Nat) (stdin : Bytes) : M (Bytes × Bytes) := do
  emit (.printf (ascii "> "))
  let (s, stdin) ← orStop (.fault .fgets) (fgets s size stdin)
  emit (.fgets s)
  match s with
  | none => do
    emit (.perror "fgets")
    stop (.exited EXIT_FAILURE)
  | some s => pure (s, stdin)

/-! ## `run_command` -/

def WIFEXITED (wstatus : Nat) : Bool := wstatus % 128 = 0
def WEXITSTATUS (wstatus : Nat) : Nat := wstatus / 256 % 256
def WIFSIGNALED (wstatus : Nat) : Bool := wstatus % 128 ≠ 0 ∧ wstatus % 128 ≠ 127
def WTERMSIG (wstatus : Nat) : Nat := wstatus % 128

/-- The strings that the slots up to `NULL` point to. -/
def argStrings (object : Bytes) : List (Option Nat) → Option (List Bytes)
  | [] => none
  | none :: _ => some []
  | some p :: argv => do
    let arg ← cstr (object.drop p)
    let args ← argStrings object argv
    return arg :: args

/-- `"[%d] %d %s"`. -/
def job (n : BitVec 32) (pid : Int) (cmd : Bytes) : Bytes :=
  ascii "[" ++ formatD n.toInt ++ ascii "] " ++ formatD pid ++ ascii " " ++ cmd

/-- The last `printf` of `run_command`. -/
def outcome (wstatus : Nat) : Bytes :=
  if WIFEXITED wstatus then formatD (WEXITSTATUS wstatus) ++ ascii "\n"
  else if WIFSIGNALED wstatus then
    ascii "terminated by signal " ++ formatD (WTERMSIG wstatus) ++ ascii "\n"
  else ascii "ERR\n"

/-- The branch of the child. Its `exit` also closes its copy of standard input (`mainOn`). -/
def child (argv : List Bytes) (proc : Process) : List ChildEvent :=
  .execvp argv :: match proc.execvp with
    | none => []
    -- `execvp` came back, so it failed
    | some _ => [.perror "exec", .exit EXIT_FAILURE]

/-- A child that does not get through `execvp` calls `exit`. -/
def exits (events : List ChildEvent) : Bool :=
  events.any fun
    | .exit _ => true
    | _ => false

def run_command (n : BitVec 32) (cmdline : Bytes) (argv : List (Option Nat)) (proc : Process) :
    M Unit := do
  let args ← orStop (.fault .cmdargv) (argStrings cmdline argv)
  let cmd ← orStop (.fault .cmdargv) args.head?
  emit (.run_command n.toInt args)
  let pid := proc.fork
  if pid = -1 then
    emit (.fork pid [])
    emit (.perror "fork")
    stop (.exited EXIT_FAILURE)
  else
    -- the parent, to whom `fork` returned a positive number
    emit (.fork pid (child args proc))
    emit (.printf (ascii "= started " ++ job n pid cmd ++ ascii "\n"))
    emit (.waitpid pid proc.waitpid)
    if proc.waitpid = -1 then
      emit (.perror "waitpid")
      stop (.exited EXIT_FAILURE)
    else
      emit (.printf (ascii "= finished " ++ job n pid cmd ++ ascii " "))
      emit (.printf (outcome proc.wstatus))

/-! ## `main` -/

/-- The variables of `main`, what standard input has to deliver, and the processes to come. -/
structure State where
  cmdline : Bytes
  cmdargv : List (Option Nat)
  n : BitVec 32
  stdin : Bytes
  procs : Stream' Process

/-- `"exit"`. -/
def litExit : Bytes := ascii "exit" ++ [0]

/-- The rest of a round, with the line parsed. -/
def dispatch (s : State) (num_args : Nat) : M State :=
  if num_args = 0 then pure s -- empty command
  else do
    let cmd ← orStop (.fault .cmdargv) s.cmdargv.head?.join
    let cmp ← orStop (.fault .strcmp) (strcmp litExit (s.cmdline.drop cmd))
    if cmp = 0 then stop (.returned 0)
    else do
      run_command (s.n + 1) s.cmdline s.cmdargv s.procs.head
      pure { s with n := s.n + 1, procs := s.procs.tail }

/-- The body of the `while (1)`. -/
def body (s : State) : M State := do
  let (cmdline, stdin) ← readline s.cmdline 256 s.stdin
  let (num_args, cmdargv, cmdline) ← checked (parse_command cmdline s.cmdargv)
  dispatch { s with cmdline, cmdargv, stdin } num_args

theorem readline_shrinks {s stdin s' rest : Bytes} {size : Nat}
    (h : (readline s size stdin).result = .ok (s', rest)) : rest.length < stdin.length := by
  unfold readline at h
  obtain ⟨_, _, h⟩ := result_bind_ok h
  obtain ⟨⟨s₁, rest₁⟩, hread, h⟩ := result_bind_ok h
  obtain ⟨_, _, h⟩ := result_bind_ok h
  have hread := orStop_ok hread
  cases s₁ with
  | none => cases h
  | some s₁ =>
    cases h
    exact fgets_shrinks hread

theorem dispatch_stdin {s s' : State} {num_args : Nat}
    (h : (dispatch s num_args).result = .ok s') : s'.stdin = s.stdin := by
  unfold dispatch at h
  split at h
  · cases h
    rfl
  · obtain ⟨cmd, _, h⟩ := result_bind_ok h
    obtain ⟨cmp, _, h⟩ := result_bind_ok h
    split at h
    · cases h
    · obtain ⟨_, _, h⟩ := result_bind_ok h
      cases h
      rfl

/-- **A round that goes on to the next one has consumed some of its input.** -/
theorem body_shrinks {s s' : State} (h : (body s).result = .ok s') :
    s'.stdin.length < s.stdin.length := by
  unfold body at h
  obtain ⟨⟨cmdline, stdin⟩, hread, h⟩ := result_bind_ok h
  obtain ⟨⟨num_args, cmdargv, cmdline'⟩, _, h⟩ := result_bind_ok h
  rw [dispatch_stdin h]
  exact readline_shrinks hread

/-- The `while (1)`. -/
def loop (s : State) : List Event × Stop :=
  match _ : (body s).result with
  | .error e => ((body s).events, e)
  | .ok s' => ((body s).events ++ (loop s').1, (loop s').2)
termination_by s.stdin.length
decreasing_by all_goals exact body_shrinks (by assumption)

/-- `main`, with what happens to be in its arrays, on the bytes that it reads. -/
def main (cmdline : CharArray 256) (cmdargv : Vector (Option Nat) 11) (stdin : Bytes)
    (procs : Stream' Process) : List Event × Stop :=
  loop { cmdline := cmdline.bytes, cmdargv := cmdargv.toList, n := 0, stdin, procs }

/-! ## Standard input and the children -/

/-- The call forks a child that does not get through `execvp`. -/
def Event.exits : Event → Bool
  | .fork _ child => Shell.exits child
  | _ => false

/-- The `while (1)`, `fuel` rounds of it at most: the children may move the offset of standard input
back again and again. `extra` is how far the stream reads ahead each time. The commands that are
executed do not touch standard input. -/
def loopOn (fuel : Nat) (extra : Stream' Nat) (stdin : InStream) (s : State) :
    Option (List Event × Stop) :=
  match fuel with
  | 0 => none
  | fuel + 1 =>
    let round := body { s with stdin := stdin.left }
    match round.result with
    | .error e => some (round.events, e)
    | .ok s' => do
      let stdin := stdin.take extra.head (stdin.left.length - s'.stdin.length)
      let stdin := if round.events.any Event.exits then stdin.exit else stdin
      let (events, stop) ← loopOn fuel extra.tail stdin s'
      return (round.events ++ events, stop)

/-- `main` on a standard input that it shares with its children. -/
def mainOn (fuel : Nat) (extra : Stream' Nat) (cmdline : CharArray 256)
    (cmdargv : Vector (Option Nat) 11) (stdin : InStream) (procs : Stream' Process) :
    Option (List Event × Stop) :=
  loopOn fuel extra stdin
    { cmdline := cmdline.bytes, cmdargv := cmdargv.toList, n := 0, stdin := stdin.left, procs }

end OsProg.Shell
