import OsProg.Infra.Counter
import OsProg.Shell.Stdin

/-!
# A session of the shell

What the shell should do with its input: run the commands of the lines, in order and
numbered from 1, wait for each before it reads on, and end at `exit` or at the end of the
input. `fgets` hands over pieces of 255 bytes, so a line of 255 bytes comes without its
newline, which then is a blank line of its own.

* `Session` — the calls, the waiting, and the end
* `loop_session` — what the loop does, by induction on its input
* `main_session` — the bounds within which a run of the shell is a session
-/

namespace OsProg.Shell

open Infra

/-! ## The session -/

/-- The tokens of each line that has any. -/
def nonblank (stdin : Bytes) : List (List Bytes) :=
  ((lines stdin).map (tokens delim)).filter fun argv => argv ≠ []

def isExit (argv : List Bytes) : Bool := argv.head? = some (ascii "exit")

/-- The commands up to the first `exit`. -/
def commands (stdin : Bytes) : List (List Bytes) :=
  (nonblank stdin).takeWhile fun argv => !isExit argv

def numbered (argvs : List (List Bytes)) : List (Int × List Bytes) :=
  (argvs.zipIdx 1).map fun c => ((c.2 : Int), c.1)

def Event.call : Event → Option (Int × List Bytes)
  | .run_command n argv => some (n, argv)
  | _ => none

/-- The calls of `run_command`, with their arguments. -/
def calls (trace : List Event) : List (Int × List Bytes) := trace.filterMap Event.call

def Event.isFgets : Event → Bool
  | .fgets _ => true
  | _ => false

/-- A process is started first and waited for, and nothing is read in between. -/
def WaitedFor (trace : List Event) : Prop :=
  ∃ pid child mid result rest, trace = .fork pid child :: mid ++ .waitpid pid result :: rest ∧
    ∀ e ∈ mid, e.isFgets = false

/-- The process of each call of `run_command` is waited for before anything is read. -/
def Waited : List Event → Prop
  | [] => True
  | .run_command _ _ :: trace => WaitedFor trace ∧ Waited trace
  | _ :: trace => Waited trace

/-- **What the shell should do** with its input. -/
structure Session (stdin : Bytes) (result : List Event × Stop) : Prop where
  calls : calls result.1 = numbered (commands stdin)
  waited : Waited result.1
  stop : result.2 =
    if (nonblank stdin).any isExit then .returned 0 else .exited EXIT_FAILURE

/-- An input without NUL, with lines of at most `bound` bytes and ten tokens. -/
structure Input (bound : Nat) (stdin : Bytes) : Prop where
  nul : 0 ∉ stdin
  line : ∀ line ∈ lines stdin, line.length ≤ bound ∧ (tokens delim line).length ≤ 10

/-! ## Pieces and lines -/

theorem newline_delim : newline ∈ delim := by decide

theorem filter_cons_ne_nil (cmd : Bytes) (args : List Bytes) :
    [cmd :: args].filter (fun argv => argv ≠ []) = [cmd :: args] := rfl

/-- **A piece stands for its line**, or for a line of 255 bytes, whose newline is blank. -/
theorem nonblank_piece {stdin : Bytes} (h : ∀ line ∈ lines stdin, line.length ≤ 255) :
    nonblank stdin =
      [tokens delim (piece stdin)].filter (fun argv => argv ≠ []) ++ nonblank (behind stdin) := by
  unfold nonblank
  rcases lines_takeLine h with ⟨line, hpiece, hlines⟩ | ⟨ls, hlines, hbehind⟩
  · rw [hlines, piece, hpiece, tokens_append_delim newline_delim, List.map_cons,
      ← List.singleton_append, List.filter_append]
  · rw [hlines, hbehind, List.map_cons, List.map_cons, tokens_nil, ← List.singleton_append,
      List.filter_append]
    rfl

theorem Input.piece_nul {bound : Nat} {stdin : Bytes} (h : Input bound stdin) :
    0 ∉ piece stdin := by
  intro hmem
  refine h.nul ?_
  rw [← takeLine_append 255 stdin]
  exact List.mem_append_left _ hmem

theorem Input.piece_tokens {stdin : Bytes} (h : Input 255 stdin) :
    (tokens delim (piece stdin)).length ≤ 10 := by
  rcases lines_takeLine fun line hline => (h.line line hline).1 with
    ⟨line, hpiece, hlines⟩ | ⟨ls, hlines, _⟩
  · rw [piece, hpiece, tokens_append_delim newline_delim]
    exact (h.line line (hlines ▸ List.mem_cons_self)).2
  · exact (h.line _ (hlines ▸ List.mem_cons_self)).2

theorem Input.behind {stdin : Bytes} (h : Input 255 stdin) : Input 255 (behind stdin) where
  nul hmem := by
    refine h.nul ?_
    rw [← takeLine_append 255 stdin]
    exact List.mem_append_right _ hmem
  line line hline := by
    rcases lines_takeLine fun line hline => (h.line line hline).1 with
      ⟨_, _, hlines⟩ | ⟨ls, hlines, hbehind⟩
    · exact h.line line (hlines ▸ List.mem_cons_of_mem _ hline)
    · rw [hbehind] at hline
      rcases List.mem_cons.mp hline with rfl | hline
      · exact ⟨Nat.zero_le _, Nat.zero_le _⟩
      · exact h.line line (hlines ▸ List.mem_cons_of_mem _ hline)

/-! ## Rounds of a session -/

/-- A session that goes on behind `k` calls. The numbers are those of a 32-bit counter. -/
structure SessionFrom (k : Nat) (argvs : List (List Bytes)) (result : List Event × Stop) :
    Prop where
  calls : calls result.1 =
    ((argvs.takeWhile fun argv => !isExit argv).zipIdx (k + 1)).map fun c =>
      ((BitVec.ofNat 32 c.2).toInt, c.1)
  waited : Waited result.1
  stop : result.2 = if argvs.any isExit then .returned 0 else .exited EXIT_FAILURE

section Rounds

variable {k : Nat} {argvs : List (List Bytes)} {result : List Event × Stop}

theorem sessionFrom_eof (k : Nat) :
    SessionFrom k [] ([.printf (ascii "> "), .fgets none, .perror "fgets"],
      .exited EXIT_FAILURE) :=
  ⟨rfl, trivial, rfl⟩

theorem SessionFrom.read (h : SessionFrom k argvs result) (line : Bytes) :
    SessionFrom k argvs (reading line ++ result.1, result.2) :=
  ⟨h.calls, h.waited, h.stop⟩

theorem isExit_cons {cmd : Bytes} {args : List Bytes} :
    isExit (cmd :: args) = true ↔ cmd = ascii "exit" := by
  unfold isExit
  rw [decide_eq_true_iff, List.head?_cons, Option.some.injEq]

theorem sessionFrom_exit (k : Nat) (args : List Bytes) (argvs : List (List Bytes))
    (line : Bytes) :
    SessionFrom k ((ascii "exit" :: args) :: argvs) (reading line, .returned 0) := by
  have hexit : isExit (ascii "exit" :: args) = true := isExit_cons.mpr rfl
  refine ⟨?_, trivial, ?_⟩
  · rw [List.takeWhile_cons, hexit]
    rfl
  · rw [List.any_cons, hexit]
    rfl

theorem SessionFrom.run (h : SessionFrom (k + 1) argvs result) {cmd : Bytes}
    (hcmd : cmd ≠ ascii "exit") (args : List Bytes) (proc : Process) :
    SessionFrom k ((cmd :: args) :: argvs)
      (running (BitVec.ofNat 32 (k + 1)) cmd args proc ++ result.1, result.2) := by
  have hexit : isExit (cmd :: args) = false := by
    rw [← Bool.not_eq_true, isExit_cons]
    exact hcmd
  refine ⟨?_, ⟨⟨_, _, [_], _, _, rfl, ?_⟩, h.waited⟩, ?_⟩
  · rw [List.takeWhile_cons, hexit, Bool.not_false, if_pos rfl, List.zipIdx_cons, List.map_cons,
      ← h.calls]
    rfl
  · intro e he
    rw [List.mem_singleton] at he
    rw [he]
    rfl
  · rw [List.any_cons, hexit, Bool.false_or]
    exact h.stop

end Rounds

/-! ## The loop -/

/-- **The loop runs a session.** -/
theorem loop_session (s : State) (k : Nat) (hs : Ready s) (hin : Input 255 s.stdin)
    (hran : ∀ i, (s.procs.get i).Ran) (hn : s.n = BitVec.ofNat 32 k) :
    SessionFrom k (nonblank s.stdin) (loop s) := by
  by_cases hne : s.stdin = []
  · rw [loop_eof hne, hne]
    exact sessionFrom_eof k
  · have hlt := behind_shrinks hne
    have h0 := hin.piece_nul
    rw [nonblank_piece fun line hline => (hin.line line hline).1]
    cases htokens : tokens delim (piece s.stdin) with
    | nil =>
      obtain ⟨line, s', hs', hn', hstdin, hprocs, hloop⟩ := loop_blank hs hne h0 htokens
      have ih := loop_session s' k hs' (hstdin ▸ hin.behind) (hprocs ▸ hran) (hn'.trans hn)
      rw [hloop, ← hstdin]
      exact ih.read line
    | cons cmd args =>
      have hlen : (cmd :: args).length ≤ 10 := htokens ▸ hin.piece_tokens
      rw [filter_cons_ne_nil]
      by_cases hcmd : cmd = ascii "exit"
      · subst hcmd
        obtain ⟨line, hloop⟩ := loop_exit hs hne h0 htokens hlen
        rw [hloop]
        exact sessionFrom_exit k args _ line
      · obtain ⟨line, s', hs', hn', hstdin, hprocs, hloop⟩ :=
          loop_command hs hne h0 htokens hlen hcmd (hran 0)
        have hcount : s'.n = BitVec.ofNat 32 (k + 1) := by
          rw [hn', hn, ofNat_add_one]
        have hran' : ∀ i, (s'.procs.get i).Ran := by
          intro i
          rw [hprocs]
          exact hran (i + 1)
        have ih := loop_session s' (k + 1) hs' (hstdin ▸ hin.behind) hran' hcount
        rw [hloop, hcount, ← hstdin]
        exact (ih.run hcmd args s.procs.head).read line
termination_by s.stdin.length
decreasing_by all_goals rw [hstdin]; exact hlt

/-! ## Runs of the shell -/

/-- A counter of 32 bits numbers the commands as long as it does not overflow. -/
theorem numbers_iff : ∀ (argvs : List (List Bytes)) (k : Nat), k < 2 ^ 31 →
    ((argvs.zipIdx (k + 1)).map (fun c => ((BitVec.ofNat 32 c.2).toInt, c.1)) =
        (argvs.zipIdx (k + 1)).map (fun c => ((c.2 : Int), c.1)) ↔
      k + argvs.length < 2 ^ 31)
  | [], _, hk => iff_of_true rfl hk
  | argv :: argvs, k, hk => by
    rw [List.zipIdx_cons, List.map_cons, List.map_cons, List.cons.injEq, Prod.mk.injEq,
      toInt_ofNat_iff, List.length_cons]
    by_cases hk' : k + 1 < 2 ^ 31
    · rw [numbers_iff argvs (k + 1) hk']
      constructor
      · rintro ⟨_, h⟩
        omega
      · intro h
        exact ⟨⟨hk', rfl⟩, by omega⟩
    · refine iff_of_false ?_ (by omega)
      rintro ⟨⟨h, _⟩, _⟩
      exact hk' h

section Main

variable {stdin : Bytes} {procs : Stream' Process} (cmdline : CharArray 256)
  (cmdargv : Vector (Option Nat) 11)

theorem ready_main (stdin : Bytes) (procs : Stream' Process) :
    Ready { cmdline := cmdline.bytes, cmdargv := cmdargv.toList, n := 0, stdin, procs } :=
  ⟨cmdline.size, cmdargv.length_toList⟩

/-- Within the bounds a run is a session exactly when the counter does not overflow. -/
theorem session_iff (hin : Input 255 stdin) (hran : ∀ i, (procs.get i).Ran) :
    Session stdin (main cmdline cmdargv stdin procs) ↔ (commands stdin).length < 2 ^ 31 := by
  have hrun : SessionFrom 0 (nonblank stdin) (main cmdline cmdargv stdin procs) :=
    loop_session _ 0 (ready_main cmdline cmdargv stdin procs) hin hran rfl
  have hiff := numbers_iff (commands stdin) 0 (by omega)
  rw [Nat.zero_add, Nat.zero_add] at hiff
  constructor
  · intro h
    exact hiff.mp (hrun.calls.symm.trans h.calls)
  · intro h
    exact ⟨hrun.calls.trans (hiff.mpr h), hrun.waited, hrun.stop⟩

/-- The first call is the command of the first piece. -/
theorem first_call (hne : stdin ≠ []) (h0 : 0 ∉ piece stdin) {cmd : Bytes} {args : List Bytes}
    (htokens : tokens delim (piece stdin) = cmd :: args) (hlen : (cmd :: args).length ≤ 10)
    (hcmd : cmd ≠ ascii "exit") (hran : ∀ i, (procs.get i).Ran) :
    ∃ rest, calls (main cmdline cmdargv stdin procs).1 = (1, cmd :: args) :: rest := by
  obtain ⟨line, s', _, hn, _, _, hloop⟩ :=
    loop_command (ready_main cmdline cmdargv stdin procs) hne h0 htokens hlen hcmd (hran 0)
  rw [main, hloop, hn]
  exact ⟨_, rfl⟩

end Main

/-! ### A line that is too long -/

def letters (n : Nat) : Bytes := List.replicate n 0x61

theorem mem_letters {n : Nat} {b : UInt8} (h : b ∈ letters n) : b = 0x61 :=
  List.eq_of_mem_replicate h

theorem not_mem_letters {n : Nat} {b : UInt8} (hb : b ≠ 0x61) : b ∉ letters n :=
  fun h => hb (mem_letters h)

theorem tokens_letters (n : Nat) : tokens delim (letters (n + 1)) = [letters (n + 1)] := by
  refine tokens_last ?_ (List.cons_ne_nil _ _)
  intro b hb
  rw [mem_letters hb]
  decide

/-- A line of `n + 1` bytes. -/
def longLine (n : Nat) : Bytes := letters n ++ [0x61, newline]

theorem lines_longLine (n : Nat) : lines (longLine n) = [letters (n + 1), []] := by
  have hline : longLine n = letters (n + 1) ++ newline :: [] := by
    unfold longLine letters
    rw [List.replicate_succ', List.append_assoc]
    rfl
  rw [hline, lines_newline (not_mem_letters (by decide))]
  rfl

theorem input_longLine (n : Nat) : Input (n + 1) (longLine n) where
  nul h := by
    rcases List.mem_append.mp h with h | h
    · exact not_mem_letters (by decide) h
    · exact absurd h (by decide)
  line line h := by
    rw [lines_longLine] at h
    rcases List.mem_cons.mp h with rfl | h
    · rw [tokens_letters, letters, List.length_replicate, List.length_singleton]
      exact ⟨Nat.le_refl _, by omega⟩
    · rw [List.mem_singleton.mp h]
      exact ⟨Nat.zero_le _, Nat.zero_le _⟩

theorem letters_ne_exit {n : Nat} : letters (n + 1) ≠ ascii "exit" := by
  intro h
  exact absurd (List.cons.inj h).1 (by decide)

theorem not_isExit_letters (n : Nat) : isExit [letters (n + 1)] = false := by
  rw [← Bool.not_eq_true, isExit_cons]
  exact letters_ne_exit

theorem commands_longLine (n : Nat) : commands (longLine n) = [[letters (n + 1)]] := by
  have hnonblank : nonblank (longLine n) = [[letters (n + 1)]] := by
    unfold nonblank
    rw [lines_longLine, List.map_cons, tokens_letters]
    rfl
  unfold commands
  rw [hnonblank, List.takeWhile_cons, not_isExit_letters]
  rfl

theorem piece_longLine : piece (longLine 255) = letters 255 := by
  have h := takeLine_long (not_mem_letters (n := 255) (b := newline) (by decide)) [0x61, newline]
  rw [show (letters 255).length = 255 from List.length_replicate] at h
  exact congrArg Prod.fst h

/-- The shell does not run the command of a line of 256 bytes. -/
theorem calls_longLine (cmdline : CharArray 256) (cmdargv : Vector (Option Nat) 11)
    {procs : Stream' Process} (hran : ∀ i, (procs.get i).Ran) :
    calls (main cmdline cmdargv (longLine 255) procs).1 ≠ numbered (commands (longLine 255)) := by
  have h0 : 0 ∉ piece (longLine 255) := by
    rw [piece_longLine]
    exact not_mem_letters (by decide)
  have htokens : tokens delim (piece (longLine 255)) = [letters 255] := by
    rw [piece_longLine]
    exact tokens_letters 254
  have hne : longLine 255 ≠ [] := List.append_ne_nil_of_right_ne_nil _ (List.cons_ne_nil _ _)
  obtain ⟨rest, hcalls⟩ := first_call cmdline cmdargv hne h0 htokens
    (Nat.le_add_left 1 9) (letters_ne_exit (n := 254)) hran
  rw [hcalls, commands_longLine]
  intro h
  have hcmd : letters 255 = letters (255 + 1) :=
    (List.cons.inj (Prod.mk.inj (List.cons.inj h).1).2).1
  have hlen := congrArg List.length hcmd
  rw [letters, letters, List.length_replicate, List.length_replicate] at hlen
  omega

/-! ### Too many lines -/

/-- `n` short lines. -/
def manyLines : Nat → Bytes
  | 0 => []
  | n + 1 => letters 1 ++ newline :: manyLines n

theorem lines_manyLines : ∀ n, lines (manyLines n) = List.replicate n (letters 1) ++ [[]]
  | 0 => rfl
  | n + 1 => by
    rw [manyLines, lines_newline (not_mem_letters (by decide)), lines_manyLines n,
      List.replicate_succ, List.cons_append]

theorem input_manyLines (n : Nat) : Input 255 (manyLines n) where
  nul := by
    induction n with
    | zero => exact List.not_mem_nil
    | succ n ih =>
      rw [manyLines, List.mem_append, List.mem_cons]
      rintro (h | h | h)
      · exact not_mem_letters (by decide) h
      · exact absurd h (by decide)
      · exact ih h
  line line h := by
    rw [lines_manyLines, List.mem_append, List.mem_singleton] at h
    rcases h with h | rfl
    · rw [List.eq_of_mem_replicate h]
      decide
    · exact ⟨Nat.zero_le _, Nat.zero_le _⟩

theorem commands_manyLines (n : Nat) : commands (manyLines n) = List.replicate n [letters 1] := by
  have hnonblank : nonblank (manyLines n) = List.replicate n [letters 1] := by
    unfold nonblank
    rw [lines_manyLines, List.map_append, List.map_replicate, tokens_letters, List.filter_append,
      List.filter_replicate]
    exact List.append_nil _
  unfold commands
  rw [hnonblank, List.takeWhile_eq_self_iff]
  intro argv hargv
  rw [List.eq_of_mem_replicate hargv]
  rfl

/-! ## The bounds -/

/-- **The trace of a session.** Within the bounds of the README, and as long as nobody else moves
the offset of its standard input, the shell does with its input what it should, if fewer than
`2 ^ 31` commands are run: the number of a command is an `int`. With a line of 256 bytes it does
not. -/
theorem main_session :
    (∀ (fuel : Nat) (extra : Stream' Nat) (cmdline : CharArray 256)
      (cmdargv : Vector (Option Nat) 11) (stdin : InStream) (procs : Stream' Process),
      Input 255 stdin.left → (∀ i, (procs.get i).Ran) → Quiet stdin procs →
      stdin.left.length < fuel →
      ∃ result, mainOn fuel extra cmdline cmdargv stdin procs = some result ∧
        (Session stdin.left result ↔ (commands stdin.left).length < 2 ^ 31)) ∧
    ∃ input : Bytes, Input 256 input ∧ (commands input).length < 2 ^ 31 ∧
      ∀ (fuel : Nat) (extra : Stream' Nat) (cmdline : CharArray 256)
        (cmdargv : Vector (Option Nat) 11) (stdin : InStream) (procs : Stream' Process),
        stdin.left = input → (∀ i, (procs.get i).Ran) → Quiet stdin procs →
        input.length < fuel →
        ∃ result, mainOn fuel extra cmdline cmdargv stdin procs = some result ∧
          calls result.1 ≠ numbered (commands input) := by
  constructor
  · intro fuel extra cmdline cmdargv stdin procs hin hran hquiet hfuel
    exact ⟨_, main_quiet hquiet hfuel, session_iff cmdline cmdargv hin hran⟩
  · refine ⟨longLine 255, input_longLine 255, ?_, ?_⟩
    · rw [commands_longLine, List.length_singleton]
      omega
    · rintro fuel extra cmdline cmdargv stdin procs hleft hran hquiet hfuel
      rw [← hleft] at hfuel
      refine ⟨_, main_quiet hquiet hfuel, ?_⟩
      rw [hleft]
      exact calls_longLine cmdline cmdargv hran

/-- Arrays of zeros and processes that succeed. -/
def zeros : CharArray 256 := ⟨List.replicate 256 0, List.length_replicate⟩

def nulls : Vector (Option Nat) 11 := Vector.replicate 11 none

def succeeding : Stream' Process :=
  Stream'.const { fork := 100, execvp := none, waitpid := 100, wstatus := 0 }

theorem succeeding_ran (i : Nat) : (succeeding.get i).Ran :=
  ⟨show (0 : Int) < 100 by decide, show (100 : Int) ≠ -1 by decide⟩

/-- Two commands, a blank line and `exit`. -/
theorem main_session_small :
    ∃ result, mainOn 30 (Stream'.const 4096) zeros nulls
        (.opened (ascii "ls -l\n\n  pwd\nexit\n") true) succeeding = some result ∧
      Session (ascii "ls -l\n\n  pwd\nexit\n") result := by
  obtain ⟨result, hmain, hsession⟩ := main_session.1 30 (Stream'.const 4096) zeros nulls
    (.opened (ascii "ls -l\n\n  pwd\nexit\n") true) succeeding ⟨by decide, by decide⟩
    succeeding_ran (.inr fun _ => rfl) (by decide)
  exact ⟨result, hmain, hsession.mpr (by decide)⟩

/-- A command that cannot be executed, and one that can. -/
def lostCommand : Bytes := ascii "nosuchcmd1\ntrue\n"

theorem session_manyLines (n : Nat) :
    ∃ fuel result, mainOn fuel (Stream'.const 4096) zeros nulls (.opened (manyLines n) false)
        succeeding = some result ∧ (Session (manyLines n) result ↔ n < 2 ^ 31) := by
  refine ⟨(manyLines n).length + 1, _, main_quiet (.inl rfl) (Nat.lt_succ_self _), ?_⟩
  rw [InStream.left_opened, session_iff zeros nulls (input_manyLines n) succeeding_ran,
    commands_manyLines, List.length_replicate]

/-- No `int` is the number of the last of too many commands, and a child that comes back from
`execvp` makes the shell read a line again. -/
theorem not_session :
    (Input 255 (manyLines (2 ^ 31)) ∧ (∀ i, (succeeding.get i).Ran) ∧
      ∃ fuel result, mainOn fuel (Stream'.const 4096) zeros nulls
          (.opened (manyLines (2 ^ 31)) false) succeeding = some result ∧
        ¬ Session (manyLines (2 ^ 31)) result) ∧
    (Input 255 lostCommand ∧ (∀ i, ((Stream'.cons failing succeeding).get i).Ran) ∧
      ∃ fuel result, mainOn fuel (Stream'.const 4096) zeros nulls (.opened lostCommand true)
          (Stream'.cons failing succeeding) = some result ∧
        ¬ Session lostCommand result) := by
  refine ⟨⟨input_manyLines _, succeeding_ran, ?_⟩, ⟨by decide, by decide⟩, ?_, 5, ?_⟩
  · obtain ⟨fuel, result, hmain, hsession⟩ := session_manyLines (2 ^ 31)
    exact ⟨fuel, result, hmain, fun h => Nat.lt_irrefl _ (hsession.mp h)⟩
  · intro i
    cases i with
    | zero => exact failing_ran
    | succ i => exact succeeding_ran i
  · have hcalls : (mainOn 5 (Stream'.const 4096) zeros nulls (.opened lostCommand true)
        (Stream'.cons failing succeeding)).map (fun result => calls result.1) =
        some [(1, [ascii "nosuchcmd1"]), (2, [ascii "true"]), (3, [ascii "true"])] := by
      decide +kernel
    obtain ⟨result, hmain, hresult⟩ := Option.map_eq_some_iff.mp hcalls
    refine ⟨result, hmain, fun hsession => ?_⟩
    rw [hsession.calls] at hresult
    exact absurd hresult (by decide)

end OsProg.Shell
