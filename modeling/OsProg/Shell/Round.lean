import OsProg.Shell.Parse

/-!
# Rounds of the shell

A round of `main` reads a piece of a line (`body_read`) or finds the end of the input
(`body_eof`), and leaves the loop (`dispatch_exit`) or runs a command (`dispatch_command`).
What the loop does with it is said by `loop_eof`, `loop_blank`, `loop_exit` and
`loop_command`.
-/

namespace OsProg.Shell

open Infra

/-! ## Reading -/

/-- The prompt, and a line that is read into the array. -/
def reading (s : Bytes) : List Event := [.printf (ascii "> "), .fgets (some s)]

/-- The next piece of standard input, and what is left behind it. -/
abbrev piece (stdin : Bytes) : Bytes := (takeLine 255 stdin).1

abbrev behind (stdin : Bytes) : Bytes := (takeLine 255 stdin).2

theorem readline_eq {s stdin : Bytes} (hs : s.length = 256) (h : stdin ≠ []) :
    readline s 256 stdin =
      { events := reading (piece stdin ++ 0 :: s.drop ((piece stdin).length + 1)),
        result := .ok (piece stdin ++ 0 :: s.drop ((piece stdin).length + 1), behind stdin) } := by
  have hsize : 254 + 2 ≤ s.length := by omega
  unfold readline
  rw [fgets_piece hsize h]
  rfl

theorem readline_eof (s : Bytes) : readline s 256 [] =
    { events := [.printf (ascii "> "), .fgets none, .perror "fgets"],
      result := .error (.exited EXIT_FAILURE) } := by
  unfold readline
  rw [fgets_null s 254]
  rfl

/-! ## Running -/

/-- A call of `run_command` whose `fork` and `waitpid` succeed. -/
def running (n : BitVec 32) (cmd : Bytes) (args : List Bytes) (proc : Process) : List Event :=
  [.run_command n.toInt (cmd :: args), .fork proc.fork (child (cmd :: args) proc),
    .printf (ascii "= started " ++ job n proc.fork cmd ++ ascii "\n"),
    .waitpid proc.fork proc.waitpid,
    .printf (ascii "= finished " ++ job n proc.fork cmd ++ ascii " "),
    .printf (outcome proc.wstatus)]

/-- The shell could start the process and wait for it. -/
structure Process.Ran (proc : Process) : Prop where
  forked : 0 < proc.fork
  waited : proc.waitpid ≠ -1

theorem run_command_eq {n : BitVec 32} {cmdline cmd : Bytes} {argv : List (Option Nat)}
    {args : List Bytes} {proc : Process} (h : argStrings cmdline argv = some (cmd :: args))
    (hran : proc.Ran) :
    run_command n cmdline argv proc =
      { events := running n cmd args proc, result := .ok () } := by
  have hfork : proc.fork ≠ -1 := by
    have := hran.forked
    omega
  unfold run_command
  rw [h]
  simp only [Traced.orStop_some, Traced.pure_bind, List.head?_cons, if_neg hfork,
    if_neg hran.waited, Traced.emit_bind]
  rfl

/-! ## The round -/

/-- The arrays of `main` keep their sizes. -/
structure Ready (s : State) : Prop where
  cmdline : s.cmdline.length = 256
  cmdargv : s.cmdargv.length = 11

/-- `strcmp("exit", cmd)`. -/
theorem strcmp_exit {p cmd : Bytes} (h : cstr p = some cmd) :
    ∃ d, strcmp litExit p = some d ∧ (d = 0 ↔ cmd = ascii "exit") := by
  obtain ⟨hp, hcmd⟩ := cstr_eq_some h
  obtain ⟨d, hd, hiff⟩ := strcmp_eq_zero_iff (p := litExit) (by decide) hp
  refine ⟨d, hd, hiff.trans ?_⟩
  rw [hcmd, show beforeNul litExit = ascii "exit" by decide]
  exact eq_comm

section Rounds

variable {s : State}

/-- At the end of the input. -/
theorem body_eof (h : s.stdin = []) : body s =
    { events := [.printf (ascii "> "), .fgets none, .perror "fgets"],
      result := .error (.exited EXIT_FAILURE) } := by
  unfold body
  rw [h, readline_eof]
  rfl

/-- A round that reads a piece parses it and goes on with its tokens. -/
theorem body_read (hs : Ready s) (hne : s.stdin ≠ []) (h0 : 0 ∉ piece s.stdin)
    (hlen : (tokens delim (piece s.stdin)).length ≤ 10) :
    ∃ line s', Ready s' ∧ s'.n = s.n ∧ s'.stdin = behind s.stdin ∧ s'.procs = s.procs ∧
      argStrings s'.cmdline s'.cmdargv = some (tokens delim (piece s.stdin)) ∧
      body s =
        { events := reading line ++ (dispatch s' (tokens delim (piece s.stdin)).length).events,
          result := (dispatch s' (tokens delim (piece s.stdin)).length).result } := by
  have hlt : (tokens delim (piece s.stdin)).length < s.cmdargv.length := by
    rw [hs.cmdargv]
    omega
  have hpiece : (piece s.stdin).length ≤ 255 := takeLine_length_le 255 s.stdin
  obtain ⟨cmdargv, cmdline, hparse, hargs, hslots, hbytes⟩ :=
    parse_command_eq h0 (s.cmdline.drop ((piece s.stdin).length + 1)) hlt (by omega)
  refine ⟨piece s.stdin ++ 0 :: s.cmdline.drop ((piece s.stdin).length + 1),
    { s with cmdline, cmdargv, stdin := behind s.stdin }, ⟨?_, hslots.trans hs.cmdargv⟩, rfl, rfl,
    rfl, hargs, ?_⟩
  · change cmdline.length = 256
    rw [hbytes, List.length_append, List.length_cons, List.length_drop, hs.cmdline]
    omega
  · unfold body
    rw [readline_eq hs.cmdline hne, Traced.bind_ok rfl]
    simp only [hparse, checked, Traced.pure_bind]

/-- With a command at hand the round asks whether it is `exit`. -/
theorem dispatch_eq {cmd : Bytes} {args : List Bytes}
    (h : argStrings s.cmdline s.cmdargv = some (cmd :: args)) :
    dispatch s (cmd :: args).length =
      if cmd = ascii "exit" then Traced.stop (.returned 0)
      else run_command (s.n + 1) s.cmdline s.cmdargv s.procs.head >>= fun _ =>
        pure { s with n := s.n + 1, procs := s.procs.tail } := by
  have hlen : (cmd :: args).length ≠ 0 := Nat.succ_ne_zero _
  obtain ⟨p, hp, hcmd⟩ := argStrings_cons h
  obtain ⟨d, hd, hiff⟩ := strcmp_exit hcmd
  unfold dispatch
  rw [if_neg hlen, hp, Traced.orStop_some, Traced.pure_bind, hd, Traced.orStop_some,
    Traced.pure_bind]
  exact if_congr hiff rfl rfl

theorem dispatch_exit {args : List Bytes}
    (h : argStrings s.cmdline s.cmdargv = some (ascii "exit" :: args)) :
    dispatch s (ascii "exit" :: args).length = Traced.stop (.returned 0) := by
  rw [dispatch_eq h, if_pos rfl]

theorem dispatch_command {cmd : Bytes} {args : List Bytes}
    (h : argStrings s.cmdline s.cmdargv = some (cmd :: args)) (hcmd : cmd ≠ ascii "exit")
    (hran : s.procs.head.Ran) :
    dispatch s (cmd :: args).length =
      { events := running (s.n + 1) cmd args s.procs.head,
        result := .ok { s with n := s.n + 1, procs := s.procs.tail } } := by
  rw [dispatch_eq h, if_neg hcmd, run_command_eq h hran, Traced.bind_ok rfl, Traced.pure_eq,
    List.append_nil]

end Rounds

/-! ## The loop -/

theorem loop_ok {s s' : State} (h : (body s).result = .ok s') :
    loop s = ((body s).events ++ (loop s').1, (loop s').2) := by
  rw [loop]
  split
  · rename_i e he
    rw [h] at he
    cases he
  · rename_i s₁ he
    rw [h] at he
    cases he
    rfl

theorem loop_error {s : State} {e : Stop} (h : (body s).result = .error e) :
    loop s = ((body s).events, e) := by
  rw [loop]
  split
  · rename_i e₁ he
    rw [h] at he
    cases he
    rfl
  · rename_i s₁ he
    rw [h] at he
    cases he

theorem behind_shrinks {stdin : Bytes} (h : stdin ≠ []) :
    (behind stdin).length < stdin.length := by
  have hpos : 0 < (takeLine 255 stdin).1.length :=
    List.length_pos_iff.mpr fun hnil => h (takeLine_eq_nil.mp hnil)
  have hsplit := congrArg List.length (takeLine_append 255 stdin)
  rw [List.length_append] at hsplit
  change (takeLine 255 stdin).2.length < stdin.length
  omega

section Loop

variable {s : State}

/-- The loop ends with the input. -/
theorem loop_eof (h : s.stdin = []) :
    loop s = ([.printf (ascii "> "), .fgets none, .perror "fgets"], .exited EXIT_FAILURE) := by
  rw [loop_error (congrArg Traced.result (body_eof h)), body_eof h]

variable (hs : Ready s) (hne : s.stdin ≠ []) (h0 : 0 ∉ piece s.stdin)

include hs hne h0

/-- A blank line is skipped. -/
theorem loop_blank (htokens : tokens delim (piece s.stdin) = []) :
    ∃ line s', Ready s' ∧ s'.n = s.n ∧ s'.stdin = behind s.stdin ∧ s'.procs = s.procs ∧
      loop s = (reading line ++ (loop s').1, (loop s').2) := by
  obtain ⟨line, s', hs', hn, hstdin, hprocs, _, hbody⟩ :=
    body_read hs hne h0 (htokens ▸ Nat.zero_le 10)
  rw [htokens] at hbody
  refine ⟨line, s', hs', hn, hstdin, hprocs, ?_⟩
  rw [loop_ok (congrArg Traced.result hbody), hbody]
  rfl

variable {cmd : Bytes} {args : List Bytes}
  (htokens : tokens delim (piece s.stdin) = cmd :: args) (hlen : (cmd :: args).length ≤ 10)

/-- The loop is left at `exit`. -/
theorem loop_exit {args : List Bytes}
    (htokens : tokens delim (piece s.stdin) = ascii "exit" :: args)
    (hlen : (ascii "exit" :: args).length ≤ 10) :
    ∃ line, loop s = (reading line, .returned 0) := by
  obtain ⟨line, s', _, _, _, _, hargs, hbody⟩ := body_read hs hne h0 (htokens ▸ hlen)
  rw [htokens] at hargs hbody
  rw [dispatch_exit hargs] at hbody
  refine ⟨line, ?_⟩
  rw [loop_error (congrArg Traced.result hbody), hbody]
  rfl

include htokens hlen

/-- A command is run, and the loop goes on. -/
theorem loop_command (hcmd : cmd ≠ ascii "exit") (hran : s.procs.head.Ran) :
    ∃ line s', Ready s' ∧ s'.n = s.n + 1 ∧ s'.stdin = behind s.stdin ∧
      s'.procs = s.procs.tail ∧
      loop s =
        (reading line ++ (running s'.n cmd args s.procs.head ++ (loop s').1), (loop s').2) := by
  obtain ⟨line, s', hs', hn, hstdin, hprocs, hargs, hbody⟩ :=
    body_read hs hne h0 (htokens ▸ hlen)
  rw [htokens] at hargs hbody
  rw [dispatch_command hargs hcmd (hprocs ▸ hran)] at hbody
  refine ⟨line, { s' with n := s'.n + 1, procs := s'.procs.tail },
    ⟨hs'.cmdline, hs'.cmdargv⟩, congrArg (· + 1) hn, hstdin, congrArg Stream'.tail hprocs, ?_⟩
  rw [loop_ok (congrArg Traced.result hbody), hbody, List.append_assoc, hprocs]

end Loop

end OsProg.Shell
