import OsProg.Shell.Tokenize

/-!
# The shell on every input

What the shell does with any input and any fate of its processes, without its arrays and
pointers: `machine` works on the tokens of the pieces into which `fgets` cuts the input. The shell
does the same (`loop_machine`). Lines of any length, any number of tokens, NUL bytes and failures
of `fork` and `waitpid` are all part of it.
-/

namespace OsProg.Shell

open Infra

/-! ## The abstract machine -/

/-- The pieces in which `fgets` hands over an input. -/
def pieces (stdin : Bytes) : List Bytes :=
  if _ : stdin = [] then [] else piece stdin :: pieces (behind stdin)
termination_by stdin.length
decreasing_by exact behind_shrinks (by assumption)

/-- What the shell sees of a piece: its tokens up to the first NUL. -/
def words (p : Bytes) : List Bytes := tokens delim (beforeNul p)

/-- A command: what can be seen of it, and how the shell ends when it cannot go on. -/
def runJob (n : BitVec 32) (cmd : Bytes) (args : List Bytes) (proc : Process) :
    List Event × Option Stop :=
  if proc.fork = -1 then
    ([.run_command n.toInt (cmd :: args), .fork (-1) [], .perror "fork"],
      some (.exited EXIT_FAILURE))
  else if proc.waitpid = -1 then
    -- the child was started, and the shell leaves it
    ([.run_command n.toInt (cmd :: args), .fork proc.fork (child (cmd :: args) proc),
        .printf (ascii "= started " ++ job n proc.fork cmd ++ ascii "\n"),
        .waitpid proc.fork (-1), .perror "waitpid"],
      some (.exited EXIT_FAILURE))
  else (running n cmd args proc, none)

def prompt : Event := .printf (ascii "> ")

/-- The shell, behind `n` commands. -/
def machine (n : BitVec 32) : List (List Bytes) → Stream' Process → List Event × Stop
  | [], _ => ([prompt, .perror "fgets"], .exited EXIT_FAILURE)
  | argv :: argvs, procs =>
    -- with the NULL behind them there is room for ten tokens
    if 10 < argv.length then ([prompt], .fault .cmdargv)
    else
      match argv with
      | [] =>
        -- an empty command has no number
        let (events, stop) := machine n argvs procs
        (prompt :: events, stop)
      | cmd :: args =>
        if cmd = ascii "exit" then ([prompt], .returned 0)
        else
          match runJob (n + 1) cmd args procs.head with
          | (events, some stop) => (prompt :: events, stop)
          | (events, none) =>
            let (events', stop) := machine (n + 1) argvs procs.tail
            (prompt :: (events ++ events'), stop)

section Machine

variable (n : BitVec 32) {argv cmd : List Bytes} (argvs : List (List Bytes))
  (procs : Stream' Process)

theorem machine_overflow (h : 10 < argv.length) :
    machine n (argv :: argvs) procs = ([prompt], .fault .cmdargv) := by
  rw [machine.eq_def]
  exact if_pos h

theorem machine_blank :
    machine n ([] :: argvs) procs =
      (prompt :: (machine n argvs procs).1, (machine n argvs procs).2) := rfl

theorem machine_exit {args : List Bytes} (h : (ascii "exit" :: args).length ≤ 10) :
    machine n ((ascii "exit" :: args) :: argvs) procs = ([prompt], .returned 0) := by
  rw [machine.eq_def]
  exact (if_neg (Nat.not_lt.mpr h)).trans (if_pos rfl)

/-- A command, and the rounds behind it if there are any. -/
theorem machine_job {cmd : Bytes} {args : List Bytes} (h : (cmd :: args).length ≤ 10)
    (hcmd : cmd ≠ ascii "exit") :
    machine n ((cmd :: args) :: argvs) procs =
      match (runJob (n + 1) cmd args procs.head).2 with
      | some stop => (prompt :: (runJob (n + 1) cmd args procs.head).1, stop)
      | none =>
        (prompt :: ((runJob (n + 1) cmd args procs.head).1 ++
            (machine (n + 1) argvs procs.tail).1),
          (machine (n + 1) argvs procs.tail).2) := by
  rw [machine.eq_def]
  refine (if_neg (Nat.not_lt.mpr h)).trans ((if_neg hcmd).trans ?_)
  generalize runJob (n + 1) cmd args procs.head = ran
  obtain ⟨events, stop⟩ := ran
  cases stop <;> rfl

end Machine

/-- What can be seen of a run: all but the reading. -/
def seen (result : List Event × Stop) : List Event × Stop :=
  (result.1.filter fun e => !e.isFgets, result.2)

/-! ## Pieces -/

theorem pieces_nil : pieces [] = [] := by
  rw [pieces, dif_pos rfl]

theorem pieces_cons {stdin : Bytes} (h : stdin ≠ []) :
    pieces stdin = piece stdin :: pieces (behind stdin) := by
  rw [pieces, dif_neg h]

/-- **Nothing is lost or read twice.** -/
theorem pieces_flatten (stdin : Bytes) : (pieces stdin).flatten = stdin := by
  by_cases h : stdin = []
  · rw [h, pieces_nil]
    rfl
  · have hlt := behind_shrinks h
    rw [pieces_cons h, List.flatten_cons, pieces_flatten (behind stdin)]
    exact takeLine_append 255 stdin
termination_by stdin.length

/-! ## The round -/

section Rounds

variable {s : State}

/-- The array behind `fgets`. -/
def stored (s : State) : Bytes :=
  piece s.stdin ++ 0 :: s.cmdline.drop ((piece s.stdin).length + 1)

theorem stored_nul (s : State) : 0 ∈ stored s := List.mem_append_right _ List.mem_cons_self

theorem stored_length (hs : Ready s) : (stored s).length = 256 := by
  have hpiece : (piece s.stdin).length ≤ 255 := takeLine_length_le 255 s.stdin
  rw [stored, List.length_append, List.length_cons, List.length_drop, hs.cmdline]
  omega

/-- The string that is parsed, and what is behind it. -/
theorem stored_eq (s : State) :
    stored s = beforeNul (piece s.stdin) ++ 0 :: afterNul (stored s) := by
  have h := beforeNul_nul_afterNul (stored_nul s)
  rwa [show beforeNul (stored s) = beforeNul (piece s.stdin) from beforeNul_terminated _ _] at h

/-- A round with room for its tokens. -/
theorem body_words (hs : Ready s) (hne : s.stdin ≠ [])
    (hlen : (words (piece s.stdin)).length ≤ 10) :
    ∃ s', Ready s' ∧ s'.n = s.n ∧ s'.stdin = behind s.stdin ∧ s'.procs = s.procs ∧
      argStrings s'.cmdline s'.cmdargv = some (words (piece s.stdin)) ∧
      body s =
        { events := reading (stored s) ++ (dispatch s' (words (piece s.stdin)).length).events,
          result := (dispatch s' (words (piece s.stdin)).length).result } := by
  have hlt : (words (piece s.stdin)).length < s.cmdargv.length := by
    rw [hs.cmdargv]
    omega
  obtain ⟨cmdargv, cmdline, hparse, hargs, hslots, hbytes⟩ :=
    parse_command_eq (nul_not_mem_beforeNul _) (afterNul (stored s)) hlt
      (show (words (piece s.stdin)).length < 2 ^ 31 by omega)
  rw [← stored_eq] at hparse hbytes
  refine ⟨{ s with cmdline, cmdargv, stdin := behind s.stdin },
    ⟨hbytes.trans (stored_length hs), hslots.trans hs.cmdargv⟩, rfl, rfl, rfl, hargs, ?_⟩
  unfold body
  rw [readline_eq hs.cmdline hne, Traced.bind_ok rfl]
  rw [stored] at hparse
  simp only [hparse, checked, Traced.pure_bind]
  rfl

/-- A round that finds no slot for its tokens. -/
theorem body_overflow (hs : Ready s) (hne : s.stdin ≠ [])
    (hlen : 10 < (words (piece s.stdin)).length) :
    body s = { events := reading (stored s), result := .error (.fault .cmdargv) } := by
  have hparse : parse_command (stored s) s.cmdargv = .error .cmdargv := by
    rw [stored_eq]
    refine parseLoop_overflow (nul_not_mem_beforeNul _) [] _ rfl (i := 0) (Nat.zero_le _) (.inl ?_)
    rw [hs.cmdargv]
    exact hlen
  unfold body
  rw [readline_eq hs.cmdline hne, Traced.bind_ok rfl]
  rw [stored] at hparse
  simp only [hparse, checked]
  rfl

/-- The result of a command that the shell may not survive. -/
def resultOf : Option Stop → Except Stop Unit
  | none => .ok ()
  | some stop => .error stop

theorem run_command_job {n : BitVec 32} {cmdline cmd : Bytes} {argv : List (Option Nat)}
    {args : List Bytes} (h : argStrings cmdline argv = some (cmd :: args)) (proc : Process) :
    run_command n cmdline argv proc =
      { events := (runJob n cmd args proc).1, result := resultOf (runJob n cmd args proc).2 } := by
  unfold run_command runJob
  rw [h]
  simp only [Traced.orStop_some, Traced.pure_bind, List.head?_cons, Traced.emit_bind]
  by_cases hfork : proc.fork = -1
  · rw [if_pos hfork, if_pos hfork, hfork]
    rfl
  · rw [if_neg hfork, if_neg hfork]
    by_cases hwait : proc.waitpid = -1
    · simp only [hwait]
      rfl
    · simp only [if_neg hwait]
      rfl

/-- A round with a command. -/
theorem dispatch_job {cmd : Bytes} {args : List Bytes}
    (h : argStrings s.cmdline s.cmdargv = some (cmd :: args)) (hcmd : cmd ≠ ascii "exit") :
    (dispatch s (cmd :: args).length).events =
        (runJob (s.n + 1) cmd args s.procs.head).1 ∧
      (dispatch s (cmd :: args).length).result =
        match (runJob (s.n + 1) cmd args s.procs.head).2 with
        | none => .ok { s with n := s.n + 1, procs := s.procs.tail }
        | some stop => .error stop := by
  rw [dispatch_eq h, if_neg hcmd, run_command_job h]
  generalize runJob (s.n + 1) cmd args s.procs.head = ran
  obtain ⟨events, stop⟩ := ran
  cases stop with
  | none => exact ⟨List.append_nil events, rfl⟩
  | some stop => exact ⟨rfl, rfl⟩

end Rounds

/-! ## The loop -/

theorem seen_reading (line : Bytes) (result : List Event × Stop) :
    seen (reading line ++ result.1, result.2) = (prompt :: (seen result).1, (seen result).2) := rfl

theorem seen_append {events : List Event} (h : ∀ e ∈ events, e.isFgets = false)
    (result : List Event × Stop) :
    seen (events ++ result.1, result.2) = (events ++ (seen result).1, (seen result).2) := by
  have hall : events.filter (fun e => !e.isFgets) = events := by
    rw [List.filter_eq_self]
    intro e he
    rw [h e he]
    rfl
  rw [seen, List.filter_append, hall]
  rfl

/-- What is not about reading is seen. -/
theorem filterMap_seen {α : Type} {f : Event → Option α}
    (hf : ∀ e, e.isFgets = true → f e = none) (result : List Event × Stop) :
    (seen result).1.filterMap f = result.1.filterMap f := by
  rw [seen, List.filterMap_filter]
  refine List.filterMap_congr fun e _ => ?_
  cases he : e.isFgets with
  | true => exact (hf e he).symm
  | false => rfl

theorem not_isFgets_runJob (n : BitVec 32) (cmd : Bytes) (args : List Bytes) (proc : Process) :
    ∀ e ∈ (runJob n cmd args proc).1, e.isFgets = false := by
  unfold runJob
  split
  · simp [Event.isFgets]
  · split
    · simp [Event.isFgets]
    · simp [running, Event.isFgets]

/-- **The loop does what the machine does.** -/
theorem loop_machine (s : State) (hs : Ready s) :
    seen (loop s) = machine s.n ((pieces s.stdin).map words) s.procs := by
  -- by induction on the input that is left: a round of the shell is a line of the machine
  by_cases hne : s.stdin = []
  · rw [loop_eof hne, hne, pieces_nil]
    rfl
  · have hlt := behind_shrinks hne
    rw [pieces_cons hne, List.map_cons]
    by_cases hlen : 10 < (words (piece s.stdin)).length
    · have hbody := body_overflow hs hne hlen
      rw [machine_overflow _ _ _ hlen, loop_error (congrArg Traced.result hbody), hbody]
      rfl
    · obtain ⟨s', hs', hn, hstdin, hprocs, hargs, hbody⟩ := body_words hs hne (Nat.not_lt.mp hlen)
      cases hwords : words (piece s.stdin) with
      | nil =>
        rw [hwords] at hbody
        have ih := loop_machine s' hs'
        rw [hn, hstdin, hprocs] at ih
        rw [machine_blank, loop_ok (congrArg Traced.result hbody), hbody, ← ih]
        exact seen_reading (stored s) (loop s')
      | cons cmd args =>
        rw [hwords] at hbody hargs hlen
        by_cases hcmd : cmd = ascii "exit"
        · subst hcmd
          rw [dispatch_exit hargs] at hbody
          rw [machine_exit _ _ _ (Nat.not_lt.mp hlen), loop_error (congrArg Traced.result hbody),
            hbody]
          rfl
        · -- the same command for both, which the shell survives or not
          obtain ⟨hevents, hresult⟩ := dispatch_job hargs hcmd
          have hfgets := not_isFgets_runJob (s.n + 1) cmd args s.procs.head
          rw [hn, hprocs] at hevents hresult
          rw [hevents, hresult] at hbody
          rw [machine_job _ _ _ (Nat.not_lt.mp hlen) hcmd]
          generalize runJob (s.n + 1) cmd args s.procs.head = ran at hbody hfgets
          obtain ⟨events, stop⟩ := ran
          cases stop with
          | some stop =>
            have hseen := seen_append hfgets ([], stop)
            rw [loop_error (congrArg Traced.result hbody), hbody,
              seen_reading (stored s) (events, stop)]
            simpa [seen] using hseen
          | none =>
            have ih := loop_machine { s' with n := s.n + 1, procs := s.procs.tail }
              ⟨hs'.cmdline, hs'.cmdargv⟩
            rw [loop_ok (congrArg Traced.result hbody), hbody, List.append_assoc, ← hstdin, ← ih]
            exact (seen_reading (stored s) (_, _)).trans (by rw [seen_append hfgets])
termination_by s.stdin.length
decreasing_by
  all_goals
    simp only [hstdin]
    exact hlt

/-! ## The shell -/

/-- How an input is cut: no newline inside a piece, and a piece that is not the last one ends
with a newline or is full. -/
structure Cut (stdin : Bytes) (pieces : List Bytes) : Prop where
  whole : pieces.flatten = stdin
  length : ∀ p ∈ pieces, 0 < p.length ∧ p.length ≤ 255
  inside : ∀ p ∈ pieces, newline ∉ p.dropLast
  ends : ∀ p ∈ pieces.dropLast, p.getLast? = some newline ∨ p.length = 255

theorem pieces_cut (stdin : Bytes) : Cut stdin (pieces stdin) := by
  by_cases h : stdin = []
  · rw [h, pieces_nil]
    exact ⟨rfl, nofun, nofun, nofun⟩
  · have hlt := behind_shrinks h
    obtain ⟨-, hlength, hinside, hends⟩ := pieces_cut (behind stdin)
    have hpos : 0 < (piece stdin).length :=
      List.length_pos_iff.mpr fun hnil => h (takeLine_eq_nil.mp hnil)
    have hcases := takeLine_cases 255 stdin
    have hwhole := pieces_flatten stdin
    rw [pieces_cons h] at hwhole ⊢
    refine ⟨hwhole, ?_, ?_, ?_⟩
    · exact List.forall_mem_cons.mpr ⟨⟨hpos, takeLine_length_le 255 stdin⟩, hlength⟩
    · refine List.forall_mem_cons.mpr ⟨?_, hinside⟩
      rcases hcases with ⟨line, hline, hpiece⟩ | ⟨hpiece, -⟩
      · rw [piece, hpiece, List.dropLast_concat]
        exact hline
      · exact fun hmem => hpiece ((List.dropLast_subset _) hmem)
    · intro p hp
      cases hrest : pieces (behind stdin) with
      | nil =>
        rw [hrest] at hp
        cases hp
      | cons q qs =>
        rw [hrest, List.dropLast_cons_cons] at hp
        rcases List.mem_cons.mp hp with rfl | hp
        · -- there is more behind the first piece, so it was not ended by the end of the input
          rcases hcases with ⟨line, -, hpiece⟩ | ⟨-, hfull | hlast⟩
          · left
            rw [piece, hpiece, List.getLast?_concat]
          · exact .inr hfull
          · rw [show behind stdin = [] from hlast, pieces_nil] at hrest
            cases hrest
        · exact hends p (hrest ▸ hp)
termination_by stdin.length

/-- **The shell on every input**, whatever its arrays held and whatever becomes of its processes,
as long as nobody else moves the offset of its standard input: it does what the machine does with
the tokens of the pieces. -/
theorem main_machine {fuel : Nat} {extra : Stream' Nat} (cmdline : CharArray 256)
    (cmdargv : Vector (Option Nat) 11) {stdin : InStream} {procs : Stream' Process}
    (hquiet : Quiet stdin procs) (hfuel : stdin.left.length < fuel) :
    ∃ result, mainOn fuel extra cmdline cmdargv stdin procs = some result ∧
      seen result = machine 0 ((pieces stdin.left).map words) procs ∧
      Cut stdin.left (pieces stdin.left) :=
  ⟨_, main_quiet hquiet hfuel, loop_machine _ (ready_main cmdline cmdargv stdin.left procs),
    pieces_cut stdin.left⟩

/-- Processes that all fail, behind a pipe. -/
theorem main_machine_pipe : ∃ result, mainOn 20 (Stream'.const 4096) zeros nulls
      (.opened (ascii "a\nb\nc\n") false) (Stream'.const failing) = some result ∧
    seen result = machine 0 ((pieces (ascii "a\nb\nc\n")).map words) (Stream'.const failing) ∧
    Cut (ascii "a\nb\nc\n") (pieces (ascii "a\nb\nc\n")) :=
  main_machine zeros nulls (.inl rfl) (by decide)

end OsProg.Shell
