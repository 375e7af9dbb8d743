import OsProg.Shell.Round

/-!
# Standard input shared with the children

A shell on a standard input that it shares with its children does what it does on the bytes that it
reads (`loopOn_read`). When nobody moves the offset these are what standard input has to deliver
(`loopOn_quiet`): a descriptor that cannot seek is as good as children that all get through
`execvp`.
-/

namespace OsProg.Shell

open Infra Traced

/-- Nobody moves the offset of standard input but the shell. -/
def Quiet (stdin : InStream) (procs : Stream' Process) : Prop :=
  stdin.seekable = false ∨ ∀ k, (procs.get k).execvp = none

/-! ## What a round reads -/

section Round

variable {s s' : State}

/-- What is left is the end of what there was. -/
theorem body_suffix (h : (body s).result = .ok s') : s'.stdin <:+ s.stdin := by
  unfold body at h
  obtain ⟨⟨cmdline, stdin⟩, hread, h⟩ := result_bind_ok h
  obtain ⟨⟨num_args, cmdargv, cmdline'⟩, _, h⟩ := result_bind_ok h
  rw [dispatch_stdin h]
  unfold readline at hread
  obtain ⟨_, _, hread⟩ := result_bind_ok hread
  obtain ⟨⟨line, rest⟩, hfgets, hread⟩ := result_bind_ok hread
  obtain ⟨_, _, hread⟩ := result_bind_ok hread
  have hsuffix := fgets_suffix (orStop_ok hfgets)
  cases line with
  | none => cases hread
  | some line =>
    cases hread
    exact hsuffix

/-- A round takes one process, or none. -/
theorem dispatch_procs {num_args : Nat} (h : (dispatch s num_args).result = .ok s') :
    s'.procs = s.procs ∨ s'.procs = s.procs.tail := by
  unfold dispatch at h
  split at h
  · cases h
    exact .inl rfl
  · obtain ⟨cmd, _, h⟩ := result_bind_ok h
    obtain ⟨cmp, _, h⟩ := result_bind_ok h
    split at h
    · cases h
    · obtain ⟨_, _, h⟩ := result_bind_ok h
      cases h
      exact .inr rfl

theorem body_procs (h : (body s).result = .ok s') :
    s'.procs = s.procs ∨ s'.procs = s.procs.tail := by
  unfold body at h
  obtain ⟨⟨cmdline, stdin⟩, _, h⟩ := result_bind_ok h
  obtain ⟨⟨num_args, cmdargv, cmdline'⟩, _, h⟩ := result_bind_ok h
  exact dispatch_procs (s := { s with cmdline := cmdline', cmdargv, stdin }) h

theorem exits_child (argv : List Bytes) (proc : Process) :
    exits (child argv proc) = proc.execvp.isSome := by
  unfold child exits
  cases proc.execvp <;> rfl

/-- A process that gets through `execvp` leaves standard input alone. -/
theorem run_command_quiet {n : BitVec 32} {cmdline : Bytes} {argv : List (Option Nat)}
    {proc : Process} (h : proc.execvp = none) :
    ∀ e ∈ (run_command n cmdline argv proc).events, e.exits = false := by
  have hchild : ∀ args, exits (child args proc) = false := by
    intro args
    rw [exits_child, h]
    rfl
  intro e he
  unfold run_command at he
  rcases mem_events_bind he with he | ⟨args, _, he⟩
  · simp [orStop_events] at he
  rcases mem_events_bind he with he | ⟨cmd, _, he⟩
  · simp [orStop_events] at he
  simp only [emit_bind] at he
  by_cases hfork : proc.fork = -1
  · simp only [if_pos hfork, stop, List.mem_cons, List.not_mem_nil, or_false] at he
    rcases he with rfl | rfl | rfl <;> rfl
  · by_cases hwait : proc.waitpid = -1
    · simp only [if_neg hfork, if_pos hwait, stop, List.mem_cons, List.not_mem_nil, or_false] at he
      rcases he with rfl | rfl | rfl | rfl | rfl
      · rfl
      · exact hchild args
      all_goals rfl
    · simp only [if_neg hfork, if_neg hwait, emit, List.mem_cons, List.not_mem_nil, or_false] at he
      rcases he with rfl | rfl | rfl | rfl | rfl | rfl
      · rfl
      · exact hchild args
      all_goals rfl

theorem dispatch_quiet {num_args : Nat} (h : s.procs.head.execvp = none) :
    ∀ e ∈ (dispatch s num_args).events, e.exits = false := by
  intro e he
  unfold dispatch at he
  split at he
  · cases he
  · rcases mem_events_bind he with he | ⟨cmd, _, he⟩
    · simp [orStop_events] at he
    rcases mem_events_bind he with he | ⟨cmp, _, he⟩
    · simp [orStop_events] at he
    split at he
    · cases he
    · rcases mem_events_bind he with he | ⟨_, _, he⟩
      · exact run_command_quiet h e he
      · cases he

theorem readline_quiet (s : Bytes) (size : Nat) (stdin : Bytes) :
    ∀ e ∈ (readline s size stdin).events, e.exits = false := by
  intro e he
  unfold readline at he
  rw [emit_bind] at he
  rcases List.mem_cons.mp he with rfl | he
  · rfl
  rcases mem_events_bind he with he | ⟨⟨line, rest⟩, _, he⟩
  · simp [orStop_events] at he
  change e ∈ (emit (Event.fgets line) >>= _).events at he
  rw [emit_bind] at he
  rcases List.mem_cons.mp he with rfl | he
  · rfl
  cases line with
  | none =>
    rw [List.mem_singleton.mp he]
    rfl
  | some line => cases he

/-- **A round whose child gets through `execvp`**, or has none, leaves standard input alone. -/
theorem body_quiet (h : s.procs.head.execvp = none) :
    (body s).events.any Event.exits = false := by
  rw [List.any_eq_false]
  intro e he
  rw [Bool.not_eq_true]
  unfold body at he
  rcases mem_events_bind he with he | ⟨⟨cmdline, stdin⟩, _, he⟩
  · exact readline_quiet _ _ _ e he
  rcases mem_events_bind he with he | ⟨⟨num_args, cmdargv, cmdline'⟩, _, he⟩
  · unfold checked at he
    split at he <;> cases he
  · exact dispatch_quiet (s := { s with cmdline := cmdline', cmdargv, stdin }) h e he

end Round

/-! ## Nobody else moves the offset -/

/-- Standard input behind a round: what the children do to it comes last. -/
def afterRound (extra : Nat) (stdin : InStream) (s s' : State) : InStream :=
  if (body { s with stdin := stdin.left }).events.any Event.exits then
    (stdin.take extra (stdin.left.length - s'.stdin.length)).exit
  else stdin.take extra (stdin.left.length - s'.stdin.length)

section Loop

variable {fuel : Nat} {extra : Stream' Nat} {stdin : InStream} {s s' : State}

theorem loopOn_error {e : Stop} (h : (body { s with stdin := stdin.left }).result = .error e) :
    loopOn (fuel + 1) extra stdin s =
      some ((body { s with stdin := stdin.left }).events, e) := by
  rw [loopOn]
  simp only [h]

theorem loopOn_ok (h : (body { s with stdin := stdin.left }).result = .ok s') :
    loopOn (fuel + 1) extra stdin s =
      (loopOn fuel extra.tail (afterRound extra.head stdin s s') s').map fun rest =>
        ((body { s with stdin := stdin.left }).events ++ rest.1, rest.2) := by
  rw [loopOn]
  simp only [h]
  change (loopOn fuel extra.tail (afterRound extra.head stdin s s') s').bind _ = _
  cases loopOn fuel extra.tail (afterRound extra.head stdin s s') s' <;> rfl

/-- What a round leaves is the end of what there was. -/
theorem left_round (h : (body { s with stdin := stdin.left }).result = .ok s') (k : Nat) :
    (stdin.take k (stdin.left.length - s'.stdin.length)).left = s'.stdin := by
  rw [InStream.left_take]
  exact (List.suffix_iff_eq_drop.mp (body_suffix h)).symm

theorem afterRound_quiet (h : (body { s with stdin := stdin.left }).result = .ok s')
    (hquiet : Quiet stdin s.procs) (k : Nat) :
    (afterRound k stdin s s').left = s'.stdin ∧ Quiet (afterRound k stdin s s') s'.procs := by
  have hstays : afterRound k stdin s s' = stdin.take k (stdin.left.length - s'.stdin.length) := by
    unfold afterRound
    rcases hquiet with hseek | hexec
    · rw [InStream.exit_of_not_seekable (by rwa [InStream.seekable_take]), ite_self]
    · exact if_neg (by rw [@body_quiet { s with stdin := stdin.left } (hexec 0)]; simp)
  rw [hstays]
  refine ⟨left_round h k, ?_⟩
  rcases hquiet with hseek | hexec
  · exact .inl (by rwa [InStream.seekable_take])
  · rcases body_procs h with hprocs | hprocs
    · exact .inr fun k => hprocs ▸ hexec k
    · exact .inr fun k => hprocs ▸ hexec (k + 1)

/-- **A shell that has its standard input for itself** reads what it has to deliver. -/
theorem loopOn_quiet (hquiet : Quiet stdin s.procs) (hfuel : stdin.left.length < fuel) :
    loopOn fuel extra stdin s = some (loop { s with stdin := stdin.left }) := by
  induction fuel generalizing extra stdin s with
  | zero => exact absurd hfuel (Nat.not_lt_zero _)
  | succ fuel ih =>
    cases hround : (body { s with stdin := stdin.left }).result with
    | error e => rw [loopOn_error hround, loop_error hround]
    | ok s' =>
      have hshrinks : s'.stdin.length < stdin.left.length := body_shrinks hround
      obtain ⟨hleft, hquiet'⟩ := afterRound_quiet hround hquiet extra.head
      rw [loopOn_ok hround, loop_ok hround, ih hquiet' (by rw [hleft]; omega), hleft]
      rfl

theorem main_quiet {cmdline : CharArray 256} {cmdargv : Vector (Option Nat) 11}
    {procs : Stream' Process} (hquiet : Quiet stdin procs) (hfuel : stdin.left.length < fuel) :
    mainOn fuel extra cmdline cmdargv stdin procs =
      some (main cmdline cmdargv stdin.left procs) := loopOn_quiet hquiet hfuel

end Loop

/-! ## The bytes that are read -/

section Read

/-- A result with another standard input behind it. -/
def withStdin (stdin : Bytes) : Except Stop State → Except Stop State
  | .ok s => .ok { s with stdin }
  | .error e => .error e

theorem dispatch_input (s : State) (stdin : Bytes) (num_args : Nat) :
    (dispatch { s with stdin } num_args).events = (dispatch s num_args).events ∧
      (dispatch { s with stdin } num_args).result =
        withStdin stdin (dispatch s num_args).result := by
  unfold dispatch
  by_cases hnum : num_args = 0
  · rw [if_pos hnum, if_pos hnum]
    exact ⟨rfl, rfl⟩
  rw [if_neg hnum, if_neg hnum]
  cases s.cmdargv.head?.join with
  | none => exact ⟨rfl, rfl⟩
  | some cmd =>
    simp only [orStop_some, pure_bind]
    cases strcmp litExit (s.cmdline.drop cmd) with
    | none => exact ⟨rfl, rfl⟩
    | some cmp =>
      simp only [orStop_some, pure_bind]
      by_cases hcmp : cmp = 0
      · rw [if_pos hcmp, if_pos hcmp]
        exact ⟨rfl, rfl⟩
      · rw [if_neg hcmp, if_neg hcmp]
        generalize run_command (s.n + 1) s.cmdline s.cmdargv s.procs.head = ran
        obtain ⟨events, result⟩ := ran
        cases result <;> exact ⟨rfl, rfl⟩

/-- A round depends on the piece that it reads. -/
theorem body_input {s : State} {a b : Bytes} (h : piece a = piece b) :
    (body { s with stdin := b }).events = (body { s with stdin := a }).events ∧
      (body { s with stdin := b }).result =
        withStdin (behind b) (body { s with stdin := a }).result := by
  have ha : takeLine (256 - 1) a = (piece a, behind a) := rfl
  have hb : takeLine (256 - 1) b = (piece a, behind b) := by rw [h]
  unfold body readline
  dsimp only
  unfold fgets
  rw [ha, hb]
  dsimp only
  split
  · exact ⟨rfl, rfl⟩
  · split
    · simp only [orStop_some, pure_bind, emit_bind]
      rw [bind_ok (a := (_, behind b)) rfl, bind_ok (a := (_, behind a)) rfl]
      dsimp only
      rcases parse_command _ s.cmdargv with f | ⟨num_args, cmdargv, cmdline⟩
      · exact ⟨rfl, rfl⟩
      · obtain ⟨hevents, hresult⟩ :=
          dispatch_input { s with cmdline, cmdargv, stdin := behind a } (behind b) num_args
        simp only [checked, pure_bind]
        exact ⟨congrArg _ hevents, hresult⟩
    · exact ⟨rfl, rfl⟩

/-- A piece in front of other bytes is the first piece again. When the input ended behind it, there
must be none. -/
theorem takeLine_piece {stdin rest : Bytes} (h : behind stdin = [] → rest = []) :
    takeLine 255 (piece stdin ++ rest) = (piece stdin, rest) := by
  rcases takeLine_cases 255 stdin with ⟨line, hline, hpiece⟩ | ⟨hpiece, hfull | hlast⟩
  · have hlen := takeLine_length_le 255 stdin
    rw [hpiece, List.length_append, List.length_singleton] at hlen
    rw [piece, hpiece, List.append_assoc]
    exact takeLine_line hline hlen rest
  · have hlong := takeLine_long hpiece rest
    rwa [hfull] at hlong
  · rw [h hlast, List.append_nil]
    exact takeLine_last hpiece (takeLine_length_le 255 stdin)

/-- When the input has ended, the children do not make it longer. -/
theorem left_afterRound_nil {stdin : InStream} {s s' : State}
    (h : (body { s with stdin := stdin.left }).result = .ok s') (hnil : s'.stdin = []) (k : Nat) :
    (afterRound k stdin s s').left = [] := by
  have hleft := (left_round h k).trans hnil
  unfold afterRound
  split
  · exact InStream.left_exit_of_empty hleft
  · exact hleft

/-- A round leaves what is behind its piece. -/
theorem stdin_round {s s' : State} (h : (body s).result = .ok s') : s'.stdin = behind s.stdin := by
  have hsame := (@body_input s s.stdin s.stdin rfl).2
  rw [show ({ s with stdin := s.stdin } : State) = s from rfl, h] at hsame
  exact congrArg State.stdin (Except.ok.inj hsame)

/-- **The shell on the bytes that it reads.** Whatever is done to the offset, a run is a run on some
input that nobody else touches. -/
theorem loopOn_read : ∀ {fuel : Nat} {extra : Stream' Nat} {stdin : InStream} {s : State}
    {result : List Event × Stop}, loopOn fuel extra stdin s = some result →
    ∃ input, (stdin.left = [] → input = []) ∧ result = loop { s with stdin := input }
  | 0, _, _, _, _, h => by cases h
  | fuel + 1, extra, stdin, s, result, h => by
    cases hround : (body { s with stdin := stdin.left }).result with
    | error e =>
      rw [loopOn_error hround] at h
      cases h
      exact ⟨stdin.left, id, (loop_error hround).symm⟩
    | ok s' =>
      rw [loopOn_ok hround] at h
      obtain ⟨rest, hrest, rfl⟩ := Option.map_eq_some_iff.mp h
      obtain ⟨input, hinput, rfl⟩ := loopOn_read hrest
      have hbehind : s'.stdin = behind stdin.left := stdin_round hround
      -- the piece that was read, in front of what is read later
      have hpiece : takeLine 255 (piece stdin.left ++ input) = (piece stdin.left, input) :=
        takeLine_piece fun hnil => hinput (left_afterRound_nil hround (hbehind.trans hnil) _)
      obtain ⟨hevents, hresult⟩ :=
        @body_input s stdin.left (piece stdin.left ++ input) (congrArg Prod.fst hpiece).symm
      rw [hround, show behind (piece stdin.left ++ input) = input from congrArg Prod.snd hpiece]
        at hresult
      refine ⟨piece stdin.left ++ input, fun hnil => ?_, ?_⟩
      · rw [body_eof hnil] at hround
        cases hround
      · rw [loop_ok hresult, hevents]

end Read

/-! ## A shell that does not end -/

/-- `execvp` fails with `ENOENT`. -/
def failing : Process := { fork := 100, execvp := some 2, waitpid := 100, wstatus := 256 }

theorem failing_ran : failing.Ran :=
  ⟨show (0 : Int) < 100 by decide, show (100 : Int) ≠ -1 by decide⟩

/-- A round that reads a line of one letter and runs its command, which fails. -/
theorem round_failing {s : State} {c : UInt8} {rest : Bytes} (hs : Ready s)
    (hprocs : s.procs = Stream'.const failing) (hc : c ∉ delim) (hc0 : c ≠ 0)
    (hstdin : s.stdin = c :: newline :: rest) :
    ∃ s', (body s).result = .ok s' ∧ (body s).events.any Event.exits = true ∧ Ready s' ∧
      s'.procs = Stream'.const failing ∧ s'.stdin = rest := by
  have hnewline : newline ∉ [c] := by
    rw [List.mem_singleton]
    rintro rfl
    exact hc (show newline ∈ delim by decide)
  have hread : takeLine 255 s.stdin = ([c, newline], rest) := by
    rw [hstdin]
    exact takeLine_line hnewline (Nat.lt_add_left_iff_pos.mpr (by omega)) rest
  have hpiece : piece s.stdin = [c, newline] := congrArg Prod.fst hread
  have htokens : tokens delim (piece s.stdin) = [[c]] := by
    rw [hpiece]
    exact tokens_word (w := [c]) (d := newline) (fun b hb => by rwa [List.mem_singleton.mp hb])
      (List.cons_ne_nil _ _) (by decide) []
  have hcmd : [c] ≠ ascii "exit" := fun h => by simpa [ascii] using congrArg List.length h
  have hne : s.stdin ≠ [] := by
    rw [hstdin]
    exact List.cons_ne_nil _ _
  have h0 : 0 ∉ piece s.stdin := by
    rw [hpiece]
    simp [hc0.symm, newline]
  obtain ⟨line, s₁, hs₁, -, hrest, hprocs₁, hargs, hbody⟩ :=
    body_read hs hne h0 (by rw [htokens]; exact Nat.le_add_left 1 9)
  have hhead : s₁.procs.head = failing := by
    rw [hprocs₁, hprocs]
    rfl
  rw [htokens] at hargs hbody
  rw [dispatch_command hargs hcmd (hhead ▸ failing_ran), hhead] at hbody
  refine ⟨{ s₁ with n := s₁.n + 1, procs := s₁.procs.tail }, by rw [hbody], ?_,
    ⟨hs₁.cmdline, hs₁.cmdargv⟩, ?_, ?_⟩
  · rw [hbody, List.any_append, Bool.or_eq_true]
    exact .inr rfl
  · change s₁.procs.tail = _
    rw [hprocs₁, hprocs]
    rfl
  · exact hrest.trans (congrArg Prod.snd hread)

/-- Its child gives back what was read ahead. -/
theorem loopOn_failing {fuel : Nat} {stdin : InStream} {s : State} {c : UInt8} {rest : Bytes}
    (hs : Ready s) (hprocs : s.procs = Stream'.const failing) (hc : c ∉ delim) (hc0 : c ≠ 0)
    (hleft : stdin.left = c :: newline :: rest)
    (h : ∀ s', Ready s' → s'.procs = Stream'.const failing →
      loopOn fuel (Stream'.const 4096) (stdin.take 4096 2).exit s' = none) :
    loopOn (fuel + 1) (Stream'.const 4096) stdin s = none := by
  have hs' : Ready { s with stdin := stdin.left } := ⟨hs.cmdline, hs.cmdargv⟩
  obtain ⟨s', hround, hexits, hs', hprocs', hstdin⟩ := round_failing hs' hprocs hc hc0 hleft
  have hafter : afterRound 4096 stdin s s' = (stdin.take 4096 2).exit := by
    unfold afterRound
    have htaken : (c :: newline :: rest).length - rest.length = 2 := by
      simp only [List.length_cons]
      omega
    rw [if_pos hexits, hleft, hstdin, htaken]
  rw [loopOn_ok hround, Option.map_eq_none_iff,
    show (Stream'.const 4096).tail = Stream'.const 4096 from rfl,
    show (Stream'.const 4096).head = 4096 from rfl, hafter]
  exact h s' hs' hprocs'

/-- Three lines of one letter. -/
def threeLines : Bytes := ascii "a\nb\nc\n"

/-- The children move the offset back by four bytes, by two and by none, and then all is as it
was. -/
theorem loopOn_threeLines (fuel : Nat) : ∀ s, Ready s → s.procs = Stream'.const failing →
    loopOn fuel (Stream'.const 4096) (.opened threeLines true) s = none ∧
      loopOn fuel (Stream'.const 4096) ⟨threeLines, 2, ascii "b\nc\n", true⟩ s = none ∧
      loopOn fuel (Stream'.const 4096) ⟨threeLines, 0, ascii "c\n", true⟩ s = none := by
  induction fuel with
  | zero => exact fun _ _ _ => ⟨rfl, rfl, rfl⟩
  | succ fuel ih =>
    intro s hs hprocs
    refine ⟨?_, ?_, ?_⟩
    · exact loopOn_failing hs hprocs (c := 0x61) (by decide) (by decide) rfl
        fun s' hs' hprocs' => (ih s' hs' hprocs').2.1
    · exact loopOn_failing hs hprocs (c := 0x62) (by decide) (by decide) rfl
        fun s' hs' hprocs' => (ih s' hs' hprocs').2.2
    · exact loopOn_failing hs hprocs (c := 0x63) (by decide) (by decide) rfl
        fun s' hs' hprocs' => (ih s' hs' hprocs').1

/-! ## The shell -/

end OsProg.Shell
