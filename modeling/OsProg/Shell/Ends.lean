import OsProg.Infra.Ownership
import OsProg.Shell.Abstract

/-!
# How the shell ends

The end of a run and the commands until then, read off the tokens of its lines: at the first line
with too many tokens or with `exit`, at the first process that cannot be started or waited for,
or at the end of the input. Until then every process that is started is also waited for, before
the next one is started.

* `End` — the ends
* `main_end_iff` — exactly those happen
* `main_children` — at most one child, and none is left unless `waitpid` fails
-/

namespace OsProg.Shell

open Infra

/-! ## The ends -/

/-- A process that the shell survives. -/
structure Process.Survived (proc : Process) : Prop where
  fork : proc.fork ≠ -1
  waitpid : proc.waitpid ≠ -1

instance (proc : Process) : Decidable proc.Survived :=
  decidable_of_iff (proc.fork ≠ -1 ∧ proc.waitpid ≠ -1)
    ⟨fun h => ⟨h.1, h.2⟩, fun h => ⟨h.fork, h.waitpid⟩⟩

theorem lost_waitpid {proc : Process} (h : ¬proc.Survived)
    (hfork : proc.fork ≠ -1) : proc.waitpid = -1 := by
  by_contra hwait
  exact h ⟨hfork, hwait⟩

/-- The commands among the lines. -/
def ran (argvs : List (List Bytes)) : List (List Bytes) := argvs.filter fun argv => argv ≠ []

/-- Lines that the shell gets past. -/
structure Passes (argvs : List (List Bytes)) (procs : Stream' Process) : Prop where
  fits : ∀ argv ∈ argvs, argv.length ≤ 10
  goesOn : ∀ argv ∈ argvs, isExit argv = false
  survived : ∀ i < (ran argvs).length, (procs.get i).Survived

/-- How a run on these lines ends, and the commands that it has called. -/
inductive End (argvs : List (List Bytes)) (procs : Stream' Process) :
    List (List Bytes) → Stop → Prop where
  | overflow (before : List (List Bytes)) (argv : List Bytes) (after : List (List Bytes)) :
    argvs = before ++ argv :: after → Passes before procs → 10 < argv.length →
    End argvs procs (ran before) (.fault .cmdargv)
  | exit (before : List (List Bytes)) (argv : List Bytes) (after : List (List Bytes)) :
    argvs = before ++ argv :: after → Passes before procs → argv.length ≤ 10 →
    isExit argv = true → End argvs procs (ran before) (.returned 0)
  | lost (before : List (List Bytes)) (argv : List Bytes) (after : List (List Bytes)) :
    argvs = before ++ argv :: after → Passes before procs → argv.length ≤ 10 → argv ≠ [] →
    isExit argv = false → ¬(procs.get (ran before).length).Survived →
    End argvs procs (ran before ++ [argv]) (.exited EXIT_FAILURE)
  | eof : Passes argvs procs → End argvs procs (ran argvs) (.exited EXIT_FAILURE)

/-- The calls of `run_command` behind `n` of them. The number is a 32-bit word. -/
def called (n : BitVec 32) : List (List Bytes) → List (Int × List Bytes)
  | [] => []
  | argv :: argvs => ((n + 1).toInt, argv) :: called (n + 1) argvs

/-! ## Some end is reached -/

section Ends

variable {argvs : List (List Bytes)} {procs : Stream' Process}

theorem ran_append (argvs argvs' : List (List Bytes)) : ran (argvs ++ argvs') =
    ran argvs ++ ran argvs' := List.filter_append ..

theorem ran_blank : ran [[]] = [] := rfl

theorem passes_nil (procs : Stream' Process) : Passes [] procs := ⟨nofun, nofun, nofun⟩

theorem Passes.blank (h : Passes argvs procs) : Passes (argvs ++ [[]]) procs where
  fits argv hargv := by
    rcases List.mem_append.mp hargv with hargv | hargv
    · exact h.fits argv hargv
    · rw [List.mem_singleton.mp hargv]
      exact Nat.zero_le 10
  goesOn argv hargv := by
    rcases List.mem_append.mp hargv with hargv | hargv
    · exact h.goesOn argv hargv
    · rw [List.mem_singleton.mp hargv]
      rfl
  survived i hi := by
    rw [ran_append, ran_blank, List.append_nil] at hi
    exact h.survived i hi

theorem Passes.command {argv : List Bytes} (h : Passes argvs procs) (hlen : argv.length ≤ 10)
    (hexit : isExit argv = false) (hproc : (procs.get (ran argvs).length).Survived) :
    Passes (argvs ++ [argv]) procs where
  fits := by
    simpa [or_imp, forall_and, hlen] using h.fits
  goesOn := by
    simpa [or_imp, forall_and, hexit] using h.goesOn
  survived i hi := by
    rw [ran_append, List.length_append] at hi
    have hone : (ran [argv]).length ≤ 1 := List.length_filter_le ..
    rcases Nat.lt_or_ge i (ran argvs).length with hlt | hge
    · exact h.survived i hlt
    · rwa [show i = (ran argvs).length from by omega]

theorem Passes.of_blank (h : Passes ([] :: argvs) procs) : Passes argvs procs where
  fits argv hargv := h.fits argv (List.mem_cons_of_mem _ hargv)
  goesOn argv hargv := h.goesOn argv (List.mem_cons_of_mem _ hargv)
  survived := h.survived

theorem Passes.tail {cmd : Bytes} {args : List Bytes} (h : Passes ((cmd :: args) :: argvs) procs) :
    Passes argvs procs.tail where
  fits argv hargv := h.fits argv (List.mem_cons_of_mem _ hargv)
  goesOn argv hargv := h.goesOn argv (List.mem_cons_of_mem _ hargv)
  survived i hi := h.survived (i + 1) (Nat.succ_lt_succ hi)

/-- An end stays the end whatever is behind it. -/
theorem End.append {cmds : List (List Bytes)} {stop : Stop} (h : End argvs procs cmds stop)
    (argvs' : List (List Bytes)) :
    End (argvs ++ argvs') procs cmds stop ∨ Passes argvs procs := by
  cases h with
  | overflow before argv after heq hpasses hlen =>
    subst heq
    exact .inl (.overflow before argv (after ++ argvs') (by simp) hpasses hlen)
  | exit before argv after heq hpasses hlen hexit =>
    subst heq
    exact .inl (.exit before argv (after ++ argvs') (by simp) hpasses hlen hexit)
  | lost before argv after heq hpasses hlen hne hexit hproc =>
    subst heq
    exact .inl (.lost before argv (after ++ argvs') (by simp) hpasses hlen hne hexit hproc)
  | eof hpasses => exact .inr hpasses

theorem exists_end (argvs : List (List Bytes)) (procs : Stream' Process) :
    ∃ cmds stop, End argvs procs cmds stop := by
  -- line by line: an end that was reached stays, and else the next line is passed or is the end
  induction argvs using List.reverseRecOn with
  | nil => exact ⟨_, _, .eof (passes_nil procs)⟩
  | append_singleton argvs argv ih =>
    obtain ⟨cmds, stop, hend⟩ := ih
    rcases hend.append [argv] with hend | hpasses
    · exact ⟨cmds, stop, hend⟩
    · by_cases hne : argv = []
      · subst hne
        exact ⟨_, _, .eof hpasses.blank⟩
      · rcases Nat.lt_or_ge 10 argv.length with hlen | hlen
        · exact ⟨_, _, .overflow argvs argv [] rfl hpasses hlen⟩
        · cases hexit : isExit argv with
          | true => exact ⟨_, _, .exit argvs argv [] rfl hpasses hlen hexit⟩
          | false =>
            by_cases hproc : (procs.get (ran argvs).length).Survived
            · exact ⟨_, _, .eof (hpasses.command hlen hexit hproc)⟩
            · exact ⟨_, _, .lost argvs argv [] rfl hpasses hlen hne hexit hproc⟩

end Ends

/-! ## The machine reaches it -/

theorem calls_cons_prompt (events : List Event) : calls (prompt :: events) = calls events := rfl

theorem runJob_survived {n : BitVec 32} {cmd : Bytes} {args : List Bytes} {proc : Process}
    (h : proc.Survived) : runJob n cmd args proc = (running n cmd args proc, none) := by
  rw [runJob, if_neg h.fork, if_neg h.waitpid]

theorem runJob_lost {n : BitVec 32} {cmd : Bytes} {args : List Bytes} {proc : Process}
    (h : ¬proc.Survived) : (runJob n cmd args proc).2 = some (.exited EXIT_FAILURE) ∧
      calls (runJob n cmd args proc).1 = [(n.toInt, cmd :: args)] := by
  unfold runJob
  by_cases hfork : proc.fork = -1
  · rw [if_pos hfork]
    exact ⟨rfl, rfl⟩
  · rw [if_neg hfork, if_pos (lost_waitpid h hfork)]
    exact ⟨rfl, rfl⟩

/-- What a run of the machine says about its end. -/
def ending (result : List Event × Stop) : List (Int × List Bytes) × Stop :=
  (calls result.1, result.2)

theorem ending_blank (n : BitVec 32) (argvs : List (List Bytes)) (procs : Stream' Process) :
    ending (machine n ([] :: argvs) procs) = ending (machine n argvs procs) := rfl

theorem calls_append (events events' : List Event) :
    calls (events ++ events') = calls events ++ calls events' := List.filterMap_append

theorem ending_command {cmd : Bytes} {args : List Bytes} (hlen : (cmd :: args).length ≤ 10)
    (hexit : isExit (cmd :: args) = false) (n : BitVec 32) (argvs : List (List Bytes))
    {procs : Stream' Process} (hproc : procs.head.Survived) :
    ending (machine n ((cmd :: args) :: argvs) procs) =
      (((n + 1).toInt, cmd :: args) :: (ending (machine (n + 1) argvs procs.tail)).1,
        (ending (machine (n + 1) argvs procs.tail)).2) := by
  have hcmd : cmd ≠ ascii "exit" := fun hcmd => by simp [isExit_cons.mpr hcmd] at hexit
  rw [machine_job n argvs procs hlen hcmd, runJob_survived hproc]
  simp only [ending, calls_cons_prompt, calls_append]
  rfl

theorem ending_lost {cmd : Bytes} {args : List Bytes} (hlen : (cmd :: args).length ≤ 10)
    (hexit : isExit (cmd :: args) = false) (n : BitVec 32) (argvs : List (List Bytes))
    {procs : Stream' Process} (hproc : ¬procs.head.Survived) :
    ending (machine n ((cmd :: args) :: argvs) procs) =
      (called n [cmd :: args], .exited EXIT_FAILURE) := by
  have hcmd : cmd ≠ ascii "exit" := fun hcmd => by simp [isExit_cons.mpr hcmd] at hexit
  obtain ⟨hstop, hcalls⟩ := @runJob_lost (n + 1) cmd args _ hproc
  rw [machine_job n argvs procs hlen hcmd, hstop]
  simp only [ending, calls_cons_prompt, hcalls]
  rfl

/-- **Behind lines that the shell gets past** it ends as it would without them. -/
theorem ending_before {argvs cmds : List (List Bytes)} {stop : Stop} :
    ∀ {before : List (List Bytes)} (n : BitVec 32) {procs : Stream' Process},
      Passes before procs →
      (∀ n', ending (machine n' argvs (procs.drop (ran before).length)) =
        (called n' cmds, stop)) →
      ending (machine n (before ++ argvs) procs) = (called n (ran before ++ cmds), stop)
  | [], n, procs, _, h => h n
  | [] :: before, n, procs, hpasses, h => by
    rw [List.cons_append, ending_blank]
    exact ending_before n hpasses.of_blank h
  | (cmd :: args) :: before, n, procs, hpasses, h => by
    have ih := ending_before (n + 1) hpasses.tail h
    rw [List.cons_append, ending_command (hpasses.fits _ List.mem_cons_self)
      (hpasses.goesOn _ List.mem_cons_self) n _ (hpasses.survived 0 (Nat.succ_pos _)), ih]
    rfl

/-- **The end of the machine** is the one that its lines and processes call for. -/
theorem machine_end {argvs cmds : List (List Bytes)} {procs : Stream' Process} {stop : Stop}
    (h : End argvs procs cmds stop) (n : BitVec 32) :
    ending (machine n argvs procs) = (called n cmds, stop) := by
  cases h with
  | overflow before argv after heq hpasses hlen =>
    rw [heq, ← List.append_nil (ran before)]
    refine ending_before n hpasses fun n' => ?_
    rw [machine_overflow n' after _ hlen]
    rfl
  | exit before argv after heq hpasses hlen hexit =>
    rw [heq, ← List.append_nil (ran before)]
    refine ending_before n hpasses fun n' => ?_
    cases argv with
    | nil => cases hexit
    | cons cmd args =>
      obtain rfl := isExit_cons.mp hexit
      rw [machine_exit n' after _ hlen]
      rfl
  | lost before argv after heq hpasses hlen hne hexit hproc =>
    rw [heq]
    refine ending_before n hpasses fun n' => ?_
    cases argv with
    | nil => exact absurd rfl hne
    | cons cmd args =>
      refine ending_lost hlen hexit n' after ?_
      rwa [show (procs.drop (ran before).length).head = procs.get (ran before).length from
        congrArg procs.get (Nat.zero_add _)]
  | eof hpasses =>
    have h := @ending_before [] [] (.exited EXIT_FAILURE) _ n _ hpasses fun n' => rfl
    rwa [List.append_nil, List.append_nil] at h

theorem map_snd_called : ∀ (n : BitVec 32) (cmds : List (List Bytes)),
    (called n cmds).map Prod.snd = cmds
  | _, [] => rfl
  | n, cmd :: cmds => congrArg (cmd :: ·) (map_snd_called (n + 1) cmds)

/-- The reading says nothing about the end. -/
theorem ending_seen (result : List Event × Stop) : ending (seen result) = ending result := by
  have hcalls : calls (seen result).1 = calls result.1 :=
    filterMap_seen (fun | .fgets _, _ => rfl) result
  rw [ending, hcalls]
  rfl

/-- The end of a run, and the only one. -/
theorem ending_iff (cmdline : CharArray 256) (cmdargv : Vector (Option Nat) 11) (stdin : Bytes)
    (procs : Stream' Process) (cmds : List (List Bytes)) (stop : Stop) :
    calls (main cmdline cmdargv stdin procs).1 = called 0 cmds ∧
        (main cmdline cmdargv stdin procs).2 = stop ↔
      End ((pieces stdin).map words) procs cmds stop := by
  have hseen := loop_machine _ (ready_main cmdline cmdargv stdin procs)
  have hend : ending (main cmdline cmdargv stdin procs) =
      ending (machine 0 ((pieces stdin).map words) procs) := by
    rw [← ending_seen, main, hseen]
  constructor
  · -- some end is reached, and the machine has one only
    rintro ⟨hcalls, hstop⟩
    obtain ⟨cmds', stop', h⟩ := exists_end ((pieces stdin).map words) procs
    have hmain := hend.trans (machine_end h 0)
    rw [ending, hcalls, hstop, Prod.mk.injEq] at hmain
    have hcmds := congrArg (List.map Prod.snd) hmain.1
    rw [map_snd_called, map_snd_called] at hcmds
    rwa [hcmds, hmain.2]
  · intro h
    have hmain := hend.trans (machine_end h 0)
    rwa [ending, Prod.mk.injEq] at hmain

/-- **How the shell ends**: for every input, whatever its arrays held and whatever becomes of its
processes, as long as nobody else moves the offset of its standard input. -/
theorem main_end_iff {fuel : Nat} {extra : Stream' Nat} (cmdline : CharArray 256)
    (cmdargv : Vector (Option Nat) 11) {stdin : InStream} {procs : Stream' Process}
    (hquiet : Quiet stdin procs) (hfuel : stdin.left.length < fuel) :
    ∃ result, mainOn fuel extra cmdline cmdargv stdin procs = some result ∧
      ∀ cmds stop, calls result.1 = called 0 cmds ∧ result.2 = stop ↔
        End ((pieces stdin.left).map words) procs cmds stop :=
  ⟨_, main_quiet hquiet hfuel, ending_iff cmdline cmdargv stdin.left procs⟩

/-- The second line is never read. -/
theorem main_end_iff_exit : ∃ result, mainOn 20 (Stream'.const 4096) zeros nulls
      (.opened (ascii "exit now\nls\n") true) succeeding = some result ∧
    calls result.1 = [] ∧ result.2 = .returned 0 := by
  obtain ⟨result, hmain, hend⟩ := @main_end_iff 20 (Stream'.const 4096) zeros nulls
    (.opened (ascii "exit now\nls\n") true) succeeding (.inr fun _ => rfl) (by decide)
  have hpieces : (pieces (ascii "exit now\nls\n")).map words =
      [[ascii "exit", ascii "now"], [ascii "ls"]] := by
    have hlast : behind (behind (ascii "exit now\nls\n")) = [] := rfl
    rw [pieces_cons (by decide), pieces_cons (by decide), hlast, pieces_nil]
    rfl
  refine ⟨result, hmain, (hend [] (.returned 0)).mpr ?_⟩
  rw [InStream.left_opened, hpieces]
  exact .exit [] _ _ rfl (passes_nil _) (by decide) rfl

/-! ## Children -/

/-- A child is there from `fork` until `waitpid` has returned its status. -/
def Event.child : Event → Option (Use Int)
  | .fork pid _ => if pid ≠ -1 then some (.acquire pid) else none
  | .waitpid pid result => if result ≠ -1 then some (.release pid) else none
  | _ => none

def children (trace : List Event) : List (Use Int) := trace.filterMap Event.child

/-- The trace of a shell that waits for its children, except for the last one when `waitpid`
fails. -/
def Waiting (trace : List Event) : Prop :=
  (∃ pids, children trace = inTurn pids ∧ ∀ pid, .waitpid pid (-1) ∉ trace) ∨
    ∃ pids pid, children trace = inTurn pids ++ [.acquire pid] ∧ .waitpid pid (-1) ∈ trace

theorem Waiting.prompt {trace : List Event} (h : Waiting trace) : Waiting (prompt :: trace) := by
  have hmem : ∀ pid, Event.waitpid pid (-1) ∈ Shell.prompt :: trace ↔ .waitpid pid (-1) ∈ trace :=
    fun pid => by simp [Shell.prompt]
  unfold Waiting
  simp only [hmem]
  exact h

theorem Waiting.running {trace : List Event} (h : Waiting trace) (n : BitVec 32) (cmd : Bytes)
    (args : List Bytes) {proc : Process} (hproc : proc.Survived) :
    Waiting (running n cmd args proc ++ trace) := by
  have hchildren : children (Shell.running n cmd args proc ++ trace) =
      .acquire proc.fork :: .release proc.fork :: children trace := by
    simp [children, Shell.running, List.filterMap_cons, Event.child, hproc.fork, hproc.waitpid]
  have hmem : ∀ pid, Event.waitpid pid (-1) ∈ Shell.running n cmd args proc ++ trace ↔
      .waitpid pid (-1) ∈ trace := fun pid => by
    simp [Shell.running, hproc.waitpid.symm]
  unfold Waiting
  simp only [hmem, hchildren]
  rcases h with ⟨pids, hpids, hnone⟩ | ⟨pids, pid, hpids, hlost⟩
  · exact .inl ⟨proc.fork :: pids, by rw [hpids]; rfl, hnone⟩
  · exact .inr ⟨proc.fork :: pids, pid, by rw [hpids]; rfl, hlost⟩

theorem waiting_lost (n : BitVec 32) (cmd : Bytes) (args : List Bytes) {proc : Process}
    (hproc : ¬proc.Survived) : Waiting (runJob n cmd args proc).1 := by
  unfold runJob
  by_cases hfork : proc.fork = -1
  · rw [if_pos hfork]
    exact .inl ⟨[], rfl, by simp⟩
  · rw [if_neg hfork, if_pos (lost_waitpid hproc hfork)]
    exact .inr ⟨[], proc.fork, by simp [children, List.filterMap_cons, Event.child, hfork, inTurn],
      by simp⟩

/-- Each command waits for its child, or is the last one. -/
theorem waiting_machine : ∀ (argvs : List (List Bytes)) (n : BitVec 32) (procs : Stream' Process),
    Waiting (machine n argvs procs).1
  | [], n, procs => .inl ⟨[], rfl, by simp [machine, prompt]⟩
  | argv :: argvs, n, procs => by
    have hstop : Waiting [prompt] := .inl ⟨[], rfl, by simp [prompt]⟩
    rcases Nat.lt_or_ge 10 argv.length with hlen | hlen
    · rw [machine_overflow n argvs procs hlen]
      exact hstop
    · cases argv with
      | nil =>
        rw [machine_blank]
        exact (waiting_machine argvs n procs).prompt
      | cons cmd args =>
        by_cases hcmd : cmd = ascii "exit"
        · subst hcmd
          rw [machine_exit n argvs procs hlen]
          exact hstop
        · rw [machine_job n argvs procs hlen hcmd]
          by_cases hproc : procs.head.Survived
          · rw [runJob_survived hproc]
            exact ((waiting_machine argvs (n + 1) procs.tail).running _ _ _ hproc).prompt
          · rw [(runJob_lost hproc).1]
            exact (waiting_lost _ _ _ hproc).prompt

/-- Reading starts nothing and waits for nothing. -/
theorem waiting_seen {result : List Event × Stop} (h : Waiting (seen result).1) :
    Waiting result.1 := by
  have hchildren : children (seen result).1 = children result.1 :=
    filterMap_seen (fun | .fgets _, _ => rfl) result
  have hmem : ∀ pid, Event.waitpid pid (-1) ∈ (seen result).1 ↔ .waitpid pid (-1) ∈ result.1 :=
    fun pid => by simp [seen, Event.isFgets]
  unfold Waiting at h ⊢
  simpa only [hchildren, hmem] using h

/-- **The children of the shell**: at no time is there more than one, and in the end none is
left, exactly when no `waitpid` has failed. -/
theorem main_children (cmdline : CharArray 256) (cmdargv : Vector (Option Nat) 11) (stdin : Bytes)
    (procs : Stream' Process) :
    (∀ before, before <+: (main cmdline cmdargv stdin procs).1 →
      ∃ held, (children before).foldlM Use.step [] = some held ∧ held.length ≤ 1) ∧
      (Tidy (children (main cmdline cmdargv stdin procs).1) ↔
        ∀ pid, .waitpid pid (-1) ∉ (main cmdline cmdargv stdin procs).1) := by
  have hwaiting : Waiting (main cmdline cmdargv stdin procs).1 := by
    refine waiting_seen ?_
    rw [main, loop_machine _ (ready_main cmdline cmdargv stdin procs)]
    exact waiting_machine _ _ _
  generalize (main cmdline cmdargv stdin procs).1 = trace at hwaiting
  have hfront : ∀ before, before <+: trace → children before <+: children trace :=
    fun _ h => h.filterMap _
  rw [tidy_iff]
  rcases hwaiting with ⟨pids, hpids, hnone⟩ | ⟨pids, pid, hpids, hlost⟩
  · rw [hpids, ← List.append_nil (inTurn pids)] at hfront
    rw [hpids]
    exact ⟨fun before hbefore => held_inTurn (.inl rfl) (hfront before hbefore), fun _ => hnone,
      fun _ => run_inTurn pids⟩
  · rw [hpids] at hfront ⊢
    refine ⟨fun before hbefore => held_inTurn (.inr ⟨pid, rfl⟩) (hfront before hbefore), ?_,
      fun hnone => absurd hlost (hnone pid)⟩
    intro hrun
    -- the last child would be held still
    obtain ⟨held, -, hlast⟩ := foldlM_append_iff.mp hrun
    cases hlast

end OsProg.Shell
