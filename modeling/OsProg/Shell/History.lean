import OsProg.Shell.Ends

/-!
# The history of the shell

What the shell has to say about its commands, read off the tokens of its lines and the fates of
its processes. The texts that it prints are those of its history (`transcript_main`), and they are
read in one way only (`selfDelimiting_entry`), since the name of a command is a token.
-/

namespace OsProg.Shell

open Infra

/-! ## The history -/

/-- What `waitpid` tells about a process. -/
inductive Fate where
  | exited (status : Nat)
  | signaled (sig : Nat)
  | other
  deriving DecidableEq, Repr

def fate (wstatus : Nat) : Fate :=
  if WIFEXITED wstatus then .exited (WEXITSTATUS wstatus)
  else if WIFSIGNALED wstatus then .signaled (WTERMSIG wstatus)
  else .other

inductive Entry where
  | prompt
  | started (n : BitVec 32) (pid : Int) (cmd : Bytes)
  | finished (n : BitVec 32) (pid : Int) (cmd : Bytes) (fate : Fate)
  deriving DecidableEq, Repr

/-- A command. Nothing is said about a `fork` or a `waitpid` that fails. -/
def jobHistory (n : BitVec 32) (cmd : Bytes) (proc : Process) : List Entry :=
  if proc.fork = -1 then []
  else if proc.waitpid = -1 then [.started n proc.fork cmd]
  else [.started n proc.fork cmd, .finished n proc.fork cmd (fate proc.wstatus)]

/-- The history of a shell behind `n` commands. -/
def history (n : BitVec 32) : List (List Bytes) → Stream' Process → List Entry
  | [], _ => [.prompt]
  | argv :: argvs, procs =>
    if 10 < argv.length then [.prompt]
    else
      match argv with
      | [] => .prompt :: history n argvs procs
      | cmd :: _ =>
        if cmd = ascii "exit" then [.prompt]
        else if procs.head.Survived then
          .prompt :: (jobHistory (n + 1) cmd procs.head ++ history (n + 1) argvs procs.tail)
        else .prompt :: jobHistory (n + 1) cmd procs.head

section History

variable (n : BitVec 32) {argv : List Bytes} {cmd : Bytes} {args : List Bytes}
  (argvs : List (List Bytes)) (procs : Stream' Process)

theorem history_overflow (h : 10 < argv.length) :
    history n (argv :: argvs) procs = [.prompt] := by
  rw [history.eq_def]
  exact if_pos h

theorem history_blank :
    history n ([] :: argvs) procs = .prompt :: history n argvs procs := rfl

theorem history_exit (h : (ascii "exit" :: args).length ≤ 10) :
    history n ((ascii "exit" :: args) :: argvs) procs = [.prompt] := by
  rw [history.eq_def]
  exact (if_neg (Nat.not_lt.mpr h)).trans (if_pos rfl)

/-- A command, and the rounds behind it if the shell survives it. -/
theorem history_job (h : (cmd :: args).length ≤ 10) (hcmd : cmd ≠ ascii "exit") :
    history n ((cmd :: args) :: argvs) procs =
      if procs.head.Survived then
        .prompt :: (jobHistory (n + 1) cmd procs.head ++ history (n + 1) argvs procs.tail)
      else .prompt :: jobHistory (n + 1) cmd procs.head := by
  rw [history.eq_def]
  exact (if_neg (Nat.not_lt.mpr h)).trans (if_neg hcmd)

end History

/-! ## Its text -/

def Fate.text : Fate → Bytes
  | .exited status => formatD status ++ ascii "\n"
  | .signaled sig => ascii "terminated by signal " ++ formatD sig ++ ascii "\n"
  | .other => ascii "ERR\n"

def Entry.text : Entry → Bytes
  | .prompt => ascii "> "
  | .started n pid cmd => ascii "= started " ++ job n pid cmd ++ ascii "\n"
  | .finished n pid cmd fate => ascii "= finished " ++ job n pid cmd ++ ascii " " ++ fate.text

/-- The name of a command is a token. -/
def Entry.Named : Entry → Prop
  | .prompt => True
  | .started _ _ cmd => NoDelim delim cmd
  | .finished _ _ cmd _ => NoDelim delim cmd

theorem outcome_eq (wstatus : Nat) : outcome wstatus = (fate wstatus).text := by
  unfold outcome fate
  split
  · rfl
  · split
    · rfl
    · rfl

section Text

variable {r r' : Bytes}

theorem exited_append (status : Nat) (r : Bytes) :
    (Fate.exited status).text ++ r = formatD status ++ 0x0A :: r := by
  simp only [Fate.text, List.append_assoc]
  rfl

theorem signaled_append (sig : Nat) (r : Bytes) : (Fate.signaled sig).text ++ r =
    0x74 :: (ascii "erminated by signal " ++ (formatD sig ++ 0x0A :: r)) := by
  simp only [Fate.text, List.append_assoc]
  rfl

theorem other_append (r : Bytes) : Fate.other.text ++ r = 0x45 :: (ascii "RR\n" ++ r) := rfl

/-- No status starts like the text of another fate. -/
theorem exited_append_ne {status : Nat} {c : UInt8} (hc : 57 < c.toNat) :
    (Fate.exited status).text ++ r ≠ c :: r' := by
  rw [exited_append]
  refine formatD_append_ne ?_ (.inr hc) ?_
  · rintro rfl
    exact absurd hc (by decide)
  · rintro rfl
    exact absurd hc (by decide)

/-- The first byte tells the fates apart, and the newline ends them. -/
theorem fate_inj {f f' : Fate} (h : f.text ++ r = f'.text ++ r') : f = f' ∧ r = r' := by
  cases f with
  | exited status =>
    cases f' with
    | exited status' =>
      rw [exited_append, exited_append] at h
      obtain ⟨hstatus, hr⟩ := formatD_append_inj (by decide) (by decide) h
      obtain rfl := Int.ofNat.inj hstatus
      exact ⟨rfl, hr⟩
    | signaled sig' =>
      rw [signaled_append] at h
      exact absurd h (exited_append_ne (by decide))
    | other =>
      rw [other_append] at h
      exact absurd h (exited_append_ne (by decide))
  | signaled sig =>
    rw [signaled_append] at h
    cases f' with
    | exited status' => exact absurd h.symm (exited_append_ne (by decide))
    | signaled sig' =>
      rw [signaled_append] at h
      have h := List.append_cancel_left (List.cons.inj h).2
      obtain ⟨hsig, hr⟩ := formatD_append_inj (by decide) (by decide) h
      obtain rfl := Int.ofNat.inj hsig
      exact ⟨rfl, hr⟩
    | other =>
      rw [other_append] at h
      exact absurd (List.cons.inj h).1 (by decide)
  | other =>
    rw [other_append] at h
    cases f' with
    | exited status' => exact absurd h.symm (exited_append_ne (by decide))
    | signaled sig' =>
      rw [signaled_append] at h
      exact absurd (List.cons.inj h).1 (by decide)
    | other =>
      rw [other_append] at h
      exact ⟨rfl, List.append_cancel_left (List.cons.inj h).2⟩

theorem job_append (n : BitVec 32) (pid : Int) (cmd r : Bytes) : job n pid cmd ++ r =
    ascii "[" ++ (formatD n.toInt ++ 0x5D :: 0x20 :: (formatD pid ++ 0x20 :: (cmd ++ r))) := by
  simp only [job, List.append_assoc]
  rfl

theorem job_inj {n n' : BitVec 32} {pid pid' : Int} {cmd cmd' : Bytes} {sep : UInt8}
    (hsep : sep ∈ delim) (hcmd : NoDelim delim cmd) (hcmd' : NoDelim delim cmd')
    (h : job n pid cmd ++ sep :: r = job n' pid' cmd' ++ sep :: r') :
    n = n' ∧ pid = pid' ∧ cmd = cmd' ∧ r = r' := by
  rw [job_append, job_append] at h
  obtain ⟨hn, h⟩ := formatD_append_inj (by decide) (by decide) (List.append_cancel_left h)
  obtain ⟨hpid, h⟩ := formatD_append_inj (by decide) (by decide) (List.cons.inj h).2
  obtain ⟨hname, hr⟩ := append_sep_inj (fun hmem => hcmd _ hmem hsep)
    (fun hmem => hcmd' _ hmem hsep) h
  exact ⟨BitVec.eq_of_toInt_eq hn, hpid, hname, hr⟩

theorem prompt_append (r : Bytes) : Entry.prompt.text ++ r = ascii "> " ++ r := rfl

theorem started_append (n : BitVec 32) (pid : Int) (cmd r : Bytes) :
    (Entry.started n pid cmd).text ++ r =
      ascii "= started " ++ (job n pid cmd ++ 0x0A :: r) := by
  simp only [Entry.text, List.append_assoc]
  rfl

theorem finished_append (n : BitVec 32) (pid : Int) (cmd : Bytes) (f : Fate) (r : Bytes) :
    (Entry.finished n pid cmd f).text ++ r =
      ascii "= finished " ++ (job n pid cmd ++ 0x20 :: (f.text ++ r)) := by
  simp only [Entry.text, List.append_assoc]
  rfl

section Kinds

variable {n n' : BitVec 32} {pid pid' : Int} {cmd cmd' : Bytes} {f : Fate}

theorem prompt_ne_started : Entry.prompt.text ++ r ≠ (Entry.started n pid cmd).text ++ r' := by
  rw [prompt_append, started_append]
  exact ascii_append_ne 0 (by decide) (by decide) (by decide)

theorem prompt_ne_finished :
    Entry.prompt.text ++ r ≠ (Entry.finished n pid cmd f).text ++ r' := by
  rw [prompt_append, finished_append]
  exact ascii_append_ne 0 (by decide) (by decide) (by decide)

theorem started_ne_finished :
    (Entry.started n pid cmd).text ++ r ≠ (Entry.finished n' pid' cmd' f).text ++ r' := by
  rw [started_append, finished_append]
  exact ascii_append_ne 2 (by decide) (by decide) (by decide)

end Kinds

/-- An entry ends where the next one begins. -/
theorem entry_inj {e e' : Entry} (he : e.Named) (he' : e'.Named)
    (h : e.text ++ r = e'.text ++ r') : e = e' ∧ r = r' := by
  cases e with
  | prompt =>
    cases e' with
    | prompt => exact ⟨rfl, List.append_cancel_left h⟩
    | started n' pid' cmd' => exact absurd h prompt_ne_started
    | finished n' pid' cmd' f' => exact absurd h prompt_ne_finished
  | started n pid cmd =>
    cases e' with
    | prompt => exact absurd h.symm prompt_ne_started
    | started n' pid' cmd' =>
      rw [started_append, started_append] at h
      -- the newline does not occur in a name
      obtain ⟨rfl, rfl, rfl, hr⟩ := job_inj newline_delim he he' (List.append_cancel_left h)
      exact ⟨rfl, hr⟩
    | finished n' pid' cmd' f' => exact absurd h started_ne_finished
  | finished n pid cmd f =>
    cases e' with
    | prompt => exact absurd h.symm prompt_ne_finished
    | started n' pid' cmd' => exact absurd h.symm started_ne_finished
    | finished n' pid' cmd' f' =>
      rw [finished_append, finished_append] at h
      -- and neither does the blank
      obtain ⟨rfl, rfl, rfl, hfate⟩ := job_inj (by decide) he he' (List.append_cancel_left h)
      obtain ⟨rfl, hr⟩ := fate_inj hfate
      exact ⟨rfl, hr⟩

theorem selfDelimiting_entry : SelfDelimiting Entry.Named Entry.text where
  ne_nil {e} _ := by
    cases e with
    | prompt => exact List.cons_ne_nil _ _
    | started n pid cmd => exact List.cons_ne_nil _ _
    | finished n pid cmd f => exact List.cons_ne_nil _ _
  inj := entry_inj

end Text

/-! ## What is printed -/

def Event.text : Event → Option Bytes
  | .printf text => some text
  | _ => none

def transcript (trace : List Event) : Bytes := (trace.filterMap Event.text).flatten

theorem transcript_append (trace trace' : List Event) :
    transcript (trace ++ trace') = transcript trace ++ transcript trace' := by
  rw [transcript, List.filterMap_append, List.flatten_append]
  rfl

theorem transcript_prompt (trace : List Event) :
    transcript (prompt :: trace) = Entry.prompt.text ++ transcript trace := rfl

theorem transcript_seen (result : List Event × Stop) :
    transcript (seen result).1 = transcript result.1 := by
  rw [transcript, filterMap_seen (fun | .fgets _, _ => rfl) result]
  rfl

theorem transcript_runJob (n : BitVec 32) (cmd : Bytes) (args : List Bytes) (proc : Process) :
    transcript (runJob n cmd args proc).1 = (jobHistory n cmd proc).flatMap Entry.text := by
  unfold runJob jobHistory
  split
  · rfl
  · split
    · rfl
    · -- the last line is printed in two parts
      simp [transcript, running, List.filterMap_cons, Event.text, Entry.text, outcome_eq]

/-- **The machine prints its history.** -/
theorem transcript_machine : ∀ (argvs : List (List Bytes)) (n : BitVec 32)
    (procs : Stream' Process),
    transcript (machine n argvs procs).1 = (history n argvs procs).flatMap Entry.text
  | [], n, procs => rfl
  | argv :: argvs, n, procs => by
    -- the two branch alike
    rcases Nat.lt_or_ge 10 argv.length with hlen | hlen
    · rw [machine_overflow n argvs procs hlen, history_overflow n argvs procs hlen]
      rfl
    · cases argv with
      | nil =>
        have ih := transcript_machine argvs n procs
        rw [machine_blank, transcript_prompt, ih, history_blank, List.flatMap_cons]
      | cons cmd args =>
        by_cases hcmd : cmd = ascii "exit"
        · subst hcmd
          rw [machine_exit n argvs procs hlen, history_exit n argvs procs hlen]
          rfl
        · have hjob := transcript_runJob (n + 1) cmd args procs.head
          rw [machine_job n argvs procs hlen hcmd, history_job n argvs procs hlen hcmd]
          by_cases hproc : procs.head.Survived
          · have ih := transcript_machine argvs (n + 1) procs.tail
            rw [if_pos hproc, List.flatMap_cons, List.flatMap_append, ← hjob, ← ih,
              runJob_survived hproc, transcript_prompt, transcript_append]
          · rw [if_neg hproc, List.flatMap_cons, ← hjob, (runJob_lost hproc).1, transcript_prompt]

theorem named_jobHistory (n : BitVec 32) {cmd : Bytes} (proc : Process)
    (h : NoDelim delim cmd) : ∀ e ∈ jobHistory n cmd proc, e.Named := by
  unfold jobHistory
  split
  · simp
  · split
    · simpa [Entry.Named] using h
    · simpa [Entry.Named] using h

/-- Every name in a history is a token. -/
theorem named_history : ∀ {argvs : List (List Bytes)} (n : BitVec 32) (procs : Stream' Process),
    (∀ argv ∈ argvs, ∀ cmd ∈ argv, NoDelim delim cmd) →
      ∀ e ∈ history n argvs procs, e.Named
  | [], n, procs, _ => List.forall_mem_singleton.mpr trivial
  | argv :: argvs, n, procs, h => by
    obtain ⟨hargv, hargvs⟩ := List.forall_mem_cons.mp h
    rcases Nat.lt_or_ge 10 argv.length with hlen | hlen
    · rw [history_overflow n argvs procs hlen]
      exact List.forall_mem_singleton.mpr trivial
    · cases argv with
      | nil =>
        rw [history_blank]
        exact List.forall_mem_cons.mpr ⟨trivial, named_history n procs hargvs⟩
      | cons cmd args =>
        by_cases hcmd : cmd = ascii "exit"
        · subst hcmd
          rw [history_exit n argvs procs hlen]
          exact List.forall_mem_singleton.mpr trivial
        · have hjob := named_jobHistory (n + 1) procs.head (hargv cmd List.mem_cons_self)
          have ih := named_history (n + 1) procs.tail hargvs
          rw [history_job n argvs procs hlen hcmd]
          split
          · exact List.forall_mem_cons.mpr ⟨trivial, List.forall_mem_append.mpr ⟨hjob, ih⟩⟩
          · exact List.forall_mem_cons.mpr ⟨trivial, hjob⟩

/-- The texts that the shell prints are those of its history. -/
theorem transcript_main (cmdline : CharArray 256) (cmdargv : Vector (Option Nat) 11)
    (stdin : Bytes) (procs : Stream' Process) :
    transcript (main cmdline cmdargv stdin procs).1 =
      (history 0 ((pieces stdin).map words) procs).flatMap Entry.text := by
  rw [← transcript_seen, main, loop_machine _ (ready_main cmdline cmdargv stdin procs)]
  exact transcript_machine _ _ _

theorem named_main (stdin : Bytes) (procs : Stream' Process) :
    ∀ e ∈ history 0 ((pieces stdin).map words) procs, e.Named := by
  refine named_history 0 procs ?_
  intro argv hargv
  obtain ⟨p, -, rfl⟩ := List.mem_map.mp hargv
  exact noDelim_tokens (beforeNul p)

end OsProg.Shell
