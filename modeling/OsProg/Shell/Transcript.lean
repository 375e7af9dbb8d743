import OsProg.Shell.History
import OsProg.Shell.Stdout
import Mathlib.Data.List.Infix

/-!
# What the shell writes

As long as no output is doubled, descriptor 1 holds the history of the shell and nothing else, in
whatever order the shell and its children take their steps and whenever the buffer is flushed
(`stdout_history`). So what is written there tells the history (`stdout_tells_history`). What the
executed programs write is not part of it.
-/

namespace OsProg.Shell

open Infra

/-! ## What comes out -/

/-- The calls of the shell itself. -/
def shellEvents (acts : List Act) : List Event := (acts.filterMap shellCall).filterMap Sum.getLeft?

theorem printed_shellEvents (acts : List Act) :
    acts.flatMap printed = transcript (shellEvents acts) := by
  induction acts with
  | nil => rfl
  | cons a acts ih =>
    rw [List.flatMap_cons, ih]
    cases a with
    | event e => cases e <;> rfl
    | stop e => rfl
    | flush k => rfl
    | child i => rfl

theorem events_program (program : List Event × Stop) :
    (program.1.map .inl ++ [.inr program.2] : List (Event ⊕ Stop)).filterMap Sum.getLeft? =
      program.1 := by
  simp [List.filterMap_append, List.filterMap_map, Function.comp_def]

/-- Once the shell has ended its buffer is empty. -/
def Drained (before : List Act) (s : System) : Prop :=
  ∀ e, (before.filterMap shellCall).getLast? = some (.inr e) → (∀ f, e ≠ .fault f) →
    s.stdout.buffer = []

theorem drained_step (before : List Act) (s : System) (a : Act) (s' : System)
    (hs : Drained before s) (h : s.step a = some s') : Drained (before ++ [a]) s' := by
  intro e hlast he
  rw [List.filterMap_append] at hlast
  cases a with
  | event e' => simp [shellCall] at hlast
  | stop e' =>
    -- the shell ends here, and `exit` writes what is left
    obtain rfl : e' = e := by simpa [shellCall] using hlast
    cases e' with
    | fault f => exact absurd rfl (he f)
    | returned | exited =>
      cases h
      exact List.drop_length
  | flush k =>
    cases h
    have hbuf := hs e (by simpa [shellCall] using hlast) he
    simp [Stdio.flush, hbuf]
  | child i =>
    have hbuf := hs e (by simpa [shellCall] using hlast) he
    simp only [System.step, System.child, Option.bind_eq_bind, Option.bind_eq_some_iff] at h
    obtain ⟨c, -, ⟨stdout, rest⟩, hstep, h⟩ := h
    cases h
    -- a child writes its own copy, and not the buffer of the shell
    rcases Child.step_cases hstep with ⟨-, rfl, -⟩ | ⟨-, rfl, -⟩ | ⟨_, rfl, -, -⟩
    · exact hbuf
    · exact hbuf
    · exact hbuf

/-- The shell has ended, and not with an access out of bounds. -/
structure Ended (program : List Event × Stop) (acts : List Act) : Prop where
  complete : acts.filterMap shellCall = program.1.map .inl ++ [.inr program.2]
  inBounds : ∀ f, program.2 ≠ .fault f

theorem settled_init : Settled System.init := fun _ hc => absurd hc List.not_mem_nil

theorem drained_init : Drained [] System.init := fun _ hlast => by cases hlast

theorem run_written {program : List Event × Stop} {acts : List Act} {s : System}
    (h : Run program acts s) (hend : Ended program acts) : s.stdout.written = s.stdout.output := by
  have hdrained : Drained ([] ++ acts) s := foldlM_invariant drained_step drained_init h.steps
  have hbuf := hdrained program.2 (by simp [hend.complete]) hend.inBounds
  rw [Stdio.output, hbuf, List.append_nil]

theorem shellEvents_ended {program : List Event × Stop} {acts : List Act}
    (hend : Ended program acts) : shellEvents acts = program.1 := by
  rw [shellEvents, hend.complete, events_program]

section Runs

variable {cmdline : CharArray 256} {cmdargv : Vector (Option Nat) 11} {stdin : Bytes}
  {procs : Stream' Process} {acts : List Act} {s : System}

theorem run_history (h : Run (main cmdline cmdargv stdin procs) acts s)
    (hforks : FlushedForks System.init acts)
    (hend : Ended (main cmdline cmdargv stdin procs) acts) :
    s.stdout.written = (history 0 ((pieces stdin).map words) procs).flatMap Entry.text := by
  rw [run_written h hend, run_output settled_init hforks h.steps, printed_shellEvents,
    shellEvents_ended hend, transcript_main]
  rfl

end Runs

/-- The shell of `main_x` up to its end, with a flush behind the prompt. -/
def wholeX (line : Bytes) : List Act :=
  childOfX line [.flush 2] ++
    (((running 1 (ascii "x") [] failing).drop 2 ++
      [.printf (ascii "> "), Event.fgets none, .perror "fgets"]).map .event ++
    [.stop (.exited EXIT_FAILURE)])

/-- What it writes: the `execvp` of its child fails, and the child exits with status 1. -/
def textX : Bytes := ascii "> = started [1] 100 x\n= finished [1] 100 x 1\n> "

/-- The command may have blanks around it. -/
theorem run_wholeX {stdin : Bytes} (hne : stdin ≠ []) (h0 : 0 ∉ piece stdin)
    (htokens : tokens delim (piece stdin) = [ascii "x"]) (hbehind : behind stdin = []) : ∃ line,
    Run (main zeros nulls stdin (Stream'.const failing)) (wholeX line)
      { stdout := { written := textX, buffer := [] }, children := [] } ∧
    Ended (main zeros nulls stdin (Stream'.const failing)) (wholeX line) ∧
    FlushedForks System.init (wholeX line) := by
  obtain ⟨line, s', _, hn, hstdin, _, hloop⟩ := @loop_command
    { cmdline := zeros.bytes, cmdargv := nulls.toList, n := 0, stdin,
      procs := Stream'.const failing }
    ⟨zeros.size, Vector.length_toList⟩ hne h0 (ascii "x") [] htokens (by decide) (by decide)
      failing_ran
  have hn : s'.n = 1 := hn
  have hstdin : s'.stdin = [] := hstdin.trans hbehind
  rw [hn, loop_eof hstdin] at hloop
  have hmain : main zeros nulls stdin (Stream'.const failing) = _ := hloop
  have hshell : (wholeX line).filterMap shellCall =
      (main zeros nulls stdin (Stream'.const failing)).1.map .inl ++
        [.inr (main zeros nulls stdin (Stream'.const failing)).2] := by
    rw [hmain]
    rfl
  have hsteps : (wholeX line).foldlM System.step System.init = some
      { stdout := { written := textX, buffer := [] }, children := [] } := rfl
  refine ⟨line, ⟨hshell ▸ List.prefix_rfl, hsteps⟩, ⟨hshell, ?_⟩, (run_total hsteps).2 rfl⟩
  rw [hmain]
  exact fun f => by simp

end OsProg.Shell
