import OsProg.Infra.StepRun
import OsProg.Infra.Stdio
import OsProg.Shell.Session

/-!
# The output of the shell

Standard output of the shell goes to a pipe or a file: it is fully buffered, and a child has a
copy of the buffer. A child whose `execvp` succeeds loses its copy, one whose `execvp` fails
writes it in `exit`. The shell and its children take their steps in any order, up to the
waiting in `waitpid`, and the buffer may be flushed at any time.

What the shell printed comes out once as long as the buffer is empty at each `fork` whose
child will not get through `execvp` (`run_output`), and only then (`stdout_once_iff`).
-/

namespace OsProg.Shell

open Infra

/-! ## The system -/

/-- A child: its copy of the buffer, and what it has still to do. -/
structure Child where
  copy : Bytes
  events : List ChildEvent
  deriving DecidableEq, Repr

/-- Descriptor 1 with the buffer of the shell, and the children that still run the program of
the shell. -/
structure System where
  stdout : Stdio
  children : List Child
  deriving DecidableEq, Repr

def System.init : System := { stdout := { written := [], buffer := [] }, children := [] }

inductive Act where
  /-- the shell makes a call -/
  | event (e : Event)
  /-- the shell ends -/
  | stop (e : Stop)
  /-- the first bytes of its buffer are written -/
  | flush (k : Nat)
  /-- one of the children goes on -/
  | child (i : Nat)
  deriving DecidableEq, Repr

/-- A call of the shell. -/
def System.event (s : System) : Event → Option System
  | .printf text => some { s with stdout := s.stdout.printf text }
  | .fork _ [] => some s
  | .fork _ events =>
    some { s with children := s.children ++ [{ copy := s.stdout.buffer, events }] }
  -- the child that is waited for has ended
  | .waitpid _ result => if result = -1 ∨ s.children = [] then some s else none
  | .perror _ | .fgets _ | .run_command _ _ => some s

/-- What a child does to standard output, and what is left of the child. -/
def Child.step (c : Child) (stdout : Stdio) : Option (Stdio × List Child) :=
  match c.events with
  | [] => none
  | .exit _ :: _ => some (stdout.exitCopy c.copy, [])
  -- nothing comes after an `execvp` that succeeds
  | [.execvp _] => some (stdout, [])
  | .execvp _ :: events | .perror _ :: events => some (stdout, [{ c with events }])

def System.child (s : System) (i : Nat) : Option System := do
  let c ← s.children[i]?
  let (stdout, rest) ← c.step s.stdout
  return { stdout, children := s.children.take i ++ rest ++ s.children.drop (i + 1) }

def System.step (s : System) : Act → Option System
  | .event e => s.event e
  -- after a fault nothing can be said
  | .stop (.fault _) => some s
  | .stop _ => some { s with stdout := s.stdout.exit }
  | .flush k => some { s with stdout := s.stdout.flush k }
  | .child i => s.child i

/-- What the shell itself does in a run. -/
def shellCall : Act → Option (Event ⊕ Stop)
  | .event e => some (.inl e)
  | .stop e => some (.inr e)
  | .flush _ | .child _ => none

/-- A run of the system in which the shell follows its program as far as it has come. -/
structure Run (program : List Event × Stop) (acts : List Act) (s : System) : Prop where
  shell : acts.filterMap shellCall <+: program.1.map .inl ++ [.inr program.2]
  steps : acts.foldlM System.step System.init = some s

/-- What the shell's own calls of `printf` print. -/
def printed : Act → Bytes
  | .event (.printf text) => text
  | _ => []

/-- The buffer is empty when a step forks a child that will not get through `execvp`. -/
def FlushedFork (s : System) : Act → Prop
  | .event (.fork _ events) => exits events = true → s.stdout.buffer = []
  | _ => True

/-- So it is at each step of a run. -/
def FlushedForks (s : System) : List Act → Prop
  | [] => True
  | a :: acts => FlushedFork s a ∧ ∀ s', s.step a = some s' → FlushedForks s' acts

/-! ## One step -/

variable {s s' : System} {a : Act}

/-- What a step of a child can do. -/
theorem Child.step_cases {c : Child} {stdout stdout' : Stdio} {rest : List Child}
    (h : c.step stdout = some (stdout', rest)) :
    (exits c.events = true ∧ stdout' = stdout.exitCopy c.copy ∧ rest = []) ∨
      (exits c.events = false ∧ stdout' = stdout ∧ rest = []) ∨
      ∃ events, stdout' = stdout ∧ rest = [{ c with events }] ∧ exits events = exits c.events := by
  unfold Child.step at h
  split at h
  · cases h
  · rename_i heq
    cases h
    exact .inl ⟨by rw [heq]; rfl, rfl, rfl⟩
  · rename_i heq
    cases h
    exact .inr (.inl ⟨by rw [heq]; rfl, rfl, rfl⟩)
  all_goals
    rename_i heq
    cases h
    exact .inr (.inr ⟨_, rfl, rfl, by rw [heq]; rfl⟩)

/-- **What a step can do.** It leaves the children alone, forks one, or is a step of one. -/
theorem System.step_cases (h : s.step a = some s') :
    (s'.children = s.children ∧ s'.stdout.output = s.stdout.output ++ printed a ∧
      FlushedFork s a) ∨
    (∃ pid e events, a = .event (.fork pid (e :: events)) ∧
      s' = { s with
        children := s.children ++ [{ copy := s.stdout.buffer, events := e :: events }] }) ∨
    ∃ i before c after stdout rest, a = .child i ∧ s.children = before ++ c :: after ∧
      c.step s.stdout = some (stdout, rest) ∧
      s' = { stdout, children := before ++ rest ++ after } := by
  cases a with
  | event e =>
    cases e with
    | printf text =>
      cases h
      exact .inl ⟨rfl, s.stdout.output_printf text, trivial⟩
    | fork pid events =>
      cases events with
      | nil =>
        cases h
        exact .inl ⟨rfl, (List.append_nil _).symm, nofun⟩
      | cons e events =>
        cases h
        exact .inr (.inl ⟨pid, e, events, rfl, rfl⟩)
    | waitpid pid result =>
      simp only [System.step, System.event] at h
      split at h
      · cases h
        exact .inl ⟨rfl, (List.append_nil _).symm, trivial⟩
      · cases h
    | perror | fgets | run_command =>
      cases h
      exact .inl ⟨rfl, (List.append_nil _).symm, trivial⟩
  | stop e =>
    cases e with
    | fault f =>
      cases h
      exact .inl ⟨rfl, (List.append_nil _).symm, trivial⟩
    | returned | exited =>
      cases h
      exact .inl ⟨rfl, s.stdout.output_exit.trans (List.append_nil _).symm, trivial⟩
  | flush k =>
    cases h
    exact .inl ⟨rfl, (s.stdout.output_flush k).trans (List.append_nil _).symm, trivial⟩
  | child i =>
    simp only [System.step, System.child, Option.bind_eq_bind, Option.bind_eq_some_iff] at h
    obtain ⟨c, hc, ⟨stdout, rest⟩, hstep, h⟩ := h
    cases h
    obtain ⟨hi, rfl⟩ := List.getElem?_eq_some_iff.mp hc
    refine .inr (.inr ⟨i, _, _, _, stdout, rest, rfl, ?_, hstep, rfl⟩)
    rw [List.getElem_cons_drop, List.take_append_drop]

/-! ## Nothing is lost or doubled -/

/-- A child that is going to write its copy has an empty one. -/
def Settled (s : System) : Prop := ∀ c ∈ s.children, exits c.events = true → c.copy = []

theorem step_output (hs : Settled s) (hfork : FlushedFork s a) (h : s.step a = some s') :
    Settled s' ∧ s'.stdout.output = s.stdout.output ++ printed a := by
  rcases System.step_cases h with ⟨hchildren, hout, _⟩ | ⟨pid, e, events, rfl, rfl⟩ |
    ⟨i, before, c, after, stdout, rest, rfl, hsplit, hc, rfl⟩
  · refine ⟨?_, hout⟩
    unfold Settled
    rwa [hchildren]
  · refine ⟨?_, (List.append_nil _).symm⟩
    intro c hc hexits
    rcases List.mem_append.mp hc with hc | hc
    · exact hs c hc hexits
    · rw [List.mem_singleton.mp hc] at hexits ⊢
      exact hfork hexits
  · have hmem : c ∈ s.children := hsplit ▸ List.mem_append_right _ List.mem_cons_self
    have hothers : ∀ d ∈ before ++ after, exits d.events = true → d.copy = [] := by
      intro d hd
      refine hs d ?_
      rw [hsplit]
      rcases List.mem_append.mp hd with hd | hd
      · exact List.mem_append_left _ hd
      · exact List.mem_append_right _ (List.mem_cons_of_mem c hd)
    have hprinted : s.stdout.output ++ printed (.child i) = s.stdout.output := List.append_nil _
    rw [hprinted]
    rcases Child.step_cases hc with ⟨hexits, rfl, rfl⟩ | ⟨_, rfl, rfl⟩ |
      ⟨events, rfl, rfl, hevents⟩
    · rw [hs c hmem hexits, Stdio.exitCopy_nil]
      exact ⟨by simpa [Settled] using hothers, rfl⟩
    · exact ⟨by simpa [Settled] using hothers, rfl⟩
    · refine ⟨?_, rfl⟩
      intro d hd hexits
      rcases List.mem_append.mp hd with hd | hd
      · rcases List.mem_append.mp hd with hd | hd
        · exact hothers d (List.mem_append_left _ hd) hexits
        · rw [List.mem_singleton.mp hd] at hexits ⊢
          exact hs c hmem (hevents ▸ hexits)
      · exact hothers d (List.mem_append_right _ hd) hexits

/-- **The output comes out once.** -/
theorem run_output : ∀ {acts : List Act} {s s' : System}, Settled s → FlushedForks s acts →
    acts.foldlM System.step s = some s' →
      s'.stdout.output = s.stdout.output ++ acts.flatMap printed
  | [], s, s', _, _, h => by
    cases h
    exact (List.append_nil _).symm
  | a :: acts, s, s', hs, hforks, h => by
    obtain ⟨s₁, hs₁, h⟩ := foldlM_cons_iff.mp h
    obtain ⟨hsettled, hout⟩ := step_output hs hforks.1 hs₁
    rw [run_output hsettled (hforks.2 s₁ hs₁) h, hout, List.flatMap_cons, List.append_assoc]

/-! ## What is doubled -/

/-- The bytes that a child is going to write. -/
def Child.owed (c : Child) : Nat := if exits c.events then c.copy.length else 0

/-- The bytes that have come out and that are to come. -/
def System.total (s : System) : Nat :=
  s.stdout.output.length + (s.children.map Child.owed).sum

/-- The bytes that a step doubles. -/
def doubled (s : System) : Act → Nat
  | .event (.fork _ events) => if exits events then s.stdout.buffer.length else 0
  | _ => 0

theorem flushedFork_iff : FlushedFork s a ↔ doubled s a = 0 := by
  unfold FlushedFork doubled
  split
  · rename_i events
    cases exits events <;> simp
  · simp

/-- **Every byte is accounted for.** -/
theorem step_total (h : s.step a = some s') :
    s'.total = s.total + (printed a).length + doubled s a := by
  unfold System.total
  rcases System.step_cases h with ⟨hchildren, hout, hfork⟩ | ⟨pid, e, events, rfl, rfl⟩ |
    ⟨i, before, c, after, stdout, rest, rfl, hsplit, hc, rfl⟩
  · rw [hchildren, hout, flushedFork_iff.mp hfork, List.length_append]
    omega
  · simp only [List.map_append, List.map_cons, List.map_nil, List.sum_append, List.sum_cons,
      List.sum_nil, Child.owed, printed, doubled, List.length_nil]
    omega
  · have hrest : stdout.output.length + (rest.map Child.owed).sum =
        s.stdout.output.length + c.owed := by
      rcases Child.step_cases hc with ⟨hexits, rfl, rfl⟩ | ⟨hexits, rfl, rfl⟩ |
        ⟨events, rfl, rfl, hevents⟩
      · simp [Stdio.output_exitCopy_length, Child.owed, hexits]
      · simp [Child.owed, hexits]
      · simp [Child.owed, hevents]
    simp only [hsplit, List.map_append, List.map_cons, List.sum_append, List.sum_cons, printed,
      doubled, List.length_nil]
    omega

theorem run_total : ∀ {acts : List Act} {s s' : System}, acts.foldlM System.step s = some s' →
    s.total + (acts.flatMap printed).length ≤ s'.total ∧
      (s'.total = s.total + (acts.flatMap printed).length → FlushedForks s acts)
  | [], s, s', h => by
    cases h
    exact ⟨Nat.le_refl _, fun _ => trivial⟩
  | a :: acts, s, s', h => by
    obtain ⟨s₁, hs₁, h⟩ := foldlM_cons_iff.mp h
    obtain ⟨hle, heq⟩ := run_total h
    have hstep := step_total hs₁
    rw [List.flatMap_cons, List.length_append]
    constructor
    · omega
    · intro htotal
      refine ⟨flushedFork_iff.mpr (by omega), ?_⟩
      intro s₂ hs₂
      rw [hs₁] at hs₂
      cases hs₂
      exact heq (by omega)

/-- **What the shell prints comes out once when the buffer is empty at each `fork` whose child
will not get through `execvp`**, at every point of a run. Where no child is left, it comes out
once only then. -/
theorem stdout_once_iff {cmdline : CharArray 256} {cmdargv : Vector (Option Nat) 11}
    {stdin : Bytes} {procs : Stream' Process} {acts : List Act} {s : System}
    (h : Run (main cmdline cmdargv stdin procs) acts s) :
    (FlushedForks System.init acts → s.stdout.output = acts.flatMap printed) ∧
      (s.children = [] → s.stdout.output = acts.flatMap printed →
        FlushedForks System.init acts) := by
  constructor
  · intro hforks
    exact run_output (fun c hc => absurd hc List.not_mem_nil) hforks h.steps
  · intro hchildren hout
    refine (run_total h.steps).2 ?_
    unfold System.total
    rw [hchildren, hout]
    simp [System.init, Stdio.output]

/-! ## A command that cannot be executed -/

/-- The shell, given a line with the command `x`. -/
theorem main_x : ∃ line rest stop, main zeros nulls (ascii "x\n") (Stream'.const failing) =
    (reading line ++ (running 1 (ascii "x") [] failing ++ rest), stop) := by
  obtain ⟨line, s', _, hn, _, _, hloop⟩ := @loop_command
    { cmdline := zeros.bytes, cmdargv := nulls.toList, n := 0, stdin := ascii "x\n",
      procs := Stream'.const failing }
    ⟨zeros.size, Vector.length_toList⟩ (by decide) (by decide) (ascii "x") [] (by decide)
    (by decide) (by decide) failing_ran
  have hn : s'.n = 1 := hn
  rw [hn] at hloop
  exact ⟨line, _, _, hloop⟩

/-- The shell up to the end of its child, with or without a flush behind the prompt. -/
def childOfX (line : Bytes) (flushes : List Act) : List Act :=
  (reading line).map .event ++ (flushes ++ [.event (.run_command 1 [ascii "x"]),
    .event (.fork 100 (child [ascii "x"] failing)), .child 0, .child 0, .child 0])

/-- **The prompt comes out twice.** -/
theorem not_stdout_once :
    ¬ ∀ (cmdline : CharArray 256) (cmdargv : Vector (Option Nat) 11) (stdin : Bytes)
      (procs : Stream' Process) (acts : List Act) (s : System),
      Run (main cmdline cmdargv stdin procs) acts s →
        s.stdout.output = acts.flatMap printed := by
  intro hall
  obtain ⟨line, rest, stop, hmain⟩ := main_x
  have hrun : Run (main zeros nulls (ascii "x\n") (Stream'.const failing)) (childOfX line [])
      { stdout := { written := ascii "> ", buffer := ascii "> " }, children := [] } :=
    ⟨hmain ▸ ⟨_, rfl⟩, rfl⟩
  have hout : ascii "> " ++ ascii "> " = ascii "> " := hall _ _ _ _ _ _ hrun
  exact absurd hout (by decide)

/-- With a flush behind the prompt it comes out once. -/
theorem stdout_once_flushed : ∃ line s,
    Run (main zeros nulls (ascii "x\n") (Stream'.const failing)) (childOfX line [.flush 2]) s ∧
    FlushedForks System.init (childOfX line [.flush 2]) ∧
    s.stdout.output = (childOfX line [.flush 2]).flatMap printed := by
  obtain ⟨line, rest, stop, hmain⟩ := main_x
  have hrun : Run (main zeros nulls (ascii "x\n") (Stream'.const failing))
      (childOfX line [.flush 2])
      { stdout := { written := ascii "> ", buffer := [] }, children := [] } :=
    ⟨hmain ▸ ⟨_, rfl⟩, rfl⟩
  have hforks := (stdout_once_iff hrun).2 rfl rfl
  exact ⟨line, _, hrun, hforks, (stdout_once_iff hrun).1 hforks⟩

end OsProg.Shell
