import OsProg.CBuffer.Isolation
import OsProg.Infra.Ownership
import Mathlib.Data.Multiset.AddSub

/-!
# The clients of the buffers

The README asks of those who use the library that they call a function only on a buffer on which
they hold a reference. Memory knows nothing of clients: who holds a reference is written down in a
`Ledger`, under the handle that `buffer_new` returned.
-/

namespace OsProg.CBuffer.Memory

open Infra

variable {C : Type}

/-! ## Calls -/

/-- A call. The client `c` makes it; a reference that `ref` takes may be for another
client `d`. -/
inductive Call (C : Type) where
  | new (c : C) (n : BitVec 64) (granted : Option Region)
  | ref (c d : C) (buf : Addr)
  | unref (c : C) (buf : Addr)
  | refs (c : C) (buf : Addr)
  | data (c : C) (buf : Addr)
  | size (c : C) (buf : Addr)
  deriving DecidableEq

def Call.op : Call C → Op
  | .new _ n granted => .new n granted
  | .ref _ _ buf => .ref buf
  | .unref _ buf => .unref buf
  | .refs _ buf => .refs buf
  | .data _ buf => .data buf
  | .size _ buf => .size buf

/-- The buffer that a call is about. `buffer_new` is about none of those that exist. -/
def Call.target : Call C → Option Addr
  | .new _ _ _ => none
  | .ref _ _ buf | .unref _ buf | .refs _ buf | .data _ buf | .size _ buf => some buf

/-- What `malloc` promises. -/
def Call.Malloc (h : Heap) : Call C → Prop
  | .new _ n (some blk) => Grants h.live (n + sizeofBuffer) blk
  | _ => True

/-- The blocks that a call gets from `malloc` and those that it gives to `free`. -/
def Call.uses (h : Heap) : Call C → List (Use Addr)
  | .new _ n granted => (buffer_new n granted h).1.toList.map .acquire
  | .unref _ buf => if (refc (buffer_unref buf h).1.mem buf).toInt ≤ 0 then [.release buf] else []
  | _ => []

/-! ## The discipline -/

/-- Under each handle, the clients that hold a reference. -/
abbrev Ledger (C : Type) := Addr → Multiset C

/-- A reference more for the client `c`. -/
def Ledger.add (ledger : Ledger C) (buf : Addr) (c : C) : Ledger C :=
  Function.update ledger buf (c ::ₘ ledger buf)

@[simp] theorem Ledger.add_self (ledger : Ledger C) (buf : Addr) (c : C) :
    ledger.add buf c buf = c ::ₘ ledger buf := Function.update_self buf _ ledger

variable [DecidableEq C]

/-- A reference less for the client `c`. -/
def Ledger.remove (ledger : Ledger C) (buf : Addr) (c : C) : Ledger C :=
  Function.update ledger buf ((ledger buf).erase c)

@[simp] theorem Ledger.remove_self (ledger : Ledger C) (buf : Addr) (c : C) :
    ledger.remove buf c buf = (ledger buf).erase c := Function.update_self buf _ ledger

/-- A call that follows the discipline: its client holds a reference, and no more than
`limit` references come to exist. A reference comes with the handle that `buffer_new` returned. -/
def Ledger.step (limit : Nat) (ledger : Ledger C) (value : Option (Value Addr Addr)) :
    Call C → Option (Ledger C)
  | .new c _ _ =>
    match value with
    | some (.handle (some buf)) => some (ledger.add buf c)
    | _ => some ledger
  | .ref c d buf =>
    if c ∈ ledger buf ∧ (ledger buf).card < limit then some (ledger.add buf d) else none
  | .unref c buf => if c ∈ ledger buf then some (ledger.remove buf c) else none
  | .refs c buf | .data c buf | .size c buf => if c ∈ ledger buf then some ledger else none

/-! ## Runs -/

/-- Memory, who holds references, and the calls of `malloc` and `free` that succeeded so far. -/
structure System (C : Type) where
  heap : Heap
  ledger : Ledger C
  uses : List (Use Addr)

def System.start (mem : Mem) : System C where
  heap := Memory.start mem
  ledger _ := 0
  uses := []

/-- One call that follows the discipline. -/
def System.step (limit : Nat) (s : System C) (call : Call C) : Option (System C) := do
  let ledger ← s.ledger.step limit (value s.heap call.op) call
  return { heap := (exec s.heap call.op).1, ledger, uses := s.uses ++ call.uses s.heap }

/-- A run in which `malloc` keeps its promise and the clients follow the discipline. -/
inductive Run (limit : Nat) (mem : Mem) : List (Call C) → System C → Prop where
  | start : Run limit mem [] (System.start mem)
  | step {calls : List (Call C)} {s s' : System C} {call : Call C} (hrun : Run limit mem calls s)
    (hmalloc : call.Malloc s.heap) (hstep : s.step limit call = some s') :
    Run limit mem (calls ++ [call]) s'

end OsProg.CBuffer.Memory
