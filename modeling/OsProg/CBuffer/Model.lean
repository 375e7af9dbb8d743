import Mathlib.Data.List.Basic

/-!
# The reference counted buffer

`l04/cbuffer.c` on blocks. A handle is the number of its block in the heap, and blocks are never
reused, so that a handle of a freed block stays recognisable. `int refc` is a 32-bit word
and its increment and decrement wrap, and so does the sum that `malloc` is asked for.
-/

namespace OsProg.CBuffer

/-! ## The heap -/

/-- `struct Buffer` in a block that `malloc` returned. `request` is the argument of `malloc`,
`frees` the number of times the block was given to `free`. -/
structure Block where
  refc : BitVec 32
  size : BitVec 64
  request : BitVec 64
  frees : Nat
  deriving DecidableEq, Repr

abbrev Heap := List Block

/-- `sizeof(Buffer)`, which is also the offset of `data`. -/
def sizeofBuffer : BitVec 64 := 16

inductive Fault where
  | useAfterFree
  | outOfBlock
  deriving DecidableEq, Repr

/-- A pointer into a block. -/
structure Ptr where
  block : Nat
  offset : BitVec 64
  deriving DecidableEq, Repr

/-- An access through the handle `buf`. -/
def deref (heap : Heap) (buf : Nat) : Except Fault Block :=
  match heap[buf]? with
  | some blk => if blk.frees = 0 then .ok blk else .error .useAfterFree
  | none => .error .useAfterFree

/-! ## The functions -/

/-- `mallocOk` says whether `malloc` finds memory. The header is written without a look at how
much that is. -/
def buffer_new (size : BitVec 64) (mallocOk : Bool) (heap : Heap) :
    Except Fault (Option Nat × Heap) :=
  let request := size + sizeofBuffer
  if mallocOk then
    if request < sizeofBuffer then .error .outOfBlock
    else .ok (some heap.length, heap ++ [{ refc := 1, size, request, frees := 0 }])
  else .ok (none, heap)

def buffer_ref (buf : Nat) (heap : Heap) : Except Fault Heap := do
  let blk ← deref heap buf
  return heap.set buf { blk with refc := blk.refc + 1 }

def buffer_unref (buf : Nat) (heap : Heap) : Except Fault Heap := do
  let blk ← deref heap buf
  let blk := { blk with refc := blk.refc - 1 }
  -- the comparison is of signed numbers
  if blk.refc.toInt ≤ 0 then
    return heap.set buf { blk with frees := blk.frees + 1 }
  else
    return heap.set buf blk

def buffer_refs (buf : Nat) (heap : Heap) : Except Fault Int := do
  let blk ← deref heap buf
  return blk.refc.toInt

def buffer_data (buf : Nat) (heap : Heap) : Except Fault Ptr := do
  -- only an address is computed, but with a handle that is no longer valid even that is wrong
  let _ ← deref heap buf
  return { block := buf, offset := sizeofBuffer }

def buffer_size (buf : Nat) (heap : Heap) : Except Fault (BitVec 64) := do
  let blk ← deref heap buf
  return blk.size

/-! ## Traces -/

inductive Op where
  | new (size : BitVec 64) (mallocOk : Bool)
  | ref (buf : Nat)
  | unref (buf : Nat)
  | refs (buf : Nat)
  | data (buf : Nat)
  | size (buf : Nat)
  deriving DecidableEq, Repr

/-- What a call returns, with handles `H` and pointers `P`. -/
inductive Value (H P : Type) where
  | handle (buf : Option H)
  | refs (n : Int)
  | data (p : P)
  | size (n : BitVec 64)
  deriving DecidableEq, Repr

/-- What a call returns, where it returns something, and the heap behind it. -/
def step (heap : Heap) : Op → Except Fault (Option (Value Nat Ptr) × Heap)
  | .new size mallocOk => do
    let (buf, heap) ← buffer_new size mallocOk heap
    return (some (.handle buf), heap)
  | .ref buf => do return (none, ← buffer_ref buf heap)
  | .unref buf => do return (none, ← buffer_unref buf heap)
  | .refs buf => do return (some (.refs (← buffer_refs buf heap)), heap)
  | .data buf => do return (some (.data (← buffer_data buf heap)), heap)
  | .size buf => do return (some (.size (← buffer_size buf heap)), heap)

/-- What a trace of calls returns, and the heap behind it. -/
def run (heap : Heap) : List Op → Except Fault (List (Value Nat Ptr) × Heap)
  | [] => .ok ([], heap)
  | op :: ops => do
    let (value, heap) ← step heap op
    let (values, heap) ← run heap ops
    return (value.toList ++ values, heap)

end OsProg.CBuffer
