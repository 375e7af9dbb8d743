import OsProg.Infra.CString
import Mathlib.Algebra.Ring.Int.Defs
import Mathlib.Algebra.Ring.Nat

/-!
# The scripted `read` and `write`

`l02/mock.c`. The calls on one descriptor follow a script: `sizes` says how much each of them
may transfer, or with which error it fails. The functions change the script in place.

`e->data` is an offset into the data region, which ends at `dataEnd`, and `e->sizes` an index
into the array of sizes. A call that is not for the scripted descriptor is handed to the
function of the C library. Numbers of type `ssize_t` are integers, and their conversions are
written out.
-/

namespace OsProg.Mock

open Infra

/-! ## Types of C -/

/-- A `size_t` as a `ssize_t`. -/
def ssize (count : Nat) : Int := (count : Int).bmod (2 ^ 64)

/-- A `ssize_t` as a `size_t`. -/
def usize (n : Int) : Nat := (n % 2 ^ 64).toNat

/-- A `ssize_t` as an `int`, the type of `errno`. -/
def int (n : Int) : Int := n.bmod (2 ^ 32)

def ENOSPC : Int := 28

/-- What a call returns, and the number that it stores in `errno`, when it stores one. -/
structure Reply where
  ret : Int
  errno : Option Int
  deriving DecidableEq, Repr

/-- The accesses that the mocks could make out of bounds. -/
inductive Fault where
  | sizes
  | memmove
  deriving DecidableEq, Repr

def orFault {α : Type} (f : Fault) : Option α → Except Fault α
  | some a => .ok a
  | none => .error f

/-! ## The scripts -/

structure ExpectedReads where
  fd : Int
  region : Bytes
  data : Nat
  sizes : List Int
  cur : Nat
  deriving DecidableEq, Repr

structure ExpectedWrites where
  fd : Int
  region : Bytes
  data : Nat
  sizes : List Int
  cur : Nat
  deriving DecidableEq, Repr

/-! ## The functions -/

/-- `read`: the reply, and the memory at `buf` afterwards. -/
def read (real_read : Int → Bytes → Nat → Reply × Bytes) (fd : Int) (buf : Bytes) (count : Nat)
    (e : ExpectedReads) : Except Fault ((Reply × Bytes) × ExpectedReads) :=
  if fd ≠ e.fd then .ok (real_read fd buf count, e)
  else do
    let size ← orFault .sizes e.sizes[e.cur]?
    if size = 0 then
      return (({ ret := 0, errno := none }, buf), e)
    else if size < 0 then
      return (({ ret := -1, errno := some (int (-size)) }, buf), e)
    else
      let toReturn := ssize count
      let toReturn := if size < toReturn then size else toReturn
      let left : Int := e.region.length - e.data
      let toReturn := if left < toReturn then left else toReturn
      let buf ← orFault .memmove (memmove buf (e.region.drop e.data) (usize toReturn))
      return (({ ret := toReturn, errno := none }, buf),
        { e with
          data := (e.data + toReturn).toNat
          sizes := e.sizes.set e.cur (size - toReturn)
          cur := if size - toReturn = 0 then e.cur + 1 else e.cur })

/-- `toReturn`, and `errno`, when the current entry is positive. -/
def writeReply (count : Nat) (size left : Int) : Reply :=
  let toReturn := ssize count
  let toReturn := if size < toReturn then size else toReturn
  if left < toReturn then
    -- out of buffer space
    if left = 0 then { ret := -1, errno := some ENOSPC } else { ret := left, errno := none }
  else { ret := toReturn, errno := none }

/-- `write`. -/
def write (real_write : Int → Bytes → Nat → Reply) (fd : Int) (buf : Bytes) (count : Nat)
    (e : ExpectedWrites) : Except Fault (Reply × ExpectedWrites) :=
  if fd ≠ e.fd then .ok (real_write fd buf count, e)
  else do
    let size ← orFault .sizes e.sizes[e.cur]?
    if size = 0 then
      return ({ ret := 0, errno := none }, e)
    else if size < 0 then
      return ({ ret := -1, errno := some (int (-size)) }, e)
    else
      let reply := writeReply count size (e.region.length - e.data)
      if reply.ret ≠ 0 then
        let rest ← orFault .memmove (memmove (e.region.drop e.data) buf (usize reply.ret))
        return (reply,
          { e with
            region := e.region.take e.data ++ rest
            data := (e.data + reply.ret).toNat
            sizes := e.sizes.set e.cur (size - reply.ret)
            cur := if size - reply.ret = 0 then e.cur + 1 else e.cur })
      else
        return (reply, e)

end OsProg.Mock
