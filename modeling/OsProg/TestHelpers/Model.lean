import Mathlib.Data.Stream.Init
import OsProg.Infra.CString

/-!
# Reading a number of bytes

`readBytes` and `readAvailable` of `test/TestHelpers.h`. The answers are those of the calls of
`read` that have returned. A positive one delivers the next bytes of a stream, and a stream that
ends is continued by bytes that no answer delivers. Numbers of type `size_t` are words.

The constructor of the string throws where the standard says so, and finds its memory otherwise.
What `INFO` notes down is dropped at the end of its scope.
-/

namespace OsProg.TestHelpers

open Infra

/-- `read(fd, str.data() + pos, count)`, and what it returned. -/
structure Call where
  fd : Int
  pos : BitVec 64
  count : BitVec 64
  ret : Int
  deriving DecidableEq, Repr

inductive Exception where
  | runtime_error (what : String)
  | length_error
  deriving DecidableEq, Repr

inductive Status where
  | waiting
  | returned (str : Bytes)
  | threw (e : Exception)
  /-- `read` wrote past the end of the string. -/
  | fault
  deriving DecidableEq, Repr

/-- `std::string::resize`. -/
def resize (str : Bytes) (n : Nat) : Bytes :=
  str.take n ++ List.replicate (n - str.length) 0

/-- What `read` stores at `str.data() + pos` when it returns `n > 0`. -/
def store (str : Bytes) (pos : Nat) (src : Stream' UInt8) (n : Nat) : Option Bytes :=
  (memmove (str.drop pos) (src.take n) n).map (str.take pos ++ ·)

/-- The `while` of `readBytes`. -/
def readLoop (fd : Int) (count pos : BitVec 64) (str : Bytes) (src : Stream' UInt8)
    (rets : List Int) : List Call × Status :=
  if pos < count then
    match rets with
    | [] => ([], .waiting)
    | ret :: rets =>
      let call : Call := { fd, pos, count := count - pos, ret }
      if ret ≤ 0 then
        -- error or eof
        ([call], .returned (resize str pos.toNat))
      else
        match store str pos.toNat src ret.toNat with
        | none => ([call], .fault)
        | some str =>
          let (calls, status) :=
            readLoop fd count (pos + BitVec.ofInt 64 ret) str (src.drop ret.toNat) rets
          (call :: calls, status)
  else ([], .returned str)

/-- `readBytes`, where `max_size` is that of `std::string`. -/
def readBytes (max_size : BitVec 64) (fd : Int) (count : BitVec 64) (src : Stream' UInt8)
    (rets : List Int) : List Call × Status :=
  -- `std::string str(count, '\0')`
  if max_size < count then ([], .threw .length_error)
  else
    let str := List.replicate count.toNat 0
    readLoop fd count 0 str src rets

/-- What `ioctl(fd, FIONREAD, &bytesAvailable)` returns and stores. -/
structure Fionread where
  ret : Int
  bytesAvailable : BitVec 32
  deriving DecidableEq, Repr

/-- `readAvailable`. -/
def readAvailable (max_size : BitVec 64) (fd : Int) (ioctl : Fionread) (src : Stream' UInt8)
    (rets : List Int) : List Call × Status :=
  if ioctl.ret = -1 then
    ([], .threw (.runtime_error s!"can't determine number of available bytes in fd {fd}"))
  else if ioctl.bytesAvailable = 0 then ([], .returned [])
  else
    -- the `int` becomes a `size_t`
    readBytes max_size fd (ioctl.bytesAvailable.signExtend 64) src rets

end OsProg.TestHelpers
