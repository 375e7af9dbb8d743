import OsProg.Infra.CString
import Mathlib.Data.List.TakeDrop

/-!
# Buffered input from a shared descriptor

A stream reads ahead into its buffer. After a `fork` the child has a copy of the buffer, and the
offset of the descriptor belongs to both. When the child ends with `exit`, its copy of the stream
is closed: where the descriptor can seek, the offset goes back by what was read ahead, and the
parent will read that again.

* `left_take` — reading on, in whichever pieces the buffer is filled
* `left_exit_of_empty`, `exit_of_not_seekable` — when `exit` does no harm
-/

namespace OsProg.Infra

/-- The file behind the descriptor with the offset there, and the buffer of the stream. -/
structure InStream where
  file : Bytes
  offset : Nat
  ahead : Bytes
  seekable : Bool
  deriving DecidableEq, Repr

namespace InStream

/-- A stream from the beginning of a file. -/
def opened (file : Bytes) (seekable : Bool) : InStream :=
  { file, offset := 0, ahead := [], seekable }

/-- What the stream delivers as long as nobody else moves the offset. -/
def left (i : InStream) : Bytes := i.ahead ++ i.file.drop i.offset

/-- `num` bytes are taken. When the buffer has fewer it is filled again, with at most `extra` bytes
more than are needed. -/
def take (extra num : Nat) (i : InStream) : InStream :=
  if num ≤ i.ahead.length then { i with ahead := i.ahead.drop num }
  else
    let offset := i.offset + (num - i.ahead.length)
    let ahead := (i.file.drop offset).take extra
    { i with offset := offset + ahead.length, ahead }

/-- `exit` in a process with a copy of the stream. The offset cannot go below 0. -/
def exit (i : InStream) : InStream :=
  if i.seekable ∧ i.ahead.length ≤ i.offset then { i with offset := i.offset - i.ahead.length }
  else i

variable {i : InStream}

theorem left_opened (file : Bytes) (seekable : Bool) : (opened file seekable).left = file := rfl

@[simp] theorem seekable_take (extra num : Nat) : (i.take extra num).seekable = i.seekable := by
  unfold take
  split <;> rfl

/-- **Reading on.** How far the stream reads ahead cannot be seen. -/
theorem left_take (extra num : Nat) : (i.take extra num).left = i.left.drop num := by
  unfold take left
  split
  · rename_i hle
    rw [List.drop_append_of_le_length hle]
  · rename_i hlt
    have hlong : i.ahead.length ≤ num := by omega
    have hrest := List.prefix_iff_eq_append.mp
      (List.take_prefix extra (i.file.drop (i.offset + (num - i.ahead.length))))
    rw [List.drop_drop] at hrest
    rw [List.drop_append, List.drop_eq_nil_of_le hlong, List.nil_append, List.drop_drop]
    exact hrest

theorem exit_of_not_seekable (h : i.seekable = false) : i.exit = i := by
  simp [exit, h]

/-- At the end of the file nothing was read ahead. -/
theorem left_exit_of_empty (h : i.left = []) : i.exit.left = [] := by
  have hahead : i.ahead.length = 0 := by rw [(List.append_eq_nil_iff.mp h).1, List.length_nil]
  unfold exit
  rw [hahead]
  split <;> exact h

end InStream

end OsProg.Infra
