import OsProg.Infra.CString

/-!
# Buffered output

A fully buffered output stream. What was printed is in the buffer or has been written out, and
the buffer may be written out, from its front, at any time. A process that `fork` makes has a
copy of the buffer, and writes its copy when it calls `exit`.
-/

namespace OsProg.Infra

/-- What has come out of a stream, and the buffer of the process that prints. -/
structure Stdio where
  written : Bytes
  buffer : Bytes
  deriving DecidableEq, Repr

namespace Stdio

variable (s : Stdio)

def printf (text : Bytes) : Stdio := { s with buffer := s.buffer ++ text }

/-- The first bytes of the buffer are written. -/
def flush (k : Nat) : Stdio :=
  { written := s.written ++ s.buffer.take k, buffer := s.buffer.drop k }

/-- The process calls `exit`, or returns from `main`. -/
def exit : Stdio := s.flush s.buffer.length

/-- A forked process calls `exit` with its copy of the buffer. -/
def exitCopy (copy : Bytes) : Stdio := { s with written := s.written ++ copy }

/-- All that has been put out, with what is still to come. -/
def output : Bytes := s.written ++ s.buffer

@[simp] theorem output_printf (text : Bytes) : (s.printf text).output = s.output ++ text :=
  (List.append_assoc _ _ _).symm

@[simp] theorem output_flush (k : Nat) : (s.flush k).output = s.output := by
  unfold flush output
  rw [List.append_assoc, List.take_append_drop]

@[simp] theorem output_exit : s.exit.output = s.output := s.output_flush _

@[simp] theorem exitCopy_nil : s.exitCopy [] = s := by
  unfold exitCopy
  rw [List.append_nil]

/-- A copy that is written comes out once more. -/
theorem output_exitCopy_length (copy : Bytes) :
    (s.exitCopy copy).output.length = s.output.length + copy.length := by
  unfold exitCopy output
  simp only [List.length_append]
  omega

end Stdio

end OsProg.Infra
