import OsProg.Infra.CString

/-!
# Unformatted input of `std::istream`

A stream is the bytes it has not extracted yet and its two error flags. `badbit` stands
for a failing device and never occurs here, so `operator!` is `failbit`.

Each operation first builds the sentry: on a stream that is not `good` it extracts nothing
and sets `failbit`. What differs is the end of file. `read` sets both flags when it gets
fewer characters than it asked for, `ignore` sets `eofbit` alone.
-/

namespace OsProg.Infra

structure IStream where
  rest : Bytes
  eof : Bool
  fail : Bool
  deriving DecidableEq, Repr

namespace IStream

/-- A freshly opened stream over some bytes. -/
def ofBytes (p : Bytes) : IStream := { rest := p, eof := false, fail := false }

def good (s : IStream) : Bool := !s.eof && !s.fail

/-- `read(s, n)`: the characters stored and the stream after it. -/
def read (n : Nat) (s : IStream) : Bytes × IStream :=
  if s.good then
    if n ≤ s.rest.length then (s.rest.take n, { s with rest := s.rest.drop n })
    else (s.rest, { rest := [], eof := true, fail := true })
  else ([], { s with fail := true })

/-- `ignore(n)`. -/
def ignore (n : Nat) (s : IStream) : IStream :=
  if s.good then
    if n ≤ s.rest.length then { s with rest := s.rest.drop n }
    else { s with rest := [], eof := true }
  else { s with fail := true }

@[simp] theorem fail_ofBytes (p : Bytes) : (ofBytes p).fail = false := rfl

/-! ## Enough characters -/

theorem read_append {n : Nat} {p : Bytes} (h : p.length = n) (r : Bytes) :
    (ofBytes (p ++ r)).read n = (p, ofBytes r) := by
  subst h
  simp [read, ofBytes, good]

theorem ignore_append {n : Nat} {p : Bytes} (h : p.length = n) (r : Bytes) :
    (ofBytes (p ++ r)).ignore n = ofBytes r := by
  subst h
  simp [ignore, ofBytes, good]

/-! ## The end of file -/

theorem read_short {n : Nat} {p : Bytes} (h : p.length < n) :
    (ofBytes p).read n = (p, { rest := [], eof := true, fail := true }) := by
  simp [read, ofBytes, good, Nat.not_le.mpr h]

theorem ignore_short {n : Nat} {p : Bytes} (h : p.length < n) :
    (ofBytes p).ignore n = { rest := [], eof := true, fail := false } := by
  simp [ignore, ofBytes, good, Nat.not_le.mpr h]

theorem read_eof (n : Nat) (p : Bytes) (fail : Bool) :
    ({ rest := p, eof := true, fail } : IStream).read n
      = ([], { rest := p, eof := true, fail := true }) := by
  simp [read, good]

/-! ## Every operation only moves forward -/

theorem read_rest_le (n : Nat) (s : IStream) : (s.read n).2.rest.length ≤ s.rest.length := by
  unfold read
  split
  · split <;> simp
  · simp

theorem ignore_rest_le (n : Nat) (s : IStream) : (s.ignore n).rest.length ≤ s.rest.length := by
  unfold ignore
  split
  · split <;> simp
  · simp

/-- A `read` that does not fail has extracted all it asked for. -/
theorem read_rest_of_not_fail {n : Nat} {s : IStream} (h : (s.read n).2.fail = false) :
    (s.read n).2.rest.length + n = s.rest.length := by
  unfold read at h ⊢
  split
  · next hg =>
    rw [if_pos hg] at h
    split
    · simp only [List.length_drop]
      omega
    · next hn => simp [hn] at h
  · next hg =>
    rw [if_neg hg] at h
    simp at h

/-- `read` stores at most `n` characters. -/
theorem read_length_le (n : Nat) (s : IStream) : (s.read n).1.length ≤ n := by
  unfold read
  split
  · split
    · exact List.length_take_le n s.rest
    · next hn => exact (Nat.not_le.mp hn).le
  · simp

end IStream

end OsProg.Infra
