import OsProg.Infra.CString

/-!
# `fgets`

`fgets` cuts a stream into pieces: a piece ends with a newline, or is as long as the array
allows, or is what is left at the end. `takeLine` takes one piece, and `lines` is the stream
as a user sees it, so that a line may come in several pieces.

* `takeLine_cases` — the three ways a piece ends
* `lines_takeLine` — when lines are no longer than a piece, a piece is a line: with its
  newline, or without, and then the newline comes alone
-/

namespace OsProg.Infra

def newline : UInt8 := 0x0A

/-- At most `n` bytes of a stream, up to the first newline, and the rest. -/
def takeLine : Nat → Bytes → Bytes × Bytes
  | 0, input => ([], input)
  | _ + 1, [] => ([], [])
  | n + 1, b :: input =>
    if b = newline then ([b], input)
    else
      let (line, rest) := takeLine n input
      (b :: line, rest)

/-- `fgets(s, size, stream)`: the array `s` after the call, or `none` when `NULL` is returned,
and the rest of the stream. The call has no outcome when it would write behind `s`. -/
def fgets (s : Bytes) (size : Nat) (stream : Bytes) : Option (Option Bytes × Bytes) :=
  let (line, rest) := takeLine (size - 1) stream
  if line = [] then some (none, rest)
  else if line.length < s.length then
    some (some (line ++ 0 :: s.drop (line.length + 1)), rest)
  else none

/-- The lines of a stream, without their newlines. What follows the last newline is a line
as well. -/
def lines (stream : Bytes) : List Bytes := stream.splitOn newline

/-! ## Pieces -/

theorem takeLine_append : ∀ (n : Nat) (input : Bytes),
    (takeLine n input).1 ++ (takeLine n input).2 = input
  | 0, _ => rfl
  | _ + 1, [] => rfl
  | n + 1, b :: input => by
    rw [takeLine]
    split
    · rfl
    · exact congrArg (b :: ·) (takeLine_append n input)

theorem takeLine_length_le : ∀ (n : Nat) (input : Bytes), (takeLine n input).1.length ≤ n
  | 0, _ => Nat.le_refl 0
  | _ + 1, [] => Nat.zero_le _
  | n + 1, b :: input => by
    rw [takeLine]
    split
    · exact Nat.succ_le_succ (Nat.zero_le n)
    · exact Nat.succ_le_succ (takeLine_length_le n input)

/-- A piece is empty at the end of the stream only. -/
theorem takeLine_eq_nil {n : Nat} {input : Bytes} :
    (takeLine (n + 1) input).1 = [] ↔ input = [] := by
  cases input with
  | nil => exact ⟨fun _ => rfl, fun _ => rfl⟩
  | cons b input =>
    rw [takeLine]
    split
    · exact ⟨nofun, nofun⟩
    · exact ⟨nofun, nofun⟩

/-- **How a piece ends.** -/
theorem takeLine_cases : ∀ (n : Nat) (input : Bytes),
    (∃ line, newline ∉ line ∧ (takeLine n input).1 = line ++ [newline]) ∨
      newline ∉ (takeLine n input).1 ∧
        ((takeLine n input).1.length = n ∨ (takeLine n input).2 = [])
  | 0, _ => .inr ⟨List.not_mem_nil, .inl rfl⟩
  | _ + 1, [] => .inr ⟨List.not_mem_nil, .inr rfl⟩
  | n + 1, b :: input => by
    rw [takeLine]
    split
    · rename_i hb
      subst hb
      exact .inl ⟨[], List.not_mem_nil, rfl⟩
    · rename_i hb
      have hcons : ∀ {line : Bytes}, newline ∉ line → newline ∉ b :: line := by
        intro line hline hmem
        rcases List.mem_cons.mp hmem with h | h
        · exact hb h.symm
        · exact hline h
      rcases takeLine_cases n input with ⟨line, hline, hpiece⟩ | ⟨hpiece, hend⟩
      · exact .inl ⟨b :: line, hcons hline, congrArg (b :: ·) hpiece⟩
      · exact .inr ⟨hcons hpiece, hend.imp_left (congrArg (· + 1))⟩

/-- A line that fits is taken whole. -/
theorem takeLine_line {n : Nat} {line : Bytes} (h : newline ∉ line) (hlen : line.length < n)
    (rest : Bytes) : takeLine n (line ++ newline :: rest) = (line ++ [newline], rest) := by
  induction line generalizing n with
  | nil =>
    obtain ⟨n, rfl⟩ := Nat.exists_eq_add_of_lt hlen
    rfl
  | cons b line ih =>
    have hb : b ≠ newline := fun hbn => h (hbn ▸ List.mem_cons_self)
    cases n with
    | zero => exact absurd hlen (Nat.not_lt_zero _)
    | succ n =>
      rw [List.cons_append, takeLine, if_neg hb,
        ih (fun hmem => h (List.mem_cons_of_mem b hmem)) (Nat.lt_of_succ_lt_succ hlen)]
      rfl

/-- The last line may have no newline. -/
theorem takeLine_last {n : Nat} {line : Bytes} (h : newline ∉ line) (hlen : line.length ≤ n) :
    takeLine n line = (line, []) := by
  induction line generalizing n with
  | nil => cases n <;> rfl
  | cons b line ih =>
    have hb : b ≠ newline := fun hbn => h (hbn ▸ List.mem_cons_self)
    cases n with
    | zero => exact absurd hlen (Nat.not_succ_le_zero _)
    | succ n =>
      rw [takeLine, if_neg hb,
        ih (fun hmem => h (List.mem_cons_of_mem b hmem)) (Nat.le_of_succ_le_succ hlen)]

/-- A line that is too long is cut. -/
theorem takeLine_long {input : Bytes} (h : newline ∉ input) (rest : Bytes) :
    takeLine input.length (input ++ rest) = (input, rest) := by
  induction input with
  | nil => rfl
  | cons b input ih =>
    have hb : b ≠ newline := fun hbn => h (hbn ▸ List.mem_cons_self)
    rw [List.length_cons, List.cons_append, takeLine, if_neg hb,
      ih fun hmem => h (List.mem_cons_of_mem b hmem)]

/-- **A call that stores something has consumed something.** -/
theorem fgets_shrinks {s s' stream rest : Bytes} {size : Nat}
    (h : fgets s size stream = some (some s', rest)) : rest.length < stream.length := by
  have hsplit := congrArg List.length (takeLine_append (size - 1) stream)
  rw [List.length_append] at hsplit
  simp only [fgets] at h
  split at h
  · cases h
  · rename_i hne
    split at h
    · cases h
      have := List.length_pos_iff.mpr hne
      omega
    · cases h

/-- What is left is the end of the stream. -/
theorem fgets_suffix {s stream rest : Bytes} {o : Option Bytes} {size : Nat}
    (h : fgets s size stream = some (o, rest)) : rest <:+ stream := by
  have hsplit := takeLine_append (size - 1) stream
  simp only [fgets] at h
  split at h
  · cases h
    exact ⟨_, hsplit⟩
  · split at h
    · cases h
      exact ⟨_, hsplit⟩
    · cases h

/-- **What is stored is a string.** -/
theorem fgets_nul {s s' stream rest : Bytes} {size : Nat}
    (h : fgets s size stream = some (some s', rest)) : 0 ∈ s' := by
  simp only [fgets] at h
  split at h
  · cases h
  · split at h
    · cases h
      exact List.mem_append_right _ List.mem_cons_self
    · cases h

theorem fgets_null (s : Bytes) (size : Nat) :
    fgets s (size + 2) [] = some (none, []) := rfl

/-- A call that finds something, with an array that is large enough. -/
theorem fgets_piece {s stream : Bytes} {size : Nat} (hs : size + 2 ≤ s.length)
    (h : stream ≠ []) :
    fgets s (size + 2) stream =
      some (some ((takeLine (size + 1) stream).1 ++
          0 :: s.drop ((takeLine (size + 1) stream).1.length + 1)),
        (takeLine (size + 1) stream).2) := by
  have hle := takeLine_length_le (size + 1) stream
  simp only [fgets, Nat.add_one_sub_one]
  rw [if_neg fun hnil => h (takeLine_eq_nil.mp hnil), if_pos (by omega)]

/-! ## Lines -/

theorem lines_newline {line : Bytes} (h : newline ∉ line) (rest : Bytes) :
    lines (line ++ newline :: rest) = line :: lines rest :=
  List.splitOn_append_cons_self_of_not_mem h rest

/-- A piece without newline belongs to the first line. -/
theorem lines_append {piece : Bytes} (h : newline ∉ piece) (rest : Bytes) :
    lines (piece ++ rest) = (lines rest).modifyHead (piece ++ ·) := by
  induction piece with
  | nil =>
    rw [List.nil_append]
    cases lines rest <;> rfl
  | cons b piece ih =>
    have hb : (b == newline) = false :=
      beq_false_of_ne fun hbn => h (hbn ▸ List.mem_cons_self)
    have ih := ih fun hmem => h (List.mem_cons_of_mem b hmem)
    unfold lines at ih ⊢
    rw [List.cons_append, List.splitOn_cons_eq_if_modifyHead, hb, ih]
    cases rest.splitOn newline <;> rfl

/-- **A piece is a line.** When no line is longer than a piece may be, the next piece is the
first line with its newline, or without it; then what is left starts with an empty line. -/
theorem lines_takeLine {n : Nat} {input : Bytes} (h : ∀ line ∈ lines input, line.length ≤ n) :
    (∃ line, (takeLine n input).1 = line ++ [newline] ∧
        lines input = line :: lines (takeLine n input).2) ∨
      ∃ ls, lines input = (takeLine n input).1 :: ls ∧ lines (takeLine n input).2 = [] :: ls := by
  have hsplit := takeLine_append n input
  rcases takeLine_cases n input with ⟨line, hline, hpiece⟩ | ⟨hpiece, hend⟩
  · left
    refine ⟨line, hpiece, ?_⟩
    rw [← lines_newline hline, ← List.singleton_append, ← List.append_assoc, ← hpiece, hsplit]
  · right
    obtain ⟨first, ls, hls⟩ := List.exists_cons_of_ne_nil
      (List.splitOn_ne_nil newline (takeLine n input).2)
    have hinput := lines_append hpiece (takeLine n input).2
    rw [hsplit, show lines (takeLine n input).2 = first :: ls from hls,
      List.modifyHead_cons] at hinput
    -- the piece has no room for more of its line, or there is no more
    have hfirst : first = [] := by
      rcases hend with hfull | hlast
      · have hle := h _ (hinput ▸ List.mem_cons_self)
        rw [List.length_append, hfull] at hle
        exact List.eq_nil_of_length_eq_zero (by omega)
      · rw [hlast] at hls
        exact (List.cons.inj hls).1.symm
    subst hfirst
    rw [List.append_nil] at hinput
    exact ⟨ls, hinput, hls⟩

end OsProg.Infra
