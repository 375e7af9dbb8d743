import OsProg.Infra.CString

/-!
# `strtok_r`

The string is cut in place. A token is a maximal run of bytes that are no delimiters
(`tokens`); `tokenStarts` says where the tokens are, and `cut` what is left of the string:
every delimiter that closes a token is overwritten with NUL.

* `words_induction` — a string is a gap, or ends in a word behind a gap, or goes on behind a
  gap, a word and a delimiter
* `strtok_r_gap`, `strtok_r_start` — what a call does at the end of a string, and where a
  word is ahead
* `cstr_tokenStarts` — in the string that is left, the tokens are found where they start
-/

namespace OsProg.Infra

/-! ## The function -/

/-- `strspn`. The set has no NUL. -/
def strspn (accept : Bytes) : Bytes → Option Nat
  | [] => none
  | b :: p => if b ≠ 0 ∧ b ∈ accept then (strspn accept p).map (· + 1) else some 0

/-- `strcspn`. -/
def strcspn (reject : Bytes) : Bytes → Option Nat
  | [] => none
  | b :: p => if b = 0 ∨ b ∈ reject then some 0 else (strcspn reject p).map (· + 1)

/-- What `strtok_r` returns, stores through its last argument, and leaves of the object that
the pointers point into. A pointer is its offset there, and `none` is `NULL`. -/
structure Strtok where
  token : Option Nat
  saveptr : Option Nat
  object : Bytes
  deriving DecidableEq, Repr

/-- `strtok_r(str, delim, &saveptr)`, or `none` for an access out of bounds. -/
def strtok_r (str : Option Nat) (delim : Bytes) (saveptr : Option Nat) (object : Bytes) :
    Option Strtok := do
  let s ← str.or saveptr
  let start := s + (← strspn delim (object.drop s))
  if (← object[start]?) = 0 then
    return { token := none, saveptr := some start, object }
  else
    let stop := start + (← strcspn delim (object.drop start))
    if (← object[stop]?) = 0 then
      return { token := some start, saveptr := some stop, object }
    else
      return { token := some start, saveptr := some (stop + 1), object := object.set stop 0 }

/-! ## Gaps and words -/

/-- The tokens of a string. -/
def tokens (delim line : Bytes) : List Bytes :=
  (line.splitOnP fun b => delim.contains b).filter fun w => w ≠ []

/-- Where the tokens start, counted from `i`. In a word no token starts. -/
def tokenStarts (delim : Bytes) : Bool → Nat → Bytes → List Nat
  | _, _, [] => []
  | inWord, i, b :: line =>
    if b ∈ delim then tokenStarts delim false (i + 1) line
    else if inWord then tokenStarts delim true (i + 1) line
    else i :: tokenStarts delim true (i + 1) line

/-- The string with the delimiters that close a word overwritten. -/
def cut (delim : Bytes) : Bool → Bytes → Bytes
  | _, [] => []
  | inWord, b :: line =>
    if b ∈ delim then (if inWord then 0 else b) :: cut delim false line
    else b :: cut delim true line

/-- A run of delimiters. -/
def IsGap (delim g : Bytes) : Prop := ∀ b ∈ g, b ∈ delim

/-- A run of other bytes. -/
def NoDelim (delim w : Bytes) : Prop := ∀ b ∈ w, b ∉ delim

section Gaps

variable {delim : Bytes}

/-- The longest run at the start of a string. -/
theorem exists_run (p : UInt8 → Prop) [DecidablePred p] : ∀ line : Bytes,
    ∃ run rest, line = run ++ rest ∧ (∀ b ∈ run, p b) ∧ ∀ b ∈ rest.head?, ¬ p b
  | [] => ⟨[], [], rfl, fun _ hb => absurd hb List.not_mem_nil, fun _ hb => nomatch hb⟩
  | b :: line => by
    by_cases hb : p b
    · obtain ⟨run, rest, rfl, hrun, hrest⟩ := exists_run p line
      refine ⟨b :: run, rest, rfl, ?_, hrest⟩
      intro c hc
      rcases List.mem_cons.mp hc with rfl | hc
      · exact hb
      · exact hrun c hc
    · refine ⟨[], b :: line, rfl, fun _ hc => absurd hc List.not_mem_nil, ?_⟩
      rintro c ⟨⟩
      exact hb

/-- **A string is cut word by word.** -/
@[elab_as_elim]
theorem words_induction {motive : Bytes → Prop}
    (gap : ∀ g, IsGap delim g → motive g)
    (last : ∀ g w, IsGap delim g → NoDelim delim w → w ≠ [] → motive (g ++ w))
    (word : ∀ g w d line, IsGap delim g → NoDelim delim w → w ≠ [] → d ∈ delim →
      motive line → motive (g ++ (w ++ d :: line)))
    (line : Bytes) : motive line := by
  obtain ⟨g, rest, hline, hg, hrest⟩ := exists_run (· ∈ delim) line
  obtain ⟨w, rest', rfl, hw, hrest'⟩ := exists_run (· ∉ delim) rest
  cases w with
  | nil =>
    cases rest' with
    | nil =>
      rw [hline, List.nil_append, List.append_nil]
      exact gap g hg
    | cons d line' => exact absurd (hrest d rfl) (hrest' d rfl)
  | cons b w =>
    cases rest' with
    | nil =>
      rw [hline, List.append_nil]
      exact last g (b :: w) hg hw (List.cons_ne_nil b w)
    | cons d line' =>
      have hlt : line'.length < line.length := by
        rw [hline]
        simp only [List.length_append, List.length_cons]
        omega
      have ih : motive line' := words_induction gap last word line'
      rw [hline]
      exact word g (b :: w) d line' hg hw (List.cons_ne_nil b w)
        (Decidable.not_not.mp (hrest' d rfl)) ih
termination_by line.length

/-! ## The three cases -/

theorem tokens_gap {g : Bytes} (hg : IsGap delim g) (line : Bytes) :
    tokens delim (g ++ line) = tokens delim line := by
  induction g with
  | nil => rfl
  | cons d g ih =>
    have hd : delim.contains d = true := List.contains_iff_mem.mpr (hg d List.mem_cons_self)
    have ih := ih fun b hb => hg b (List.mem_cons_of_mem d hb)
    unfold tokens at ih ⊢
    rw [List.cons_append, List.splitOnP_cons_eq_if_modifyHead, if_pos hd, ← ih]
    rfl

theorem splits_word {w : Bytes} (hw : NoDelim delim w) : ∀ b ∈ w, delim.contains b = false := by
  intro b hb
  rw [← Bool.not_eq_true, List.contains_iff_mem]
  exact hw b hb

@[simp] theorem tokens_nil : tokens delim [] = [] := by
  unfold tokens
  rw [List.splitOnP_nil]
  rfl

theorem tokens_last {w : Bytes} (hw : NoDelim delim w) (hne : w ≠ []) :
    tokens delim w = [w] := by
  unfold tokens
  rw [List.splitOnP_eq_singleton (splits_word hw)]
  simp [hne]

theorem tokens_word {w : Bytes} {d : UInt8} (hw : NoDelim delim w) (hne : w ≠ [])
    (hd : d ∈ delim) (line : Bytes) :
    tokens delim (w ++ d :: line) = w :: tokens delim line := by
  unfold tokens
  rw [List.splitOnP_append_cons_of_forall_mem (splits_word hw) d
    (List.contains_iff_mem.mpr hd), List.filter_cons, if_pos (by simpa using hne)]

/-- A delimiter at the end makes no difference. -/
theorem tokens_append_delim {d : UInt8} (hd : d ∈ delim) (line : Bytes) :
    tokens delim (line ++ [d]) = tokens delim line := by
  unfold tokens
  rw [List.splitOnP_append_cons line [] (List.contains_iff_mem.mpr hd), List.filter_append,
    List.splitOnP_nil]
  exact List.append_nil _

/-- **No delimiter is left in a token.** -/
theorem noDelim_tokens (line : Bytes) : ∀ w ∈ tokens delim line, NoDelim delim w := by
  induction line using @words_induction delim with
  | gap g hg =>
    rw [← List.append_nil g, tokens_gap hg, tokens_nil]
    exact List.forall_mem_nil _
  | last g w hg hw hne =>
    rw [tokens_gap hg, tokens_last hw hne]
    exact List.forall_mem_singleton.mpr hw
  | word g w d line hg hw hne hd ih =>
    rw [tokens_gap hg, tokens_word hw hne hd]
    exact List.forall_mem_cons.mpr ⟨hw, ih⟩

theorem tokenStarts_gap {g : Bytes} (hg : IsGap delim g) (i : Nat) (line : Bytes) :
    tokenStarts delim false i (g ++ line) = tokenStarts delim false (i + g.length) line := by
  induction g generalizing i with
  | nil => rfl
  | cons d g ih =>
    rw [List.cons_append, tokenStarts, if_pos (hg d List.mem_cons_self),
      ih fun b hb => hg b (List.mem_cons_of_mem d hb), List.length_cons, Nat.add_right_comm,
      Nat.add_assoc]

theorem tokenStarts_inWord {w : Bytes} (hw : NoDelim delim w) (i : Nat) (line : Bytes) :
    tokenStarts delim true i (w ++ line) = tokenStarts delim true (i + w.length) line := by
  induction w generalizing i with
  | nil => rfl
  | cons b w ih =>
    rw [List.cons_append, tokenStarts, if_neg (hw b List.mem_cons_self), if_pos rfl,
      ih fun c hc => hw c (List.mem_cons_of_mem b hc), List.length_cons, Nat.add_right_comm,
      Nat.add_assoc]

theorem tokenStarts_word {w : Bytes} (hw : NoDelim delim w) (hne : w ≠ []) (i : Nat)
    (line : Bytes) :
    tokenStarts delim false i (w ++ line) = i :: tokenStarts delim true (i + w.length) line := by
  cases w with
  | nil => exact absurd rfl hne
  | cons b w =>
    rw [List.cons_append, tokenStarts, if_neg (hw b List.mem_cons_self),
      if_neg Bool.false_ne_true, tokenStarts_inWord fun c hc => hw c (List.mem_cons_of_mem b hc),
      List.length_cons, Nat.add_right_comm, Nat.add_assoc]

theorem tokenStarts_delim {d : UInt8} (hd : d ∈ delim) (inWord : Bool) (i : Nat)
    (line : Bytes) :
    tokenStarts delim inWord i (d :: line) = tokenStarts delim false (i + 1) line := by
  rw [tokenStarts, if_pos hd]

theorem cut_gap {g : Bytes} (hg : IsGap delim g) (line : Bytes) :
    cut delim false (g ++ line) = g ++ cut delim false line := by
  induction g with
  | nil => rfl
  | cons d g ih =>
    rw [List.cons_append, cut, if_pos (hg d List.mem_cons_self), if_neg Bool.false_ne_true,
      ih fun b hb => hg b (List.mem_cons_of_mem d hb), List.cons_append]

theorem cut_inWord {w : Bytes} (hw : NoDelim delim w) (line : Bytes) :
    cut delim true (w ++ line) = w ++ cut delim true line := by
  induction w with
  | nil => rfl
  | cons b w ih =>
    rw [List.cons_append, cut, if_neg (hw b List.mem_cons_self),
      ih fun c hc => hw c (List.mem_cons_of_mem b hc), List.cons_append]

theorem cut_word {w : Bytes} (hw : NoDelim delim w) (hne : w ≠ []) (line : Bytes) :
    cut delim false (w ++ line) = w ++ cut delim true line := by
  cases w with
  | nil => exact absurd rfl hne
  | cons b w =>
    rw [List.cons_append, cut, if_neg (hw b List.mem_cons_self),
      cut_inWord fun c hc => hw c (List.mem_cons_of_mem b hc), List.cons_append]

theorem cut_delim {d : UInt8} (hd : d ∈ delim) (line : Bytes) :
    cut delim true (d :: line) = 0 :: cut delim false line := by
  rw [cut, if_pos hd, if_pos rfl]

end Gaps

/-! ## One call -/

section Calls

variable {delim : Bytes}

theorem strspn_eq {g : Bytes} {b : UInt8} (hg : IsGap delim g) (h0 : 0 ∉ g)
    (hb : b = 0 ∨ b ∉ delim) (r : Bytes) : strspn delim (g ++ b :: r) = some g.length := by
  induction g with
  | nil =>
    rw [List.nil_append, strspn, if_neg (by tauto)]
    rfl
  | cons d g ih =>
    have hd : d ≠ 0 := fun h => h0 (h ▸ List.mem_cons_self)
    rw [List.cons_append, strspn, if_pos ⟨hd, hg d List.mem_cons_self⟩,
      ih (fun c hc => hg c (List.mem_cons_of_mem d hc)) fun h => h0 (List.mem_cons_of_mem d h)]
    rfl

theorem strcspn_eq {w : Bytes} {b : UInt8} (hw : NoDelim delim w) (h0 : 0 ∉ w)
    (hb : b = 0 ∨ b ∈ delim) (r : Bytes) : strcspn delim (w ++ b :: r) = some w.length := by
  induction w with
  | nil =>
    rw [List.nil_append, strcspn, if_pos hb]
    rfl
  | cons c w ih =>
    have hc : ¬(c = 0 ∨ c ∈ delim) := by
      rintro (h | h)
      · exact h0 (h ▸ List.mem_cons_self)
      · exact hw c List.mem_cons_self h
    rw [List.cons_append, strcspn, if_neg hc,
      ih (fun a ha => hw a (List.mem_cons_of_mem c ha)) fun h => h0 (List.mem_cons_of_mem c h)]
    rfl

variable {pre g w r : Bytes} {str saveptr : Option Nat}

/-- The bytes at the end of a prefix. -/
theorem getElem?_after (pre : Bytes) (b : UInt8) (r : Bytes) :
    (pre ++ b :: r)[pre.length]? = some b := by
  rw [List.getElem?_append_right (Nat.le_refl _), Nat.sub_self, List.getElem?_cons_zero]

theorem not_mem_gap (hd0 : 0 ∉ delim) (hg : IsGap delim g) : 0 ∉ g := fun h => hd0 (hg 0 h)

/-- At the end of the string. -/
theorem strtok_r_gap (hs : str.or saveptr = some pre.length) (hd0 : 0 ∉ delim)
    (hg : IsGap delim g) :
    strtok_r str delim saveptr (pre ++ (g ++ 0 :: r)) =
      some { token := none, saveptr := some (pre.length + g.length),
             object := pre ++ (g ++ 0 :: r) } := by
  have hget : (pre ++ (g ++ 0 :: r))[pre.length + g.length]? = some 0 := by
    rw [← List.append_assoc, ← List.length_append]
    exact getElem?_after _ _ _
  unfold strtok_r
  simp only [hs, Option.bind_eq_bind, Option.bind_some, List.drop_left,
    strspn_eq hg (not_mem_gap hd0 hg) (.inl rfl), hget, if_true]
  rfl

/-- Where a word is behind the pointer. -/
theorem strtok_r_start {d : UInt8} (hs : str.or saveptr = some pre.length) (hd0 : 0 ∉ delim)
    (hg : IsGap delim g) (hw : NoDelim delim w) (hw0 : 0 ∉ w) (hne : w ≠ [])
    (hd : d = 0 ∨ d ∈ delim) :
    strtok_r str delim saveptr (pre ++ (g ++ (w ++ d :: r))) =
      if d = 0 then
        some { token := some (pre.length + g.length),
               saveptr := some (pre.length + g.length + w.length),
               object := pre ++ (g ++ (w ++ d :: r)) }
      else
        some { token := some (pre.length + g.length),
               saveptr := some (pre.length + g.length + w.length + 1),
               object := pre ++ (g ++ (w ++ 0 :: r)) } := by
  obtain ⟨b, w', rfl⟩ := List.exists_cons_of_ne_nil hne
  have hb : b ≠ 0 := fun h => hw0 (h ▸ List.mem_cons_self)
  have hstart : (pre ++ (g ++ (b :: w' ++ d :: r)))[pre.length + g.length]? = some b := by
    rw [← List.append_assoc, ← List.length_append]
    exact getElem?_after _ _ _
  have hdrop : (pre ++ (g ++ (b :: w' ++ d :: r))).drop (pre.length + g.length) =
      b :: w' ++ d :: r := by
    rw [← List.append_assoc, ← List.length_append]
    exact List.drop_left
  have hlen : pre.length + g.length + (b :: w').length = (pre ++ (g ++ b :: w')).length := by
    simp only [List.length_append]
    omega
  have hassoc : pre ++ (g ++ (b :: w' ++ d :: r)) = pre ++ (g ++ b :: w') ++ d :: r := by
    simp only [List.append_assoc]
  have hstop : (pre ++ (g ++ (b :: w' ++ d :: r)))[pre.length + g.length + (b :: w').length]? =
      some d := by
    rw [hlen, hassoc]
    exact getElem?_after _ _ _
  have hset : (pre ++ (g ++ (b :: w' ++ d :: r))).set
      (pre.length + g.length + (b :: w').length) 0 = pre ++ (g ++ (b :: w' ++ 0 :: r)) := by
    rw [hlen, hassoc, List.set_append_right _ _ (Nat.le_refl _), Nat.sub_self,
      List.set_cons_zero]
    simp only [List.append_assoc]
  unfold strtok_r
  simp only [hs, Option.bind_eq_bind, Option.bind_some, List.drop_left]
  rw [List.cons_append, strspn_eq hg (not_mem_gap hd0 hg) (.inr (hw b List.mem_cons_self))]
  rw [← List.cons_append]
  simp only [Option.bind_some, hstart, if_neg hb, hdrop, strcspn_eq hw hw0 hd, hstop, hset]
  split <;> rfl

end Calls

/-! ## The tokens in the string that is left -/

section Left

variable {delim : Bytes}

/-- A word that is followed by NUL is read as it is. -/
theorem cstr_word {w : Bytes} (hw0 : 0 ∉ w) (pre r : Bytes) :
    cstr ((pre ++ (w ++ 0 :: r)).drop pre.length) = some w := by
  rw [List.drop_left, cstr_eq (List.mem_append_right w List.mem_cons_self),
    beforeNul_append_nul hw0]

/-- **The tokens are where they started.** -/
theorem cstr_tokenStarts {line : Bytes} (h0 : 0 ∉ line) (pre r : Bytes) :
    (tokenStarts delim false pre.length line).map
        (fun s => cstr ((pre ++ (cut delim false line ++ 0 :: r)).drop s)) =
      (tokens delim line).map some := by
  induction line using @words_induction delim generalizing pre with
  | gap g hg =>
    rw [← List.append_nil g, tokenStarts_gap hg, tokens_gap hg, tokens_nil]
    rfl
  | last g w hg hw hne =>
    have hw0 : 0 ∉ w := fun h => h0 (List.mem_append_right g h)
    rw [tokenStarts_gap hg, tokens_gap hg, tokens_last hw hne, cut_gap hg,
      ← List.append_nil w, tokenStarts_word hw hne, cut_word hw hne, List.append_nil, cut,
      List.append_nil]
    have hread := cstr_word hw0 (pre ++ g) r
    rw [List.length_append, List.append_assoc] at hread
    simp only [tokenStarts, List.map_cons, List.map_nil, List.append_assoc, hread]
  | word g w d line hg hw hne hd ih =>
    have hw0 : 0 ∉ w := fun h => h0 (List.mem_append_right g (List.mem_append_left _ h))
    have hl0 : 0 ∉ line := fun h =>
      h0 (List.mem_append_right g (List.mem_append_right w (List.mem_cons_of_mem d h)))
    rw [tokenStarts_gap hg, tokens_gap hg, tokens_word hw hne hd, cut_gap hg,
      tokenStarts_word hw hne, cut_word hw hne, tokenStarts_delim hd, cut_delim hd]
    have hread := cstr_word hw0 (pre ++ g) (cut delim false line ++ 0 :: r)
    have ih := ih hl0 (pre ++ (g ++ (w ++ [0])))
    -- the rest of the string, with what is done in front of it
    have hlen : (pre ++ (g ++ (w ++ [0]))).length = pre.length + g.length + w.length + 1 := by
      simp only [List.length_append, List.length_cons, List.length_nil]
      omega
    rw [hlen] at ih
    simp only [List.length_append, List.append_assoc, List.cons_append, List.nil_append] at hread ih
    rw [List.map_cons, List.map_cons, ← ih]
    simp only [List.append_assoc, List.cons_append, hread]

theorem cut_length : ∀ (inWord : Bool) (line : Bytes), (cut delim inWord line).length = line.length
  | _, [] => rfl
  | inWord, b :: line => by
    rw [cut]
    split <;> rw [List.length_cons, List.length_cons, cut_length]

theorem tokenStarts_length (line : Bytes) (i : Nat) :
    (tokenStarts delim false i line).length = (tokens delim line).length := by
  induction line using @words_induction delim generalizing i with
  | gap g hg => rw [← List.append_nil g, tokenStarts_gap hg, tokens_gap hg, tokens_nil]; rfl
  | last g w hg hw hne =>
    rw [tokenStarts_gap hg, tokens_gap hg, tokens_last hw hne, ← List.append_nil w,
      tokenStarts_word hw hne]
    rfl
  | word g w d line hg hw hne hd ih =>
    rw [tokenStarts_gap hg, tokens_gap hg, tokens_word hw hne hd, tokenStarts_word hw hne,
      tokenStarts_delim hd, List.length_cons, List.length_cons, ih]

end Left

end OsProg.Infra
