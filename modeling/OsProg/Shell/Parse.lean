import OsProg.Infra.Counter
import OsProg.Shell.Model

/-!
# Parsing a command

`parse_command` finds the tokens of its line: as many as there are, each where it starts, and
each a string of its own in the line that is left (`parse_command_eq`,
`argStrings_eq`). When there are as many tokens as slots, the `NULL` behind them
has no slot, and the index of the slots is an `int`.
-/

namespace OsProg.Shell

open Infra

/-! ## Rounds of the loop -/

theorem nul_not_delim : (0 : UInt8) ∉ delim := by decide

section Rounds

variable {i : Nat} {pre g w r : Bytes} {str saveptr : Option Nat} {slot : Option Nat}
  {argv : List (Option Nat)}

/-- There is no slot, or no index for it. -/
theorem parseLoop_full (h : argv = [] ∨ i = 2 ^ 31) (object : Bytes) :
    parseLoop (BitVec.ofNat 32 i) argv str saveptr object = .error .cmdargv := by
  cases argv with
  | nil => rfl
  | cons slot argv =>
    rcases h with h | rfl
    · cases h
    · rw [parseLoop, if_pos (by decide)]

/-- A round whose index has not overflowed. -/
theorem parseLoop_cons (hi : i < 2 ^ 31) (object : Bytes) :
    parseLoop (BitVec.ofNat 32 i) (slot :: argv) str saveptr object =
      match strtok_r str delim saveptr object with
      | none => .error .strtok
      | some { token := none, saveptr := _, object } => .ok (i, none :: argv, object)
      | some { token := some p, saveptr, object } =>
        match parseLoop (BitVec.ofNat 32 (i + 1)) argv none saveptr object with
        | .ok (num, argv, object) => .ok (num, some p :: argv, object)
        | .error f => .error f := by
  have hindex : ¬ (BitVec.ofNat 32 i).toInt < 0 := by
    rw [toInt_ofNat hi]
    omega
  have hnum : (BitVec.ofNat 32 i).toNat = i := Nat.mod_eq_of_lt (by omega)
  rewrite [parseLoop, if_neg hindex, hnum, ofNat_add_one]
  rfl

/-- The round that ends the loop. -/
theorem parseLoop_gap (hi : i < 2 ^ 31) (hs : str.or saveptr = some pre.length)
    (hg : IsGap delim g) :
    parseLoop (BitVec.ofNat 32 i) (slot :: argv) str saveptr (pre ++ (g ++ 0 :: r)) =
      .ok (i, none :: argv, pre ++ (g ++ 0 :: r)) := by
  rw [parseLoop_cons hi, strtok_r_gap hs nul_not_delim hg]

/-- A round that finds the last token, which the end of the string closes. -/
theorem parseLoop_last (hi : i < 2 ^ 31) (hs : str.or saveptr = some pre.length)
    (hg : IsGap delim g) (hw : NoDelim delim w) (hw0 : 0 ∉ w) (hne : w ≠ []) :
    parseLoop (BitVec.ofNat 32 i) (slot :: argv) str saveptr (pre ++ (g ++ (w ++ 0 :: r))) =
      match parseLoop (BitVec.ofNat 32 (i + 1)) argv none (some (pre ++ (g ++ w)).length)
        ((pre ++ (g ++ w)) ++ ([] ++ 0 :: r)) with
      | .ok (num, argv, object) => .ok (num, some (pre.length + g.length) :: argv, object)
      | .error f => .error f := by
  have hpre : pre ++ (g ++ (w ++ 0 :: r)) = (pre ++ (g ++ w)) ++ ([] ++ 0 :: r) := by
    simp only [List.append_assoc, List.nil_append]
  have hlen : pre.length + g.length + w.length = (pre ++ (g ++ w)).length := by
    simp only [List.length_append, Nat.add_assoc]
  rw [parseLoop_cons hi, strtok_r_start hs nul_not_delim hg hw hw0 hne (.inl rfl), if_pos rfl]
  dsimp only
  rw [hlen, hpre]

/-- A round that finds a token and goes on behind the delimiter that closes it. -/
theorem parseLoop_word {d : UInt8} {line : Bytes} (hi : i < 2 ^ 31)
    (hs : str.or saveptr = some pre.length) (hg : IsGap delim g) (hw : NoDelim delim w)
    (hw0 : 0 ∉ w) (hne : w ≠ []) (hd : d ∈ delim) :
    parseLoop (BitVec.ofNat 32 i) (slot :: argv) str saveptr
        (pre ++ (g ++ (w ++ d :: line))) =
      match parseLoop (BitVec.ofNat 32 (i + 1)) argv none
        (some (pre ++ (g ++ (w ++ [0]))).length) ((pre ++ (g ++ (w ++ [0]))) ++ line) with
      | .ok (num, argv, object) => .ok (num, some (pre.length + g.length) :: argv, object)
      | .error f => .error f := by
  have hpre : pre ++ (g ++ (w ++ 0 :: line)) = (pre ++ (g ++ (w ++ [0]))) ++ line := by
    simp only [List.append_assoc, List.cons_append, List.nil_append]
  have hlen : pre.length + g.length + w.length + 1 = (pre ++ (g ++ (w ++ [0]))).length := by
    simp only [List.length_append, List.length_cons, List.length_nil, Nat.add_assoc]
  have hd0 : d ≠ 0 := fun h => nul_not_delim (h ▸ hd)
  rw [parseLoop_cons hi, strtok_r_start hs nul_not_delim hg hw hw0 hne (.inr hd), if_neg hd0]
  dsimp only
  rw [hlen, hpre]

end Rounds

/-! ## The whole loop -/

/-- **The loop finds the tokens.** -/
theorem parseLoop_eq {line : Bytes} (h0 : 0 ∉ line) (pre r : Bytes) {str saveptr : Option Nat}
    (hs : str.or saveptr = some pre.length) {i : Nat} {argv : List (Option Nat)}
    (hlen : (tokens delim line).length < argv.length)
    (hi : i + (tokens delim line).length < 2 ^ 31) :
    parseLoop (BitVec.ofNat 32 i) argv str saveptr (pre ++ (line ++ 0 :: r)) =
      .ok (i + (tokens delim line).length,
        (tokenStarts delim false pre.length line).map some ++
          none :: argv.drop ((tokens delim line).length + 1),
        pre ++ (cut delim false line ++ 0 :: r)) := by
  induction line using @words_induction delim
    generalizing pre str saveptr i argv with
  | gap g hg =>
    obtain ⟨slot, argv, rfl⟩ := List.exists_cons_of_length_pos (Nat.zero_lt_of_lt hlen)
    have hcut := cut_gap hg []
    have hstarts := tokenStarts_gap hg pre.length []
    have htokens := tokens_gap hg []
    rw [List.append_nil] at hcut hstarts htokens
    rw [parseLoop_gap (by omega) hs hg, hcut, hstarts, htokens, tokens_nil]
    simp [cut, tokenStarts]
  | last g w hg hw hne =>
    have hw0 : 0 ∉ w := fun h => h0 (List.mem_append_right g h)
    have hcut := cut_word hw hne []
    have hstarts := tokenStarts_word hw hne (pre.length + g.length) []
    rw [List.append_nil] at hcut hstarts
    rw [tokens_gap hg, tokens_last hw hne] at hlen hi ⊢
    rw [List.length_singleton] at hi
    obtain ⟨slot, argv, rfl⟩ := List.exists_cons_of_length_pos (Nat.zero_lt_of_lt hlen)
    obtain ⟨slot', argv, rfl⟩ :=
      List.exists_cons_of_length_pos (Nat.zero_lt_of_lt (Nat.lt_of_succ_lt_succ hlen))
    have hnone : IsGap delim [] := fun b hb => absurd hb List.not_mem_nil
    rw [List.append_assoc, parseLoop_last (by omega) hs hg hw hw0 hne, parseLoop_gap hi rfl hnone,
      cut_gap hg, hcut, tokenStarts_gap hg, hstarts]
    simp [cut, tokenStarts]
  | word g w d line hg hw hne hd ih =>
    have hw0 : 0 ∉ w := fun h => h0 (List.mem_append_right g (List.mem_append_left _ h))
    have hl0 : 0 ∉ line := fun h =>
      h0 (List.mem_append_right g (List.mem_append_right w (List.mem_cons_of_mem d h)))
    rw [tokens_gap hg, tokens_word hw hne hd, List.length_cons] at hlen hi ⊢
    obtain ⟨slot, argv, rfl⟩ := List.exists_cons_of_length_pos (Nat.zero_lt_of_lt hlen)
    have hrest : parseLoop (BitVec.ofNat 32 (i + 1)) argv none
        (some (pre ++ (g ++ (w ++ [0]))).length)
        ((pre ++ (g ++ (w ++ [0]))) ++ (line ++ 0 :: r)) = _ :=
      ih hl0 _ rfl (Nat.lt_of_succ_lt_succ hlen) (by omega)
    have hpre : (pre ++ (g ++ (w ++ [0]))).length = pre.length + g.length + w.length + 1 := by
      simp only [List.length_append, List.length_cons, List.length_nil, Nat.add_assoc]
    rw [List.append_assoc, List.append_assoc, List.cons_append,
      parseLoop_word (by omega) hs hg hw hw0 hne hd, hrest, cut_gap hg,
      cut_word hw hne, cut_delim hd, tokenStarts_gap hg, tokenStarts_word hw hne,
      tokenStarts_delim hd, hpre, Nat.add_comm (tokens delim line).length 1, ← Nat.add_assoc]
    simp only [List.map_cons, List.cons_append, List.append_assoc, List.drop_succ_cons,
      List.nil_append, Nat.add_comm 1]

/-! ## The arguments -/

theorem argStrings_eq {object : Bytes} {argv : List (Option Nat)} :
    ∀ {starts : List Nat} {words : List Bytes},
    starts.map (fun s => cstr (object.drop s)) = words.map some →
      argStrings object (starts.map some ++ none :: argv) = some words
  | [], [], _ => rfl
  | s :: starts, word :: words, h => by
    obtain ⟨hword, h⟩ := List.cons.inj h
    change cstr (object.drop s) = some word at hword
    rw [List.map_cons, List.cons_append, argStrings, hword, argStrings_eq h]
    rfl

/-- The first string is read through the first slot. -/
theorem argStrings_cons {object cmd : Bytes} {args : List Bytes} {argv : List (Option Nat)}
    (h : argStrings object argv = some (cmd :: args)) :
    ∃ p, argv.head?.join = some p ∧ cstr (object.drop p) = some cmd := by
  match argv with
  | [] => cases h
  | none :: argv => cases h
  | some p :: argv =>
    simp only [argStrings, Option.bind_eq_bind, Option.bind_eq_some_iff] at h
    obtain ⟨arg, harg, args', _, h⟩ := h
    cases h
    exact ⟨p, rfl, harg⟩

/-- **`parse_command` finds the tokens.** There has to be one slot more than there are
tokens. -/
theorem parse_command_eq {line : Bytes} (h0 : 0 ∉ line) (r : Bytes) {argv : List (Option Nat)}
    (hlen : (tokens delim line).length < argv.length)
    (hi : (tokens delim line).length < 2 ^ 31) :
    ∃ argv' cmdline', parse_command (line ++ 0 :: r) argv =
        .ok ((tokens delim line).length, argv', cmdline') ∧
      argStrings cmdline' argv' = some (tokens delim line) ∧
      argv'.length = argv.length ∧ cmdline'.length = (line ++ 0 :: r).length := by
  have hparse := @parseLoop_eq line h0 [] r (some 0) none rfl 0 argv hlen (by omega)
  rw [Nat.zero_add] at hparse
  refine ⟨_, _, hparse, argStrings_eq (cstr_tokenStarts h0 [] r), ?_, ?_⟩
  · simp only [List.length_append, List.length_map, tokenStarts_length, List.length_cons,
      List.length_drop]
    omega
  · simp only [List.nil_append, List.length_append, cut_length]

end OsProg.Shell
