import OsProg.Infra.MaximalRun
import OsProg.Shell.Session

/-!
# Tokenizing in place

What `parse_command` leaves of the line and of the slots, with the tokens as the maximal runs
of bytes that are no delimiters (`parse_command_tokenizes`), and when it stays within its
slots: there has to be one more of them than there are tokens, and an `int` has to count the
tokens (`parse_command_cmdargv_iff`). `main` has 11 slots, and a line may have 128 tokens.
-/

namespace OsProg.Shell

open Infra

/-! ## What is left of the line -/

/-- What a call leaves: the slots and the line afterwards, given the slots and the line before
and the tokens with their places. -/
structure Tokenized (runs : List (Nat × Bytes)) (argv argv' : List (Option Nat))
    (cmdline cmdline' : Bytes) : Prop where
  null : argv'[runs.length]? = some none
  points : ∀ (j i : Nat) (w : Bytes), runs[j]? = some (i, w) →
    argv'[j]? = some (some i) ∧ cstr (cmdline'.drop i) = some w
  slots : argv'.length = argv.length
  pastSlots : ∀ j : Nat, runs.length < j → argv'[j]? = argv[j]?
  bytes : cmdline'.length = cmdline.length
  delims : ∀ (i : Nat) (b : UInt8), cmdline[i]? = some b → b ∉ delim → cmdline'[i]? = some b
  pastNul : cmdline'.drop (beforeNul cmdline).length = cmdline.drop (beforeNul cmdline).length

theorem cut_keeps : ∀ {s : Bytes} {inWord : Bool} {i : Nat} {b : UInt8},
    s[i]? = some b → b ∉ delim → (cut delim inWord s)[i]? = some b
  | c :: s, inWord, 0, b, hb, hbd => by
    cases hb
    rw [cut, if_neg hbd]
    rfl
  | c :: s, inWord, i + 1, b, hb, hbd => by
    rw [cut]
    split
    · exact cut_keeps (s := s) hb hbd
    · exact cut_keeps (s := s) hb hbd

theorem getElem?_tokenRuns {s w : Bytes} {i j : Nat} (h : (tokenRuns delim s)[j]? = some (i, w)) :
    (tokenStarts delim false 0 s)[j]? = some i ∧ (tokens delim s)[j]? = some w := by
  rw [← map_fst_tokenRuns, ← map_snd_tokenRuns, List.getElem?_map, List.getElem?_map, h]
  exact ⟨rfl, rfl⟩

theorem tokenRuns_length (s : Bytes) :
    (tokenRuns delim s).length = (tokens delim s).length := by
  rw [← map_snd_tokenRuns, List.length_map]

/-- What the loop leaves, in the words of the tokens and their places. -/
theorem tokenized {s : Bytes} (h0 : 0 ∉ s) (r : Bytes) {argv : List (Option Nat)}
    (hlen : (tokens delim s).length < argv.length) :
    Tokenized (tokenRuns delim s) argv
      ((tokenStarts delim false 0 s).map some ++ none :: argv.drop ((tokens delim s).length + 1))
      (s ++ 0 :: r) (cut delim false s ++ 0 :: r) := by
  have hstarts := @tokenStarts_length delim s 0
  have hstarts' : ((tokenStarts delim false 0 s).map some).length = (tokens delim s).length := by
    rw [List.length_map, hstarts]
  have hcut := @cut_length delim false s
  have hread := @cstr_tokenStarts delim s h0 [] r
  refine ⟨?_, ?_, ?_, ?_, ?_, ?_, ?_⟩
  · rw [tokenRuns_length, ← hstarts', List.getElem?_append_right (Nat.le_refl _), Nat.sub_self]
    rfl
  · intro j i w hj
    obtain ⟨hi, hw⟩ := getElem?_tokenRuns hj
    constructor
    · rw [List.getElem?_append_left, List.getElem?_map, hi]
      · rfl
      · rw [List.length_map]
        exact (List.getElem?_eq_some_iff.mp hi).1
    · have hread := congrArg (fun l : List (Option Bytes) => l[j]?) hread
      simpa [List.getElem?_map, hi, hw] using hread
  · simp only [List.length_append, hstarts', List.length_cons, List.length_drop]
    omega
  · intro j hj
    rw [tokenRuns_length] at hj
    rw [List.getElem?_append_right (by omega), hstarts', List.getElem?_cons,
      if_neg (by omega), List.getElem?_drop]
    congr 1
    omega
  · simp only [List.length_append, hcut, List.length_cons]
  · intro i b hb hbd
    rcases Nat.lt_or_ge i s.length with hi | hi
    · rw [List.getElem?_append_left hi] at hb
      rw [List.getElem?_append_left (hcut ▸ hi)]
      exact cut_keeps hb hbd
    · rw [List.getElem?_append_right hi] at hb
      rw [List.getElem?_append_right (hcut ▸ hi), hcut]
      exact hb
  · rw [beforeNul_append_nul h0, List.drop_left, ← hcut, List.drop_left]

/-- **`parse_command` tokenizes in place.** The tokens are the maximal runs of the string, in
their order. An `int` has to count them. -/
theorem parse_command_tokenizes {cmdline : Bytes} (h : 0 ∈ cmdline) {argv : List (Option Nat)}
    (hlen : (tokenRuns delim (beforeNul cmdline)).length < argv.length)
    (hint : (tokenRuns delim (beforeNul cmdline)).length < 2 ^ 31) :
    (∀ i w, (i, w) ∈ tokenRuns delim (beforeNul cmdline) ↔
      MaximalRun delim (beforeNul cmdline) i w) ∧
    (tokenRuns delim (beforeNul cmdline)).Pairwise (fun a b => a.1 < b.1) ∧
    ∃ argv' cmdline', parse_command cmdline argv =
        .ok ((tokenRuns delim (beforeNul cmdline)).length, argv', cmdline') ∧
      Tokenized (tokenRuns delim (beforeNul cmdline)) argv argv' cmdline cmdline' := by
  obtain ⟨s, r, h0, rfl⟩ : ∃ s r, 0 ∉ s ∧ cmdline = s ++ 0 :: r :=
    ⟨_, _, nul_not_mem_beforeNul cmdline, beforeNul_nul_afterNul h⟩
  rw [beforeNul_append_nul h0] at hlen hint ⊢
  rw [tokenRuns_length] at hlen hint
  have hparse := @parseLoop_eq s h0 [] r (some 0) none rfl 0 argv hlen (by omega)
  rw [Nat.zero_add] at hparse
  refine ⟨fun i w => mem_tokenRuns, tokenRuns_sorted delim s, _, _, ?_, tokenized h0 r hlen⟩
  rw [tokenRuns_length]
  exact hparse

theorem parse_command_tokenizes_ls :
    tokenRuns delim (ascii " ls  -l") = [(1, ascii "ls"), (5, ascii "-l")] ∧
    ∃ argv' cmdline', parse_command (ascii " ls  -l" ++ [0, 0x20]) [none, none, none, some 7] =
        .ok (2, argv', cmdline') ∧
      Tokenized [(1, ascii "ls"), (5, ascii "-l")] [none, none, none, some 7] argv'
        (ascii " ls  -l" ++ [0, 0x20]) cmdline' :=
  ⟨by decide, (@parse_command_tokenizes (ascii " ls  -l" ++ [0, 0x20]) (by decide)
    [none, none, none, some 7] (by decide) (by decide)).2.2⟩

/-! ## Too many tokens -/

theorem full_or_room {i : Nat} (hi : i ≤ 2 ^ 31) (argv : List (Option Nat)) :
    (argv = [] ∨ i = 2 ^ 31) ∨ i < 2 ^ 31 ∧ ∃ slot argv', argv = slot :: argv' := by
  cases argv with
  | nil => exact .inl (.inl rfl)
  | cons slot argv =>
    rcases Nat.lt_or_eq_of_le hi with hlt | heq
    · exact .inr ⟨hlt, slot, argv, rfl⟩
    · exact .inl (.inr heq)

/-- **When there are no fewer tokens than slots, the loop leaves its slots**, and so it does when
its index cannot count them. -/
theorem parseLoop_overflow {s : Bytes} (h0 : 0 ∉ s) (pre r : Bytes) {str saveptr : Option Nat}
    (hs : str.or saveptr = some pre.length) {i : Nat} (hi : i ≤ 2 ^ 31) {argv : List (Option Nat)}
    (hlen : argv.length ≤ (tokens delim s).length ∨ 2 ^ 31 ≤ i + (tokens delim s).length) :
    parseLoop (BitVec.ofNat 32 i) argv str saveptr (pre ++ (s ++ 0 :: r)) = .error .cmdargv := by
  induction s using @words_induction delim generalizing pre str saveptr i argv with
  | gap g hg =>
    have htokens := tokens_gap hg []
    rw [List.append_nil, tokens_nil] at htokens
    rw [htokens, List.length_nil] at hlen
    refine parseLoop_full (hlen.imp (fun h => ?_) fun h => by omega) _
    exact List.eq_nil_of_length_eq_zero (Nat.le_zero.mp h)
  | last g w hg hw hne =>
    have hw0 : 0 ∉ w := fun h => h0 (List.mem_append_right g h)
    rcases full_or_room hi argv with hfull | ⟨hlt, slot, argv, rfl⟩
    · exact parseLoop_full hfull _
    · rw [tokens_gap hg, tokens_last hw hne, List.length_cons, List.length_singleton] at hlen
      -- this token takes the last slot, or the last index
      have hlast : argv = [] ∨ i + 1 = 2 ^ 31 :=
        hlen.imp (fun h => List.eq_nil_of_length_eq_zero (by omega)) fun h => by omega
      rw [List.append_assoc, parseLoop_last hlt hs hg hw hw0 hne, parseLoop_full hlast]
  | word g w d s hg hw hne hd ih =>
    have hw0 : 0 ∉ w := fun h => h0 (List.mem_append_right g (List.mem_append_left _ h))
    have hl0 : 0 ∉ s := fun h =>
      h0 (List.mem_append_right g (List.mem_append_right w (List.mem_cons_of_mem d h)))
    rcases full_or_room hi argv with hfull | ⟨hlt, slot, argv, rfl⟩
    · exact parseLoop_full hfull _
    · rw [tokens_gap hg, tokens_word hw hne hd, List.length_cons, List.length_cons] at hlen
      rw [List.append_assoc, List.append_assoc, List.cons_append,
        parseLoop_word hlt hs hg hw hw0 hne hd, ih hl0 _ rfl hlt (by omega)]

/-- `parse_command` stays within its slots as long as there are enough of them, and an `int` counts
the tokens. -/
theorem parse_command_cmdargv_iff {cmdline : Bytes} (h : 0 ∈ cmdline)
    {argv : List (Option Nat)} :
    parse_command cmdline argv ≠ .error .cmdargv ↔
      (tokens delim (beforeNul cmdline)).length < argv.length ∧
        (tokens delim (beforeNul cmdline)).length < 2 ^ 31 := by
  have h0 := nul_not_mem_beforeNul cmdline
  constructor
  · intro hstores
    by_contra hlen
    refine hstores ?_
    rw [beforeNul_nul_afterNul h]
    refine parseLoop_overflow h0 [] _ rfl (i := 0) (Nat.zero_le _) ?_
    omega
  · rintro ⟨hlen, hint⟩
    obtain ⟨argv', cmdline', hparse, _⟩ := parse_command_eq h0 (afterNul cmdline) hlen hint
    rw [beforeNul_nul_afterNul h, hparse]
    nofun

theorem tokens_manyLines : ∀ n, tokens delim (manyLines n) = List.replicate n (letters 1)
  | 0 => tokens_nil
  | n + 1 => by
    have hw : NoDelim delim (letters 1) := by
      intro b hb
      rw [mem_letters hb]
      decide
    rw [manyLines, tokens_word hw (List.cons_ne_nil _ _) newline_delim, tokens_manyLines n,
      List.replicate_succ]

/-- No `int` counts these tokens, however many slots there are. -/
theorem not_parse_command_tokenizes :
    ¬ ∀ (cmdline : Bytes) (argv : List (Option Nat)), 0 ∈ cmdline →
      (tokenRuns delim (beforeNul cmdline)).length < argv.length →
      ∃ argv' cmdline', parse_command cmdline argv =
          .ok ((tokenRuns delim (beforeNul cmdline)).length, argv', cmdline') ∧
        Tokenized (tokenRuns delim (beforeNul cmdline)) argv argv' cmdline cmdline' := by
  intro hall
  have h0 : 0 ∈ manyLines (2 ^ 31) ++ [0] := List.mem_append_right _ (List.mem_singleton_self 0)
  have hbefore : beforeNul (manyLines (2 ^ 31) ++ [0]) = manyLines (2 ^ 31) :=
    beforeNul_append_nul (input_manyLines _).nul []
  have hcount : (tokens delim (manyLines (2 ^ 31))).length = 2 ^ 31 := by
    rw [tokens_manyLines, List.length_replicate]
  have hroom : (tokenRuns delim (beforeNul (manyLines (2 ^ 31) ++ [0]))).length <
      (List.replicate (2 ^ 31 + 1) (none : Option Nat)).length := by
    rw [hbefore, tokenRuns_length, hcount, List.length_replicate]
    exact Nat.lt_succ_self _
  obtain ⟨argv', cmdline', hparse, -⟩ := hall _ _ h0 hroom
  have hstores : parse_command (manyLines (2 ^ 31) ++ [0]) (List.replicate (2 ^ 31 + 1) none) ≠
      .error .cmdargv := by
    rw [hparse]
    nofun
  have hcounted := ((parse_command_cmdargv_iff h0).mp hstores).2
  rw [hbefore, hcount] at hcounted
  exact Nat.lt_irrefl _ hcounted

theorem readline_nul {s stdin s' rest : Bytes} {size : Nat}
    (h : (readline s size stdin).result = .ok (s', rest)) : 0 ∈ s' := by
  unfold readline at h
  obtain ⟨_, _, h⟩ := Traced.result_bind_ok h
  obtain ⟨⟨s₁, rest₁⟩, hread, h⟩ := Traced.result_bind_ok h
  obtain ⟨_, _, h⟩ := Traced.result_bind_ok h
  have hread := Traced.orStop_ok hread
  cases s₁ with
  | none => cases h
  | some s₁ =>
    cases h
    exact fgets_nul hread

/-- **Ten tokens fit into the array of `main`.** -/
theorem cmdargv_fits_iff (cmdline : CharArray 256) (cmdargv : Vector (Option Nat) 11)
    {stdin cmdline' rest : Bytes}
    (h : (readline cmdline.bytes 256 stdin).result = .ok (cmdline', rest)) :
    parse_command cmdline' cmdargv.toList ≠ .error .cmdargv ↔
      (tokens delim (beforeNul cmdline')).length ≤ 10 := by
  rw [parse_command_cmdargv_iff (readline_nul h), Vector.length_toList]
  omega

theorem cmdargv_fits_ten :
    ∃ cmdline', (readline zeros.bytes 256 (ascii "a b c d e f g h i j\n")).result =
        .ok (cmdline', []) ∧
      (parse_command cmdline' nulls.toList ≠ .error .cmdargv ↔
        (tokens delim (beforeNul cmdline')).length ≤ 10) :=
  ⟨_, congrArg Traced.result (readline_eq zeros.size (by decide)),
    cmdargv_fits_iff zeros nulls
      (congrArg Traced.result (readline_eq zeros.size (by decide)))⟩

/-- Eleven tokens do not. -/
theorem not_cmdargv_fits :
    ¬ ∀ (cmdline : CharArray 256) (cmdargv : Vector (Option Nat) 11)
      (stdin cmdline' rest : Bytes),
      (readline cmdline.bytes 256 stdin).result = .ok (cmdline', rest) →
        parse_command cmdline' cmdargv.toList ≠ .error .cmdargv := by
  intro hall
  have hread := congrArg Traced.result
    (@readline_eq zeros.bytes (ascii "a b c d e f g h i j k\n") zeros.size (by decide))
  have hfits := hall zeros nulls _ _ _ hread
  rw [parse_command_cmdargv_iff (readline_nul hread),
    beforeNul_append_nul (by decide)] at hfits
  exact absurd hfits (by decide)

end OsProg.Shell
