import OsProg.Infra.Strtok

/-!
# Maximal runs

A token is a maximal run of bytes that are no delimiters (`MaximalRun`). `tokenRuns` lists
the maximal runs of a string with the places where they start.

* `mem_tokenRuns` — it has the maximal runs, and nothing else
* `tokenRuns_sorted` — in the order in which they stand in the string
* `map_snd_tokenRuns` — without the places it is `tokens`
-/

namespace OsProg.Infra

variable {delim : Bytes}

/-- `w` stands at `i`, has no delimiter, and cannot be made longer at either end. -/
structure MaximalRun (delim s : Bytes) (i : Nat) (w : Bytes) : Prop where
  ne_nil : w ≠ []
  noDelim : NoDelim delim w
  here : w <+: s.drop i
  left : ∀ j, i = j + 1 → ∀ b, s[j]? = some b → b ∈ delim
  right : ∀ b, s[i + w.length]? = some b → b ∈ delim

/-- The longest run without delimiters at the start of a string. -/
def firstRun (delim s : Bytes) : Bytes := s.takeWhile fun b => !delim.contains b

/-- The maximal runs of a string and where they start. -/
def tokenRuns (delim s : Bytes) : List (Nat × Bytes) :=
  (tokenStarts delim false 0 s).map fun i => (i, firstRun delim (s.drop i))

/-! ## Where a run starts -/

/-- At `j` there is a byte that is no delimiter, and behind one there is none. -/
structure StartsAt (delim : Bytes) (inWord : Bool) (s : Bytes) (j : Nat) : Prop where
  byte : ∃ b, s[j]? = some b ∧ b ∉ delim
  first : j = 0 → inWord = false
  left : ∀ k, j = k + 1 → ∀ b, s[k]? = some b → b ∈ delim

theorem startsAt_zero {inWord : Bool} {b : UInt8} {s : Bytes} :
    StartsAt delim inWord (b :: s) 0 ↔ b ∉ delim ∧ inWord = false := by
  constructor
  · rintro ⟨⟨c, hc, hcd⟩, hfirst, _⟩
    cases hc
    exact ⟨hcd, hfirst rfl⟩
  · rintro ⟨hb, hfirst⟩
    exact ⟨⟨b, rfl, hb⟩, fun _ => hfirst, nofun⟩

theorem startsAt_succ {inWord : Bool} {b : UInt8} {s : Bytes} {j : Nat} :
    StartsAt delim inWord (b :: s) (j + 1) ↔ StartsAt delim (decide (b ∉ delim)) s j := by
  constructor
  · rintro ⟨hbyte, _, hleft⟩
    refine ⟨hbyte, ?_, ?_⟩
    · rintro rfl
      simpa using hleft 0 rfl b rfl
    · rintro k rfl c hc
      exact hleft (k + 1) rfl c hc
  · rintro ⟨hbyte, hfirst, hleft⟩
    refine ⟨hbyte, nofun, ?_⟩
    intro k hk c hc
    cases hk
    cases j with
    | zero =>
      cases hc
      simpa using hfirst rfl
    | succ k => exact hleft k rfl c hc

theorem mem_tokenStarts : ∀ {s : Bytes} {inWord : Bool} {n i : Nat},
    i ∈ tokenStarts delim inWord n s ↔ ∃ j, i = n + j ∧ StartsAt delim inWord s j
  | [], inWord, n, i => by
    constructor
    · nofun
    · rintro ⟨j, _, ⟨b, hb, _⟩, _⟩
      cases hb
  | b :: s, inWord, n, i => by
    -- the byte at `n` itself, or a later one
    have hsplit : (∃ j, i = n + j ∧ StartsAt delim inWord (b :: s) j) ↔
        (i = n ∧ b ∉ delim ∧ inWord = false) ∨
          ∃ j, i = n + 1 + j ∧ StartsAt delim (decide (b ∉ delim)) s j := by
      constructor
      · rintro ⟨j, rfl, hj⟩
        cases j with
        | zero => exact .inl ⟨rfl, startsAt_zero.mp hj⟩
        | succ j => exact .inr ⟨j, by omega, startsAt_succ.mp hj⟩
      · rintro (⟨rfl, hi⟩ | ⟨j, rfl, hj⟩)
        · exact ⟨0, rfl, startsAt_zero.mpr hi⟩
        · exact ⟨j + 1, by omega, startsAt_succ.mpr hj⟩
    rw [hsplit, ← mem_tokenStarts, tokenStarts]
    by_cases hb : b ∈ delim
    · simp [hb]
    · cases inWord <;> simp [hb]

theorem lt_of_mem_tokenStarts {s : Bytes} {inWord : Bool} {n i : Nat}
    (h : i ∈ tokenStarts delim inWord n s) : n ≤ i := by
  obtain ⟨j, rfl, _⟩ := mem_tokenStarts.mp h
  exact Nat.le_add_right n j

theorem tokenStarts_sorted : ∀ (s : Bytes) (inWord : Bool) (n : Nat),
    (tokenStarts delim inWord n s).Pairwise (· < ·)
  | [], _, _ => List.Pairwise.nil
  | b :: s, inWord, n => by
    rw [tokenStarts]
    split
    · exact tokenStarts_sorted s false (n + 1)
    · split
      · exact tokenStarts_sorted s true (n + 1)
      · exact List.pairwise_cons.mpr
          ⟨fun i hi => lt_of_mem_tokenStarts hi, tokenStarts_sorted s true (n + 1)⟩

/-! ## The runs -/

theorem firstRun_word {w : Bytes} (hw : NoDelim delim w) {s : Bytes}
    (hs : ∀ b ∈ s.head?, b ∈ delim) : firstRun delim (w ++ s) = w := by
  unfold firstRun
  rw [List.takeWhile_append_of_pos fun b hb => by simpa using hw b hb]
  cases s with
  | nil => simp
  | cons d s => simp [hs d rfl]

theorem startsAt_of_maximalRun {s w : Bytes} {i : Nat} (h : MaximalRun delim s i w) :
    StartsAt delim false s i ∧ firstRun delim (s.drop i) = w := by
  obtain ⟨rest, hrest⟩ := h.here
  obtain ⟨b, w', hw⟩ := List.exists_cons_of_ne_nil h.ne_nil
  have hi : s[i]? = some b := by
    rw [← Nat.add_zero i, ← List.getElem?_drop, ← hrest, hw]
    rfl
  refine ⟨⟨⟨b, hi, h.noDelim b (hw ▸ List.mem_cons_self)⟩, fun _ => rfl, h.left⟩, ?_⟩
  rw [← hrest]
  refine firstRun_word h.noDelim ?_
  intro c hc
  have hright := h.right c
  rw [← List.getElem?_drop, ← hrest, List.getElem?_append_right (Nat.le_refl _),
    Nat.sub_self, ← List.head?_eq_getElem?] at hright
  exact hright hc

theorem maximalRun_of_startsAt {s : Bytes} {i : Nat} (h : StartsAt delim false s i) :
    MaximalRun delim s i (firstRun delim (s.drop i)) := by
  obtain ⟨⟨b, hb, hbd⟩, _, hleft⟩ := h
  obtain ⟨w, rest, hsplit, hw, hrest⟩ := exists_run (· ∉ delim) (s.drop i)
  have hrest : ∀ c ∈ rest.head?, c ∈ delim := fun c hc => Decidable.not_not.mp (hrest c hc)
  rw [hsplit, firstRun_word hw hrest]
  have hhead : (w ++ rest).head? = some b := by
    rw [← hsplit, List.head?_eq_getElem?, List.getElem?_drop]
    exact hb
  refine ⟨?_, hw, ⟨rest, hsplit.symm⟩, hleft, ?_⟩
  · rintro rfl
    exact hbd (hrest b hhead)
  · intro c hc
    rw [← List.getElem?_drop, hsplit, List.getElem?_append_right (Nat.le_refl _),
      Nat.sub_self, ← List.head?_eq_getElem?] at hc
    exact hrest c hc

/-- **The list has the maximal runs.** -/
theorem mem_tokenRuns {s w : Bytes} {i : Nat} :
    (i, w) ∈ tokenRuns delim s ↔ MaximalRun delim s i w := by
  unfold tokenRuns
  rw [List.mem_map]
  constructor
  · rintro ⟨j, hj, heq⟩
    cases heq
    obtain ⟨k, rfl, hk⟩ := mem_tokenStarts.mp hj
    rw [Nat.zero_add]
    exact maximalRun_of_startsAt hk
  · intro h
    obtain ⟨hstart, hrun⟩ := startsAt_of_maximalRun h
    exact ⟨i, mem_tokenStarts.mpr ⟨i, (Nat.zero_add i).symm, hstart⟩, by rw [hrun]⟩

/-- **In their order.** -/
theorem tokenRuns_sorted (delim s : Bytes) :
    (tokenRuns delim s).Pairwise fun a b => a.1 < b.1 :=
  List.pairwise_map.mpr (tokenStarts_sorted s false 0)

theorem map_fst_tokenRuns (delim s : Bytes) :
    (tokenRuns delim s).map Prod.fst = tokenStarts delim false 0 s := by
  unfold tokenRuns
  rw [List.map_map]
  exact List.map_id _

theorem firstRuns_eq (pre s : Bytes) :
    (tokenStarts delim false pre.length s).map
        (fun i => firstRun delim ((pre ++ s).drop i)) = tokens delim s := by
  induction s using @words_induction delim generalizing pre with
  | gap g hg =>
    rw [← List.append_nil g, tokenStarts_gap hg, tokens_gap hg, tokens_nil]
    rfl
  | last g w hg hw hne =>
    have hrun : firstRun delim ((pre ++ (g ++ w)).drop (pre.length + g.length)) = w := by
      rw [← List.append_assoc, ← List.length_append, List.drop_left]
      simpa using firstRun_word hw (s := []) nofun
    have hstart := tokenStarts_word hw hne (pre.length + g.length) []
    rw [List.append_nil] at hstart
    rw [tokenStarts_gap hg, tokens_gap hg, tokens_last hw hne, hstart, List.map_cons, hrun]
    rfl
  | word g w d s hg hw hne hd ih =>
    have hrun :
        firstRun delim ((pre ++ (g ++ (w ++ d :: s))).drop (pre.length + g.length)) = w := by
      rw [← List.append_assoc, ← List.length_append, List.drop_left]
      refine firstRun_word hw ?_
      rintro c ⟨⟩
      exact hd
    have hlen : pre.length + g.length + w.length + 1 = (pre ++ (g ++ (w ++ [d]))).length := by
      simp only [List.length_append, List.length_cons, List.length_nil]
      omega
    have ih := ih (pre ++ (g ++ (w ++ [d])))
    simp only [List.append_assoc, List.cons_append, List.nil_append] at ih
    rw [tokenStarts_gap hg, tokens_gap hg, tokens_word hw hne hd, tokenStarts_word hw hne,
      tokenStarts_delim hd, List.map_cons, hrun, hlen, ih]

theorem map_snd_tokenRuns (delim s : Bytes) :
    (tokenRuns delim s).map Prod.snd = tokens delim s := by
  unfold tokenRuns
  rw [List.map_map]
  exact firstRuns_eq [] s

end OsProg.Infra
