import OsProg.Infra.CString

/-!
# Printed text

`formatD` is read back: no two numbers are printed alike (`formatD_inj`), and a separator that
is neither a digit nor a minus sign ends a number (`formatD_append_inj`). Texts that follow each
other are read in one way only when each of them tells where it ends
(`SelfDelimiting.flatMap_inj`).
-/

namespace OsProg.Infra

/-- The bytes of a text that is all ASCII. -/
def ascii (text : String) : Bytes := text.toList.map fun c => UInt8.ofNat c.toNat

/-- `%d`. -/
def formatD (i : Int) : Bytes :=
  (if i < 0 then [0x2D] else []) ++ (Nat.toDigits 10 i.natAbs).map fun c => UInt8.ofNat c.toNat

theorem toString_text (text : String) : toString text = text := rfl

theorem ascii_append (s t : String) : ascii (s ++ t) = ascii s ++ ascii t := by
  simp [ascii]

theorem ascii_toString (n : Nat) : ascii (toString n) = formatD n := by
  simp [ascii, formatD]

/-! ## What is printed is told apart -/

theorem isDigit_toDigits {n : Nat} {c : Char} (h : c ∈ Nat.toDigits 10 n) : c.isDigit = true :=
  Nat.isDigit_of_mem_toDigits (by decide) (by decide) h

/-- The codes of the digits. -/
theorem toNat_of_isDigit {c : Char} (h : c.isDigit = true) : 48 ≤ c.toNat ∧ c.toNat ≤ 57 := by
  simp only [Char.isDigit, Bool.and_eq_true, decide_eq_true_eq] at h
  exact h

theorem toDigits_inj {m n : Nat} (h : Nat.toDigits 10 m = Nat.toDigits 10 n) : m = n := by
  rw [← @Nat.ofDigitChars_toDigits 10 m (by decide) (by decide), h,
    Nat.ofDigitChars_toDigits (by decide) (by decide)]

/-- The bytes of the digits, read as characters again. -/
theorem chars_digits (n : Nat) :
    ((Nat.toDigits 10 n).map fun c => UInt8.ofNat c.toNat).map (fun b => Char.ofNat b.toNat)
      = Nat.toDigits 10 n := by
  rw [List.map_map]
  refine (List.map_congr_left fun c hc => ?_).trans (List.map_id _)
  have hcode := toNat_of_isDigit (isDigit_toDigits hc)
  have hbyte : (UInt8.ofNat c.toNat).toNat = c.toNat := by
    rw [UInt8.toNat_ofNat', Nat.mod_eq_of_lt (by omega)]
  rw [Function.comp_apply, hbyte, Char.ofNat_toNat]
  rfl

/-- A printed number consists of digits, with a minus sign if it is negative. -/
theorem mem_formatD {i : Int} {b : UInt8} (h : b ∈ formatD i) :
    b = 0x2D ∧ i < 0 ∨ 48 ≤ b.toNat ∧ b.toNat ≤ 57 := by
  rcases List.mem_append.mp h with h | h
  · split at h
    · next hi => exact .inl ⟨List.mem_singleton.mp h, hi⟩
    · cases h
  · obtain ⟨c, hc, rfl⟩ := List.mem_map.mp h
    have hcode := toNat_of_isDigit (isDigit_toDigits hc)
    right
    rw [UInt8.toNat_ofNat', Nat.mod_eq_of_lt (by omega)]
    exact hcode

theorem neg_iff_mem_formatD {i : Int} : i < 0 ↔ 0x2D ∈ formatD i := by
  constructor
  · intro hi
    rw [formatD, if_pos hi]
    exact List.mem_cons_self
  · intro h
    rcases mem_formatD h with ⟨-, hi⟩ | hcode
    · exact hi
    · exact absurd hcode.1 (by decide)

/-- **No two numbers are printed alike.** -/
theorem formatD_inj {i j : Int} (h : formatD i = formatD j) : i = j := by
  have hsign : i < 0 ↔ j < 0 := by
    rw [neg_iff_mem_formatD, h, ← neg_iff_mem_formatD]
  have habs : i.natAbs = j.natAbs := by
    rw [formatD, formatD, if_congr hsign rfl rfl] at h
    have hdigits := congrArg (List.map fun b => Char.ofNat b.toNat) (List.append_cancel_left h)
    rw [chars_digits, chars_digits] at hdigits
    exact toDigits_inj hdigits
  omega

/-- What stands before the first separator is told apart from what stands behind it. -/
theorem append_sep_inj {p q r r' : Bytes} {sep : UInt8} (hp : sep ∉ p) (hq : sep ∉ q)
    (h : p ++ sep :: r = q ++ sep :: r') : p = q ∧ r = r' := by
  rcases List.append_eq_append_iff.mp h with ⟨mid, rfl, hmid⟩ | ⟨mid, rfl, hmid⟩
  all_goals
    cases mid with
    | nil =>
      rw [List.nil_append] at hmid
      simp [(List.cons.inj hmid).2]
    | cons b mid =>
      rw [List.cons_append] at hmid
      obtain ⟨rfl, -⟩ := List.cons.inj hmid
      simp at hp hq

/-- **A separator ends a number.** -/
theorem formatD_append_inj {i j : Int} {sep : UInt8} {r r' : Bytes} (hminus : sep ≠ 0x2D)
    (hdigit : sep.toNat < 48 ∨ 57 < sep.toNat)
    (h : formatD i ++ sep :: r = formatD j ++ sep :: r') : i = j ∧ r = r' := by
  have hsep : ∀ {k : Int}, sep ∉ formatD k := by
    intro k hk
    rcases mem_formatD hk with ⟨hsep, -⟩ | hcode
    · exact hminus hsep
    · omega
  obtain ⟨hnum, hrest⟩ := append_sep_inj hsep hsep h
  exact ⟨formatD_inj hnum, hrest⟩

/-- A number starts with none of the other bytes. -/
theorem formatD_append_ne {i : Int} {sep c : UInt8} {r r' : Bytes} (hminus : c ≠ 0x2D)
    (hdigit : c.toNat < 48 ∨ 57 < c.toNat) (hsep : c ≠ sep) : formatD i ++ sep :: r ≠ c :: r' := by
  intro h
  cases hnum : formatD i with
  | nil =>
    rw [hnum, List.nil_append] at h
    exact hsep (List.cons.inj h).1.symm
  | cons b num =>
    rw [hnum, List.cons_append] at h
    obtain ⟨rfl, -⟩ := List.cons.inj h
    rcases mem_formatD (hnum ▸ List.mem_cons_self) with ⟨hb, -⟩ | hcode
    · exact hminus hb
    · omega

/-! ## Texts that follow each other -/

/-- Where two texts differ they are told apart, whatever follows. -/
theorem ascii_append_ne {s s' : String} {r r' : Bytes} (i : Nat)
    (hi : (ascii s)[i]? ≠ (ascii s')[i]?) (hs : i < (ascii s).length)
    (hs' : i < (ascii s').length) : ascii s ++ r ≠ ascii s' ++ r' := by
  intro h
  have h := congrArg (fun bytes => bytes[i]?) h
  simp only [List.getElem?_append_left hs, List.getElem?_append_left hs'] at h
  exact hi h

/-- A text ends where the next one begins, and tells what it is about. -/
structure SelfDelimiting {α β : Type*} (p : α → Prop) (text : α → List β) : Prop where
  ne_nil : ∀ {a : α}, p a → text a ≠ []
  inj : ∀ {a b : α} {r r' : List β}, p a → p b → text a ++ r = text b ++ r' → a = b ∧ r = r'

/-- **They are read in one way only.** -/
theorem SelfDelimiting.flatMap_inj {α β : Type*} {p : α → Prop} {text : α → List β}
    (h : SelfDelimiting p text) : ∀ {as bs : List α}, (∀ a ∈ as, p a) → (∀ b ∈ bs, p b) →
      as.flatMap text = bs.flatMap text → as = bs
  | [], [], _, _, _ => rfl
  | [], b :: bs, _, hbs, heq => by
    rw [List.flatMap_nil, List.flatMap_cons] at heq
    have hb := h.ne_nil (hbs b List.mem_cons_self)
    exact absurd (List.append_eq_nil_iff.mp heq.symm).1 hb
  | a :: as, [], has, _, heq => by
    rw [List.flatMap_nil, List.flatMap_cons] at heq
    have ha := h.ne_nil (has a List.mem_cons_self)
    exact absurd (List.append_eq_nil_iff.mp heq).1 ha
  | a :: as, b :: bs, has, hbs, heq => by
    obtain ⟨ha, has'⟩ := List.forall_mem_cons.mp has
    obtain ⟨hb, hbs'⟩ := List.forall_mem_cons.mp hbs
    rw [List.flatMap_cons, List.flatMap_cons] at heq
    obtain ⟨rfl, hrest⟩ := h.inj ha hb heq
    rw [h.flatMap_inj has' hbs' hrest]

end OsProg.Infra
