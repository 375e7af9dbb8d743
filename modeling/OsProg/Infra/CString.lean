import Mathlib.Data.List.Basic
import Mathlib.Data.List.TakeWhile

/-!
# C strings in bounded memory

A pointer into an object is the list of the bytes from it to the end of the object.
Reading through `[]` is the access past the end, so every function of `<string.h>` here
returns `none` exactly when the real one would read or write out of bounds.

`beforeNul` and `afterNul` are the abstract reading of a C string. Each function gets one
equation in terms of them, and callers use only that equation.
-/

namespace OsProg.Infra

abbrev Bytes := List UInt8

/-! ## The bytes around the first NUL -/

/-- The bytes before the first NUL, or all of them when there is none. -/
def beforeNul (p : Bytes) : Bytes := p.takeWhile (fun b => b != 0)

/-- The bytes after the first NUL. -/
def afterNul (p : Bytes) : Bytes := p.drop ((beforeNul p).length + 1)

@[simp] theorem beforeNul_nil : beforeNul [] = [] := rfl

@[simp] theorem beforeNul_nul (p : Bytes) : beforeNul (0 :: p) = [] := by
  simp [beforeNul]

theorem beforeNul_cons {b : UInt8} (h : b ≠ 0) (p : Bytes) :
    beforeNul (b :: p) = b :: beforeNul p := by
  simp [beforeNul, h]

/-- Strings that start with different bytes are different, also when one is empty. -/
theorem beforeNul_ne {a b : UInt8} (hab : a ≠ b) (p q : Bytes) :
    beforeNul (a :: p) ≠ beforeNul (b :: q) := by
  intro h
  by_cases ha : a = 0
  · subst ha
    rw [beforeNul_nul, beforeNul_cons (Ne.symm hab)] at h
    cases h
  · by_cases hb : b = 0
    · subst hb
      rw [beforeNul_nul, beforeNul_cons ha] at h
      cases h
    · rw [beforeNul_cons ha, beforeNul_cons hb] at h
      exact hab (List.cons.inj h).1

theorem beforeNul_append_nul {k : Bytes} (h : 0 ∉ k) (r : Bytes) :
    beforeNul (k ++ 0 :: r) = k := by
  induction k with
  | nil => simp
  | cons b k ih =>
    simp only [List.mem_cons, not_or] at h
    rw [List.cons_append, beforeNul_cons (Ne.symm h.1), ih h.2]

theorem beforeNul_of_not_mem {k : Bytes} (h : 0 ∉ k) : beforeNul k = k := by
  rw [beforeNul, List.takeWhile_eq_self_iff]
  intro b hb
  simp only [bne_iff_ne, ne_eq]
  exact fun hb0 => h (hb0 ▸ hb)

theorem nul_not_mem_beforeNul (p : Bytes) : 0 ∉ beforeNul p := by
  intro h
  have := List.mem_takeWhile_imp h
  simp at this

/-- A byte string with a NUL is what stands before it, the NUL, and what stands after. -/
theorem beforeNul_nul_afterNul {p : Bytes} (h : 0 ∈ p) :
    p = beforeNul p ++ 0 :: afterNul p := by
  induction p with
  | nil => simp at h
  | cons b p ih =>
    by_cases hb : b = 0
    · subst hb
      simp [afterNul]
    · have hp : 0 ∈ p := by
        rcases List.mem_cons.mp h with h0 | h0
        · exact absurd h0.symm hb
        · exact h0
      have hafter : afterNul (b :: p) = afterNul p := by
        simp [afterNul, beforeNul_cons hb]
      rw [hafter, beforeNul_cons hb, List.cons_append, ← ih hp]

theorem beforeNul_length_lt {p : Bytes} (h : 0 ∈ p) : (beforeNul p).length < p.length := by
  have := congrArg List.length (beforeNul_nul_afterNul h)
  simp only [List.length_append, List.length_cons] at this
  omega

theorem beforeNul_append {p : Bytes} (h : 0 ∈ p) (r : Bytes) :
    beforeNul (p ++ r) = beforeNul p := by
  conv => lhs; rw [beforeNul_nul_afterNul h]
  rw [List.append_assoc, List.cons_append, beforeNul_append_nul (nul_not_mem_beforeNul p)]

/-- What is in an array behind a NUL does not count. -/
theorem beforeNul_terminated (p r : Bytes) : beforeNul (p ++ 0 :: r) = beforeNul p := by
  by_cases h : 0 ∈ p
  · exact beforeNul_append h _
  · rw [beforeNul_append_nul h, beforeNul_of_not_mem h]

theorem afterNul_append_nul {k : Bytes} (h : 0 ∉ k) (r : Bytes) :
    afterNul (k ++ 0 :: r) = r := by
  rw [afterNul, beforeNul_append_nul h, List.drop_append]
  simp

/-! ## Reading functions -/

/-- `strlen`. -/
def strlen : Bytes → Option Nat
  | [] => none
  | b :: p => if b = 0 then some 0 else (strlen p).map (· + 1)

theorem strlen_eq : ∀ p : Bytes,
    strlen p = if 0 ∈ p then some (beforeNul p).length else none
  | [] => by simp [strlen]
  | b :: p => by
    rw [strlen]
    by_cases hb : b = 0
    · subst hb
      simp
    · rw [if_neg hb, strlen_eq p, beforeNul_cons hb]
      have hmem : 0 ∈ b :: p ↔ 0 ∈ p := by
        simp [Ne.symm hb]
      by_cases hp : 0 ∈ p
      · rw [if_pos hp, if_pos (hmem.mpr hp)]
        rfl
      · rw [if_neg hp, if_neg (fun h => hp (hmem.mp h))]
        rfl

/-- The C string at a pointer. -/
def cstr (p : Bytes) : Option Bytes := (strlen p).map (fun n => p.take n)

theorem cstr_eq {p : Bytes} (h : 0 ∈ p) : cstr p = some (beforeNul p) := by
  rw [cstr, strlen_eq, if_pos h, Option.map_some]
  conv => lhs; rw [beforeNul_nul_afterNul h]
  simp [beforeNul_append_nul (nul_not_mem_beforeNul p)]

theorem cstr_eq_some {p k : Bytes} (h : cstr p = some k) : 0 ∈ p ∧ beforeNul p = k := by
  have h0 : 0 ∈ p := by
    by_contra hno
    rw [cstr, strlen_eq, if_neg hno] at h
    cases h
  rw [cstr_eq h0] at h
  exact ⟨h0, Option.some.inj h⟩

/-- `strndup`, as the contents of the new string without its terminating NUL. -/
def strndup : Nat → Bytes → Option Bytes
  | 0, _ => some []
  | _ + 1, [] => none
  | n + 1, b :: p => if b = 0 then some [] else (strndup n p).map (b :: ·)

/-- A bound that stays inside the object cuts the object, and the NUL cuts the rest. -/
theorem strndup_eq : ∀ {n : Nat} {p : Bytes}, n ≤ p.length →
    strndup n p = some (beforeNul (p.take n))
  | 0, _, _ => by simp [strndup]
  | n + 1, [], h => by simp at h
  | n + 1, b :: p, h => by
    rw [strndup, List.take_succ_cons]
    by_cases hb : b = 0
    · subst hb
      simp
    · have hn : n ≤ p.length := by simpa using h
      rw [if_neg hb, strndup_eq hn, beforeNul_cons hb]
      rfl

/-- `strncmp`, as the difference of the first bytes that differ. -/
def strncmp : Bytes → Bytes → Nat → Option Int
  | _, _, 0 => some 0
  | a :: p, b :: q, n + 1 =>
    if a ≠ b then some ((a.toNat : Int) - b.toNat)
    else if a = 0 then some 0
    else strncmp p q n
  | _, _, _ + 1 => none

/-- When one of the strings has no NUL among its first `n` bytes, `strncmp` compares `n`
bytes. -/
theorem strncmp_eq_zero_iff : ∀ {n : Nat} {p q : Bytes}, n ≤ p.length → n ≤ q.length →
    0 ∉ p.take n ∨ 0 ∉ q.take n → ∃ d, strncmp p q n = some d ∧ (d = 0 ↔ p.take n = q.take n)
  | 0, p, q, _, _, _ => ⟨0, by simp [strncmp], by simp⟩
  | n + 1, [], q, h, _, _ => by simp at h
  | n + 1, a :: p, [], _, h, _ => by simp at h
  | n + 1, a :: p, b :: q, hp, hq, h0 => by
    have hp' : n ≤ p.length := by simpa using hp
    have hq' : n ≤ q.length := by simpa using hq
    simp only [List.take_succ_cons, List.mem_cons, not_or] at h0
    rw [strncmp]
    by_cases hab : a = b
    · subst hab
      have ha : a ≠ 0 := by
        rcases h0 with h | h <;> exact Ne.symm h.1
      obtain ⟨d, hd, hiff⟩ := strncmp_eq_zero_iff hp' hq' (h0.imp And.right And.right)
      rw [if_neg (by simp), if_neg ha]
      exact ⟨d, hd, by simpa using hiff⟩
    · rw [if_pos hab]
      refine ⟨_, rfl, ?_⟩
      have hne : a.toNat ≠ b.toNat := fun h => hab (UInt8.toNat_inj.mp h)
      simp only [List.take_succ_cons, List.cons.injEq, hab, false_and, iff_false]
      omega

/-- `strcmp`, as the difference of the first bytes that differ. -/
def strcmp : Bytes → Bytes → Option Int
  | a :: p, b :: q =>
    if a ≠ b then some ((a.toNat : Int) - b.toNat)
    else if a = 0 then some 0
    else strcmp p q
  | _, _ => none

theorem strcmp_eq_zero_iff : ∀ {p q : Bytes}, 0 ∈ p → 0 ∈ q →
    ∃ d, strcmp p q = some d ∧ (d = 0 ↔ beforeNul p = beforeNul q)
  | [], _, hp, _ => absurd hp List.not_mem_nil
  | _ :: _, [], _, hq => absurd hq List.not_mem_nil
  | a :: p, b :: q, hp, hq => by
    rw [strcmp]
    by_cases hab : a = b
    · subst hab
      rw [if_neg (not_not_intro rfl)]
      by_cases ha : a = 0
      · subst ha
        rw [if_pos rfl, beforeNul_nul, beforeNul_nul]
        exact ⟨0, rfl, iff_of_true rfl rfl⟩
      · have hmem : ∀ {r : Bytes}, 0 ∈ a :: r → 0 ∈ r :=
          fun h => (List.mem_cons.mp h).resolve_left (Ne.symm ha)
        obtain ⟨d, hd, hiff⟩ := strcmp_eq_zero_iff (hmem hp) (hmem hq)
        rw [if_neg ha, beforeNul_cons ha, beforeNul_cons ha, List.cons.injEq]
        exact ⟨d, hd, hiff.trans (and_iff_right rfl).symm⟩
    · have hne : a.toNat ≠ b.toNat := fun h => hab (UInt8.toNat_inj.mp h)
      rw [if_pos hab]
      exact ⟨_, rfl, iff_of_false (by omega) (beforeNul_ne hab p q)⟩

/-! ## Copying -/

/-- `memmove` of `n` bytes, to the start of `dst`. -/
def memmove (dst src : Bytes) (n : Nat) : Option Bytes :=
  if n ≤ dst.length ∧ n ≤ src.length then some (src.take n ++ dst.drop n) else none

theorem memmove_eq {dst src : Bytes} {n : Nat} (hdst : n ≤ dst.length) (hsrc : n ≤ src.length) :
    memmove dst src n = some (src.take n ++ dst.drop n) := if_pos ⟨hdst, hsrc⟩

theorem memmove_none {dst src : Bytes} {n : Nat} (hdst : dst.length < n) :
    memmove dst src n = none := if_neg fun h => Nat.not_le.mpr hdst h.1

/-! ## Character arrays -/

/-- An object of type `char[n]`. -/
structure CharArray (n : Nat) where
  bytes : Bytes
  size : bytes.length = n
  deriving DecidableEq

/-- `memcpy` of `k` bytes to the start of an array. -/
def CharArray.memcpy {n : Nat} (dst : CharArray n) (src : Bytes) (k : Nat) :
    Option (CharArray n) :=
  if h : k ≤ src.length ∧ k ≤ n then
    some ⟨src.take k ++ dst.bytes.drop k, by simp [dst.size]; omega⟩
  else none

theorem CharArray.memcpy_none {n : Nat} {dst : CharArray n} {src : Bytes} {k : Nat}
    (hn : n < k) : dst.memcpy src k = none := by
  rw [memcpy, dif_neg (by omega)]

end OsProg.Infra
