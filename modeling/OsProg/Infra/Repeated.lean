import Mathlib.Data.List.Basic

/-!
# A list that is repeated

The fronts of `p ++ p ++ …`. Such a list is made of whole copies of `p`, and the last piece may be
cut short. Where `p` begins with an element that it has only once, pieces cut off its front do not
fit together in any other way (`takes_repeats_iff`).
-/

namespace OsProg.Infra

variable {α : Type} {p l : List α}

/-- A front of `p` repeated. -/
inductive Repeats (p : List α) : List α → Prop where
  | last {l : List α} (h : l <+: p) : Repeats p l
  | whole {l : List α} (h : Repeats p l) : Repeats p (p ++ l)

/-- One piece at a time. -/
theorem repeats_iff : Repeats p l ↔ l.take p.length <+: p ∧ Repeats p (l.drop p.length) := by
  constructor
  · rintro (h | h)
    · rw [List.drop_of_length_le h.length_le]
      exact ⟨(List.take_prefix _ _).trans h, .last List.nil_prefix⟩
    · rw [List.take_left, List.drop_left]
      exact ⟨List.prefix_refl p, h⟩
  · rintro ⟨hfront, hrest⟩
    rcases Nat.le_total p.length l.length with hle | hle
    · have htake : l.take p.length = p :=
        hfront.eq_of_length (by rw [List.length_take, Nat.min_eq_left hle])
      rw [← List.take_append_drop p.length l, htake]
      exact .whole hrest
    · rw [List.take_of_length_le hle] at hfront
      exact .last hfront

@[simp] theorem repeats_append : Repeats p (p ++ l) ↔ Repeats p l := by
  rw [repeats_iff, List.take_left, List.drop_left]
  exact and_iff_right (List.prefix_refl p)

/-- A piece that is cut short is the last one: the next begins too early. -/
theorem not_repeats_short {a : α} {t rest : List α} {n : Nat} (ha : a ∉ t) (hpos : 0 < n)
    (hn : n < (a :: t).length) : ¬Repeats (a :: t) ((a :: t).take n ++ a :: rest) := by
  intro h
  obtain ⟨k, rfl⟩ := Nat.exists_eq_add_of_le' hpos
  rw [List.length_cons] at hn
  obtain ⟨hfront, -⟩ := repeats_iff.mp h
  have hlen : (t.take k).length = k := List.length_take_of_le (by omega)
  have hmem : a ∈ (t.take k ++ a :: rest).take t.length := by
    rw [List.take_append, hlen]
    have hleft : 0 < t.length - k := by omega
    obtain ⟨j, hj⟩ := Nat.exists_eq_add_of_le' hleft
    simp [hj]
  exact ha ((List.cons_prefix_cons.mp hfront).2.subset hmem)

/-- **Pieces cut off the front of `p`** are a front of `p` repeated exactly when all of them but
the last are whole. -/
theorem takes_repeats_iff {a : α} {t : List α} (ha : a ∉ t) : ∀ {ns : List Nat},
    (∀ n ∈ ns, 0 < n ∧ n ≤ (a :: t).length) →
    (Repeats (a :: t) (ns.map fun n => (a :: t).take n).flatten ↔
      ∀ n ∈ ns.dropLast, n = (a :: t).length)
  | [], _ => by simpa using Repeats.last List.nil_prefix
  | [n], _ => by simpa using Repeats.last (List.take_prefix n (a :: t))
  | n :: m :: ns, h => by
    obtain ⟨⟨hpos, hle⟩, hrest⟩ := List.forall_mem_cons.mp h
    rw [List.map_cons, List.flatten_cons, List.dropLast_cons_cons, List.forall_mem_cons]
    rcases Nat.lt_or_eq_of_le hle with hlt | rfl
    · -- the piece behind it begins with `a`
      obtain ⟨j, rfl⟩ := Nat.exists_eq_add_of_le' (hrest m List.mem_cons_self).1
      rw [List.map_cons, List.flatten_cons, List.take_succ_cons, List.cons_append]
      exact iff_of_false (not_repeats_short ha hpos hlt) fun h => Nat.ne_of_lt hlt h.1
    · rw [List.take_length, repeats_append, takes_repeats_iff ha hrest]
      exact (and_iff_right rfl).symm

end OsProg.Infra
