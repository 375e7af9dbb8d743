import Mathlib.Algebra.Ring.Nat
import Mathlib.Data.Nat.Find
import Mathlib.Data.Stream.Init

/-!
# Streams that come in parts

Calls that deliver a stream piece by piece. A positive answer is the length of the next piece,
and any other answer is the end of the stream or an error. The answers to come are a stream as
well, since nobody knows how many calls there will be.

* `available` — how much comes before the first answer that is not positive
* `available_stop`, `available_deliver` — one answer
* `upTo_deliver` — what is still wanted after it
-/

namespace OsProg.Infra

open Classical in
/-- The pieces before the first answer that is not positive, or `none` when all answers are. -/
noncomputable def available (rets : Stream' Int) : Option Nat :=
  if h : ∃ n, rets.get n ≤ 0 then some ((rets.take (Nat.find h)).map Int.toNat).sum else none

variable {ret : Int}

theorem available_stop (h : ret ≤ 0) (rets : Stream' Int) :
    available (rets.cons ret) = some 0 := by
  have hex : ∃ n, (rets.cons ret).get n ≤ 0 := ⟨0, h⟩
  rw [available, dif_pos hex, (Nat.find_eq_zero hex).mpr h]
  rfl

theorem available_deliver (h : 0 < ret) (rets : Stream' Int) :
    available (rets.cons ret) = (available rets).map (ret.toNat + ·) := by
  have h0 : ¬(rets.cons ret).get 0 ≤ 0 := Int.not_le.mpr h
  unfold available
  by_cases hex : ∃ n, rets.get n ≤ 0
  · have hex' : ∃ n, (rets.cons ret).get n ≤ 0 := hex.imp' (· + 1) fun _ hn => hn
    rw [dif_pos hex, dif_pos hex', Nat.find_comp_succ hex' hex h0, Stream'.take_succ_cons]
    rfl
  · have hex' : ¬∃ n, (rets.cons ret).get n ≤ 0 := by
      rintro ⟨n | n, hn⟩
      · exact h0 hn
      · exact hex ⟨n, hn⟩
    rw [dif_neg hex, dif_neg hex']
    rfl

/-! ## What is wanted of it -/

/-- As much as is wanted and available. -/
def upTo (wanted : Nat) : Option Nat → Nat
  | some available => min wanted available
  | none => wanted

@[simp] theorem upTo_zero (t : Option Nat) : upTo 0 t = 0 := by
  cases t with
  | none => rfl
  | some t => exact Nat.zero_min t

@[simp] theorem upTo_some_zero (wanted : Nat) : upTo wanted (some 0) = 0 := Nat.min_zero wanted

theorem upTo_deliver {wanted n : Nat} (h : n ≤ wanted) (t : Option Nat) :
    upTo wanted (t.map (n + ·)) = n + upTo (wanted - n) t := by
  cases t with
  | none => exact (Nat.add_sub_of_le h).symm
  | some t =>
    show min wanted (n + t) = n + min (wanted - n) t
    omega

/-! ## Pieces of a stream -/

variable {α : Type}

theorem take_add : ∀ (m n : Nat) (s : Stream' α), s.take (m + n) = s.take m ++ (s.drop m).take n
  | 0, n, s => by
    rw [Nat.zero_add]
    rfl
  | m + 1, n, s => by
    rw [Nat.add_right_comm, Stream'.take_succ, take_add m n s.tail]
    rfl

end OsProg.Infra
