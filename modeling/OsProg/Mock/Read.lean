import OsProg.Infra.Calls
import OsProg.Infra.Printf
import OsProg.Mock.Script
import Mathlib.Data.List.Forall2

/-!
# Reading a script

However a client cuts its reading into calls, up to the first return that is not positive, it
gets the bytes that the positive entries in front announce, or what there is of them, and then
it is told the end or the error (`read_delivers`).
-/

namespace OsProg.Mock

open Infra

/-- A call of `read`, on the descriptor `fd`. -/
def readCall (real_read : Int → Bytes → Nat → Reply × Bytes) (fd : Int) (c : Call)
    (e : ExpectedReads) : Except Fault ((Reply × Bytes) × ExpectedReads) :=
  read real_read fd c.buf c.count e

/-- What is left behind a call: the reply and the memory at `buf`, and the script. -/
abbrev Read := (Reply × Bytes) × ExpectedReads

/-- The bytes that a call delivered. -/
def Read.bytes (r : Read) : Bytes := r.1.2.take r.1.1.ret.toNat

/-- How reading ends, with `m` bytes in the data region and positive entries of `sum` bytes in
front of the entry `q`. -/
def ending (m : Nat) (sum q errno : Int) : Reply :=
  if (m : Int) < sum ∨ q = 0 then { ret := 0, errno := none }
  else { ret := -1, errno := some errno }

/-- Reading up to the first return that is not positive, with the bytes `ahead` in the data
region. Offsets do not pass `m`, and indices do not pass `stop`. -/
structure Delivers (ahead : Bytes) (sum q errno : Int) (m stop : Nat) (calls : List Call)
    (front : List Read) (last : Read) : Prop where
  counts : List.Forall₂ (fun c (r : Read) => r.1.1.ret ≤ c.count) calls (front ++ [last])
  positive : ∀ r ∈ front, 0 < r.1.1.ret
  nonpositive : last.1.1.ret ≤ 0
  bytes : (front ++ [last]).flatMap Read.bytes = ahead.take (min sum.toNat ahead.length)
  final : last.1.1 = ending ahead.length sum q errno
  bounds : ∀ r ∈ front ++ [last], r.2.data ≤ m ∧ r.2.cur ≤ stop

theorem ending_nonpos (m : Nat) (sum q errno : Int) : (ending m sum q errno).ret ≤ 0 := by
  unfold ending
  split
  · exact Int.le_refl 0
  · exact Int.neg_nonpos_of_nonneg Int.one_nonneg

/-- No positive entries are left. -/
theorem ending_zero (m : Nat) (q errno : Int) :
    ending m 0 q errno =
      if q = 0 then { ret := 0, errno := none } else { ret := -1, errno := some errno } := by
  unfold ending
  by_cases hq0 : q = 0
  · rw [if_pos (.inr hq0), if_pos hq0]
  · rw [if_neg (by omega), if_neg hq0]

/-- No room is left. -/
theorem ending_full {sum : Int} (h : 0 < sum) (q errno : Int) :
    ending 0 sum q errno = { ret := 0, errno := none } := if_pos (.inl h)

section Run

variable {real_read : Int → Bytes → Nat → Reply × Bytes} {ps rest : List Int} {q : Int}
  {room stop : Nat}

/-- The call that ends the reading leaves the script as it is. -/
theorem read_stops {e : ExpectedReads}
    (h : Plays e.region.length e.data e.sizes e.cur { room, sizes := ps ++ q :: rest })
    (hstop : stop + (rest.length + 1) = e.sizes.length) (c : Call)
    (hcall : ({ room, sizes := ps ++ q :: rest } : Script).call c.count =
      (ending room ps.sum q (int (-q)), { room, sizes := ps ++ q :: rest }))
    (hnone : min ps.sum.toNat room = 0) :
    ∃ last, callAll (readCall real_read e.fd) [c] e = .ok [last] ∧
      Delivers (e.region.drop e.data) ps.sum q (int (-q)) e.region.length stop [c] [] last := by
  have hne : ps ++ q :: rest ≠ [] := List.append_ne_nil_of_right_ne_nil ps (List.cons_ne_nil q rest)
  obtain ⟨e', hread, _, hregion, hsizes, _, hplays⟩ := read_eq h hne real_read c
  rw [hcall] at hread hplays
  have hret := ending_nonpos room ps.sum q (int (-q))
  have hahead : (e.region.drop e.data).length = room := h.ahead
  refine ⟨_, callAll_cons_ok hread callAll_nil, ?_⟩
  refine ⟨.cons (Int.le_trans hret (Int.natCast_nonneg _)) .nil, nofun, hret, ?_, ?_, ?_⟩
  · rw [hahead, hnone, List.take_zero, List.nil_append, List.flatMap_cons, Read.bytes,
      Int.toNat_of_nonpos hret]
    rfl
  · rw [hahead]
  · intro r hr
    rw [List.mem_singleton.mp hr, ← hregion]
    exact hplays.bounds (hsizes ▸ hstop)

/-- A call in front of the others. -/
theorem Delivers.cons {ahead : Bytes} {n m : Nat} {sum sum' errno : Int} {calls : List Call}
    {front : List Read} {last r : Read} {c : Call}
    (h : Delivers (ahead.drop n) sum' q errno m stop calls front last) (hret : r.1.1.ret = n)
    (hn : 0 < n) (hcount : n ≤ c.count) (hroom : n ≤ ahead.length) (hsum : sum' + n = sum)
    (hnonneg : 0 ≤ sum') (hbytes : r.bytes = ahead.take n)
    (hbounds : r.2.data ≤ m ∧ r.2.cur ≤ stop) :
    Delivers ahead sum q errno m stop (c :: calls) (r :: front) last := by
  have hlength : (ahead.drop n).length = ahead.length - n := List.length_drop
  refine ⟨.cons ?_ h.counts, ?_, h.nonpositive, ?_, ?_, ?_⟩
  · rw [hret]
    exact Int.ofNat_le.mpr hcount
  · rintro r' (_ | ⟨_, hr'⟩)
    · rw [hret]
      exact Int.natCast_pos.mpr hn
    · exact h.positive r' hr'
  · have hmin : min sum.toNat ahead.length = n + min sum'.toNat (ahead.length - n) := by omega
    rw [List.cons_append, List.flatMap_cons, h.bytes, hbytes, hlength, hmin, List.take_add]
  · rw [h.final, hlength]
    unfold ending
    have hiff : ((ahead.length - n : Nat) : Int) < sum' ↔ (ahead.length : Int) < sum := by omega
    simp only [hiff]
  · rintro r' (_ | ⟨_, hr'⟩)
    · exact hbounds
    · exact h.bounds r' hr'

/-- **Reading comes to an end.** Each call that is not the last bites into the entries and
leaves less room. -/
theorem read_run (hq : q ≤ 0) {e : ExpectedReads} {ps : List Int} {room : Nat} (hps : Positive ps)
    (h : Plays e.region.length e.data e.sizes e.cur { room, sizes := ps ++ q :: rest })
    (hstop : stop + (rest.length + 1) = e.sizes.length) (calls : Stream' Call) :
    ∃ n front last, callAll (readCall real_read e.fd) (calls.take (n + 1)) e =
        .ok (front ++ [last]) ∧
      Delivers (e.region.drop e.data) ps.sum q (int (-q)) e.region.length stop
        (calls.take (n + 1)) front last := by
  by_cases hps0 : ps = []
  · subst hps0
    have hcall := @call_last rest q room calls.head.count hq
    rw [← ending_zero room, ← List.sum_nil] at hcall
    obtain ⟨last, hlast, hdelivers⟩ := read_stops h hstop calls.head hcall (Nat.zero_min room)
    exact ⟨0, [], last, hlast, hdelivers⟩
  · by_cases hroom : room = 0
    · subst hroom
      have hsum := hps.sum_pos hps0
      have hcall := @call_full ps rest q calls.head.count hps hps0
      rw [← ending_full hsum q (int (-q))] at hcall
      obtain ⟨last, hlast, hdelivers⟩ := read_stops h hstop calls.head hcall (Nat.min_zero _)
      exact ⟨0, [], last, hlast, hdelivers⟩
    · obtain ⟨n, ps', hn, hncount, hnroom, hps', hsum, hcall⟩ :=
        @call_entries ps rest q room _ hps hps0 (by omega) calls.head.pos
      have hne : ps ++ q :: rest ≠ [] :=
        List.append_ne_nil_of_right_ne_nil ps (List.cons_ne_nil q rest)
      obtain ⟨e', hread, hfd, hregion, hsizes, hdata, hplays⟩ := read_eq h hne real_read calls.head
      rw [hcall] at hread hdata hplays
      have hahead : (e.region.drop e.data).length = room := h.ahead
      have hbounds := hplays.bounds (hsizes ▸ hstop)
      obtain ⟨k, front, last, htail, hdelivers⟩ :=
        read_run hq hps' hplays (hsizes ▸ hstop) calls.tail
      rw [hfd] at htail
      rw [hregion, hdata, Int.toNat_natCast, ← List.drop_drop] at hdelivers
      rw [hregion] at hbounds
      refine ⟨k + 1, (({ ret := n, errno := none },
        (e.region.drop e.data).take n ++ calls.head.buf.drop n), e') :: front, last, ?_, ?_⟩
      · rw [Stream'.take_succ]
        exact callAll_cons_ok hread htail
      · rw [Stream'.take_succ]
        refine hdelivers.cons rfl hn hncount (hahead.symm ▸ hnroom) hsum hps'.sum_nonneg ?_ hbounds
        rw [Read.bytes, Int.toNat_natCast]
        exact List.take_left' (by rw [List.length_take, hahead, Nat.min_eq_left hnroom])
termination_by room
decreasing_by omega

end Run

/-- **The scripted `read` delivers its script, however it is cut into calls.** -/
theorem read_delivers (real_read : Int → Bytes → Nat → Reply × Bytes) (fd : Int) (region : Bytes)
    {ps : List Int} (hps : ∀ p ∈ ps, 0 < p) {q : Int} (hq : q ≤ 0) (rest : List Int)
    (calls : Stream' Call) :
    (∃ n front last, callAll (readCall real_read fd) (calls.take (n + 1))
        { fd, region, data := 0, sizes := ps ++ q :: rest, cur := 0 } = .ok (front ++ [last]) ∧
      Delivers region ps.sum q (int (-q)) region.length ps.length (calls.take (n + 1)) front
        last) ∧
    (-2 ^ 31 < q → int (-q) = -q) := by
  constructor
  · exact read_run (e := { fd, region, data := 0, sizes := ps ++ q :: rest, cur := 0 }) hq hps
      ⟨Nat.zero_add _, rfl, Nat.zero_le _⟩ (by simp) calls
  · intro hsmall
    exact (int_eq_iff (by omega)).mpr (by omega)

/-- A call for one byte. -/
def oneByte : Call :=
  { buf := [0], count := 1, pos := by decide, fits := by decide, room := by decide }

/-- The function of the C library, at the end of a file. -/
def readEof (_fd : Int) (buf : Bytes) (_count : Nat) : Reply × Bytes :=
  ({ ret := 0, errno := none }, buf)

theorem read_delivers_five :
    (∃ n front last, callAll (readCall readEof 10) ((Stream'.const oneByte).take (n + 1))
        { fd := 10, region := ascii "hello!", data := 0, sizes := [2, 3, -5, 0], cur := 0 } =
          .ok (front ++ [last]) ∧
      Delivers (ascii "hello!") 5 (-5) 5 6 2 ((Stream'.const oneByte).take (n + 1)) front last) ∧
    (-2 ^ 31 < (-5 : Int) → int 5 = 5) :=
  read_delivers readEof 10 (ascii "hello!") (show ∀ p ∈ [2, 3], 0 < p by decide)
    (show (-5 : Int) ≤ 0 by decide) [0] (Stream'.const oneByte)

/-- The first call ends the reading, and no `int` is as large as the error number of the
script. -/
theorem not_read_delivers :
    ¬ ∀ (real_read : Int → Bytes → Nat → Reply × Bytes) (fd : Int) (region : Bytes)
      (ps : List Int) (_ : ∀ p ∈ ps, 0 < p) (q : Int) (_ : q ≤ 0) (rest : List Int)
      (calls : Stream' Call),
      ∃ n front last, callAll (readCall real_read fd) (calls.take (n + 1))
          { fd, region, data := 0, sizes := ps ++ q :: rest, cur := 0 } = .ok (front ++ [last]) ∧
        Delivers region ps.sum q (-q) region.length ps.length (calls.take (n + 1)) front last := by
  intro hall
  obtain ⟨n, front, last, hcalls, hdelivers⟩ :=
    hall readEof 10 [] [] nofun (-2 ^ 32) (by decide) [0] (Stream'.const oneByte)
  have hread : readCall readEof 10 oneByte
      { fd := 10, region := [], data := 0, sizes := [] ++ [-2 ^ 32, 0], cur := 0 } =
      .ok (({ ret := -1, errno := some 0 }, [0]), _) := rfl
  obtain ⟨trace, htrace⟩ : ∃ trace, front ++ [last] = (({ ret := -1, errno := some 0 }, [0]),
      { fd := 10, region := [], data := 0, sizes := [] ++ [-2 ^ 32, 0], cur := 0 }) :: trace := by
    rw [Stream'.take_succ] at hcalls
    exact callAll_head hread hcalls
  cases front with
  | nil =>
    have hfinal := hdelivers.final
    rw [(List.cons.inj htrace).1] at hfinal
    exact absurd hfinal (by decide)
  | cons r front =>
    have hpos := hdelivers.positive r List.mem_cons_self
    rw [(List.cons.inj htrace).1] at hpos
    exact absurd hpos (by decide)

end OsProg.Mock
