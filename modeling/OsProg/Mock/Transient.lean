import OsProg.Mock.Read
import OsProg.Mock.Write

/-!
# Transient errors

What a script promises (`promised`): each negative entry fails one call, and the next call
goes on behind it. Both mocks keep a negative entry in place, so that a client that calls again
fails again, and for ever (`fails_for_ever`). They play to their end exactly the scripts
without negative entries (`transient_iff`).

What is said here holds of every function that plays scripts (`Follows`), and both mocks are
such functions.
-/

namespace OsProg.Mock

open Infra

/-! ## What a script promises -/

/-- What a call of `count` bytes should get, and the entries that should be left. -/
def promised (count : Nat) : List Int → Reply × List Int
  | [] => ({ ret := 0, errno := none }, [])
  | size :: sizes =>
    if size = 0 then ({ ret := 0, errno := none }, size :: sizes)
    else if size < 0 then ({ ret := -1, errno := some (-size) }, sizes)
    else if size ≤ count then ({ ret := size, errno := none }, sizes)
    else ({ ret := count, errno := none }, (size - count) :: sizes)

/-- What a sequence of calls should get. -/
def promises : List Call → List Int → List Reply
  | [], _ => []
  | c :: calls, sizes =>
    (promised c.count sizes).1 :: promises calls (promised c.count sizes).2

section Mocks

variable {σ ο : Type}

/-- A mock plays a script to its end for a client that calls again whatever it is told: it
keeps the promises of the script, and the client comes to the end with as many bytes as the
positive entries `entries` in front of it announce. -/
structure PlaysToEnd (f : Call → σ → Except Fault (ο × σ)) (reply : ο → Reply)
    (entries rest : List Int) (s : σ) (calls : Stream' Call) : Prop where
  replies : ∀ n, ∃ trace, callAll f (calls.take n) s = .ok trace ∧
    trace.map (fun x => reply x.1) = promises (calls.take n) (entries ++ 0 :: rest)
  ends : ∃ n front last, callAll f (calls.take (n + 1)) s = .ok (front ++ [last]) ∧
    (reply last.1).ret = 0 ∧
    (front.map fun x => (reply x.1).ret.toNat).sum = (entries.map Int.toNat).sum

/-- A function that plays scripts: a call makes the step of the script, as long as there is
room for the current entry. `R` says which script is left. -/
def Follows (f : Call → σ → Except Fault (ο × σ)) (reply : ο → Reply)
    (R : Script → σ → Prop) : Prop :=
  ∀ {t : Script} {s : σ}, R t s → t.sizes ≠ [] → (t.room = 0 → ∀ size ∈ t.sizes.head?, size ≤ 0) →
    ∀ c : Call, ∃ o s', f c s = .ok (o, s') ∧ reply o = (t.call c.count).1 ∧
      R (t.call c.count).2 s'

variable {f : Call → σ → Except Fault (ο × σ)} {reply : ο → Reply} {R : Script → σ → Prop}
  {ps rest : List Int} {q : Int} {room : Nat} {s : σ}

/-- There is room for the first entry when there is room for all. -/
theorem room_for_entries (hps : Positive ps) (hq : q ≤ 0) (hroom : ps.sum ≤ room) :
    ({ room, sizes := ps ++ q :: rest } : Script).room = 0 →
      ∀ size ∈ ({ room, sizes := ps ++ q :: rest } : Script).sizes.head?, size ≤ 0 := by
  rintro h0 size hsize
  dsimp only at h0 hsize
  match ps with
  | [] =>
    cases hsize
    exact hq
  | p :: ps =>
    have := hps.sum_pos (List.cons_ne_nil p ps)
    omega

/-! ## A negative entry -/

/-- **In front of a negative entry no call is told the end.** -/
theorem fails_for_ever (hf : Follows f reply R) (hq : q < 0) :
    ∀ {calls : List Call} {ps : List Int} {room : Nat} {s : σ} {trace : List (ο × σ)},
    Positive ps → ps.sum ≤ room → R { room, sizes := ps ++ q :: rest } s →
      callAll f calls s = .ok trace → ∀ x ∈ trace, (reply x.1).ret ≠ 0
  | [], _, _, _, _, _, _, _, h => by
    cases h
    exact nofun
  | c :: calls, ps, room, s, trace, hps, hroom, hR, h => by
    obtain ⟨o, s', hcall, hreply, hR'⟩ := hf hR
      (List.append_ne_nil_of_right_ne_nil ps (List.cons_ne_nil q rest))
      (room_for_entries hps (Int.le_of_lt hq) hroom) c
    rw [callAll_cons hcall] at h
    cases htail : callAll f calls s' with
    | error e =>
      rw [htail] at h
      cases h
    | ok tail =>
      rw [htail] at h
      cases h
      by_cases hps0 : ps = []
      · subst hps0
        rw [List.nil_append, call_last (Int.le_of_lt hq), if_neg (Int.ne_of_lt hq)] at hreply hR'
        rintro x (_ | ⟨_, hx⟩)
        · rw [hreply]
          exact Int.neg_ne_zero.mpr Int.one_ne_zero
        · exact @fails_for_ever hf hq calls [] room s' tail hps hroom hR' htail x hx
      · have hsum := hps.sum_pos hps0
        obtain ⟨n, ps', hn, _, hnroom, hps', hsum', hstep⟩ :=
          @call_entries ps rest q room c.count hps hps0 (by omega) c.pos
        rw [hstep] at hreply hR'
        rintro x (_ | ⟨_, hx⟩)
        · rw [hreply]
          exact Int.ne_of_gt (Int.natCast_pos.mpr hn)
        · exact fails_for_ever hf hq hps' (by omega) hR' htail x hx

/-! ## Positive entries -/

/-- A call gets what is promised when there is room for it. -/
theorem call_promised (hps : Positive ps) (hroom : ps.sum ≤ room) {count : Nat}
    (hcount : 0 < count) :
    ∃ (n : Nat) (ps' : List Int), Positive ps' ∧ ps'.sum + n = ps.sum ∧ n ≤ room ∧
      (ps ≠ [] → 0 < n) ∧
      ({ room, sizes := ps ++ 0 :: rest } : Script).call count =
        ({ ret := n, errno := none }, { room := room - n, sizes := ps' ++ 0 :: rest }) ∧
      promised count (ps ++ 0 :: rest) = ({ ret := n, errno := none }, ps' ++ 0 :: rest) := by
  match ps with
  | [] =>
    refine ⟨0, [], hps, rfl, Nat.zero_le _, fun h => absurd rfl h, ?_, rfl⟩
    rw [List.nil_append, call_last (Int.le_refl 0)]
    rfl
  | p :: ps =>
    obtain ⟨hp, hps⟩ := positive_cons.mp hps
    have hsum := hps.sum_nonneg
    rw [List.sum_cons] at hroom
    unfold Script.call promised
    simp only [List.cons_append, if_neg (Int.ne_of_gt hp), if_neg (show ¬p < 0 by omega)]
    by_cases hwhole : p ≤ count
    · have hn : min (min count p.toNat) room = p.toNat := by omega
      have hcast : ((p.toNat : Nat) : Int) = p := Int.toNat_of_nonneg (by omega)
      rw [if_pos hwhole, hn, hcast]
      exact ⟨p.toNat, ps, hps, by rw [List.sum_cons]; omega, by omega, fun _ => by omega,
        by rw [if_pos rfl, hcast], by rw [hcast]⟩
    · have hn : min (min count p.toNat) room = count := by omega
      rw [if_neg hwhole, hn, if_neg (show ¬p = count by omega)]
      refine ⟨count, (p - count) :: ps, positive_cons.mpr ⟨by omega, hps⟩, ?_, by omega,
        fun _ => hcount, rfl, rfl⟩
      rw [List.sum_cons, List.sum_cons]
      omega

/-- **Positive entries get what is promised.** -/
theorem replies_promised (hf : Follows f reply R) :
    ∀ {calls : List Call} {ps : List Int} {room : Nat} {s : σ}, Positive ps → ps.sum ≤ room →
      R { room, sizes := ps ++ 0 :: rest } s →
      ∃ trace, callAll f calls s = .ok trace ∧
        trace.map (fun x => reply x.1) = promises calls (ps ++ 0 :: rest)
  | [], _, _, _, _, _, _ => ⟨[], rfl, rfl⟩
  | c :: calls, ps, room, s, hps, hroom, hR => by
    obtain ⟨o, s', hcall, hreply, hR'⟩ := hf hR
      (List.append_ne_nil_of_right_ne_nil ps (List.cons_ne_nil 0 rest))
      (room_for_entries hps (Int.le_refl 0) hroom) c
    obtain ⟨n, ps', hps', hsum, hn, _, hstep, hpromised⟩ :=
      @call_promised ps rest room hps hroom c.count c.pos
    rw [hstep] at hreply hR'
    obtain ⟨trace, htrace, hreplies⟩ := @replies_promised hf calls ps' _ s' hps' (by omega) hR'
    refine ⟨_, callAll_cons_ok hcall htrace, ?_⟩
    rw [List.map_cons, promises, hpromised, hreply, hreplies]

/-- **They are transferred as a whole.** -/
theorem transfers_all (hf : Follows f reply R) {ps : List Int} {room : Nat} {s : σ}
    (hps : Positive ps) (hroom : ps.sum ≤ room) (hR : R { room, sizes := ps ++ 0 :: rest } s)
    (calls : Stream' Call) :
    ∃ n front last, callAll f (calls.take (n + 1)) s = .ok (front ++ [last]) ∧
      (reply last.1).ret = 0 ∧
      (front.map fun x => (reply x.1).ret.toNat).sum = ps.sum.toNat := by
  obtain ⟨o, s', hcall, hreply, hR'⟩ := hf hR
    (List.append_ne_nil_of_right_ne_nil ps (List.cons_ne_nil 0 rest))
    (room_for_entries hps (Int.le_refl 0) hroom) calls.head
  obtain ⟨n, ps', hps', hsum, hn, hpos, hstep, _⟩ :=
    @call_promised ps rest room hps hroom _ calls.head.pos
  rw [hstep] at hreply hR'
  have hsum' := hps'.sum_nonneg
  by_cases hps0 : ps = []
  · subst hps0
    rw [List.sum_nil] at hsum
    refine ⟨0, [], (o, s'), callAll_cons_ok hcall callAll_nil, ?_, rfl⟩
    rw [hreply]
    change (n : Int) = 0
    omega
  · have hn := hpos hps0
    obtain ⟨k, front, last, htail, hlast, htotal⟩ :=
      transfers_all hf hps' (by omega) hR' calls.tail
    refine ⟨k + 1, (o, s') :: front, last, ?_, hlast, ?_⟩
    · rw [Stream'.take_succ]
      exact callAll_cons_ok hcall htail
    · rw [List.map_cons, List.sum_cons, htotal, hreply]
      change (n : Int).toNat + ps'.sum.toNat = ps.sum.toNat
      omega
termination_by ps.sum.toNat

/-! ## Which scripts are played to their end -/

theorem sum_toNat : ∀ {ps : List Int}, Positive ps → (ps.map Int.toNat).sum = ps.sum.toNat
  | [], _ => rfl
  | p :: ps, h => by
    obtain ⟨hp, hps⟩ := positive_cons.mp h
    have := hps.sum_nonneg
    rw [List.map_cons, List.sum_cons, List.sum_cons, sum_toNat hps]
    omega

/-- The positive entries in front of the first negative one. -/
theorem positive_or_negative : ∀ {entries : List Int}, (∀ p ∈ entries, p ≠ 0) →
    Positive entries ∨ ∃ ps q more, entries = ps ++ q :: more ∧ Positive ps ∧ q < 0
  | [], _ => .inl nofun
  | p :: entries, h => by
    by_cases hp : p < 0
    · exact .inr ⟨[], p, entries, rfl, nofun, hp⟩
    · have hp : 0 < p := by
        have := h p List.mem_cons_self
        omega
      have hcons : ∀ {ps : List Int}, Positive ps → Positive (p :: ps) :=
        fun hps => positive_cons.mpr ⟨hp, hps⟩
      rcases positive_or_negative fun p' hp' => h p' (List.mem_cons_of_mem p hp') with
        hps | ⟨ps, q, more, rfl, hps, hq⟩
      · exact .inl (hcons hps)
      · exact .inr ⟨p :: ps, q, more, rfl, hcons hps, hq⟩

/-- **A function that plays scripts plays those without negative entries to their end, and no
others.** -/
theorem playsToEnd_iff (hf : Follows f reply R) {entries : List Int} (hne : ∀ p ∈ entries, p ≠ 0)
    (hroom : (entries.map Int.toNat).sum ≤ room)
    (hR : R { room, sizes := entries ++ 0 :: rest } s) (calls : Stream' Call) :
    PlaysToEnd f reply entries rest s calls ↔ ∀ p ∈ entries, 0 < p := by
  constructor
  · rintro ⟨_, n, front, last, htrace, hlast, _⟩
    rcases positive_or_negative hne with hps | ⟨ps, q, more, rfl, hps, hq⟩
    · exact hps
    · exfalso
      have hsum := sum_toNat hps
      rw [List.map_append, List.sum_append] at hroom
      rw [List.append_assoc, List.cons_append] at hR
      exact fails_for_ever hf hq hps (by omega) hR htrace last
        (List.mem_append_right _ List.mem_cons_self) hlast
  · intro hps
    have hsum := sum_toNat hps
    have hnonneg := Positive.sum_nonneg hps
    constructor
    · exact fun n => replies_promised hf hps (by omega) hR
    · rw [hsum]
      exact transfers_all hf hps (by omega) hR calls

end Mocks

/-! ## The two mocks -/

/-- A call of `write`. -/
def writeCall (real_write : Int → Bytes → Nat → Reply) (fd : Int) (c : Call)
    (e : ExpectedWrites) : Except Fault (Reply × ExpectedWrites) :=
  write real_write fd c.buf c.count e

theorem readCall_follows (real_read : Int → Bytes → Nat → Reply × Bytes) (fd : Int) :
    Follows (readCall real_read fd) Prod.fst fun t e =>
      e.fd = fd ∧ Plays e.region.length e.data e.sizes e.cur t := by
  rintro t e ⟨rfl, hplays⟩ hne _ c
  obtain ⟨e', hread, hfd, _, _, _, hplays'⟩ := read_eq hplays hne real_read c
  exact ⟨_, e', hread, rfl, hfd, hplays'⟩

theorem writeCall_follows (real_write : Int → Bytes → Nat → Reply) (fd : Int) :
    Follows (writeCall real_write fd) id fun t e =>
      e.fd = fd ∧ Plays e.region.length e.data e.sizes e.cur t := by
  rintro t e ⟨rfl, hplays⟩ hne hfull c
  obtain ⟨e', hwrite, hfd, _, _, _, hplays'⟩ := write_eq hplays hne hfull real_write c
  exact ⟨_, e', hwrite, rfl, hfd, hplays'⟩

/-- The script at its start, in a region that is large enough. -/
theorem plays_start (region : Bytes) (sizes : List Int) :
    Plays region.length 0 sizes 0 { room := region.length, sizes } :=
  ⟨Nat.zero_add _, rfl, Nat.zero_le _⟩

/-- **Both mocks play the scripts without negative entries to their end, and no others**, for
every client. -/
theorem transient_iff (real_read : Int → Bytes → Nat → Reply × Bytes)
    (real_write : Int → Bytes → Nat → Reply) (fd : Int) (region : Bytes) {entries : List Int}
    (hne : ∀ p ∈ entries, p ≠ 0) (hroom : (entries.map Int.toNat).sum ≤ region.length)
    (rest : List Int) (calls : Stream' Call) :
    (PlaysToEnd (readCall real_read fd) Prod.fst entries rest
        { fd, region, data := 0, sizes := entries ++ 0 :: rest, cur := 0 } calls ↔
      ∀ p ∈ entries, 0 < p) ∧
    (PlaysToEnd (writeCall real_write fd) id entries rest
        { fd, region, data := 0, sizes := entries ++ 0 :: rest, cur := 0 } calls ↔
      ∀ p ∈ entries, 0 < p) :=
  ⟨playsToEnd_iff (readCall_follows real_read fd) hne hroom ⟨rfl, plays_start region _⟩ calls,
    playsToEnd_iff (writeCall_follows real_write fd) hne hroom ⟨rfl, plays_start region _⟩ calls⟩

theorem transient_small :
    (PlaysToEnd (readCall readEof 10) Prod.fst [2, 3] []
        { fd := 10, region := ascii "hello!", data := 0, sizes := [2, 3] ++ [0], cur := 0 }
        (Stream'.const oneByte) ↔ ∀ p ∈ [2, 3], (0 : Int) < p) ∧
    (PlaysToEnd (writeCall writeAny 10) id [2, 3] []
        { fd := 10, region := ascii "hello!", data := 0, sizes := [2, 3] ++ [0], cur := 0 }
        (Stream'.const oneByte) ↔ ∀ p ∈ [2, 3], (0 : Int) < p) :=
  transient_iff readEof writeAny 10 (ascii "hello!") (by decide) (by decide) []
    (Stream'.const oneByte)

/-- `-EINTR` in front of three bytes. -/
theorem not_transient_eintr :
    ¬ PlaysToEnd (readCall readEof 10) Prod.fst [-4, 3] []
        { fd := 10, region := ascii "hello!", data := 0, sizes := [-4, 3] ++ [0], cur := 0 }
        (Stream'.const oneByte) ∧
    ¬ PlaysToEnd (writeCall writeAny 10) id [-4, 3] []
        { fd := 10, region := ascii "hello!", data := 0, sizes := [-4, 3] ++ [0], cur := 0 }
        (Stream'.const oneByte) := by
  have hnegative : ¬ ∀ p ∈ [-4, 3], (0 : Int) < p := by decide
  constructor
  · rwa [playsToEnd_iff (readCall_follows readEof 10) (by decide) (by decide)
      ⟨rfl, plays_start (ascii "hello!") _⟩]
  · rwa [playsToEnd_iff (writeCall_follows writeAny 10) (by decide) (by decide)
      ⟨rfl, plays_start (ascii "hello!") _⟩]

end OsProg.Mock
