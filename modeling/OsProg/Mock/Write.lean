import OsProg.Infra.Printf
import OsProg.Mock.Script

/-!
# Writing a script

A client writes a stream: it drops what a call acknowledged, and calls again until nothing is
left or a return is not positive (`writeAll`). The data region then has what was acknowledged,
and the last return says why the client stopped, as long as the region is not used up while
both the stream and the positive entries go on (`write_run`). There the call copies far behind
the region (`write_faults`), where it means to report `ENOSPC`.
-/

namespace OsProg.Mock

open Infra

/-- How much a client asks for in its next call, given how many calls it has made and what is
left to write. -/
structure Client where
  count : Nat → Bytes → Nat
  pos : ∀ i left, left ≠ [] → 0 < count i left
  fits : ∀ i left, left ≠ [] → count i left < 2 ^ 63
  room : ∀ i left, left ≠ [] → count i left ≤ left.length

/-- The next call. -/
def Client.call (client : Client) (i : Nat) (left : Bytes) (h : left ≠ []) : Call :=
  { buf := left, count := client.count i left, pos := client.pos i left h,
    fits := client.fits i left h, room := client.room i left h }

/-- What a client has not written, the script behind its calls, and what each call returned. -/
structure Written where
  left : Bytes
  script : ExpectedWrites
  trace : List (Reply × ExpectedWrites)
  deriving DecidableEq, Repr

/-- The client, from its `i`-th call on. -/
def writeAll (real_write : Int → Bytes → Nat → Reply) (client : Client) (fd : Int) (i : Nat)
    (left : Bytes) (e : ExpectedWrites) : Except Fault Written :=
  if left = [] then .ok { left, script := e, trace := [] }
  else
    match write real_write fd left (client.count i left) e with
    | .error f => .error f
    | .ok (reply, e') =>
      if 0 < reply.ret then
        (writeAll real_write client fd (i + 1) (left.drop reply.ret.toNat) e').map
          fun w => { w with trace := (reply, e') :: w.trace }
      else .ok { left, script := e', trace := [(reply, e')] }
termination_by left.length
decreasing_by
  have := List.length_pos_iff.mpr ‹_›
  simp only [List.length_drop]
  omega

/-- How much of a stream can be stored, with `room` bytes left in the region and positive
entries of `sum` bytes. -/
def stored (stream : Bytes) (sum : Int) (room : Nat) : Nat :=
  min stream.length (min sum.toNat room)

/-- Why a client had to stop. -/
def refusal (room : Nat) (sum q errno : Int) : Reply :=
  if (room : Int) < sum then { ret := -1, errno := some ENOSPC }
  else if q = 0 then { ret := 0, errno := none }
  else { ret := -1, errno := some errno }

/-- Writing `stream` behind the bytes `before` of the region, over the bytes `ahead`. -/
structure Stores (before ahead stream : Bytes) (sum q errno : Int) (stop : Nat) (w : Written) :
    Prop where
  region : w.script.region =
    before ++ (stream.take (stored stream sum ahead.length) ++
      ahead.drop (stored stream sum ahead.length))
  allWritten : w.left = [] ↔ stream.length = stored stream sum ahead.length
  final : w.left ≠ [] →
    w.trace.getLast?.map Prod.fst = some (refusal ahead.length sum q errno)
  bounds : ∀ x ∈ w.trace, x.2.data ≤ (before ++ ahead).length ∧
    x.2.region.length = (before ++ ahead).length ∧ x.2.cur ≤ stop

/-! ## Stores -/

section Stores

variable {before ahead stream : Bytes} {sum q errno : Int} {stop : Nat}

/-- Nothing to write. -/
theorem stores_nil {e : ExpectedWrites} (h : e.region = before ++ ahead) :
    Stores before ahead [] sum q errno stop { left := [], script := e, trace := [] } := by
  have hstored : stored [] sum ahead.length = 0 := Nat.zero_min _
  refine ⟨?_, ?_, fun hne => absurd rfl hne, nofun⟩
  · rw [hstored, h]
    rfl
  · rw [hstored]
    exact ⟨fun _ => rfl, fun _ => rfl⟩

/-- A call that is refused. -/
theorem stores_refused {e : ExpectedWrites} (h : e.region = before ++ ahead)
    (hnone : min sum.toNat ahead.length = 0)
    (hdata : e.data ≤ (before ++ ahead).length) (hcur : e.cur ≤ stop) :
    Stores before ahead stream sum q errno stop
      { left := stream, script := e,
        trace := [(refusal ahead.length sum q errno, e)] } := by
  have hstored : stored stream sum ahead.length = 0 := by
    unfold stored
    rw [hnone, Nat.min_zero]
  refine ⟨?_, ?_, fun _ => rfl, ?_⟩
  · rw [hstored, h]
    rfl
  · rw [hstored, List.length_eq_zero_iff]
  · intro x hx
    rw [List.mem_singleton.mp hx]
    exact ⟨hdata, by rw [h], hcur⟩

/-- What can be stored behind `n` bytes that were. -/
theorem stored_drop {n room : Nat} {sum' : Int} (hstream : n ≤ stream.length) (hroom : n ≤ room)
    (hsum : sum' + n = sum) (hnonneg : 0 ≤ sum') :
    stored stream sum room = n + stored (stream.drop n) sum' (room - n) := by
  have hentries : sum.toNat = n + sum'.toNat := by omega
  unfold stored
  rw [hentries, List.length_drop, ← Nat.add_min_add_left, ← Nat.add_min_add_left,
    Nat.add_sub_cancel' hstream, Nat.add_sub_cancel' hroom]

/-- A call that is acknowledged, in front of the others. -/
theorem Stores.cons {n : Nat} {sum' : Int} {w : Written} {x : Reply × ExpectedWrites}
    (h : Stores (before ++ stream.take n) (ahead.drop n) (stream.drop n) sum' q errno stop w)
    (hstream : n ≤ stream.length) (hroom : n ≤ ahead.length) (hsum : sum' + n = sum)
    (hnonneg : 0 ≤ sum') (hdata : x.2.data ≤ (before ++ ahead).length)
    (hregion : x.2.region.length = (before ++ ahead).length) (hcur : x.2.cur ≤ stop) :
    Stores before ahead stream sum q errno stop { w with trace := x :: w.trace } := by
  have hstored : stored stream sum ahead.length =
      n + stored (stream.drop n) sum' (ahead.drop n).length := by
    rw [List.length_drop]
    exact stored_drop hstream hroom hsum hnonneg
  have hlength : (before ++ stream.take n ++ ahead.drop n).length = (before ++ ahead).length := by
    simp only [List.length_append, List.length_take, List.length_drop]
    omega
  have hrefusal : refusal (ahead.drop n).length sum' q errno =
      refusal ahead.length sum q errno := by
    have hiff : (((ahead.drop n).length : Nat) : Int) < sum' ↔ (ahead.length : Int) < sum := by
      rw [List.length_drop]
      omega
    unfold refusal
    simp only [hiff]
  refine ⟨?_, ?_, ?_, ?_⟩
  · rw [h.region, hstored, List.take_add, ← List.drop_drop]
    simp only [List.append_assoc]
  · rw [h.allWritten, hstored, List.length_drop]
    omega
  · intro hleft
    have hfinal := h.final hleft
    rw [hrefusal] at hfinal
    cases htrace : w.trace.getLast? with
    | none =>
      rw [htrace] at hfinal
      cases hfinal
    | some last =>
      rw [List.getLast?_cons, htrace]
      rwa [htrace] at hfinal
  · rintro y (_ | ⟨_, hy⟩)
    · exact ⟨hdata, hregion, hcur⟩
    · rw [← hlength]
      exact h.bounds y hy

end Stores

/-! ## The client -/

section Client

variable {real_write : Int → Bytes → Nat → Reply} {client : Client} {ps rest : List Int} {q : Int}
  {stop room : Nat} {e e' : ExpectedWrites} {i : Nat} {stream : Bytes} {reply : Reply}

theorem writeAll_nil : writeAll real_write client e.fd i [] e =
    .ok { left := [], script := e, trace := [] } := by
  rw [writeAll, if_pos rfl]

/-- A call that is refused ends the writing. -/
theorem writeAll_refused (hne : stream ≠ []) (hret : reply.ret ≤ 0)
    (h : write real_write e.fd stream (client.count i stream) e = .ok (reply, e')) :
    writeAll real_write client e.fd i stream e =
      .ok { left := stream, script := e', trace := [(reply, e')] } := by
  rw [writeAll, if_neg hne, h]
  exact if_neg (Int.not_lt.mpr hret)

/-- A call that is acknowledged. -/
theorem writeAll_acknowledged (hne : stream ≠ []) (hret : 0 < reply.ret)
    (h : write real_write e.fd stream (client.count i stream) e = .ok (reply, e')) :
    writeAll real_write client e.fd i stream e =
      (writeAll real_write client e.fd (i + 1) (stream.drop reply.ret.toNat) e').map
        fun w => { w with trace := (reply, e') :: w.trace } := by
  rw [writeAll, if_neg hne, h]
  exact if_pos hret

/-- A call that neither transfers anything nor meets the end of the region. -/
theorem write_refused (hq : q ≤ 0) {e : ExpectedWrites} (hne : stream ≠ [])
    (h : Plays e.region.length e.data e.sizes e.cur { room, sizes := q :: rest })
    (hstop : stop + (rest.length + 1) = e.sizes.length) :
    ∃ w, writeAll real_write client e.fd i stream e = .ok w ∧
      Stores (e.region.take e.data) (e.region.drop e.data) stream 0 q (int (-q)) stop w := by
  have hahead : (e.region.drop e.data).length = room := h.ahead
  have hlength : (e.region.take e.data ++ e.region.drop e.data).length = e.region.length := by
    rw [List.take_append_drop]
  have hrefusal : (if q = 0 then { ret := 0, errno := none }
      else { ret := -1, errno := some (int (-q)) } : Reply) = refusal room 0 q (int (-q)) := by
    unfold refusal
    rw [if_neg (Int.not_lt.mpr (Int.natCast_nonneg room))]
  have hret : (refusal room 0 q (int (-q))).ret ≤ 0 := by
    rw [← hrefusal]
    split
    · exact Int.le_refl 0
    · exact Int.neg_nonpos_of_nonneg Int.one_nonneg
  obtain ⟨e', hwrite, _, hsizes, hregion, hdata, hplays⟩ :=
    write_eq h (List.cons_ne_nil q rest) (by rintro _ _ ⟨⟩; exact hq) real_write
      (client.call i stream hne)
  rw [call_last hq, hrefusal] at hwrite hregion hdata hplays
  rw [Int.toNat_of_nonpos hret, List.take_zero, List.nil_append, Nat.add_zero] at hregion
  refine ⟨_, writeAll_refused hne hret hwrite, ?_⟩
  have hbounds := @Plays.bounds _ _ _ _ [] rest q room stop hplays (hsizes ▸ hstop)
  rw [hregion, List.take_append_drop] at hbounds
  rw [← hahead]
  exact stores_refused hregion (Nat.zero_min _) (hlength ▸ hbounds.1) hbounds.2

/-- A call bites into the positive entries, and the client goes on behind it. -/
theorem write_bites {e : ExpectedWrites} (hne : stream ≠ []) (hps : Positive ps) (hps0 : ps ≠ [])
    (hroom : 0 < room)
    (h : Plays e.region.length e.data e.sizes e.cur { room, sizes := ps ++ q :: rest }) :
    ∃ (n : Nat) (ps' : List Int) (e' : ExpectedWrites), 0 < n ∧ n ≤ stream.length ∧ n ≤ room ∧
      Positive ps' ∧ ps'.sum + n = ps.sum ∧ e'.fd = e.fd ∧ e'.sizes.length = e.sizes.length ∧
      e'.data = e.data + n ∧
      e'.region = e.region.take e.data ++ (stream.take n ++ e.region.drop (e.data + n)) ∧
      Plays e'.region.length e'.data e'.sizes e'.cur
        { room := room - n, sizes := ps' ++ q :: rest } ∧
      writeAll real_write client e.fd i stream e =
        (writeAll real_write client e.fd (i + 1) (stream.drop n) e').map
          fun w => { w with trace := ({ ret := n, errno := none }, e') :: w.trace } := by
  obtain ⟨n, ps', hn, hncount, hnroom, hps', hsum, hcall⟩ :=
    @call_entries ps rest q room _ hps hps0 hroom (client.call i stream hne).pos
  obtain ⟨e', hwrite, hfd, hsizes, hregion, hdata, hplays⟩ :=
    write_eq h (List.append_ne_nil_of_right_ne_nil ps (List.cons_ne_nil q rest))
      (fun h0 => absurd h0 (Nat.ne_of_gt hroom)) real_write (client.call i stream hne)
  rw [hcall] at hwrite hregion hdata hplays
  exact ⟨n, ps', e', hn, Nat.le_trans hncount (client.call i stream hne).room, hnroom, hps', hsum,
    hfd, hsizes, hdata, hregion, hplays,
    writeAll_acknowledged hne (Int.natCast_pos.mpr hn) hwrite⟩

/-- The region behind a call that acknowledged `n` bytes. -/
theorem region_behind {e e' : ExpectedWrites} {n : Nat} (hdata : e'.data = e.data + n)
    (hregion : e'.region = e.region.take e.data ++ (stream.take n ++ e.region.drop (e.data + n)))
    (hn : n ≤ stream.length) (hin : e.data + n ≤ e.region.length) :
    e'.region.take e'.data = e.region.take e.data ++ stream.take n ∧
      e'.region.drop e'.data = (e.region.drop e.data).drop n ∧
      e'.region.length = e.region.length := by
  have hlength : (e.region.take e.data ++ stream.take n).length = e'.data := by
    simp only [hdata, List.length_append, List.length_take]
    omega
  rw [← List.append_assoc] at hregion
  refine ⟨?_, ?_, ?_⟩
  · rw [hregion]
    exact List.take_left' hlength
  · rw [hregion, List.drop_drop]
    exact List.drop_left' hlength
  · rw [hregion, List.length_append, hlength, hdata, List.length_drop]
    omega

/-- **The client writes what can be stored**, unless the region is used up first. -/
theorem write_run (hq : q ≤ 0) {e : ExpectedWrites} {ps : List Int} {room i : Nat} {stream : Bytes}
    (hps : Positive ps)
    (h : Plays e.region.length e.data e.sizes e.cur { room, sizes := ps ++ q :: rest })
    (hstop : stop + (rest.length + 1) = e.sizes.length)
    (hfits : stream.length ≤ room ∨ ps.sum ≤ room) :
    ∃ w, writeAll real_write client e.fd i stream e = .ok w ∧
      Stores (e.region.take e.data) (e.region.drop e.data) stream ps.sum q (int (-q)) stop w := by
  by_cases hne : stream = []
  · subst hne
    exact ⟨_, writeAll_nil, stores_nil (List.take_append_drop _ _).symm⟩
  · by_cases hps0 : ps = []
    · subst hps0
      exact write_refused hq hne h hstop
    · have hpos := List.length_pos_iff.mpr hne
      have hsum := hps.sum_pos hps0
      have hahead : (e.region.drop e.data).length = room := h.ahead
      have hroom := h.room
      obtain ⟨n, ps', e', hn, hnstream, hnroom, hps', hsum', hfd, hsizes, hdata, hregion, hplays,
        hrun⟩ := @write_bites real_write client ps rest q room i stream e hne hps hps0 (by omega) h
      have hbounds := hplays.bounds (hsizes ▸ hstop)
      have hfits' : (stream.drop n).length ≤ room - n ∨ ps'.sum ≤ (room - n : Nat) := by
        rw [List.length_drop]
        omega
      obtain ⟨w, htail, hstores⟩ :=
        @write_run hq e' ps' (room - n) (i + 1) (stream.drop n) hps' hplays (hsizes ▸ hstop)
          hfits'
      obtain ⟨htake, hdrop, hsame⟩ := region_behind hdata hregion hnstream (by
        dsimp only at hroom
        omega)
      rw [← List.take_append_drop e.data e.region] at hsame
      rw [hfd] at htail
      rw [htake, hdrop] at hstores
      rw [hsame] at hbounds
      refine ⟨_, ?_, hstores.cons (x := ({ ret := n, errno := none }, e')) hnstream
        (hahead.symm ▸ hnroom) hsum' hps'.sum_nonneg hbounds.1 hsame hbounds.2⟩
      rw [hrun, htail]
      rfl
termination_by stream.length
decreasing_by
  rw [List.length_drop]
  omega

/-- **Where the region is used up first, the client comes to a copy out of bounds.** -/
theorem write_faults (hq : q ≤ 0) {e : ExpectedWrites} {ps : List Int} {room i : Nat}
    {stream : Bytes} (hps : Positive ps)
    (h : Plays e.region.length e.data e.sizes e.cur { room, sizes := ps ++ q :: rest })
    (hstream : room < stream.length) (hsum : room < ps.sum) :
    writeAll real_write client e.fd i stream e = .error .memmove := by
  have hne : stream ≠ [] := List.length_pos_iff.mp (by omega)
  have hps0 : ps ≠ [] := by
    rintro rfl
    rw [List.sum_nil] at hsum
    omega
  by_cases hroom : room = 0
  · subst hroom
    obtain ⟨p, ps, rfl⟩ := List.exists_cons_of_ne_nil hps0
    have hwrite := write_full h rfl (hps p List.mem_cons_self) rfl real_write
      (client.call i stream hne)
    rw [writeAll, if_neg hne]
    exact hwrite ▸ rfl
  · obtain ⟨n, ps', e', hn, hnstream, hnroom, hps', hsum', hfd, _, _, _, hplays, hrun⟩ :=
      @write_bites real_write client ps rest q room i stream e hne hps hps0 (by omega) h
    have hstream' : room - n < (stream.drop n).length := by
      rw [List.length_drop]
      omega
    have htail : writeAll real_write client e'.fd (i + 1) (stream.drop n) e' = .error .memmove :=
      write_faults hq hps' hplays hstream' (by omega)
    rw [hfd] at htail
    rw [hrun, htail]
    rfl
termination_by stream.length
decreasing_by
  rw [List.length_drop]
  omega

end Client

/-! ## When the promise is kept -/

/-- **The scripted `write` stores what it acknowledges exactly when** the region is not used up
before the stream or the positive entries, and the error number, if it comes to it, fits an
`int`. -/
theorem write_stores_iff (real_write : Int → Bytes → Nat → Reply) (client : Client) (fd : Int)
    (region stream : Bytes) {ps : List Int} (hps : ∀ p ∈ ps, 0 < p) {q : Int} (hq : q ≤ 0)
    (rest : List Int) :
    (∃ w, writeAll real_write client fd 0 stream
        { fd, region, data := 0, sizes := ps ++ q :: rest, cur := 0 } = .ok w ∧
      Stores [] region stream ps.sum q (-q) ps.length w) ↔
    (stream.length ≤ region.length ∨ ps.sum ≤ region.length) ∧
      (ps.sum < stream.length → -2 ^ 31 < q) := by
  have hsum := Positive.sum_nonneg hps
  have hplays : Plays region.length 0 (ps ++ q :: rest) 0
      { room := region.length, sizes := ps ++ q :: rest } :=
    ⟨Nat.zero_add _, rfl, Nat.zero_le _⟩
  have hrun : stream.length ≤ region.length ∨ ps.sum ≤ region.length →
      ∃ w, writeAll real_write client fd 0 stream
          { fd, region, data := 0, sizes := ps ++ q :: rest, cur := 0 } = .ok w ∧
        Stores [] region stream ps.sum q (int (-q)) ps.length w :=
    @write_run real_write client rest q ps.length hq
      { fd, region, data := 0, sizes := ps ++ q :: rest, cur := 0 } ps region.length 0 stream hps
      hplays (by simp)
  have hstored : stored stream ps.sum region.length = min stream.length
    (min ps.sum.toNat region.length) := rfl
  constructor
  · rintro ⟨w, hw, hstores⟩
    have hfits : stream.length ≤ region.length ∨ ps.sum ≤ region.length := by
      by_contra hfull
      have hfault := @write_faults real_write client rest q hq
        { fd, region, data := 0, sizes := ps ++ q :: rest, cur := 0 } ps region.length 0 stream hps
        hplays (by omega) (by omega)
      rw [hfault] at hw
      cases hw
    refine ⟨hfits, ?_⟩
    intro hshort
    obtain ⟨w', hw', hstores'⟩ := hrun hfits
    rw [hw'] at hw
    cases hw
    have hleft : w.left ≠ [] := fun hnil => by
      have := hstores.allWritten.mp hnil
      omega
    have hfinal := Option.some.inj ((hstores.final hleft).symm.trans (hstores'.final hleft))
    by_cases hq0 : q = 0
    · omega
    · have hneg : -q = int (-q) := by
        simpa [refusal, hq0, show ¬(region.length : Int) < ps.sum by omega] using hfinal
      have := (int_eq_iff (show 0 ≤ -q by omega)).mp hneg.symm
      omega
  · rintro ⟨hfits, herrno⟩
    obtain ⟨w, hw, hstores⟩ := hrun hfits
    refine ⟨w, hw, hstores.region, hstores.allWritten, ?_, hstores.bounds⟩
    intro hleft
    have hfinal := hstores.final hleft
    have hshort : ps.sum < stream.length := by
      have := mt hstores.allWritten.mpr hleft
      omega
    have hsmall := herrno hshort
    rw [(int_eq_iff (show 0 ≤ -q by omega)).mpr (by omega)] at hfinal
    exact hfinal

/-- A client that asks for all that it has left. -/
def eager : Client where
  count _ left := min left.length (2 ^ 63 - 1)
  pos _ left h := by
    have := List.length_pos_iff.mpr h
    omega
  fits _ _ _ := by omega
  room _ _ _ := Nat.min_le_left _ _

/-- The function of the C library, on a device that takes everything. -/
def writeAny (_fd : Int) (_buf : Bytes) (count : Nat) : Reply := { ret := count, errno := none }

theorem write_stores_partial :
    (∃ w, writeAll writeAny eager 11 0 (ascii "hello")
        { fd := 11, region := ascii "######", data := 0, sizes := [1, 2] ++ [-13, 0], cur := 0 } =
          .ok w ∧
      Stores [] (ascii "######") (ascii "hello") 3 (-13) 13 2 w) ↔
    (5 ≤ 6 ∨ (3 : Int) ≤ 6) ∧ ((3 : Int) < 5 → -2 ^ 31 < (-13 : Int)) :=
  write_stores_iff writeAny eager 11 (ascii "######") (ascii "hello")
    (show ∀ p ∈ [1, 2], 0 < p by decide) (show (-13 : Int) ≤ 0 by decide) [0]

/-- A region of one byte, and a stream of two. -/
theorem not_write_stores :
    ¬ ∃ w, writeAll writeAny eager 11 0 (ascii "ab")
        { fd := 11, region := ascii "#", data := 0, sizes := [5] ++ [0], cur := 0 } = .ok w ∧
      Stores [] (ascii "#") (ascii "ab") 5 0 0 1 w := by
  rintro ⟨w, hw, _⟩
  have hfault : writeAll writeAny eager 11 0 (ascii "ab")
      { fd := 11, region := ascii "#", data := 0, sizes := [5] ++ [0], cur := 0 } =
        .error .memmove :=
    @write_faults writeAny eager [] 0 (Int.le_refl 0)
      { fd := 11, region := ascii "#", data := 0, sizes := [5] ++ [0], cur := 0 } [5] 1 0
      (ascii "ab")
      (show ∀ p ∈ [5], 0 < p by decide) ⟨rfl, rfl, Nat.zero_le _⟩ (by decide) (by decide)
  rw [hfault] at hw
  cases hw

end OsProg.Mock
