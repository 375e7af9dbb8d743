import OsProg.CBuffer.Clients
import OsProg.Infra.Counter
import Mathlib.Data.Multiset.Replicate

/-!
# Reference counting

The ledger says who holds a reference, memory has a 32-bit counter. The two agree along every run
that follows the discipline, as long as no request of a `buffer_new` wraps and no buffer has more
than `2 ^ 31` references.

* `Counts` — the relation between the ledger, memory and the calls of `malloc` and `free`
* `step_counts` — one call keeps it, and what the call leaves alone
* `refcount_exact` — the runs, and why the bound cannot be raised
-/

namespace OsProg.CBuffer.Memory

open Infra

variable {C : Type} {h h' : Heap} {held held' : List Addr} {buf b : Addr} {blk : Region}
  {holders : Multiset C}

/-! ## What is live -/

theorem live_new {n : BitVec 64} :
    Live (exec h (.new n (some blk))).1 b ↔ Live h b ∨ b = blk.addr := by
  constructor
  · rintro ⟨r, hr, rfl⟩
    rcases List.mem_append.mp hr with hr | hr
    · exact .inl ⟨r, hr, rfl⟩
    · rw [List.mem_singleton.mp hr]
      exact .inr rfl
  · rintro (⟨r, hr, rfl⟩ | rfl)
    · exact ⟨r, List.mem_append_left _ hr, rfl⟩
    · exact ⟨blk, List.mem_append_right _ (List.mem_singleton_self blk), rfl⟩

theorem mem_free {r : Region} : r ∈ (free buf h).live ↔ r ∈ h.live ∧ r.addr ≠ buf := by
  simp [free]

theorem live_free : Live (free buf h) b ↔ Live h b ∧ b ≠ buf := by
  constructor
  · rintro ⟨r, hr, rfl⟩
    obtain ⟨hr, hne⟩ := mem_free.mp hr
    exact ⟨⟨r, hr, rfl⟩, hne⟩
  · rintro ⟨⟨r, hr, rfl⟩, hne⟩
    exact ⟨r, mem_free.mpr ⟨hr, hne⟩, rfl⟩

/-- What is granted is at no address at which there is a live buffer. -/
theorem not_live_of_grants (hw : Wf h) {request : BitVec 64} (hg : Grants h.live request blk)
    (hlen : 16 ≤ blk.len) : ¬ Live h blk.addr := by
  rintro ⟨r, hr, haddr⟩
  have hpos : 0 < r.len := Nat.lt_of_lt_of_le (by decide) (hw.large hr)
  exact Region.not_disjoint hpos (by omega) haddr (hg.apart r hr)

/-- `buffer_unref`, when the counter is known. -/
theorem exec_unref (h : Heap) (buf : Addr) : (exec h (.unref buf)).1 =
    if (refc h.mem buf - 1).toInt ≤ 0 then
      free buf { h with mem := store32 h.mem buf (refc h.mem buf - 1) }
    else { h with mem := store32 h.mem buf (refc h.mem buf - 1) } := by
  have hcount : refc (store32 h.mem buf (refc h.mem buf - 1)) buf = refc h.mem buf - 1 :=
    load32_store32 _ _ _
  simp only [exec, buffer_unref, hcount]
  split <;> rfl

theorem uses_unref (c : C) (h : Heap) (buf : Addr) : (Call.unref c buf).uses h =
    if (refc h.mem buf - 1).toInt ≤ 0 then [.release buf] else [] := by
  have hmem : (buffer_unref buf h).1.mem = store32 h.mem buf (refc h.mem buf - 1) := by
    unfold buffer_unref
    dsimp only
    split <;> rfl
  have hcount : refc (store32 h.mem buf (refc h.mem buf - 1)) buf = refc h.mem buf - 1 :=
    load32_store32 _ _ _
  rw [Call.uses, hmem, hcount]

/-! ## The ledger and memory -/

/-- What there is of a buffer with the outstanding references `holders`. The memory of a buffer
that was freed says nothing. -/
structure Agrees (h : Heap) (held : List Addr) (buf : Addr) (holders : Multiset C) : Prop where
  live : Live h buf ↔ 0 < holders.card
  bounded : holders.card ≤ 2 ^ 31
  refc : 0 < holders.card → refc h.mem buf = BitVec.ofNat 32 holders.card
  held : held.count buf = if 0 < holders.card then 1 else 0

/-- The ledger, memory and the calls of `malloc` and `free` agree about every buffer. -/
structure Counts (s : System C) : Prop where
  wf : Wf s.heap
  agrees : ∃ held, s.uses.foldlM Use.step [] = some held ∧
    ∀ buf, Agrees s.heap held buf (s.ledger buf)

theorem counts_start (mem : Mem) : Counts (System.start (C := C) mem) := by
  refine ⟨wf_start mem, [], rfl, fun buf => ⟨?_, ?_, ?_, rfl⟩⟩
  · exact ⟨fun ⟨_, hr, _⟩ => absurd hr List.not_mem_nil, fun hp => absurd hp (Nat.lt_irrefl 0)⟩
  · exact Nat.zero_le _
  · exact fun hp => absurd hp (Nat.lt_irrefl 0)

/-- What a call does not touch. -/
theorem Agrees.frame (ha : Agrees h held b holders) (hlive : Live h' b ↔ Live h b)
    (hrefc : Live h b → Memory.refc h'.mem b = Memory.refc h.mem b)
    (hheld : held'.count b = held.count b) : Agrees h' held' b holders where
  live := hlive.trans ha.live
  bounded := ha.bounded
  refc hp := (hrefc (ha.live.mpr hp)).trans (ha.refc hp)
  held := hheld.trans ha.held

/-- The number of outstanding references is what `buffer_refs` returns. -/
theorem Agrees.refs (ha : Agrees h held buf holders) (hp : 0 < holders.card)
    (hle : holders.card ≤ 2 ^ 31 - 1) : (buffer_refs buf h).1 = holders.card := by
  rw [buffer_refs, ha.refc hp]
  exact toInt_ofNat (by omega)

/-- A call that changes what there is of one buffer. -/
theorem Counts.update {s : System C} (hc : Counts s) {more : List (Use Addr)} (hw : Wf h')
    (hother : ∀ b, b ≠ buf → (Live h' b ↔ Live s.heap b) ∧
      (Live s.heap b → refc h'.mem b = refc s.heap.mem b))
    (hown : ∀ held, Agrees s.heap held buf (s.ledger buf) →
      ∃ held', more.foldlM Use.step held = some held' ∧ (∀ b, b ≠ buf →
        held'.count b = held.count b) ∧ Agrees h' held' buf holders) :
    Counts { heap := h', ledger := Function.update s.ledger buf holders,
             uses := s.uses ++ more } := by
  obtain ⟨held, hrun, ha⟩ := hc.agrees
  obtain ⟨held', hmore, hcount, ha'⟩ := hown held (ha buf)
  refine ⟨hw, held', foldlM_append_iff.mpr ⟨held, hrun, hmore⟩, fun b => ?_⟩
  change Agrees h' held' b (Function.update s.ledger buf holders b)
  by_cases hb : b = buf
  · subst hb
    rw [Function.update_self]
    exact ha'
  · rw [Function.update_of_ne hb]
    exact (ha b).frame (hother b hb).1 (hother b hb).2 (hcount b hb)

/-- A call that changes nothing. -/
theorem Counts.same {s : System C} (hc : Counts s) :
    Counts { heap := s.heap, ledger := s.ledger, uses := s.uses ++ [] } := by
  rw [List.append_nil]
  exact hc

/-! ## One call -/

/-- What a call may do. It is for a buffer that is live and accesses its block, or the one that it
got from `malloc`, only; it frees the block whose last reference it gives up and no other; and it
leaves all other buffers alone. -/
structure Kept (s : System C) (call : Call C) (s' : System C) : Prop where
  live : ∀ buf, call.target = some buf → Live s.heap buf
  inside : ∀ a ∈ (exec s.heap call.op).2, ∃ blk ∈ call.op.own s.heap, a.Within blk
  freed : ∀ blk ∈ s.heap.live,
    blk ∉ s'.heap.live ↔ ∃ c, call = .unref c blk.addr ∧ s.ledger blk.addr = {c}
  others : ∀ blk ∈ s.heap.live, call.target ≠ some blk.addr →
    blk ∈ s'.heap.live ∧ Unchanged s.heap.mem s'.heap.mem blk.addr

section Step

variable {s s' : System C} {c d : C} {n : BitVec 64} {limit : Nat} {call : Call C}

/-- The blocks of other buffers are not those of a call. -/
theorem not_mem_own (hw : Wf h) (hl : Legal h call.op) (hblk : blk ∈ h.live)
    (hne : call.target ≠ some blk.addr) : blk ∉ call.op.own h := by
  cases call with
  | new c n granted =>
    intro hmem
    obtain rfl := Option.mem_toList.mp hmem
    have hpos : 0 < blk.len := Nat.lt_of_lt_of_le (by decide) (hw.large hblk)
    exact Region.not_disjoint hpos hpos rfl (Grants.apart hl blk hblk)
  | ref c d b | unref c b | refs c b | data c b | size c b =>
    intro hmem
    exact hne (congrArg some (mem_own hmem).2.symm)

theorem refc_other (hw : Wf h) (hl : Legal h call.op) (hn : NoWrap call.op) (hlive : Live h b)
    (hne : call.target ≠ some b) : refc (exec h call.op).1.mem b = refc h.mem b := by
  obtain ⟨r, hr, rfl⟩ := hlive
  exact ((step_isolated hw hl hn).1.others r hr (not_mem_own hw hl hr hne)).refc

theorem refc_of_target (hw : Wf h) (hl : Legal h call.op) (hn : NoWrap call.op)
    (ht : call.target = some buf) : ∀ b, b ≠ buf → Live h b →
      refc (exec h call.op).1.mem b = refc h.mem b := by
  intro b hb hlive
  refine refc_other hw hl hn hlive ?_
  rw [ht]
  exact fun heq => hb (Option.some.inj heq).symm

theorem live_of_target (hl : Legal h call.op) (ht : call.target = some buf) : Live h buf := by
  cases call with
  | new c n granted => cases ht
  | ref c d b | unref c b | refs c b | data c b | size c b =>
    cases ht
    exact hl

theorem accesses_within (hl : Legal h call.op) (hi : Isolated h call.op) :
    ∀ a ∈ (exec h call.op).2, ∃ blk ∈ call.op.own h, a.Within blk := by
  intro a ha
  have hown : ∃ blk, blk ∈ call.op.own h := by
    cases call with
    | new c n granted =>
      cases granted with
      | none => exact absurd ha List.not_mem_nil
      | some blk => exact ⟨blk, List.mem_singleton_self blk⟩
    | ref c d b | unref c b | refs c b | data c b | size c b =>
      obtain ⟨r, hr, hb⟩ : Live h b := hl
      exact ⟨r, List.mem_filter.mpr ⟨hr, decide_eq_true hb⟩⟩
  obtain ⟨blk, hblk⟩ := hown
  exact ⟨blk, hblk, hi.inside blk hblk a ha⟩

/-- All of it but what is freed. -/
theorem Kept.of_freed (hw : Wf s.heap) (hl : Legal s.heap call.op) (hn : NoWrap call.op)
    (hheap : s'.heap = (exec s.heap call.op).1)
    (hfreed : ∀ blk ∈ s.heap.live,
      blk ∉ s'.heap.live ↔ ∃ c, call = .unref c blk.addr ∧ s.ledger blk.addr = {c}) :
    Kept s call s' where
  live _ ht := live_of_target hl ht
  inside := accesses_within hl (step_isolated hw hl hn).1
  freed := hfreed
  others blk hblk hne := by
    have hstays : blk ∈ s'.heap.live := by
      by_contra hgone
      obtain ⟨c, rfl, -⟩ := (hfreed blk hblk).mp hgone
      exact hne rfl
    refine ⟨hstays, ?_⟩
    rw [hheap]
    exact (step_isolated hw hl hn).1.others blk hblk (not_mem_own hw hl hblk hne)

/-- A call that frees nothing. -/
theorem Kept.of_live (hw : Wf s.heap) (hl : Legal s.heap call.op) (hn : NoWrap call.op)
    (hheap : s'.heap = (exec s.heap call.op).1) (hnot : ∀ c b, call ≠ .unref c b)
    (hlive : ∀ blk ∈ s.heap.live, blk ∈ s'.heap.live) : Kept s call s' := by
  refine Kept.of_freed hw hl hn hheap fun blk hblk => ⟨fun hgone => ?_, ?_⟩
  · exact absurd (hlive blk hblk) hgone
  · rintro ⟨c, hcall, -⟩
    exact absurd hcall (hnot c blk.addr)

theorem card_pos (hm : c ∈ holders) : 0 < holders.card :=
  Multiset.card_pos_iff_exists_mem.mpr ⟨c, hm⟩

theorem Counts.live (hc : Counts s) (hm : c ∈ s.ledger buf) : Live s.heap buf := by
  obtain ⟨held, -, ha⟩ := hc.agrees
  exact (ha buf).live.mpr (card_pos hm)

variable [DecidableEq C]

/-! ### What the discipline asks for -/

theorem step_ref_iff : s.step limit (.ref c d buf) = some s' ↔
    (c ∈ s.ledger buf ∧ (s.ledger buf).card < limit) ∧
      s' = { heap := (exec s.heap (.ref buf)).1, ledger := s.ledger.add buf d,
             uses := s.uses ++ [] } := by
  rw [System.step, Ledger.step]
  split
  · rename_i hholds
    exact ⟨fun h => ⟨hholds, (Option.some.inj h).symm⟩, fun h => congrArg some h.2.symm⟩
  · rename_i hnot
    exact ⟨fun h => (by cases h), fun h => absurd h.1 hnot⟩

theorem step_unref_iff : s.step limit (.unref c buf) = some s' ↔
    c ∈ s.ledger buf ∧
      s' = { heap := (exec s.heap (.unref buf)).1, ledger := s.ledger.remove buf c,
             uses := s.uses ++ (Call.unref c buf).uses s.heap } := by
  rw [System.step, Ledger.step]
  split
  · rename_i hm
    exact ⟨fun h => ⟨hm, (Option.some.inj h).symm⟩, fun h => congrArg some h.2.symm⟩
  · rename_i hnot
    exact ⟨fun h => (by cases h), fun h => absurd h.1 hnot⟩

/-- A call that only reads. -/
theorem step_reads (hread : call = .refs c buf ∨ call = .data c buf ∨ call = .size c buf)
    (hstep : s.step limit call = some s') :
    c ∈ s.ledger buf ∧
      s' = { heap := s.heap, ledger := s.ledger, uses := s.uses ++ [] } := by
  obtain ⟨ledger, hledger, hs'⟩ := Option.bind_eq_some_iff.mp hstep
  rcases hread with rfl | rfl | rfl <;>
  · rw [Ledger.step] at hledger
    split at hledger
    · rename_i hm
      cases hledger
      cases hs'
      exact ⟨hm, rfl⟩
    · cases hledger

/-! ### Each call -/

/-- The last reference. -/
theorem erase_card_iff (hm : c ∈ holders) : (holders.erase c).card = 0 ↔ holders = {c} := by
  constructor
  · intro hz
    rw [← Multiset.cons_erase hm, Multiset.card_eq_zero.mp hz]
    rfl
  · rintro rfl
    rw [Multiset.erase_singleton, Multiset.card_zero]

/-- A new buffer. The address is that of a buffer that was freed, or a new one. -/
theorem new_counts (hc : Counts s) (hg : Grants s.heap.live (n + sizeofBuffer) blk)
    (hn : NoWrap (.new n (some blk)))
    (hstep : s.step limit (.new c n (some blk)) = some s') :
    Counts s' ∧ Kept s (.new c n (some blk)) s' := by
  have hl : Legal s.heap (Call.new c n (some blk)).op := hg
  have hlarge : 16 + n.toNat ≤ blk.len := large_of_noWrap hl hn
  have hdead := not_live_of_grants hc.wf hg (by omega)
  cases hstep
  refine ⟨hc.update (step_isolated hc.wf hl hn).2 ?_ ?_, ?_⟩
  · intro b hb
    refine ⟨live_new.trans (or_iff_left hb), fun hlive => ?_⟩
    exact refc_other hc.wf hl hn hlive nofun
  · intro held ha
    -- no reference was left at this address
    have hnone : (s.ledger blk.addr).card = 0 := by
      have hzero := mt ha.live.mpr hdead
      omega
    have hcard : (c ::ₘ s.ledger blk.addr).card = 1 := by
      rw [Multiset.card_cons, hnone]
    have hcount : held.count blk.addr = 0 := by
      rw [ha.held, if_neg (by omega)]
    refine ⟨blk.addr :: held, rfl, fun b hb => List.count_cons_of_ne (Ne.symm hb), ?_, ?_, ?_, ?_⟩
    · rw [hcard]
      exact iff_of_true (live_new.mpr (.inr rfl)) Nat.one_pos
    · rw [hcard]
      decide
    · intro _
      rw [hcard]
      change refc (store64 _ (blk.addr + 8) n) blk.addr = 1
      rw [refc_store64]
      exact load32_store32 _ _ _
    · rw [hcard, List.count_cons_self, hcount]
      rfl
  · exact Kept.of_live hc.wf hl hn rfl nofun fun r hr => List.mem_append_left _ hr

theorem ref_counts (hc : Counts s) (hstep : s.step (2 ^ 31) (.ref c d buf) = some s') :
    Counts s' ∧ Kept s (.ref c d buf) s' := by
  obtain ⟨⟨hm, hlt⟩, rfl⟩ := step_ref_iff.mp hstep
  have hl : Legal s.heap (Call.ref c d buf).op := hc.live hm
  have hp := card_pos hm
  refine ⟨?_, Kept.of_live hc.wf hl trivial rfl nofun fun r hr => hr⟩
  refine hc.update (step_isolated hc.wf hl trivial).2 ?_ ?_
  · exact fun b hb => ⟨Iff.rfl, refc_of_target hc.wf hl trivial rfl b hb⟩
  · intro held ha
    refine ⟨held, rfl, fun _ _ => rfl, ?_, ?_, ?_, ?_⟩
    · rw [Multiset.card_cons]
      exact iff_of_true hl (Nat.succ_pos _)
    · rw [Multiset.card_cons]
      exact hlt
    · intro _
      change refc (store32 _ buf _) buf = _
      rw [Multiset.card_cons, ← ofNat_add_one, ← ha.refc hp]
      exact load32_store32 _ _ _
    · rw [Multiset.card_cons, if_pos (Nat.succ_pos _), ha.held, if_pos hp]

/-- Giving up the last reference. -/
theorem last_counts (hc : Counts s) (hm : c ∈ s.ledger buf)
    (hlast : ((s.ledger buf).erase c).card = 0) (hw : Wf h')
    (hlive : ∀ b, Live h' b ↔ Live s.heap b ∧ b ≠ buf)
    (hrefc : ∀ b, b ≠ buf → Live s.heap b → refc h'.mem b = refc s.heap.mem b) :
    Counts { heap := h', ledger := s.ledger.remove buf c, uses := s.uses ++ [.release buf] } := by
  refine hc.update hw (fun b hb => ⟨(hlive b).trans (and_iff_left hb), hrefc b hb⟩) ?_
  intro held ha
  have hone : held.count buf = 1 := by rw [ha.held, if_pos (card_pos hm)]
  have hmem : buf ∈ held := List.count_pos_iff.mp (by omega)
  refine ⟨held.erase buf, ?_, fun b hb => List.count_erase_of_ne hb, ?_, ?_, ?_, ?_⟩
  · exact foldlM_cons_iff.mpr ⟨_, step_release_iff.mpr ⟨hmem, rfl⟩, rfl⟩
  · rw [hlive, hlast]
    simp
  · omega
  · exact fun hp' => absurd hp' (by omega)
  · rw [List.count_erase_self, hone, hlast]
    rfl

/-- Giving up a reference that is not the last one. -/
theorem one_less_counts (hc : Counts s) (hm : c ∈ s.ledger buf)
    (hlast : ((s.ledger buf).erase c).card ≠ 0) (hw : Wf h')
    (hlive : ∀ b, Live h' b ↔ Live s.heap b)
    (hrefc : ∀ b, b ≠ buf → Live s.heap b → refc h'.mem b = refc s.heap.mem b)
    (hown : refc h'.mem buf = refc s.heap.mem buf - 1) :
    Counts { heap := h', ledger := s.ledger.remove buf c, uses := s.uses ++ [] } := by
  refine hc.update hw (fun b hb => ⟨hlive b, hrefc b hb⟩) ?_
  intro held ha
  have hp := card_pos hm
  have hcard := Multiset.card_erase_add_one hm
  refine ⟨held, rfl, fun _ _ => rfl, ?_, ?_, ?_, ?_⟩
  · exact iff_of_true ((hlive buf).mpr (hc.live hm)) (Nat.pos_of_ne_zero hlast)
  · have := ha.bounded
    omega
  · intro _
    rw [hown, ha.refc hp, ofNat_sub_one hp]
    congr 1
    omega
  · rw [ha.held, if_pos hp, if_pos (Nat.pos_of_ne_zero hlast)]

/-- When the counter is right, it tells the last reference. -/
theorem decremented_iff (ha : Agrees h held buf holders) (hm : c ∈ holders) :
    (refc h.mem buf - 1).toInt ≤ 0 ↔ (holders.erase c).card = 0 := by
  have hp := card_pos hm
  have hcard := Multiset.card_erase_add_one hm
  rw [ha.refc hp, toInt_decrement hp ha.bounded]
  omega

/-- Giving up a reference. The block is freed with the last one. -/
theorem unref_counts (hc : Counts s) (hstep : s.step limit (.unref c buf) = some s') :
    Counts s' ∧ Kept s (.unref c buf) s' := by
  obtain ⟨hm, hs'⟩ := step_unref_iff.mp hstep
  have hl : Legal s.heap (Call.unref c buf).op := hc.live hm
  have hw' := (step_isolated hc.wf hl trivial).2
  have hrefc := refc_of_target hc.wf hl trivial rfl
  dsimp only [Call.op] at hw' hrefc
  obtain ⟨_, _, hagrees⟩ := hc.agrees
  have hdec := decremented_iff (hagrees buf) hm
  have hheap : s'.heap = (exec s.heap (.unref buf)).1 := by rw [hs']
  have hcount := erase_card_iff hm
  rw [uses_unref] at hs'
  by_cases hlast : ((s.ledger buf).erase c).card = 0
  · have hfree : (exec s.heap (.unref buf)).1 = free buf _ :=
      (exec_unref s.heap buf).trans (if_pos (hdec.mpr hlast))
    constructor
    · rw [hs', if_pos (hdec.mpr hlast)]
      refine last_counts hc hm hlast hw' (fun b => ?_) hrefc
      rw [hfree, live_free]
      exact Iff.rfl
    · refine Kept.of_freed hc.wf hl trivial hheap fun blk hblk => ?_
      rw [hheap, hfree, mem_free]
      constructor
      · intro hgone
        have haddr : blk.addr = buf := by
          by_contra hne
          exact hgone ⟨hblk, hne⟩
        subst haddr
        exact ⟨c, rfl, hcount.mp hlast⟩
      · rintro ⟨c', hcall, -⟩ ⟨-, hne⟩
        cases hcall
        exact hne rfl
  · have hstore : (exec s.heap (.unref buf)).1 =
        { s.heap with mem := store32 s.heap.mem buf (refc s.heap.mem buf - 1) } :=
      (exec_unref s.heap buf).trans (if_neg (mt hdec.mp hlast))
    constructor
    · rw [hs', if_neg (mt hdec.mp hlast)]
      refine one_less_counts hc hm hlast hw' (fun b => ?_) hrefc ?_
      · rw [hstore]
        exact Iff.rfl
      · rw [hstore]
        exact load32_store32 _ _ _
    · refine Kept.of_freed hc.wf hl trivial hheap fun blk hblk => ?_
      rw [hheap, hstore]
      refine iff_of_false (fun hgone => hgone hblk) ?_
      rintro ⟨c', hcall, honly⟩
      cases hcall
      exact hlast (hcount.mpr honly)

theorem reads_counts (hc : Counts s)
    (hread : call = .refs c buf ∨ call = .data c buf ∨ call = .size c buf)
    (hstep : s.step limit call = some s') : Counts s' ∧ Kept s call s' := by
  obtain ⟨hm, rfl⟩ := step_reads hread hstep
  refine ⟨hc.same, ?_⟩
  rcases hread with rfl | rfl | rfl <;>
    exact Kept.of_live hc.wf (hc.live hm) trivial rfl nofun fun r hr => hr

/-- **One call.** A call that follows the discipline keeps the count, and leaves everything else
as it is. -/
theorem step_counts (hc : Counts s) (hmalloc : call.Malloc s.heap) (hn : NoWrap call.op)
    (hstep : s.step (2 ^ 31) call = some s') : Counts s' ∧ Kept s call s' := by
  cases call with
  | new c n granted =>
    cases granted with
    | some blk => exact new_counts hc hmalloc hn hstep
    | none =>
      -- no memory: no buffer, and no reference to it
      cases hstep
      exact ⟨hc.same, Kept.of_live hc.wf trivial trivial rfl nofun fun r hr => hr⟩
  | ref c d buf => exact ref_counts hc hstep
  | unref c buf => exact unref_counts hc hstep
  | refs c buf => exact reads_counts hc (.inl rfl) hstep
  | data c buf => exact reads_counts hc (.inr (.inl rfl)) hstep
  | size c buf => exact reads_counts hc (.inr (.inr rfl)) hstep

/-! ## Runs -/

/-- After every run that follows the discipline, the count is right. -/
theorem run_counts {mem : Mem} {calls : List (Call C)} (hrun : Run (2 ^ 31) mem calls s)
    (hn : ∀ call ∈ calls, NoWrap call.op) : Counts s := by
  induction hrun with
  | start => exact counts_start mem
  | step _ hmalloc hstep ih =>
    have hc := ih fun call hcall => hn call (List.mem_append_left _ hcall)
    have hlast := hn _ (List.mem_append_right _ (List.mem_singleton_self _))
    exact (step_counts hc hmalloc hlast hstep).1

end Step

/-! ## One reference too many -/

section Overflow

/-- A new buffer and `n` more references to it. -/
def refTrace (c : C) (n : Nat) : List (Call C) :=
  .new c 100 (some ⟨4096, 116⟩) :: List.replicate n (.ref c c 4096)

theorem refTrace_succ (c : C) (n : Nat) :
    refTrace c (n + 1) = refTrace c n ++ [.ref c c 4096] := by
  unfold refTrace
  rw [List.replicate_succ', List.cons_append]

theorem noWrap_refTrace (c : C) (n : Nat) : ∀ call ∈ refTrace c n, NoWrap call.op := by
  intro call hcall
  rcases List.mem_cons.mp hcall with rfl | hcall
  · simp [Call.op, NoWrap, sizeofBuffer]
  · rw [(List.mem_replicate.mp hcall).2]
    trivial

variable [DecidableEq C]

/-- A buffer in its first block. -/
theorem run_new (limit : Nat) (mem : Mem) (c : C) {n : BitVec 64} {blk : Region}
    (hg : Grants [] (n + sizeofBuffer) blk) :
    ∃ s, Run limit mem [Call.new c n (some blk)] s ∧ s.ledger blk.addr = {c} ∧
      s.heap = (exec (start mem) (.new n (some blk))).1 := by
  have hrun : Run limit mem ([] ++ [Call.new c n (some blk)]) _ := Run.step .start hg rfl
  exact ⟨_, hrun, Function.update_self blk.addr _ _, rfl⟩

theorem refc_new (h : Heap) (n : BitVec 64) (blk : Region) :
    refc (exec h (.new n (some blk))).1.mem blk.addr = 1 := by
  change refc (store64 _ (blk.addr + 8) n) blk.addr = 1
  rw [refc_store64]
  exact load32_store32 _ _ _

theorem run_refTrace (mem : Mem) (c : C) {n limit : Nat} (h : n + 1 ≤ limit) :
    ∃ s, Run limit mem (refTrace c n) s ∧ s.ledger 4096 = Multiset.replicate (n + 1) c ∧
      Live s.heap 4096 ∧ refc s.heap.mem 4096 = BitVec.ofNat 32 (n + 1) := by
  induction n with
  | zero =>
    have hg : Grants [] (100 + sizeofBuffer) ⟨4096, 116⟩ :=
      ⟨by decide, by decide, by decide, nofun⟩
    obtain ⟨s, hrun, hledger, hheap⟩ := run_new limit mem c hg
    refine ⟨s, hrun, hledger, ?_, ?_⟩ <;> rw [hheap]
    · exact live_new.mpr (.inr rfl)
    · exact refc_new _ _ ⟨4096, 116⟩
  | succ n ih =>
    obtain ⟨s, hrun, hledger, hlive, hrefc⟩ := ih (by omega)
    have hholds : c ∈ s.ledger 4096 ∧ (s.ledger 4096).card < limit := by
      rw [hledger, Multiset.card_replicate]
      exact ⟨Multiset.mem_replicate.mpr ⟨by omega, rfl⟩, by omega⟩
    rw [refTrace_succ]
    refine ⟨_, Run.step hrun trivial (step_ref_iff.mpr ⟨hholds, rfl⟩), ?_, hlive, ?_⟩
    · change s.ledger.add 4096 c 4096 = _
      rw [Ledger.add_self, hledger, ← Multiset.replicate_succ]
    · rw [← ofNat_add_one (n + 1), ← hrefc]
      exact load32_store32 _ _ _

/-- One reference more than the bound, and one of them given up: the counter went round and
is negative, so the block is freed although the others are still held. -/
theorem freed_early (mem : Mem) (c : C) {n : Nat} (hn : n = 2 ^ 31) :
    ∃ (calls : List (Call C)) (s s' : System C) (buf : Addr), Run (n + 1) mem calls s ∧
      (∀ call ∈ calls, NoWrap call.op) ∧ s.step (n + 1) (.unref c buf) = some s' ∧
      (s.ledger buf).card = n + 1 ∧ Live s.heap buf ∧
      (s'.ledger buf).card = n ∧ ¬ Live s'.heap buf := by
  obtain ⟨s, hrun, hledger, hlive, hrefc⟩ := run_refTrace mem c (Nat.le_refl (n + 1))
  have hm : c ∈ s.ledger 4096 := by
    rw [hledger]
    exact Multiset.mem_replicate.mpr ⟨by omega, rfl⟩
  have hneg : (refc s.heap.mem 4096 - 1).toInt ≤ 0 := by
    rw [hrefc, hn]
    decide
  refine ⟨refTrace c n, s, _, 4096, hrun, noWrap_refTrace c n, step_unref_iff.mpr ⟨hm, rfl⟩, ?_,
    hlive, ?_, ?_⟩
  · rw [hledger, Multiset.card_replicate]
  · change (s.ledger.remove 4096 c 4096).card = n
    rw [Ledger.remove_self, hledger, Multiset.replicate_succ, Multiset.erase_cons_head,
      Multiset.card_replicate]
  · rw [exec_unref, if_pos hneg, live_free]
    exact fun h => h.2 rfl

end Overflow

/-! ## Exactness -/

/-- What can be seen of a system that counts the references of the ledger: under each handle a
block is allocated while there are references, what `malloc` gave has been freed once but for that
block, nothing was freed that was not allocated, and `buffer_refs` tells how many there are. -/
structure Exact (s : System C) : Prop where
  allocated : ∀ buf, Live s.heap buf ↔ 0 < (s.ledger buf).card
  freed_once : ∀ buf, s.uses.count (.release buf) + (if 0 < (s.ledger buf).card then 1 else 0) =
    s.uses.count (.acquire buf)
  owned : ∀ before buf, before ++ [.release buf] <+: s.uses →
    before.count (.release buf) < before.count (.acquire buf)
  refs : ∀ buf, 0 < (s.ledger buf).card → (s.ledger buf).card ≤ 2 ^ 31 - 1 →
    (buffer_refs buf s.heap).1 = (s.ledger buf).card

theorem Counts.exact {s : System C} (hc : Counts s) : Exact s := by
  obtain ⟨held, hrun, ha⟩ := hc.agrees
  refine ⟨fun buf => (ha buf).live, fun buf => ?_, run_iff.mp ⟨held, hrun⟩,
    fun buf => (ha buf).refs⟩
  have hcounted := counted_run hrun buf
  rw [(ha buf).held] at hcounted
  omega

/-- **Reference counting is exact.** In a run that follows the discipline with at most `2 ^ 31`
references to a buffer, and in which no request of a `buffer_new` wraps, the count is exact before
and after every call, no call touches a freed block, a call leaves the other buffers alone, and
only the `buffer_unref` that gives up the last reference frees a block. With one reference more a
run that follows the discipline frees a block that is still in use. -/
theorem refcount_exact [DecidableEq C] (mem : Mem) :
    (∀ (calls : List (Call C)) (call : Call C) (s s' : System C), Run (2 ^ 31) mem calls s →
      call.Malloc s.heap → s.step (2 ^ 31) call = some s' →
      (∀ call' ∈ calls ++ [call], NoWrap call'.op) → Exact s ∧ Exact s' ∧ Kept s call s') ∧
    ∀ c : C, ∃ (calls : List (Call C)) (s s' : System C) (buf : Addr),
      Run (2 ^ 31 + 1) mem calls s ∧ (∀ call ∈ calls, NoWrap call.op) ∧
      s.step (2 ^ 31 + 1) (.unref c buf) = some s' ∧
      (s.ledger buf).card = 2 ^ 31 + 1 ∧ Live s.heap buf ∧
      (s'.ledger buf).card = 2 ^ 31 ∧ ¬ Live s'.heap buf := by
  refine ⟨?_, fun c => freed_early mem c rfl⟩
  intro calls call s s' hrun hmalloc hstep hn
  have hc := run_counts hrun fun call' hcall => hn call' (List.mem_append_left _ hcall)
  have hlast := hn call (List.mem_append_right _ (List.mem_singleton_self call))
  obtain ⟨hc', hkept⟩ := step_counts hc hmalloc hlast hstep
  exact ⟨hc.exact, hc'.exact, hkept⟩

/-- Two clients, and the first gives up its reference. -/
theorem refcount_exact_two : ∃ s s' : System Bool,
    Run (2 ^ 31) (fun _ => 0) [.new true 5 (some ⟨4096, 21⟩), .ref true false 4096] s ∧
      s.step (2 ^ 31) (.unref true 4096) = some s' ∧ (buffer_refs 4096 s'.heap).1 = 1 := by
  have hg : Grants [] (5 + sizeofBuffer) ⟨4096, 21⟩ := ⟨by decide, by decide, by decide, nofun⟩
  obtain ⟨s, hrun, hledger, -⟩ := run_new (2 ^ 31) (fun _ => 0) true hg
  have hholds : true ∈ s.ledger 4096 ∧ (s.ledger 4096).card < 2 ^ 31 := by
    rw [hledger]
    decide
  have hboth : s.ledger.add 4096 false 4096 = {false, true} := by
    rw [Ledger.add_self, hledger]
    rfl
  have hm : true ∈ s.ledger.add 4096 false 4096 := by
    rw [hboth]
    decide
  have hrun₁ : Run (2 ^ 31) (fun _ => 0)
      ([.new true 5 (some ⟨4096, 21⟩)] ++ [.ref true false 4096]) _ :=
    Run.step hrun trivial (step_ref_iff.mpr ⟨hholds, rfl⟩)
  obtain ⟨-, hexact, -⟩ := (refcount_exact fun _ => 0).1 _ (.unref true 4096) _ _ hrun₁ trivial
    (step_unref_iff.mpr ⟨hm, rfl⟩) (by simp [Call.op, NoWrap, sizeofBuffer])
  have hone : (s.ledger.add 4096 false).remove 4096 true 4096 = {false} := by
    rw [Ledger.remove_self, hboth]
    rfl
  refine ⟨_, _, hrun₁, step_unref_iff.mpr ⟨hm, rfl⟩, ?_⟩
  have hrefs := hexact.refs 4096
  simp only [hone] at hrefs
  exact hrefs (by decide) (by decide)

/-- A request that wraps to 8 bytes, in front of a neighbour. The size stands in the counter of the
neighbour. -/
theorem neighbour_miscounted :
    ¬ ∀ (mem : Mem) (calls : List (Call Unit)) (call : Call Unit) (s s' : System Unit),
      Run (2 ^ 31) mem calls s → call.Malloc s.heap → s.step (2 ^ 31) call = some s' →
      Exact s ∧ Exact s' ∧ Kept s call s' := by
  intro hall
  have hfirst : Grants [] (0 + sizeofBuffer) ⟨4112, 16⟩ :=
    ⟨by decide, by decide, by decide, nofun⟩
  have hsecond : Grants [⟨4112, 16⟩] (18446744073709551608 + sizeofBuffer) ⟨4104, 8⟩ := by
    refine ⟨by decide, by decide, by decide, ?_⟩
    intro b hb
    rw [List.mem_singleton.mp hb]
    exact (Region.disjoint_of_le (by decide) (by decide)).symm
  obtain ⟨s, hrun, -, hheap⟩ := run_new (2 ^ 31) (fun _ => 0) () hfirst
  have hmalloc : Grants s.heap.live (18446744073709551608 + sizeofBuffer) ⟨4104, 8⟩ := by
    rw [hheap]
    exact hsecond
  have hkept := (hall _ _ (.new () 18446744073709551608 (some ⟨4104, 8⟩)) s _ hrun hmalloc rfl).2.2
  have hlive : ⟨4112, 16⟩ ∈ s.heap.live := by
    rw [hheap]
    exact List.mem_singleton_self _
  have hrefc := (hkept.others ⟨4112, 16⟩ hlive nofun).2.refc
  change refc (exec s.heap (.new 18446744073709551608 (some ⟨4104, 8⟩))).1.mem 4112 =
    refc s.heap.mem 4112 at hrefc
  rw [hheap] at hrefc
  exact absurd hrefc (by decide)

end OsProg.CBuffer.Memory
