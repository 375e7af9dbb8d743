import OsProg.CBuffer.Memory
import Mathlib.Data.List.Pairwise

/-!
# Buffers are isolated

The live blocks are apart and each has room for its header and for as many bytes as its `size`
says (`Wf`). Every legal call keeps that, stays in its own block and leaves the other buffers
alone, as long as the request of a `buffer_new` does not wrap (`step_isolated`).
-/

namespace OsProg.CBuffer.Memory

open Infra

variable {h : Heap} {mem mem' : Mem} {blk b : Region} {buf : Addr}

/-! ## Frames -/

/-- What is outside of a region is as it was. -/
def Changes (r : Region) (mem mem' : Mem) : Prop := ∀ x, ¬ r.Contains x → mem' x = mem x

theorem Changes.trans {r : Region} {mem₁ mem₂ mem₃ : Mem} (h : Changes r mem₁ mem₂)
    (h' : Changes r mem₂ mem₃) : Changes r mem₁ mem₃ :=
  fun x hx => (h' x hx).trans (h x hx)

theorem changes_storeBytes {r : Region} {a : Addr} {bytes : Bytes}
    (hr : Region.Within { addr := a, len := bytes.length } r) :
    Changes r mem (storeBytes mem a bytes) :=
  fun _ hx => storeBytes_outside fun hin => hx (hr.contains hin)

theorem changes_store32 {r : Region} {v : BitVec 32} (hr : (refcAt buf).Within r) :
    Changes r mem (store32 mem buf v) := by
  refine changes_storeBytes ?_
  rwa [leBytes_length]

theorem changes_store64 {r : Region} {v : BitVec 64} (hr : (sizeAt buf).Within r) :
    Changes r mem (store64 mem (buf + 8) v) := by
  refine changes_storeBytes ?_
  rwa [leBytes_length]

/-! ## The layout -/

theorem refcAt_within (hlen : 16 ≤ b.len) : (refcAt b.addr).Within b := by
  unfold refcAt Region.Within
  rw [BitVec.sub_self]
  exact Nat.le_trans (show 0 + 4 ≤ 16 by decide) hlen

theorem sizeAt_within (hlen : 16 ≤ b.len) : (sizeAt b.addr).Within b := Region.within_offset hlen

/-- The offset of a byte of `data`. -/
theorem dataOffset {i : Addr} (hi : i.toNat + 16 < 2 ^ 64) :
    (sizeofBuffer + i).toNat = 16 + i.toNat := by
  unfold sizeofBuffer
  rw [BitVec.toNat_add]
  exact Nat.mod_eq_of_lt (by simpa [Nat.add_comm] using hi)

theorem dataAt_within {i : Addr} (hi : i.toNat + 16 < 2 ^ 64) :
    (dataAt b.addr i).Within b ↔ 16 + i.toNat < b.len := by
  unfold Region.Within dataAt
  rw [add_sub_start, dataOffset hi]
  exact Iff.rfl

theorem refcAt_sizeAt (buf : Addr) : (refcAt buf).Disjoint (sizeAt buf) :=
  Region.disjoint_start (by decide) (by decide)

theorem refcAt_dataAt {i : Addr} (hi : i.toNat + 16 < 2 ^ 64) :
    (refcAt buf).Disjoint (dataAt buf i) := by
  refine Region.disjoint_start ?_ ?_ <;> rw [dataOffset hi] <;> omega

theorem sizeAt_dataAt {i : Addr} (hi : i.toNat + 16 < 2 ^ 64) :
    (sizeAt buf).Disjoint (dataAt buf i) := by
  refine Region.disjoint_offsets ?_ ?_ <;> rw [dataOffset hi]
  · exact Nat.le_add_right 16 _
  · omega

/-! ## The header behind a store -/

theorem refc_storeBytes {a : Addr} {bytes : Bytes}
    (h : (refcAt buf).Disjoint { addr := a, len := bytes.length }) :
    refc (storeBytes mem a bytes) buf = refc mem buf := by
  unfold refc load32
  rw [loadBytes_storeBytes_of_disjoint h]

theorem size_storeBytes {a : Addr} {bytes : Bytes}
    (h : (sizeAt buf).Disjoint { addr := a, len := bytes.length }) :
    size (storeBytes mem a bytes) buf = size mem buf := by
  unfold size load64
  rw [loadBytes_storeBytes_of_disjoint h]

theorem size_store32 (v : BitVec 32) : size (store32 mem buf v) buf = size mem buf := by
  refine size_storeBytes ?_
  rw [leBytes_length]
  exact (refcAt_sizeAt buf).symm

theorem refc_store64 (n : BitVec 64) : refc (store64 mem (buf + 8) n) buf = refc mem buf := by
  refine refc_storeBytes ?_
  rw [leBytes_length]
  exact refcAt_sizeAt buf

/-- **What changes elsewhere leaves a buffer alone.** -/
theorem unchanged_of_changes (hc : Changes blk mem mem') (hapart : blk.Disjoint b)
    (hroom : 16 + (size mem b.addr).toNat ≤ b.len) : Unchanged mem mem' b.addr := by
  have hload : ∀ {a : Addr} {n : Nat}, Region.Within { addr := a, len := n } b →
      loadBytes mem' a n = loadBytes mem a n := by
    intro a n hin
    refine loadBytes_congr fun x hx => hc x fun hblk => ?_
    exact hapart x hblk (hin.contains hx)
  have hlen : 16 ≤ b.len := Nat.le_trans (Nat.le_add_right 16 _) hroom
  have hsize : size mem' b.addr = size mem b.addr := by
    unfold size load64
    rw [hload (sizeAt_within hlen)]
  refine ⟨?_, hsize, ?_⟩
  · unfold refc load32
    rw [hload (refcAt_within hlen)]
  · unfold contents
    rw [hsize]
    exact hload (Region.within_offset hroom)

/-! ## The invariant -/

/-- The live blocks are apart, and have room for what they hold. -/
structure Wf (h : Heap) : Prop where
  apart : h.live.Pairwise Region.Disjoint
  room : ∀ b ∈ h.live, 16 + (size h.mem b.addr).toNat ≤ b.len
  space : ∀ b ∈ h.live, b.len ≤ 2 ^ 64

theorem Wf.large (hw : Wf h) (hb : b ∈ h.live) : 16 ≤ b.len :=
  Nat.le_trans (Nat.le_add_right 16 _) (hw.room b hb)

/-- No two live blocks start at one address. -/
theorem Wf.eq_of_addr (hw : Wf h) {b b' : Region} (hb : b ∈ h.live) (hb' : b' ∈ h.live)
    (haddr : b.addr = b'.addr) : b = b' := by
  by_contra hne
  have hpos : ∀ b ∈ h.live, 0 < b.len := fun b hb => Nat.lt_of_lt_of_le (by decide) (hw.large hb)
  exact Region.not_disjoint (hpos b hb) (hpos b' hb') haddr (hw.apart.forall hb hb' hne)

/-- A change of one block leaves the others alone. -/
theorem Wf.others (hw : Wf h) (hblk : blk ∈ h.live) (hc : Changes blk h.mem mem') :
    ∀ b ∈ h.live, b ≠ blk → Unchanged h.mem mem' b.addr := by
  intro b hb hne
  exact unchanged_of_changes hc (hw.apart.forall hblk hb (Ne.symm hne)) (hw.room b hb)

theorem Wf.store (hw : Wf h) (hblk : blk ∈ h.live) (hc : Changes blk h.mem mem')
    (hsize : size mem' blk.addr = size h.mem blk.addr) : Wf { h with mem := mem' } := by
  refine ⟨hw.apart, ?_, hw.space⟩
  intro b hb
  by_cases hne : b = blk
  · subst hne
    rw [hsize]
    exact hw.room b hb
  · rw [(hw.others hblk hc b hb hne).size]
    exact hw.room b hb

theorem Wf.free (hw : Wf h) (buf : Addr) : Wf (free buf h) := by
  refine ⟨hw.apart.filter _, ?_, ?_⟩
  · intro b hb
    exact hw.room b (List.mem_of_mem_filter hb)
  · intro b hb
    exact hw.space b (List.mem_of_mem_filter hb)

/-- A new buffer. Its block is as large as it has to be. -/
theorem Wf.new (hw : Wf h) {n : BitVec 64} (hg : Grants h.live (n + sizeofBuffer) blk)
    (hlarge : 16 + n.toNat ≤ blk.len) :
    Wf (exec h (.new n (some blk))).1 ∧
      ∀ b ∈ h.live, Unchanged h.mem (exec h (.new n (some blk))).1.mem b.addr := by
  have hlen : 16 ≤ blk.len := Nat.le_trans (Nat.le_add_right 16 _) hlarge
  have hc : Changes blk h.mem (exec h (.new n (some blk))).1.mem :=
    (changes_store32 (refcAt_within hlen)).trans (changes_store64 (sizeAt_within hlen))
  have hothers : ∀ b ∈ h.live, Unchanged h.mem (exec h (.new n (some blk))).1.mem b.addr :=
    fun b hb => unchanged_of_changes hc (hg.apart b hb).symm (hw.room b hb)
  refine ⟨⟨?_, ?_, ?_⟩, hothers⟩
  · refine List.pairwise_append.mpr ⟨hw.apart, List.pairwise_singleton _ _, ?_⟩
    intro b hb c hc
    rw [List.mem_singleton.mp hc]
    exact hg.apart b hb
  · intro b hb
    rcases List.mem_append.mp hb with hb | hb
    · rw [(hothers b hb).size]
      exact hw.room b hb
    · rw [List.mem_singleton.mp hb]
      change 16 + (load64 (store64 _ (blk.addr + 8) n) (blk.addr + 8)).toNat ≤ blk.len
      rwa [load64_store64]
  · intro b hb
    rcases List.mem_append.mp hb with hb | hb
    · exact hw.space b hb
    · have := hg.space
      rw [List.mem_singleton.mp hb]
      omega

/-! ## One call -/

/-- The request of a `buffer_new` that succeeds does not wrap. -/
def NoWrap : Op → Prop
  | .new n (some _) => n.toNat + sizeofBuffer.toNat < 2 ^ 64
  | _ => True

/-- A request that does not wrap asks for all that the buffer needs. -/
theorem large_of_noWrap {n : BitVec 64} (hl : Legal h (.new n (some blk)))
    (hn : NoWrap (.new n (some blk))) : 16 + n.toNat ≤ blk.len := by
  have hreq : (n + sizeofBuffer).toNat = n.toNat + 16 := by
    rw [BitVec.toNat_add]
    exact Nat.mod_eq_of_lt hn
  have := hl.large
  omega

theorem mem_own (hb : b ∈ h.live.filter fun blk => blk.addr = buf) : b ∈ h.live ∧ b.addr = buf := by
  simpa using hb

/-- A call that gets a block. -/
theorem isolated_new (hw : Wf h) {n : BitVec 64} (hg : Legal h (.new n (some blk)))
    (hlarge : 16 + n.toNat ≤ blk.len) :
    Isolated h (.new n (some blk)) ∧ Wf (exec h (.new n (some blk))).1 := by
  have hlen : 16 ≤ blk.len := Nat.le_trans (Nat.le_add_right 16 _) hlarge
  obtain ⟨hw', hothers⟩ := hw.new hg hlarge
  refine ⟨⟨?_, fun b hb _ => hothers b hb⟩, hw'⟩
  intro b hb a ha
  have hb : b = blk := List.mem_singleton.mp hb
  subst hb
  rcases List.mem_cons.mp ha with rfl | ha
  · exact refcAt_within hlen
  · rw [List.mem_singleton.mp ha]
    exact sizeAt_within hlen

/-- A call that only reads. -/
theorem isolated_read {op : Op} (hw : Wf h)
    (hown : op.own h = h.live.filter fun blk => blk.addr = buf) (hheap : (exec h op).1 = h)
    (hread : ∀ a ∈ (exec h op).2, a = refcAt buf ∨ a = sizeAt buf) : Isolated h op := by
  constructor
  · intro b hb a ha
    rw [hown] at hb
    obtain ⟨hlive, rfl⟩ := mem_own hb
    rcases hread a ha with rfl | rfl
    · exact refcAt_within (hw.large hlive)
    · exact sizeAt_within (hw.large hlive)
  · intro b _ _
    rw [hheap]
    exact ⟨rfl, rfl, rfl⟩

/-- A call that changes its block. -/
theorem isolated_store {op : Op} {a : Region} (hw : Wf h) (hlive : Live h buf)
    (hown : op.own h = h.live.filter fun blk => blk.addr = buf)
    (haccess : (exec h op).2 = [a]) (hin : ∀ b ∈ h.live, b.addr = buf → a.Within b)
    (hc : ∀ b ∈ h.live, b.addr = buf → Changes b h.mem (exec h op).1.mem) : Isolated h op := by
  obtain ⟨blk, hblk, rfl⟩ := hlive
  constructor
  · intro b hb a' ha'
    rw [hown] at hb
    obtain ⟨hb, haddr⟩ := mem_own hb
    rw [haccess] at ha'
    rw [List.mem_singleton.mp ha']
    exact hin b hb haddr
  · intro b hb hother
    rw [hown] at hother
    refine hw.others hblk (hc blk hblk rfl) b hb ?_
    rintro rfl
    exact hother (by simp [hb])

/-- What `buffer_ref` and `buffer_unref` do to the counter. -/
theorem store_refc (hw : Wf h) (hlive : Live h buf) (v : BitVec 32) :
    (∀ b ∈ h.live, b.addr = buf → Changes b h.mem (store32 h.mem buf v)) ∧
      Wf { h with mem := store32 h.mem buf v } := by
  have hc : ∀ b ∈ h.live, b.addr = buf → Changes b h.mem (store32 h.mem buf v) := by
    rintro b hb rfl
    exact changes_store32 (refcAt_within (hw.large hb))
  obtain ⟨blk, hblk, rfl⟩ := hlive
  exact ⟨hc, hw.store hblk (hc blk hblk rfl) (size_store32 v)⟩

theorem data_within (hw : Wf h) {i : Addr} (hi : i < size h.mem buf) :
    ∀ b ∈ h.live, b.addr = buf → (dataAt buf i).Within b := by
  rintro b hb rfl
  have hi : i.toNat < (size h.mem b.addr).toNat := hi
  have := hw.room b hb
  have := hw.space b hb
  exact (dataAt_within (by omega)).mpr (by omega)

/-- What a client does to the contents. -/
theorem store_data (hw : Wf h) (hlive : Live h buf) {i : Addr} (hi : i < size h.mem buf)
    (v : UInt8) :
    (∀ b ∈ h.live, b.addr = buf → Changes b h.mem (storeBytes h.mem (dataAt buf i).addr [v])) ∧
      Wf { h with mem := storeBytes h.mem (dataAt buf i).addr [v] } := by
  have hc : ∀ b ∈ h.live, b.addr = buf →
      Changes b h.mem (storeBytes h.mem (dataAt buf i).addr [v]) :=
    fun b hb haddr => changes_storeBytes (data_within hw hi b hb haddr)
  obtain ⟨blk, hblk, rfl⟩ := hlive
  refine ⟨hc, hw.store hblk (hc blk hblk rfl) (size_storeBytes (sizeAt_dataAt ?_))⟩
  have hi : i.toNat < (size h.mem blk.addr).toNat := hi
  have := hw.room blk hblk
  have := hw.space blk hblk
  omega

theorem unref_mem (h : Heap) (buf : Addr) :
    (exec h (.unref buf)).1.mem = store32 h.mem buf (refc h.mem buf - 1) := by
  simp only [exec, buffer_unref]
  split <;> rfl

theorem unref_accesses (h : Heap) (buf : Addr) : (exec h (.unref buf)).2 = [refcAt buf] := by
  simp only [exec, buffer_unref]
  split <;> rfl

/-- **A legal call is isolated**, as long as the request of a `buffer_new` does not wrap. -/
theorem step_isolated (hw : Wf h) {op : Op} (hl : Legal h op) (hn : NoWrap op) :
    Isolated h op ∧ Wf (exec h op).1 := by
  cases op with
  | new n granted =>
    cases granted with
    | none => exact ⟨⟨nofun, fun _ _ _ => ⟨rfl, rfl, rfl⟩⟩, hw⟩
    | some blk => exact isolated_new hw hl (large_of_noWrap hl hn)
  | ref buf =>
    obtain ⟨hc, hw'⟩ := store_refc hw hl (refc h.mem buf + 1)
    refine ⟨isolated_store hw hl rfl rfl ?_ hc, hw'⟩
    rintro b hb rfl
    exact refcAt_within (hw.large hb)
  | unref buf =>
    obtain ⟨hc, hw'⟩ := store_refc hw hl (refc h.mem buf - 1)
    have hin : ∀ b ∈ h.live, b.addr = buf → (refcAt buf).Within b := by
      rintro b hb rfl
      exact refcAt_within (hw.large hb)
    have hc : ∀ b ∈ h.live, b.addr = buf → Changes b h.mem (exec h (.unref buf)).1.mem := by
      rw [unref_mem]
      exact hc
    refine ⟨isolated_store hw hl rfl (unref_accesses h buf) hin hc, ?_⟩
    simp only [exec, buffer_unref]
    split
    · exact hw'.free buf
    · exact hw'
  | refs buf => exact ⟨isolated_read hw rfl rfl (by simp [exec, buffer_refs]), hw⟩
  | data buf => exact ⟨isolated_read hw rfl rfl (by simp [exec, buffer_data]), hw⟩
  | size buf => exact ⟨isolated_read hw rfl rfl (by simp [exec, buffer_size]), hw⟩
  | write buf i v =>
    obtain ⟨hlive, hi⟩ := hl
    have hin := data_within hw hi
    obtain ⟨hc, hw'⟩ := store_data hw hlive hi v
    exact ⟨isolated_store hw hlive rfl rfl hin hc, hw'⟩

/-! ## Runs -/

def start (mem : Mem) : Heap := { mem, live := [] }

theorem wf_start (mem : Mem) : Wf (start mem) := ⟨List.Pairwise.nil, nofun, nofun⟩

theorem run_isolated :
    ∀ (ops : List Op) {h : Heap}, Wf h → LegalRun h ops → (∀ op ∈ ops, NoWrap op) →
      AllIsolated h ops
  | [], _, _, _, _ => trivial
  | op :: ops, h, hw, hl, hn => by
    obtain ⟨hop, hw'⟩ := step_isolated hw hl.1 (hn op List.mem_cons_self)
    exact ⟨hop, run_isolated ops hw' hl.2 fun op' h' => hn op' (List.mem_cons_of_mem op h')⟩

/-! ## A request that wraps -/

theorem size_new (h : Heap) (n : BitVec 64) (blk : Region) :
    size (exec h (.new n (some blk))).1.mem blk.addr = n :=
  load64_store64 (store32 h.mem blk.addr 1) (blk.addr + 8) n

/-- No block has room for a size that wraps, so that the client may write behind its end. -/
theorem wrap_breaks {n : BitVec 64} (hl : Legal h (.new n (some blk)))
    (hn : ¬ NoWrap (.new n (some blk))) :
    ∃ op, Legal (exec h (.new n (some blk))).1 op ∧
      ¬ Isolated (exec h (.new n (some blk))).1 op := by
  have hwrap : 2 ^ 64 ≤ n.toNat + 16 := Nat.le_of_not_lt hn
  have hspace := hl.space
  have hnull := hl.notNull
  let i : Addr := BitVec.ofNat 64 (blk.len - 16)
  have hi : i.toNat = blk.len - 16 := Nat.mod_eq_of_lt (by omega)
  have hlive : blk ∈ (exec h (.new n (some blk))).1.live :=
    List.mem_append_right h.live (List.mem_singleton_self blk)
  refine ⟨.write blk.addr i 0, ⟨⟨blk, hlive, rfl⟩, ?_⟩, ?_⟩
  · rw [size_new, BitVec.lt_def, hi]
    omega
  · intro hisolated
    have hin := hisolated.inside blk (by simpa [Op.own] using hlive) _ (List.mem_singleton_self _)
    rw [dataAt_within (by omega), hi] at hin
    omega

theorem run_breaks {n : BitVec 64} (hn : ¬ NoWrap (.new n (some blk))) :
    ∀ (ops : List Op) {h : Heap}, LegalRun h (ops ++ [Op.new n (some blk)]) →
      ∃ next : Op, LegalRun h (ops ++ [Op.new n (some blk), next]) ∧
        ¬ AllIsolated h (ops ++ [Op.new n (some blk), next])
  | [], _, hl => by
    obtain ⟨next, hlegal, hnot⟩ := wrap_breaks hl.1 hn
    exact ⟨next, ⟨hl.1, hlegal, trivial⟩, fun hall => hnot hall.2.1⟩
  | _ :: ops, _, hl => by
    obtain ⟨next, hlegal, hnot⟩ := run_breaks hn ops hl.2
    exact ⟨next, ⟨hl.1, hlegal⟩, fun hall => hnot hall.2⟩

/-- **Buffers are isolated in a run in which no request wraps**, and a run in which one does goes
on to a call that is not. -/
theorem buffers_isolated (mem : Mem) (ops : List Op) :
    (LegalRun (start mem) ops → (∀ op ∈ ops, NoWrap op) → AllIsolated (start mem) ops) ∧
      ∀ (n : BitVec 64) (blk : Region), LegalRun (start mem) (ops ++ [Op.new n (some blk)]) →
        ¬ NoWrap (.new n (some blk)) →
        ∃ next : Op, LegalRun (start mem) (ops ++ [Op.new n (some blk), next]) ∧
          ¬ AllIsolated (start mem) (ops ++ [Op.new n (some blk), next]) :=
  ⟨run_isolated ops (wf_start mem), fun _ _ hl hn => run_breaks hn ops hl⟩

theorem buffers_isolated_two :
    AllIsolated (start fun _ => 0)
      [.new 4 (some ⟨4096, 20⟩), .write 4096 3 7, .new 1 (some ⟨8192, 17⟩), .unref 4096] := by
  have hfirst : Grants [] (4 + sizeofBuffer) ⟨4096, 20⟩ :=
    ⟨by decide, by decide, by decide, nofun⟩
  have hsecond : Grants [⟨4096, 20⟩] (1 + sizeofBuffer) ⟨8192, 17⟩ := by
    refine ⟨by decide, by decide, by decide, ?_⟩
    intro b hb
    rw [List.mem_singleton.mp hb]
    exact Region.disjoint_of_le (by decide) (by decide)
  refine (buffers_isolated _ _).1 ?_ (by simp [NoWrap, sizeofBuffer])
  have hlive : ∀ {h : Heap} {more : List Region}, h.live = ⟨4096, 20⟩ :: more → Live h 4096 :=
    fun hl => ⟨⟨4096, 20⟩, hl ▸ List.mem_cons_self, rfl⟩
  refine ⟨hfirst, ⟨hlive rfl, ?_⟩, hsecond, hlive rfl, trivial⟩
  rw [size_new (start fun _ => 0) 4 ⟨4096, 20⟩]
  decide

/-- A request that wraps to 8 bytes, in front of a neighbour. The first byte of `data` is in the
counter of the neighbour. -/
theorem neighbour_written :
    ¬ ∀ (mem : Mem) (ops : List Op), LegalRun (start mem) ops → AllIsolated (start mem) ops := by
  intro hall
  have hfirst : Grants [] (0 + sizeofBuffer) ⟨4112, 16⟩ :=
    ⟨by decide, by decide, by decide, nofun⟩
  have hsecond : Grants [⟨4112, 16⟩] (18446744073709551608 + sizeofBuffer) ⟨4096, 8⟩ := by
    refine ⟨by decide, by decide, by decide, ?_⟩
    intro b hb
    rw [List.mem_singleton.mp hb]
    exact (Region.disjoint_of_le (by decide) (by decide)).symm
  have hrun := hall (fun _ => 0)
    [.new 0 (some ⟨4112, 16⟩), .new 18446744073709551608 (some ⟨4096, 8⟩), .write 4096 0 7] <| by
      refine ⟨hfirst, hsecond, ⟨⟨⟨4096, 8⟩, List.mem_append_right _ ?_, rfl⟩, ?_⟩, trivial⟩
      · exact List.mem_singleton_self _
      · rw [size_new _ 18446744073709551608 ⟨4096, 8⟩]
        decide
  have hrefc := (hrun.2.2.1.others ⟨4112, 16⟩ List.mem_cons_self (by decide)).refc
  exact absurd hrefc (by decide)

end OsProg.CBuffer.Memory
