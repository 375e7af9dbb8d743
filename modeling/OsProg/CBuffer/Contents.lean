import OsProg.CBuffer.Represents

/-!
# A buffer is an array

What a client reads from a buffer is what was last written there, from any earlier time on at which
the buffer was live, whatever is done meanwhile to this buffer and to others: the contents are
those of an array to which only the writes to the buffer are applied (`run_contents`).
-/

namespace OsProg.CBuffer.Memory

open Infra

variable {h : Heap} {mem : Mem} {buf : Addr} {op : Op} {ops before : List Op}

/-! ## The array -/

/-- What a call does to the array in `buf`. -/
def written (buf : Addr) (c : Bytes) : Op → Bytes
  | .write b i v => if b = buf then c.set i.toNat v else c
  | _ => c

/-! ## One call -/

/-- The counter is apart from the contents. -/
theorem contents_store32 (hroom : 16 + (size mem buf).toNat ≤ 2 ^ 64) (v : BitVec 32) :
    contents (store32 mem buf v) buf = contents mem buf := by
  have hoff : sizeofBuffer.toNat = 16 := rfl
  have hapart : (refcAt buf).Disjoint
      { addr := buf + sizeofBuffer, len := (size mem buf).toNat } := by
    refine Region.disjoint_start ?_ ?_
    · rw [hoff]
      decide
    · rwa [hoff]
  unfold contents
  rw [size_store32]
  refine loadBytes_storeBytes_of_disjoint ?_
  rw [leBytes_length]
  exact hapart.symm

/-- A client writes one byte. -/
theorem contents_client_write {i : Addr} (hroom : 16 + (size mem buf).toNat ≤ 2 ^ 64)
    (hi : i < size mem buf) (v : UInt8) :
    contents (storeBytes mem (dataAt buf i).addr [v]) buf =
      (contents mem buf).set i.toNat v := by
  have hlt : i.toNat < (size mem buf).toNat := hi
  have haddr : (dataAt buf i).addr = buf + sizeofBuffer + i := by
    rw [dataAt, BitVec.add_assoc]
  unfold contents
  rw [size_storeBytes (sizeAt_dataAt (by omega)), haddr]
  exact loadBytes_storeByte (by omega)

/-- The room of a live buffer. -/
theorem Wf.fits (hw : Wf h) (hlive : Live h buf) : 16 + (size h.mem buf).toNat ≤ 2 ^ 64 := by
  obtain ⟨blk, hblk, rfl⟩ := hlive
  exact Nat.le_trans (hw.room blk hblk) (hw.space blk hblk)

/-- **What a call does to the contents** of a live buffer. -/
theorem step_contents (hw : Wf h) (hl : Legal h op) (hn : NoWrap op) (hlive : Live h buf) :
    contents (exec h op).1.mem buf = written buf (contents h.mem buf) op ∧
      size (exec h op).1.mem buf = size h.mem buf := by
  have hfits := hw.fits hlive
  -- a call for another buffer
  have hother : (∀ blk ∈ op.own h, blk.addr ≠ buf) → Unchanged h.mem (exec h op).1.mem buf := by
    intro hown
    obtain ⟨blk, hblk, rfl⟩ := hlive
    exact (step_isolated hw hl hn).1.others blk hblk fun hmem => hown blk hmem rfl
  have hfilter : ∀ {b : Addr}, b ≠ buf → ∀ blk ∈ h.live.filter fun blk => blk.addr = b,
      blk.addr ≠ buf := fun hb blk hmem haddr => hb ((mem_own hmem).2.symm.trans haddr)
  cases op with
  | new n granted =>
    cases granted with
    | none => exact ⟨rfl, rfl⟩
    | some blk =>
      -- the new block is apart from the live ones
      obtain ⟨blk', hblk', rfl⟩ := hlive
      have hsame := (hw.new hl (large_of_noWrap hl hn)).2 blk' hblk'
      exact ⟨hsame.contents, hsame.size⟩
  | ref b =>
    by_cases hb : b = buf
    · subst hb
      exact ⟨contents_store32 hfits _, size_store32 _⟩
    · have hsame := hother (hfilter hb)
      exact ⟨hsame.contents, hsame.size⟩
  | unref b =>
    by_cases hb : b = buf
    · subst hb
      rw [unref_mem]
      exact ⟨contents_store32 hfits _, size_store32 _⟩
    · have hsame := hother (hfilter hb)
      exact ⟨hsame.contents, hsame.size⟩
  | refs b => exact ⟨rfl, rfl⟩
  | data b => exact ⟨rfl, rfl⟩
  | size b => exact ⟨rfl, rfl⟩
  | write b i v =>
    by_cases hb : b = buf
    · subst hb
      rw [written, if_pos rfl]
      exact ⟨contents_client_write hfits hl.2 v,
        size_storeBytes (sizeAt_dataAt (by have : i.toNat < _ := hl.2; omega))⟩
    · have hsame := hother (hfilter hb)
      rw [written, if_neg hb]
      exact ⟨hsame.contents, hsame.size⟩

/-! ## Runs -/

theorem legalRun_append : ∀ {before ops : List Op} {h : Heap},
    LegalRun h (before ++ ops) ↔ LegalRun h before ∧ LegalRun (after h before) ops
  | [], ops, h => ⟨fun hl => ⟨trivial, hl⟩, And.right⟩
  | op :: before, ops, h => by
    rw [List.cons_append, LegalRun, LegalRun, legalRun_append, and_assoc]
    rfl

theorem after_nil (h : Heap) : after h [] = h := rfl

theorem after_cons (h : Heap) (op : Op) (ops : List Op) :
    after h (op :: ops) = after (exec h op).1 ops := rfl

theorem after_append (h : Heap) (before ops : List Op) :
    after h (before ++ ops) = after (after h before) ops := List.foldl_append

theorem run_wf (hw : Wf h) (hl : LegalRun h ops) (hn : ∀ op ∈ ops, NoWrap op) :
    Wf (after h ops) := by
  induction ops generalizing h with
  | nil => exact hw
  | cons op ops ih =>
    have hw' := (step_isolated hw hl.1 (hn op List.mem_cons_self)).2
    exact ih hw' hl.2 fun op' h' => hn op' (List.mem_cons_of_mem op h')

/-- By induction on the calls: each is one step of the array. -/
theorem run_contents_from (hw : Wf h) (hl : LegalRun h ops) (hn : ∀ op ∈ ops, NoWrap op)
    (hlive : ∀ front, front <+: ops → Live (after h front) buf) :
    contents (after h ops).mem buf = ops.foldl (written buf) (contents h.mem buf) ∧
      size (after h ops).mem buf = size h.mem buf := by
  induction ops generalizing h with
  | nil =>
    rw [after_nil, List.foldl_nil]
    exact ⟨rfl, rfl⟩
  | cons op ops ih =>
    have hop := hn op List.mem_cons_self
    have hw' := (step_isolated hw hl.1 hop).2
    obtain ⟨hcontents, hsize⟩ := step_contents hw hl.1 hop (hlive [] List.nil_prefix)
    obtain ⟨hcontents', hsize'⟩ := ih hw' hl.2
      (fun op' h' => hn op' (List.mem_cons_of_mem op h'))
      fun front hfront => hlive (op :: front) (List.cons_prefix_cons.mpr ⟨rfl, hfront⟩)
    rw [after_cons, hcontents', hsize', List.foldl_cons, hcontents, hsize]
    exact ⟨rfl, rfl⟩

/-- **A buffer is an array.** While a buffer is live, its size stays and its contents are what the
writes to it make of them. -/
theorem run_contents {mem : Mem} (hl : LegalRun (start mem) (before ++ ops))
    (hn : ∀ op ∈ before ++ ops, NoWrap op)
    (hlive : ∀ front, front <+: ops → Live (after (start mem) (before ++ front)) buf) :
    contents (after (start mem) (before ++ ops)).mem buf =
        ops.foldl (written buf) (contents (after (start mem) before).mem buf) ∧
      size (after (start mem) (before ++ ops)).mem buf =
        size (after (start mem) before).mem buf := by
  obtain ⟨hbefore, hops⟩ := legalRun_append.mp hl
  -- the heap at the earlier time is as good a start as any
  have hw : Wf (after (start mem) before) :=
    run_wf (wf_start mem) hbefore fun op hop => hn op (List.mem_append_left _ hop)
  rw [after_append]
  refine run_contents_from hw hops (fun op hop => hn op (List.mem_append_right _ hop)) ?_
  intro front hfront
  rw [← after_append]
  exact hlive front hfront

/-- The buffer at 4096, while it is written to and another one comes. -/
theorem run_contents_two : contents (after (start fun _ => 0) (twoBuffers.take 3)).mem 4096 =
    (contents (after (start fun _ => 0) (twoBuffers.take 1)).mem 4096).set 3 7 := by
  have hlegal : LegalRun (start fun _ => 0) (twoBuffers.take 1 ++ (twoBuffers.drop 1).take 2) :=
    (legalRun_append.mp (show LegalRun _ (_ ++ twoBuffers.drop 3) from legal_twoBuffers)).1
  refine (run_contents hlegal (fun op hop => noWrap_twoBuffers op ?_) ?_).1
  · exact List.mem_append_left (twoBuffers.drop 3) hop
  · intro front hfront
    rcases List.prefix_cons_iff.mp hfront with rfl | ⟨front₁, rfl, hfront₁⟩
    · exact ⟨⟨4096, 20⟩, List.mem_cons_self, rfl⟩
    · rcases List.prefix_cons_iff.mp hfront₁ with rfl | ⟨front₂, rfl, hfront₂⟩
      · exact ⟨⟨4096, 20⟩, List.mem_cons_self, rfl⟩
      · rw [List.prefix_nil.mp hfront₂]
        exact ⟨⟨4096, 20⟩, List.mem_cons_self, rfl⟩

end OsProg.CBuffer.Memory
