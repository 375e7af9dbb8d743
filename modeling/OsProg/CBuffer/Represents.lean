import OsProg.CBuffer.Isolation
import Mathlib.Data.List.Forall2

/-!
# The blocks in memory

`CBuffer/Model.lean` has a heap of blocks, `CBuffer/Memory.lean` has bytes. In a legal run in
which no request wraps the two do the same: the calls return the same, and the blocks that are not
freed stand in memory, each at its place, with the counter and the size that the model says
(`run_represents`).
-/

namespace OsProg.CBuffer.Memory

open Infra

variable {place : List Region} {heap : CBuffer.Heap} {h : Heap} {mem' : Mem} {b b' : Nat}
  {blk blk' : Block} {r r' : Region}

/-! ## What the functions do to blocks -/

section Blocks

theorem buffer_new_eq {n : BitVec 64} (hn : n.toNat + sizeofBuffer.toNat < 2 ^ 64)
    (heap : CBuffer.Heap) : CBuffer.buffer_new n true heap =
      .ok (some heap.length,
        heap ++ [{ refc := 1, size := n, request := n + sizeofBuffer, frees := 0 }]) := by
  have hrequest : ¬ n + sizeofBuffer < sizeofBuffer := by
    rw [BitVec.lt_def, BitVec.toNat_add, Nat.mod_eq_of_lt hn]
    omega
  unfold CBuffer.buffer_new
  rw [if_pos rfl]
  exact if_neg hrequest

theorem deref_eq (h : heap[b]? = some blk) (hf : blk.frees = 0) : deref heap b = .ok blk := by
  unfold deref
  rw [h]
  exact if_pos hf

theorem buffer_ref_eq (h : deref heap b = .ok blk) :
    CBuffer.buffer_ref b heap = .ok (heap.set b { blk with refc := blk.refc + 1 }) := by
  unfold CBuffer.buffer_ref
  rw [h]
  rfl

/-- The block after `buffer_unref`. -/
def Block.unref (blk : Block) : Block :=
  { blk with
    refc := blk.refc - 1
    frees := if (blk.refc - 1).toInt ≤ 0 then blk.frees + 1 else blk.frees }

theorem buffer_unref_eq (h : deref heap b = .ok blk) :
    CBuffer.buffer_unref b heap = .ok (heap.set b (Block.unref blk)) := by
  unfold CBuffer.buffer_unref Block.unref
  rw [h]
  change (if (blk.refc - 1).toInt ≤ 0 then _ else _) = _
  split <;> rfl

theorem run_cons_iff {op : CBuffer.Op} {ops : List CBuffer.Op} {values : List (Value Nat Ptr)}
    {heap heap' : CBuffer.Heap} : CBuffer.run heap (op :: ops) = .ok (values, heap') ↔
      ∃ v heap₁ values₁, CBuffer.step heap op = .ok (v, heap₁) ∧
        CBuffer.run heap₁ ops = .ok (values₁, heap') ∧ v.toList ++ values₁ = values := by
  rw [CBuffer.run]
  rcases CBuffer.step heap op with e | ⟨v, heap₁⟩
  · simp [bind, Except.bind]
  · rcases hrun : CBuffer.run heap₁ ops with e | ⟨values₁, heap₂⟩ <;>
      simp [bind, Except.bind, pure, Except.pure, hrun, and_comm]

theorem run_append {ops ops' : List CBuffer.Op} {values values' : List (Value Nat Ptr)}
    {heap heap₁ heap₂ : CBuffer.Heap} (h : CBuffer.run heap ops = .ok (values, heap₁))
    (h' : CBuffer.run heap₁ ops' = .ok (values', heap₂)) :
    CBuffer.run heap (ops ++ ops') = .ok (values ++ values', heap₂) := by
  induction ops generalizing heap values with
  | nil =>
    cases h
    exact h'
  | cons op ops ih =>
    obtain ⟨v, heap₃, values₁, hstep, hrun, rfl⟩ := run_cons_iff.mp h
    rw [List.append_assoc]
    exact run_cons_iff.mpr ⟨v, heap₃, _, hstep, ih hrun, rfl⟩

end Blocks

/-! ## The blocks that stand in memory -/

/-- The block `blk` with the handle `b` is not freed, and stands at `r`. -/
structure At (place : List Region) (heap : CBuffer.Heap) (b : Nat) (blk : Block) (r : Region) :
    Prop where
  block : heap[b]? = some blk
  live : blk.frees = 0
  place : place[b]? = some r

/-- The blocks that are not freed stand in memory. -/
structure Represents (place : List Region) (heap : CBuffer.Heap) (h : Heap) : Prop where
  length : place.length = heap.length
  live : ∀ r, r ∈ h.live ↔ ∃ b blk, At place heap b blk r
  fields : ∀ {b blk r}, At place heap b blk r →
    refc h.mem r.addr = blk.refc ∧ size h.mem r.addr = blk.size
  injective : ∀ {b blk b' blk' r}, At place heap b blk r → At place heap b' blk' r → b = b'

theorem represents_start (mem : Mem) : Represents [] [] (start mem) := by
  refine ⟨rfl, ?_, ?_, ?_⟩
  · intro r
    refine ⟨nofun, ?_⟩
    rintro ⟨b, blk, hat⟩
    exact absurd hat.block (by simp)
  · intro b blk r hat
    exact absurd hat.block (by simp)
  · intro b blk b' blk' r hat
    exact absurd hat.block (by simp)

/-! ## Changing a block -/

theorem At.lt (hat : At place heap b blk r) : b < heap.length :=
  (List.getElem?_eq_some_iff.mp hat.block).1

theorem at_set (hat : At place heap b blk r) {x : Block} :
    At place (heap.set b blk') b' x r' ↔
      b' = b ∧ x = blk' ∧ r' = r ∧ blk'.frees = 0 ∨ b' ≠ b ∧ At place heap b' x r' := by
  constructor
  · rintro ⟨hblock, hlive, hplace⟩
    by_cases hb : b' = b
    · subst hb
      rw [List.getElem?_set_self hat.lt] at hblock
      rw [hat.place] at hplace
      cases hblock
      cases hplace
      exact .inl ⟨rfl, rfl, rfl, hlive⟩
    · rw [List.getElem?_set_ne (Ne.symm hb)] at hblock
      exact .inr ⟨hb, hblock, hlive, hplace⟩
  · rintro (⟨rfl, rfl, rfl, hlive⟩ | ⟨hb, hblock, hlive, hplace⟩)
    · exact ⟨List.getElem?_set_self hat.lt, hlive, hat.place⟩
    · exact ⟨(List.getElem?_set_ne (Ne.symm hb)).trans hblock, hlive, hplace⟩

theorem at_set_freed (hat : At place heap b blk r) (hfreed : blk'.frees ≠ 0) {x : Block} :
    At place (heap.set b blk') b' x r' ↔ b' ≠ b ∧ At place heap b' x r' := by
  rw [at_set hat]
  refine ⟨?_, .inr⟩
  rintro (⟨_, _, _, hlive⟩ | hat')
  · exact absurd hlive hfreed
  · exact hat'

theorem Represents.mem_live (hr : Represents place heap h) (hat : At place heap b blk r) :
    r ∈ h.live := (hr.live r).mpr ⟨b, blk, hat⟩

/-- A change of the bytes of one block. -/
theorem Represents.store (hr : Represents place heap h) (hw : Wf h) (hat : At place heap b blk r)
    (hc : Changes r h.mem mem') (hlive : blk'.frees = 0) (hrefc : refc mem' r.addr = blk'.refc)
    (hsize : size mem' r.addr = blk'.size) :
    Represents place (heap.set b blk') { h with mem := mem' } := by
  refine ⟨hr.length.trans List.length_set.symm, ?_, ?_, ?_⟩
  · intro r'
    rw [hr.live r']
    constructor
    · rintro ⟨b', x, hat'⟩
      by_cases hb : b' = b
      · subst hb
        have hplace := hat'.place
        rw [hat.place] at hplace
        cases hplace
        exact ⟨b', blk', (at_set hat).mpr (.inl ⟨rfl, rfl, rfl, hlive⟩)⟩
      · exact ⟨b', x, (at_set hat).mpr (.inr ⟨hb, hat'⟩)⟩
    · rintro ⟨b', x, hat'⟩
      rcases (at_set hat).mp hat' with ⟨rfl, rfl, rfl, _⟩ | ⟨_, hat'⟩
      · exact ⟨b', blk, hat⟩
      · exact ⟨b', x, hat'⟩
  · intro b' x r' hat'
    rcases (at_set hat).mp hat' with ⟨rfl, rfl, rfl, _⟩ | ⟨hb, hat'⟩
    · exact ⟨hrefc, hsize⟩
    · have hne : r' ≠ r := by
        rintro rfl
        exact hb (hr.injective hat' hat)
      have hsame := hw.others (hr.mem_live hat) hc r' (hr.mem_live hat') hne
      rw [hsame.refc, hsame.size]
      exact hr.fields hat'
  · intro b₁ x₁ b₂ x₂ r' hat₁ hat₂
    rcases (at_set hat).mp hat₁ with ⟨rfl, rfl, rfl, _⟩ | ⟨_, hold₁⟩ <;>
      rcases (at_set hat).mp hat₂ with ⟨rfl, rfl, hr', _⟩ | ⟨_, hold₂⟩
    · rfl
    · exact hr.injective hat hold₂
    · exact hr.injective hold₁ (hr' ▸ hat)
    · exact hr.injective hold₁ hold₂

/-- The other blocks stay when one is freed. -/
theorem Represents.free (hr : Represents place heap h) (hw : Wf h) (hat : At place heap b blk r)
    (hfreed : blk'.frees ≠ 0) : Represents place (heap.set b blk') (free r.addr h) := by
  have hmem : ∀ r', r' ∈ (Memory.free r.addr h).live ↔ r' ∈ h.live ∧ r'.addr ≠ r.addr := by
    intro r'
    simp [Memory.free]
  refine ⟨hr.length.trans List.length_set.symm, ?_, ?_, ?_⟩
  · intro r'
    rw [hmem, hr.live r']
    constructor
    · rintro ⟨⟨b', x, hat'⟩, haddr⟩
      refine ⟨b', x, (at_set_freed hat hfreed).mpr ⟨?_, hat'⟩⟩
      rintro rfl
      have hplace := hat'.place
      rw [hat.place] at hplace
      cases hplace
      exact haddr rfl
    · rintro ⟨b', x, hat'⟩
      obtain ⟨hb, hat'⟩ := (at_set_freed hat hfreed).mp hat'
      refine ⟨⟨b', x, hat'⟩, fun haddr => hb ?_⟩
      have hsame : r' = r := hw.eq_of_addr (hr.mem_live hat') (hr.mem_live hat) haddr
      exact hr.injective (hsame ▸ hat') hat
  · intro b' x r' hat'
    exact hr.fields ((at_set_freed hat hfreed).mp hat').2
  · intro b₁ x₁ b₂ x₂ r' hat₁ hat₂
    exact hr.injective ((at_set_freed hat hfreed).mp hat₁).2
      ((at_set_freed hat hfreed).mp hat₂).2

theorem at_append (hlength : place.length = heap.length) (hlive : blk'.frees = 0) {b' : Nat}
    {x : Block} {r' : Region} :
    At (place ++ [r]) (heap ++ [blk']) b' x r' ↔
      At place heap b' x r' ∨ b' = heap.length ∧ x = blk' ∧ r' = r := by
  constructor
  · rintro ⟨hblock, hlive', hplace⟩
    rcases Nat.lt_trichotomy b' heap.length with hb | rfl | hb
    · rw [List.getElem?_append_left hb] at hblock
      rw [List.getElem?_append_left (hlength ▸ hb)] at hplace
      exact .inl ⟨hblock, hlive', hplace⟩
    · rw [List.getElem?_concat_length] at hblock
      rw [← hlength, List.getElem?_concat_length] at hplace
      cases hblock
      cases hplace
      exact .inr ⟨rfl, rfl, rfl⟩
    · have hend : (heap ++ [blk'])[b']? = none := by
        refine List.getElem?_eq_none ?_
        rw [List.length_append]
        exact hb
      rw [hend] at hblock
      cases hblock
  · rintro (⟨hblock, hlive', hplace⟩ | ⟨rfl, rfl, rfl⟩)
    · have hb : b' < heap.length := (List.getElem?_eq_some_iff.mp hblock).1
      refine ⟨?_, hlive', ?_⟩
      · rwa [List.getElem?_append_left hb]
      · rwa [List.getElem?_append_left (hlength ▸ hb)]
    · refine ⟨List.getElem?_concat_length, hlive, ?_⟩
      rw [← hlength]
      exact List.getElem?_concat_length

/-- A new block. -/
theorem Represents.new (hr : Represents place heap h) {mem' : Mem} {r : Region}
    (hothers : ∀ r' ∈ h.live, Unchanged h.mem mem' r'.addr) (hnew : r ∉ h.live)
    (hlive : blk'.frees = 0) (hrefc : refc mem' r.addr = blk'.refc)
    (hsize : size mem' r.addr = blk'.size) :
    Represents (place ++ [r]) (heap ++ [blk']) { mem := mem', live := h.live ++ [r] } := by
  have hat_new := @at_append place heap blk' r hr.length hlive
  refine ⟨by simp [hr.length], ?_, ?_, ?_⟩
  · intro r'
    rw [List.mem_append, List.mem_singleton, hr.live r']
    constructor
    · rintro (⟨b', x, hat'⟩ | rfl)
      · exact ⟨b', x, hat_new.mpr (.inl hat')⟩
      · exact ⟨heap.length, blk', hat_new.mpr (.inr ⟨rfl, rfl, rfl⟩)⟩
    · rintro ⟨b', x, hat'⟩
      rcases hat_new.mp hat' with hat' | ⟨_, _, rfl⟩
      · exact .inl ⟨b', x, hat'⟩
      · exact .inr rfl
  · intro b' x r' hat'
    rcases hat_new.mp hat' with hat' | ⟨_, rfl, rfl⟩
    · have hsame := hothers r' (hr.mem_live hat')
      rw [hsame.refc, hsame.size]
      exact hr.fields hat'
    · exact ⟨hrefc, hsize⟩
  · intro b₁ x₁ b₂ x₂ r' hat₁ hat₂
    rcases hat_new.mp hat₁ with hold₁ | ⟨rfl, _, rfl⟩ <;>
      rcases hat_new.mp hat₂ with hold₂ | ⟨rfl, _, hr'⟩
    · exact hr.injective hold₁ hold₂
    · exact absurd (hr.mem_live hold₁) (hr' ▸ hnew)
    · exact absurd (hr.mem_live hold₂) hnew
    · rfl

/-! ## One call -/

/-- A call on bytes, and the call on blocks that it is. The model of the blocks has no contents
that a client could write to. -/
inductive SameCall (place : List Region) : Op → List CBuffer.Op → Prop where
  | new (n : BitVec 64) (granted : Option Region) :
    SameCall place (.new n granted) [.new n granted.isSome]
  | ref {b : Nat} {r : Region} (h : place[b]? = some r) :
    SameCall place (.ref r.addr) [.ref b]
  | unref {b : Nat} {r : Region} (h : place[b]? = some r) :
    SameCall place (.unref r.addr) [.unref b]
  | refs {b : Nat} {r : Region} (h : place[b]? = some r) :
    SameCall place (.refs r.addr) [.refs b]
  | data {b : Nat} {r : Region} (h : place[b]? = some r) :
    SameCall place (.data r.addr) [.data b]
  | size {b : Nat} {r : Region} (h : place[b]? = some r) :
    SameCall place (.size r.addr) [.size b]
  | write (buf i : Addr) (v : UInt8) : SameCall place (.write buf i v) []

/-- Places are added behind those that there are. -/
theorem place_append (hb : place[b]? = some r) (more : List Region) :
    (place ++ more)[b]? = some r := by
  rwa [List.getElem?_append_left (List.getElem?_eq_some_iff.mp hb).1]

theorem SameCall.append {op : Op} {calls : List CBuffer.Op} (h : SameCall place op calls)
    (more : List Region) : SameCall (place ++ more) op calls := by
  cases h with
  | new n granted => exact .new n granted
  | ref hb => exact .ref (place_append hb more)
  | unref hb => exact .unref (place_append hb more)
  | refs hb => exact .refs (place_append hb more)
  | data hb => exact .data (place_append hb more)
  | size hb => exact .size (place_append hb more)
  | write buf i v => exact .write buf i v

/-- What a call returns on bytes, and what it returns on blocks. -/
inductive SameValue (place : List Region) : Value Addr Addr → Value Nat Ptr → Prop where
  | null : SameValue place (.handle none) (.handle none)
  | handle {b : Nat} {r : Region} (h : place[b]? = some r) :
    SameValue place (.handle (some r.addr)) (.handle (some b))
  | refs (n : Int) : SameValue place (.refs n) (.refs n)
  | data {b : Nat} {r : Region} (h : place[b]? = some r) (off : BitVec 64) :
    SameValue place (.data (r.addr + off)) (.data { block := b, offset := off })
  | size (n : BitVec 64) : SameValue place (.size n) (.size n)

theorem SameValue.append {v : Value Addr Addr} {v' : Value Nat Ptr} (h : SameValue place v v')
    (more : List Region) : SameValue (place ++ more) v v' := by
  cases h with
  | null => exact .null
  | handle hb => exact .handle (place_append hb more)
  | refs n => exact .refs n
  | data hb off => exact .data (place_append hb more) off
  | size n => exact .size n

/-- A live buffer is a block. -/
theorem Represents.at_of_live (hr : Represents place heap h) {buf : Addr} (hl : Live h buf) :
    ∃ b blk r, At place heap b blk r ∧ r.addr = buf := by
  obtain ⟨r, hlive, haddr⟩ := hl
  obtain ⟨b, blk, hat⟩ := (hr.live r).mp hlive
  exact ⟨b, blk, r, hat, haddr⟩

theorem new_represents (hr : Represents place heap h) (hw : Wf h) {n : BitVec 64} {r : Region}
    (hg : Grants h.live (n + sizeofBuffer) r) (hlarge : 16 + n.toNat ≤ r.len) :
    Represents (place ++ [r])
      (heap ++ [{ refc := 1, size := n, request := n + sizeofBuffer, frees := 0 }])
      (exec h (.new n (some r))).1 := by
  have hnew : r ∉ h.live := by
    intro hlive
    have hlen : 0 < r.len := by omega
    exact Region.not_disjoint hlen hlen rfl (hg.apart r hlive)
  refine hr.new (hw.new hg hlarge).2 hnew rfl ?_ (size_new h n r)
  change refc (store64 _ (r.addr + 8) n) r.addr = 1
  rw [refc_store64]
  exact load32_store32 h.mem r.addr 1

theorem ref_represents (hr : Represents place heap h) (hw : Wf h) (hat : At place heap b blk r) :
    ∃ heap', CBuffer.buffer_ref b heap = .ok heap' ∧
      Represents place heap' (exec h (.ref r.addr)).1 := by
  obtain ⟨hrefc, hsize⟩ := hr.fields hat
  have hc : Changes r h.mem (store32 h.mem r.addr (refc h.mem r.addr + 1)) :=
    changes_store32 (refcAt_within (hw.large (hr.mem_live hat)))
  refine ⟨_, buffer_ref_eq (deref_eq hat.block hat.live), hr.store hw hat hc hat.live ?_ ?_⟩
  · rw [← hrefc]
    exact load32_store32 _ _ _
  · rw [size_store32, hsize]

theorem unref_represents (hr : Represents place heap h) (hw : Wf h)
    (hat : At place heap b blk r) : ∃ heap', CBuffer.buffer_unref b heap = .ok heap' ∧
      Represents place heap' (exec h (.unref r.addr)).1 := by
  obtain ⟨hrefc, hsize⟩ := hr.fields hat
  have hlive := hr.mem_live hat
  have hc : Changes r h.mem (store32 h.mem r.addr (refc h.mem r.addr - 1)) :=
    changes_store32 (refcAt_within (hw.large hlive))
  have hcount : refc (store32 h.mem r.addr (refc h.mem r.addr - 1)) r.addr = blk.refc - 1 := by
    rw [← hrefc]
    exact load32_store32 _ _ _
  have hstored : Represents place (heap.set b { blk with refc := blk.refc - 1 })
      { h with mem := store32 h.mem r.addr (refc h.mem r.addr - 1) } :=
    hr.store hw hat hc hat.live hcount (by rw [size_store32, hsize])
  refine ⟨_, buffer_unref_eq (deref_eq hat.block hat.live), ?_⟩
  unfold Block.unref
  simp only [exec, buffer_unref, hcount]
  split
  · -- The last reference: the block is freed behind the store.
    have hw' := hw.store hlive hc (size_store32 _)
    have hat' : At place (heap.set b { blk with refc := blk.refc - 1 }) b
        { blk with refc := blk.refc - 1 } r := (at_set hat).mpr (.inl ⟨rfl, rfl, rfl, hat.live⟩)
    have hfreed : ({ blk with refc := blk.refc - 1, frees := blk.frees + 1 } : Block).frees ≠ 0 :=
      Nat.succ_ne_zero _
    have hr' := hstored.free hw' hat' hfreed
    rwa [List.set_set] at hr'
  · exact hstored

/-- A client writes to its buffer. -/
theorem write_represents (hr : Represents place heap h) (hw : Wf h) (hat : At place heap b blk r)
    {i : Addr} (v : UInt8) (hi : i < size h.mem r.addr) :
    Represents place heap (exec h (.write r.addr i v)).1 := by
  have hlive := hr.mem_live hat
  have hroom := hw.room r hlive
  have hspace := hw.space r hlive
  have hi : i.toNat < (size h.mem r.addr).toNat := hi
  obtain ⟨hrefc, hsize⟩ := hr.fields hat
  have hc : Changes r h.mem (storeBytes h.mem (dataAt r.addr i).addr [v]) :=
    changes_storeBytes ((dataAt_within (by omega)).mpr (by omega))
  have hstored := hr.store hw hat hc hat.live
    ((refc_storeBytes (refcAt_dataAt (by omega))).trans hrefc)
    ((size_storeBytes (sizeAt_dataAt (by omega))).trans hsize)
  have hsame : heap.set b blk = heap := by
    obtain ⟨hb, hblk⟩ := List.getElem?_eq_some_iff.mp hat.block
    rw [← hblk, List.set_getElem_self]
  rwa [hsame] at hstored

/-- A call that adds no place. -/
theorem represents_call {op : Op} {call : CBuffer.Op} {v : Option (Value Nat Ptr)}
    {heap' : CBuffer.Heap} (hcall : SameCall place op [call])
    (hstep : CBuffer.step heap call = .ok (v, heap'))
    (hv : List.Forall₂ (SameValue place) (value h op).toList v.toList)
    (hr : Represents place heap' (exec h op).1) : ∃ more heap' calls values,
      SameCall place op calls ∧ CBuffer.run heap calls = .ok (values, heap') ∧
      List.Forall₂ (SameValue (place ++ more)) (value h op).toList values ∧
      Represents (place ++ more) heap' (exec h op).1 := by
  refine ⟨[], heap', [call], v.toList, hcall, ?_, ?_, ?_⟩
  · rw [CBuffer.run, hstep]
    change Except.ok (v.toList ++ [], heap') = _
    rw [List.append_nil]
  · rwa [List.append_nil]
  · rwa [List.append_nil]

/-- **A legal call on bytes is the call on blocks**, as long as no request wraps. -/
theorem step_represents (hr : Represents place heap h) (hw : Wf h) {op : Op} (hl : Legal h op)
    (hn : NoWrap op) : ∃ more heap' calls values, SameCall place op calls ∧
      CBuffer.run heap calls = .ok (values, heap') ∧
      List.Forall₂ (SameValue (place ++ more)) (value h op).toList values ∧
      Represents (place ++ more) heap' (exec h op).1 := by
  have hread : ∀ {b : Nat} {blk : Block} {r : Region}, At place heap b blk r →
      CBuffer.deref heap b = .ok blk := fun hat => deref_eq hat.block hat.live
  cases op with
  | new n granted =>
    cases granted with
    | none => exact represents_call (.new n none) rfl (.cons .null .nil) hr
    | some r =>
      refine ⟨[r], _, _, [.handle (some heap.length)], .new n (some r), ?_, ?_,
        new_represents hr hw hl (large_of_noWrap hl hn)⟩
      · rw [Option.isSome_some, CBuffer.run, CBuffer.step, buffer_new_eq hn]
        rfl
      · refine .cons (.handle ?_) .nil
        rw [← hr.length]
        exact List.getElem?_concat_length
  | ref buf =>
    obtain ⟨b, blk, r, hat, rfl⟩ := hr.at_of_live hl
    obtain ⟨heap', hstep, hr'⟩ := ref_represents hr hw hat
    refine represents_call (v := none) (.ref hat.place) ?_ .nil hr'
    rw [CBuffer.step, hstep]
    rfl
  | unref buf =>
    obtain ⟨b, blk, r, hat, rfl⟩ := hr.at_of_live hl
    obtain ⟨heap', hstep, hr'⟩ := unref_represents hr hw hat
    refine represents_call (v := none) (.unref hat.place) ?_ .nil hr'
    rw [CBuffer.step, hstep]
    rfl
  | refs buf =>
    obtain ⟨b, blk, r, hat, rfl⟩ := hr.at_of_live hl
    refine represents_call (v := some (.refs blk.refc.toInt)) (.refs hat.place) ?_ ?_ hr
    · rw [CBuffer.step, CBuffer.buffer_refs, hread hat]
      rfl
    · rw [value, buffer_refs, (hr.fields hat).1]
      exact .cons (.refs _) .nil
  | data buf =>
    obtain ⟨b, blk, r, hat, rfl⟩ := hr.at_of_live hl
    refine represents_call (v := some (.data { block := b, offset := sizeofBuffer }))
      (.data hat.place) ?_ (.cons (.data hat.place sizeofBuffer) .nil) hr
    rw [CBuffer.step, CBuffer.buffer_data, hread hat]
    rfl
  | size buf =>
    obtain ⟨b, blk, r, hat, rfl⟩ := hr.at_of_live hl
    refine represents_call (v := some (.size blk.size)) (.size hat.place) ?_ ?_ hr
    · rw [CBuffer.step, CBuffer.buffer_size, hread hat]
      rfl
    · rw [value, buffer_size, (hr.fields hat).2]
      exact .cons (.size _) .nil
  | write buf i v =>
    obtain ⟨hlive, hi⟩ := hl
    obtain ⟨b, blk, r, hat, rfl⟩ := hr.at_of_live hlive
    refine ⟨[], heap, [], [], .write r.addr i v, rfl, .nil, ?_⟩
    rw [List.append_nil]
    exact write_represents hr hw hat v hi

/-! ## Runs -/

/-- The heap behind a run. -/
def after (h : Heap) (ops : List Op) : Heap := ops.foldl (fun h op => (exec h op).1) h

/-- What the calls of a run return. -/
def results (h : Heap) : List Op → List (Value Addr Addr)
  | [] => []
  | op :: ops => (value h op).toList ++ results (exec h op).1 ops

theorem run_represents_from : ∀ {ops : List Op} {place : List Region} {heap : CBuffer.Heap}
    {h : Heap}, Represents place heap h → Wf h → LegalRun h ops → (∀ op ∈ ops, NoWrap op) →
    ∃ more heap' calls values, List.Forall₂ (SameCall (place ++ more)) ops calls ∧
      CBuffer.run heap calls.flatten = .ok (values, heap') ∧
      List.Forall₂ (SameValue (place ++ more)) (results h ops) values ∧
      Represents (place ++ more) heap' (after h ops)
  | [], place, heap, h, hr, _, _, _ => by
    refine ⟨[], heap, [], [], .nil, rfl, .nil, ?_⟩
    rwa [List.append_nil]
  | op :: ops, place, heap, h, hr, hw, hl, hn => by
    have hop := hn op List.mem_cons_self
    obtain ⟨more, heap₁, calls, values, hcall, hstep, hvalues, hr₁⟩ :=
      step_represents hr hw hl.1 hop
    obtain ⟨more', heap₂, calls', values', hcalls, hrun, hvalues', hr₂⟩ := run_represents_from hr₁
      (step_isolated hw hl.1 hop).2 hl.2 fun op' h' => hn op' (List.mem_cons_of_mem op h')
    rw [List.append_assoc] at hcalls hvalues' hr₂
    have hvalues := hvalues.imp fun _ _ hv => hv.append more'
    rw [List.append_assoc] at hvalues
    refine ⟨more ++ more', heap₂, calls :: calls', values ++ values',
      .cons (hcall.append _) hcalls, ?_, List.rel_append hvalues hvalues', hr₂⟩
    rw [List.flatten_cons]
    exact run_append hstep hrun

/-- **A run on bytes is a run on blocks.** No call of it goes to a buffer that was freed, the calls
return the same, and the buffers that are live stand in memory with their counters and sizes. -/
theorem run_represents {mem : Mem} {ops : List Op} (hl : LegalRun (start mem) ops)
    (hn : ∀ op ∈ ops, NoWrap op) : ∃ place heap calls values,
      List.Forall₂ (SameCall place) ops calls ∧ CBuffer.run [] calls.flatten = .ok (values, heap) ∧
      List.Forall₂ (SameValue place) (results (start mem) ops) values ∧
      Represents place heap (after (start mem) ops) :=
  run_represents_from (represents_start mem) (wf_start mem) hl hn

/-- A buffer that is written to and given up, and another one. -/
def twoBuffers : List Op :=
  [.new 4 (some ⟨4096, 20⟩), .write 4096 3 7, .new 1 (some ⟨8192, 17⟩), .unref 4096]

theorem legal_twoBuffers : LegalRun (start fun _ => 0) twoBuffers := by
  have hfirst : Grants [] (4 + sizeofBuffer) ⟨4096, 20⟩ :=
    ⟨by decide, by decide, by decide, nofun⟩
  have hsecond : Grants [⟨4096, 20⟩] (1 + sizeofBuffer) ⟨8192, 17⟩ := by
    refine ⟨by decide, by decide, by decide, ?_⟩
    intro b hb
    rw [List.mem_singleton.mp hb]
    exact Region.disjoint_of_le (by decide) (by decide)
  have hlive : ∀ {h : Heap} {more : List Region}, h.live = ⟨4096, 20⟩ :: more → Live h 4096 :=
    fun hl => ⟨⟨4096, 20⟩, hl ▸ List.mem_cons_self, rfl⟩
  refine ⟨hfirst, ⟨hlive rfl, ?_⟩, hsecond, hlive rfl, trivial⟩
  rw [size_new (start fun _ => 0) 4 ⟨4096, 20⟩]
  decide

theorem noWrap_twoBuffers : ∀ op ∈ twoBuffers, NoWrap op := by
  simp [twoBuffers, NoWrap, sizeofBuffer]

theorem run_represents_two : ∃ place heap calls values,
    List.Forall₂ (SameCall place) twoBuffers calls ∧
      CBuffer.run [] calls.flatten = .ok (values, heap) ∧
      List.Forall₂ (SameValue place) (results (start fun _ => 0) twoBuffers) values ∧
      Represents place heap (after (start fun _ => 0) twoBuffers) :=
  run_represents legal_twoBuffers noWrap_twoBuffers

end OsProg.CBuffer.Memory
