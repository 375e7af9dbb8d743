import OsProg.Png.Loaded

/-!
# Files that are cut

What the constructor makes of a prefix of a good file.

* `throws_iff` — a cut inside a chunk is reported exactly when it is inside the body
* `prefix_consistent` — what is accepted is a prefix of what the whole file holds

A cut in a chunk header ends the loop like the end of the file. A cut in a checksum is what
`Can't read chunk checksum` was meant to report, but `ignore` sets only `eofbit` there, and
`!file` does not look at `eofbit`.
-/

namespace OsProg.Png

open Infra

variable (u : Uninit)

/-- The constructor throws. -/
def Throws (bytes : Bytes) : Prop :=
  ∃ e png, pngInfo u (some bytes) = .stopped (.thrown e) png

/-! ## A cut inside a chunk -/

/-- A prefix that ends inside the chunk behind `cs`. -/
theorem take_inside (cs ds : List Chunk) (c : Chunk) {k : Nat} (hk : k < c.encode.length) :
    (pngHdr ++ encodeAll (cs ++ c :: ds)).take (8 + (encodeAll cs).length + k)
      = pngHdr ++ (encodeAll cs ++ c.encode.take k) := by
  rw [encodeAll_append, encodeAll_cons, ← List.append_assoc pngHdr,
    show 8 + (encodeAll cs).length + k = (pngHdr ++ encodeAll cs).length + k by
      rw [List.length_append]; rfl,
    List.take_length_add_append, List.take_append_of_le_length (Nat.le_of_lt hk),
    List.append_assoc]

/-- **A cut is reported exactly when it is inside the body.** The cut comes after `k` bytes
of the chunk `c`, with `cs` before it. -/
theorem throws_iff (cs ds : List Chunk) (c : Chunk) (k : Nat)
    (hcs : ∀ d ∈ cs ++ c :: ds, d.Sized ∧ d.Safe) (hk : k < c.encode.length) :
    Throws u ((pngHdr ++ encodeAll (cs ++ c :: ds)).take (8 + (encodeAll cs).length + k))
      ↔ 8 ≤ k ∧ k < 8 + c.body.length := by
  have hmem : ∀ d ∈ cs, d.Sized ∧ d.Safe := fun d hd => hcs d (List.mem_append_left _ hd)
  have hc : c.Sized ∧ c.Safe := hcs c (List.mem_append_right _ List.mem_cons_self)
  obtain ⟨png, hpng, -⟩ := loadAll_safe u cs (fun d hd => (hmem d hd).1) (fun d hd => (hmem d hd).2)
    u.png
  obtain ⟨png', hpng', -⟩ := load_safe u hc.1 hc.2 png
  rw [take_inside cs ds c hk, Throws, pngInfo_chunks u cs c hk, hpng]
  simp only [Ended.andThen, Chunk.loadCut, loadAll, hpng']
  by_cases h8 : k < 8
  · rw [if_pos h8]
    simp
    omega
  · rw [if_neg h8]
    by_cases hbody : k < 8 + c.body.length
    · rw [if_pos hbody]
      simp
      omega
    · rw [if_neg hbody]
      simp
      omega

theorem throws_smallImage :
    Throws zeroed ((pngHdr ++ encodeAll ([smallIHDR] ++ [smallTEXT])).take (8 + 25 + 9)) :=
  (throws_iff zeroed [smallIHDR] [] smallTEXT 9 (by decide) (by decide)).mpr (by decide)

/-- A file that lacks the last byte of its last checksum is accepted. -/
theorem not_throws_smallImage :
    ¬Throws zeroed ((pngHdr ++ encodeAll [smallIHDR, smallTEXT]).take 47) := by
  have hrun := pngInfo_chunks zeroed [smallIHDR] smallTEXT (k := 14) (by decide)
  rintro ⟨e, png, h⟩
  rw [show (pngHdr ++ encodeAll [smallIHDR, smallTEXT]).take 47
    = pngHdr ++ (encodeAll [smallIHDR] ++ smallTEXT.encode.take 14) from rfl, hrun] at h
  cases h

/-! ## Any prefix -/

/-- The chunks whose body lies wholly in the first `n` bytes of the encoding. -/
def wholeBodies : Nat → List Chunk → List Chunk
  | _, [] => []
  | n, c :: cs => if 8 + c.body.length ≤ n then c :: wholeBodies (n - c.encode.length) cs else []

theorem wholeBodies_zero (cs : List Chunk) : wholeBodies 0 cs = [] := by
  cases cs with
  | nil => rfl
  | cons c cs => simp [wholeBodies]

theorem wholeBodies_front : ∀ (n : Nat) (cs : List Chunk), wholeBodies n cs <+: cs
  | _, [] => List.prefix_rfl
  | n, c :: cs => by
    rw [wholeBodies]
    split
    · exact List.cons_prefix_cons.mpr ⟨rfl, wholeBodies_front _ cs⟩
    · exact List.nil_prefix

theorem wholeBodies_all : ∀ {n : Nat} {cs : List Chunk}, (encodeAll cs).length ≤ n →
    wholeBodies n cs = cs
  | _, [], _ => rfl
  | n, c :: cs, h => by
    rw [encodeAll_cons, List.length_append, c.encode_length] at h
    rw [wholeBodies, if_pos (by omega), wholeBodies_all (by rw [c.encode_length]; omega)]

/-- A prefix throws, or loads the chunks whose bodies it holds. -/
theorem chunkLoop_front : ∀ {cs : List Chunk}, (∀ c ∈ cs, c.Sized ∧ c.Safe) → ∀ (n : Nat) png,
    (∃ e png', chunkLoop u ⟨IStream.ofBytes ((encodeAll cs).take n), png⟩
      = .stopped (.thrown e) png') ∨
    chunkLoop u ⟨IStream.ofBytes ((encodeAll cs).take n), png⟩
      = loadAll u (wholeBodies n cs) png
  | [], _, n, png => by
    rw [encodeAll_nil, List.take_nil]
    exact .inr (chunkLoop_short u (by decide) png)
  | c :: cs, hcs, n, png => by
    obtain ⟨hsize, hsafe⟩ := hcs c List.mem_cons_self
    obtain ⟨png₁, hload, -⟩ := load_safe u hsize hsafe png
    rw [encodeAll_cons]
    by_cases hn : c.encode.length ≤ n
    · have hbody : 8 + c.body.length ≤ n := by
        rw [c.encode_length] at hn
        omega
      rw [List.take_append, List.take_of_length_le hn, chunkLoop_encode, wholeBodies,
        if_pos hbody]
      simp only [loadAll, hload, Ended.andThen]
      exact chunkLoop_front (fun d hd => hcs d (List.mem_cons_of_mem _ hd)) _ png₁
    · rw [List.take_append_of_le_length (by omega), chunkLoop_take u c (by omega), Chunk.loadCut,
        wholeBodies]
      by_cases h8 : n < 8
      · rw [if_pos h8, if_neg (by omega)]
        exact .inr rfl
      rw [if_neg h8]
      by_cases hbody : n < 8 + c.body.length
      · rw [if_pos hbody]
        exact .inl ⟨_, _, rfl⟩
      · rw [if_neg hbody, if_pos (by omega), show n - c.encode.length = 0 by omega,
          wholeBodies_zero]
        exact .inr rfl

/-- **A cut file never yields invented data.** A prefix `p` of a good file throws, or it
returns with texts that are a prefix of the texts of the file and with the fields of the last
IHDR whose body it holds. The two runs may find different contents in uninitialised memory. -/
theorem prefix_consistent (u' : Uninit) (cs : List Chunk) (hcs : ∀ c ∈ cs, c.Sized ∧ c.Safe)
    (p : Bytes) (hp : p <+: pngHdr ++ encodeAll cs) :
    Throws u p ∨ ∃ png pngF, pngInfo u (some p) = .returned png ∧
      pngInfo u' (some (pngHdr ++ encodeAll cs)) = .returned pngF ∧
      png.texts <+: pngF.texts ∧
      ∀ c ∈ ((wholeBodies (p.length - 8) cs).filter Chunk.isIHDR).getLast?,
        png.hdr = IhdrChunk.decode c.body := by
  have hok : ∀ (v : Uninit) (n : Nat), ∃ png, loadAll v (wholeBodies n cs) v.png = .returned png ∧
      png.texts = v.png.texts ++ textsOf (wholeBodies n cs)
      ∧ png.hdr = hdrOf (wholeBodies n cs) v.png.hdr := by
    intro v n
    have hsub := (wholeBodies_front n cs).subset
    exact loadAll_safe v _ (fun c hc => (hcs c (hsub hc)).1) (fun c hc => (hcs c (hsub hc)).2) v.png
  by_cases hsig : pngHdr <+: p
  · obtain ⟨q, rfl⟩ := hsig
    have hq : q = (encodeAll cs).take q.length :=
      List.prefix_iff_eq_take.mp ((List.prefix_append_right_inj _).mp hp)
    have hlen : (pngHdr ++ q).length - 8 = q.length := by
      rw [List.length_append]
      exact Nat.add_sub_cancel_left 8 _
    have hrun := chunkLoop_front u hcs q.length u.png
    rw [← hq] at hrun
    rw [Throws, pngInfo_signature, hlen]
    rcases hrun with hthrow | hload
    · exact .inl hthrow
    · obtain ⟨png, hpng, htexts, hhdr⟩ := hok u q.length
      obtain ⟨pngF, hpngF, htextsF, -⟩ := hok u' (encodeAll cs).length
      rw [wholeBodies_all (Nat.le_refl _)] at hpngF htextsF
      refine .inr ⟨png, pngF, hload.trans hpng, ?_, ?_, ?_⟩
      · rw [← List.append_nil (encodeAll cs), pngInfo_signature, chunkLoop_encodeAll, hpngF]
        exact chunkLoop_short u' (by decide) pngF
      · obtain ⟨ds, hds⟩ := wholeBodies_front q.length cs
        have hsplit : textsOf cs = textsOf (wholeBodies q.length cs) ++ textsOf ds := by
          rw [← textsOf_append, hds]
        rw [htexts, htextsF, hsplit]
        exact List.prefix_append _ _
      · intro c hc
        rw [hhdr, hdrOf, Option.mem_def.mp hc]
        rfl
  · exact .inl ⟨_, _, pngInfo_reject u hsig⟩

theorem prefix_consistent_smallImage :
    Throws zeroed ((pngHdr ++ encodeAll [smallIHDR, smallTEXT]).take 30) ∨ ∃ png pngF,
      pngInfo zeroed (some ((pngHdr ++ encodeAll [smallIHDR, smallTEXT]).take 30)) = .returned png ∧
      pngInfo zeroed (some (pngHdr ++ encodeAll [smallIHDR, smallTEXT])) = .returned pngF ∧
      png.texts <+: pngF.texts ∧
      ∀ c ∈ ((wholeBodies (((pngHdr ++ encodeAll [smallIHDR, smallTEXT]).take 30).length - 8)
        [smallIHDR, smallTEXT]).filter Chunk.isIHDR).getLast?,
        png.hdr = IhdrChunk.decode c.body :=
  prefix_consistent zeroed zeroed [smallIHDR, smallTEXT] (by decide) _ (List.take_prefix 30 _)

end OsProg.Png
