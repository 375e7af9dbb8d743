import OsProg.Png.Loaded

/-!
# Memory safety of the reader

Which files the reader handles without an access out of bounds.

* `pngInfo_inBounds_iff` — for an arbitrary byte string
* `pngInfo_framed` — for a file of complete chunks, together with the result

Nothing in the program checks the two relations that `SafeBody` names. `strlen` needs the
NUL, and the copy into `keyword` takes the whole body where the keyword and its NUL were
meant.
-/

namespace OsProg.Png

open Infra

variable (u : Uninit)

/-- All accesses of the constructor are in bounds. -/
def InBounds (bytes : Bytes) : Prop :=
  ∀ f png, pngInfo u (some bytes) ≠ .stopped (.fault f) png

/-- Every tEXt body that stands whole behind the signature and complete chunks, with every
IHDR among them 13 bytes long, is one the reader handles. -/
def TextSafe (bytes : Bytes) : Prop :=
  ∀ (cs : List Chunk) (body r : Bytes), (∀ c ∈ cs, c.Sized) → body.length < 2 ^ 32 →
    bytes = pngHdr ++ (encodeAll cs
      ++ (be32Bytes (UInt32.ofNat body.length) ++ typeTEXT ++ (body ++ r))) →
    0 ∈ body ∧ body.length ≤ 80

/-- A body the reader cannot handle is a fault, whatever follows it. -/
theorem pngInfo_unsafe (cs : List Chunk) (hcs : ∀ c ∈ cs, c.Sized) {c : Chunk} (hc : ¬c.Safe)
    (r : Bytes) : ∃ f png,
      pngInfo u (some (pngHdr ++ (encodeAll cs ++ (c.header ++ (c.body ++ r)))))
        = .stopped (.fault f) png := by
  rw [pngInfo_signature, chunkLoop_encodeAll]
  by_cases hsafe : ∀ d ∈ cs, d.Safe
  · obtain ⟨png, hpng, -⟩ := loadAll_safe u cs hcs hsafe u.png
    obtain ⟨f, hf⟩ := load_unsafe u hc png
    rw [hpng]
    exact ⟨f, png, chunkLoop_error u hf r⟩
  · simp only [not_forall] at hsafe
    obtain ⟨d, hd, hbad⟩ := hsafe
    obtain ⟨f, png, hf⟩ := loadAll_unsafe u hcs ⟨d, hd, hbad⟩ u.png
    rw [hf]
    exact ⟨f, png, rfl⟩

/-- A fault of the constructor comes from a whole body behind sized chunks. -/
theorem exists_unsafe_of_fault {bytes : Bytes} {f : Fault} {png : PngInfo}
    (h : pngInfo u (some bytes) = .stopped (.fault f) png) :
    ∃ (cs : List Chunk) (c : Chunk) (r : Bytes), (∀ d ∈ cs, d.Sized) ∧ ¬c.Safe ∧
      bytes = pngHdr ++ (encodeAll cs ++ (c.header ++ (c.body ++ r))) := by
  rcases exists_of_stopped u h with
    ⟨_, err, he⟩ | ⟨cs, c, _, hcs, hbytes, ⟨⟨r, rfl⟩, hload⟩ | ⟨_, he⟩⟩
  · cases he
  · exact ⟨cs, c, r, fun d hd => (sized_safe_of_loadAll u hcs d hd).1,
      not_safe_of_load_fault u hload, hbytes⟩
  · cases he

theorem textSafe_of_inBounds {bytes : Bytes} (h : InBounds u bytes) : TextSafe bytes := by
  intro cs body r hcs hlt hbytes
  by_contra hbad
  have hc : ¬(textChunk body hlt).Safe := fun hsafe => hbad (hsafe rfl)
  obtain ⟨f, png, hf⟩ := pngInfo_unsafe u cs hcs hc r
  exact h f png (hbytes ▸ hf)

theorem inBounds_of_textSafe {bytes : Bytes} (h : TextSafe bytes) : InBounds u bytes := by
  intro f png hf
  obtain ⟨cs, c, r, hcs, hc, hbytes⟩ := exists_unsafe_of_fault u hf
  rw [Chunk.Safe, Classical.not_imp] at hc
  have htype : c.type = typeTEXT := by simpa [Chunk.isTEXT] using hc.1
  exact hc.2 (h cs c.body r hcs c.body_lt (by rw [hbytes, Chunk.header, htype]))

/-- **The files the reader handles without an access out of bounds.** -/
theorem pngInfo_inBounds_iff (bytes : Bytes) : InBounds u bytes ↔ TextSafe bytes :=
  ⟨textSafe_of_inBounds u, inBounds_of_textSafe u⟩

/-- A file with one tEXt chunk: keyword `A`, a NUL and 79 bytes of text. -/
def longText : Bytes :=
  pngHdr ++ [0, 0, 0, 81] ++ typeTEXT ++ [0x41, 0] ++ List.replicate 79 0x42 ++ [0, 0, 0, 0]

/-- The copy into `keyword` writes its 81st byte. -/
theorem not_inBounds_longText : ¬InBounds zeroed longText := by
  have hc : ¬(textChunk ([0x41, 0] ++ List.replicate 79 0x42) (by decide)).Safe := by decide
  obtain ⟨f, png, hf⟩ := pngInfo_unsafe zeroed [] (by simp) hc [0, 0, 0, 0]
  exact fun h => h f png hf

/-! ## Files of complete chunks -/

/-- **The exact safe domain and the result.** A file of complete chunks and less than a chunk
header is read in bounds exactly when every tEXt body is handled, and is then read as its
chunks say. -/
theorem pngInfo_framed (cs : List Chunk) (trail : Bytes) (hcs : ∀ c ∈ cs, c.Sized)
    (htrail : trail.length < 8) :
    (InBounds u (pngHdr ++ (encodeAll cs ++ trail)) ↔ ∀ c ∈ cs, c.isTEXT → SafeBody c.body) ∧
    ((∀ c ∈ cs, c.isTEXT → SafeBody c.body) →
      ∃ png, pngInfo u (some (pngHdr ++ (encodeAll cs ++ trail))) = .returned png ∧
        png.texts = (cs.filter Chunk.isTEXT).map
          (fun c => (some (beforeNul c.body), beforeNul (afterNul c.body))) ∧
        ∀ c ∈ (cs.filter Chunk.isIHDR).getLast?, png.hdr = IhdrChunk.decode c.body) := by
  have hrun : pngInfo u (some (pngHdr ++ (encodeAll cs ++ trail))) = loadAll u cs u.png := by
    rw [pngInfo_signature, chunkLoop_encodeAll]
    cases loadAll u cs u.png with
    | returned png => exact chunkLoop_short u htrail png
    | stopped e png => rfl
  have hok : (∀ c ∈ cs, c.Safe) → ∃ png, loadAll u cs u.png = .returned png ∧
      png.texts = u.png.texts ++ textsOf cs ∧ png.hdr = hdrOf cs u.png.hdr :=
    fun hsafe => loadAll_safe u cs hcs hsafe u.png
  refine ⟨⟨?_, ?_⟩, ?_⟩
  · intro h
    by_contra hbad
    simp only [not_forall] at hbad
    obtain ⟨c, hc, hT, hbody⟩ := hbad
    obtain ⟨f, png, hf⟩ := loadAll_unsafe u hcs ⟨c, hc, fun hsafe => hbody (hsafe hT)⟩ u.png
    exact h f png (hrun.trans hf)
  · intro hsafe f png hf
    obtain ⟨png', hpng, -⟩ := hok hsafe
    rw [hrun, hpng] at hf
    cases hf
  · intro hsafe
    obtain ⟨png, hpng, htexts, hhdr⟩ := hok hsafe
    refine ⟨png, hrun.trans hpng, htexts, ?_⟩
    intro c hc
    rw [hhdr, hdrOf, Option.mem_def.mp hc]
    rfl

theorem pngInfo_framed_small :
    (∀ c ∈ [smallIHDR, smallTEXT], c.Sized) ∧ [0x7].length < 8 ∧
      InBounds zeroed (pngHdr ++ (encodeAll [smallIHDR, smallTEXT] ++ [0x7])) :=
  ⟨by decide, by decide,
    (pngInfo_framed zeroed [smallIHDR, smallTEXT] [0x7] (by decide) (by decide)).1.mpr (by decide)⟩

end OsProg.Png
