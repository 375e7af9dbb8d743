import OsProg.Png.Loaded

/-!
# Chunks the reader does not know

`Ended.outcome` is what a run shows: its exception or fault, or the fields of `hdr` and the
stored texts. It does not depend on what the array `keyword` held before (`outcome_congr`),
and a chunk of another type does not change it, wherever it is put and whatever follows it
(`pngInfo_insert`).
-/

namespace OsProg.Png

open Infra

variable {u u' : Uninit}

/-- What can be seen of an object. -/
def PngInfo.view (png : PngInfo) : IhdrChunk × List (Option Bytes × Bytes) := (png.hdr, png.texts)

/-- What can be seen of a run. -/
def Ended.outcome : Ended → Except Failure (IhdrChunk × List (Option Bytes × Bytes))
  | .returned png => .ok png.view
  | .stopped e _ => .error e

/-! ## The old contents of `keyword` do not show -/

theorem view_load_congr (c : Chunk) {png png' : PngInfo} (h : png.view = png'.view) :
    (c.load u png).map PngInfo.view = (c.load u' png').map PngInfo.view := by
  obtain ⟨hhdr, htexts⟩ := Prod.mk.inj h
  rw [Chunk.load, Chunk.load]
  split
  · split
    · show Except.ok (_, png.texts) = Except.ok (_, png'.texts)
      rw [htexts]
    · rfl
  · split
    · split
      · next h0 =>
        split
        · next h80 =>
          show Except.ok (png.hdr, _) = Except.ok (png'.hdr, _)
          rw [hhdr, texts_addText u h80 h0, texts_addText u' h80 h0, htexts]
        · rfl
      · rfl
    · show Except.ok png.view = Except.ok png'.view
      rw [h]

theorem outcome_loadAll_congr : ∀ (cs : List Chunk) {png png' : PngInfo}, png.view = png'.view →
    (loadAll u cs png).outcome = (loadAll u' cs png').outcome
  | [], _, _, h => congrArg Except.ok h
  | c :: cs, png, png', h => by
    have hc : (c.load u png).map PngInfo.view = (c.load u' png').map PngInfo.view :=
      view_load_congr c h
    rw [loadAll, loadAll]
    cases h₁ : c.load u png with
    | error e =>
      rw [h₁] at hc
      cases h₂ : c.load u' png' with
      | error e' =>
        rw [h₂] at hc
        cases hc
        rfl
      | ok _ => rw [h₂] at hc; cases hc
    | ok png₁ =>
      rw [h₁] at hc
      cases h₂ : c.load u' png' with
      | error _ => rw [h₂] at hc; cases hc
      | ok png₂ =>
        rw [h₂] at hc
        exact outcome_loadAll_congr cs (Except.ok.inj hc)

theorem outcome_loadCut_congr (c : Chunk) (k : Nat) {png png' : PngInfo}
    (h : png.view = png'.view) : (c.loadCut u k png).outcome = (c.loadCut u' k png').outcome := by
  rw [Chunk.loadCut, Chunk.loadCut]
  split
  · exact congrArg Except.ok h
  · split
    · rfl
    · exact outcome_loadAll_congr [c] h

theorem outcome_andThen_congr {x x' : Ended} {f f' : PngInfo → Ended}
    (hx : x.outcome = x'.outcome)
    (hf : ∀ png png' : PngInfo, png.view = png'.view → (f png).outcome = (f' png').outcome) :
    (x.andThen f).outcome = (x'.andThen f').outcome := by
  cases x with
  | returned png =>
    cases x' with
    | returned png' => exact hf png png' (Except.ok.inj hx)
    | stopped _ _ => cases hx
  | stopped e _ =>
    cases x' with
    | returned _ => cases hx
    | stopped e' _ => exact hx

/-- **Of the uninitialised memory only that of `hdr` can show.** -/
theorem outcome_congr (h : u.hdr = u'.hdr) (contents : Option Bytes) :
    (pngInfo u contents).outcome = (pngInfo u' contents).outcome := by
  have hpng : u.png.view = u'.png.view := by
    rw [PngInfo.view, Uninit.png, h]
    rfl
  cases contents with
  | none => rfl
  | some bytes =>
    by_cases hsig : pngHdr <+: bytes
    · obtain ⟨p, rfl⟩ := hsig
      obtain ⟨cs, c, k, hk, rfl⟩ := exists_chunks_take p
      rw [pngInfo_chunks u cs c hk, pngInfo_chunks u' cs c hk]
      exact outcome_andThen_congr (outcome_loadAll_congr cs hpng)
        fun _ _ hv => outcome_loadCut_congr c k hv
    · rw [pngInfo_reject u hsig, pngInfo_reject u' hsig]
      rfl

/-! ## Transparency -/

theorem loadAll_unknown {x : Chunk} (hI : x.isIHDR = false) (hT : x.isTEXT = false)
    (png : PngInfo) : loadAll u [x] png = .returned png := by
  simp [loadAll, Chunk.load, hI, hT]

/-- **Unknown chunks are transparent.** Behind any complete chunks `cs` and in front of any
bytes `r`, a complete chunk of another type changes nothing. The two runs may find different
contents in the uninitialised arrays. -/
theorem pngInfo_insert (h : u.hdr = u'.hdr) (cs : List Chunk) (x : Chunk)
    (hI : x.isIHDR = false) (hT : x.isTEXT = false) (r : Bytes) :
    (pngInfo u (some (pngHdr ++ (encodeAll cs ++ r)))).outcome
      = (pngInfo u' (some (pngHdr ++ (encodeAll cs ++ (x.encode ++ r))))).outcome := by
  rw [outcome_congr h, pngInfo_signature, pngInfo_signature, chunkLoop_encodeAll,
    chunkLoop_encodeAll]
  congr 2
  funext png
  rw [chunkLoop_encode, loadAll_unknown hI hT]
  rfl

/-- A chunk of type `gAMA` whose body looks like the header of a tEXt chunk. -/
def smallGAMA : Chunk :=
  { type := [0x67, 0x41, 0x4D, 0x41], body := [0, 0, 0, 1] ++ typeTEXT, crc := [5, 6, 7, 8],
    type_length := rfl, body_lt := by decide, crc_length := rfl }

theorem pngInfo_insert_small :
    (pngInfo zeroed (some (pngHdr ++ (encodeAll [smallIHDR] ++ [0, 1, 2])))).outcome
      = (pngInfo zeroed
          (some (pngHdr ++ (encodeAll [smallIHDR] ++ (smallGAMA.encode ++ [0, 1, 2]))))).outcome :=
  pngInfo_insert rfl [smallIHDR] smallGAMA (by decide) (by decide) [0, 1, 2]

end OsProg.Png
