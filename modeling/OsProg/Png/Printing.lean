import OsProg.Infra.Printf
import OsProg.Png.Transparent
import Mathlib.Algebra.Ring.Int.Defs

/-!
# What `main` prints

`main` of `l10/pnginfo.cpp`, and when its output is determined by the file. Each stored
keyword ends inside the bytes copied from the file, so only `hdr` can print uninitialised
memory, and it does so exactly when the file holds no IHDR (`main_determined_iff`): nothing
checks that there was one.
-/

namespace OsProg.Png

open Infra

/-! ## Formatting -/

/-- A `uint32_t` passed for `%d`. -/
def toInt (w : UInt32) : Int := if w.toNat < 2 ^ 31 then w.toNat else w.toNat - 2 ^ 32

/-- `"%s: %dx%d\n"`. -/
def dimensionsLine (fname : Bytes) (hdr : IhdrChunk) : Bytes :=
  fname ++ [0x3A, 0x20] ++ formatD (toInt hdr.width) ++ [0x78] ++ formatD (toInt hdr.height)
    ++ [0x0A]

/-- `"%s: %s\n"`, or `none` when the keyword runs off its array. -/
def textLine (record : Option Bytes × Bytes) : Option Bytes :=
  record.1.map fun keyword => keyword ++ [0x3A, 0x20] ++ record.2 ++ [0x0A]

def textLines : List (Option Bytes × Bytes) → Option Bytes
  | [] => some []
  | record :: records => do
    let line ← textLine record
    let lines ← textLines records
    some (line ++ lines)

/-! ## `main` -/

/-- How the process ends. -/
inductive Exit where
  | status (code : Nat) (stdout : Bytes)
  | uncaught (e : PngError)
  | fault (f : Fault)
  deriving DecidableEq

variable (u : Uninit)

/-- `main(argc, argv)`, with the contents of the files that open. -/
def main (files : Bytes → Option Bytes) (argv : List Bytes) : Exit :=
  match argv with
  | _ :: fname :: _ =>
    match pngInfo u (files fname) with
    | .stopped (.thrown e) _ => .uncaught e
    | .stopped (.fault f) _ => .fault f
    | .returned png =>
      match textLines png.texts with
      | some lines => .status 0 (dimensionsLine fname png.hdr ++ lines)
      | none => .fault .printf
  | _ => .status 1 []

/-- The file holds the whole body of an IHDR behind its signature and complete chunks. -/
def HasIHDR (bytes : Bytes) : Prop :=
  ∃ (cs : List Chunk) (c : Chunk) (r : Bytes), c.isIHDR = true ∧
    bytes = pngHdr ++ (encodeAll cs ++ (c.header ++ (c.body ++ r)))

/-! ## Accepted files -/

/-- The chunks that an accepted file loads: a last one whose body is whole counts. -/
def loaded (cs : List Chunk) (c : Chunk) (k : Nat) : List Chunk :=
  if k < 8 then cs else cs ++ [c]

/-- **Acceptance and the result in terms of the chunks**, for any uninitialised memory. -/
theorem pngInfo_loaded {cs : List Chunk} {c : Chunk} {k : Nat} (hk : k < c.encode.length)
    {png : PngInfo}
    (h : pngInfo u (some (pngHdr ++ (encodeAll cs ++ c.encode.take k))) = .returned png)
    (v : Uninit) : (k < 8 ∨ 8 + c.body.length ≤ k) ∧
      ∃ png', pngInfo v (some (pngHdr ++ (encodeAll cs ++ c.encode.take k))) = .returned png' ∧
        png'.texts = textsOf (loaded cs c k) ∧ png'.hdr = hdrOf (loaded cs c k) v.hdr := by
  rw [pngInfo_chunks u cs c hk] at h
  rw [pngInfo_chunks v cs c hk]
  cases hcs : loadAll u cs u.png with
  | stopped e png' =>
    rw [hcs] at h
    cases h
  | returned png₁ =>
    have hgood := sized_safe_of_loadAll u hcs
    rw [hcs] at h
    simp only [Ended.andThen, Chunk.loadCut] at h
    by_cases h8 : k < 8
    · obtain ⟨png', hpng', hres⟩ := loadAll_safe v cs (fun d hd => (hgood d hd).1)
        (fun d hd => (hgood d hd).2) v.png
      rw [loaded, if_pos h8]
      refine ⟨.inl h8, png', ?_, hres⟩
      rw [hpng']
      simp only [Ended.andThen, Chunk.loadCut, if_pos h8]
    · rw [if_neg h8] at h
      by_cases hbody : k < 8 + c.body.length
      · rw [if_pos hbody] at h
        cases h
      · rw [if_neg hbody] at h
        have hall : ∀ d ∈ cs ++ [c], d.Sized ∧ d.Safe := by
          intro d hd
          rcases List.mem_append.mp hd with hd | hd
          · exact hgood d hd
          · exact sized_safe_of_loadAll u h d hd
        obtain ⟨png', hpng', hres⟩ := loadAll_safe v (cs ++ [c]) (fun d hd => (hall d hd).1)
          (fun d hd => (hall d hd).2) v.png
        rw [loaded, if_neg h8]
        refine ⟨.inr (Nat.not_lt.mp hbody), png', ?_, hres⟩
        rw [loadAll_append] at hpng'
        rw [← hpng']
        congr 1
        funext png₂
        rw [Chunk.loadCut, if_neg h8, if_neg hbody]

theorem hdrOf_of_mem {cs : List Chunk} {c : Chunk} (hc : c ∈ cs) (hI : c.isIHDR = true)
    (hdr hdr' : IhdrChunk) : hdrOf cs hdr = hdrOf cs hdr' := by
  have hmem : c ∈ cs.filter Chunk.isIHDR := List.mem_filter.mpr ⟨hc, hI⟩
  rw [hdrOf, hdrOf, List.getLast?_eq_some_getLast (List.ne_nil_of_mem hmem)]
  rfl

theorem hdrOf_of_not_mem {cs : List Chunk} (h : ∀ c ∈ cs, ¬c.isIHDR = true) (hdr : IhdrChunk) :
    hdrOf cs hdr = hdr := by
  rw [hdrOf, List.filter_eq_nil_iff.mpr h]
  rfl

/-- A file with an IHDR, framed so that the IHDR is among the chunks to load. -/
theorem HasIHDR.frame {bytes : Bytes} (h : HasIHDR bytes) :
    ∃ (cs : List Chunk) (c : Chunk), ∃ k < c.encode.length,
      bytes = pngHdr ++ (encodeAll cs ++ c.encode.take k) ∧
        ((∃ d ∈ cs, d.isIHDR = true) ∨ 8 + c.body.length ≤ k ∧ c.isIHDR = true) := by
  obtain ⟨cs, c, r, hI, rfl⟩ := h
  obtain ⟨d, htype, hframe⟩ := exists_chunk_of_body c r
  have hd : d.isIHDR = true := by
    rwa [Chunk.isIHDR, htype]
  rcases hframe with ⟨r', hr'⟩ | ⟨k, hbody, hk, htake⟩
  · obtain ⟨es, e, k, hk, rfl⟩ := exists_chunks_take r'
    refine ⟨cs ++ d :: es, e, k, hk, ?_, .inl ⟨d, by simp, hd⟩⟩
    rw [hr', encodeAll_append, encodeAll_cons, List.append_assoc, List.append_assoc]
  · exact ⟨cs, d, k, hk, by rw [htake], .inr ⟨hbody, hd⟩⟩

/-- Every chunk that an accepted file loads stands in the file with its whole body. -/
theorem hasIHDR_of_loaded {cs : List Chunk} {c : Chunk} {k : Nat}
    (hk : k < 8 ∨ 8 + c.body.length ≤ k) (h : ∃ d ∈ loaded cs c k, d.isIHDR = true) :
    HasIHDR (pngHdr ++ (encodeAll cs ++ c.encode.take k)) := by
  obtain ⟨d, hd, hI⟩ := h
  have hcs : d ∈ cs → HasIHDR (pngHdr ++ (encodeAll cs ++ c.encode.take k)) := by
    intro hmem
    obtain ⟨ds, es, rfl⟩ := List.append_of_mem hmem
    refine ⟨ds, d, d.crc ++ (encodeAll es ++ c.encode.take k), hI, ?_⟩
    simp [Chunk.encode]
  rw [loaded] at hd
  split at hd
  · exact hcs hd
  · next h8 =>
    rcases List.mem_append.mp hd with hd | hd
    · exact hcs hd
    · rw [List.mem_singleton.mp hd] at hI
      have hbody : 8 + c.body.length ≤ k := by omega
      exact ⟨cs, c, _, hI, by rw [c.encode_take_crc hbody]⟩

/-! ## The output -/

theorem textLines_textsOf (cs : List Chunk) : ∃ lines, textLines (textsOf cs) = some lines := by
  rw [textsOf]
  induction cs.filter Chunk.isTEXT with
  | nil => exact ⟨[], rfl⟩
  | cons c cs ih =>
    obtain ⟨lines, hlines⟩ := ih
    simp only [List.map_cons, textLines, textLine, hlines]
    exact ⟨_, rfl⟩

/-- What `main` prints for an accepted file. -/
theorem main_returned (files : Bytes → Option Bytes) (prog fname : Bytes) {png : PngInfo}
    {lines : Bytes} (h : pngInfo u (files fname) = .returned png)
    (hlines : textLines png.texts = some lines) :
    main u files [prog, fname] = .status 0 (dimensionsLine fname png.hdr ++ lines) := by
  simp only [main, h, hlines]

/-- Memory that is zero but for the width. -/
def widthOne : Uninit := { zeroed with hdr := { zeroed.hdr with width := 1 } }

/-- Lines of images that are 0 and 1 pixels wide differ. -/
theorem dimensionsLine_ne (fname : Bytes) {hdr hdr' : IhdrChunk} (h : hdr.width = 0)
    (h' : hdr'.width = 1) (lines lines' : Bytes) :
    dimensionsLine fname hdr ++ lines ≠ dimensionsLine fname hdr' ++ lines' := by
  have h0 : formatD (toInt hdr.width) = [0x30] := by
    rw [h]
    decide
  have h1 : formatD (toInt hdr'.width) = [0x31] := by
    rw [h']
    decide
  simp [dimensionsLine, h0, h1]

/-- **The output of an accepted file is determined by the file exactly when the file holds an
IHDR.** -/
theorem main_determined_iff (files : Bytes → Option Bytes) (prog fname bytes : Bytes)
    (hfile : files fname = some bytes)
    (hret : ∃ u png, pngInfo u (some bytes) = .returned png) :
    (∀ u u' : Uninit, main u files [prog, fname] = main u' files [prog, fname])
      ↔ HasIHDR bytes := by
  obtain ⟨u, png, hpng⟩ := hret
  constructor
  · intro hsame
    by_contra hno
    have hsig : pngHdr <+: bytes := by
      by_contra hsig
      rw [pngInfo_reject u hsig] at hpng
      cases hpng
    obtain ⟨p, rfl⟩ := hsig
    obtain ⟨cs, c, k, hk, rfl⟩ := exists_chunks_take p
    have hnone : ∀ d ∈ loaded cs c k, ¬d.isIHDR = true := fun d hd hI =>
      hno (hasIHDR_of_loaded (pngInfo_loaded u hk hpng u).1 ⟨d, hd, hI⟩)
    obtain ⟨lines, hlines⟩ := textLines_textsOf (loaded cs c k)
    -- An image without IHDR shows the width that `hdr` happened to hold.
    obtain ⟨-, png₀, h₀, ht₀, hh₀⟩ := pngInfo_loaded u hk hpng zeroed
    obtain ⟨-, png₁, h₁, ht₁, hh₁⟩ := pngInfo_loaded u hk hpng widthOne
    rw [hdrOf_of_not_mem hnone] at hh₀ hh₁
    have heq := hsame zeroed widthOne
    rw [main_returned _ _ _ _ (hfile ▸ h₀) (by rw [ht₀, hlines]),
      main_returned _ _ _ _ (hfile ▸ h₁) (by rw [ht₁, hlines])] at heq
    injection heq with _ hout
    exact dimensionsLine_ne fname (by rw [hh₀]; rfl) (by rw [hh₁]; rfl) lines lines hout
  · intro hI v v'
    obtain ⟨cs, c, k, hk, rfl, hmem⟩ := hI.frame
    obtain ⟨hkk, png₀, h₀, ht₀, hh₀⟩ := pngInfo_loaded u hk hpng v
    obtain ⟨-, png₁, h₁, ht₁, hh₁⟩ := pngInfo_loaded u hk hpng v'
    obtain ⟨d, hd, hdI⟩ : ∃ d ∈ loaded cs c k, d.isIHDR = true := by
      rw [loaded]
      rcases hmem with ⟨d, hd, hdI⟩ | ⟨hbody, hcI⟩
      · split
        · exact ⟨d, hd, hdI⟩
        · exact ⟨d, List.mem_append_left _ hd, hdI⟩
      · rw [if_neg (by omega)]
        exact ⟨c, by simp, hcI⟩
    obtain ⟨lines, hlines⟩ := textLines_textsOf (loaded cs c k)
    rw [main_returned _ _ _ _ (hfile ▸ h₀) (by rw [ht₀, hlines]),
      main_returned _ _ _ _ (hfile ▸ h₁) (by rw [ht₁, hlines]), hh₀, hh₁, hdrOf_of_mem hd hdI]

theorem main_determined_small :
    (∀ u u' : Uninit,
      main u (fun _ => some (pngHdr ++ encodeAll [smallIHDR])) [[0x70], [0x66]]
        = main u' (fun _ => some (pngHdr ++ encodeAll [smallIHDR])) [[0x70], [0x66]])
      ↔ HasIHDR (pngHdr ++ encodeAll [smallIHDR]) := by
  refine main_determined_iff _ [0x70] [0x66] _ rfl ⟨zeroed, ?_⟩
  obtain ⟨png, hpng, -⟩ := loadAll_safe zeroed [smallIHDR] (by decide) (by decide)
    zeroed.png
  refine ⟨png, ?_⟩
  rw [← List.append_nil (encodeAll _), pngInfo_signature, chunkLoop_encodeAll, hpng]
  exact chunkLoop_short zeroed (by decide) png

/-- The bare signature is accepted, and the dimensions printed for it are what the memory of
`hdr` held. -/
theorem main_signature_ne : main zeroed (fun _ => some pngHdr) [[0x70], [0x66]]
    ≠ main widthOne (fun _ => some pngHdr) [[0x70], [0x66]] := by
  have hret : ∀ u : Uninit, pngInfo u (some pngHdr) = .returned u.png := by
    intro u
    rw [← List.append_nil pngHdr, pngInfo_signature, chunkLoop_short u (by decide)]
  have hmain : ∀ u : Uninit, main u (fun _ => some pngHdr) [[0x70], [0x66]]
      = .status 0 (dimensionsLine [0x66] u.png.hdr ++ []) :=
    fun u => main_returned u _ _ _ (hret u) rfl
  rw [hmain, hmain]
  intro heq
  injection heq with _ hout
  exact dimensionsLine_ne [0x66] rfl rfl [] [] hout

end OsProg.Png
