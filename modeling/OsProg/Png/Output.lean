import OsProg.Png.Printing
import OsProg.Png.Roundtrip

/-!
# The program on an image

The whole program, from the file of a legal image to what it prints: the dimensions and the
texts, in order, or the copy that leaves the array `keyword` when a tEXt chunk is too long
(`main_image`).

The output names the dimensions without ambiguity: where two runs print the same, the images
are equally large, also where `%d` shows a number as negative. It names the texts as well, when no
colon in a keyword and no newline in a text is taken for that of the format (`output_tells`).
-/

namespace OsProg.Png

open Infra

variable (u : Uninit)

/-! ## The texts -/

/-- What the texts of an image come to. -/
def Image.lines (img : Image) : Bytes :=
  img.texts.flatMap fun t => t.keyword ++ ascii ": " ++ t.text ++ ascii "\n"

theorem textLines_texts : ∀ texts : List Text,
    textLines (texts.map fun t => (some t.keyword, t.text))
      = some (texts.flatMap fun t => t.keyword ++ ascii ": " ++ t.text ++ ascii "\n")
  | [] => rfl
  | t :: texts => by
    rw [List.map_cons, textLines, textLines_texts texts, List.flatMap_cons]
    rfl

/-- What `main` prints for an image. -/
def Image.output (img : Image) (fname : Bytes) : Bytes :=
  fname ++ ascii ": " ++ formatD img.width.toNat ++ ascii "x" ++ formatD img.height.toNat
    ++ ascii "\n" ++ img.lines

theorem toInt_of_lt {w : UInt32} (h : w.toNat < 2 ^ 31) : toInt w = w.toNat := if_pos h

theorem dimensionsLine_image {img : Image} {hdr : IhdrChunk} (fname : Bytes)
    (hw : hdr.width = img.width) (hh : hdr.height = img.height) :
    dimensionsLine fname hdr ++ img.lines = img.output fname := by
  rw [dimensionsLine, hw, hh, toInt_of_lt img.width_lt, toInt_of_lt img.height_lt]
  rfl

/-! ## An image that does not fit -/

/-- Every tEXt body of an image has its NUL. -/
theorem Image.nul_chunks (img : Image) : ∀ c ∈ img.chunks, c.isTEXT = true → 0 ∈ c.body := by
  intro c hc hT
  rcases List.mem_cons.mp hc with rfl | hc
  · exact absurd hT (Chunk.not_isTEXT_of_isIHDR rfl)
  · obtain ⟨i, -, rfl⟩ := List.mem_map.mp hc
    cases i with
    | text t crc => simp [Item.chunk, Text.body]
    | other c hI hT' =>
      rw [Item.chunk, hT'] at hT
      cases hT

/-- A chunk with its NUL is at most too long. -/
theorem load_nul_fault {c : Chunk} {png : PngInfo} {f : Fault} (h0 : c.isTEXT = true → 0 ∈ c.body)
    (h : c.load u png = .error (.fault f)) : f = .memcpy := by
  rw [Chunk.load] at h
  split at h
  · split at h <;> cases h
  · split at h
    · next hT =>
      rw [if_pos (h0 hT)] at h
      split at h
      · cases h
      · cases h
        rfl
    · cases h

theorem pngInfo_tooLong {img : Image}
    (h : ¬∀ t ∈ img.texts, t.keyword.length + 1 + t.text.length ≤ 80) :
    ∃ png, pngInfo u (some img.encode) = .stopped (.fault .memcpy) png := by
  rw [← img.safe_chunks_iff] at h
  -- the first chunk that does not load has its NUL, so that it must be too long
  obtain ⟨f, png, hpng⟩ := loadAll_unsafe u img.sized_chunks (by simpa using h) u.png
  obtain ⟨cs, c, ds, hsplit, -, hload⟩ := exists_of_loadAll_stopped u hpng
  have hc : c ∈ img.chunks := hsplit ▸ List.mem_append_right _ List.mem_cons_self
  rw [load_nul_fault u (img.nul_chunks c hc) hload] at hpng
  exact ⟨png, (pngInfo_encode u img).trans hpng⟩

/-! ## The program -/

/-- The program on chunks that load. -/
theorem main_safe {cs : List Chunk} (hcs : ∀ c ∈ cs, c.Sized ∧ c.Safe)
    {files : Bytes → Option Bytes} {fname lines : Bytes}
    (hfile : files fname = some (pngHdr ++ encodeAll cs))
    (hlines : textLines (textsOf cs) = some lines) (prog : Bytes) (args : List Bytes) :
    (∃ png, pngInfo u (files fname) = .returned png ∧ png.texts = textsOf cs) ∧
      main u files (prog :: fname :: args)
        = .status 0 (dimensionsLine fname (hdrOf cs u.hdr) ++ lines) := by
  obtain ⟨png, hload, htexts, hhdr⟩ := loadAll_safe u cs (fun c hc => (hcs c hc).1)
    (fun c hc => (hcs c hc).2) u.png
  have hpng : pngInfo u (files fname) = .returned png := by
    rw [hfile, ← List.append_nil (encodeAll cs), pngInfo_signature, chunkLoop_encodeAll, hload]
    exact chunkLoop_short u (by decide) png
  have htexts : png.texts = textsOf cs := htexts
  have hprint : textLines png.texts = some lines := by rw [htexts, hlines]
  refine ⟨⟨png, hpng, htexts⟩, ?_⟩
  simp only [main, hpng, hprint, hhdr, Uninit.png]

/-- **The program on every legal image.** -/
theorem main_image (img : Image) (files : Bytes → Option Bytes) (prog fname : Bytes)
    (args : List Bytes) (hfile : files fname = some img.encode) :
    main u files (prog :: fname :: args)
      = if ∀ t ∈ img.texts, t.keyword.length + 1 + t.text.length ≤ 80 then
          .status 0 (img.output fname)
        else .fault .memcpy := by
  by_cases hfit : ∀ t ∈ img.texts, t.keyword.length + 1 + t.text.length ≤ 80
  · have hsafe := img.safe_chunks_iff.mpr hfit
    obtain ⟨hw, hh⟩ := img.hdrOf_chunks u.hdr
    have hlines : textLines (textsOf img.chunks) = some img.lines := by
      rw [img.textsOf_chunks]
      exact textLines_texts img.texts
    have hmain := (main_safe u (fun c hc => ⟨img.sized_chunks c hc, hsafe c hc⟩) hfile hlines prog
      args).2
    rw [if_pos hfit, hmain, dimensionsLine_image fname hw hh]
  · obtain ⟨png, hpng⟩ := pngInfo_tooLong u hfit
    rw [if_neg hfit, main, hfile, hpng]

/-- The image with a long text does not fit, and the one without texts does. -/
theorem main_image_small : main zeroed (fun _ => some longTextImage.encode) [[0x70], [0x66]]
      = .fault .memcpy ∧
    main zeroed (fun _ => some { longTextImage with items := [] }.encode) [[0x70], [0x66]]
      = .status 0 (ascii "f: 1x1\n") := by
  constructor
  · rw [main_image zeroed longTextImage _ [0x70] [0x66] [] rfl, if_neg (by decide)]
  · rw [main_image zeroed { longTextImage with items := [] } _ [0x70] [0x66] [] rfl]
    rfl

/-! ## What the output tells -/

theorem toInt_inj {w w' : UInt32} (h : toInt w = toInt w') : w = w' := by
  have hw := w.toNat_lt
  have hw' := w'.toNat_lt
  rw [← UInt32.toNat_inj]
  unfold toInt at h
  split at h <;> split at h <;> omega

theorem dimensionsLine_inj (fname : Bytes) {hdr hdr' : IhdrChunk} {lines lines' : Bytes}
    (h : dimensionsLine fname hdr ++ lines = dimensionsLine fname hdr' ++ lines') :
    hdr.width = hdr'.width ∧ hdr.height = hdr'.height ∧ lines = lines' := by
  simp only [dimensionsLine, List.append_assoc, List.singleton_append] at h
  -- the name in front is the same, and an `x` and a newline end the numbers
  have h := List.append_cancel_left (List.append_cancel_left h)
  obtain ⟨hwidth, h⟩ := formatD_append_inj (by decide) (by decide) h
  obtain ⟨hheight, h⟩ := formatD_append_inj (by decide) (by decide) h
  exact ⟨toInt_inj hwidth, toInt_inj hheight, h⟩

theorem dimensionsLine_congr (fname : Bytes) {hdr hdr' : IhdrChunk}
    (hwidth : hdr.width = hdr'.width) (hheight : hdr.height = hdr'.height) :
    dimensionsLine fname hdr = dimensionsLine fname hdr' := by
  rw [dimensionsLine, dimensionsLine, hwidth, hheight]

/-- A record whose line can be read back: the first colon ends the keyword, and the first newline
behind it the text. -/
structure Plain (record : Option Bytes × Bytes) : Prop where
  keyword : ∀ keyword ∈ record.1, 0x3A ∉ keyword
  text : 0x0A ∉ record.2

/-- The line of a record, which is empty when the record is not printed. -/
def lineOf (record : Option Bytes × Bytes) : Bytes := (textLine record).getD []

theorem selfDelimiting_lineOf :
    SelfDelimiting (fun record => record.1.isSome ∧ Plain record) lineOf where
  ne_nil := by
    rintro ⟨keyword, text⟩ ⟨hprinted, -⟩ hnil
    obtain ⟨keyword, rfl⟩ := Option.isSome_iff_exists.mp hprinted
    simp [lineOf, textLine] at hnil
  inj := by
    rintro ⟨keyword, text⟩ ⟨keyword', text'⟩ r r' ⟨hprinted, hplain⟩ ⟨hprinted', hplain'⟩ h
    obtain ⟨keyword, rfl⟩ := Option.isSome_iff_exists.mp hprinted
    obtain ⟨keyword', rfl⟩ := Option.isSome_iff_exists.mp hprinted'
    simp only [lineOf, textLine, Option.map_some, Option.getD_some, List.append_assoc,
      List.cons_append, List.nil_append] at h
    obtain ⟨hkeyword, hbehind⟩ :=
      append_sep_inj (hplain.keyword keyword rfl) (hplain'.keyword keyword' rfl) h
    obtain ⟨htext, hrest⟩ := append_sep_inj hplain.text hplain'.text (List.cons.inj hbehind).2
    exact ⟨Prod.ext (congrArg some hkeyword) htext, hrest⟩

/-- Lines are printed only where each record has one. -/
theorem textLines_some : ∀ {records : List (Option Bytes × Bytes)} {lines : Bytes},
    textLines records = some lines →
      lines = records.flatMap lineOf ∧ ∀ record ∈ records, record.1.isSome
  | [], lines, h => ⟨(Option.some.inj h).symm, nofun⟩
  | record :: records, lines, h => by
    rw [textLines] at h
    obtain ⟨line, hline, h⟩ := Option.bind_eq_some_iff.mp h
    obtain ⟨rest, hrest, h⟩ := Option.bind_eq_some_iff.mp h
    obtain ⟨hrest, hprinted⟩ := textLines_some hrest
    refine ⟨?_, List.forall_mem_cons.mpr ⟨?_, hprinted⟩⟩
    · rw [List.flatMap_cons, lineOf, hline, ← hrest]
      exact (Option.some.inj h).symm
    · obtain ⟨keyword, hkeyword, -⟩ := Option.map_eq_some_iff.mp hline
      rw [hkeyword]
      rfl

/-- The records of an accepted file can be printed. -/
theorem textLines_returned {contents : Option Bytes} {png : PngInfo}
    (h : pngInfo u contents = .returned png) : ∃ lines, textLines png.texts = some lines := by
  cases contents with
  | none => cases h
  | some bytes =>
    have hsig : pngHdr <+: bytes := by
      by_contra hsig
      rw [pngInfo_reject u hsig] at h
      cases h
    obtain ⟨p, rfl⟩ := hsig
    obtain ⟨cs, c, k, hk, rfl⟩ := exists_chunks_take p
    obtain ⟨-, png', hpng', htexts, -⟩ := pngInfo_loaded u hk h u
    rw [h] at hpng'
    cases hpng'
    rw [htexts]
    exact textLines_textsOf _

/-- What the program prints for an accepted file. -/
theorem main_accepted {files : Bytes → Option Bytes} {fname : Bytes} {png : PngInfo}
    (h : pngInfo u (files fname) = .returned png) (prog : Bytes) (args : List Bytes) :
    main u files (prog :: fname :: args) =
        .status 0 (dimensionsLine fname png.hdr ++ png.texts.flatMap lineOf) ∧
      ∀ record ∈ png.texts, record.1.isSome := by
  obtain ⟨lines, hlines⟩ := textLines_returned u h
  obtain ⟨rfl, hprinted⟩ := textLines_some hlines
  refine ⟨?_, hprinted⟩
  simp only [main, h, hlines]

/-- **What the output tells.** Two accepted files for which the program prints the same under one
name are equally wide and high, whatever they and the uninitialised memory hold. Where their
records are plain, it prints the same exactly for equal dimensions and equal texts in order. -/
theorem output_tells {u u' : Uninit} {files files' : Bytes → Option Bytes}
    {prog prog' fname : Bytes} {args args' : List Bytes} {png png' : PngInfo}
    (hpng : pngInfo u (files fname) = .returned png)
    (hpng' : pngInfo u' (files' fname) = .returned png') :
    (main u files (prog :: fname :: args) = main u' files' (prog' :: fname :: args') →
      png.hdr.width = png'.hdr.width ∧ png.hdr.height = png'.hdr.height) ∧
    ((∀ record ∈ png.texts, Plain record) → (∀ record ∈ png'.texts, Plain record) →
      (main u files (prog :: fname :: args) = main u' files' (prog' :: fname :: args') ↔
        png.hdr.width = png'.hdr.width ∧ png.hdr.height = png'.hdr.height ∧
          png.texts = png'.texts)) := by
  obtain ⟨hmain, hprinted⟩ := main_accepted u hpng prog args
  obtain ⟨hmain', hprinted'⟩ := main_accepted u' hpng' prog' args'
  rw [hmain, hmain', Exit.status.injEq, and_iff_right rfl]
  refine ⟨fun h => ?_, fun hplain hplain' => ⟨fun h => ?_, ?_⟩⟩
  · obtain ⟨hwidth, hheight, -⟩ := dimensionsLine_inj fname h
    exact ⟨hwidth, hheight⟩
  · obtain ⟨hwidth, hheight, hlines⟩ := dimensionsLine_inj fname h
    exact ⟨hwidth, hheight, selfDelimiting_lineOf.flatMap_inj
      (fun record h => ⟨hprinted record h, hplain record h⟩)
      (fun record h => ⟨hprinted' record h, hplain' record h⟩) hlines⟩
  · rintro ⟨hwidth, hheight, htexts⟩
    rw [dimensionsLine_congr fname hwidth hheight, htexts]

/-- The keyword `A` with the text `B`, in an image with and without another chunk. -/
theorem output_tells_small : ∃ png png',
    pngInfo zeroed (some (pngHdr ++ encodeAll [smallIHDR, smallTEXT])) = .returned png ∧
    pngInfo widthOne (some (pngHdr ++ encodeAll [smallIHDR, smallGAMA, smallTEXT])) =
      .returned png' ∧
    png.texts = [(some [0x41], [0x42])] ∧ png.hdr.width = png'.hdr.width ∧
    png.hdr.height = png'.hdr.height ∧ png.texts = png'.texts := by
  obtain ⟨⟨png, hpng, htexts⟩, hmain⟩ := @main_safe zeroed [smallIHDR, smallTEXT] (by decide)
    (fun _ => some (pngHdr ++ encodeAll [smallIHDR, smallTEXT])) [0x66]
    [0x41, 0x3A, 0x20, 0x42, 0x0A] rfl rfl [0x70] []
  obtain ⟨⟨png', hpng', htexts'⟩, hmain'⟩ := @main_safe widthOne [smallIHDR, smallGAMA, smallTEXT]
    (by decide) (fun _ => some (pngHdr ++ encodeAll [smallIHDR, smallGAMA, smallTEXT])) [0x66]
    [0x41, 0x3A, 0x20, 0x42, 0x0A] rfl rfl [0x70] []
  have hplain : Plain (some [0x41], [0x42]) := ⟨by simp, by simp⟩
  refine ⟨png, png', hpng, hpng', htexts, ?_⟩
  refine ((@output_tells zeroed widthOne
    (fun _ => some (pngHdr ++ encodeAll [smallIHDR, smallTEXT]))
    (fun _ => some (pngHdr ++ encodeAll [smallIHDR, smallGAMA, smallTEXT])) _ _ _ _ _ png png' hpng
    hpng').2 ?_ ?_).mp (hmain.trans hmain'.symm)
  · rw [htexts]
    exact List.forall_mem_singleton.mpr hplain
  · rw [htexts']
    exact List.forall_mem_singleton.mpr hplain

end OsProg.Png
