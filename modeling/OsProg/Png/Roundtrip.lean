import OsProg.Png.Loaded

/-!
# Decode undoes encode, for short texts

A legal image in the terms of the PNG specification, its encoding, and what the constructor
makes of it. `texts can have variable size`, the declaration of `TextChunk` says, but the
copy into `keyword` takes keyword, NUL and text together: the round trip holds exactly for
the images in which no tEXt chunk is longer than 80 bytes (`decodes_iff`).
-/

namespace OsProg.Png

open Infra

/-! ## Legal images -/

/-- The contents of a tEXt chunk: a keyword of 1 to 79 bytes and a text. -/
structure Text where
  keyword : Bytes
  text : Bytes
  keyword_pos : 1 ≤ keyword.length
  keyword_le : keyword.length ≤ 79
  keyword_nul : 0 ∉ keyword
  text_nul : 0 ∉ text
  length_lt : keyword.length + 1 + text.length < 2 ^ 31

def Text.body (t : Text) : Bytes := t.keyword ++ 0 :: t.text

theorem Text.body_length (t : Text) : t.body.length = t.keyword.length + 1 + t.text.length := by
  simp only [body, List.length_append, List.length_cons]
  omega

/-- The checksum of a chunk. The reader skips it, so any four bytes will do. -/
structure Crc where
  bytes : Bytes
  length_eq : bytes.length = 4

/-- A chunk behind the IHDR: a text, or a chunk of a type the reader does not know. -/
inductive Item where
  | text (t : Text) (crc : Crc)
  | other (c : Chunk) (hI : c.isIHDR = false) (hT : c.isTEXT = false)

def Item.chunk : Item → Chunk
  | .text t crc =>
    { type := typeTEXT, body := t.body, crc := crc.bytes, type_length := typeTEXT_length,
      body_lt := by rw [t.body_length]; exact Nat.lt_trans t.length_lt (by decide),
      crc_length := crc.length_eq }
  | .other c _ _ => c

def Item.text? : Item → Option Text
  | .text t _ => some t
  | .other _ _ _ => none

structure Image where
  width : UInt32
  height : UInt32
  width_lt : width.toNat < 2 ^ 31
  height_lt : height.toNat < 2 ^ 31
  bitDepth : UInt8
  colorType : UInt8
  compression : UInt8
  filter : UInt8
  interlace : UInt8
  crc : Crc
  items : List Item

namespace Image

variable (img : Image)

def ihdr : Chunk :=
  { type := typeIHDR,
    body := be32Bytes img.width ++ (be32Bytes img.height
      ++ [img.bitDepth, img.colorType, img.compression, img.filter, img.interlace]),
    crc := img.crc.bytes, type_length := typeIHDR_length, body_lt := by simp,
    crc_length := img.crc.length_eq }

def chunks : List Chunk := img.ihdr :: img.items.map Item.chunk

/-- The file of an image. -/
def encode : Bytes := pngHdr ++ encodeAll img.chunks

/-- The texts of an image, in order. -/
def texts : List Text := img.items.filterMap Item.text?

end Image

/-! ## What the chunks of an image are -/

theorem Text.pair_body (t : Text) :
    beforeNul t.body = t.keyword ∧ beforeNul (afterNul t.body) = t.text := by
  rw [body, beforeNul_append_nul t.keyword_nul, afterNul_append_nul t.keyword_nul,
    beforeNul_of_not_mem t.text_nul]
  exact ⟨rfl, rfl⟩

theorem Item.sized (i : Item) : i.chunk.Sized := by
  intro hI
  cases i with
  | text t crc => exact absurd rfl (Chunk.not_isTEXT_of_isIHDR hI)
  | other c hI' hT' => rw [Item.chunk, hI'] at hI; cases hI

theorem Item.safe_iff (i : Item) :
    i.chunk.Safe ↔ ∀ t ∈ i.text?, t.keyword.length + 1 + t.text.length ≤ 80 := by
  cases i with
  | text t crc =>
    simp only [Item.text?, Option.mem_def, Option.some.injEq, forall_eq']
    constructor
    · intro h
      have := (h rfl).2
      rwa [Item.chunk, t.body_length] at this
    · intro h _
      exact ⟨by simp [Item.chunk, Text.body], by rw [Item.chunk, t.body_length]; exact h⟩
  | other c hI hT =>
    have hsafe : c.Safe := fun h => by rw [hT] at h; cases h
    simpa [Item.text?, Item.chunk] using hsafe

theorem textsOf_items : ∀ items : List Item, textsOf (items.map Item.chunk)
    = (items.filterMap Item.text?).map fun t => (some t.keyword, t.text)
  | [] => rfl
  | .text t crc :: items => by
    have hT : (Item.text t crc).chunk.isTEXT = true := rfl
    rw [List.map_cons, textsOf_cons, textsOf_items items]
    simp only [textsOf, List.filter_cons_of_pos hT, Chunk.pair]
    simp [Item.chunk, Item.text?, t.pair_body]
  | .other c hI hT :: items => by
    have hnone : Item.text? (.other c hI hT) = none := rfl
    rw [List.map_cons, textsOf_cons, textsOf_items items, List.filterMap_cons_none hnone]
    simp [textsOf, Item.chunk, hT]

theorem hdrOf_items (items : List Item) (hdr : IhdrChunk) :
    hdrOf (items.map Item.chunk) hdr = hdr := by
  have hnone : (items.map Item.chunk).filter Chunk.isIHDR = [] := by
    rw [List.filter_eq_nil_iff]
    intro c hc
    obtain ⟨i, -, rfl⟩ := List.mem_map.mp hc
    cases i with
    | text t crc =>
      show ¬(typeTEXT == typeIHDR) = true
      decide
    | other c hI hT => simpa [Item.chunk] using hI
  rw [hdrOf, hnone]
  rfl

namespace Image

variable (img : Image)

theorem sized_chunks : ∀ c ∈ img.chunks, c.Sized := by
  intro c hc
  rcases List.mem_cons.mp hc with rfl | hc
  · exact fun _ => rfl
  · obtain ⟨i, -, rfl⟩ := List.mem_map.mp hc
    exact i.sized

theorem safe_chunks_iff : (∀ c ∈ img.chunks, c.Safe)
    ↔ ∀ t ∈ img.texts, t.keyword.length + 1 + t.text.length ≤ 80 := by
  have hihdr : img.ihdr.Safe := fun h => absurd h (Chunk.not_isTEXT_of_isIHDR rfl)
  simp only [chunks, List.forall_mem_cons, List.forall_mem_map, Item.safe_iff, texts,
    List.mem_filterMap]
  constructor
  · rintro ⟨-, h⟩ t ⟨i, hi, ht⟩
    exact h i hi t ht
  · intro h
    exact ⟨hihdr, fun i hi t ht => h t ⟨i, hi, ht⟩⟩

theorem textsOf_chunks : textsOf img.chunks
    = img.texts.map fun t => (some t.keyword, t.text) := by
  have hT : img.ihdr.isTEXT = false := rfl
  rw [chunks, textsOf_cons, textsOf_items]
  simp [textsOf, hT, texts]

theorem hdrOf_chunks (hdr : IhdrChunk) : (hdrOf img.chunks hdr).width = img.width
    ∧ (hdrOf img.chunks hdr).height = img.height := by
  have hI : img.ihdr.isIHDR = true := rfl
  have hdec : hdrOf [img.ihdr] hdr = IhdrChunk.decode img.ihdr.body := by
    simp [hdrOf, hI]
  rw [chunks, hdrOf_cons, hdrOf_items, hdec]
  refine ⟨be32_be32Bytes _ _, ?_⟩
  show be32 (List.drop 4 (be32Bytes img.width ++ _)) = _
  rw [List.drop_left' (be32Bytes_length _), be32_be32Bytes]

end Image

/-! ## The round trip -/

variable (u : Uninit)

/-- The constructor returns, with the dimensions and the texts of the image. -/
def Decodes (img : Image) : Prop :=
  ∃ png, pngInfo u (some img.encode) = .returned png ∧ png.hdr.width = img.width
    ∧ png.hdr.height = img.height
    ∧ png.texts = img.texts.map fun t => (some t.keyword, t.text)

theorem pngInfo_encode (img : Image) :
    pngInfo u (some img.encode) = loadAll u img.chunks u.png := by
  rw [Image.encode, ← List.append_nil (encodeAll _), pngInfo_signature, chunkLoop_encodeAll]
  cases loadAll u img.chunks u.png with
  | returned png => exact chunkLoop_short u (by decide) png
  | stopped e png => rfl

/-- **The round trip holds exactly when every tEXt chunk fits the array `keyword`.** -/
theorem decodes_iff (img : Image) :
    Decodes u img ↔ ∀ t ∈ img.texts, t.keyword.length + 1 + t.text.length ≤ 80 := by
  rw [← img.safe_chunks_iff]
  constructor
  · rintro ⟨png, hpng, -⟩ c hc
    rw [pngInfo_encode] at hpng
    exact (sized_safe_of_loadAll u hpng c hc).2
  · intro hsafe
    obtain ⟨png, hpng, htexts, hhdr⟩ := loadAll_safe u img.chunks img.sized_chunks hsafe u.png
    refine ⟨png, (pngInfo_encode u img).trans hpng, ?_, ?_, ?_⟩
    · rw [hhdr]
      exact (img.hdrOf_chunks _).1
    · rw [hhdr]
      exact (img.hdrOf_chunks _).2
    · rw [htexts, img.textsOf_chunks]
      rfl

/-- The keyword `A` with a text of 79 bytes. -/
def longTextItem : Text :=
  { keyword := [0x41], text := List.replicate 79 0x42, keyword_pos := by decide,
    keyword_le := by decide, keyword_nul := by decide, text_nul := by decide,
    length_lt := by decide }

/-- A 1 × 1 image with that text. -/
def longTextImage : Image :=
  { width := 1, height := 1, width_lt := by decide, height_lt := by decide, bitDepth := 8,
    colorType := 2, compression := 0, filter := 0, interlace := 0,
    crc := ⟨[0, 0, 0, 0], zeroCrc_length⟩,
    items := [.text longTextItem ⟨[0, 0, 0, 0], zeroCrc_length⟩] }

theorem not_decodes_longTextImage :
    ¬Decodes zeroed longTextImage := by
  rintro ⟨png, hpng, -⟩
  rw [pngInfo_encode] at hpng
  have hle := longTextImage.safe_chunks_iff.mp
    (fun c hc => (sized_safe_of_loadAll _ hpng c hc).2) longTextItem List.mem_cons_self
  exact absurd hle (by decide)

end OsProg.Png
