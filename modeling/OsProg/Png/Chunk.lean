import OsProg.Png.Model

/-!
# The chunk format and what a chunk means

`Chunk` is a complete chunk of a file and `encode` its bytes. `Chunk.load` says what the
reader should make of it, in terms of its body alone: no stream, no flags, no header.

`Png/Run.lean` connects the two. Any byte string is a sequence of encoded chunks and the
beginning of one more (`exists_chunks_take`), so that is all the connection needs.
-/

namespace OsProg.Png

open Infra

/-! ## Chunks and their encoding -/

structure Chunk where
  type : Bytes
  body : Bytes
  crc : Bytes
  type_length : type.length = 4
  body_lt : body.length < 2 ^ 32
  crc_length : crc.length = 4
  deriving DecidableEq

def typeIHDR : Bytes := litIHDR.take 4

def typeTEXT : Bytes := litTEXT.take 4

theorem typeIHDR_length : typeIHDR.length = 4 := rfl

theorem typeTEXT_length : typeTEXT.length = 4 := rfl

namespace Chunk

def isIHDR (c : Chunk) : Bool := c.type == typeIHDR

def isTEXT (c : Chunk) : Bool := c.type == typeTEXT

/-- The length field and the type. -/
def header (c : Chunk) : Bytes := be32Bytes (UInt32.ofNat c.body.length) ++ c.type

def encode (c : Chunk) : Bytes := c.header ++ (c.body ++ c.crc)

@[simp] theorem header_length (c : Chunk) : c.header.length = 8 := by
  simp [header, c.type_length]

@[simp] theorem encode_length (c : Chunk) : c.encode.length = c.body.length + 12 := by
  simp [encode, c.crc_length]
  omega

theorem encode_take_body (c : Chunk) {k : Nat} (h8 : 8 ≤ k) (h : k ≤ 8 + c.body.length) :
    c.encode.take k = c.header ++ c.body.take (k - 8) := by
  rw [encode, List.take_append, c.header_length, List.take_of_length_le (by simpa using h8),
    List.take_append_of_le_length (by omega)]

theorem encode_take_crc (c : Chunk) {k : Nat} (h : 8 + c.body.length ≤ k) :
    c.encode.take k = c.header ++ (c.body ++ c.crc.take (k - 8 - c.body.length)) := by
  rw [encode, List.take_append, c.header_length, List.take_of_length_le (by simp; omega),
    List.take_append, List.take_of_length_le (l := c.body) (by omega)]

theorem toNat_length (c : Chunk) : (UInt32.ofNat c.body.length).toNat = c.body.length := by
  rw [UInt32.toNat_ofNat', Nat.mod_eq_of_lt c.body_lt]

/-- The chunk with another checksum. -/
def withCrc (c : Chunk) (crc : Bytes) (h : crc.length = 4) : Chunk :=
  { c with crc, crc_length := h }

end Chunk

theorem zeroCrc_length : ([0, 0, 0, 0] : Bytes).length = 4 := rfl

/-- A tEXt chunk with a zero checksum. -/
def textChunk (body : Bytes) (h : body.length < 2 ^ 32) : Chunk :=
  { type := typeTEXT, body, crc := [0, 0, 0, 0], type_length := typeTEXT_length, body_lt := h,
    crc_length := zeroCrc_length }

/-- The header of a 2 × 1 image. -/
def smallIHDR : Chunk :=
  { type := typeIHDR, body := [0, 0, 0, 2, 0, 0, 0, 1, 8, 2, 0, 0, 0], crc := [1, 2, 3, 4],
    type_length := typeIHDR_length, body_lt := by decide, crc_length := rfl }

/-- The keyword `A` with the text `B`. -/
def smallTEXT : Chunk := textChunk [0x41, 0, 0x42] (by decide)

def encodeAll (cs : List Chunk) : Bytes := cs.flatMap Chunk.encode

@[simp] theorem encodeAll_nil : encodeAll [] = [] := rfl

@[simp] theorem encodeAll_cons (c : Chunk) (cs : List Chunk) :
    encodeAll (c :: cs) = c.encode ++ encodeAll cs := rfl

@[simp] theorem encodeAll_append (cs ds : List Chunk) :
    encodeAll (cs ++ ds) = encodeAll cs ++ encodeAll ds := by
  simp [encodeAll]

/-! ## Framing -/

theorem getD_append_zeros (p : Bytes) (n i : Nat) :
    (p ++ List.replicate n 0).getD i 0 = p.getD i 0 := by
  simp only [List.getD_eq_getElem?_getD, List.getElem?_append, List.getElem?_replicate]
  split
  · rfl
  · next h =>
    rw [List.getElem?_eq_none (Nat.not_lt.mp h)]
    split <;> rfl

/-- A header and enough bytes after it are a chunk. -/
theorem exists_chunk_of_header {p : Bytes} (h8 : 8 ≤ p.length)
    (h : (be32 p).toNat + 12 ≤ p.length) :
    ∃ c : Chunk, c.body.length = (be32 p).toNat ∧ ∃ r, p = c.encode ++ r := by
  have hbody : ((p.drop 8).take (be32 p).toNat).length = (be32 p).toNat := by
    simp
    omega
  refine ⟨{ type := (p.drop 4).take 4, body := (p.drop 8).take (be32 p).toNat,
            crc := (p.drop (8 + (be32 p).toNat)).take 4, type_length := ?_,
            body_lt := ?_, crc_length := ?_ }, hbody, p.drop (12 + (be32 p).toNat), ?_⟩
  · simp
    omega
  · rw [hbody]
    exact UInt32.toNat_lt _
  · simp
    omega
  · have hword : be32Bytes (be32 p) = p.take 4 := by
      rw [← List.take_append_drop 4 p, be32_append (by simp; omega)]
      simpa using be32Bytes_be32 (p := p.take 4) (by simp; omega)
    simp only [Chunk.encode, Chunk.header, hbody, UInt32.ofNat_toNat, hword]
    have hsplit : ∀ (i j : Nat), (p.drop i).take j ++ p.drop (i + j) = p.drop i := by
      intro i j
      rw [← List.drop_drop, List.take_append_drop]
    rw [List.append_assoc, List.append_assoc, List.append_assoc,
      show 12 + (be32 p).toNat = 8 + (be32 p).toNat + 4 by omega, hsplit, hsplit,
      show p.drop 8 = p.drop (4 + 4) from rfl, hsplit, List.take_append_drop]

/-- Too few bytes for the length they announce are the beginning of a chunk. -/
theorem exists_chunk_of_short {p : Bytes} (h : p.length < (be32 p).toNat + 12) :
    ∃ c : Chunk, ∃ k < c.encode.length, p = c.encode.take k := by
  have hword : be32 (p ++ List.replicate ((be32 p).toNat + 12) 0) = be32 p := by
    simp only [be32, getD_append_zeros]
  obtain ⟨c, hc, r, hr⟩ := exists_chunk_of_header
    (p := p ++ List.replicate ((be32 p).toNat + 12) 0) (by simp; omega) (by rw [hword]; simp)
  rw [hword] at hc
  refine ⟨c, p.length, by rw [c.encode_length]; omega, ?_⟩
  have htake := congrArg (List.take p.length) hr
  rwa [List.take_left, List.take_append_of_le_length (by rw [c.encode_length]; omega)] at htake

/-- **Every byte string is a sequence of chunks and the beginning of one more.** -/
theorem exists_chunks_take (p : Bytes) :
    ∃ (cs : List Chunk) (c : Chunk), ∃ k < c.encode.length,
      p = encodeAll cs ++ c.encode.take k := by
  induction hn : p.length using Nat.strongRecOn generalizing p with
  | _ n ih =>
    by_cases hshort : p.length < (be32 p).toNat + 12
    · obtain ⟨c, k, hk, hp⟩ := exists_chunk_of_short hshort
      exact ⟨[], c, k, hk, hp⟩
    · obtain ⟨c, -, r, hr⟩ := exists_chunk_of_header (p := p) (by omega) (by omega)
      have hlen := congrArg List.length hr
      rw [List.length_append, c.encode_length] at hlen
      obtain ⟨cs, d, k, hk, hd⟩ := ih r.length (by omega) r rfl
      exact ⟨c :: cs, d, k, hk, by rw [hr, hd, encodeAll_cons, List.append_assoc]⟩

/-- A whole body, whatever follows it, belongs to a complete chunk or to one whose checksum
the file cuts. -/
theorem exists_chunk_of_body (c : Chunk) (r : Bytes) : ∃ d : Chunk, d.type = c.type ∧
    ((∃ r', c.header ++ (c.body ++ r) = d.encode ++ r') ∨
      ∃ k, 8 + d.body.length ≤ k ∧ k < d.encode.length ∧
        c.header ++ (c.body ++ r) = d.encode.take k) := by
  by_cases hr : 4 ≤ r.length
  · have hcrc : (r.take 4).length = 4 := by
      rw [List.length_take]
      omega
    refine ⟨c.withCrc (r.take 4) hcrc, rfl, .inl ⟨r.drop 4, ?_⟩⟩
    show _ = c.header ++ (c.body ++ r.take 4) ++ r.drop 4
    rw [List.append_assoc, List.append_assoc, List.take_append_drop]
  · have hcrc : (r ++ List.replicate (4 - r.length) 0).length = 4 := by
      rw [List.length_append, List.length_replicate]
      omega
    have htake := (c.withCrc _ hcrc).encode_take_crc (k := 8 + c.body.length + r.length)
      (Nat.le_add_right _ _)
    refine ⟨c.withCrc _ hcrc, rfl, .inr ⟨8 + c.body.length + r.length, Nat.le_add_right _ _, ?_,
      ?_⟩⟩
    · rw [Chunk.encode_length]
      show _ < c.body.length + 12
      omega
    · rw [htake]
      show _ = c.header ++ (c.body ++ List.take (8 + c.body.length + r.length - 8 - c.body.length)
        (r ++ List.replicate (4 - r.length) 0))
      rw [show 8 + c.body.length + r.length - 8 - c.body.length = r.length by omega,
        List.take_left]

/-! ## What a chunk means -/

/-- The fields of an IHDR body, width and height in network byte order. -/
def IhdrChunk.decode (p : Bytes) : IhdrChunk :=
  { width := be32 p, height := be32 (p.drop 4), bitDepth := p.getD 8 0, colorType := p.getD 9 0,
    compression := p.getD 10 0, filter := p.getD 11 0, interlace := p.getD 12 0 }

/-- The array `keyword` after a body that fits was copied into it. -/
def storeKeyword (a : CharArray 80) (p : Bytes) (h : p.length ≤ 80) : CharArray 80 :=
  ⟨p ++ a.bytes.drop p.length, by simp [a.size]; omega⟩

variable (u : Uninit)

/-- `textChunks` gets the record of a tEXt body. -/
def PngInfo.addText (png : PngInfo) (body : Bytes) (h : body.length ≤ 80) : PngInfo :=
  let id := png.textChunks.length
  { png with textChunks := png.textChunks ++
    [{ keyword := storeKeyword (u.keyword id) body h,
       text := { id, bytes := beforeNul (afterNul body) } }] }

/-- What a complete chunk does to the object. -/
def Chunk.load (c : Chunk) (png : PngInfo) : Except Failure PngInfo :=
  if c.isIHDR then
    if c.body.length = 13 then .ok { png with hdr := IhdrChunk.decode c.body }
    else .error (.thrown .badIhdrSize)
  else if c.isTEXT then
    if 0 ∈ c.body then
      if h : c.body.length ≤ 80 then .ok (png.addText u c.body h)
      else .error (.fault .memcpy)
    else .error (.fault .strlen)
  else .ok png

/-- What a sequence of complete chunks does to the object. -/
def loadAll : List Chunk → PngInfo → Ended
  | [], png => .returned png
  | c :: cs, png =>
    match c.load u png with
    | .ok png' => loadAll cs png'
    | .error e => .stopped e png

/-- The exception that a chunk cut inside its body causes. -/
def Chunk.cutError (c : Chunk) : PngError :=
  if c.isIHDR then if c.body.length = 13 then .cantReadIhdr else .badIhdrSize
  else if c.isTEXT then .cantReadText
  else .cantReadChecksum

/-- What the first `k` bytes of a chunk do to the object when the file ends there. A cut in
the header ends the loop, and so does a cut in the checksum: neither is reported. -/
def Chunk.loadCut (c : Chunk) (k : Nat) (png : PngInfo) : Ended :=
  if k < 8 then .returned png
  else if k < 8 + c.body.length then .stopped (.thrown c.cutError) png
  else loadAll u [c] png

/-- Go on with the object unless the run has stopped. -/
def Ended.andThen : Ended → (PngInfo → Ended) → Ended
  | .returned png, f => f png
  | .stopped e png, _ => .stopped e png

theorem loadAll_append (cs ds : List Chunk) (png : PngInfo) :
    loadAll u (cs ++ ds) png = (loadAll u cs png).andThen (loadAll u ds) := by
  induction cs generalizing png with
  | nil => rfl
  | cons c cs ih =>
    simp only [List.cons_append, loadAll]
    cases c.load u png with
    | ok png' => exact ih png'
    | error e => rfl

end OsProg.Png
