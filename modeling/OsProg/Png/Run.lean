import OsProg.Png.Chunk

/-!
# The reader does what the chunks mean

The stream-level constructor of `Png/Model.lean` against the chunk-level meaning of
`Png/Chunk.lean`. Three equations carry everything that follows:

* `chunkLoop_encode` — a complete chunk at the front of a good stream
* `chunkLoop_take` — a file that ends inside a chunk
* `pngInfo_signature` — the constructor up to its loop

Together with `exists_chunks_take` they describe the run on every file.
-/

namespace OsProg.Png

open Infra

/-! ## Steps of the monad -/

theorem bind_ok {α β : Type} {m : M α} {f : α → M β} {s s' : State} {a : α}
    (h : m.run s = .ok a s') : (m >>= f).run s = (f a).run s' := by
  rw [EStateM.run_bind, h]

theorem bind_error {α β : Type} {m : M α} {f : α → M β} {s s' : State} {e : Failure}
    (h : m.run s = .error e s') : (m >>= f).run s = .error e s' := by
  rw [EStateM.run_bind, h]

theorem checked_some {α : Type} (f : Fault) (a : α) (s : State) :
    (checked f (some a)).run s = .ok a s := rfl

theorem checked_none {α : Type} (f : Fault) (s : State) :
    (checked f none : M α).run s = .error (.fault f) s := rfl

theorem throwIfNot_ok {e : PngError} {s : State} (h : s.file.fail = false) :
    (throwIfNot e).run s = .ok () s := by
  rw [throwIfNot, bind_ok (EStateM.run_get s), h]
  rfl

theorem throwIfNot_error {e : PngError} {s : State} (h : s.file.fail = true) :
    (throwIfNot e).run s = .error (.thrown e) s := by
  rw [throwIfNot, bind_ok (EStateM.run_get s), h]
  rfl

theorem fileRead_append {size n : Nat} {p : Bytes} (hn : n ≤ size) (h : p.length = n) (r : Bytes)
    (png : PngInfo) : (fileRead size n).run ⟨IStream.ofBytes (p ++ r), png⟩
      = .ok p ⟨IStream.ofBytes r, png⟩ := by
  rw [fileRead_eq hn, IStream.read_append h]

theorem fileRead_short {size n : Nat} {p : Bytes} (hn : n ≤ size) (h : p.length < n)
    (png : PngInfo) : (fileRead size n).run ⟨IStream.ofBytes p, png⟩
      = .ok p ⟨{ rest := [], eof := true, fail := true }, png⟩ := by
  rw [fileRead_eq hn, IStream.read_short h]

theorem fileIgnore_append {n : Nat} {p : Bytes} (h : p.length = n) (r : Bytes) (png : PngInfo) :
    (fileIgnore n).run ⟨IStream.ofBytes (p ++ r), png⟩ = .ok () ⟨IStream.ofBytes r, png⟩ := by
  rw [← IStream.ignore_append h r]
  rfl

theorem fileIgnore_short {n : Nat} {p : Bytes} (h : p.length < n) (png : PngInfo) :
    (fileIgnore n).run ⟨IStream.ofBytes p, png⟩
      = .ok () ⟨{ rest := [], eof := true, fail := false }, png⟩ := by
  rw [← IStream.ignore_short h]
  rfl

/-! ## Which branch a type takes -/

/-- The header of a chunk once its length is in host byte order. -/
def Chunk.hdr (c : Chunk) : ChunkHdr :=
  { length := UInt32.ofNat c.body.length, type := c.type }

@[simp] theorem Chunk.hdr_type (c : Chunk) : c.hdr.type = c.type := rfl

@[simp] theorem Chunk.hdr_length (c : Chunk) : c.hdr.length.toNat = c.body.length :=
  c.toNat_length

variable (u : Uninit)

theorem checked_strncmp (lit : Bytes) {p : Bytes} (hl : 4 ≤ lit.length) (h0 : 0 ∉ lit.take 4)
    (hp : p.length = 4) (s : State) : ∃ d,
      (checked .strncmp (strncmp lit p 4)).run s = .ok d s ∧ (d = 0 ↔ p = lit.take 4) := by
  obtain ⟨d, hd, hiff⟩ := strncmp_eq_zero_iff hl (Nat.le_of_eq hp.symm) (.inl h0)
  rw [List.take_of_length_le (Nat.le_of_eq hp)] at hiff
  exact ⟨d, by rw [hd, checked_some], by rw [hiff, eq_comm]⟩

theorem loadChunk_eq (c : Chunk) (s : State) : (loadChunk u c.hdr).run s =
    (if c.isIHDR then loadIHDR c.hdr
      else if c.isTEXT then loadTEXT u c.hdr
      else (do fileIgnore c.body.length; throwIfNot .cantSkip) : M Unit).run s := by
  obtain ⟨d, hd, hd0⟩ := checked_strncmp litIHDR (by decide) (by decide) c.type_length s
  obtain ⟨t, ht, ht0⟩ := checked_strncmp litTEXT (by decide) (by decide) c.type_length s
  have hI : c.isIHDR = true ↔ d = 0 := by
    rw [hd0, Chunk.isIHDR, beq_iff_eq, typeIHDR]
  have hT : c.isTEXT = true ↔ t = 0 := by
    rw [ht0, Chunk.isTEXT, beq_iff_eq, typeTEXT]
  rw [loadChunk, c.hdr_type, c.hdr_length, bind_ok hd]
  by_cases h1 : d = 0
  · rw [if_pos h1, if_pos (hI.mpr h1)]
  · rw [if_neg h1, if_neg (fun h => h1 (hI.mp h)), bind_ok ht]
    by_cases h2 : t = 0
    · rw [if_pos h2, if_pos (hT.mpr h2)]
    · rw [if_neg h2, if_neg (fun h => h2 (hT.mp h))]

/-! ## A body that is all there -/

/-- The result of loading a chunk is what the chunk means, and the stream is at `r`. -/
def Agrees (res : EStateM.Result Failure State Unit) (r : Bytes) (png : PngInfo) :
    Except Failure PngInfo → Prop
  | .ok png' => res = .ok () ⟨IStream.ofBytes r, png'⟩
  | .error e => ∃ f, res = .error e ⟨f, png⟩

theorem hdr_length_eq_iff (c : Chunk) : c.hdr.length = 13 ↔ c.body.length = 13 := by
  rw [← UInt32.toNat_inj, c.hdr_length]
  rfl

theorem loadIHDR_body {c : Chunk} (hc : c.body.length = 13) (r : Bytes) (png : PngInfo) :
    (loadIHDR c.hdr).run ⟨IStream.ofBytes (c.body ++ r), png⟩
      = .ok () ⟨IStream.ofBytes r, { png with hdr := IhdrChunk.decode c.body }⟩ := by
  rw [loadIHDR, if_neg (not_not.mpr ((hdr_length_eq_iff c).mpr hc)),
    bind_ok (fileRead_append (by decide) hc r png), bind_ok (throwIfNot_ok rfl)]
  simp only [IhdrChunk.ofHost, ntohl_le32]
  rfl

theorem loadIHDR_badSize {c : Chunk} (hc : c.body.length ≠ 13) (s : State) :
    (loadIHDR c.hdr).run s = .error (.thrown .badIhdrSize) s := by
  rw [loadIHDR, if_pos (mt (hdr_length_eq_iff c).mp hc)]
  rfl

/-- Without a NUL in the body, `strlen` runs off its end. -/
theorem parseTEXT_no_nul {c : Chunk} (h : 0 ∉ c.body) (s : State) :
    (parseTEXT u c.body c.hdr).run s = .error (.fault .strlen) s := by
  rw [parseTEXT, bind_ok (EStateM.run_get s), strlen_eq, if_neg h, bind_error (checked_none _ s)]

/-- With a NUL in the body the first three accesses are in bounds, and what is left is the
copy into `keyword`. -/
theorem parseTEXT_nul {c : Chunk} (h : 0 ∈ c.body) (s : State) :
    (parseTEXT u c.body c.hdr).run s
      = (do
          let keyword ← checked .memcpy
            ((u.keyword s.png.textChunks.length).memcpy c.body c.body.length)
          let tc : TextChunk := { keyword, text :=
            { id := s.png.textChunks.length, bytes := beforeNul (afterNul c.body) } }
          modify fun s => { s with png := { s.png with textChunks := s.png.textChunks ++ [tc] } }
          : M Unit).run s := by
  have hlt : (beforeNul c.body).length + 1 ≤ c.body.length := beforeNul_length_lt h
  have hdup : strndup (c.body.length - ((beforeNul c.body).length + 1))
      (c.body.drop ((beforeNul c.body).length + 1)) = some (beforeNul (afterNul c.body)) := by
    rw [strndup_eq (by simp), List.take_of_length_le (by simp), afterNul]
  rw [parseTEXT, bind_ok (EStateM.run_get s), c.hdr_length, strlen_eq, if_pos h,
    bind_ok (checked_some _ _ s), sizeSub, if_pos hlt, bind_ok (checked_some _ _ s), hdup,
    bind_ok (checked_some _ _ s)]

theorem parseTEXT_body (c : Chunk) (s : State) : (parseTEXT u c.body c.hdr).run s =
    if 0 ∈ c.body then
      if h : c.body.length ≤ 80 then .ok () { s with png := s.png.addText u c.body h }
      else .error (.fault .memcpy) s
    else .error (.fault .strlen) s := by
  by_cases h0 : 0 ∈ c.body
  · rw [if_pos h0, parseTEXT_nul u h0]
    by_cases h80 : c.body.length ≤ 80
    · have hcpy : (u.keyword s.png.textChunks.length).memcpy c.body c.body.length
          = some (storeKeyword (u.keyword s.png.textChunks.length) c.body h80) := by
        simp [CharArray.memcpy, storeKeyword, h80]
      rw [dif_pos h80, hcpy]
      rfl
    · rw [dif_neg h80, CharArray.memcpy_none (Nat.not_le.mp h80)]
      rfl
  · rw [if_neg h0, parseTEXT_no_nul u h0]

/-- **With its whole body in the stream, a chunk is loaded as it should be.** -/
theorem loadChunk_body (c : Chunk) (r : Bytes) (png : PngInfo) :
    Agrees ((loadChunk u c.hdr).run ⟨IStream.ofBytes (c.body ++ r), png⟩) r png
      (c.load u png) := by
  rw [loadChunk_eq, Chunk.load]
  by_cases hI : c.isIHDR = true
  · rw [if_pos hI, if_pos hI]
    by_cases h13 : c.body.length = 13
    · rw [if_pos h13]
      exact loadIHDR_body h13 r png
    · rw [if_neg h13, loadIHDR_badSize h13]
      exact ⟨_, rfl⟩
  · rw [if_neg hI, if_neg hI]
    by_cases hT : c.isTEXT = true
    · rw [if_pos hT, if_pos hT, loadTEXT, c.hdr_length,
        bind_ok (fileRead_append (Nat.le_refl _) rfl r png), bind_ok (throwIfNot_ok rfl),
        parseTEXT_body]
      split
      · split
        · rfl
        · exact ⟨_, rfl⟩
      · exact ⟨_, rfl⟩
    · rw [if_neg hT, if_neg hT, bind_ok (fileIgnore_append rfl r png), throwIfNot_ok rfl]
      rfl

/-! ## One round

After a short `read` the branch itself throws. After a short `ignore` only `eofbit` is set,
so `Can't skip chunk` is never thrown: the `ignore` of the checksum notices. A checksum that
is cut leaves `eofbit` in the same way, and nothing looks at it before the next `read`.
-/

/-- The loop body is entered with the header in host byte order. -/
theorem chunkIter_header (c : Chunk) (r : Bytes) (png : PngInfo) :
    (chunkIter u).run ⟨IStream.ofBytes (c.header ++ r), png⟩
      = (do
          loadChunk u c.hdr
          fileIgnore 4
          throwIfNot .cantReadChecksum
          pure true : M Bool).run ⟨IStream.ofBytes r, png⟩ := by
  have hword : ntohl (le32 c.header) = UInt32.ofNat c.body.length := by
    rw [ntohl_le32, Chunk.header, be32_be32Bytes]
  have htype : (c.header.drop 4).take 4 = c.type := by
    rw [Chunk.header, List.drop_left' (be32Bytes_length _),
      List.take_of_length_le (Nat.le_of_eq c.type_length)]
  rw [chunkIter_eq, IStream.read_append c.header_length, IStream.fail_ofBytes, if_neg (by decide),
    chunkBody]
  simp only [ChunkHdr.ofHost, hword, htype]
  rfl

/-- A chunk that cannot be loaded stops the round, whatever follows its body. -/
theorem chunkIter_error {c : Chunk} {png : PngInfo} {e : Failure} (h : c.load u png = .error e)
    (r : Bytes) : ∃ f, (chunkIter u).run ⟨IStream.ofBytes (c.header ++ (c.body ++ r)), png⟩
      = .error e ⟨f, png⟩ := by
  have hload := loadChunk_body u c r png
  rw [h] at hload
  obtain ⟨f, hf⟩ := hload
  rw [chunkIter_header]
  exact ⟨f, bind_error hf⟩

/-- A complete chunk. -/
theorem chunkIter_encode {c : Chunk} {png png' : PngInfo} (h : c.load u png = .ok png')
    (r : Bytes) : (chunkIter u).run ⟨IStream.ofBytes (c.encode ++ r), png⟩
      = .ok true ⟨IStream.ofBytes r, png'⟩ := by
  have hload := loadChunk_body u c (c.crc ++ r) png
  rw [h] at hload
  rw [Chunk.encode, List.append_assoc, List.append_assoc, chunkIter_header, bind_ok hload,
    bind_ok (fileIgnore_append c.crc_length r png'), bind_ok (throwIfNot_ok rfl)]
  rfl

/-- A chunk whose checksum is cut. -/
theorem chunkIter_cutCrc {c : Chunk} {png png' : PngInfo} (h : c.load u png = .ok png')
    {p : Bytes} (hp : p.length < 4) :
    (chunkIter u).run ⟨IStream.ofBytes (c.header ++ (c.body ++ p)), png⟩
      = .ok true ⟨{ rest := [], eof := true, fail := false }, png'⟩ := by
  have hload := loadChunk_body u c p png
  rw [h] at hload
  rw [chunkIter_header, bind_ok hload, bind_ok (fileIgnore_short hp png'),
    bind_ok (throwIfNot_ok rfl)]
  rfl

/-- A chunk whose body is cut. -/
theorem chunkIter_cutBody (c : Chunk) {p : Bytes} (h : p.length < c.body.length)
    (png : PngInfo) : ∃ f, (chunkIter u).run ⟨IStream.ofBytes (c.header ++ p), png⟩
      = .error (.thrown c.cutError) ⟨f, png⟩ := by
  rw [chunkIter_header, EStateM.run_bind, loadChunk_eq, Chunk.cutError]
  by_cases hI : c.isIHDR = true
  · rw [if_pos hI, if_pos hI]
    by_cases h13 : c.body.length = 13
    · rw [if_pos h13, loadIHDR, if_neg (not_not.mpr ((hdr_length_eq_iff c).mpr h13)),
        bind_ok (fileRead_short (by decide) (h13 ▸ h) png), bind_error (throwIfNot_error rfl)]
      exact ⟨_, rfl⟩
    · rw [if_neg h13, loadIHDR_badSize h13]
      exact ⟨_, rfl⟩
  · rw [if_neg hI, if_neg hI]
    by_cases hT : c.isTEXT = true
    · rw [if_pos hT, if_pos hT, loadTEXT, c.hdr_length,
        bind_ok (fileRead_short (Nat.le_refl _) h png), bind_error (throwIfNot_error rfl)]
      exact ⟨_, rfl⟩
    · rw [if_neg hT, if_neg hT, bind_ok (fileIgnore_short h png), throwIfNot_ok rfl]
      exact ⟨_, rfl⟩

/-- An IHDR of another size is not read. -/
theorem chunkIter_badSize {c : Chunk} (hI : c.isIHDR) (h13 : c.body.length ≠ 13) (r : Bytes)
    (png : PngInfo) : ∃ f, (chunkIter u).run ⟨IStream.ofBytes (c.header ++ r), png⟩
      = .error (.thrown .badIhdrSize) ⟨f, png⟩ := by
  have hload : (loadChunk u c.hdr).run ⟨IStream.ofBytes r, png⟩
      = .error (.thrown .badIhdrSize) ⟨IStream.ofBytes r, png⟩ := by
    rw [loadChunk_eq, if_pos hI, loadIHDR_badSize h13]
  rw [chunkIter_header, bind_error hload]
  exact ⟨_, rfl⟩

/-- A header that is cut. -/
theorem chunkIter_cutHeader {p : Bytes} (h : p.length < 8) (png : PngInfo) :
    ∃ f, (chunkIter u).run ⟨IStream.ofBytes p, png⟩ = .ok false ⟨f, png⟩ := by
  rw [chunkIter_eq, IStream.read_short h]
  exact ⟨_, rfl⟩

/-- A stream that has met its end. -/
theorem chunkIter_eof (p : Bytes) (fail : Bool) (png : PngInfo) :
    ∃ f, (chunkIter u).run ⟨{ rest := p, eof := true, fail }, png⟩ = .ok false ⟨f, png⟩ := by
  rw [chunkIter_eq, IStream.read_eof]
  exact ⟨_, rfl⟩

/-! ## The loop -/

theorem chunkLoop_eq (s : State) : chunkLoop u s =
    match (chunkIter u).run s with
    | .error e s' => .stopped e s'.png
    | .ok false s' => .returned s'.png
    | .ok true s' => chunkLoop u s' := by
  rw [chunkLoop]
  split <;> simp_all

theorem chunkLoop_error {c : Chunk} {png : PngInfo} {e : Failure} (h : c.load u png = .error e)
    (r : Bytes) :
    chunkLoop u ⟨IStream.ofBytes (c.header ++ (c.body ++ r)), png⟩ = .stopped e png := by
  obtain ⟨f, hf⟩ := chunkIter_error u h r
  rw [chunkLoop_eq, hf]

/-- **A complete chunk at the front of the stream does what it means, and the loop goes on
behind it.** -/
theorem chunkLoop_encode (c : Chunk) (r : Bytes) (png : PngInfo) :
    chunkLoop u ⟨IStream.ofBytes (c.encode ++ r), png⟩
      = (loadAll u [c] png).andThen fun png' => chunkLoop u ⟨IStream.ofBytes r, png'⟩ := by
  cases hc : c.load u png with
  | ok png' =>
    rw [chunkLoop_eq, chunkIter_encode u hc, loadAll, hc]
    rfl
  | error e =>
    rw [Chunk.encode, List.append_assoc, List.append_assoc, chunkLoop_error u hc, loadAll, hc]
    rfl

theorem chunkLoop_encodeAll (cs : List Chunk) (r : Bytes) (png : PngInfo) :
    chunkLoop u ⟨IStream.ofBytes (encodeAll cs ++ r), png⟩
      = (loadAll u cs png).andThen fun png' => chunkLoop u ⟨IStream.ofBytes r, png'⟩ := by
  induction cs generalizing png with
  | nil => rfl
  | cons c cs ih =>
    rw [encodeAll_cons, List.append_assoc, chunkLoop_encode]
    simp only [loadAll]
    cases c.load u png with
    | ok png' => exact ih png'
    | error e => rfl

theorem chunkLoop_short {p : Bytes} (h : p.length < 8) (png : PngInfo) :
    chunkLoop u ⟨IStream.ofBytes p, png⟩ = .returned png := by
  obtain ⟨f, hf⟩ := chunkIter_cutHeader u h png
  rw [chunkLoop_eq, hf]

/-- **A file that ends inside a chunk.** -/
theorem chunkLoop_take (c : Chunk) {k : Nat} (hk : k < c.encode.length) (png : PngInfo) :
    chunkLoop u ⟨IStream.ofBytes (c.encode.take k), png⟩ = c.loadCut u k png := by
  rw [c.encode_length] at hk
  rw [Chunk.loadCut]
  by_cases h8 : k < 8
  · rw [if_pos h8, chunkLoop_short u (by rw [List.length_take]; omega)]
  rw [if_neg h8]
  by_cases hbody : k < 8 + c.body.length
  · rw [if_pos hbody, c.encode_take_body (by omega) (by omega)]
    obtain ⟨f, hf⟩ := chunkIter_cutBody u c (p := c.body.take (k - 8))
      (by rw [List.length_take]; omega) png
    rw [chunkLoop_eq, hf]
  · rw [if_neg hbody, c.encode_take_crc (by omega), loadAll]
    cases hc : c.load u png with
    | ok png' =>
      rw [chunkLoop_eq, chunkIter_cutCrc u hc (by rw [List.length_take]; omega)]
      obtain ⟨f, hf⟩ := chunkIter_eof u [] false png'
      show chunkLoop u _ = _
      rw [chunkLoop_eq, hf]
      rfl
    | error e => rw [chunkLoop_error u hc]

/-! ## The constructor -/

theorem openPng_signature (r : Bytes) (png : PngInfo) :
    openPng.run ⟨IStream.ofBytes (pngHdr ++ r), png⟩ = .ok () ⟨IStream.ofBytes r, png⟩ := by
  rw [openPng, bind_ok (fileRead_append (Nat.le_refl 8) rfl r png), bind_ok (throwIfNot_ok rfl)]
  rfl

/-- The exception for a file that does not begin with the signature. -/
def signatureError (p : Bytes) : PngError :=
  if p.length < 8 then .cantReadHeader else .headerMismatch

/-- A file that does not begin with the signature is rejected. -/
theorem openPng_reject {p : Bytes} (h : ¬pngHdr <+: p) (png : PngInfo) :
    ∃ f, openPng.run ⟨IStream.ofBytes p, png⟩ = .error (.thrown (signatureError p)) ⟨f, png⟩ := by
  rw [signatureError]
  by_cases h8 : p.length < 8
  · rw [if_pos h8, openPng, bind_ok (fileRead_short (Nat.le_refl 8) h8 png),
      bind_error (throwIfNot_error rfl)]
    exact ⟨_, rfl⟩
  · have h4 : (p.take 8).length = 8 := by
      rw [List.length_take]
      omega
    obtain ⟨d, hd, hiff⟩ := strncmp_eq_zero_iff (q := pngHdr) (Nat.le_of_eq h4.symm)
      (by decide) (.inr (by decide))
    have hne : d ≠ 0 := by
      intro h0
      have heq := hiff.mp h0
      rw [List.take_take, Nat.min_self, List.take_of_length_le (l := pngHdr) (by decide)] at heq
      exact h (heq ▸ List.take_prefix 8 p)
    have hread := fileRead_append (Nat.le_refl 8) h4 (p.drop 8) png
    rw [List.take_append_drop] at hread
    rw [if_neg h8, openPng, bind_ok hread, bind_ok (throwIfNot_ok rfl), hd,
      bind_ok (checked_some _ d _), if_pos hne]
    exact ⟨_, rfl⟩

/-- The object before the first chunk. -/
def Uninit.png : PngInfo := { textChunks := [], hdr := u.hdr }

theorem pngInfo_signature (r : Bytes) : pngInfo u (some (pngHdr ++ r))
    = chunkLoop u ⟨IStream.ofBytes r, u.png⟩ := by
  simp only [pngInfo, openPng_signature]
  rfl

theorem pngInfo_reject {p : Bytes} (h : ¬pngHdr <+: p) :
    pngInfo u (some p) = .stopped (.thrown (signatureError p)) u.png := by
  obtain ⟨f, hf⟩ := openPng_reject h u.png
  simp only [pngInfo, Uninit.png] at hf ⊢
  rw [hf]

/-- **The run on every file with a signature**: its complete chunks, and then the beginning
of one more. -/
theorem pngInfo_chunks (cs : List Chunk) (c : Chunk) {k : Nat} (hk : k < c.encode.length) :
    pngInfo u (some (pngHdr ++ (encodeAll cs ++ c.encode.take k)))
      = (loadAll u cs u.png).andThen (c.loadCut u k) := by
  rw [pngInfo_signature, chunkLoop_encodeAll]
  congr 1
  funext png
  exact chunkLoop_take u c hk png

end OsProg.Png
