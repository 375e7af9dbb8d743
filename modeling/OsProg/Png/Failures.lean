import OsProg.Png.Loaded

/-!
# Why a file is rejected

For each failure the files that cause it, in terms of the format: the signature, the chunks
in front, and the header at which the reader stops (`stopped_iff`). Every other file is
accepted.

* `Can't skip chunk` is never thrown. A chunk of unknown type whose body is cut is reported as
  a checksum that cannot be read.
* A text is looked at when it is all there, and an IHDR of another size without its body.
* Of the memory accesses only `strlen` and the `memcpy` into `keyword` can go wrong.
-/

namespace OsProg.Png

open Infra

/-! ## Causes -/

/-- Behind the signature and chunks that load stands the header of a chunk of `n` bytes, and
behind it `r`. -/
def Reaches (bytes type : Bytes) (n : Nat) (r : Bytes) : Prop :=
  ∃ cs : List Chunk, (∀ c ∈ cs, c.Sized ∧ c.Safe) ∧ type.length = 4 ∧ n < 2 ^ 32 ∧
    bytes = pngHdr ++ (encodeAll cs ++ (be32Bytes (UInt32.ofNat n) ++ type ++ r))

/-- What a file has to be like to cause a failure. -/
def Cause (bytes : Bytes) : Failure → Prop
  | .thrown .cantReadHeader => bytes.length < 8
  | .thrown .headerMismatch => 8 ≤ bytes.length ∧ ¬pngHdr <+: bytes
  | .thrown .badIhdrSize => ∃ n r, Reaches bytes typeIHDR n r ∧ n ≠ 13
  | .thrown .cantReadIhdr => ∃ r, Reaches bytes typeIHDR 13 r ∧ r.length < 13
  | .thrown .cantReadText => ∃ n r, Reaches bytes typeTEXT n r ∧ r.length < n
  | .thrown .cantReadChecksum =>
    ∃ type n r, Reaches bytes type n r ∧ type ≠ typeIHDR ∧ type ≠ typeTEXT ∧ r.length < n
  | .fault .strlen => ∃ n r, Reaches bytes typeTEXT n r ∧ n ≤ r.length ∧ 0 ∉ r.take n
  | .fault .memcpy =>
    ∃ n r, Reaches bytes typeTEXT n r ∧ n ≤ r.length ∧ 0 ∈ r.take n ∧ 80 < n
  -- a file that could be opened, and accesses that stay inside
  | .thrown .cantOpen | .thrown .cantSkip | .fault .read | .fault .strncmp | .fault .lengthWrap
  | .fault .strndup | .fault .printf => False

variable {u : Uninit} {bytes type r : Bytes} {n : Nat}

/-! ## A failure has a cause -/

theorem Chunk.isIHDR_iff {c : Chunk} : c.isIHDR = true ↔ c.type = typeIHDR := by
  rw [isIHDR, beq_iff_eq]

theorem Chunk.isTEXT_iff {c : Chunk} : c.isTEXT = true ↔ c.type = typeTEXT := by
  rw [isTEXT, beq_iff_eq]

/-- The header of a chunk behind others. -/
theorem reaches_chunk {cs : List Chunk} (hcs : ∀ c ∈ cs, c.Sized ∧ c.Safe) (c : Chunk)
    (r : Bytes) : Reaches (pngHdr ++ (encodeAll cs ++ (c.header ++ r))) c.type c.body.length r :=
  ⟨cs, hcs, c.type_length, c.body_lt, rfl⟩

theorem cause_of_load {c : Chunk} {png : PngInfo} {e : Failure} (h : c.load u png = .error e)
    (hr : Reaches bytes c.type c.body.length (c.body ++ r)) : Cause bytes e := by
  have hle : c.body.length ≤ (c.body ++ r).length := by simp
  rw [Chunk.load] at h
  split at h
  · next hI =>
    rw [Chunk.isIHDR_iff.mp hI] at hr
    split at h
    · cases h
    · next h13 =>
      cases h
      exact ⟨_, _, hr, h13⟩
  · split at h
    · next hT =>
      rw [Chunk.isTEXT_iff.mp hT] at hr
      split at h
      · next h0 =>
        split at h
        · cases h
        · next h80 =>
          cases h
          exact ⟨_, _, hr, hle, by rwa [List.take_left], Nat.not_le.mp h80⟩
      · next h0 =>
        cases h
        exact ⟨_, _, hr, hle, by rwa [List.take_left]⟩
    · cases h

theorem cause_of_cut {c : Chunk} (hr : Reaches bytes c.type c.body.length r)
    (hcut : r.length < c.body.length) : Cause bytes (.thrown c.cutError) := by
  rw [Chunk.cutError]
  by_cases hI : c.isIHDR = true
  · rw [if_pos hI]
    rw [Chunk.isIHDR_iff.mp hI] at hr
    by_cases h13 : c.body.length = 13
    · rw [if_pos h13]
      exact ⟨_, h13 ▸ hr, h13 ▸ hcut⟩
    · rw [if_neg h13]
      exact ⟨_, _, hr, h13⟩
  · rw [if_neg hI]
    by_cases hT : c.isTEXT = true
    · rw [if_pos hT]
      rw [Chunk.isTEXT_iff.mp hT] at hr
      exact ⟨_, _, hr, hcut⟩
    · rw [if_neg hT]
      exact ⟨_, _, _, hr, mt Chunk.isIHDR_iff.mpr hI, mt Chunk.isTEXT_iff.mpr hT, hcut⟩

theorem cause_signatureError (h : ¬pngHdr <+: bytes) :
    Cause bytes (.thrown (signatureError bytes)) := by
  rw [signatureError]
  split
  · next h8 => exact h8
  · next h8 => exact ⟨Nat.not_lt.mp h8, h⟩

theorem cause_of_stopped {e : Failure} {png : PngInfo}
    (h : pngInfo u (some bytes) = .stopped e png) : Cause bytes e := by
  by_cases hsig : pngHdr <+: bytes
  · obtain ⟨p, rfl⟩ := hsig
    obtain ⟨cs, c, r, hcs, rfl, hend⟩ := exists_chunk_of_stopped u h
    have hr := reaches_chunk (sized_safe_of_loadAll u hcs) c r
    rcases hend with ⟨⟨r', rfl⟩, hload⟩ | ⟨hcut, rfl⟩
    · exact cause_of_load hload hr
    · exact cause_of_cut hr hcut
  · rw [pngInfo_reject u hsig] at h
    cases h
    exact cause_signatureError hsig

/-! ## A cause has its failure -/

/-- The run comes to the header. -/
theorem pngInfo_reaches {c : Chunk} (hr : Reaches bytes c.type c.body.length r) :
    ∃ png, pngInfo u (some bytes) = chunkLoop u ⟨IStream.ofBytes (c.header ++ r), png⟩ := by
  obtain ⟨cs, hcs, -, -, rfl⟩ := hr
  obtain ⟨png, hpng, -⟩ := loadAll_safe u cs (fun d hd => (hcs d hd).1) (fun d hd => (hcs d hd).2)
    u.png
  refine ⟨png, ?_⟩
  rw [pngInfo_signature, chunkLoop_encodeAll, hpng]
  rfl

/-- With its body there, a chunk that does not load stops the run. -/
theorem stopped_of_load {c : Chunk} {e : Failure} (hload : ∀ png, c.load u png = .error e)
    (hr : Reaches bytes c.type c.body.length (c.body ++ r)) :
    ∃ png, pngInfo u (some bytes) = .stopped e png := by
  obtain ⟨png, hpng⟩ := pngInfo_reaches hr
  exact ⟨png, hpng.trans (chunkLoop_error u (hload png) r)⟩

/-- A chunk whose body is cut stops the run. -/
theorem stopped_of_cut {c : Chunk} (hr : Reaches bytes c.type c.body.length r)
    (hcut : r.length < c.body.length) :
    ∃ png, pngInfo u (some bytes) = .stopped (.thrown c.cutError) png := by
  obtain ⟨png, hpng⟩ := pngInfo_reaches hr
  obtain ⟨f, hf⟩ := chunkIter_cutBody u c hcut png
  exact ⟨png, by rw [hpng, chunkLoop_eq, hf]⟩

/-- An IHDR of another size stops the run with or without its body. -/
theorem stopped_of_badSize {c : Chunk} (hI : c.isIHDR = true) (h13 : c.body.length ≠ 13)
    (hr : Reaches bytes c.type c.body.length r) :
    ∃ png, pngInfo u (some bytes) = .stopped (.thrown .badIhdrSize) png := by
  obtain ⟨png, hpng⟩ := pngInfo_reaches hr
  obtain ⟨f, hf⟩ := chunkIter_badSize u hI h13 r png
  exact ⟨png, by rw [hpng, chunkLoop_eq, hf]⟩

/-- A chunk with a zero checksum. -/
def chunkOf (type body : Bytes) (htype : type.length = 4) (hbody : body.length < 2 ^ 32) : Chunk :=
  { type, body, crc := [0, 0, 0, 0], type_length := htype, body_lt := hbody,
    crc_length := zeroCrc_length }

/-- The chunk of a header and of the body behind it. -/
theorem Reaches.whole (h : Reaches bytes type n r) (hn : n ≤ r.length) :
    ∃ c : Chunk, c.type = type ∧ c.body = r.take n ∧ c.body.length = n ∧
      Reaches bytes c.type c.body.length (c.body ++ r.drop n) := by
  obtain ⟨cs, hcs, htype, hlt, rfl⟩ := h
  have hlen : (r.take n).length = n := List.length_take_of_le hn
  refine ⟨chunkOf type (r.take n) htype (hlen.symm ▸ hlt), rfl, rfl, hlen, cs, hcs, htype, ?_, ?_⟩
  · exact hlen.symm ▸ hlt
  · simp [chunkOf, Nat.min_eq_left hn]

/-- A chunk with that header. -/
theorem Reaches.header (h : Reaches bytes type n r) :
    ∃ c : Chunk, c.type = type ∧ c.body.length = n ∧ Reaches bytes c.type c.body.length r := by
  obtain ⟨cs, hcs, htype, hlt, rfl⟩ := h
  -- any body will do, since the file is cut before its end or does not come to it
  have hlen : (List.replicate n (0 : UInt8)).length = n := List.length_replicate
  refine ⟨chunkOf type (List.replicate n 0) htype (hlen.symm ▸ hlt), rfl, hlen, cs, hcs, htype,
    hlen.symm ▸ hlt, ?_⟩
  rw [show (chunkOf type (List.replicate n 0) _ _).body.length = n from hlen]
  rfl

theorem stopped_of_text (hr : Reaches bytes typeTEXT n r) (hn : n ≤ r.length) {e : Failure}
    (hload : ∀ (c : Chunk) (png : PngInfo), c.isIHDR = false → c.isTEXT = true →
      c.body = r.take n → c.body.length = n → c.load u png = .error e) :
    ∃ png, pngInfo u (some bytes) = .stopped e png := by
  obtain ⟨c, htype, hbody, hlen, hr⟩ := hr.whole hn
  have hT := Chunk.isTEXT_iff.mpr htype
  have hI : c.isIHDR = false := by
    rw [Chunk.isIHDR, htype]
    decide
  exact stopped_of_load (fun png => hload c png hI hT hbody hlen) hr

theorem stopped_of_thrown {e : PngError} (h : Cause bytes (.thrown e)) :
    ∃ png, pngInfo u (some bytes) = .stopped (.thrown e) png := by
  cases e with
  | cantOpen | cantSkip => exact h.elim
  | cantReadHeader =>
    have hlen : bytes.length < 8 := h
    have hsig : ¬pngHdr <+: bytes := fun hp => Nat.not_lt.mpr hp.length_le hlen
    exact ⟨u.png, by rw [pngInfo_reject u hsig, signatureError, if_pos hlen]⟩
  | headerMismatch =>
    obtain ⟨hlen, hsig⟩ := h
    exact ⟨u.png, by rw [pngInfo_reject u hsig, signatureError, if_neg (Nat.not_lt.mpr hlen)]⟩
  | badIhdrSize =>
    obtain ⟨n, r, hr, h13⟩ := h
    obtain ⟨c, htype, rfl, hc⟩ := hr.header
    exact stopped_of_badSize (Chunk.isIHDR_iff.mpr htype) h13 hc
  | cantReadIhdr =>
    obtain ⟨r, hr, hcut⟩ := h
    obtain ⟨c, htype, hlen, hc⟩ := hr.header
    have herr : c.cutError = .cantReadIhdr := by
      rw [Chunk.cutError, if_pos (Chunk.isIHDR_iff.mpr htype), if_pos hlen]
    exact herr ▸ stopped_of_cut hc (hlen.symm ▸ hcut)
  | cantReadText =>
    obtain ⟨n, r, hr, hcut⟩ := h
    obtain ⟨c, htype, rfl, hc⟩ := hr.header
    have hT := Chunk.isTEXT_iff.mpr htype
    have herr : c.cutError = .cantReadText := by
      rw [Chunk.cutError, if_neg fun hI => Chunk.not_isTEXT_of_isIHDR hI hT, if_pos hT]
    exact herr ▸ stopped_of_cut hc hcut
  | cantReadChecksum =>
    obtain ⟨type, n, r, hr, hI, hT, hcut⟩ := h
    obtain ⟨c, rfl, rfl, hc⟩ := hr.header
    have herr : c.cutError = .cantReadChecksum := by
      rw [Chunk.cutError, if_neg (mt Chunk.isIHDR_iff.mp hI), if_neg (mt Chunk.isTEXT_iff.mp hT)]
    exact herr ▸ stopped_of_cut hc hcut

theorem stopped_of_fault {f : Fault} (h : Cause bytes (.fault f)) :
    ∃ png, pngInfo u (some bytes) = .stopped (.fault f) png := by
  cases f with
  | read | strncmp | lengthWrap | strndup | printf => exact h.elim
  | strlen =>
    obtain ⟨n, r, hr, hn, h0⟩ := h
    refine stopped_of_text hr hn fun c png hI hT hbody _ => ?_
    simp [Chunk.load, hI, hT, hbody, h0]
  | memcpy =>
    obtain ⟨n, r, hr, hn, h0, h80⟩ := h
    refine stopped_of_text hr hn fun c png hI hT hbody hlen => ?_
    have hlong : ¬c.body.length ≤ 80 := by omega
    simp only [Chunk.load, hI, hT, hbody ▸ h0, dif_neg hlong, if_pos, Bool.false_eq_true, if_false]

theorem stopped_of_cause {e : Failure} (h : Cause bytes e) :
    ∃ png, pngInfo u (some bytes) = .stopped e png := by
  cases e with
  | fault f => exact stopped_of_fault h
  | thrown e => exact stopped_of_thrown h

/-- **Why a file is rejected.** The constructor stops with a failure exactly on the files that
are a cause of it. -/
theorem stopped_iff (u : Uninit) (bytes : Bytes) (e : Failure) :
    (∃ png, pngInfo u (some bytes) = .stopped e png) ↔ Cause bytes e := by
  constructor
  · rintro ⟨png, h⟩
    exact cause_of_stopped h
  · intro h
    exact stopped_of_cause h

end OsProg.Png
