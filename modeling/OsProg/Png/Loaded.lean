import OsProg.Png.Run

/-!
# When a sequence of chunks loads, and what it leaves

Two conditions on a single chunk decide everything: an IHDR is 13 bytes long (`Sized`), and
a tEXt body has a NUL and fits the array `keyword` (`Safe`). Sequences of such chunks load
(`loadAll_safe`); with sized chunks only, an unsafe one is a fault (`loadAll_unsafe`). Where a
run stops at all is in `exists_of_stopped`.

`PngInfo.texts` reads the stored records as C strings, which is how the program prints them.
It does not see the uninitialised end of `keyword`.
-/

namespace OsProg.Png

open Infra

/-- A tEXt body that the reader handles. -/
def SafeBody (p : Bytes) : Prop := 0 ∈ p ∧ p.length ≤ 80

instance (p : Bytes) : Decidable (SafeBody p) :=
  inferInstanceAs (Decidable (0 ∈ p ∧ p.length ≤ 80))

namespace Chunk

/-- An IHDR has the right size. -/
def Sized (c : Chunk) : Prop := c.isIHDR → c.body.length = 13

/-- A tEXt body is handled. -/
def Safe (c : Chunk) : Prop := c.isTEXT → SafeBody c.body

instance (c : Chunk) : Decidable c.Sized :=
  inferInstanceAs (Decidable (c.isIHDR → c.body.length = 13))

instance (c : Chunk) : Decidable c.Safe :=
  inferInstanceAs (Decidable (c.isTEXT → SafeBody c.body))

/-- What a tEXt body stores: the keyword before the first NUL, and the text after it up to
the next NUL or the end. -/
def pair (c : Chunk) : Bytes × Bytes := (beforeNul c.body, beforeNul (afterNul c.body))

theorem not_isTEXT_of_isIHDR {c : Chunk} (h : c.isIHDR = true) : ¬c.isTEXT = true := by
  rw [isIHDR, beq_iff_eq] at h
  rw [isTEXT, h]
  decide

end Chunk

/-- The stored records, keyword and text read as C strings. -/
def PngInfo.texts (png : PngInfo) : List (Option Bytes × Bytes) :=
  png.textChunks.map fun tc => (cstr tc.keyword.bytes, tc.text.bytes)

/-- The records of the tEXt chunks of a sequence. -/
def textsOf (cs : List Chunk) : List (Option Bytes × Bytes) :=
  (cs.filter Chunk.isTEXT).map fun c => (some c.pair.1, c.pair.2)

/-- The fields of the last IHDR of a sequence, or `hdr` when there is none. -/
def hdrOf (cs : List Chunk) (hdr : IhdrChunk) : IhdrChunk :=
  (((cs.filter Chunk.isIHDR).getLast?).map fun c => IhdrChunk.decode c.body).getD hdr

variable (u : Uninit)

/-! ## One chunk -/

theorem texts_addText {png : PngInfo} {body : Bytes} (h : body.length ≤ 80) (h0 : 0 ∈ body) :
    (png.addText u body h).texts
      = png.texts ++ [(some (beforeNul body), beforeNul (afterNul body))] := by
  simp only [PngInfo.texts, PngInfo.addText, storeKeyword, List.map_append, List.map_cons,
    List.map_nil]
  rw [cstr_eq (List.mem_append_left _ h0), beforeNul_append h0]

/-- A chunk that is sized and safe loads. -/
theorem load_safe {c : Chunk} (hsize : c.Sized) (hsafe : c.Safe) (png : PngInfo) :
    ∃ png', c.load u png = .ok png' ∧ png'.texts = png.texts ++ textsOf [c]
      ∧ png'.hdr = hdrOf [c] png.hdr := by
  rw [Chunk.load]
  by_cases hI : c.isIHDR = true
  · have hT := Chunk.not_isTEXT_of_isIHDR hI
    rw [if_pos hI, if_pos (hsize hI)]
    exact ⟨_, rfl, by simp [textsOf, hT, PngInfo.texts], by simp [hdrOf, hI]⟩
  · rw [if_neg hI]
    by_cases hT : c.isTEXT = true
    · obtain ⟨h0, h80⟩ := hsafe hT
      rw [if_pos hT, if_pos h0, dif_pos h80]
      refine ⟨_, rfl, ?_, by simp [hdrOf, hI, PngInfo.addText]⟩
      rw [texts_addText u h80 h0]
      simp [textsOf, hT, Chunk.pair]
    · rw [if_neg hT]
      exact ⟨_, rfl, by simp [textsOf, hT], by simp [hdrOf, hI]⟩

/-- An unsafe chunk is a fault. -/
theorem load_unsafe {c : Chunk} (h : ¬c.Safe) (png : PngInfo) :
    ∃ f, c.load u png = .error (.fault f) := by
  rw [Chunk.Safe, Classical.not_imp] at h
  obtain ⟨hT, hbody⟩ := h
  have hI : ¬c.isIHDR = true := fun hI => Chunk.not_isTEXT_of_isIHDR hI hT
  rw [Chunk.load, if_neg hI, if_pos hT]
  by_cases h0 : 0 ∈ c.body
  · rw [if_pos h0, dif_neg fun h80 => hbody ⟨h0, h80⟩]
    exact ⟨_, rfl⟩
  · rw [if_neg h0]
    exact ⟨_, rfl⟩

/-- An IHDR of another size is an exception. -/
theorem load_notSized {c : Chunk} (h : ¬c.Sized) (png : PngInfo) :
    c.load u png = .error (.thrown .badIhdrSize) := by
  rw [Chunk.Sized, Classical.not_imp] at h
  rw [Chunk.load, if_pos h.1, if_neg h.2]

theorem sized_safe_of_load {c : Chunk} {png png' : PngInfo} (h : c.load u png = .ok png') :
    c.Sized ∧ c.Safe := by
  refine ⟨?_, ?_⟩
  · by_contra hs
    rw [load_notSized u hs] at h
    cases h
  · by_contra hs
    obtain ⟨f, hf⟩ := load_unsafe u hs png
    rw [hf] at h
    cases h

theorem not_safe_of_load_fault {c : Chunk} {png : PngInfo} {f : Fault}
    (h : c.load u png = .error (.fault f)) : ¬c.Safe := by
  intro hsafe
  by_cases hs : c.Sized
  · obtain ⟨png', hok, -⟩ := load_safe u hs hsafe png
    rw [hok] at h
    cases h
  · rw [load_notSized u hs] at h
    cases h

theorem not_sized_of_load_thrown {c : Chunk} {png : PngInfo} {e : PngError}
    (h : c.load u png = .error (.thrown e)) : ¬c.Sized := by
  intro hs
  by_cases hsafe : c.Safe
  · obtain ⟨png', hok, -⟩ := load_safe u hs hsafe png
    rw [hok] at h
    cases h
  · obtain ⟨f, hf⟩ := load_unsafe u hsafe png
    rw [hf] at h
    cases h

/-! ## Sequences -/

theorem textsOf_cons (c : Chunk) (cs : List Chunk) :
    textsOf (c :: cs) = textsOf [c] ++ textsOf cs := by
  rw [textsOf, ← List.singleton_append, List.filter_append, List.map_append]
  rfl

theorem textsOf_append (cs ds : List Chunk) : textsOf (cs ++ ds) = textsOf cs ++ textsOf ds := by
  simp [textsOf]

theorem hdrOf_cons (c : Chunk) (cs : List Chunk) (hdr : IhdrChunk) :
    hdrOf (c :: cs) hdr = hdrOf cs (hdrOf [c] hdr) := by
  by_cases hI : c.isIHDR = true
  · simp only [hdrOf, List.filter_cons_of_pos hI, List.filter_nil]
    cases h : (cs.filter Chunk.isIHDR).getLast? <;> simp [List.getLast?_cons, h]
  · simp [hdrOf, hI]

/-- **Sized and safe chunks load, in order and without loss.** -/
theorem loadAll_safe : ∀ (cs : List Chunk), (∀ c ∈ cs, c.Sized) → (∀ c ∈ cs, c.Safe) →
    ∀ png, ∃ png', loadAll u cs png = .returned png' ∧ png'.texts = png.texts ++ textsOf cs
      ∧ png'.hdr = hdrOf cs png.hdr
  | [], _, _, png => ⟨png, rfl, by simp [textsOf], rfl⟩
  | c :: cs, hsize, hsafe, png => by
    obtain ⟨png₁, h₁, ht₁, hh₁⟩ := load_safe u (hsize c List.mem_cons_self)
      (hsafe c List.mem_cons_self) png
    obtain ⟨png₂, h₂, ht₂, hh₂⟩ := loadAll_safe cs
      (fun d hd => hsize d (List.mem_cons_of_mem _ hd))
      (fun d hd => hsafe d (List.mem_cons_of_mem _ hd)) png₁
    refine ⟨png₂, by rw [loadAll, h₁]; exact h₂, ?_, ?_⟩
    · rw [ht₂, ht₁, textsOf_cons c cs, List.append_assoc]
    · rw [hh₂, hh₁, ← hdrOf_cons]

/-- Among sized chunks an unsafe one is a fault, its own or an earlier one's. -/
theorem loadAll_unsafe : ∀ {cs : List Chunk}, (∀ c ∈ cs, c.Sized) → (∃ c ∈ cs, ¬c.Safe) →
    ∀ png, ∃ f png', loadAll u cs png = .stopped (.fault f) png'
  | [], _, h, _ => by simp at h
  | c :: cs, hsize, h, png => by
    by_cases hc : c.Safe
    · obtain ⟨d, hd, hbad⟩ := h
      have hmem : d ∈ cs := by
        rcases List.mem_cons.mp hd with rfl | hmem
        · exact absurd hc hbad
        · exact hmem
      obtain ⟨png₁, h₁, -⟩ := load_safe u (hsize c List.mem_cons_self) hc png
      rw [loadAll, h₁]
      exact loadAll_unsafe (fun e he => hsize e (List.mem_cons_of_mem _ he)) ⟨d, hmem, hbad⟩ png₁
    · obtain ⟨f, hf⟩ := load_unsafe u hc png
      exact ⟨f, png, by rw [loadAll, hf]⟩

theorem sized_safe_of_loadAll {png' : PngInfo} : ∀ {cs : List Chunk} {png : PngInfo},
    loadAll u cs png = .returned png' → ∀ c ∈ cs, c.Sized ∧ c.Safe
  | [], _, _ => by simp
  | c :: cs, png, h => by
    rw [loadAll] at h
    cases hc : c.load u png with
    | error e =>
      rw [hc] at h
      cases h
    | ok png₁ =>
      rw [hc] at h
      intro d hd
      rcases List.mem_cons.mp hd with rfl | hd
      · exact sized_safe_of_load u hc
      · exact sized_safe_of_loadAll h d hd

/-- What stops a sequence is a chunk behind chunks that were loaded. -/
theorem exists_of_loadAll_stopped {e : Failure} {png' : PngInfo} :
    ∀ {cs : List Chunk} {png : PngInfo}, loadAll u cs png = .stopped e png' →
      ∃ (ds : List Chunk) (c : Chunk) (es : List Chunk), cs = ds ++ c :: es ∧
        loadAll u ds png = .returned png' ∧ c.load u png' = .error e
  | [], _, h => by cases h
  | c :: cs, png, h => by
    rw [loadAll] at h
    cases hc : c.load u png with
    | error e =>
      rw [hc] at h
      cases h
      exact ⟨[], c, cs, rfl, rfl, hc⟩
    | ok png₁ =>
      rw [hc] at h
      obtain ⟨ds, d, es, rfl, hds, hd⟩ := exists_of_loadAll_stopped h
      refine ⟨c :: ds, d, es, rfl, ?_, hd⟩
      rw [loadAll, hc]
      exact hds

theorem texts_of_loadAll {cs : List Chunk} {png png' : PngInfo}
    (h : loadAll u cs png = .returned png') : png'.texts = png.texts ++ textsOf cs := by
  have hcs := sized_safe_of_loadAll u h
  obtain ⟨png₁, h₁, htexts, -⟩ := loadAll_safe u cs (fun c hc => (hcs c hc).1)
    (fun c hc => (hcs c hc).2) png
  rw [h] at h₁
  cases h₁
  exact htexts

/-! ## How a run stops -/

/-- **Behind the signature a run stops at a chunk** behind chunks that were loaded: at its body,
which is all there, or because the body is cut. -/
theorem exists_chunk_of_stopped {p : Bytes} {e : Failure} {png : PngInfo}
    (h : pngInfo u (some (pngHdr ++ p)) = .stopped e png) :
    ∃ (cs : List Chunk) (c : Chunk) (r : Bytes), loadAll u cs u.png = .returned png ∧
      p = encodeAll cs ++ (c.header ++ r) ∧
      ((∃ r', r = c.body ++ r') ∧ c.load u png = .error e ∨
        r.length < c.body.length ∧ e = .thrown c.cutError) := by
  obtain ⟨cs, c, k, hk, rfl⟩ := exists_chunks_take p
  rw [pngInfo_chunks u cs c hk] at h
  cases hcs : loadAll u cs u.png with
  | stopped e' png' =>
    rw [hcs] at h
    cases h
    obtain ⟨ds, d, es, rfl, hds, hd⟩ := exists_of_loadAll_stopped u hcs
    refine ⟨ds, d, d.body ++ (d.crc ++ (encodeAll es ++ c.encode.take k)), hds, ?_,
      .inl ⟨⟨_, rfl⟩, hd⟩⟩
    simp [Chunk.encode]
  | returned png' =>
    rw [hcs] at h
    simp only [Ended.andThen, Chunk.loadCut] at h
    split at h
    · cases h
    next h8 =>
    split at h
    · next hbody =>
      cases h
      refine ⟨cs, c, c.body.take (k - 8), hcs, ?_, .inr ⟨?_, rfl⟩⟩
      · rw [c.encode_take_body (Nat.not_lt.mp h8) (Nat.le_of_lt hbody)]
      · rw [List.length_take]
        omega
    · next hbody =>
      obtain ⟨ds, d, es, hsplit, hds, hd⟩ := exists_of_loadAll_stopped u h
      obtain ⟨rfl, rfl⟩ : ds = [] ∧ d = c := by
        cases ds <;> simp_all
      cases hds
      refine ⟨cs, d, d.body ++ d.crc.take (k - 8 - d.body.length), hcs, ?_,
        .inl ⟨⟨_, rfl⟩, hd⟩⟩
      rw [d.encode_take_crc (Nat.not_lt.mp hbody)]

/-- A run stops at the signature, or at a chunk. -/
theorem exists_of_stopped {bytes : Bytes} {e : Failure} {png : PngInfo}
    (h : pngInfo u (some bytes) = .stopped e png) :
    (png = u.png ∧ ∃ err, e = .thrown err) ∨
      ∃ (cs : List Chunk) (c : Chunk) (r : Bytes), loadAll u cs u.png = .returned png ∧
        bytes = pngHdr ++ (encodeAll cs ++ (c.header ++ r)) ∧
        ((∃ r', r = c.body ++ r') ∧ c.load u png = .error e ∨
          r.length < c.body.length ∧ e = .thrown c.cutError) := by
  by_cases hsig : pngHdr <+: bytes
  · obtain ⟨p, rfl⟩ := hsig
    obtain ⟨cs, c, r, hcs, rfl, hend⟩ := exists_chunk_of_stopped u h
    exact .inr ⟨cs, c, r, hcs, rfl, hend⟩
  · rw [pngInfo_reject u hsig] at h
    cases h
    exact .inl ⟨rfl, _, rfl⟩

end OsProg.Png
