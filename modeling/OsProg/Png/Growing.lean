import OsProg.Png.Failures

/-!
# A file that is still growing

A file that has not come to its end is rejected for a reason that may go away. For each failure,
whether some continuation of the file is accepted (`completable_iff`):

* what is wrong with the bytes that are there stays wrong, and fails in the same way for every
  continuation (`cause_append`)
* bytes that are missing can still come, but a tEXt chunk of more than 80 bytes will never fit
-/

namespace OsProg.Png

open Infra

variable {u : Uninit} {bytes type r : Bytes} {n : Nat}

/-! ## What stays wrong -/

/-- The failures that are about bytes that are there. -/
def Failure.Final : Failure → Prop
  | .thrown .headerMismatch | .thrown .badIhdrSize | .fault _ => True
  | .thrown .cantOpen | .thrown .cantReadHeader | .thrown .cantReadIhdr | .thrown .cantReadText
  | .thrown .cantSkip | .thrown .cantReadChecksum => False

theorem Reaches.append (h : Reaches bytes type n r) (more : Bytes) :
    Reaches (bytes ++ more) type n (r ++ more) := by
  obtain ⟨cs, hcs, htype, hn, rfl⟩ := h
  exact ⟨cs, hcs, htype, hn, by simp⟩

/-- A whole body stays what it is. -/
theorem take_front (h : n ≤ r.length) (more : Bytes) :
    n ≤ (r ++ more).length ∧ (r ++ more).take n = r.take n :=
  ⟨by rw [List.length_append]; omega, List.take_append_of_le_length h⟩

theorem cause_append {e : Failure} (hfinal : e.Final) (h : Cause bytes e) (more : Bytes) :
    Cause (bytes ++ more) e := by
  cases e with
  | thrown e =>
    cases e with
    | headerMismatch =>
      obtain ⟨hlen, hsig⟩ := h
      refine ⟨by rw [List.length_append]; omega, fun hp => hsig ?_⟩
      exact List.prefix_of_prefix_length_le hp (List.prefix_append bytes more) hlen
    | badIhdrSize =>
      obtain ⟨n, r, hr, h13⟩ := h
      exact ⟨n, r ++ more, hr.append more, h13⟩
    | cantOpen | cantReadHeader | cantReadIhdr | cantReadText | cantSkip | cantReadChecksum =>
      exact hfinal.elim
  | fault f =>
    cases f with
    | strlen =>
      obtain ⟨n, r, hr, hn, h0⟩ := h
      obtain ⟨hn', htake⟩ := take_front hn more
      exact ⟨n, r ++ more, hr.append more, hn', by rwa [htake]⟩
    | memcpy =>
      obtain ⟨n, r, hr, hn, h0, h80⟩ := h
      obtain ⟨hn', htake⟩ := take_front hn more
      exact ⟨n, r ++ more, hr.append more, hn', by rwa [htake], h80⟩
    | read | strncmp | lengthWrap | strndup | printf => exact h.elim

/-! ## What can still come -/

/-- Where more bytes may help. -/
def Waits (bytes : Bytes) : Failure → Prop
  | .thrown .cantReadHeader => bytes <+: pngHdr
  | .thrown .cantReadIhdr | .thrown .cantReadChecksum => True
  | .thrown .cantReadText => ∃ n r, Reaches bytes typeTEXT n r ∧ r.length < n ∧ n ≤ 80
  | .thrown .headerMismatch | .thrown .badIhdrSize | .thrown .cantOpen | .thrown .cantSkip
  | .fault _ => False

theorem accepted_of_chunks {cs : List Chunk} (hcs : ∀ c ∈ cs, c.Sized ∧ c.Safe) :
    ∃ png, pngInfo u (some (pngHdr ++ encodeAll cs)) = .returned png := by
  obtain ⟨png, hload, -⟩ := loadAll_safe u cs (fun c hc => (hcs c hc).1) (fun c hc => (hcs c hc).2)
    u.png
  refine ⟨png, ?_⟩
  have hend := chunkLoop_encodeAll u cs [] u.png
  rw [List.append_nil, hload] at hend
  rw [pngInfo_signature, hend]
  exact chunkLoop_short u (by simp) png

/-- A chunk whose body is cut is completed with zeros, and with a checksum. -/
theorem completed_of_cut (hr : Reaches bytes type n r) (hcut : r.length < n)
    (h13 : type = typeIHDR → n = 13) (h80 : type = typeTEXT → n ≤ 80) :
    ∃ more png, pngInfo u (some (bytes ++ more)) = .returned png := by
  obtain ⟨cs, hcs, htype, hn, rfl⟩ := hr
  have hlen : (r ++ List.replicate (n - r.length) 0).length = n := by
    rw [List.length_append, List.length_replicate]
    omega
  let c := chunkOf type (r ++ List.replicate (n - r.length) 0) htype (hlen.symm ▸ hn)
  have hsized : c.Sized := fun hI => hlen.trans (h13 (Chunk.isIHDR_iff.mp hI))
  have hsafe : c.Safe := by
    intro hT
    refine ⟨?_, hlen.trans_le (h80 (Chunk.isTEXT_iff.mp hT))⟩
    -- at least one zero is added, which ends the keyword
    have hzero : n - r.length ≠ 0 := by omega
    simp [c, chunkOf, hzero]
  obtain ⟨png, hpng⟩ := @accepted_of_chunks u (cs ++ [c]) fun d hd => by
    rcases List.mem_append.mp hd with hd | hd
    · exact hcs d hd
    · obtain rfl := List.mem_singleton.mp hd
      exact ⟨hsized, hsafe⟩
  refine ⟨List.replicate (n - r.length) 0 ++ c.crc, png, ?_⟩
  have hencode : c.encode = be32Bytes (UInt32.ofNat n) ++ type ++ r ++
      (List.replicate (n - r.length) 0 ++ c.crc) := by
    rw [Chunk.encode, Chunk.header, show c.body.length = n from hlen]
    simp [c, chunkOf]
  rw [encodeAll_append, encodeAll_cons, encodeAll_nil, List.append_nil, hencode] at hpng
  rw [← hpng]
  simp

theorem not_cause_of_returned {png : PngInfo} (h : pngInfo u (some bytes) = .returned png)
    (e : Failure) : ¬Cause bytes e := by
  intro he
  obtain ⟨png', hstopped⟩ := @stopped_of_cause u _ _ he
  rw [h] at hstopped
  cases hstopped

/-- No text is completed that is too long for `keyword`. -/
theorem le_of_completed {more : Bytes} {png : PngInfo} (hr : Reaches bytes typeTEXT n r)
    (h : pngInfo u (some (bytes ++ more)) = .returned png) : n ≤ 80 := by
  have hno := not_cause_of_returned h
  have hr' := hr.append more
  by_contra h80
  -- cut, without a NUL, or whole: in each case the continuation fails
  by_cases hn : n ≤ (r ++ more).length
  · by_cases h0 : 0 ∈ (r ++ more).take n
    · exact hno (.fault .memcpy) ⟨n, _, hr', hn, h0, Nat.not_le.mp h80⟩
    · exact hno (.fault .strlen) ⟨n, _, hr', hn, h0⟩
  · exact hno (.thrown .cantReadText) ⟨n, _, hr', Nat.not_le.mp hn⟩

theorem waits_of_completed {e : Failure} {more : Bytes} {png : PngInfo} (he : Cause bytes e)
    (h : pngInfo u (some (bytes ++ more)) = .returned png) : Waits bytes e := by
  have hno : ¬e.Final := fun hfinal =>
    not_cause_of_returned h e (cause_append hfinal he more)
  cases e with
  | fault f => exact hno trivial
  | thrown e =>
    cases e with
    | cantReadHeader =>
      -- an accepted file begins with the signature, of which `bytes` is a part
      have hsig : pngHdr <+: bytes ++ more := by
        by_contra hsig
        rw [pngInfo_reject u hsig] at h
        cases h
      exact List.prefix_of_prefix_length_le (List.prefix_append bytes more) hsig
        (Nat.le_of_lt he)
    | cantReadText =>
      obtain ⟨n, r, hr, hcut⟩ := he
      exact ⟨n, r, hr, hcut, le_of_completed hr h⟩
    | cantReadIhdr | cantReadChecksum => trivial
    | headerMismatch | badIhdrSize => exact hno trivial
    | cantOpen | cantSkip => exact he

theorem completed_of_waits {e : Failure} (he : Cause bytes e) (h : Waits bytes e) :
    ∃ more png, pngInfo u (some (bytes ++ more)) = .returned png := by
  cases e with
  | fault f => exact h.elim
  | thrown e =>
    cases e with
    | cantReadHeader =>
      obtain ⟨more, hmore⟩ := h
      obtain ⟨png, hpng⟩ := @accepted_of_chunks u [] (by simp)
      exact ⟨more, png, by simpa [hmore] using hpng⟩
    | cantReadIhdr =>
      obtain ⟨r, hr, hcut⟩ := he
      exact completed_of_cut hr hcut (fun _ => rfl) (by simp)
    | cantReadText =>
      obtain ⟨n, r, hr, hcut, h80⟩ := h
      exact completed_of_cut hr hcut (fun htype => absurd htype (by decide)) fun _ => h80
    | cantReadChecksum =>
      obtain ⟨type, n, r, hr, hI, hT, hcut⟩ := he
      exact completed_of_cut hr hcut (fun h => (hI h).elim) fun h => (hT h).elim
    | headerMismatch | badIhdrSize | cantOpen | cantSkip => exact h.elim

/-- **Which files can be completed.** A file is the front of an accepted one exactly when it is
accepted itself, or when what makes it fail is only that bytes are missing: of the signature, of an
IHDR, of a chunk of unknown type, or of a tEXt chunk of at most 80 bytes. -/
theorem completable_iff (u : Uninit) (bytes : Bytes) :
    (∃ more png, pngInfo u (some (bytes ++ more)) = .returned png) ↔
      ∀ e, Cause bytes e → Waits bytes e := by
  constructor
  · rintro ⟨more, png, h⟩ e he
    exact waits_of_completed he h
  · intro h
    cases hended : pngInfo u (some bytes) with
    | returned png => exact ⟨[], png, by rw [List.append_nil, hended]⟩
    | stopped e png =>
      have he := cause_of_stopped hended
      exact completed_of_waits he (h e he)

end OsProg.Png
