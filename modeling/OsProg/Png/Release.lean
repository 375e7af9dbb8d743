import OsProg.Png.Safety
import OsProg.Png.Storage
import Mathlib.Data.List.Nodup

/-!
# When the strings are released

`~PngInfo` frees the strings of the object, and it is called when the constructor has returned.
When the constructor throws, the strings it has stored are never freed. So they are all released
as long as no exception comes behind a tEXt chunk (`released_iff`).
-/

namespace OsProg.Png

open Infra Storage

variable (u : Uninit)

/-- Each string that was allocated was freed once, and nothing else was. -/
def Released (l : Ledger) : Prop := l.allocated.Nodup ∧ l.freed.Perm l.allocated

/-- Behind complete chunks, a tEXt chunk among them, stands the header of an IHDR of another size,
or of a chunk whose body is cut. -/
def BreaksOff (bytes : Bytes) : Prop :=
  ∃ (cs : List Chunk) (c : Chunk) (r : Bytes), (∀ d ∈ cs, d.Sized) ∧ (∃ d ∈ cs, d.isTEXT) ∧
    (¬c.Sized ∨ r.length < c.body.length) ∧ bytes = pngHdr ++ (encodeAll cs ++ (c.header ++ r))

/-! ## How a run ends, and the ledger -/

theorem nodup_strings {png : PngInfo} {l : Ledger} (h : Balanced png l) : (strings png).Nodup := by
  have hids : ((strings png).map (·.id)).Nodup := by
    rw [h.numbered]
    exact List.nodup_range
  exact List.Nodup.of_map (·.id) hids

theorem lifetime_returned {bytes : Bytes} {png : PngInfo}
    (h : pngInfo u (some bytes) = .returned png) : Released (lifetime u bytes).2 := by
  obtain ⟨hend, hsettled⟩ := pngInfo_tracked u bytes
  rw [h] at hend hsettled
  have hrun : Storage.pngInfo u bytes = (.returned png, (Storage.pngInfo u bytes).2) :=
    Prod.ext hend rfl
  rw [lifetime, hrun]
  simp only [destroy, foldl_free]
  refine ⟨?_, ?_⟩
  · rw [hsettled.allocated]
    exact nodup_strings hsettled
  · rw [hsettled.allocated, hsettled.freed]
    exact List.Perm.refl _

theorem lifetime_thrown {bytes : Bytes} {e : PngError} {png : PngInfo}
    (h : pngInfo u (some bytes) = .stopped (.thrown e) png) :
    Released (lifetime u bytes).2 ↔ png.textChunks = [] := by
  obtain ⟨hend, hsettled⟩ := pngInfo_tracked u bytes
  rw [h] at hend hsettled
  have hrun : Storage.pngInfo u bytes = (.stopped (.thrown e) png, (Storage.pngInfo u bytes).2) :=
    Prod.ext hend rfl
  rw [lifetime, hrun]
  have hbalanced : Balanced png (Storage.pngInfo u bytes).2 := by
    rcases hsettled with ⟨f, hf⟩ | hbalanced
    · cases hf
    · exact hbalanced
  have hstrings : strings png = [] ↔ png.textChunks = [] := List.map_eq_nil_iff
  rw [← hstrings, ← hbalanced.allocated, Released, hbalanced.freed, List.nil_perm]
  refine ⟨fun hreleased => hreleased.2, fun hnil => ⟨?_, hnil⟩⟩
  rw [hnil]
  exact List.nodup_nil

/-! ## Exceptions behind a tEXt chunk -/

theorem textChunks_of_loadAll {cs : List Chunk} {png : PngInfo}
    (h : loadAll u cs u.png = .returned png) :
    png.textChunks ≠ [] ↔ ∃ c ∈ cs, c.isTEXT := by
  have htexts := texts_of_loadAll u h
  have hnil : png.textChunks = [] ↔ png.texts = [] := List.map_eq_nil_iff.symm
  rw [ne_eq, hnil, htexts]
  simp [PngInfo.texts, Uninit.png, textsOf]

/-- An exception that leaves a text chunk behind comes from a file that breaks off. -/
theorem breaksOff_of_thrown {bytes : Bytes} {e : PngError} {png : PngInfo}
    (h : pngInfo u (some bytes) = .stopped (.thrown e) png) (hne : png.textChunks ≠ []) :
    BreaksOff bytes := by
  rcases exists_of_stopped u h with ⟨rfl, _⟩ | ⟨cs, c, r, hcs, hbytes, hstop⟩
  · exact absurd rfl hne
  · refine ⟨cs, c, r, fun d hd => (sized_safe_of_loadAll u hcs d hd).1,
      (textChunks_of_loadAll u hcs).mp hne, ?_, hbytes⟩
    rcases hstop with ⟨_, hload⟩ | ⟨hcut, _⟩
    · exact .inl (not_sized_of_load_thrown u hload)
    · exact .inr hcut

/-- A file that breaks off is an exception, with a text chunk stored. -/
theorem thrown_of_breaksOff {bytes : Bytes} (hin : InBounds u bytes) (h : BreaksOff bytes) :
    ∃ e png, pngInfo u (some bytes) = .stopped (.thrown e) png ∧ png.textChunks ≠ [] := by
  obtain ⟨cs, c, r, hsized, htext, hc, rfl⟩ := h
  unfold InBounds at hin
  rw [pngInfo_signature, chunkLoop_encodeAll] at hin ⊢
  have hsafe : ∀ d ∈ cs, d.Safe := by
    by_contra hbad
    simp only [not_forall] at hbad
    obtain ⟨d, hd, hbad⟩ := hbad
    obtain ⟨f, png, hf⟩ := loadAll_unsafe u hsized ⟨d, hd, hbad⟩ u.png
    rw [hf] at hin
    exact hin f png rfl
  obtain ⟨png, hpng, -⟩ := loadAll_safe u cs hsized hsafe u.png
  rw [hpng]
  have hstop : ∃ e f, (chunkIter u).run ⟨IStream.ofBytes (c.header ++ r), png⟩
      = .error (.thrown e) ⟨f, png⟩ := by
    rcases hc with hc | hc
    · rw [Chunk.Sized, Classical.not_imp] at hc
      exact ⟨_, chunkIter_badSize u hc.1 hc.2 r png⟩
    · exact ⟨_, chunkIter_cutBody u c hc png⟩
  obtain ⟨e, f, hf⟩ := hstop
  refine ⟨e, png, ?_, (textChunks_of_loadAll u hpng).mpr htext⟩
  simp only [Ended.andThen]
  rw [Png.chunkLoop_eq, hf]

/-! ## The result -/

theorem not_released {bytes : Bytes} (hin : InBounds u bytes) (h : BreaksOff bytes) :
    ¬Released (lifetime u bytes).2 := by
  obtain ⟨e, png, hthrown, hne⟩ := thrown_of_breaksOff u hin h
  exact fun hreleased => hne ((lifetime_thrown u hthrown).mp hreleased)

/-- **The files whose strings are released**, among those the reader handles. -/
theorem released_iff (bytes : Bytes) (hsafe : TextSafe bytes) :
    Released (lifetime u bytes).2 ↔ ¬BreaksOff bytes := by
  have hin := inBounds_of_textSafe u hsafe
  refine ⟨fun hreleased hbreaks => not_released u hin hbreaks hreleased, ?_⟩
  intro hbreaks
  cases hend : pngInfo u (some bytes) with
  | returned png => exact lifetime_returned u hend
  | stopped e png =>
    cases e with
    | fault f => exact absurd hend (hin f png)
    | thrown e =>
      rw [lifetime_thrown u hend]
      by_contra hne
      exact hbreaks (breaksOff_of_thrown u hend hne)

/-- An image with a text chunk, cut behind the first byte of the next one. -/
def cutText : Bytes := pngHdr ++ (encodeAll [smallIHDR, smallTEXT] ++ (smallTEXT.header ++ [0x41]))

theorem cutText_breaksOff : BreaksOff cutText :=
  ⟨[smallIHDR, smallTEXT], smallTEXT, [0x41], by decide, by decide, .inr (by decide), rfl⟩

theorem cutText_inBounds : InBounds zeroed cutText := by
  have hrun := pngInfo_chunks zeroed [smallIHDR, smallTEXT] smallTEXT (k := 9) (by decide)
  intro f png h
  rw [show cutText = pngHdr ++ (encodeAll [smallIHDR, smallTEXT] ++ smallTEXT.encode.take 9) from
    rfl, hrun] at h
  cases h

theorem released_iff_cutText : ¬Released (lifetime zeroed cutText).2 := fun hreleased =>
  (released_iff zeroed cutText (textSafe_of_inBounds zeroed cutText_inBounds)).mp hreleased
    cutText_breaksOff

/-- The text of the first chunk is lost. -/
theorem not_released_cutText :
    ¬∀ (u : Uninit) (bytes : Bytes), TextSafe bytes → Released (lifetime u bytes).2 :=
  fun hall => not_released zeroed cutText_inBounds cutText_breaksOff
    (hall zeroed cutText (textSafe_of_inBounds zeroed cutText_inBounds))

end OsProg.Png
