import OsProg.Infra.Ghost
import OsProg.Png.Run

/-!
# The strings of a `PngInfo`

The constructor of `l10/pnginfo.cpp` and its destructor, with a ledger of the strings that
`strndup` returned and of those that were passed to `free`. Only `parseTEXT` and `~PngInfo` write
to it; the functions that call `parseTEXT` are as in `Png/Model.lean`.

`pngInfo_tracked`: without the ledger it is the run of `Png/Model.lean`, and unless an access
was out of bounds the ledger holds the strings of the object.
-/

namespace OsProg.Png.Storage

open Infra Ghost

/-- What `strndup` returned and what was passed to `free`. -/
structure Ledger where
  allocated : List HeapStr
  freed : List HeapStr
  deriving DecidableEq

namespace Ledger

def empty : Ledger := { allocated := [], freed := [] }

def allocate (str : HeapStr) (l : Ledger) : Ledger := { l with allocated := l.allocated ++ [str] }

def free (str : HeapStr) (l : Ledger) : Ledger := { l with freed := l.freed ++ [str] }

end Ledger

/-- The monad of the constructor, with the ledger. -/
abbrev T := EStateM Failure (State × Ledger)

variable (u : Uninit)

/-! ## The functions -/

def parseTEXT (data : Bytes) (chunkHdr : ChunkHdr) : T Unit := do
  let s ← lift get
  let id := s.png.textChunks.length
  let keywordLen ← lift (checked .strlen (strlen data))
  let n ← lift (checked .lengthWrap (sizeSub chunkHdr.length.toNat (keywordLen + 1)))
  let text ← lift (checked .strndup (strndup n (data.drop (keywordLen + 1))))
  ghost (Ledger.allocate { id, bytes := text })
  let keyword ← lift (checked .memcpy ((u.keyword id).memcpy data chunkHdr.length.toNat))
  let tc : TextChunk := { keyword, text := { id, bytes := text } }
  lift (modify fun s => { s with png := { s.png with textChunks := s.png.textChunks ++ [tc] } })

def loadTEXT (chunkHdr : ChunkHdr) : T Unit := do
  let data ← lift (fileRead chunkHdr.length.toNat chunkHdr.length.toNat)
  lift (throwIfNot .cantReadText)
  parseTEXT u data chunkHdr

def loadChunk (chunkHdr : ChunkHdr) : T Unit := do
  let cmpIHDR ← lift (checked .strncmp (strncmp litIHDR chunkHdr.type 4))
  if cmpIHDR = 0 then lift (loadIHDR chunkHdr)
  else
    let cmpTEXT ← lift (checked .strncmp (strncmp litTEXT chunkHdr.type 4))
    if cmpTEXT = 0 then loadTEXT u chunkHdr
    else
      lift (fileIgnore chunkHdr.length.toNat)
      lift (throwIfNot .cantSkip)

def chunkBody (raw : ChunkHdr) : T Bool := do
  loadChunk u { raw with length := ntohl raw.length }
  lift (fileIgnore 4)
  lift (throwIfNot .cantReadChecksum)
  pure true

def chunkIter : T Bool := do
  let bytes ← lift (fileRead 8 8)
  let s ← lift get
  if s.file.fail then pure false else chunkBody u (ChunkHdr.ofHost bytes)

/-! ## What a call does to the strings

Up to a fault, the ledger holds the strings of `textChunks`, and nothing was freed.
-/

/-- The strings of an object. -/
def strings (png : PngInfo) : List HeapStr := png.textChunks.map (·.text)

/-- The strings are those of the ledger, each from a call of its own. -/
structure Balanced (png : PngInfo) (l : Ledger) : Prop where
  allocated : l.allocated = strings png
  numbered : (strings png).map (·.id) = List.range png.textChunks.length
  freed : l.freed = []

def IsFault (e : Failure) : Prop := ∃ f, e = .fault f

/-- A function with the ledger and the function of `Png/Model.lean`. -/
abbrev Tracked {α : Type} (m : T α) (m' : M α) : Prop :=
  Tracks (fun s => Balanced s.png) IsFault m m'

/-- A computation leaves the text chunks alone. -/
def Frame {α : Type} (m : M α) : Prop :=
  ∀ s, (stateOf (m.run s)).png.textChunks = s.png.textChunks

section Frame

variable {α β : Type}

theorem frame_bind {m : M α} {f : α → M β} (hm : Frame m) (hf : ∀ a, Frame (f a)) :
    Frame (m >>= f) :=
  @along_bind _ _ (fun s t => t.png.textChunks = s.png.textChunks) (fun h h' => h'.trans h) _ _
    hm hf

theorem frame_ite {c : Prop} [Decidable c] {m n : M α} (hm : Frame m) (hn : Frame n) :
    Frame (if c then m else n) := by
  split
  · exact hm
  · exact hn

theorem frame_checked (f : Fault) (a : Option α) : Frame (checked f a) := by
  cases a <;> exact fun _ => rfl

theorem frame_fileRead (size n : Nat) : Frame (fileRead size n) := by
  intro s
  simp only [fileRead, EStateM.run_bind, EStateM.run_get, EStateM.run_set]
  split <;> rfl

theorem frame_throwIfNot (e : PngError) : Frame (throwIfNot e) :=
  frame_bind (fun _ => rfl) fun _ => frame_ite (fun _ => rfl) (fun _ => rfl)

theorem frame_loadIHDR (chunkHdr : ChunkHdr) : Frame (loadIHDR chunkHdr) :=
  frame_ite (fun _ => rfl) (frame_bind (frame_fileRead _ _) fun _ =>
    frame_bind (frame_throwIfNot _) fun _ _ => rfl)

theorem frame_openPng : Frame openPng :=
  frame_bind (frame_fileRead _ _) fun _ => frame_bind (frame_throwIfNot _) fun _ =>
    frame_bind (frame_checked _ _) fun _ => frame_ite (fun _ => rfl) (fun _ => rfl)

/-- Only the text chunks matter to the ledger. -/
theorem Balanced.congr {png png' : PngInfo} {l : Ledger} (h : Balanced png l)
    (ht : png'.textChunks = png.textChunks) : Balanced png' l := by
  have hstrings : strings png' = strings png := by rw [strings, ht, strings]
  exact ⟨hstrings ▸ h.allocated, by rw [hstrings, ht, h.numbered], h.freed⟩

theorem tracked_frame {m : M α} (hm : Frame m) : Tracked (lift m) m := by
  refine tracks_lift ?_
  intro s l h
  have hs := hm s
  cases hr : m.run s with
  | ok a t =>
    rw [hr] at hs
    exact h.congr hs
  | error e t =>
    rw [hr] at hs
    exact .inr (h.congr hs)

end Frame

/-- A fault ends the run, and leaves nothing to show. -/
theorem trackedAt_checked {α β : Type} {f : Fault} {a : Option α} {k : α → T β} {k' : α → M β}
    {s : State} {l : Ledger}
    (h : ∀ a, TracksAt (fun s => Balanced s.png) IsFault (k a) (k' a) s l) :
    TracksAt (fun s => Balanced s.png) IsFault (lift (checked f a) >>= k) (checked f a >>= k')
      s l := by
  cases a with
  | none => exact ⟨l, rfl, fun _ => .inl ⟨f, rfl⟩⟩
  | some a => exact h a

/-- The record of a call goes to the object as its string goes to the ledger. -/
theorem Balanced.push {png : PngInfo} {l : Ledger} (h : Balanced png l) (keyword : CharArray 80)
    (text : Bytes) :
    let str : HeapStr := { id := png.textChunks.length, bytes := text }
    Balanced { png with textChunks := png.textChunks ++ [{ keyword, text := str }] }
      (l.allocate str) := by
  refine ⟨?_, ?_, h.freed⟩
  · simp [Ledger.allocate, h.allocated, strings]
  · have hnum := h.numbered
    simp only [strings] at hnum
    simp [strings, hnum, List.range_succ]

theorem tracked_parseTEXT (data : Bytes) (chunkHdr : ChunkHdr) :
    Tracked (parseTEXT u data chunkHdr) (Png.parseTEXT u data chunkHdr) := by
  intro s l
  refine tracksAt_get (trackedAt_checked fun keywordLen => trackedAt_checked fun n =>
    trackedAt_checked fun text => ?_)
  -- The string is allocated, and belongs to nothing until the copy into `keyword` is done.
  cases (u.keyword s.png.textChunks.length).memcpy data chunkHdr.length.toNat with
  | none => exact ⟨_, rfl, fun _ => .inl ⟨.memcpy, rfl⟩⟩
  | some keyword => exact ⟨_, rfl, fun h => h.push keyword text⟩

theorem tracked_loadTEXT (chunkHdr : ChunkHdr) :
    Tracked (loadTEXT u chunkHdr) (Png.loadTEXT u chunkHdr) :=
  tracks_bind (tracked_frame (frame_fileRead _ _)) fun data =>
    tracks_bind (tracked_frame (frame_throwIfNot _)) fun _ => tracked_parseTEXT u data chunkHdr

theorem tracked_loadChunk (chunkHdr : ChunkHdr) :
    Tracked (loadChunk u chunkHdr) (Png.loadChunk u chunkHdr) := by
  refine tracks_bind (tracked_frame (frame_checked _ _)) fun _ => tracks_ite ?_ ?_
  · exact tracked_frame (frame_loadIHDR chunkHdr)
  · refine tracks_bind (tracked_frame (frame_checked _ _)) fun _ => tracks_ite ?_ ?_
    · exact tracked_loadTEXT u chunkHdr
    · exact tracks_bind (tracked_frame fun _ => rfl) fun _ => tracked_frame (frame_throwIfNot _)

theorem tracked_chunkBody (raw : ChunkHdr) :
    Tracked (chunkBody u raw) (Png.chunkBody u raw) :=
  tracks_bind (tracked_loadChunk u _) fun _ => tracks_bind (tracked_frame fun _ => rfl) fun _ =>
    tracks_bind (tracked_frame (frame_throwIfNot _)) fun _ => tracks_pure true

theorem tracked_chunkIter : Tracked (chunkIter u) (Png.chunkIter u) :=
  tracks_bind (tracked_frame (frame_fileRead _ _)) fun bytes =>
    tracks_bind (tracked_frame fun _ => rfl) fun _ =>
      tracks_ite (tracks_pure false) (tracked_chunkBody u (ChunkHdr.ofHost bytes))

/-! ## The loop, the constructor and the destructor -/

/-- The `while` loop over the chunks. -/
def chunkLoop (s : State × Ledger) : Ended × Ledger :=
  match _ : (chunkIter u).run s with
  | .error e s' => (.stopped e s'.1.png, s'.2)
  | .ok false s' => (.returned s'.1.png, s'.2)
  | .ok true s' => chunkLoop s'
termination_by s.1.file.rest.length
decreasing_by exact chunkIter_shrinks u ((tracked_chunkIter u).run_ok (by assumption))

theorem chunkLoop_eq (s : State × Ledger) : chunkLoop u s =
    match (chunkIter u).run s with
    | .error e s' => (.stopped e s'.1.png, s'.2)
    | .ok false s' => (.returned s'.1.png, s'.2)
    | .ok true s' => chunkLoop u s' := by
  rw [chunkLoop]
  split <;> simp_all

/-- The ledger when the constructor has ended. -/
def Settled (l : Ledger) : Ended → Prop
  | .returned png => Balanced png l
  | .stopped e png => IsFault e ∨ Balanced png l

theorem chunkLoop_tracked (s : State) (l : Ledger) :
    (chunkLoop u (s, l)).1 = Png.chunkLoop u s ∧
      (Balanced s.png l → Settled (chunkLoop u (s, l)).2 (Png.chunkLoop u s)) := by
  induction hn : s.file.rest.length using Nat.strongRecOn generalizing s l with
  | _ n ih =>
    subst hn
    obtain ⟨l', hrun, hkept⟩ := tracked_chunkIter u s l
    rw [chunkLoop_eq, Png.chunkLoop_eq, hrun]
    cases hr : (Png.chunkIter u).run s with
    | error e t =>
      rw [hr] at hkept
      exact ⟨rfl, hkept⟩
    | ok more t =>
      rw [hr] at hkept
      cases more with
      | false => exact ⟨rfl, hkept⟩
      | true =>
        obtain ⟨hend, hsettled⟩ := ih _ (chunkIter_shrinks u hr) t l' rfl
        exact ⟨hend, fun h => hsettled (hkept h)⟩

/-- `PngInfo::PngInfo(fname)`, for the contents of the file. -/
def pngInfo (bytes : Bytes) : Ended × Ledger :=
  match (lift openPng).run ({ file := IStream.ofBytes bytes, png := u.png }, Ledger.empty) with
  | .error e s => (.stopped e s.1.png, s.2)
  | .ok _ s => chunkLoop u s

theorem pngInfo_some (bytes : Bytes) : Png.pngInfo u (some bytes) =
    match openPng.run { file := IStream.ofBytes bytes, png := u.png } with
    | .error e s => .stopped e s.png
    | .ok _ s => Png.chunkLoop u s := rfl

theorem pngInfo_tracked (bytes : Bytes) :
    (pngInfo u bytes).1 = Png.pngInfo u (some bytes) ∧
      Settled (pngInfo u bytes).2 (Png.pngInfo u (some bytes)) := by
  have hempty : Balanced u.png Ledger.empty := ⟨rfl, rfl, rfl⟩
  obtain ⟨l, hrun, hkept⟩ := @tracked_frame _ _ frame_openPng
    { file := IStream.ofBytes bytes, png := u.png } Ledger.empty
  rw [pngInfo, hrun, pngInfo_some]
  cases hr : openPng.run { file := IStream.ofBytes bytes, png := u.png } with
  | error e t =>
    rw [hr] at hkept
    exact ⟨rfl, hkept hempty⟩
  | ok _ t =>
    rw [hr] at hkept
    obtain ⟨hend, hsettled⟩ := chunkLoop_tracked u t l
    exact ⟨hend, hsettled (hkept hempty)⟩

/-- `PngInfo::~PngInfo()`. -/
def destroy (png : PngInfo) (l : Ledger) : Ledger :=
  png.textChunks.foldl (fun l tc => l.free tc.text) l

theorem foldl_free (tcs : List TextChunk) (l : Ledger) :
    tcs.foldl (fun l tc => l.free tc.text) l = { l with freed := l.freed ++ tcs.map (·.text) } := by
  induction tcs generalizing l with
  | nil => simp
  | cons tc tcs ih =>
    rw [List.foldl_cons, ih]
    simp [Ledger.free]

/-- An object is constructed, used and destroyed. An exception leaves no object: the members are
destroyed, but `TextChunk` has no destructor, and `~PngInfo` is not called. -/
def lifetime (bytes : Bytes) : Ended × Ledger :=
  match pngInfo u bytes with
  | (.returned png, l) => (.returned png, destroy png l)
  | (.stopped e png, l) => (.stopped e png, l)

end OsProg.Png.Storage
