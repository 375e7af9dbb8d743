import OsProg.Infra.ByteOrder
import OsProg.Infra.IStream

/-!
# The `PngInfo` constructor

`l10/pnginfo.cpp`, function by function. The input is an arbitrary byte string.

Memory that the program leaves uninitialised is a parameter (`Uninit`). An access past the
end of an object stops the run with a `Fault`; a C++ exception stops it with a `PngError`.
Both keep the state they leave behind, so that what was stored before is still visible.

`new` and `strndup` are taken to find memory. The host is little-endian with a 64-bit
`size_t` and `streamsize`.

## Termination

No fuel is used. Every round of the chunk loop extracts the 8 bytes of a chunk header,
and no operation puts bytes back (`chunkIter_shrinks`).
-/

namespace OsProg.Png

open Infra

/-! ## Data -/

structure ChunkHdr where
  length : UInt32
  type : Bytes
  deriving DecidableEq, Repr

structure IhdrChunk where
  width : UInt32
  height : UInt32
  bitDepth : UInt8
  colorType : UInt8
  compression : UInt8
  filter : UInt8
  interlace : UInt8
  deriving DecidableEq, Repr

/-- A string that `strndup` returned: which call of the run made it, and its contents. -/
structure HeapStr where
  id : Nat
  bytes : Bytes
  deriving DecidableEq, Repr

structure TextChunk where
  keyword : CharArray 80
  text : HeapStr
  deriving DecidableEq

/-- The members of class `PngInfo`. -/
structure PngInfo where
  textChunks : List TextChunk
  hdr : IhdrChunk
  deriving DecidableEq

/-- The memory contents the program does not initialise: the member `hdr`, and the local
`tc` of each call of `parseTEXT`. -/
structure Uninit where
  hdr : IhdrChunk
  keyword : Nat → CharArray 80

/-- Memory that happens to be zero. -/
def zeroed : Uninit :=
  { hdr := ⟨0, 0, 0, 0, 0, 0, 0⟩, keyword := fun _ => ⟨List.replicate 80 0, rfl⟩ }

/-- The accesses that can leave their object. `lengthWrap` is the `size_t` expression
`chunkHdr.length - keywordLen - 1` going below zero, `printf` a `%s` that finds no NUL. -/
inductive Fault where
  | read
  | strncmp
  | strlen
  | lengthWrap
  | strndup
  | memcpy
  | printf
  deriving DecidableEq, Repr

/-- The `std::runtime_error`s of the program. -/
inductive PngError where
  | cantOpen
  | cantReadHeader
  | headerMismatch
  | cantSkip
  | cantReadChecksum
  | badIhdrSize
  | cantReadIhdr
  | cantReadText
  deriving DecidableEq, Repr

def PngError.what : PngError → String
  | .cantOpen => "Can't open file"
  | .cantReadHeader => "Can't read PNG header"
  | .headerMismatch => "PNG header does not match"
  | .cantSkip => "Can't skip chunk"
  | .cantReadChecksum => "Can't read chunk checksum"
  | .badIhdrSize => "Bad IHDR chunk size"
  | .cantReadIhdr => "Can't read IHDR"
  | .cantReadText => "Can't read tEXt chunk"

inductive Failure where
  | fault (f : Fault)
  | thrown (e : PngError)
  deriving DecidableEq, Repr

structure State where
  file : IStream
  png : PngInfo

abbrev M := EStateM Failure State

def pngHdr : Bytes := [0x89, 0x50, 0x4E, 0x47, 0x0D, 0x0A, 0x1A, 0x0A]

/-- The string literal `"IHDR"`, with its terminating NUL. -/
def litIHDR : Bytes := [0x49, 0x48, 0x44, 0x52, 0]

/-- The string literal `"tEXt"`, with its terminating NUL. -/
def litTEXT : Bytes := [0x74, 0x45, 0x58, 0x74, 0]

/-- `sizeof(IhdrChunk)`: two words, five bytes and three bytes of padding. -/
def sizeofIhdrChunk : Nat := 16

/-- The host's reading of 8 bytes stored over a `ChunkHdr`. -/
def ChunkHdr.ofHost (p : Bytes) : ChunkHdr :=
  { length := le32 p, type := (p.drop 4).take 4 }

/-- The host's reading of 13 bytes stored over an `IhdrChunk`. -/
def IhdrChunk.ofHost (p : Bytes) : IhdrChunk :=
  { width := le32 p, height := le32 (p.drop 4), bitDepth := p.getD 8 0, colorType := p.getD 9 0,
    compression := p.getD 10 0, filter := p.getD 11 0, interlace := p.getD 12 0 }

/-! ## Primitives -/

/-- The value of an access, or the fault when it was out of bounds. -/
def checked {α : Type} (f : Fault) : Option α → M α
  | some a => pure a
  | none => throw (.fault f)

/-- `file.read(p, n)` for an object of `size` bytes at `p`: the characters stored. -/
def fileRead (size n : Nat) : M Bytes := do
  let s ← get
  let r := s.file.read n
  set { s with file := r.2 }
  if r.1.length ≤ size then pure r.1 else throw (.fault .read)

def fileIgnore (n : Nat) : M Unit :=
  modify fun s => { s with file := s.file.ignore n }

/-- `if (!file) throw std::runtime_error(e)`. -/
def throwIfNot (e : PngError) : M Unit := do
  let s ← get
  if s.file.fail then throw (.thrown e) else pure ()

/-- `a - b` in `size_t`. It wraps below zero, which is reported. -/
def sizeSub (a b : Nat) : Option Nat := if b ≤ a then some (a - b) else none

/-! ## `PngInfo` -/

variable (u : Uninit)

def loadIHDR (chunkHdr : ChunkHdr) : M Unit := do
  if chunkHdr.length ≠ 13 then throw (.thrown .badIhdrSize)
  else
    -- A short read leaves part of `hdr` overwritten, but then the object is gone.
    let bytes ← fileRead sizeofIhdrChunk 13
    throwIfNot .cantReadIhdr
    let hdr := IhdrChunk.ofHost bytes
    modify fun s => { s with png := { s.png with
      hdr := { hdr with width := ntohl hdr.width, height := ntohl hdr.height } } }

def parseTEXT (data : Bytes) (chunkHdr : ChunkHdr) : M Unit := do
  let s ← get
  let id := s.png.textChunks.length
  let keywordLen ← checked .strlen (strlen data)
  let n ← checked .lengthWrap (sizeSub chunkHdr.length.toNat (keywordLen + 1))
  let text ← checked .strndup (strndup n (data.drop (keywordLen + 1)))
  let keyword ← checked .memcpy ((u.keyword id).memcpy data chunkHdr.length.toNat)
  let tc : TextChunk := { keyword, text := { id, bytes := text } }
  modify fun s => { s with png := { s.png with textChunks := s.png.textChunks ++ [tc] } }

def loadTEXT (chunkHdr : ChunkHdr) : M Unit := do
  let data ← fileRead chunkHdr.length.toNat chunkHdr.length.toNat
  throwIfNot .cantReadText
  parseTEXT u data chunkHdr

/-- The three branches of the loop body. -/
def loadChunk (chunkHdr : ChunkHdr) : M Unit := do
  let cmpIHDR ← checked .strncmp (strncmp litIHDR chunkHdr.type 4)
  if cmpIHDR = 0 then loadIHDR chunkHdr
  else
    let cmpTEXT ← checked .strncmp (strncmp litTEXT chunkHdr.type 4)
    if cmpTEXT = 0 then loadTEXT u chunkHdr
    else
      fileIgnore chunkHdr.length.toNat
      throwIfNot .cantSkip

/-- The loop body, for the header as the loop condition read it. -/
def chunkBody (raw : ChunkHdr) : M Bool := do
  loadChunk u { raw with length := ntohl raw.length }
  fileIgnore 4
  throwIfNot .cantReadChecksum
  pure true

/-- One round of the loop: its condition and, when it holds, its body. -/
def chunkIter : M Bool := do
  let bytes ← fileRead 8 8
  let s ← get
  if s.file.fail then pure false else chunkBody u (ChunkHdr.ofHost bytes)

/-! ## The stream only moves forward -/

/-- The state a computation leaves, whether it returns or stops. -/
def stateOf {α : Type} : EStateM.Result Failure State α → State
  | .ok _ s => s
  | .error _ s => s

/-- What two computations do to the state, one behind the other. -/
theorem along_bind {α β : Type} {R : State → State → Prop}
    (htrans : ∀ {s t v}, R s t → R t v → R s v) {m : M α} {f : α → M β}
    (hm : ∀ s, R s (stateOf (m.run s))) (hf : ∀ a s, R s (stateOf ((f a).run s))) (s : State) :
    R s (stateOf ((m >>= f).run s)) := by
  have hs := hm s
  rw [EStateM.run_bind]
  cases hr : m.run s with
  | ok a t =>
    rw [hr] at hs
    exact htrans hs (hf a t)
  | error e t =>
    rw [hr] at hs
    exact hs

/-- The computation puts nothing back into the stream. -/
def Forward {α : Type} (m : M α) : Prop :=
  ∀ s, (stateOf (m.run s)).file.rest.length ≤ s.file.rest.length

theorem forward_pure {α : Type} (a : α) : Forward (pure a) := fun _ => Nat.le_refl _

theorem forward_throw {α : Type} (e : Failure) : Forward (throw e : M α) :=
  fun _ => Nat.le_refl _

theorem forward_get : Forward (get : M State) := fun _ => Nat.le_refl _

theorem forward_bind {α β : Type} {m : M α} {f : α → M β} (hm : Forward m)
    (hf : ∀ a, Forward (f a)) : Forward (m >>= f) :=
  @along_bind _ _ (fun s t => t.file.rest.length ≤ s.file.rest.length)
    (fun h h' => Nat.le_trans h' h) _ _ hm hf

theorem forward_ite {α : Type} {c : Prop} [Decidable c] {m n : M α} (hm : Forward m)
    (hn : Forward n) : Forward (if c then m else n) := by
  split
  · exact hm
  · exact hn

theorem forward_checked {α : Type} (f : Fault) (a : Option α) : Forward (checked f a) := by
  cases a with
  | none => exact forward_throw _
  | some a => exact forward_pure a

theorem forward_fileRead (size n : Nat) : Forward (fileRead size n) := by
  intro s
  have h := IStream.read_rest_le n s.file
  simp only [fileRead, EStateM.run_bind, EStateM.run_get, EStateM.run_set]
  split <;> exact h

theorem forward_fileIgnore (n : Nat) : Forward (fileIgnore n) :=
  fun s => IStream.ignore_rest_le n s.file

theorem forward_modify_png (f : PngInfo → PngInfo) :
    Forward (modify fun s => { s with png := f s.png }) := fun _ => Nat.le_refl _

theorem forward_throwIfNot (e : PngError) : Forward (throwIfNot e) :=
  forward_bind forward_get fun _ => forward_ite (forward_throw _) (forward_pure _)

theorem forward_loadIHDR (chunkHdr : ChunkHdr) : Forward (loadIHDR chunkHdr) :=
  forward_ite (forward_throw _) (forward_bind (forward_fileRead _ _) fun _ =>
    forward_bind (forward_throwIfNot _) fun _ => forward_modify_png fun png => { png with hdr := _ })

theorem forward_parseTEXT (data : Bytes) (chunkHdr : ChunkHdr) :
    Forward (parseTEXT u data chunkHdr) :=
  forward_bind forward_get fun _ => forward_bind (forward_checked _ _) fun _ =>
    forward_bind (forward_checked _ _) fun _ => forward_bind (forward_checked _ _) fun _ =>
      forward_bind (forward_checked _ _) fun _ =>
        forward_modify_png fun png => { png with textChunks := png.textChunks ++ [_] }

theorem forward_loadTEXT (chunkHdr : ChunkHdr) : Forward (loadTEXT u chunkHdr) :=
  forward_bind (forward_fileRead _ _) fun _ => forward_bind (forward_throwIfNot _) fun _ =>
    forward_parseTEXT u _ _

theorem forward_loadChunk (chunkHdr : ChunkHdr) : Forward (loadChunk u chunkHdr) :=
  forward_bind (forward_checked _ _) fun _ => forward_ite (forward_loadIHDR _)
    (forward_bind (forward_checked _ _) fun _ => forward_ite (forward_loadTEXT u _)
      (forward_bind (forward_fileIgnore _) fun _ => forward_throwIfNot _))

theorem forward_chunkBody (raw : ChunkHdr) : Forward (chunkBody u raw) :=
  forward_bind (forward_loadChunk u _) fun _ => forward_bind (forward_fileIgnore _) fun _ =>
    forward_bind (forward_throwIfNot _) fun _ => forward_pure _

/-- A read into an object that is large enough stays inside it. -/
theorem fileRead_eq {size n : Nat} (h : n ≤ size) (s : State) :
    (fileRead size n).run s
      = .ok (s.file.read n).1 { s with file := (s.file.read n).2 } := by
  have hle : (s.file.read n).1.length ≤ size := Nat.le_trans (IStream.read_length_le n s.file) h
  simp only [fileRead, EStateM.run_bind, EStateM.run_get, EStateM.run_set]
  rw [if_pos hle]
  rfl

theorem chunkIter_eq (s : State) : (chunkIter u).run s =
    (if (s.file.read 8).2.fail then pure false
      else chunkBody u (ChunkHdr.ofHost (s.file.read 8).1) : M Bool).run
        { s with file := (s.file.read 8).2 } := by
  rw [chunkIter, EStateM.run_bind, fileRead_eq (Nat.le_refl 8)]
  rfl

/-- **A round that goes on to the next one has consumed a chunk header.** -/
theorem chunkIter_shrinks {s s' : State} (h : (chunkIter u).run s = .ok true s') :
    s'.file.rest.length < s.file.rest.length := by
  rw [chunkIter_eq] at h
  split at h
  · cases h
  · next hfail =>
    have hread := IStream.read_rest_of_not_fail (Bool.eq_false_iff.mpr hfail)
    have hbody := forward_chunkBody u (ChunkHdr.ofHost (s.file.read 8).1)
      { s with file := (s.file.read 8).2 }
    rw [h] at hbody
    simp only [stateOf] at hbody
    omega

/-! ## The loop and the constructor -/

/-- How the constructor ends, and the object as it then stands. -/
inductive Ended where
  | returned (png : PngInfo)
  | stopped (e : Failure) (png : PngInfo)
  deriving DecidableEq

/-- The `while` loop over the chunks. -/
def chunkLoop (s : State) : Ended :=
  match _ : (chunkIter u).run s with
  | .error e s' => .stopped e s'.png
  | .ok false s' => .returned s'.png
  | .ok true s' => chunkLoop s'
termination_by s.file.rest.length
decreasing_by exact chunkIter_shrinks u (by assumption)

/-- The constructor up to its loop. `fileHdr` is overwritten whole when the read succeeds. -/
def openPng : M Unit := do
  let fileHdr ← fileRead 8 8
  throwIfNot .cantReadHeader
  let cmp ← checked .strncmp (strncmp fileHdr pngHdr 8)
  if cmp ≠ 0 then throw (.thrown .headerMismatch) else pure ()

/-- `PngInfo::PngInfo(fname)`, for the contents of the file, or `none` when it does not
open. -/
def pngInfo (contents : Option Bytes) : Ended :=
  let png : PngInfo := { textChunks := [], hdr := u.hdr }
  match contents with
  | none => .stopped (.thrown .cantOpen) png
  | some bytes =>
    match openPng.run { file := IStream.ofBytes bytes, png } with
    | .error e s => .stopped e s.png
    | .ok _ s => chunkLoop u s

end OsProg.Png
