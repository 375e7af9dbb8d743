import OsProg.CBuffer.Model
import OsProg.Infra.Memory

/-!
# Buffers in memory

The functions of `l04/cbuffer.c` on bytes: `refc` is at offset 0 of a block, `size` at offset
8, and `data` starts at offset 16. `malloc` gives any block that is as large as it was asked
for and apart from the live ones. With each call come the regions of memory that it accesses.

When `size + sizeof(Buffer)` wraps, `malloc` is asked for too little. Otherwise a call stays in
its own block and leaves the other buffers alone (`buffers_isolated`), references are counted
(`refcount_exact`), and a call does what the model of the blocks does (`run_represents`).
-/

namespace OsProg.CBuffer.Memory

open Infra

/-- Memory, and the blocks that were allocated and not freed. -/
structure Heap where
  mem : Mem
  live : List Region

/-! ## The layout of a buffer -/

def refcAt (buf : Addr) : Region := { addr := buf, len := 4 }

def sizeAt (buf : Addr) : Region := { addr := buf + 8, len := 8 }

/-- `buf->data[i]`. -/
def dataAt (buf i : Addr) : Region := { addr := buf + (sizeofBuffer + i), len := 1 }

def refc (mem : Mem) (buf : Addr) : BitVec 32 := load32 mem buf

def size (mem : Mem) (buf : Addr) : BitVec 64 := load64 mem (buf + 8)

def contents (mem : Mem) (buf : Addr) : Bytes :=
  loadBytes mem (buf + sizeofBuffer) (size mem buf).toNat

/-! ## The functions

Each returns what the source's function returns, the heap and the regions that it accessed.
-/

/-- `malloc` gives the block `granted`, or `NULL`. -/
def buffer_new (size : BitVec 64) (granted : Option Region) (h : Heap) :
    Option Addr × Heap × List Region :=
  match granted with
  | none => (none, h, [])
  | some blk =>
    let mem := store32 h.mem blk.addr 1
    let mem := store64 mem (blk.addr + 8) size
    (some blk.addr, { mem, live := h.live ++ [blk] }, [refcAt blk.addr, sizeAt blk.addr])

def buffer_ref (buf : Addr) (h : Heap) : Heap × List Region :=
  ({ h with mem := store32 h.mem buf (refc h.mem buf + 1) }, [refcAt buf])

def free (buf : Addr) (h : Heap) : Heap :=
  { h with live := h.live.filter fun blk => blk.addr ≠ buf }

def buffer_unref (buf : Addr) (h : Heap) : Heap × List Region :=
  let h := { h with mem := store32 h.mem buf (refc h.mem buf - 1) }
  if (refc h.mem buf).toInt ≤ 0 then (free buf h, [refcAt buf]) else (h, [refcAt buf])

def buffer_refs (buf : Addr) (h : Heap) : Int × Heap × List Region :=
  ((refc h.mem buf).toInt, h, [refcAt buf])

/-- Only an address is computed. -/
def buffer_data (buf : Addr) (h : Heap) : Addr × Heap × List Region :=
  (buf + sizeofBuffer, h, [])

def buffer_size (buf : Addr) (h : Heap) : BitVec 64 × Heap × List Region :=
  (size h.mem buf, h, [sizeAt buf])

/-- A client writes `buffer_data(buf)[i]`. -/
def client_write (buf i : Addr) (v : UInt8) (h : Heap) : Heap × List Region :=
  ({ h with mem := storeBytes h.mem (dataAt buf i).addr [v] }, [dataAt buf i])

/-! ## Calls -/

inductive Op where
  | new (size : BitVec 64) (granted : Option Region)
  | ref (buf : Addr)
  | unref (buf : Addr)
  | refs (buf : Addr)
  | data (buf : Addr)
  | size (buf : Addr)
  | write (buf i : Addr) (v : UInt8)
  deriving DecidableEq, Repr

def exec (h : Heap) : Op → Heap × List Region
  | .new size granted => (buffer_new size granted h).2
  | .ref buf => buffer_ref buf h
  | .unref buf => buffer_unref buf h
  | .refs buf => (buffer_refs buf h).2
  | .data buf => (buffer_data buf h).2
  | .size buf => (buffer_size buf h).2
  | .write buf i v => client_write buf i v h

/-- What a call returns. -/
def value (h : Heap) : Op → Option (Value Addr Addr)
  | .new size granted => some (.handle (buffer_new size granted h).1)
  | .refs buf => some (.refs (buffer_refs buf h).1)
  | .data buf => some (.data (buffer_data buf h).1)
  | .size buf => some (.size (buffer_size buf h).1)
  | .ref _ | .unref _ | .write _ _ _ => none

/-- What `malloc` may give for a request. -/
structure Grants (live : List Region) (request : BitVec 64) (blk : Region) : Prop where
  large : request.toNat ≤ blk.len
  notNull : 0 < blk.addr.toNat
  space : blk.addr.toNat + blk.len ≤ 2 ^ 64
  apart : ∀ b ∈ live, b.Disjoint blk

/-- There is a live buffer at `buf`. -/
def Live (h : Heap) (buf : Addr) : Prop := ∃ blk ∈ h.live, blk.addr = buf

/-- The calls that the allocator and the clients may make. -/
def Legal (h : Heap) : Op → Prop
  | .new _ none => True
  | .new size (some blk) => Grants h.live (size + sizeofBuffer) blk
  | .ref buf | .unref buf | .refs buf | .data buf | .size buf => Live h buf
  | .write buf i _ => Live h buf ∧ i < size h.mem buf

def LegalRun (h : Heap) : List Op → Prop
  | [] => True
  | op :: ops => Legal h op ∧ LegalRun (exec h op).1 ops

/-! ## Isolation -/

/-- The blocks of the buffer that a call is for. -/
def Op.own (h : Heap) : Op → List Region
  | .new _ granted => granted.toList
  | .ref buf | .unref buf | .refs buf | .data buf | .size buf | .write buf _ _ =>
    h.live.filter fun blk => blk.addr = buf

/-- A buffer is as it was. -/
structure Unchanged (mem mem' : Mem) (buf : Addr) : Prop where
  refc : refc mem' buf = refc mem buf
  size : size mem' buf = size mem buf
  contents : contents mem' buf = contents mem buf

/-- A call stays in its own block and leaves the other buffers alone. -/
structure Isolated (h : Heap) (op : Op) : Prop where
  inside : ∀ blk ∈ op.own h, ∀ a ∈ (exec h op).2, a.Within blk
  others : ∀ blk ∈ h.live, blk ∉ op.own h → Unchanged h.mem (exec h op).1.mem blk.addr

def AllIsolated (h : Heap) : List Op → Prop
  | [] => True
  | op :: ops => Isolated h op ∧ AllIsolated (exec h op).1 ops

end OsProg.CBuffer.Memory
