import OsProg.Infra.CString
import Mathlib.Algebra.Ring.Nat

/-!
# Memory

A memory of bytes under 64-bit addresses, and regions of it. Addresses wrap, so that an offset
is a difference of addresses.

* `Region.Within.contains` — what is in a part is in the whole
* `storeBytes_outside`, `loadBytes_congr` — storing changes a region, loading depends on one
* `load64_store64`, `load32_store32` — a stored number is loaded again
-/

namespace OsProg.Infra

abbrev Addr := BitVec 64

abbrev Mem := Addr → UInt8

/-! ## Regions -/

/-- The offset of what stands at an offset. -/
@[simp] theorem add_sub_start (a off : Addr) : a + off - a = off := by
  rw [BitVec.add_comm, BitVec.add_sub_cancel]

structure Region where
  addr : Addr
  len : Nat
  deriving DecidableEq, Repr

namespace Region

variable {r s t : Region} {x : Addr}

def Contains (r : Region) (x : Addr) : Prop := (x - r.addr).toNat < r.len

instance (r : Region) (x : Addr) : Decidable (r.Contains x) := Nat.decLt _ _

/-- All of `r` is in `s`. -/
def Within (r s : Region) : Prop := (r.addr - s.addr).toNat + r.len ≤ s.len

instance (r s : Region) : Decidable (r.Within s) := Nat.decLe _ _

def Disjoint (r s : Region) : Prop := ∀ x, r.Contains x → ¬ s.Contains x

theorem Disjoint.symm (h : r.Disjoint s) : s.Disjoint r := fun x hs hr => h x hr hs

instance : Std.Symm Disjoint := ⟨fun _ _ h => h.symm⟩

theorem Within.contains (h : r.Within s) (hx : r.Contains x) : s.Contains x := by
  unfold Within at h
  unfold Contains at hx ⊢
  have hsum : x - s.addr = (x - r.addr) + (r.addr - s.addr) := by grind
  rw [hsum, BitVec.toNat_add]
  have := Nat.mod_le ((x - r.addr).toNat + (r.addr - s.addr).toNat) (2 ^ 64)
  omega

/-- Regions that are not empty and start at one place are not disjoint. -/
theorem not_disjoint (hr : 0 < r.len) (hs : 0 < s.len) (h : r.addr = s.addr) :
    ¬ r.Disjoint s := by
  have hstart : ∀ {t : Region}, 0 < t.len → t.Contains t.addr := by
    intro t ht
    unfold Contains
    rwa [BitVec.sub_self]
  intro hdisjoint
  exact hdisjoint r.addr (hstart hr) (h ▸ hstart hs)

/-- A part that starts at an offset. -/
theorem within_offset {off : Addr} {n : Nat} (h : off.toNat + n ≤ r.len) :
    Within { addr := r.addr + off, len := n } r := by
  unfold Within
  rwa [add_sub_start]

/-- Parts of one object that stand one behind the other. -/
theorem disjoint_offsets {a off off' : Addr} {n n' : Nat} (h : off.toNat + n ≤ off'.toNat)
    (h' : off'.toNat + n' ≤ 2 ^ 64) :
    Disjoint { addr := a + off, len := n } { addr := a + off', len := n' } := by
  intro x hx hx'
  unfold Contains at hx hx'
  dsimp only at hx hx'
  have hsub : ∀ o : Addr, x - (a + o) = (x - a) - o := by
    intro o
    grind
  rw [hsub, BitVec.toNat_sub] at hx hx'
  have := (x - a).isLt
  omega

/-- What starts behind the beginning of an object. -/
theorem disjoint_start {a off : Addr} {n n' : Nat} (h : n ≤ off.toNat)
    (h' : off.toNat + n' ≤ 2 ^ 64) :
    Disjoint { addr := a, len := n } { addr := a + off, len := n' } := by
  simpa using @disjoint_offsets a 0 off n n' (by simpa using h) h'

theorem disjoint_of_le (h : r.addr.toNat + r.len ≤ s.addr.toNat)
    (h' : s.addr.toNat + s.len ≤ 2 ^ 64) : r.Disjoint s := by
  simpa using @disjoint_offsets 0 r.addr s.addr r.len s.len h h'

end Region

/-! ## Loading and storing -/

def loadBytes (mem : Mem) (a : Addr) (n : Nat) : Bytes :=
  (List.range n).map fun i => mem (a + BitVec.ofNat 64 i)

def storeBytes (mem : Mem) (a : Addr) (bytes : Bytes) : Mem := fun x =>
  bytes[(x - a).toNat]?.getD (mem x)

section Bytes

variable {mem mem' : Mem} {a x : Addr} {n : Nat} {bytes : Bytes}

/-- **Storing changes a region only.** -/
theorem storeBytes_outside (h : ¬ Region.Contains { addr := a, len := bytes.length } x) :
    storeBytes mem a bytes x = mem x := by
  unfold storeBytes
  rw [List.getElem?_eq_none (Nat.not_lt.mp h)]
  rfl

/-- **Loading depends on a region only.** -/
theorem loadBytes_congr
    (h : ∀ x, Region.Contains { addr := a, len := n } x → mem x = mem' x) :
    loadBytes mem a n = loadBytes mem' a n := by
  unfold loadBytes
  refine List.map_congr_left ?_
  intro i hi
  refine h _ ?_
  have hi := List.mem_range.mp hi
  unfold Region.Contains
  rw [add_sub_start, BitVec.toNat_ofNat]
  exact Nat.lt_of_le_of_lt (Nat.mod_le i _) hi

/-- What is stored elsewhere is not loaded. -/
theorem loadBytes_storeBytes_of_disjoint
    (h : Region.Disjoint { addr := a, len := n } { addr := x, len := bytes.length }) :
    loadBytes (storeBytes mem x bytes) a n = loadBytes mem a n :=
  loadBytes_congr fun y hy => storeBytes_outside (h y hy)

theorem loadBytes_storeBytes (h : bytes.length ≤ 2 ^ 64) :
    loadBytes (storeBytes mem a bytes) a bytes.length = bytes := by
  unfold loadBytes storeBytes
  refine List.ext_getElem (by simp) ?_
  intro i _ hi
  have hoff : (BitVec.ofNat 64 i).toNat = i := by
    rw [BitVec.toNat_ofNat]
    exact Nat.mod_eq_of_lt (Nat.lt_of_lt_of_le hi h)
  simp only [List.getElem_map, List.getElem_range, add_sub_start, hoff,
    List.getElem?_eq_getElem hi, Option.getD_some]

/-- A stored byte is one element of what is loaded. -/
theorem loadBytes_storeByte {off : Addr} {v : UInt8} (hn : n ≤ 2 ^ 64) :
    loadBytes (storeBytes mem (a + off) [v]) a n = (loadBytes mem a n).set off.toNat v := by
  refine List.ext_getElem (by simp [loadBytes]) ?_
  intro i hi _
  have hi : i < n := by simpa [loadBytes] using hi
  have hnat : (BitVec.ofNat 64 i).toNat = i := by
    rw [BitVec.toNat_ofNat]
    exact Nat.mod_eq_of_lt (Nat.lt_of_lt_of_le hi hn)
  simp only [loadBytes, List.getElem_set, List.getElem_map, List.getElem_range]
  by_cases heq : off.toNat = i
  · have hsame : BitVec.ofNat 64 i = off := BitVec.eq_of_toNat_eq (hnat.trans heq.symm)
    rw [if_pos heq, hsame, storeBytes, BitVec.sub_self]
    rfl
  · rw [if_neg heq]
    refine storeBytes_outside fun hin => heq ?_
    have hsub : a + BitVec.ofNat 64 i - (a + off) = BitVec.ofNat 64 i - off := by grind
    unfold Region.Contains at hin
    dsimp only at hin
    rw [hsub, BitVec.toNat_sub, hnat, List.length_singleton] at hin
    have := off.isLt
    omega

end Bytes

/-! ## Words -/

/-- The `k` bytes of a number, the lowest first. -/
def leBytes : Nat → Nat → Bytes
  | 0, _ => []
  | k + 1, n => UInt8.ofNat n :: leBytes k (n / 256)

def leNat : Bytes → Nat
  | [] => 0
  | b :: bytes => b.toNat + 256 * leNat bytes

@[simp] theorem leBytes_length : ∀ k n : Nat, (leBytes k n).length = k
  | 0, _ => rfl
  | k + 1, n => congrArg (· + 1) (leBytes_length k (n / 256))

theorem leNat_leBytes : ∀ k n : Nat, leNat (leBytes k n) = n % 256 ^ k
  | 0, n => by
    rw [Nat.pow_zero, Nat.mod_one]
    rfl
  | k + 1, n => by
    have hmod : n % 256 ^ (k + 1) = n % 256 + 256 * (n / 256 % 256 ^ k) := by
      rw [Nat.pow_succ, Nat.mul_comm (256 ^ k), Nat.mod_mul]
    rw [leBytes, leNat, leNat_leBytes k, UInt8.toNat_ofNat', hmod]

def load32 (mem : Mem) (a : Addr) : BitVec 32 := BitVec.ofNat 32 (leNat (loadBytes mem a 4))

def store32 (mem : Mem) (a : Addr) (v : BitVec 32) : Mem := storeBytes mem a (leBytes 4 v.toNat)

def load64 (mem : Mem) (a : Addr) : BitVec 64 := BitVec.ofNat 64 (leNat (loadBytes mem a 8))

def store64 (mem : Mem) (a : Addr) (v : BitVec 64) : Mem := storeBytes mem a (leBytes 8 v.toNat)

theorem loadBytes_leBytes (mem : Mem) (a : Addr) (k n : Nat) (hk : k ≤ 2 ^ 64) :
    leNat (loadBytes (storeBytes mem a (leBytes k n)) a k) = n % 256 ^ k := by
  have hload := @loadBytes_storeBytes mem a (leBytes k n) (by rwa [leBytes_length])
  rw [leBytes_length] at hload
  rw [hload, leNat_leBytes]

@[simp] theorem load32_store32 (mem : Mem) (a : Addr) (v : BitVec 32) :
    load32 (store32 mem a v) a = v := by
  have hv : v.toNat % 256 ^ 4 = v.toNat := Nat.mod_eq_of_lt v.isLt
  unfold load32 store32
  rw [loadBytes_leBytes mem a 4 _ (by decide), hv, BitVec.ofNat_toNat, BitVec.setWidth_eq]

@[simp] theorem load64_store64 (mem : Mem) (a : Addr) (v : BitVec 64) :
    load64 (store64 mem a v) a = v := by
  have hv : v.toNat % 256 ^ 8 = v.toNat := Nat.mod_eq_of_lt v.isLt
  unfold load64 store64
  rw [loadBytes_leBytes mem a 8 _ (by decide), hv, BitVec.ofNat_toNat, BitVec.setWidth_eq]

end OsProg.Infra
