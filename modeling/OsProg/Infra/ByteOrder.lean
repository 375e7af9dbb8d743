import OsProg.Infra.CString
import Mathlib.Algebra.Ring.Nat

/-!
# 32-bit words and their byte order

The host is little-endian: a `uint32_t` read from memory is `le32` of its four bytes.
`ntohl` swaps the bytes, so that `ntohl` of the host's reading is the big-endian value
(`ntohl_le32`), and `be32` reads back what `be32Bytes` writes (`be32_be32Bytes`).
-/

namespace OsProg.Infra

/-- A little-endian word in memory. Missing bytes read as `0`. -/
def le32 (p : Bytes) : UInt32 :=
  UInt32.ofNat ((p.getD 0 0).toNat + 256 * (p.getD 1 0).toNat
    + 65536 * (p.getD 2 0).toNat + 16777216 * (p.getD 3 0).toNat)

/-- A big-endian word in memory. -/
def be32 (p : Bytes) : UInt32 :=
  UInt32.ofNat ((p.getD 3 0).toNat + 256 * (p.getD 2 0).toNat
    + 65536 * (p.getD 1 0).toNat + 16777216 * (p.getD 0 0).toNat)

/-- Network byte order to host byte order on a little-endian host. -/
def ntohl (n : UInt32) : UInt32 :=
  UInt32.ofNat (n.toNat / 16777216 + 256 * (n.toNat / 65536 % 256)
    + 65536 * (n.toNat / 256 % 256) + 16777216 * (n.toNat % 256))

/-- The big-endian encoding of a word. -/
def be32Bytes (n : UInt32) : Bytes :=
  [UInt8.ofNat (n.toNat / 16777216), UInt8.ofNat (n.toNat / 65536 % 256),
    UInt8.ofNat (n.toNat / 256 % 256), UInt8.ofNat (n.toNat % 256)]

@[simp] theorem be32Bytes_length (n : UInt32) : (be32Bytes n).length = 4 := rfl

theorem le32_toNat (p : Bytes) : (le32 p).toNat = (p.getD 0 0).toNat
    + 256 * (p.getD 1 0).toNat + 65536 * (p.getD 2 0).toNat + 16777216 * (p.getD 3 0).toNat := by
  have h0 := (p.getD 0 0).toNat_lt
  have h1 := (p.getD 1 0).toNat_lt
  have h2 := (p.getD 2 0).toNat_lt
  have h3 := (p.getD 3 0).toNat_lt
  rw [le32, UInt32.toNat_ofNat', Nat.mod_eq_of_lt]
  omega

theorem ntohl_le32 (p : Bytes) : ntohl (le32 p) = be32 p := by
  have h0 := (p.getD 0 0).toNat_lt
  have h1 := (p.getD 1 0).toNat_lt
  have h2 := (p.getD 2 0).toNat_lt
  have h3 := (p.getD 3 0).toNat_lt
  rw [ntohl, be32, le32_toNat]
  congr 1
  omega

/-- **A word survives its big-endian encoding.** -/
theorem be32_be32Bytes (n : UInt32) (r : Bytes) : be32 (be32Bytes n ++ r) = n := by
  have hn := n.toNat_lt
  apply UInt32.toNat_inj.mp
  simp only [be32, be32Bytes, List.cons_append, List.getD_cons_zero, List.getD_cons_succ,
    UInt8.toNat_ofNat', UInt32.toNat_ofNat']
  omega

/-- Reading a word looks at four bytes only. -/
theorem be32_append {p : Bytes} (h : 4 ≤ p.length) (r : Bytes) : be32 (p ++ r) = be32 p := by
  match p, h with
  | _ :: _ :: _ :: _ :: _, _ => rfl

/-- Four bytes are the encoding of the word they hold. -/
theorem be32Bytes_be32 {p : Bytes} (h : p.length = 4) : be32Bytes (be32 p) = p := by
  match p, h with
  | [a, b, c, d], _ =>
    have ha := a.toNat_lt
    have hb := b.toNat_lt
    have hc := c.toNat_lt
    have hd := d.toNat_lt
    simp only [be32, be32Bytes, List.getD_cons_zero, List.getD_cons_succ, UInt32.toNat_ofNat',
      List.cons.injEq, and_true]
    refine ⟨?_, ?_, ?_, ?_⟩ <;> rw [← UInt8.toNat_inj, UInt8.toNat_ofNat'] <;> omega

end OsProg.Infra
