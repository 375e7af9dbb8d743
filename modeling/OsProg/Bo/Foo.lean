import OsProg.Infra.Fgets
import OsProg.Infra.Printf

/-!
# The buffer overflow

`l10/bo.cpp`. `foo` reads up to 63 bytes into an array of 8, and prints the array whether it has
read anything or not. The addresses that it prints are given, and `fgets` and the `%s` of `printf`
are the accesses that may leave the array.

* `main_in_bounds_iff` — the inputs with which they do not, and what is printed then
-/

namespace OsProg.Bo

open Infra

inductive Fault where
  | fgets
  | printf
  deriving DecidableEq, Repr

/-- `%13s`. -/
def padLeft (s : String) : Bytes := List.replicate (13 - s.length) 0x20 ++ ascii s

/-- `%x` of an `int`. -/
def formatX (i : BitVec 32) : Bytes :=
  (Nat.toDigits 16 i.toNat).map fun c => UInt8.ofNat c.toNat

/-- `printAddr`. -/
def printAddr (addr : String → Bytes) (v : String) : Bytes :=
  padLeft v ++ ascii ": " ++ addr v ++ ascii "\n"

/-- The line about the values. -/
def values (x y a b i j : BitVec 32) : Bytes :=
  ascii "x 0x" ++ formatX x ++ ascii " y 0x" ++ formatX y ++ ascii " a 0x" ++ formatX a ++
    ascii " b 0x" ++ formatX b ++ ascii " i 0x" ++ formatX i ++ ascii " j 0x" ++ formatX j ++
    ascii "\n"

/-- `buf` after the two assignments of `0xdeadbeef`. -/
def deadbeef : Bytes := [0xEF, 0xBE, 0xAD, 0xDE, 0xEF, 0xBE, 0xAD, 0xDE]

/-- What `foo` prints before it reads. -/
def header (addr : String → Bytes) (x y : BitVec 32) : Bytes :=
  (["buf", "a", "b", "i", "j", "main", "foo", "privateFunc", "printf"].flatMap (printAddr addr)) ++
    values x y (x + 1) (x + 2) (y + 1) (y + 2) ++ ascii "----\n"

/-- `foo`: what it prints, as long as it stays in `buf`. -/
def foo (addr : String → Bytes) (x y : BitVec 32) (stdin : Bytes) : Except Fault Bytes :=
  match fgets deadbeef 64 stdin with
  | none => .error .fgets
  | some (read, _) =>
    -- the result of `fgets` is not looked at
    let buf := read.getD deadbeef
    match cstr buf with
    | none => .error .printf
    | some s => .ok (header addr x y ++ ascii "\n----\n" ++ s ++ ascii "\n" ++
        values x y (x + 1) (x + 2) (y + 1) (y + 2))

def main (addr : String → Bytes) (stdin : Bytes) : Except Fault Bytes :=
  match foo addr 0x11111111 0x22222222 stdin with
  | .error f => .error f
  | .ok out => .ok (ascii "start\n" ++ out ++ ascii "end\n")

/-! ## In bounds -/

/-- What `fgets` would store. -/
def piece (stdin : Bytes) : Bytes := (takeLine 63 stdin).1

variable {addr : String → Bytes} {stdin : Bytes}

theorem foo_empty (x y : BitVec 32) : foo addr x y [] = .error .printf := rfl

theorem foo_long (hne : stdin ≠ []) (hlen : 8 ≤ (piece stdin).length) (x y : BitVec 32) :
    foo addr x y stdin = .error .fgets := by
  have hread : fgets deadbeef 64 stdin = none := by
    unfold fgets
    dsimp only
    rw [if_neg fun hnil => hne (takeLine_eq_nil.mp hnil)]
    exact if_neg (Nat.not_lt.mpr hlen)
  unfold foo
  rw [hread]

theorem foo_short (hne : stdin ≠ []) (hlen : (piece stdin).length < 8) (x y : BitVec 32) :
    foo addr x y stdin = .ok (header addr x y ++ ascii "\n----\n" ++ beforeNul (piece stdin) ++
      ascii "\n" ++ values x y (x + 1) (x + 2) (y + 1) (y + 2)) := by
  have hread : ∃ tail rest, fgets deadbeef 64 stdin =
      some (some (piece stdin ++ 0 :: tail), rest) := by
    refine ⟨deadbeef.drop ((piece stdin).length + 1), (takeLine 63 stdin).2, ?_⟩
    unfold fgets
    dsimp only
    rw [if_neg fun hnil => hne (takeLine_eq_nil.mp hnil)]
    exact if_pos hlen
  obtain ⟨tail, rest, hread⟩ := hread
  have hstr : cstr (piece stdin ++ 0 :: tail) = some (beforeNul (piece stdin)) := by
    rw [cstr_eq (List.mem_append_right _ List.mem_cons_self), beforeNul_terminated]
  unfold foo
  rw [hread]
  dsimp only [Option.getD_some]
  rw [hstr]

/-- **When the program stays in its array**: the first line, with its newline, is there and fits
into eight bytes with a NUL behind it. Then the line is printed up to its first NUL. -/
theorem main_in_bounds_iff (addr : String → Bytes) (stdin : Bytes) :
    ((∃ out, main addr stdin = .ok out) ↔ stdin ≠ [] ∧ (piece stdin).length < 8) ∧
      ∀ out, main addr stdin = .ok out →
        out = ascii "start\n" ++ (header addr 0x11111111 0x22222222 ++ ascii "\n----\n" ++
          beforeNul (piece stdin) ++ ascii "\n" ++
          values 0x11111111 0x22222222 0x11111112 0x11111113 0x22222223 0x22222224) ++
          ascii "end\n" := by
  unfold main
  by_cases hne : stdin = []
  · -- `fgets` leaves the array as it is, without a NUL
    rw [hne, foo_empty]
    simp
  · rcases Nat.lt_or_ge (piece stdin).length 8 with hlen | hlen
    · rw [foo_short hne hlen]
      simp [hne, hlen]
    · rw [foo_long hne hlen]
      simp [hlen]

end OsProg.Bo
