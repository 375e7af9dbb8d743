import OsProg.Mock.Model

/-!
# Scripts

What both mocks play is a script: the entries from the current one on, and the room that is
left in the data region. A call takes a bite of the current entry (`Script.call`), and
`read_eq` and `write_eq` say that this is what the functions do. Only `write` with no room
left for an entry does something else (`write_full`).

A script that starts with positive entries keeps its first other entry in place
(`call_entries`).
-/

namespace OsProg.Mock

open Infra

/-- The room that is left, and the entries from the current one on. -/
structure Script where
  room : Nat
  sizes : List Int
  deriving DecidableEq, Repr

/-- What a call of `count` bytes gets, and what is left of the script. -/
def Script.call (s : Script) (count : Nat) : Reply × Script :=
  match s.sizes with
  | [] => ({ ret := 0, errno := none }, s)
  | size :: sizes =>
    if size = 0 then ({ ret := 0, errno := none }, s)
    else if size < 0 then ({ ret := -1, errno := some (int (-size)) }, s)
    else
      let n := min (min count size.toNat) s.room
      ({ ret := n, errno := none },
        { room := s.room - n, sizes := if size = n then sizes else (size - n) :: sizes })

/-- A call that a client may make: it asks for something, for no more than `SSIZE_MAX`, and
`buf` is as long as it says. -/
structure Call where
  buf : Bytes
  count : Nat
  pos : 0 < count
  fits : count < 2 ^ 63
  room : count ≤ buf.length

/-- The fields of a mock, of a region of `m` bytes, are those of a script. -/
structure Plays (m data : Nat) (sizes : List Int) (cur : Nat) (s : Script) : Prop where
  room : data + s.room = m
  rest : sizes.drop cur = s.sizes
  inside : cur ≤ sizes.length

/-! ## Conversions -/

theorem ssize_eq {count : Nat} (h : count < 2 ^ 63) : ssize count = count :=
  Int.bmod_eq_of_le (by omega) (by omega)

theorem usize_eq {n : Nat} (h : n < 2 ^ 63) : usize n = n := by
  unfold usize
  omega

/-- The number is kept where the `int` is large enough. -/
theorem int_eq_iff {n : Int} (h : 0 ≤ n) : int n = n ↔ n < 2 ^ 31 := by
  unfold int
  constructor
  · intro heq
    have := Int.bmod_lt (x := n) (m := 2 ^ 32) (by decide)
    omega
  · intro hlt
    exact Int.bmod_eq_of_le (by omega) (by omega)

/-! ## The functions play scripts -/

section Plays

variable {m data cur : Nat} {sizes : List Int} {s : Script} {size : Int} {tail : List Int}

theorem Plays.current (h : Plays m data sizes cur s) (hs : s.sizes = size :: tail) :
    sizes[cur]? = some size := by
  rw [← Nat.add_zero cur, ← List.getElem?_drop, h.rest, hs]
  rfl

theorem Plays.position (h : Plays m data sizes cur s) :
    cur + s.sizes.length = sizes.length := by
  have hcur := h.inside
  rw [← h.rest, List.length_drop]
  omega

/-- The bytes that are left in the region. -/
theorem Plays.ahead {region : Bytes} (h : Plays region.length data sizes cur s) :
    (region.drop data).length = s.room := by
  rw [List.length_drop, ← h.room, Nat.add_sub_cancel_left]

/-- Offsets and indices are where they may be. -/
theorem Plays.bounds {ps rest : List Int} {q : Int} {room stop : Nat}
    (h : Plays m data sizes cur { room, sizes := ps ++ q :: rest })
    (hstop : stop + (rest.length + 1) = sizes.length) : data ≤ m ∧ cur ≤ stop := by
  have hroom := h.room
  have hpos := h.position
  rw [List.length_append, List.length_cons] at hpos
  dsimp only at hroom
  omega

/-- A bite is taken of the current entry. -/
theorem Plays.bite (h : Plays m data sizes cur s) (hs : s.sizes = size :: tail) {n : Nat}
    (hn : n ≤ s.room) :
    Plays m (data + n) (sizes.set cur (size - n)) (if size - n = 0 then cur + 1 else cur)
      { room := s.room - n, sizes := if size = n then tail else (size - n) :: tail } := by
  have hroom := h.room
  have hpos := h.position
  rw [hs, List.length_cons] at hpos
  have hset : (sizes.set cur (size - n)).drop cur = (size - n) :: tail := by
    rw [List.drop_set, if_neg (Nat.lt_irrefl cur), Nat.sub_self, h.rest, hs, List.set_cons_zero]
  refine ⟨?_, ?_, ?_⟩
  · change data + n + (s.room - n) = m
    omega
  · by_cases hsize : size = n
    · rw [if_pos (by omega), if_pos hsize, ← List.drop_drop, hset]
      rfl
    · rw [if_neg (by omega), if_neg hsize, hset]
  · rw [List.length_set]
    split <;> omega

end Plays

/-- The three-way minimum. -/
theorem toReturn_eq {size : Int} (h : 0 < size) (count room : Nat) :
    (if (room : Int) < (if size < count then size else count) then (room : Int)
      else if size < count then size else count) =
      (min (min count size.toNat) room : Nat) := by
  split <;> split at * <;> omega

@[simp] theorem orFault_some {α : Type} (f : Fault) (a : α) : orFault f (some a) = .ok a := rfl

@[simp] theorem orFault_none {α : Type} (f : Fault) : orFault f (none : Option α) = .error f := rfl

theorem ok_bind {α β : Type} (a : α) (f : α → Except Fault β) : (.ok a >>= f) = f a := rfl

section Functions

variable {s : Script}

/-- **`read` plays a script.** -/
theorem read_eq {e : ExpectedReads} (h : Plays e.region.length e.data e.sizes e.cur s)
    (hs : s.sizes ≠ []) (real_read : Int → Bytes → Nat → Reply × Bytes) (c : Call) :
    ∃ e', read real_read e.fd c.buf c.count e =
        .ok (((s.call c.count).1,
          (e.region.drop e.data).take (s.call c.count).1.ret.toNat ++
            c.buf.drop (s.call c.count).1.ret.toNat), e') ∧
      e'.fd = e.fd ∧ e'.region = e.region ∧ e'.sizes.length = e.sizes.length ∧
      e'.data = e.data + (s.call c.count).1.ret.toNat ∧
      Plays e'.region.length e'.data e'.sizes e'.cur (s.call c.count).2 := by
  obtain ⟨size, tail, hsize⟩ := List.exists_cons_of_ne_nil hs
  unfold read Script.call
  rw [if_neg (not_not_intro rfl), h.current hsize, hsize, orFault_some, ok_bind]
  rcases Int.lt_trichotomy size 0 with hneg | hzero | hpos
  · rw [if_neg (Int.ne_of_lt hneg), if_pos hneg]
    simp only [if_neg (Int.ne_of_lt hneg), if_pos hneg]
    exact ⟨e, rfl, rfl, rfl, rfl, rfl, h⟩
  · rw [if_pos hzero]
    simp only [if_pos hzero]
    exact ⟨e, rfl, rfl, rfl, rfl, rfl, h⟩
  · have hroom : ((e.region.length : Int) - e.data) = (s.room : Nat) := by
      have := h.room
      omega
    have hcount := c.fits
    have hbuf := c.room
    have hregion : (e.region.drop e.data).length = s.room := h.ahead
    have hsign : ¬size < 0 := by omega
    rw [if_neg (Int.ne_of_gt hpos), if_neg hsign]
    simp only [if_neg (Int.ne_of_gt hpos), if_neg hsign, ssize_eq hcount, hroom,
      toReturn_eq hpos, Int.toNat_natCast]
    generalize hn : min (min c.count size.toNat) s.room = n
    rw [usize_eq (by omega), memmove_eq (by omega) (by omega)]
    refine ⟨_, rfl, rfl, rfl, List.length_set, rfl, ?_⟩
    exact h.bite hsize (by omega)

/-- With room left, `write` does not come to the branch for the space that is used up. -/
theorem writeReply_room {size : Int} (h : 0 < size) {count room : Nat} (hcount : count < 2 ^ 63)
    (hroom : 0 < room) : writeReply count size room =
      { ret := (min (min count size.toNat) room : Nat), errno := none } := by
  unfold writeReply
  dsimp only
  rw [← toReturn_eq h, ssize_eq hcount]
  generalize (if size < (count : Int) then size else count) = toReturn
  rw [if_neg (show ¬(room : Int) = 0 by omega)]
  split <;> rfl

/-- Without room it does. -/
theorem writeReply_full {size : Int} (h : 0 < size) {count : Nat} (hpos : 0 < count)
    (hcount : count < 2 ^ 63) : writeReply count size 0 = { ret := -1, errno := some ENOSPC } := by
  have hret : (0 : Int) < if size < count then size else count := by
    split <;> omega
  unfold writeReply
  dsimp only
  rw [ssize_eq hcount, if_pos hret, if_pos rfl]

/-- **`write` plays a script**, as long as there is room for the current entry. -/
theorem write_eq {e : ExpectedWrites} (h : Plays e.region.length e.data e.sizes e.cur s)
    (hs : s.sizes ≠ []) (hfull : s.room = 0 → ∀ size ∈ s.sizes.head?, size ≤ 0)
    (real_write : Int → Bytes → Nat → Reply) (c : Call) :
    ∃ e', write real_write e.fd c.buf c.count e = .ok ((s.call c.count).1, e') ∧
      e'.fd = e.fd ∧ e'.sizes.length = e.sizes.length ∧
      e'.region = e.region.take e.data ++ (c.buf.take (s.call c.count).1.ret.toNat ++
        e.region.drop (e.data + (s.call c.count).1.ret.toNat)) ∧
      e'.data = e.data + (s.call c.count).1.ret.toNat ∧
      Plays e'.region.length e'.data e'.sizes e'.cur (s.call c.count).2 := by
  obtain ⟨size, tail, hsize⟩ := List.exists_cons_of_ne_nil hs
  unfold write Script.call
  rw [if_neg (not_not_intro rfl), h.current hsize, hsize, orFault_some, ok_bind]
  rcases Int.lt_trichotomy size 0 with hneg | hzero | hpos
  · rw [if_neg (Int.ne_of_lt hneg), if_pos hneg]
    simp only [if_neg (Int.ne_of_lt hneg), if_pos hneg]
    exact ⟨e, rfl, rfl, rfl, (List.take_append_drop _ _).symm, rfl, h⟩
  · rw [if_pos hzero]
    simp only [if_pos hzero]
    exact ⟨e, rfl, rfl, rfl, (List.take_append_drop _ _).symm, rfl, h⟩
  · have hleft : ((e.region.length : Int) - e.data) = (s.room : Nat) := by
      have := h.room
      omega
    have hroom : 0 < s.room := by
      refine Nat.pos_of_ne_zero fun h0 => ?_
      have := hfull h0 size (hsize ▸ rfl)
      omega
    have hcount := c.fits
    have hpos' := c.pos
    have hbuf := c.room
    have hregion : (e.region.drop e.data).length = s.room := h.ahead
    have hsign : ¬size < 0 := by omega
    rw [if_neg (Int.ne_of_gt hpos), if_neg hsign]
    simp only [if_neg (Int.ne_of_gt hpos), if_neg hsign, hleft, writeReply_room hpos hcount hroom,
      Int.toNat_natCast]
    generalize hn : min (min c.count size.toNat) s.room = n
    rw [if_pos (show (n : Int) ≠ 0 by omega), usize_eq (by omega),
      memmove_eq (by omega) (by omega), List.drop_drop]
    refine ⟨_, rfl, rfl, List.length_set, rfl, rfl, ?_⟩
    have hlength : (e.region.take e.data ++ (c.buf.take n ++ e.region.drop (e.data + n))).length =
        e.region.length := by
      have := h.room
      simp only [List.length_append, List.length_take, List.length_drop]
      omega
    have hbite := h.bite hsize (show n ≤ s.room by omega)
    rwa [← hlength] at hbite

/-- **When there is no room left, `write` copies with a size of -1.** -/
theorem write_full {e : ExpectedWrites} (h : Plays e.region.length e.data e.sizes e.cur s)
    {size : Int} {tail : List Int} (hsize : s.sizes = size :: tail) (hpos : 0 < size)
    (hroom : s.room = 0) (real_write : Int → Bytes → Nat → Reply) (c : Call) :
    write real_write e.fd c.buf c.count e = .error .memmove := by
  have hleft : ((e.region.length : Int) - e.data) = 0 := by
    have := h.room
    omega
  have hdrop : (e.region.drop e.data).length < usize (-1) := by
    rw [List.length_drop, ← h.room, hroom, Nat.add_zero, Nat.sub_self]
    decide
  unfold write
  rw [if_neg (not_not_intro rfl), h.current hsize, orFault_some, ok_bind,
    if_neg (Int.ne_of_gt hpos), if_neg (show ¬size < 0 by omega)]
  simp only [hleft, writeReply_full hpos c.pos c.fits]
  rw [if_pos (by decide), memmove_none hdrop, orFault_none]
  rfl

end Functions

/-! ## Positive entries -/

/-- The entries are numbers of bytes. -/
def Positive (ps : List Int) : Prop := ∀ p ∈ ps, 0 < p

theorem positive_cons {p : Int} {ps : List Int} : Positive (p :: ps) ↔ 0 < p ∧ Positive ps :=
  List.forall_mem_cons

theorem Positive.sum_nonneg : ∀ {ps : List Int}, Positive ps → 0 ≤ ps.sum
  | [], _ => Int.le_refl 0
  | p :: ps, h => by
    obtain ⟨hp, hps⟩ := positive_cons.mp h
    have := Positive.sum_nonneg hps
    rw [List.sum_cons]
    omega

theorem Positive.sum_pos {ps : List Int} (h : Positive ps) (hne : ps ≠ []) : 0 < ps.sum := by
  obtain ⟨p, ps, rfl⟩ := List.exists_cons_of_ne_nil hne
  obtain ⟨hp, hps⟩ := positive_cons.mp h
  have hsum := hps.sum_nonneg
  rw [List.sum_cons]
  omega

section Entries

variable {ps rest : List Int} {q : Int} {room count : Nat}

/-- **A call bites into the positive entries in front.** -/
theorem call_entries (hps : Positive ps) (hne : ps ≠ []) (hroom : 0 < room) (hcount : 0 < count) :
    ∃ (n : Nat) (ps' : List Int), 0 < n ∧ n ≤ count ∧ n ≤ room ∧ Positive ps' ∧
      ps'.sum + n = ps.sum ∧
      ({ room, sizes := ps ++ q :: rest } : Script).call count =
        ({ ret := n, errno := none }, { room := room - n, sizes := ps' ++ q :: rest }) := by
  match ps, hne with
  | p :: ps, _ =>
    obtain ⟨hp, hps⟩ := positive_cons.mp hps
    unfold Script.call
    simp only [List.cons_append, if_neg (Int.ne_of_gt hp), if_neg (show ¬p < 0 by omega)]
    generalize hn : min (min count p.toNat) room = n
    by_cases hwhole : p = n
    · refine ⟨n, ps, by omega, by omega, by omega, hps, ?_, ?_⟩
      · rw [List.sum_cons]
        omega
      · rw [if_pos hwhole]
    · refine ⟨n, (p - n) :: ps, by omega, by omega, by omega, positive_cons.mpr ⟨by omega, hps⟩,
        ?_, ?_⟩
      · rw [List.sum_cons, List.sum_cons]
        omega
      · rw [if_neg hwhole]
        rfl

/-- Without room nothing is transferred. -/
theorem call_full (hps : Positive ps) (hne : ps ≠ []) :
    ({ room := 0, sizes := ps ++ q :: rest } : Script).call count =
      ({ ret := 0, errno := none }, { room := 0, sizes := ps ++ q :: rest }) := by
  match ps, hne with
  | p :: ps, _ =>
    obtain ⟨hp, -⟩ := positive_cons.mp hps
    unfold Script.call
    simp only [List.cons_append, if_neg (Int.ne_of_gt hp), if_neg (show ¬p < 0 by omega),
      Nat.min_zero, if_neg (show ¬p = ((0 : Nat) : Int) by omega)]
    rw [show p - ((0 : Nat) : Int) = p by omega]
    rfl

/-- The entry that stops a client stays where it is. -/
theorem call_last (hq : q ≤ 0) :
    ({ room, sizes := q :: rest } : Script).call count =
      (if q = 0 then { ret := 0, errno := none } else { ret := -1, errno := some (int (-q)) },
        { room, sizes := q :: rest }) := by
  unfold Script.call
  by_cases h : q = 0
  · simp only [if_pos h]
  · simp only [if_neg h, if_pos (show q < 0 by omega)]

end Entries

end OsProg.Mock
