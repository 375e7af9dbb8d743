import OsProg.Infra.Transfers
import OsProg.TestHelpers.Model

/-!
# `readBytes` does not see the pieces

A `read` may deliver less than it was asked for. `readBytes` asks again for the rest, until it
has all or is told the end, so that the pieces in which the stream came leave no trace. Before
that it makes a string of all the bytes that are wanted, and throws when no string is so long.

* `readFrom` — the loop when the first `p` bytes are there
* `readBytes_eq_take` — the string is the front of the stream
* `not_readBytes_eq_take` — not when the string would be longer than strings can be
-/

namespace OsProg.TestHelpers

open Infra

variable {fd : Int} {max_size count pos : BitVec 64} {str : Bytes} {src : Stream' UInt8} {p : Nat}
  {ret : Int} {rets : Stream' Int}

/-! ## What is promised and what is asked -/

/-- No call returns more than it was asked for. -/
def Served (max_size : BitVec 64) (fd : Int) (count : BitVec 64) (src : Stream' UInt8)
    (rets : Stream' Int) : Prop :=
  ∀ n, ∀ c ∈ (readBytes max_size fd count src (rets.take n)).1, c.ret ≤ c.count.toNat

/-- A call stays inside a string of `count` bytes, and so does `pos` after it. -/
structure Call.Inside (count : BitVec 64) (c : Call) : Prop where
  pos_le : c.pos ≤ count
  asked : c.pos.toNat + c.count.toNat = count.toNat
  moved : c.pos.toNat + c.ret.toNat ≤ count.toNat

/-! ## The loop at an offset -/

/-- The string when its first `p` bytes have been read. -/
def filled (count : Nat) (src : Stream' UInt8) (p : Nat) : Bytes :=
  src.take p ++ List.replicate (count - p) 0

/-- The loop from there on. -/
def readFrom (fd : Int) (count : BitVec 64) (src : Stream' UInt8) (p : Nat) (rets : List Int) :
    List Call × Status :=
  readLoop fd count (BitVec.ofNat 64 p) (filled count.toNat src p) (src.drop p) rets

theorem filled_zero (count : Nat) (src : Stream' UInt8) :
    filled count src 0 = List.replicate count 0 := rfl

/-- Behind the constructor of the string. -/
theorem readBytes_eq (h : count ≤ max_size) (rets : List Int) :
    readBytes max_size fd count src rets = readFrom fd count src 0 rets := by
  have h' : ¬max_size < count := by
    rw [BitVec.lt_def, Nat.not_lt]
    exact h
  unfold readBytes readFrom
  rw [if_neg h', filled_zero]
  rfl

/-- The constructor throws, and nothing is read. -/
theorem readBytes_long (h : max_size < count) (rets : List Int) :
    readBytes max_size fd count src rets = ([], .threw .length_error) := by
  unfold readBytes
  exact if_pos h

/-- The call at offset `p`. -/
def callAt (fd : Int) (count : BitVec 64) (p : Nat) (ret : Int) : Call :=
  { fd, pos := BitVec.ofNat 64 p, count := count - BitVec.ofNat 64 p, ret }

theorem pos_toNat (hp : p ≤ count.toNat) : (BitVec.ofNat 64 p).toNat = p := by
  rw [BitVec.toNat_ofNat, Nat.mod_eq_of_lt (Nat.lt_of_le_of_lt hp count.isLt)]

theorem asked_toNat (hp : p ≤ count.toNat) :
    (count - BitVec.ofNat 64 p).toNat = count.toNat - p := by
  rw [BitVec.toNat_sub_of_le, pos_toNat hp]
  rw [BitVec.le_def, pos_toNat hp]
  exact hp

theorem pos_lt_iff (hp : p ≤ count.toNat) : BitVec.ofNat 64 p < count ↔ p < count.toNat := by
  rw [BitVec.lt_def, pos_toNat hp]

theorem inside_callAt (hp : p ≤ count.toNat) (hret : p + ret.toNat ≤ count.toNat) :
    (callAt fd count p ret).Inside count where
  pos_le := by
    rw [BitVec.le_def]
    exact (pos_toNat hp).trans_le hp
  asked := by
    rw [callAt, pos_toNat hp, asked_toNat hp]
    omega
  moved := by
    rw [callAt, pos_toNat hp]
    exact hret

/-! ## The string -/

theorem resize_filled (hp : p ≤ count.toNat) :
    resize (filled count.toNat src p) p = src.take p := by
  have hlen : (filled count.toNat src p).length = count.toNat := by
    rw [filled, List.length_append, Stream'.length_take, List.length_replicate]
    omega
  rw [resize, hlen, Nat.sub_eq_zero_of_le hp, List.replicate_zero, List.append_nil, filled,
    List.take_left' (Stream'.length_take ..)]

theorem store_filled {k n : Nat} (h : p + n ≤ k) :
    store (filled k src p) p (src.drop p) n = some (filled k src (p + n)) := by
  unfold store filled
  rw [List.drop_left' (Stream'.length_take ..), List.take_left' (Stream'.length_take ..),
    memmove_eq (by rw [List.length_replicate]; omega) (by rw [Stream'.length_take]),
    List.take_of_length_le (Nat.le_of_eq (Stream'.length_take ..)), List.drop_replicate, take_add,
    List.append_assoc, Nat.sub_sub]
  rfl

/-! ## One turn -/

theorem readLoop_past (h : ¬pos < count) (rets : List Int) :
    readLoop fd count pos str src rets = ([], .returned str) := by
  unfold readLoop
  exact if_neg h

theorem readLoop_nil (h : pos < count) : readLoop fd count pos str src [] = ([], .waiting) := by
  unfold readLoop
  exact if_pos h

theorem readFrom_done (rets : List Int) :
    readFrom fd count src count.toNat rets = ([], .returned (src.take count.toNat)) := by
  rw [readFrom, readLoop_past fun h => Nat.lt_irrefl _ ((pos_lt_iff (Nat.le_refl _)).mp h), filled,
    Nat.sub_self, List.replicate_zero, List.append_nil]

theorem readFrom_stop (hp : p < count.toNat) (h : ret ≤ 0) (rets : List Int) :
    readFrom fd count src p (ret :: rets) =
      ([callAt fd count p ret], .returned (src.take p)) := by
  have hle := Nat.le_of_lt hp
  unfold readFrom readLoop
  rw [if_pos ((pos_lt_iff hle).mpr hp)]
  dsimp only
  rw [if_pos h, pos_toNat hle, resize_filled hle]
  rfl

theorem readFrom_deliver (hp : p < count.toNat) (h : 0 < ret) (hret : p + ret.toNat ≤ count.toNat)
    (rets : List Int) :
    readFrom fd count src p (ret :: rets) =
      (callAt fd count p ret :: (readFrom fd count src (p + ret.toNat) rets).1,
        (readFrom fd count src (p + ret.toNat) rets).2) := by
  have hle := Nat.le_of_lt hp
  have hpos : BitVec.ofNat 64 p + BitVec.ofInt 64 ret = BitVec.ofNat 64 (p + ret.toNat) := by
    rw [BitVec.ofNat_add, ← BitVec.ofInt_natCast 64 ret.toNat, Int.toNat_of_nonneg (Int.le_of_lt h)]
  rw [readFrom, readLoop, if_pos ((pos_lt_iff hle).mpr hp)]
  dsimp only
  rw [if_neg (Int.not_le.mpr h), pos_toNat hle, store_filled hret, hpos, Stream'.drop_drop]
  rfl

/-- Whatever it returns, the call is made. -/
theorem callAt_mem (hp : p < count.toNat) (ret : Int) (rets : List Int) :
    callAt fd count p ret ∈ (readFrom fd count src p (ret :: rets)).1 := by
  unfold readFrom readLoop
  rw [if_pos ((pos_lt_iff (Nat.le_of_lt hp)).mpr hp)]
  dsimp only
  split
  · exact List.mem_singleton_self _
  · split
    · exact List.mem_singleton_self _
    · exact List.mem_cons_self

/-! ## All turns -/

/-- `Served`, from offset `p` on. -/
def ServedFrom (fd : Int) (count : BitVec 64) (src : Stream' UInt8) (p : Nat)
    (rets : Stream' Int) : Prop :=
  ∀ n, ∀ c ∈ (readFrom fd count src p (rets.take n)).1, c.ret ≤ c.count.toNat

/-- With `m` bytes to go, the loop returns after at most `m` calls. -/
def Returns (fd : Int) (count : BitVec 64) (src : Stream' UInt8) (p m : Nat)
    (rets : Stream' Int) : Prop :=
  ∃ n ≤ m, ∃ calls, readFrom fd count src p (rets.take n) =
      (calls, .returned (src.take (p + upTo m (available rets)))) ∧
    calls.length = n ∧ ∀ c ∈ calls, c.Inside count

theorem ServedFrom.head (h : ServedFrom fd count src p (rets.cons ret)) (hp : p < count.toNat) :
    ret ≤ (count.toNat - p : Nat) := by
  have hret : ret ≤ (count - BitVec.ofNat 64 p).toNat := h 1 _ (callAt_mem hp ret [])
  rwa [asked_toNat (Nat.le_of_lt hp)] at hret

theorem ServedFrom.tail (h : ServedFrom fd count src p (rets.cons ret)) (hp : p < count.toNat)
    (hpos : 0 < ret) (hret : p + ret.toNat ≤ count.toNat) :
    ServedFrom fd count src (p + ret.toNat) rets := by
  intro n c hc
  refine h (n + 1) c ?_
  rw [Stream'.take_succ_cons, readFrom_deliver hp hpos hret]
  exact List.mem_cons_of_mem _ hc

theorem returns_done : Returns fd count src count.toNat 0 rets := by
  refine ⟨0, Nat.le_refl 0, [], ?_, rfl, fun c hc => by cases hc⟩
  simpa using readFrom_done []

theorem returns_stop {m : Nat} (hp : p < count.toNat) (hm : 0 < m) (h : ret ≤ 0) :
    Returns fd count src p m (rets.cons ret) := by
  refine ⟨1, hm, [callAt fd count p ret], ?_, rfl, ?_⟩
  · rw [available_stop h]
    simpa using readFrom_stop hp h []
  · rintro c hc
    obtain rfl := List.mem_singleton.mp hc
    exact inside_callAt (Nat.le_of_lt hp) (by omega)

theorem returns_deliver {m : Nat} (hp : p < count.toNat) (h : 0 < ret)
    (hret : p + ret.toNat ≤ count.toNat) (hm : ret.toNat ≤ m)
    (ih : Returns fd count src (p + ret.toNat) (m - ret.toNat) rets) :
    Returns fd count src p m (rets.cons ret) := by
  obtain ⟨n, hn, calls, hrun, hlen, hinside⟩ := ih
  refine ⟨n + 1, by omega, callAt fd count p ret :: calls, ?_, congrArg (· + 1) hlen, ?_⟩
  · rw [Stream'.take_succ_cons, readFrom_deliver hp h hret, hrun, available_deliver h,
      upTo_deliver hm, Nat.add_assoc]
  · exact List.forall_mem_cons.mpr ⟨inside_callAt (Nat.le_of_lt hp) hret, hinside⟩

/-- By induction on the bytes to go: a call that delivers leaves fewer of them. -/
theorem readFrom_returns (m : Nat) : ∀ (p : Nat) (rets : Stream' Int), p + m = count.toNat →
    ServedFrom fd count src p rets → Returns fd count src p m rets := by
  induction m using Nat.strong_induction_on with
  | _ m ih =>
    intro p rets hm hserved
    rcases Nat.eq_zero_or_pos m with rfl | hpos
    · obtain rfl : p = count.toNat := hm
      exact returns_done
    · have hp : p < count.toNat := by omega
      rw [← rets.eta] at hserved ⊢
      generalize rets.head = ret at hserved ⊢
      rcases Int.lt_or_le 0 ret with h | h
      · have hhead := hserved.head hp
        have hret : p + ret.toNat ≤ count.toNat := by omega
        exact returns_deliver hp h hret (by omega)
          (ih _ (by omega) _ _ (by omega) (hserved.tail hp h hret))
      · exact returns_stop hp hpos h

/-! ## Answers that are not asked for -/

/-- More answers change nothing, unless the loop waits for them. -/
theorem readLoop_append (rets more : List Int) :
    readLoop fd count pos str src (rets ++ more) = readLoop fd count pos str src rets ∨
      (readLoop fd count pos str src rets).2 = .waiting ∧
        (readLoop fd count pos str src rets).1 <+:
          (readLoop fd count pos str src (rets ++ more)).1 := by
  by_cases hpos : pos < count
  · induction rets generalizing pos str src with
    | nil =>
      rw [readLoop_nil hpos]
      exact .inr ⟨rfl, List.nil_prefix⟩
    | cons ret rets ih =>
      rw [List.cons_append, readLoop, readLoop, if_pos hpos, if_pos hpos]
      dsimp only
      split
      · exact .inl rfl
      · split
        · exact .inl rfl
        · rename_i str' hstore
          by_cases hpos' : pos + BitVec.ofInt 64 ret < count
          · rcases @ih _ str' (src.drop ret.toNat) hpos' with h | ⟨hw, hpre⟩
            · exact .inl (by rw [h])
            · exact .inr ⟨hw, List.cons_prefix_cons.mpr ⟨rfl, hpre⟩⟩
          · rw [readLoop_past hpos', readLoop_past hpos']
            exact .inl rfl
  · rw [readLoop_past hpos, readLoop_past hpos]
    exact .inl rfl

theorem readBytes_append (rets more : List Int) :
    readBytes max_size fd count src (rets ++ more) = readBytes max_size fd count src rets ∨
      (readBytes max_size fd count src rets).2 = .waiting ∧
        (readBytes max_size fd count src rets).1 <+:
          (readBytes max_size fd count src (rets ++ more)).1 := by
  unfold readBytes
  split
  · exact .inl rfl
  · exact readLoop_append rets more

/-- Two runs on the answers of one stream, when the first has returned. -/
theorem readBytes_take {n : Nat}
    (h : (readBytes max_size fd count src (rets.take n)).2 ≠ .waiting) (k : Nat) :
    readBytes max_size fd count src (rets.take (n + k)) =
      readBytes max_size fd count src (rets.take n) := by
  rw [take_add]
  rcases readBytes_append (rets.take n) ((rets.drop n).take k) with heq | ⟨hw, -⟩
  · exact heq
  · exact absurd hw h

theorem returned_unique {n n' : Nat} {str str' : Bytes}
    (h : (readBytes max_size fd count src (rets.take n)).2 = .returned str)
    (h' : (readBytes max_size fd count src (rets.take n')).2 = .returned str') : str = str' := by
  have hn := @readBytes_take fd max_size count src rets n (by rw [h]; exact nofun) n'
  have hn' := @readBytes_take fd max_size count src rets n' (by rw [h']; exact nofun) n
  rw [Nat.add_comm, hn] at hn'
  rw [← hn', h] at h'
  exact Status.returned.inj h'

/-- Only the calls that are made have to be served. -/
theorem served_of_returned {n : Nat} {str : Bytes}
    (h : (readBytes max_size fd count src (rets.take n)).2 = .returned str)
    (hcalls : ∀ c ∈ (readBytes max_size fd count src (rets.take n)).1, c.ret ≤ c.count.toNat) :
    Served max_size fd count src rets := by
  intro k
  rcases Nat.le_total n k with hk | hk
  · obtain ⟨j, rfl⟩ := Nat.exists_eq_add_of_le hk
    rwa [readBytes_take (by rw [h]; exact nofun)]
  · obtain ⟨j, rfl⟩ := Nat.exists_eq_add_of_le hk
    rw [take_add] at hcalls
    rcases readBytes_append (rets.take k) ((rets.drop k).take j) with heq | ⟨-, hpre⟩
    · rwa [heq] at hcalls
    · exact fun c hc => hcalls c (hpre.subset hc)

theorem Served.servedFrom (h : Served max_size fd count src rets) (hmax : count ≤ max_size) :
    ServedFrom fd count src 0 rets := by
  intro n
  rw [← readBytes_eq hmax]
  exact h n

/-! ## The whole function -/

/-- **The pieces do not matter.** When a string can be so long, `readBytes` returns the front of
the stream, as far as it is available and no longer than `count`. -/
theorem readBytes_eq_take (hmax : count ≤ max_size) (h : Served max_size fd count src rets) :
    (∃ n ≤ max count.toNat 1, ∃ calls, readBytes max_size fd count src (rets.take n) =
        (calls, .returned (src.take (upTo count.toNat (available rets)))) ∧
      calls.length = n ∧ ∀ c ∈ calls, c.Inside count) ∧
    ∀ rets', Served max_size fd count src rets' → available rets' = available rets →
      ∀ n n' str str', (readBytes max_size fd count src (rets.take n)).2 = .returned str →
        (readBytes max_size fd count src (rets'.take n')).2 = .returned str' → str = str' := by
  have hall : ∀ {rets : Stream' Int}, Served max_size fd count src rets →
      Returns fd count src 0 count.toNat rets := fun h =>
    readFrom_returns count.toNat 0 _ (Nat.zero_add _) (h.servedFrom hmax)
  constructor
  · obtain ⟨n, hn, calls, hrun, hrest⟩ := hall h
    rw [Nat.zero_add, ← readBytes_eq hmax] at hrun
    exact ⟨n, hn.trans (Nat.le_max_left ..), calls, hrun, hrest⟩
  · intro rets' h' heq n n' str str' hstr hstr'
    obtain ⟨m, -, calls, hrun, -⟩ := hall h
    obtain ⟨m', -, calls', hrun', -⟩ := hall h'
    rw [heq] at hrun'
    rw [← readBytes_eq hmax] at hrun hrun'
    exact (returned_unique hstr (congrArg Prod.snd hrun)).trans
      (returned_unique hstr' (congrArg Prod.snd hrun')).symm

def letters : Stream' UInt8 := fun n => UInt8.ofNat (65 + n)

/-- Four bytes in two pieces, and then the end of the stream. -/
def pieces : Stream' Int := .cons 2 (.cons 2 (.const 0))

/-- The same in other pieces, and then an error. -/
def otherPieces : Stream' Int := .cons 1 (.cons 3 (.const (-1)))

/-- `std::string::max_size()` of a common library. -/
def maxSize : BitVec 64 := 4611686018427387903

theorem served_pieces : Served maxSize 3 5 letters pieces :=
  @served_of_returned 3 maxSize 5 letters pieces 3 [65, 66, 67, 68] (by decide) (by decide)

theorem served_otherPieces : Served maxSize 3 5 letters otherPieces :=
  @served_of_returned 3 maxSize 5 letters otherPieces 3 [65, 66, 67, 68] (by decide) (by decide)

theorem available_pieces : available pieces = some 4 := by
  rw [pieces, available_deliver (by decide), available_deliver (by decide), Stream'.const_eq,
    available_stop (Int.le_refl 0)]
  rfl

theorem available_otherPieces : available otherPieces = some 4 := by
  rw [otherPieces, available_deliver (by decide), available_deliver (by decide),
    Stream'.const_eq, available_stop (by decide)]
  rfl

theorem readBytes_eq_take_pieces :
    (∃ n ≤ 5, ∃ calls, readBytes maxSize 3 5 letters (pieces.take n) =
      (calls, .returned [65, 66, 67, 68])) ∧
    ∀ n n' str str', (readBytes maxSize 3 5 letters (pieces.take n)).2 = .returned str →
      (readBytes maxSize 3 5 letters (otherPieces.take n')).2 = .returned str' → str = str' := by
  obtain ⟨⟨n, hn, calls, hrun, -⟩, hsame⟩ := readBytes_eq_take (by decide) served_pieces
  refine ⟨⟨n, hn, calls, ?_⟩, hsame otherPieces served_otherPieces ?_⟩
  · rw [hrun, available_pieces]
    rfl
  · rw [available_pieces, available_otherPieces]

/-- Of `2 ^ 63` bytes there is no string, and the four that are available are not read. -/
theorem not_readBytes_eq_take : Served maxSize 3 9223372036854775808 letters pieces ∧
    available pieces = some 4 ∧ ∀ n,
      readBytes maxSize 3 9223372036854775808 letters (pieces.take n) =
        ([], .threw .length_error) := by
  have hlong : ∀ n, readBytes maxSize 3 9223372036854775808 letters (pieces.take n) =
      ([], .threw .length_error) := fun n => readBytes_long (by decide) _
  refine ⟨fun n c hc => ?_, available_pieces, hlong⟩
  rw [hlong] at hc
  cases hc

end OsProg.TestHelpers
