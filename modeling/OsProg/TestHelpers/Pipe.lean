import OsProg.TestHelpers.ReadBytes

/-!
# Reading from a pipe

A test reads from a pipe with `readBytes` and `readAvailable`, while the code under test writes to
it. What the writers do meanwhile is only seen from the answers: a call delivers no more than has
been written, and at least one byte where there are any. The answer to a call may also be missing,
when the writers are silent.

* `Answered` — the answers of a pipe
* `Session` — calls of the helpers that have returned, each with its answers
* `Stands` — how far a helper has come
* `session_in_order` — the test gets what its calls take out of the pipe, in order and once, and
  `readAvailable` gets all that is there without waiting for more
-/

namespace OsProg.TestHelpers

open Infra

/-! ## Calls of the helpers -/

inductive Helper where
  | readBytes (count : BitVec 64)
  | readAvailable (ioctl : Fionread)
  deriving DecidableEq, Repr

/-- How many bytes it is to read. -/
def Helper.count : Helper → BitVec 64
  | .readBytes count => count
  | .readAvailable ioctl => ioctl.bytesAvailable.signExtend 64

/-- A call with the answers to its `read`s. -/
def Helper.run (max_size : BitVec 64) (fd : Int) (src : Stream' UInt8) (rets : List Int) :
    Helper → List Call × Status
  | .readBytes count => TestHelpers.readBytes max_size fd count src rets
  | .readAvailable ioctl => TestHelpers.readAvailable max_size fd ioctl src rets

/-- How many bytes the calls have taken out of the pipe. -/
def delivered (calls : List Call) : Nat := (calls.map fun c => c.ret.toNat).sum

@[simp] theorem delivered_nil : delivered [] = 0 := rfl

@[simp] theorem delivered_cons (c : Call) (calls : List Call) :
    delivered (c :: calls) = c.ret.toNat + delivered calls := rfl

/-! ## Pipes -/

/-- The answer to a call when `taken` bytes have been read before the helper was called, and
`seen` bytes had been written then. By now it may be more. -/
structure Call.Answered (taken seen : Nat) (c : Call) : Prop where
  most : c.ret ≤ c.count.toNat
  some : taken + c.pos.toNat < seen → 0 < c.ret

/-- The answers that a helper has got. `FIONREAD` says how many bytes are in the pipe. -/
structure Answered (max_size : BitVec 64) (fd : Int) (src : Stream' UInt8) (taken seen : Nat)
    (helper : Helper) (rets : List Int) : Prop where
  calls : ∀ c ∈ (helper.run max_size fd (src.drop taken) rets).1, c.Answered taken seen
  fionread : ∀ ioctl, helper = .readAvailable ioctl →
    ioctl.ret ≠ -1 ∧ taken + ioctl.bytesAvailable.toNat = seen ∧
      ioctl.bytesAvailable.toNat < 2 ^ 31

/-- A test whose helpers have returned one after the other, with what each returned. Before the
first of them `taken` bytes have been read, and behind the last one `taken'`. -/
inductive Session (max_size : BitVec 64) (fd : Int) (src : Stream' UInt8) :
    Nat → List Helper → List Bytes → Nat → Prop where
  | done (taken : Nat) : Session max_size fd src taken [] [] taken
  | call {taken taken' seen : Nat} {helper : Helper} {rets : List Int} {calls : List Call}
    {str : Bytes} {helpers : List Helper} {strs : List Bytes}
    (h : Answered max_size fd src taken seen helper rets)
    (hrun : helper.run max_size fd (src.drop taken) rets = (calls, .returned str))
    (hrest : Session max_size fd src (taken + delivered calls) helpers strs taken') :
    Session max_size fd src taken (helper :: helpers) (str :: strs) taken'

/-! ## The loop, with the answers up to now -/

variable {fd : Int} {max_size count : BitVec 64} {src : Stream' UInt8} {taken taken' seen p : Nat}
  {helper : Helper} {rets : List Int} {calls : List Call} {status : Status} {str : Bytes}

/-- How far the loop has come from offset `p` with `n` answers. When it waits, each of them was
that of a call which delivered something. -/
inductive Stands (count : Nat) (src : Stream' UInt8) (p n : Nat) (calls : List Call) :
    Status → Prop where
  | waiting (hlt : p + delivered calls < count) (hn : n ≤ delivered calls) :
    Stands count src p n calls .waiting
  | returned (hle : p + delivered calls ≤ count)
    (hend : p + delivered calls < count → ∃ c ∈ calls, c.ret ≤ 0) :
    Stands count src p n calls (.returned (src.take (p + delivered calls)))

theorem Stands.deliver {count n : Nat} {c : Call}
    (h : Stands count src (p + c.ret.toNat) n calls status) (hret : 0 < c.ret) :
    Stands count src p (n + 1) (c :: calls) status := by
  have hsum : p + c.ret.toNat + delivered calls = p + delivered (c :: calls) := by
    rw [delivered_cons, Nat.add_assoc]
  cases h with
  | waiting hlt hn =>
    refine .waiting (by rwa [← hsum]) ?_
    rw [delivered_cons]
    omega
  | returned hle hend =>
    rw [hsum] at hle hend ⊢
    refine .returned hle fun hlt => ?_
    obtain ⟨c', hc', hstop⟩ := hend hlt
    exact ⟨c', List.mem_cons_of_mem _ hc', hstop⟩

theorem Stands.of_returned {count n : Nat} (h : Stands count src p n calls (.returned str)) :
    str = src.take (p + delivered calls) ∧ p + delivered calls ≤ count ∧
      (p + delivered calls < count → ∃ c ∈ calls, c.ret ≤ 0) := by
  generalize hstatus : Status.returned str = status at h
  cases h with
  | waiting => cases hstatus
  | returned hle hend =>
    cases hstatus
    exact ⟨rfl, hle, hend⟩

/-- Behind the loop, when the string is full. -/
theorem stands_full (rets : List Int) (n : Nat) :
    Stands count.toNat src count.toNat n (readFrom fd count src count.toNat rets).1
      (readFrom fd count src count.toNat rets).2 := by
  rw [readFrom_done]
  exact .returned (Nat.le_refl _) fun h => absurd h (Nat.lt_irrefl _)

/-- Behind the loop, at an error or the end, where nothing is read any more. -/
theorem stands_stop {ret : Int} (hp : p < count.toNat) (hret : ret ≤ 0) (rets : List Int)
    (n : Nat) : Stands count.toNat src p n (readFrom fd count src p (ret :: rets)).1
      (readFrom fd count src p (ret :: rets)).2 := by
  have hnone : p + delivered [callAt fd count p ret] = p := by
    rw [delivered_cons, delivered_nil, callAt, Int.toNat_of_nonpos hret, Nat.add_zero]
  have hstands : Stands count.toNat src p n [callAt fd count p ret]
      (.returned (src.take (p + delivered [callAt fd count p ret]))) :=
    .returned (by rw [hnone]; exact Nat.le_of_lt hp) fun _ => ⟨_, List.mem_singleton_self _, hret⟩
  rw [readFrom_stop hp hret]
  rwa [hnone] at hstands

/-- By induction on the answers, one turn for each. -/
theorem readFrom_stands (rets : List Int) : ∀ p ≤ count.toNat,
    (∀ c ∈ (readFrom fd count src p rets).1, c.ret ≤ c.count.toNat) →
    Stands count.toNat src p rets.length (readFrom fd count src p rets).1
      (readFrom fd count src p rets).2 := by
  induction rets with
  | nil =>
    intro p hp hserved
    rcases Nat.eq_or_lt_of_le hp with rfl | hlt
    · exact stands_full [] _
    · rw [readFrom, readLoop_nil ((pos_lt_iff hp).mpr hlt)]
      exact .waiting hlt (Nat.zero_le _)
  | cons ret rets ih =>
    intro p hp hserved
    rcases Nat.eq_or_lt_of_le hp with rfl | hlt
    · exact stands_full (ret :: rets) _
    rcases Int.lt_or_le 0 ret with hret | hret
    · have hmost : ret ≤ (count - BitVec.ofNat 64 p).toNat := hserved _ (callAt_mem hlt ret rets)
      rw [asked_toNat hp] at hmost
      have hfits : p + ret.toNat ≤ count.toNat := by omega
      rw [readFrom_deliver hlt hret hfits] at hserved ⊢
      refine Stands.deliver (ih _ hfits fun c hc => ?_) hret
      exact hserved c (List.mem_cons_of_mem _ hc)
    · exact stands_stop hlt hret rets _

/-- No call is made once the string is full. -/
theorem pos_lt_of_mem {pos : BitVec 64} {str : Bytes} {src : Stream' UInt8} {rets : List Int} :
    ∀ c ∈ (readLoop fd count pos str src rets).1, c.pos < count := by
  induction rets generalizing pos str src with
  | nil =>
    unfold readLoop
    split <;> simp
  | cons ret rets ih =>
    unfold readLoop
    split
    · rename_i hpos
      dsimp only
      split
      · simpa using hpos
      · split
        · simpa using hpos
        · exact List.forall_mem_cons.mpr ⟨hpos, ih⟩
    · simp

/-! ## One helper -/

theorem readAvailable_eq {ioctl : Fionread} (hret : ioctl.ret ≠ -1)
    (hne : ioctl.bytesAvailable ≠ 0) (rets : List Int) :
    readAvailable max_size fd ioctl src rets =
      readBytes max_size fd (ioctl.bytesAvailable.signExtend 64) src rets := by
  unfold readAvailable
  rw [if_neg hret, if_neg hne]

theorem readAvailable_nothing {ioctl : Fionread} (hret : ioctl.ret ≠ -1)
    (hzero : ioctl.bytesAvailable = 0) (rets : List Int) :
    readAvailable max_size fd ioctl src rets = ([], .returned []) := by
  unfold readAvailable
  rw [if_neg hret, if_pos hzero]

/-- The number of bytes, as a `size_t`. -/
theorem toNat_bytesAvailable {n : BitVec 32} (hn : n.toNat < 2 ^ 31) :
    (n.signExtend 64).toNat = n.toNat := by
  have hmsb : n.msb = false := by
    rw [BitVec.msb_eq_false_iff_two_mul_lt]
    omega
  rw [BitVec.signExtend_eq_setWidth_of_msb_false hmsb, BitVec.toNat_setWidth]
  omega

/-- The calls are those of the loop, if there are any. -/
theorem Answered.run_eq (h : Answered max_size fd src taken seen helper rets) :
    helper.run max_size fd (src.drop taken) rets =
        readBytes max_size fd helper.count (src.drop taken) rets ∨
      helper.count.toNat = 0 ∧
        helper.run max_size fd (src.drop taken) rets = ([], .returned []) := by
  cases helper with
  | readBytes count => exact .inl rfl
  | readAvailable ioctl =>
    obtain ⟨hret, -, hint⟩ := h.fionread ioctl rfl
    by_cases hzero : ioctl.bytesAvailable = 0
    · refine .inr ⟨?_, readAvailable_nothing hret hzero rets⟩
      rw [Helper.count, toNat_bytesAvailable hint, hzero]
      rfl
    · exact .inl (readAvailable_eq hret hzero rets)

/-- Where the string can be so long, the helper is in its loop or behind it. -/
theorem helper_stands (h : Answered max_size fd src taken seen helper rets)
    (hmax : helper.count ≤ max_size) :
    Stands helper.count.toNat (src.drop taken) 0 rets.length
      (helper.run max_size fd (src.drop taken) rets).1
      (helper.run max_size fd (src.drop taken) rets).2 := by
  have hcalls := h.calls
  rcases h.run_eq with heq | ⟨hzero, heq⟩
  · rw [heq, readBytes_eq hmax] at hcalls ⊢
    exact readFrom_stands rets 0 (Nat.zero_le _) fun c hc => (hcalls c hc).most
  · rw [heq]
    exact .returned (Nat.zero_le _) fun hlt => by simp [hzero] at hlt

theorem count_le_of_returned (h : Answered max_size fd src taken seen helper rets)
    (hrun : helper.run max_size fd (src.drop taken) rets = (calls, .returned str)) :
    helper.count ≤ max_size := by
  rcases h.run_eq with heq | ⟨hzero, -⟩
  · rw [BitVec.le_def, ← Nat.not_lt, ← BitVec.lt_def]
    intro hlong
    rw [heq, readBytes_long hlong] at hrun
    cases hrun
  · rw [BitVec.le_def, hzero]
    exact Nat.zero_le _

/-- What a helper has to return: what it was asked for or less, or all that is in the pipe. -/
def Gets : Helper → Nat → Prop
  | .readBytes count, n => n ≤ count.toNat
  | .readAvailable ioctl, n => n = ioctl.bytesAvailable.toNat

/-- The bytes that `readAvailable` is still to read are in the pipe. -/
theorem Answered.there {ioctl : Fionread}
    (h : Answered max_size fd src taken seen (.readAvailable ioctl) rets) :
    taken + (Helper.readAvailable ioctl).count.toNat = seen := by
  obtain ⟨-, hseen, hint⟩ := h.fionread ioctl rfl
  rwa [Helper.count, toNat_bytesAvailable hint]

/-- No call of `readAvailable` finds the pipe empty. -/
theorem Answered.positive {ioctl : Fionread}
    (h : Answered max_size fd src taken seen (.readAvailable ioctl) rets) :
    ∀ c ∈ ((Helper.readAvailable ioctl).run max_size fd (src.drop taken) rets).1, 0 < c.ret := by
  intro c hc
  refine (h.calls c hc).some ?_
  have hpos : c.pos < (Helper.readAvailable ioctl).count := by
    rcases h.run_eq with heq | ⟨-, heq⟩
    · rw [heq, readBytes] at hc
      split at hc
      · cases hc
      · exact pos_lt_of_mem c hc
    · rw [heq] at hc
      cases hc
  have hthere := h.there
  rw [BitVec.lt_def] at hpos
  omega

/-- **A helper returns what its calls took out of the pipe.** -/
theorem helper_gets (h : Answered max_size fd src taken seen helper rets)
    (hrun : helper.run max_size fd (src.drop taken) rets = (calls, .returned str)) :
    str = (src.drop taken).take (delivered calls) ∧ Gets helper (delivered calls) := by
  have hstands := helper_stands h (count_le_of_returned h hrun)
  rw [hrun] at hstands
  dsimp only at hstands
  obtain ⟨hstr, hle, hend⟩ := hstands.of_returned
  rw [Nat.zero_add] at hstr hle hend
  refine ⟨hstr, ?_⟩
  cases helper with
  | readBytes count => exact hle
  | readAvailable ioctl =>
    have hall : ¬delivered calls < (Helper.readAvailable ioctl).count.toNat := by
      intro hlt
      obtain ⟨c, hc, hstop⟩ := hend hlt
      have hpositive := h.positive
      rw [hrun] at hpositive
      exact absurd hstop (Int.not_le.mpr (hpositive c hc))
    have hint := toNat_bytesAvailable (h.fionread ioctl rfl).2.2
    rw [Helper.count] at hle hall
    rw [Gets]
    omega

/-- What has become of a helper with the answers up to now. It waits for fewer calls than it wants
bytes, and `readAvailable` only for one that finds some. -/
inductive Progress (taken seen : Nat) (helper : Helper) (answers : Nat) :
    List Call × Status → Prop where
  | returned (calls : List Call) (str : Bytes) :
    Progress taken seen helper answers (calls, .returned str)
  | waiting (calls : List Call) (hfew : answers < helper.count.toNat)
    (hthere : ∀ ioctl, helper = .readAvailable ioctl → taken + delivered calls < seen) :
    Progress taken seen helper answers (calls, .waiting)

theorem helper_progress (h : Answered max_size fd src taken seen helper rets)
    (hmax : helper.count ≤ max_size) :
    Progress taken seen helper rets.length (helper.run max_size fd (src.drop taken) rets) := by
  have hstands := helper_stands h hmax
  generalize helper.run max_size fd (src.drop taken) rets = r at hstands
  obtain ⟨calls, status⟩ := r
  dsimp only at hstands
  cases hstands with
  | waiting hlt hn =>
    refine .waiting calls (by omega) ?_
    rintro ioctl rfl
    have hthere := h.there
    omega
  | returned => exact .returned ..

/-! ## A test -/

/-- **A test reads what was written**, in order, nothing twice and nothing left out, whatever the
writers do meanwhile and in whichever pieces it comes. What its calls have taken out of the pipe
it has been given, and `readAvailable` has given it all that was in the pipe. Behind that another
helper returns when its calls are answered, and `readAvailable` never waits for a writer. -/
theorem session_in_order {helpers : List Helper} {strs : List Bytes}
    (h : Session max_size fd src taken helpers strs taken') :
    taken' = taken + strs.flatten.length ∧
      strs.flatten = (src.drop taken).take strs.flatten.length ∧
      List.Forall₂ (fun helper str => Gets helper str.length) helpers strs ∧
      ∀ seen helper rets, Answered max_size fd src taken' seen helper rets →
        helper.count ≤ max_size →
        Progress taken' seen helper rets.length
          (helper.run max_size fd (src.drop taken') rets) := by
  refine ⟨?_, ?_, ?_, fun _ _ _ => helper_progress⟩
  · induction h with
    | done taken => rfl
    | call h hrun hrest ih =>
      rw [ih, (helper_gets h hrun).1, List.flatten_cons, List.length_append, Stream'.length_take,
        Nat.add_assoc]
  · induction h with
    | done taken => rfl
    | call h hrun hrest ih =>
      -- what this call returned is behind what was taken, and the rest goes on from there
      rw [(helper_gets h hrun).1, List.flatten_cons, List.length_append, Stream'.length_take,
        take_add, Stream'.drop_drop]
      exact congrArg (_ ++ ·) ih
  · induction h with
    | done taken => exact .nil
    | call h hrun hrest ih =>
      obtain ⟨hstr, hgets⟩ := helper_gets h hrun
      refine .cons ?_ ih
      rwa [hstr, Stream'.length_take]

theorem answered_twoBytes : Answered maxSize 3 letters 0 2 (.readAvailable ⟨0, 2⟩) [2] where
  calls c hc := by
    obtain rfl : c = { fd := 3, pos := 0, count := 2, ret := 2 } := by
      revert c
      decide
    exact ⟨by decide, by decide⟩
  fionread ioctl h := by
    cases h
    exact ⟨by decide, rfl, by decide⟩

/-- Two bytes that come at once, and there the session ends. -/
theorem session_in_order_two : ∃ strs, Session maxSize 3 letters 0 [.readAvailable ⟨0, 2⟩] strs 2 ∧
    strs.flatten = letters.take strs.flatten.length := by
  have hsession : Session maxSize 3 letters 0 [.readAvailable ⟨0, 2⟩] [[65, 66]] 2 :=
    .call answered_twoBytes rfl (.done 2)
  exact ⟨_, hsession, (session_in_order hsession).2.1⟩

end OsProg.TestHelpers
