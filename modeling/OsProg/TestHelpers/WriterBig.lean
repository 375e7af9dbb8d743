import OsProg.Infra.Repeated
import OsProg.TestHelpers.Pipe

/-!
# A test that fills a `Writer`

`WriterBig` of `l07/TestWriter.cpp`. `Writer` is the class under test, so all that is known of it
is what `add` answers and what is read from the pipe in the end. The test hands over the same 32
characters again and again, and in the end expects them one after the other.

* `accepted` — what a `Writer` has taken
* `writerBig_passed_iff` — a `Writer` that writes just this passes only if it has never taken a
  part of the characters, except for the last time
-/

namespace OsProg.TestHelpers

open Infra

/-! ## `l07/TestWriter.cpp` -/

/-- `bigStr`, after `std::iota`. -/
def bigStr : Bytes := (List.range 32).map fun i => UInt8.ofNat (0x41 + i)

theorem bigStr_length : bigStr.length = 32 := rfl

/-- A `while` that adds, with the answers of `w.add`. It gives `written`, and the answers that are
left for the calls behind it. -/
def addLoop (written : BitVec 64) : List (BitVec 64) → Option (BitVec 64 × List (BitVec 64))
  | [] => none
  | added :: adds => if added ≠ 0 then addLoop (written + added) adds else some (written, adds)

/-- What fails first. -/
inductive Failure where
  | size
  | part (checked : Nat)
  deriving DecidableEq, Repr

inductive Verdict where
  /-- Until the watchdog ends the program. -/
  | waiting
  | threw (e : Exception)
  | fault
  | failed (f : Failure)
  | passed
  deriving DecidableEq, Repr

/-- The `for` over the parts. A string is shorter than `2 ^ 63`, so that `checked` does not
wrap. -/
def checkParts (str : Bytes) (written checked : Nat) : Verdict :=
  if checked < written then
    let part := (str.drop checked).take bigStr.length
    if part = bigStr.take part.length then checkParts str written (checked + bigStr.length)
    else .failed (.part checked)
  else .passed
termination_by written - checked
decreasing_by
  rw [bigStr_length]
  omega

/-- `written`, behind both loops. -/
def written (adds : List (BitVec 64)) : Option (BitVec 64) := do
  let (written, adds) ← addLoop 0 adds
  let (written, _) ← addLoop written adds
  return written

/-- The scenario, where `readAvailable` comes behind `readBytes` on the same pipe. -/
def writerBig (max_size : BitVec 64) (source : Int) (adds : List (BitVec 64))
    (src : Stream' UInt8) (rets : List Int) (ioctl : Fionread) (rets' : List Int) : Verdict :=
  match written adds with
  | none => .waiting
  | some written =>
    let (calls, status) := readBytes max_size source written src rets
    match status with
    | .waiting => .waiting
    | .threw e => .threw e
    | .fault => .fault
    | .returned str =>
      match (readAvailable max_size source ioctl (src.drop (delivered calls)) rets').2 with
      | .waiting => .waiting
      | .threw e => .threw e
      | .fault => .fault
      | .returned _ =>
        if str.length ≠ written.toNat then .failed .size
        else checkParts str written.toNat 0

/-! ## The loops -/

/-- What a `Writer` has taken when it answered `adds`, each time the front of `bigStr`. -/
def accepted (adds : List (BitVec 64)) : Bytes :=
  ((adds.map BitVec.toNat).map fun n => bigStr.take n).flatten

theorem accepted_append (adds adds' : List (BitVec 64)) :
    accepted (adds ++ adds') = accepted adds ++ accepted adds' := by
  simp [accepted]

/-- Answers of `add` in one of the loops, behind which it goes on. -/
structure Takes (adds : List (BitVec 64)) : Prop where
  some : ∀ a ∈ adds, 0 < a
  most : ∀ a ∈ adds, a ≤ 32

theorem addLoop_eq {adds : List (BitVec 64)} (h : Takes adds) (written : BitVec 64)
    (rest : List (BitVec 64)) :
    addLoop written (adds ++ 0 :: rest) =
      some (written + BitVec.ofNat 64 (accepted adds).length, rest) := by
  obtain ⟨hsome, hmost⟩ := h
  induction adds generalizing written with
  | nil => simp [addLoop, accepted]
  | cons a adds ih =>
    obtain ⟨ha, hadds⟩ := List.forall_mem_cons.mp hsome
    obtain ⟨ha', hadds'⟩ := List.forall_mem_cons.mp hmost
    have hne : a ≠ 0 := by
      rintro rfl
      exact absurd ha (by simp)
    have hlen : (bigStr.take a.toNat).length = a.toNat :=
      List.length_take_of_le (BitVec.le_def.mp ha')
    have hcons : (accepted (a :: adds)).length = a.toNat + (accepted adds).length := by
      rw [accepted, List.map_cons, List.map_cons, List.flatten_cons, List.length_append, hlen]
      rfl
    rw [List.cons_append, addLoop, if_pos hne, ih _ hadds hadds', hcons, BitVec.ofNat_add,
      BitVec.ofNat_toNat, BitVec.setWidth_eq, BitVec.add_assoc]

/-- The parts are those of `bigStr`, again and again. -/
theorem checkParts_passed_iff (str : Bytes) (checked : Nat) :
    checkParts str str.length checked = .passed ↔ Repeats bigStr (str.drop checked) := by
  unfold checkParts
  by_cases hlt : checked < str.length
  · rw [if_pos hlt, repeats_iff, List.prefix_iff_eq_take, List.drop_drop]
    dsimp only
    split
    · rename_i hpart
      rw [checkParts_passed_iff str, and_iff_right hpart]
    · rename_i hpart
      exact iff_of_false nofun fun h => hpart h.1
  · rw [if_neg hlt, List.drop_of_length_le (Nat.not_lt.mp hlt)]
    exact iff_of_true rfl (.last List.nil_prefix)
termination_by str.length - checked
decreasing_by
  rw [bigStr_length]
  omega

theorem accepted_repeats_iff {adds : List (BitVec 64)} (h : Takes adds) :
    Repeats bigStr (accepted adds) ↔ ∀ a ∈ adds.dropLast, a = 32 := by
  -- the characters are all different, so that an `A` is always the beginning of a piece
  have htail : bigStr.head (by simp [bigStr]) ∉ bigStr.tail := by decide
  have htakes : ∀ n ∈ adds.map BitVec.toNat, 0 < n ∧ n ≤ bigStr.length := by
    simp only [List.forall_mem_map]
    exact fun a ha => ⟨BitVec.lt_def.mp (h.some a ha), BitVec.le_def.mp (h.most a ha)⟩
  rw [← List.cons_head_tail (l := bigStr) (by simp [bigStr])] at htakes
  have hiff := takes_repeats_iff htail htakes
  rw [List.cons_head_tail] at hiff
  rw [accepted, hiff, ← List.map_dropLast]
  simp only [List.forall_mem_map]
  refine forall₂_congr fun a _ => ?_
  rw [bigStr_length]
  exact ⟨fun h => BitVec.eq_of_toNat_eq h, fun h => by rw [h]; rfl⟩

/-! ## The test -/

/-- What a `Writer` is for: what it has taken is written to the pipe, in order. -/
def Writes (src : Stream' UInt8) (adds : List (BitVec 64)) : Prop :=
  src.take (accepted adds).length = accepted adds

variable {source : Int} {max_size : BitVec 64} {src : Stream' UInt8}
  {first second : List (BitVec 64)} {rets rets' : Stream' Int} {ioctl : Fionread} {seen : Nat}

theorem Takes.of_append (h : Takes (first ++ second)) : Takes first ∧ Takes second :=
  ⟨⟨fun a ha => h.some a (List.mem_append_left _ ha),
      fun a ha => h.most a (List.mem_append_left _ ha)⟩,
    ⟨fun a ha => h.some a (List.mem_append_right _ ha),
      fun a ha => h.most a (List.mem_append_right _ ha)⟩⟩

theorem written_eq (h : Takes (first ++ second)) (rest : List (BitVec 64)) :
    written (first ++ 0 :: (second ++ 0 :: rest)) =
      some (BitVec.ofNat 64 (accepted (first ++ second)).length) := by
  obtain ⟨hfirst, hsecond⟩ := h.of_append
  unfold written
  simp only [addLoop_eq hfirst, addLoop_eq hsecond, Option.bind_eq_bind, Option.bind_some,
    Option.pure_def]
  rw [accepted_append, List.length_append, BitVec.ofNat_add]
  simp

/-- The test, when both helpers have returned. -/
theorem writerBig_eq {adds : List (BitVec 64)} {count : BitVec 64} {rs rs' : List Int}
    {calls calls' : List Call} {str unexpected : Bytes} (hadds : written adds = some count)
    (hread : readBytes max_size source count src rs = (calls, .returned str))
    (hunexpected : readAvailable max_size source ioctl (src.drop (delivered calls)) rs' =
      (calls', .returned unexpected)) :
    writerBig max_size source adds src rs ioctl rs' =
      if str.length ≠ count.toNat then .failed .size else checkParts str count.toNat 0 := by
  unfold writerBig
  rw [hadds]
  dsimp only
  rw [hread]
  dsimp only
  rw [hunexpected]

/-- The test, when there is no string for what was added. -/
theorem writerBig_long {adds : List (BitVec 64)} {count : BitVec 64} (rs rs' : List Int)
    (hadds : written adds = some count) (hlong : max_size < count) :
    writerBig max_size source adds src rs ioctl rs' = .threw .length_error := by
  unfold writerBig
  rw [hadds]
  dsimp only
  rw [readBytes_long hlong]

/-- What `readBytes` gets, which is what its calls took from the pipe. -/
theorem readBytes_returns {count : BitVec 64} (hmax : count ≤ max_size)
    (h : Served max_size source count src rets) :
    ∃ n calls, delivered calls = upTo count.toNat (available rets) ∧
      ∀ k, readBytes max_size source count src (rets.take (n + k)) =
        (calls, .returned (src.take (upTo count.toNat (available rets)))) := by
  obtain ⟨n, -, calls, hrun, -⟩ := @readFrom_returns source count src count.toNat 0 rets
    (Nat.zero_add _) (h.servedFrom hmax)
  have hstands := @readFrom_stands source count src (rets.take n) 0 (Nat.zero_le _)
    (h.servedFrom hmax n)
  rw [hrun] at hstands
  have hlength := congrArg List.length hstands.of_returned.1
  rw [Stream'.length_take, Stream'.length_take, Nat.zero_add, Nat.zero_add] at hlength
  rw [Nat.zero_add, ← readBytes_eq hmax] at hrun
  refine ⟨n, calls, hlength.symm, fun k => ?_⟩
  rw [readBytes_take (by rw [hrun]; exact nofun), hrun]

/-- What `readAvailable` gets, once there are answers enough. -/
theorem readAvailable_returns {taken : Nat} (hmax : 2 ^ 31 ≤ max_size.toNat)
    (h : ∀ n, Answered max_size source src taken seen (.readAvailable ioctl) (rets.take n)) :
    ∃ n, ∀ k, ∃ calls str, readAvailable max_size source ioctl (src.drop taken)
        (rets.take (n + k)) = (calls, .returned str) := by
  refine ⟨(Helper.readAvailable ioctl).count.toNat, fun k => ?_⟩
  have hint := (h 0).fionread ioctl rfl
  have hprogress := helper_progress (h ((Helper.readAvailable ioctl).count.toNat + k)) (by
    rw [BitVec.le_def, Helper.count, toNat_bytesAvailable hint.2.2]
    omega)
  rw [Stream'.length_take, Helper.run] at hprogress
  generalize readAvailable max_size source ioctl (src.drop taken)
    (rets.take ((Helper.readAvailable ioctl).count.toNat + k)) = r at hprogress ⊢
  cases hprogress with
  | returned calls str => exact ⟨calls, str, rfl⟩
  | waiting calls hfew => omega

/-- **What `WriterBig` asks of a `Writer`.** One that writes what it has taken passes when all of
it fits a string and can be read, and when it has taken all of the 32 characters each time but the
last. Where `add` has taken a part of them, because there was no more room, and takes something
again later, the test fails. -/
theorem writerBig_passed_iff (htakes : Takes (first ++ second))
    (hwrites : Writes src (first ++ second))
    (hfits : (accepted (first ++ second)).length < 2 ^ 64) (hmax : 2 ^ 31 ≤ max_size.toNat)
    (hserved : Served max_size source (BitVec.ofNat 64 (accepted (first ++ second)).length) src
      rets)
    (hanswered : ∀ n, Answered max_size source src
      (upTo (accepted (first ++ second)).length (available rets)) seen (.readAvailable ioctl)
      (rets'.take n)) :
    ∃ n n', ∀ k k' rest, writerBig max_size source (first ++ 0 :: (second ++ 0 :: rest)) src
        (rets.take (n + k)) ioctl (rets'.take (n' + k')) = .passed ↔
      (accepted (first ++ second)).length ≤ max_size.toNat ∧
        upTo (accepted (first ++ second)).length (available rets) =
          (accepted (first ++ second)).length ∧
        ∀ a ∈ (first ++ second).dropLast, a = 32 := by
  have hadds := written_eq htakes
  rw [← accepted_repeats_iff htakes]
  unfold Writes at hwrites
  generalize accepted (first ++ second) = taken at *
  have hcount : (BitVec.ofNat 64 taken.length).toNat = taken.length := by
    rw [BitVec.toNat_ofNat, Nat.mod_eq_of_lt hfits]
  obtain ⟨n', hunexpected⟩ := readAvailable_returns hmax hanswered
  rcases Nat.lt_or_ge max_size.toNat taken.length with hlong | hshort
  · refine ⟨0, n', fun k k' rest => ?_⟩
    rw [writerBig_long _ _ (hadds rest) (by rwa [BitVec.lt_def, hcount])]
    exact iff_of_false nofun fun h => Nat.not_le.mpr hlong h.1
  · obtain ⟨n, calls, hdelivered, hread⟩ :=
      readBytes_returns (by rwa [BitVec.le_def, hcount]) hserved
    rw [hcount] at hdelivered hread
    refine ⟨n, n', fun k k' rest => ?_⟩
    obtain ⟨calls', unexpected, hunexpected⟩ := hunexpected k'
    rw [writerBig_eq (hadds rest) (hread k) (by rw [hdelivered]; exact hunexpected), hcount,
      Stream'.length_take, and_iff_right hshort]
    by_cases hall : upTo taken.length (available rets) = taken.length
    · rw [hall, hwrites, if_neg (not_not.mpr rfl), checkParts_passed_iff, List.drop_zero]
      exact (and_iff_right rfl).symm
    · rw [if_pos hall]
      exact iff_of_false nofun fun h => hall h.1

/-- `bigStr` again and again. -/
def bigStrs : Stream' UInt8 := fun n => UInt8.ofNat (0x41 + n % 32)

/-- All of it comes at once. -/
def atOnce : Stream' Int := .cons 37 (.const 0)

theorem served_atOnce : Served maxSize 3 37 bigStrs atOnce :=
  @served_of_returned 3 maxSize 37 bigStrs atOnce 1 (bigStrs.take 37) (by decide) (by decide)

theorem available_atOnce : available atOnce = some 37 := by
  rw [atOnce, available_deliver (by decide), Stream'.const_eq, available_stop (Int.le_refl 0)]
  rfl

theorem answered_empty (taken : Nat) (rets : List Int) :
    Answered maxSize 3 bigStrs taken taken (.readAvailable ⟨0, 0⟩) rets where
  calls c hc := by cases hc
  fionread ioctl h := by
    cases h
    exact ⟨by simp, by simp, by simp⟩

theorem takes_fiveMore : Takes ([32] ++ [5]) := ⟨by simp, by simp⟩

theorem writes_fiveMore : Writes bigStrs ([32] ++ [5]) := rfl

theorem writerBig_passed_iff_fiveMore : ∃ n n', ∀ k k' rest,
    writerBig maxSize 3 ([32] ++ 0 :: ([5] ++ 0 :: rest)) bigStrs (atOnce.take (n + k)) ⟨0, 0⟩
      (atOnce.take (n' + k')) = .passed := by
  obtain ⟨n, n', h⟩ := writerBig_passed_iff takes_fiveMore writes_fiveMore (by decide) (by decide)
    served_atOnce fun n => answered_empty _ (atOnce.take n)
  refine ⟨n, n', fun k k' rest => (h k k' rest).mpr ⟨by decide, ?_, by simp⟩⟩
  rw [available_atOnce]
  rfl

end OsProg.TestHelpers
