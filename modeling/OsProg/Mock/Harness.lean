import OsProg.Infra.Interaction
import OsProg.Mock.Transient

/-!
# The tests of `copyFds`

`l02/testCopy.c`. `copyFds` is the function under test, so here it is any program that calls
`read` and `write` and returns, with buffers of its own and with any numbers. A test fills the
buffers, lets it copy between the scripted descriptors, and compares what it returned and what is
in `wBuffer`.

* `write_cases` — what a call of `write` can do
* `Writing` — what the scripted `write` has stored for a program, whatever that program is
* `test_ok_iff` — what it means that a test passes
* `main_ok_iff` — what the three tests demand
-/

namespace OsProg.Mock

open Infra

/-! ## The program under test -/

/-- A call, with the memory of the program from `buf` on. -/
inductive Request where
  | read (fd : Int) (buf : Bytes) (count : BitVec 64)
  | write (fd : Int) (buf : Bytes) (count : BitVec 64)

/-- What `copyFds` returns, and `errno` after it. -/
structure Return where
  ret : Int
  errno : Int
  deriving DecidableEq, Repr

/-- A call gets its reply, and what is at `buf` afterwards. -/
abbrev CopyFds := Program Request (Reply × Bytes) Return

def serve (real_read : Int → Bytes → Nat → Reply × Bytes)
    (real_write : Int → Bytes → Nat → Reply) :
    Request → ExpectedReads × ExpectedWrites →
      Except Fault ((Reply × Bytes) × (ExpectedReads × ExpectedWrites))
  | .read fd buf count, (er, ew) =>
    (read real_read fd buf count.toNat er).map fun (o, er) => (o, (er, ew))
  | .write fd buf count, (er, ew) =>
    (write real_write fd buf count.toNat ew).map fun (reply, ew) => ((reply, buf), (er, ew))

/-! ## `l02/testCopy.c` -/

def RDFD : Int := 10
def WRFD : Int := 11

/-- `sizeof(rBuffer)` and `sizeof(wBuffer)`. -/
def bufferSize : Nat := 100 * 1024

/-- The first `n` bytes of `rBuffer`. -/
def pattern (n : Nat) : Bytes := (List.range n).map fun i => UInt8.ofNat (0x61 + i % 26)

/-- `fill`, for an `n` of at most the size: `rBuffer` and `wBuffer`. -/
def fill (n : Nat) : Bytes × Bytes :=
  (pattern n ++ List.replicate (bufferSize - n) 0x5F, List.replicate bufferSize 0x23)

def erSet (rBuffer : Bytes) (erSizes : List Int) : ExpectedReads :=
  { fd := RDFD, region := rBuffer, data := 0, sizes := erSizes, cur := 0 }

def ewSet (wBuffer : Bytes) (ewSizes : List Int) : ExpectedWrites :=
  { fd := WRFD, region := wBuffer, data := 0, sizes := ewSizes, cur := 0 }

/-- The comparisons, each of which aborts when it fails. -/
inductive Check where
  | ret
  | errno
  | str
  deriving DecidableEq, Repr

inductive Verdict where
  | ok
  | aborted (check : Check)
  | fault (f : Fault)
  deriving DecidableEq, Repr

section Tests

variable (real_read : Int → Bytes → Nat → Reply × Bytes) (real_write : Int → Bytes → Nat → Reply)
  (copyFds : Int → Int → CopyFds)

/-- Both kinds of test, up to the comparisons. -/
def copied (n : Nat) (rs ws : List Int) :
    Except Fault (Finished Request (Reply × Bytes) Return (ExpectedReads × ExpectedWrites)) :=
  let (rBuffer, wBuffer) := fill n
  (copyFds RDFD WRFD).run (serve real_read real_write) (erSet rBuffer rs, ewSet wBuffer ws)

/-- `COMPARE_STR`. -/
def compareStr (rBuffer wBuffer : Bytes) (n : Nat) : Verdict :=
  if strncmp rBuffer wBuffer n = some 0 then .ok else .aborted .str

def TEST_OK (n : Nat) (rs ws : List Int) (expRet : Int) : Verdict :=
  match copied real_read real_write copyFds n rs ws with
  | .error f => .fault f
  | .ok r =>
    if r.value.ret ≠ expRet then .aborted .ret
    else compareStr r.state.1.region r.state.2.region n

def TEST_ERROR (n : Nat) (rs ws : List Int) (expErrno : Int) : Verdict :=
  match copied real_read real_write copyFds n rs ws with
  | .error f => .fault f
  | .ok r =>
    if r.value.ret ≠ -1 then .aborted .ret
    else if r.value.errno ≠ expErrno then .aborted .errno
    else compareStr r.state.1.region r.state.2.region n

end Tests

/-! ## What a call can do -/

theorem bind_ok {α β : Type} {x : Except Fault α} {f : α → Except Fault β} {b : β}
    (h : (x >>= f) = .ok b) : ∃ a, x = .ok a ∧ f a = .ok b := by
  cases x with
  | error e => cases h
  | ok a => exact ⟨a, rfl, h⟩

theorem map_ok {α β : Type} {x : Except Fault α} {f : α → β} {b : β} (h : x.map f = .ok b) :
    ∃ a, x = .ok a ∧ f a = b := by
  cases x with
  | error e => cases h
  | ok a => exact ⟨a, rfl, Except.ok.inj h⟩

theorem orFault_ok {α : Type} {f : Fault} {x : Option α} {a : α} (h : orFault f x = .ok a) :
    x = some a := by
  cases x with
  | none => cases h
  | some a' => exact congrArg some (Except.ok.inj h)

/-- `memmove` copies when there is so much on both sides. -/
theorem memmove_some {dst src rest : Bytes} {n : Nat} (h : memmove dst src n = some rest) :
    n ≤ dst.length ∧ n ≤ src.length ∧ rest = src.take n ++ dst.drop n := by
  unfold memmove at h
  split at h
  · rename_i hn
    exact ⟨hn.1, hn.2, (Option.some.inj h).symm⟩
  · cases h

section Calls

variable {fd : Int} {buf : Bytes} {count : Nat}

/-- `read` leaves its data alone. -/
theorem read_keeps {real_read : Int → Bytes → Nat → Reply × Bytes} {e e' : ExpectedReads}
    {o : Reply × Bytes} (h : read real_read fd buf count e = .ok (o, e')) :
    e'.region = e.region := by
  unfold read at h
  generalize ssize count = n at h
  split at h
  · cases h
    rfl
  · obtain ⟨size, -, h⟩ := bind_ok h
    split at h
    · cases h
      rfl
    · split at h
      · cases h
        rfl
      · obtain ⟨buf', -, h⟩ := bind_ok h
        cases h
        rfl

/-- The script behind a `write` that has stored `n` bytes. -/
def ExpectedWrites.store (e : ExpectedWrites) (buf : Bytes) (size : Int) (n : Nat) :
    ExpectedWrites :=
  { e with
    region := e.region.take e.data ++ (buf.take n ++ e.region.drop (e.data + n))
    data := e.data + n
    sizes := e.sizes.set e.cur (size - n)
    cur := if size - n = 0 then e.cur + 1 else e.cur }

theorem le_ssize (count : Nat) : -2 ^ 63 ≤ ssize count := by
  have hle := @Int.le_bmod count (2 ^ 64) (by decide)
  unfold ssize
  omega

/-- No more is written than the entry and the region allow. -/
theorem writeReply_bounds {size left : Int} {reply : Reply} (hsize : 0 < size) (hleft : 0 ≤ left)
    (h : writeReply count size left = reply) :
    reply.ret ≤ size ∧ reply.ret ≤ left ∧ -2 ^ 63 ≤ reply.ret := by
  have hcount := le_ssize count
  unfold writeReply at h
  dsimp only at h
  generalize ssize count = n at h hcount
  by_cases hn : size < n
  · rw [if_pos hn] at h
    split at h
    · split at h <;> subst h <;> dsimp only <;> omega
    · subst h
      dsimp only
      omega
  · rw [if_neg hn] at h
    split at h
    · split at h <;> subst h <;> dsimp only <;> omega
    · subst h
      dsimp only
      omega

/-- **What a call of `write` can do.** Where it does not fail, it stores as many bytes as it
returns, or leaves the script as it is. -/
theorem write_cases {real_write : Int → Bytes → Nat → Reply} {e e' : ExpectedWrites}
    {reply : Reply} (hregion : e.region.length < 2 ^ 63) (hdata : e.data ≤ e.region.length)
    (h : write real_write fd buf count e = .ok (reply, e')) :
    (fd = e.fd → reply.ret ≤ 0) ∧ e' = e ∨
      fd = e.fd ∧ ∃ (size : Int) (n : Nat), e.sizes[e.cur]? = some size ∧ 0 < n ∧ (n : Int) ≤ size ∧
        n ≤ buf.length ∧ e.data + n ≤ e.region.length ∧ reply.ret = n ∧
        e' = e.store buf size n := by
  unfold write at h
  split at h
  · rename_i hfd
    cases h
    exact .inl ⟨fun heq => absurd heq hfd, rfl⟩
  · rename_i hfd
    obtain ⟨size, hsize, h⟩ := bind_ok h
    split at h
    · cases h
      exact .inl ⟨fun _ => Int.le_refl 0, rfl⟩
    · split at h
      · cases h
        exact .inl ⟨fun _ => Int.negSucc_le_zero 0, rfl⟩
      · have hleft : (0 : Int) ≤ e.region.length - e.data := by omega
        dsimp only at h
        generalize hr : writeReply count size (e.region.length - e.data) = r at h
        obtain ⟨hentry, hroom, hlow⟩ := writeReply_bounds (by omega) hleft hr
        split at h
        · rename_i hne
          obtain ⟨rest, hrest, h⟩ := bind_ok h
          obtain ⟨hdst, hsrc, hrest⟩ := memmove_some (orFault_ok hrest)
          rw [List.length_drop] at hdst
          cases h
          -- a negative number of bytes is more than there are in any region
          have hpos : 0 < reply.ret := by
            unfold usize at hdst
            omega
          obtain ⟨n, hn⟩ := Int.eq_ofNat_of_zero_le (Int.le_of_lt hpos)
          rw [hn] at hpos hentry hroom hdst hsrc hrest ⊢
          rw [usize_eq (by omega)] at hdst hsrc hrest
          refine .inr ⟨not_not.mp hfd, size, n, orFault_ok hsize, by omega, hentry, hsrc, by omega,
            rfl, ?_⟩
          rw [hrest, List.drop_drop]
          rfl
        · rename_i hzero
          cases h
          exact .inl ⟨fun _ => Int.le_of_eq (not_not.mp hzero), rfl⟩

end Calls

/-! ## What was transferred -/

/-- The bytes that a call on `WRFD` acknowledged. -/
def acknowledgedBy : Request × (Reply × Bytes) → Bytes
  | (.write fd buf _, o) => if fd = WRFD then buf.take o.1.ret.toNat else []
  | _ => []

def acknowledged (trace : List (Request × (Reply × Bytes))) : Bytes :=
  trace.flatMap acknowledgedBy

/-- What the entries allow, up to the first that is not positive. -/
def allowed (sizes : List Int) : Int := (sizes.takeWhile (0 < ·)).sum

theorem allowed_nonneg (sizes : List Int) : 0 ≤ allowed sizes :=
  Positive.sum_nonneg fun p hp => by
    simpa using @List.mem_takeWhile_imp _ (fun p : Int => decide (0 < p)) _ p hp

theorem allowed_cons {size : Int} (h : 0 < size) (sizes : List Int) :
    allowed (size :: sizes) = size + allowed sizes := by
  rw [allowed, List.takeWhile_cons_of_pos (by simpa using h), List.sum_cons]
  rfl

/-- What a call stores is allowed no more. -/
theorem allowed_store {e : ExpectedWrites} {size : Int} {n : Nat}
    (hsize : e.sizes[e.cur]? = some size) (hn : 0 < n) (hle : (n : Int) ≤ size) (buf : Bytes) :
    allowed ((e.store buf size n).sizes.drop (e.store buf size n).cur) + n =
      allowed (e.sizes.drop e.cur) := by
  obtain ⟨hcur, hsize⟩ := List.getElem?_eq_some_iff.mp hsize
  have hset : (e.sizes.set e.cur (size - n)).drop e.cur =
      (size - n) :: e.sizes.drop (e.cur + 1) := by
    rw [List.drop_set, if_neg (Nat.lt_irrefl _), Nat.sub_self, List.drop_eq_getElem_cons hcur,
      List.set_cons_zero]
  rw [List.drop_eq_getElem_cons hcur, hsize, allowed_cons (by omega)]
  unfold ExpectedWrites.store
  dsimp only
  by_cases hall : size - n = 0
  · rw [if_pos hall, ← List.drop_drop, hset, List.drop_succ_cons, List.drop_zero]
    omega
  · rw [if_neg hall, hset, allowed_cons (by omega)]
    omega

section Served

variable {wBuffer : Bytes} {ws : List Int} {trace : List (Request × (Reply × Bytes))}
  {ew ew' : ExpectedWrites}

theorem acknowledged_concat (trace : List (Request × (Reply × Bytes))) (c : Request)
    (o : Reply × Bytes) :
    acknowledged (trace ++ [(c, o)]) = acknowledged trace ++ acknowledgedBy (c, o) := by
  rw [acknowledged, List.flatMap_append, List.flatMap_singleton]
  rfl

/-- Where a `write` with the script `ws` stands: what was acknowledged is in the buffer. -/
structure Writing (wBuffer : Bytes) (ws : List Int) (trace : List (Request × (Reply × Bytes)))
    (ew : ExpectedWrites) : Prop where
  fd : ew.fd = WRFD
  data : ew.data = (acknowledged trace).length
  room : (acknowledged trace).length ≤ wBuffer.length
  region : ew.region = acknowledged trace ++ wBuffer.drop (acknowledged trace).length
  script : allowed (ew.sizes.drop ew.cur) + (acknowledged trace).length = allowed ws

theorem Writing.length_region (h : Writing wBuffer ws trace ew) :
    ew.region.length = wBuffer.length := by
  have hroom := h.room
  rw [h.region, List.length_append, List.length_drop]
  omega

/-- What was stored is what the script allows. -/
theorem Writing.length_le (h : Writing wBuffer ws trace ew) :
    (acknowledged trace).length ≤ allowed ws := by
  have hscript := h.script
  have hnonneg := allowed_nonneg (ew.sizes.drop ew.cur)
  omega

/-- A call that acknowledges nothing leaves things as they are. -/
theorem Writing.idle (h : Writing wBuffer ws trace ew) {c : Request} {o : Reply × Bytes}
    (hidle : acknowledgedBy (c, o) = []) : Writing wBuffer ws (trace ++ [(c, o)]) ew := by
  have hsame : acknowledged (trace ++ [(c, o)]) = acknowledged trace := by
    rw [acknowledged_concat, hidle, List.append_nil]
  obtain ⟨hfd, hdata, hroom, hregion, hscript⟩ := h
  exact ⟨hfd, hsame ▸ hdata, hsame ▸ hroom, hsame ▸ hregion, hsame ▸ hscript⟩

/-- A call that stores `n` bytes. -/
theorem Writing.store (h : Writing wBuffer ws trace ew) {c : Request} {o : Reply × Bytes}
    {buf : Bytes} {size : Int} {n : Nat} (hsize : ew.sizes[ew.cur]? = some size) (hn : 0 < n)
    (hle : (n : Int) ≤ size) (hbuf : n ≤ buf.length) (hroom : ew.data + n ≤ ew.region.length)
    (hstored : acknowledgedBy (c, o) = buf.take n) :
    Writing wBuffer ws (trace ++ [(c, o)]) (ew.store buf size n) := by
  have hacknowledged := acknowledged_concat trace c o
  rw [hstored] at hacknowledged
  have hlength : (acknowledged (trace ++ [(c, o)])).length = (acknowledged trace).length + n := by
    rw [hacknowledged, List.length_append, List.length_take, Nat.min_eq_left hbuf]
  have hallowed := allowed_store hsize hn hle buf
  have hscript := h.script
  rw [h.length_region, h.data] at hroom
  refine ⟨h.fd, ?_, ?_, ?_, ?_⟩
  · rw [hlength, ExpectedWrites.store, h.data]
  · rw [hlength]
    exact hroom
  · rw [hlength, hacknowledged, ExpectedWrites.store, h.data, h.region, List.take_left' rfl,
      ← List.drop_drop, List.drop_left' rfl, List.drop_drop, List.append_assoc]
  · rw [hlength]
    omega

/-- A call of `write`. -/
theorem Writing.write (h : Writing wBuffer ws trace ew) (hbuffer : wBuffer.length < 2 ^ 63)
    {real_write : Int → Bytes → Nat → Reply} {fd : Int} {buf : Bytes} {count : BitVec 64}
    {reply : Reply} (hwrite : write real_write fd buf count.toNat ew = .ok (reply, ew')) :
    Writing wBuffer ws (trace ++ [(.write fd buf count, (reply, buf))]) ew' := by
  have hdata : ew.data ≤ ew.region.length := by
    rw [h.data, h.length_region]
    exact h.room
  rcases write_cases (by rwa [h.length_region]) hdata hwrite with
    ⟨hret, rfl⟩ | ⟨hfd, size, n, hsize, hn, hle, hbuf, hroom, hret, rfl⟩
  · refine h.idle ?_
    rw [acknowledgedBy]
    split
    · rename_i hfd
      rw [Int.toNat_of_nonpos (hret (hfd.trans h.fd.symm)), List.take_zero]
    · rfl
  · refine h.store hsize hn hle hbuf hroom ?_
    rw [acknowledgedBy, if_pos (hfd.trans h.fd), hret, Int.toNat_natCast]

/-- Where both mocks stand. -/
structure Serves (rBuffer wBuffer : Bytes) (ws : List Int)
    (trace : List (Request × (Reply × Bytes))) (s : ExpectedReads × ExpectedWrites) : Prop where
  reading : s.1.region = rBuffer
  writing : Writing wBuffer ws trace s.2

/-- **What the mocks have done for a program that returns**: what they acknowledged is what they
stored. -/
theorem run_served {rBuffer : Bytes} (hbuffer : wBuffer.length < 2 ^ 63)
    {real_read : Int → Bytes → Nat → Reply × Bytes} {real_write : Int → Bytes → Nat → Reply}
    {p : CopyFds} {s : ExpectedReads × ExpectedWrites}
    {r : Finished Request (Reply × Bytes) Return (ExpectedReads × ExpectedWrites)}
    (hrun : p.run (serve real_read real_write) s = .ok r) (h : Serves rBuffer wBuffer ws [] s) :
    Serves rBuffer wBuffer ws r.trace r.state := by
  refine @Program.run_invariant _ _ _ _ _ _ (Serves rBuffer wBuffer ws) ?_ p [] s r hrun h
  rintro trace ⟨er, ew⟩ c o s' hserve ⟨hreading, hwriting⟩
  cases c with
  | read fd buf count =>
    obtain ⟨⟨o', er'⟩, hread, hs'⟩ := map_ok hserve
    cases hs'
    exact ⟨(read_keeps hread).trans hreading, hwriting.idle rfl⟩
  | write fd buf count =>
    obtain ⟨⟨reply, ew'⟩, hwrite, hs'⟩ := map_ok hserve
    cases hs'
    exact ⟨hreading, hwriting.write hbuffer hwrite⟩

end Served

/-! ## What a test sees -/

section Verdicts

variable {n : Nat}

theorem length_pattern (n : Nat) : (pattern n).length = n := by
  rw [pattern, List.length_map, List.length_range]

theorem mem_pattern {b : UInt8} (h : b ∈ pattern n) : 0x61 ≤ b.toNat := by
  obtain ⟨i, -, rfl⟩ := List.mem_map.mp h
  rw [UInt8.toNat_ofNat']
  omega

theorem not_mem_pattern {b : UInt8} (h : b.toNat < 0x61) : b ∉ pattern n :=
  fun hmem => Nat.not_lt.mpr (mem_pattern hmem) h

/-- The front of `wBuffer` is the pattern only if it has been stored: the padding is no part of
it. -/
theorem take_eq_pattern_iff {stored : Bytes} :
    (stored ++ (List.replicate bufferSize 0x23).drop stored.length).take n = pattern n ↔
      pattern n <+: stored := by
  rcases Nat.le_total n stored.length with hle | hle
  · rw [List.take_append_of_le_length hle, List.prefix_iff_eq_take, length_pattern, eq_comm]
  · constructor
    · intro heq
      rw [List.drop_replicate, List.take_append, List.take_of_length_le hle,
        List.take_replicate] at heq
      have hlt : ¬0 < min (n - stored.length) (bufferSize - stored.length) := by
        -- a `#` would stand in the pattern
        intro hpos
        refine @not_mem_pattern n 0x23 (by decide) ?_
        rw [← heq]
        exact List.mem_append_right _ (List.mem_replicate.mpr ⟨Nat.ne_of_gt hpos, rfl⟩)
      rw [Nat.eq_zero_of_not_pos hlt, List.replicate_zero, List.append_nil] at heq
      exact heq ▸ List.prefix_rfl
    · intro hfront
      have hlen := hfront.length_le
      rw [length_pattern] at hlen
      obtain rfl : n = stored.length := Nat.le_antisymm hlen hle
      rw [List.take_left' rfl]
      exact (hfront.eq_of_length (length_pattern _)).symm

theorem compareStr_ok_iff {rBuffer wBuffer : Bytes} (hn : n ≤ wBuffer.length)
    (hr : rBuffer.take n = pattern n) :
    compareStr rBuffer wBuffer n = .ok ↔ wBuffer.take n = pattern n := by
  have hlen : n ≤ rBuffer.length := by
    have hlength := congrArg List.length hr
    rw [List.length_take, length_pattern] at hlength
    omega
  obtain ⟨d, hd, hiff⟩ := strncmp_eq_zero_iff hlen hn
    (.inl (hr ▸ not_mem_pattern (by decide)))
  unfold compareStr
  rw [hd, ← hr, @eq_comm _ (wBuffer.take n), ← hiff]
  by_cases h : d = 0
  · simp [h]
  · simp [h]

end Verdicts

section Tests

variable (real_read : Int → Bytes → Nat → Reply × Bytes) (real_write : Int → Bytes → Nat → Reply)
  (copyFds : Int → Int → CopyFds) {n : Nat} {rs ws : List Int}
  {r : Finished Request (Reply × Bytes) Return (ExpectedReads × ExpectedWrites)}

/-- What a test finds in the buffers when it comes to its comparisons is what was stored. -/
theorem copied_compares {real_read : Int → Bytes → Nat → Reply × Bytes}
    {real_write : Int → Bytes → Nat → Reply} {copyFds : Int → Int → CopyFds} (hn : n ≤ bufferSize)
    (h : copied real_read real_write copyFds n rs ws = .ok r) :
    (acknowledged r.trace).length ≤ allowed ws ∧
      (compareStr r.state.1.region r.state.2.region n = .ok ↔
        pattern n <+: acknowledged r.trace) := by
  have hfront : (fill n).1.take n = pattern n := by
    rw [fill, List.take_left' (length_pattern n)]
  have hlength : (fill n).2.length = bufferSize := List.length_replicate
  have hwriting : Writing (fill n).2 ws [] (ewSet (fill n).2 ws) :=
    ⟨rfl, rfl, Nat.zero_le _, rfl, Int.add_zero _⟩
  obtain ⟨hreading, hw⟩ := run_served (hlength ▸ by decide) h
    (⟨rfl, hwriting⟩ : Serves (fill n).1 (fill n).2 ws [] (erSet (fill n).1 rs,
      ewSet (fill n).2 ws))
  refine ⟨hw.length_le, ?_⟩
  rw [compareStr_ok_iff (by rwa [hw.length_region, hlength]) (hreading ▸ hfront), hw.region]
  exact take_eq_pattern_iff

/-- A run of `copyFds` that returns, with what it returned and what was acknowledged. -/
def Copies (n : Nat) (rs ws : List Int) (value : Return → Prop) (stored : Bytes → Prop) : Prop :=
  ∃ r, copied real_read real_write copyFds n rs ws = .ok r ∧ value r.value ∧
    stored (acknowledged r.trace)

theorem TEST_OK_iff (expRet : Int) : TEST_OK real_read real_write copyFds n rs ws expRet = .ok ↔
    ∃ r, copied real_read real_write copyFds n rs ws = .ok r ∧ r.value.ret = expRet ∧
      compareStr r.state.1.region r.state.2.region n = .ok := by
  unfold TEST_OK
  cases copied real_read real_write copyFds n rs ws with
  | error f => simp
  | ok r => by_cases hret : r.value.ret = expRet <;> simp [hret]

theorem TEST_ERROR_iff (expErrno : Int) :
    TEST_ERROR real_read real_write copyFds n rs ws expErrno = .ok ↔
      ∃ r, copied real_read real_write copyFds n rs ws = .ok r ∧
        (r.value.ret = -1 ∧ r.value.errno = expErrno) ∧
        compareStr r.state.1.region r.state.2.region n = .ok := by
  unfold TEST_ERROR
  cases copied real_read real_write copyFds n rs ws with
  | error f => simp
  | ok r =>
    by_cases hret : r.value.ret = -1
    · by_cases herrno : r.value.errno = expErrno <;> simp [hret, herrno]
    · simp [hret]

/-- What a test that comes to its comparisons compares, as bytes that were acknowledged. -/
theorem compares_iff (hn : n ≤ bufferSize) (value : Return → Prop) :
    (∃ r, copied real_read real_write copyFds n rs ws = .ok r ∧ value r.value ∧
        compareStr r.state.1.region r.state.2.region n = .ok) ↔
      Copies real_read real_write copyFds n rs ws value (pattern n <+: ·) :=
  exists_congr fun _ => and_congr_right fun h =>
    and_congr_right fun _ => (copied_compares hn h).2

/-- A function that writes one letter and reads nothing. -/
def oneLetter (_infd outfd : Int) : CopyFds :=
  .call (.write outfd [0x61] 1) fun o => .returns { ret := o.1.ret, errno := 0 }

def EPERM : Int := 1
def EACCES : Int := 13

def testSimple : Verdict :=
  TEST_OK real_read real_write copyFds 10 [10, 0] [10, -EACCES, 0] 10

def testErrorRead : Verdict :=
  TEST_ERROR real_read real_write copyFds 4 [1, 1, 1, 1, -EPERM, 0] [4, -EACCES, 0] EPERM

def testWritePartial : Verdict :=
  TEST_OK real_read real_write copyFds 10 [10, 0] [1, 1, 1, 1, 1, 1, 1, 1, 1, 1, -EACCES, 0] 10

/-- `main`, which the first failing test aborts. -/
def main : Verdict :=
  match testSimple real_read real_write copyFds with
  | .ok =>
    match testErrorRead real_read real_write copyFds with
    | .ok => testWritePartial real_read real_write copyFds
    | verdict => verdict
  | verdict => verdict

theorem main_ok : main real_read real_write copyFds = .ok ↔
    testSimple real_read real_write copyFds = .ok ∧
      testErrorRead real_read real_write copyFds = .ok ∧
      testWritePartial real_read real_write copyFds = .ok := by
  unfold main
  generalize testSimple real_read real_write copyFds = v₁
  generalize testErrorRead real_read real_write copyFds = v₂
  cases v₁ <;> cases v₂ <;> simp

/-- Where the script allows no more than the pattern, a prefix is all of it. -/
theorem eq_pattern_iff {stored : Bytes} (h : (stored.length : Int) ≤ n) :
    pattern n <+: stored ↔ stored = pattern n := by
  constructor
  · intro hfront
    refine (hfront.eq_of_length_le ?_).symm
    rw [length_pattern]
    omega
  · rintro rfl
    exact List.prefix_rfl

/-- With a script for `write` that allows `n` bytes, what is compared is all that was
acknowledged. -/
theorem compares_all_iff (hn : n ≤ bufferSize) (hall : allowed ws = n) (value : Return → Prop) :
    (∃ r, copied real_read real_write copyFds n rs ws = .ok r ∧ value r.value ∧
        compareStr r.state.1.region r.state.2.region n = .ok) ↔
      Copies real_read real_write copyFds n rs ws value (· = pattern n) := by
  refine exists_congr fun r => and_congr_right fun h => and_congr_right fun _ => ?_
  obtain ⟨hle, hstr⟩ := copied_compares hn h
  rw [hstr, eq_pattern_iff (hall ▸ hle)]

end Tests

end OsProg.Mock
