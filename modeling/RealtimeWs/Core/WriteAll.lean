import RealtimeWs.Core.WsFrames
import RealtimeWs.Lib.Machine

/-! The write loop call by call: what is on the wire whenever a low-level write has returned,
on a plain socket and through TLS. -/
namespace RealtimeWs.Core

/-- Largest size of an object in memory. -/
def PTRDIFF_MAX : ℕ := 2 ^ 63 - 1

structure Buffer where
  bytes : List UInt8
  fits : bytes.length ≤ PTRDIFF_MAX

inductive Errno
  | EINTR
  | other
  deriving DecidableEq

inductive SslError
  | WANT_READ
  | WANT_WRITE
  | other
  deriving DecidableEq

/-- What `send` or `SSL_write` returns, and what `errno` or `SSL_get_error` say afterwards. -/
structure LowResult where
  n : ℤ
  errno : Errno
  sslError : SslError
  deriving DecidableEq

/-- The parts of the client that choose the branch; `openssl` is `RTW_HAS_OPENSSL`. -/
structure Transport where
  openssl : Bool
  useTls : Bool
  ssl : Bool

def Transport.tls (t : Transport) : Bool := t.openssl && (t.useTls && t.ssl)

/-- The count the loop asks for at `off`: `(int)(len - off)` through TLS. -/
def Transport.request (t : Transport) (buf : Buffer) (off : ℕ) : ℤ :=
  let left : ℤ := buf.bytes.length - off
  if t.tls then left.bmod (2 ^ 32) else left

/-- What the body of the loop does with a result. -/
inductive WriteAction
  | again
  | fail
  | advance
  deriving DecidableEq

def Transport.action (t : Transport) (r : LowResult) : WriteAction :=
  if t.tls then
    if r.n ≤ 0 then
      if r.sslError = .WANT_READ ∨ r.sslError = .WANT_WRITE then .again else .fail
    else .advance
  else if r.n < 0 then
    if r.errno = .EINTR then .again else .fail
  else if r.n = 0 then .fail
  else .advance

/-- In front of a low-level write at `off`, or returned. -/
structure WritePoint where
  off : ℕ
  ret : Option ℤ

/-- `while (off < len)`, and the return of `(ssize_t)off` behind it. -/
def Buffer.loopTest (buf : Buffer) (off : ℕ) : WritePoint :=
  ⟨off, if off < buf.bytes.length then none else some ((off : ℤ).bmod (2 ^ 64))⟩

/-- `io_write_all` taking one result after the other; the outputs are the bytes on the wire. -/
def writeCalls (t : Transport) (buf : Buffer) : Machine WritePoint LowResult UInt8 where
  step p r :=
    match p.ret with
    | some _ => p
    | none =>
      match t.action r with
      | .again => buf.loopTest p.off
      | .fail => ⟨p.off, some (-1)⟩
      | .advance => buf.loopTest (p.off + r.n.toNat)
  out p r :=
    match p.ret with
    | some _ => []
    | none =>
      match t.action r with
      | .advance => (buf.bytes.drop p.off).take r.n.toNat
      | _ => []

/-- A low-level write takes no more than it is asked to. -/
def Permitted (t : Transport) (buf : Buffer) (p : WritePoint) (r : LowResult) : Prop :=
  p.ret = none → r.n ≤ t.request buf p.off

instance (t : Transport) (buf : Buffer) (p : WritePoint) (r : LowResult) :
    Decidable (Permitted t buf p r) := inferInstanceAs (Decidable (_ → _))

/-! ### Results -/

/-- Not a count, and nothing to wait for either; on a plain socket that includes 0. -/
def LowResult.Fatal (t : Transport) (r : LowResult) : Prop :=
  r.n ≤ 0 ∧ ¬ if t.tls then r.sslError = .WANT_READ ∨ r.sslError = .WANT_WRITE
    else r.n < 0 ∧ r.errno = .EINTR

variable {t : Transport} {buf : Buffer}

theorem action_fail_iff {r : LowResult} : t.action r = .fail ↔ r.Fatal t := by
  unfold Transport.action LowResult.Fatal
  cases t.tls with
  | true =>
    simp only [if_true]
    split_ifs with hn hwant
    · simp [hwant]
    · simp [hn, hwant]
    · simp [hn]
  | false =>
    simp only [Bool.false_eq_true, if_false]
    split_ifs with hneg hintr hzero
    · simp [hneg, hintr]
    · simp [Int.le_of_lt hneg, hintr]
    · simp [hzero]
    · have hpos : ¬ r.n ≤ 0 := by omega
      simp [hpos]

theorem action_advance_iff {r : LowResult} : t.action r = .advance ↔ 0 < r.n := by
  unfold Transport.action
  cases t.tls with
  | true =>
    simp only [if_true]
    split_ifs with hn hwant
    · simp [hn]
    · simp [hn]
    · simpa using hn
  | false =>
    simp only [Bool.false_eq_true, if_false]
    split_ifs with hneg hintr hzero
    · simp [Int.le_of_lt hneg]
    · simp [Int.le_of_lt hneg]
    · simp [hzero]
    · have hpos : 0 < r.n := by omega
      simp [hpos]

/-- Bytes taken by a list of results. -/
def taken (results : List LowResult) : ℕ := (results.map fun r => r.n.toNat).sum

/-- A fatal result comes before `room` bytes are taken. -/
def FatalBefore (t : Transport) (room : ℕ) (results : List LowResult) : Prop :=
  ∃ before r after, results = before ++ r :: after ∧ r.Fatal t ∧
    (∀ b ∈ before, ¬ b.Fatal t) ∧ taken before < room

theorem not_fatalBefore_zero (results : List LowResult) : ¬ FatalBefore t 0 results := by
  rintro ⟨before, r, after, -, -, -, hroom⟩
  exact absurd hroom (Nat.not_lt_zero _)

theorem not_fatalBefore_nil (room : ℕ) : ¬ FatalBefore t room [] := by
  rintro ⟨before, r, after, hsplit, -⟩
  exact absurd hsplit (by simp)

theorem fatalBefore_of_fatal {room : ℕ} {r : LowResult} (hr : r.Fatal t) (hroom : 0 < room)
    (results : List LowResult) : FatalBefore t room (r :: results) :=
  ⟨[], r, results, rfl, hr, nofun, hroom⟩

theorem fatalBefore_cons {room : ℕ} {r : LowResult} (hr : ¬ r.Fatal t)
    {results : List LowResult} :
    FatalBefore t room (r :: results) ↔ FatalBefore t (room - r.n.toNat) results := by
  constructor
  · rintro ⟨before, f, after, hsplit, hfatal, hnone, hroom⟩
    rcases before with _ | ⟨b, before⟩
    · have hhead : r = f := (List.cons.inj hsplit).1
      exact absurd (hhead ▸ hfatal) hr
    · obtain ⟨rfl, hrest⟩ := List.cons.inj hsplit
      have htaken : taken (r :: before) = r.n.toNat + taken before := by
        unfold taken
        rw [List.map_cons, List.sum_cons]
      refine ⟨before, f, after, hrest, hfatal, fun b hb => hnone b (List.mem_cons_of_mem r hb), ?_⟩
      omega
  · rintro ⟨before, f, after, rfl, hfatal, hnone, hroom⟩
    have htaken : taken (r :: before) = r.n.toNat + taken before := by
      unfold taken
      rw [List.map_cons, List.sum_cons]
    refine ⟨r :: before, f, after, rfl, hfatal, ?_, by omega⟩
    intro b hb
    rcases List.mem_cons.mp hb with rfl | hb
    · exact hr
    · exact hnone b hb

/-! ### One result -/

/-- A request never exceeds what is left. -/
theorem request_le {off : ℕ} (h : off ≤ buf.bytes.length) :
    t.request buf off ≤ (buf.bytes.length : ℤ) - off := by
  unfold Transport.request
  cases t.tls with
  | false => exact Int.le_refl _
  | true =>
    simp only [if_true]
    rw [Int.bmod_def]
    push_cast
    split_ifs <;> omega

/-- Where the loop stands and what is on the wire. -/
structure Placed (buf : Buffer) (p : WritePoint) (wire : List UInt8) : Prop where
  wire_eq : wire = buf.bytes.take p.off
  off_le : p.off ≤ buf.bytes.length
  calling : p.ret = none → p.off < buf.bytes.length
  returned : ∀ v, p.ret = some v → (v = -1 ∧ p.off < buf.bytes.length) ∨
    (v = buf.bytes.length ∧ p.off = buf.bytes.length)

theorem placed_loopTest {off : ℕ} (h : off ≤ buf.bytes.length) :
    Placed buf (buf.loopTest off) (buf.bytes.take off) := by
  unfold Buffer.loopTest
  by_cases hlt : off < buf.bytes.length
  · rw [if_pos hlt]
    exact ⟨rfl, h, fun _ => hlt, nofun⟩
  · have hall : off = buf.bytes.length := Nat.le_antisymm h (Nat.le_of_not_lt hlt)
    have hfits := buf.fits
    rw [if_neg hlt]
    refine ⟨rfl, h, nofun, ?_⟩
    intro v hv
    right
    refine ⟨?_, hall⟩
    have hv : (off : ℤ).bmod (2 ^ 64) = v := Option.some.inj hv
    rw [← hv, Int.bmod_def, ← hall]
    unfold PTRDIFF_MAX at hfits
    push_cast
    split_ifs <;> omega

theorem Placed.advance_le {p : WritePoint} {wire : List UInt8} (h : Placed buf p wire)
    (hcall : p.ret = none) {r : LowResult} (hr : Permitted t buf p r) :
    p.off + r.n.toNat ≤ buf.bytes.length := by
  have hasked := hr hcall
  have hleft := request_le (t := t) h.off_le
  have hoff := h.off_le
  omega

theorem Placed.step {p : WritePoint} {wire : List UInt8} (h : Placed buf p wire) {r : LowResult}
    (hr : Permitted t buf p r) :
    Placed buf ((writeCalls t buf).step p r) (wire ++ (writeCalls t buf).out p r) := by
  cases hret : p.ret with
  | some v =>
    simp only [writeCalls, hret, List.append_nil]
    exact h
  | none =>
    cases haction : t.action r with
    | again =>
      simp only [writeCalls, hret, haction, List.append_nil, h.wire_eq]
      exact placed_loopTest h.off_le
    | fail =>
      simp only [writeCalls, hret, haction, List.append_nil]
      refine ⟨h.wire_eq, h.off_le, nofun, ?_⟩
      rintro v ⟨⟩
      exact Or.inl ⟨rfl, h.calling hret⟩
    | advance =>
      have hle := h.advance_le hret hr
      simp only [writeCalls, hret, haction, h.wire_eq]
      rw [← List.take_add]
      exact placed_loopTest hle

/-! ### Whole runs -/

/-- `io_write_all` on a buffer: where it stands after the results, and what it has written. -/
theorem placed_run {results : List LowResult}
    (h : (writeCalls t buf).Along (Permitted t buf) (buf.loopTest 0) results) :
    Placed buf ((writeCalls t buf).run (buf.loopTest 0) results)
      ((writeCalls t buf).outputs (buf.loopTest 0) results) := by
  have hstart := placed_loopTest (Nat.zero_le buf.bytes.length)
  rw [List.take_zero] at hstart
  have hrun := (writeCalls t buf).history_invariant (J := Placed buf)
    (fun _ _ _ hr hp => hp.step hr) hstart h
  rwa [List.nil_append] at hrun

@[simp] theorem loopTest_ret_none {off : ℕ} : (buf.loopTest off).ret = none ↔
    off < buf.bytes.length := by
  unfold Buffer.loopTest
  split_ifs with h <;> simp [h]

theorem step_again {off : ℕ} (hlt : off < buf.bytes.length) {r : LowResult}
    (h : t.action r = .again) : (writeCalls t buf).step (buf.loopTest off) r = buf.loopTest off ∧
      (writeCalls t buf).out (buf.loopTest off) r = [] := by
  simp only [writeCalls, loopTest_ret_none.mpr hlt, h]
  exact ⟨rfl, trivial⟩

theorem step_fail {off : ℕ} (hlt : off < buf.bytes.length) {r : LowResult}
    (h : t.action r = .fail) : (writeCalls t buf).step (buf.loopTest off) r = ⟨off, some (-1)⟩ ∧
      (writeCalls t buf).out (buf.loopTest off) r = [] := by
  simp only [writeCalls, loopTest_ret_none.mpr hlt, h]
  exact ⟨rfl, trivial⟩

theorem step_advance {off : ℕ} (hlt : off < buf.bytes.length) {r : LowResult}
    (h : t.action r = .advance) :
    (writeCalls t buf).step (buf.loopTest off) r = buf.loopTest (off + r.n.toNat) ∧
      (writeCalls t buf).out (buf.loopTest off) r = (buf.bytes.drop off).take r.n.toNat := by
  simp only [writeCalls, loopTest_ret_none.mpr hlt, h]
  exact ⟨rfl, rfl⟩

theorem run_returned {p : WritePoint} {v : ℤ} (h : p.ret = some v) (results : List LowResult) :
    (writeCalls t buf).run p results = p := by
  induction results with
  | nil => rfl
  | cons r results ih =>
    have hstep : (writeCalls t buf).step p r = p := by simp only [writeCalls, h]
    rw [Machine.run_cons, hstep, ih]

theorem loopTest_ret_ne {off : ℕ} (h : off ≤ buf.bytes.length) :
    (buf.loopTest off).ret ≠ some (-1) := by
  intro hret
  rcases (placed_loopTest h).returned _ hret with ⟨-, hlt⟩ | ⟨hneg, -⟩
  · have hlt : off < buf.bytes.length := hlt
    rw [loopTest_ret_none.mpr hlt] at hret
    cases hret
  · omega

/-- From `off` on, -1 is returned if and only if a fatal result comes in time. -/
theorem run_fails_iff {results : List LowResult} {off : ℕ} (hoff : off ≤ buf.bytes.length)
    (h : (writeCalls t buf).Along (Permitted t buf) (buf.loopTest off) results) :
    ((writeCalls t buf).run (buf.loopTest off) results).ret = some (-1) ↔
      FatalBefore t (buf.bytes.length - off) results := by
  induction results generalizing off with
  | nil => simp only [Machine.run_nil, loopTest_ret_ne hoff, not_fatalBefore_nil]
  | cons r results ih =>
    obtain ⟨hr, hrest⟩ := h
    by_cases hlt : off < buf.bytes.length
    · have hret : (buf.loopTest off).ret = none := loopTest_ret_none.mpr hlt
      rw [Machine.run_cons]
      cases haction : t.action r with
      | again =>
        have hstep := (step_again hlt haction).1
        have hnot : ¬ r.Fatal t := by
          rw [← action_fail_iff, haction]
          nofun
        have hzero : r.n.toNat = 0 := by
          have hneg : ¬ 0 < r.n := by
            rw [← action_advance_iff (t := t), haction]
            nofun
          omega
        rw [hstep] at hrest ⊢
        rw [fatalBefore_cons hnot, hzero, Nat.sub_zero]
        exact ih hoff hrest
      | fail =>
        have hstep := (step_fail hlt haction).1
        have hfatal := fatalBefore_of_fatal (action_fail_iff.mp haction)
          (Nat.sub_pos_of_lt hlt) results
        rw [hstep, run_returned rfl]
        exact iff_of_true rfl hfatal
      | advance =>
        have hle := (placed_loopTest hoff).advance_le hret hr
        have hstep := (step_advance hlt haction).1
        have hnot : ¬ r.Fatal t := by
          rw [← action_fail_iff, haction]
          nofun
        rw [hstep] at hrest ⊢
        rw [fatalBefore_cons hnot, Nat.sub_sub]
        exact ih hle hrest
    · have hall : buf.bytes.length - off = 0 := by omega
      have hsome : ∃ v, (buf.loopTest off).ret = some v := by
        rw [← Option.ne_none_iff_exists', ne_eq, loopTest_ret_none]
        exact hlt
      obtain ⟨v, hv⟩ := hsome
      rw [run_returned hv, hall]
      exact iff_of_false (loopTest_ret_ne hoff) (not_fatalBefore_zero _)

/-- The value of `io_write_all` after the results, none if it has not returned yet. -/
def returnValue (t : Transport) (buf : Buffer) (results : List LowResult) : Option ℤ :=
  ((writeCalls t buf).run (buf.loopTest 0) results).ret

def onWire (t : Transport) (buf : Buffer) (results : List LowResult) : List UInt8 :=
  (writeCalls t buf).outputs (buf.loopTest 0) results

/-- At every moment a prefix is on the wire; the length is returned when it is the whole buffer,
and -1 when a result that cannot be retried comes first. -/
theorem partial_writes_completed {results : List LowResult}
    (h : (writeCalls t buf).Along (Permitted t buf) (buf.loopTest 0) results) :
    (∀ k, onWire t buf (results.take k) <+: buf.bytes) ∧
      (returnValue t buf results = some (buf.bytes.length : ℤ) ↔
        onWire t buf results = buf.bytes) ∧
      (returnValue t buf results = some (-1) ↔ FatalBefore t buf.bytes.length results) ∧
      ∀ v, returnValue t buf results = some v → v = buf.bytes.length ∨ v = -1 := by
  have hplaced := placed_run h
  refine ⟨?_, ?_, ?_, ?_⟩
  · intro k
    rw [← List.take_append_drop k results, Machine.along_append] at h
    rw [onWire, (placed_run h.1).wire_eq]
    exact List.take_prefix _ _
  · unfold returnValue onWire
    rw [hplaced.wire_eq]
    constructor
    · intro hret
      rcases hplaced.returned _ hret with ⟨hneg, -⟩ | ⟨-, hoff⟩
      · omega
      · rw [hoff, List.take_length]
    · intro hwire
      have hlen := congrArg List.length hwire
      have hle := hplaced.off_le
      rw [List.length_take] at hlen
      cases hret : ((writeCalls t buf).run (buf.loopTest 0) results).ret with
      | none =>
        have hlt := hplaced.calling hret
        omega
      | some v =>
        rcases hplaced.returned v hret with ⟨-, hlt⟩ | ⟨hv, -⟩
        · omega
        · rw [hv]
  · exact run_fails_iff (Nat.zero_le _) h
  · intro v hv
    rcases hplaced.returned v hv with ⟨hneg, -⟩ | ⟨hlen, -⟩
    · exact Or.inr hneg
    · exact Or.inl hlen

/-- Twelve bytes on a plain socket: five, an interruption, and the other seven. -/
def slowSocket : List LowResult := [⟨5, .other, .other⟩, ⟨-1, .EINTR, .other⟩, ⟨7, .other, .other⟩]

def twelve : Buffer := ⟨List.replicate 12 0x2A, by decide⟩

theorem partial_writes_completed_slow :
    (writeCalls ⟨true, false, false⟩ twelve).Along (Permitted ⟨true, false, false⟩ twelve)
        (twelve.loopTest 0) slowSocket ∧
      returnValue ⟨true, false, false⟩ twelve slowSocket = some 12 := by
  have hok : (writeCalls ⟨true, false, false⟩ twelve).Along
      (Permitted ⟨true, false, false⟩ twelve) (twelve.loopTest 0) slowSocket := by decide
  have hwire : onWire ⟨true, false, false⟩ twelve slowSocket = twelve.bytes := by decide
  exact ⟨hok, (partial_writes_completed hok).2.1.mpr hwire⟩

/-! ### The results as the senders see them -/

/-- A result without the transport it came from. -/
def Transport.view (t : Transport) (r : LowResult) : SendResult :=
  match t.action r with
  | .again => .again
  | .fail => .error
  | .advance => .sent r.n.toNat

/-- What the senders look at: 0 for the length of the buffer. -/
def outcomeOf (ret : ℤ) : ℤ := if ret < 0 then -1 else 0

theorem outputs_returned {p : WritePoint} {v : ℤ} (h : p.ret = some v)
    (results : List LowResult) : (writeCalls t buf).outputs p results = [] := by
  induction results with
  | nil => rfl
  | cons r results ih =>
    have hstep : (writeCalls t buf).step p r = p := by simp only [writeCalls, h]
    have hout : (writeCalls t buf).out p r = [] := by simp only [writeCalls, h]
    rw [Machine.outputs_cons, hstep, hout, ih, List.nil_append]

theorem loopTest_ret_length :
    (buf.loopTest buf.bytes.length).ret = some (buf.bytes.length : ℤ) := by
  cases hret : (buf.loopTest buf.bytes.length).ret with
  | none => exact absurd (loopTest_ret_none.mp hret) (Nat.lt_irrefl _)
  | some v =>
    rcases (placed_loopTest le_rfl).returned v hret with ⟨-, hlt⟩ | ⟨hv, -⟩
    · exact absurd hlt (Nat.lt_irrefl _)
    · rw [hv]

theorem drop_ne_nil {off : ℕ} (hlt : off < buf.bytes.length) : buf.bytes.drop off ≠ [] := by
  intro hnil
  have hlen := congrArg List.length hnil
  rw [List.length_drop, List.length_nil] at hlen
  omega

/-- The frames of the senders are written by this loop. -/
theorem ioWriteAll_view {results : List LowResult} {off : ℕ} (hoff : off ≤ buf.bytes.length)
    (h : (writeCalls t buf).Along (Permitted t buf) (buf.loopTest off) results) :
    ioWriteAll (results.map t.view) (buf.bytes.drop off) =
      (((writeCalls t buf).run (buf.loopTest off) results).ret.map outcomeOf,
        (writeCalls t buf).outputs (buf.loopTest off) results) := by
  induction results generalizing off with
  | nil =>
    by_cases hlt : off < buf.bytes.length
    · obtain ⟨b, bs, hdrop⟩ := List.exists_cons_of_ne_nil (drop_ne_nil hlt)
      rw [hdrop, Machine.run_nil, loopTest_ret_none.mpr hlt]
      rfl
    · obtain rfl : off = buf.bytes.length := by omega
      rw [List.drop_length, Machine.run_nil, loopTest_ret_length, Option.map_some, outcomeOf,
        if_neg (by omega)]
      rfl
  | cons r results ih =>
    obtain ⟨hr, hrest⟩ := h
    by_cases hlt : off < buf.bytes.length
    · have hret : (buf.loopTest off).ret = none := loopTest_ret_none.mpr hlt
      obtain ⟨b, bs, hdrop⟩ := List.exists_cons_of_ne_nil (drop_ne_nil hlt)
      rw [List.map_cons, Machine.run_cons, Machine.outputs_cons, Transport.view]
      cases haction : t.action r with
      | again =>
        obtain ⟨hstep, hout⟩ := step_again hlt haction
        rw [hstep] at hrest
        rw [hstep, hout, List.nil_append, ← ih hoff hrest, hdrop]
        rfl
      | fail =>
        obtain ⟨hstep, hout⟩ := step_fail hlt haction
        rw [hstep, hout, run_returned rfl, outputs_returned rfl, hdrop]
        rfl
      | advance =>
        have hle : off + r.n.toNat ≤ buf.bytes.length :=
          (placed_loopTest hoff).advance_le hret hr
        obtain ⟨hstep, hout⟩ := step_advance hlt haction
        have hpos : r.n.toNat ≠ 0 := by
          have hn := action_advance_iff.mp haction
          omega
        have hsent : ∀ later, ioWriteAll (.sent r.n.toNat :: later) (buf.bytes.drop off) =
            ((ioWriteAll later (buf.bytes.drop (off + r.n.toNat))).1,
              (buf.bytes.drop off).take r.n.toNat ++
                (ioWriteAll later (buf.bytes.drop (off + r.n.toNat))).2) := by
          intro later
          rw [← List.drop_drop, hdrop, ioWriteAll, if_neg hpos]
        rw [hstep] at hrest
        rw [hstep, hout, hsent, ih hle hrest]
    · obtain rfl : off = buf.bytes.length := by omega
      rw [List.drop_length, run_returned loopTest_ret_length, outputs_returned loopTest_ret_length,
        loopTest_ret_length, Option.map_some, outcomeOf, if_neg (by omega), List.map_cons]
      rfl

end RealtimeWs.Core
