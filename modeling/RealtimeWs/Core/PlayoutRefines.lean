import RealtimeWs.Core.Playout
import RealtimeWs.Lib.Markers
import RealtimeWs.Lib.Stream

/-! The playout buffer stands for a list of bytes, and each of its marks for the bytes that
were buffered before the mark was set. -/
namespace RealtimeWs.Core

open Circular

/-- The calls on a playout buffer; `namesOut` says whether there is room for names at all. -/
inductive PlayoutOp
  | write (data : List UInt8)
  | read (maxLen : ℕ)
  | addMark (name : CStr)
  | popCompletedMarks (namesOut : Bool) (maxOut : ℕ)
  | clear (namesOut : Bool) (maxOut : ℕ)

/-- What a caller learns about the bytes. -/
inductive PlayoutReply
  | wrote (rc : ℤ)
  | took (bytes : List UInt8)
  deriving DecidableEq, Repr

/-- The names that can be handed out: none into a null pointer. -/
def roomFor (namesOut : Bool) (maxOut : ℕ) : ℕ := if namesOut then maxOut else 0

def playout : Machine Playout PlayoutOp PlayoutReply where
  step p
    | .write data => (rtwPlayoutWrite p data).2
    | .read maxLen => (rtwPlayoutRead p maxLen).2
    | .addMark name => (rtwPlayoutAddMark p name).2
    | .popCompletedMarks namesOut maxOut =>
      (rtwPlayoutPopCompletedMarks p (roomFor namesOut maxOut)).2
    | .clear namesOut maxOut => (rtwPlayoutClear p (roomFor namesOut maxOut)).2
  out p
    | .write data => [.wrote (rtwPlayoutWrite p data).1]
    | .read maxLen => [.took (rtwPlayoutRead p maxLen).1]
    | _ => []

/-! ### The bytes -/

/-- What a call asks of the byte stream. -/
def request : PlayoutOp → List (Stream.Op UInt8)
  | .write data => [.feed data]
  | .read maxLen => [.take maxLen]
  | .clear _ _ => [.discard]
  | _ => []

/-- A list of at most `cap` bytes, written all or nothing and read from the front. -/
def byteFifo (cap : ℕ) : Machine (List UInt8) PlayoutOp PlayoutReply where
  step b op := (Stream.machine cap).run b (request op)
  out b
    | .write data => [.wrote (if b.length + data.length ≤ cap then 0 else -1)]
    | .read maxLen => [.took (b.take maxLen)]
    | _ => []

/-- The bytes written, read and found by a clear when the list held `b` at first. -/
def bytesWritten (cap : ℕ) (b : List UInt8) (ops : List PlayoutOp) : ℕ :=
  Stream.gained ((Stream.journal cap).outputs b (ops.flatMap request))

def bytesTaken (cap : ℕ) (b : List UInt8) (ops : List PlayoutOp) : ℕ :=
  ((Stream.machine cap).outputs b (ops.flatMap request)).length

def bytesDiscarded (cap : ℕ) (b : List UInt8) (ops : List PlayoutOp) : ℕ :=
  Stream.lost ((Stream.journal cap).outputs b (ops.flatMap request))

/-- The buffer holds the bytes `b` and has room for `cap`. -/
structure Playout.Holds (p : Playout) (cap : ℕ) (b : List UInt8) : Prop where
  capacity : p.capacity = cap
  bytes : p.bytes = b

variable {p : Playout} {cap : ℕ} {b : List UInt8}

theorem Playout.Holds.size (h : p.Holds cap b) : p.size = b.length := by
  rw [← h.bytes, p.length_bytes]

theorem Playout.Holds.write_fst (h : p.Holds cap b) (data : List UInt8) :
    (rtwPlayoutWrite p data).1 = if b.length + data.length ≤ cap then 0 else -1 := by
  rw [Core.write_fst, h.size, h.capacity]

theorem Playout.Holds.write (h : p.Holds cap b) (data : List UInt8) :
    (rtwPlayoutWrite p data).2.Holds cap
      (if b.length + data.length ≤ cap then b ++ data else b) := by
  have hrc := h.write_fst data
  split at hrc
  · rename_i hfits
    rw [if_pos hfits]
    constructor
    · rw [capacity_write, h.capacity]
    · rw [(write_accepted p hrc).1, h.bytes]
  · rename_i hfull
    rw [if_neg hfull, write_rejected p (by rw [hrc]; decide)]
    exact h

/-- Every call does to the bytes what it does to the list, and answers alike. -/
theorem Playout.Holds.step (h : p.Holds cap b) (op : PlayoutOp) :
    (playout.step p op).Holds cap ((byteFifo cap).step b op) ∧
      playout.out p op = (byteFifo cap).out b op := by
  cases op with
  | write data =>
    constructor
    · exact h.write data
    · simp only [playout, byteFifo, h.write_fst]
  | read maxLen =>
    constructor
    · constructor
      · exact (capacity_read p maxLen).trans h.capacity
      · exact (bytes_read p maxLen).trans (congrArg (List.drop maxLen) h.bytes)
    · simp only [playout, byteFifo, read_fst, h.bytes]
  | addMark name =>
    constructor
    · constructor
      · exact (capacity_addMark p name).trans h.capacity
      · exact (bytes_addMark p name).trans h.bytes
    · rfl
  | popCompletedMarks namesOut maxOut => exact ⟨⟨h.capacity, h.bytes⟩, rfl⟩
  | clear namesOut maxOut => exact ⟨⟨h.capacity, rfl⟩, rfl⟩

theorem enqueued_write (p : Playout) (data : List UInt8) :
    (rtwPlayoutWrite p data).2.enqueuedBytes = p.enqueuedBytes +
      UInt64.ofNat (if (rtwPlayoutWrite p data).1 = 0 then data.length else 0) := by
  unfold rtwPlayoutWrite
  split_ifs <;> simp_all

theorem dequeued_write (p : Playout) (data : List UInt8) :
    (rtwPlayoutWrite p data).2.dequeuedBytes = p.dequeuedBytes := by
  unfold rtwPlayoutWrite
  split_ifs <;> rfl

theorem enqueued_read (p : Playout) (maxLen : ℕ) :
    (rtwPlayoutRead p maxLen).2.enqueuedBytes = p.enqueuedBytes := by
  unfold rtwPlayoutRead
  split_ifs <;> rfl

theorem counters_addMark (p : Playout) (name : CStr) :
    (rtwPlayoutAddMark p name).2.enqueuedBytes = p.enqueuedBytes ∧
      (rtwPlayoutAddMark p name).2.dequeuedBytes = p.dequeuedBytes := by
  unfold rtwPlayoutAddMark
  split_ifs <;> exact ⟨rfl, rfl⟩

theorem dequeued_read (p : Playout) (maxLen : ℕ) :
    (rtwPlayoutRead p maxLen).2.dequeuedBytes =
      p.dequeuedBytes + UInt64.ofNat (rtwPlayoutRead p maxLen).1.length := by
  rw [length_read]
  unfold rtwPlayoutRead
  split_ifs with hzero
  · simp [hzero]
  · rw [← p.readAmount_eq]
    rfl

/-- The counters move with the bytes. -/
theorem Playout.Holds.counters_step (h : p.Holds cap b) (op : PlayoutOp) :
    (playout.step p op).enqueuedBytes = p.enqueuedBytes + UInt64.ofNat (bytesWritten cap b [op]) ∧
      (playout.step p op).dequeuedBytes = p.dequeuedBytes + UInt64.ofNat (bytesTaken cap b [op]) := by
  cases op with
  | write data =>
    have hwritten : bytesWritten cap b [.write data] =
        if b.length + data.length ≤ cap then data.length else 0 := by
      by_cases hfits : b.length + data.length ≤ cap
      · simp [bytesWritten, request, Stream.journal, Stream.gained, Stream.Entry.gained, hfits]
      · simp [bytesWritten, request, Stream.journal, Stream.gained, hfits]
    constructor
    · have hrc : (rtwPlayoutWrite p data).1 = 0 ↔ b.length + data.length ≤ cap := by
        rw [h.write_fst]
        split_ifs with hfits
        · exact iff_of_true rfl hfits
        · exact iff_of_false (by decide) hfits
      rw [hwritten, ← if_congr hrc rfl rfl]
      exact enqueued_write p data
    · exact (dequeued_write p data).trans (UInt64.add_zero _).symm
  | read maxLen =>
    have htaken : bytesTaken cap b [.read maxLen] = (rtwPlayoutRead p maxLen).1.length := by
      rw [read_fst, h.bytes]
      simp [bytesTaken, request, Stream.machine]
    constructor
    · exact (enqueued_read p maxLen).trans (UInt64.add_zero _).symm
    · rw [htaken]
      exact dequeued_read p maxLen
  | addMark name =>
    have hsame := counters_addMark p name
    exact ⟨hsame.1.trans (UInt64.add_zero _).symm, hsame.2.trans (UInt64.add_zero _).symm⟩
  | popCompletedMarks namesOut maxOut | clear namesOut maxOut =>
    exact ⟨(UInt64.add_zero _).symm, (UInt64.add_zero _).symm⟩

theorem bytesWritten_cons (cap : ℕ) (b : List UInt8) (op : PlayoutOp) (ops : List PlayoutOp) :
    bytesWritten cap b (op :: ops) =
      bytesWritten cap b [op] + bytesWritten cap ((byteFifo cap).step b op) ops := by
  have hstep : (Stream.journal cap).run b (request op) = (byteFifo cap).step b op := rfl
  simp only [bytesWritten, List.flatMap_cons, List.flatMap_nil, List.append_nil,
    Machine.outputs_append, hstep, Stream.gained, List.map_append, List.sum_append]

theorem bytesTaken_cons (cap : ℕ) (b : List UInt8) (op : PlayoutOp) (ops : List PlayoutOp) :
    bytesTaken cap b (op :: ops) =
      bytesTaken cap b [op] + bytesTaken cap ((byteFifo cap).step b op) ops := by
  simp only [bytesTaken, List.flatMap_cons, List.flatMap_nil, List.append_nil,
    Machine.outputs_append, List.length_append]
  rfl

theorem run_byteFifo (cap : ℕ) (b : List UInt8) (ops : List PlayoutOp) :
    (byteFifo cap).run b ops = (Stream.machine cap).run b (ops.flatMap request) := by
  induction ops generalizing b with
  | nil => rfl
  | cons op ops ih =>
    rw [Machine.run_cons, ih, List.flatMap_cons, Machine.run_append]
    rfl

theorem Playout.Holds.run (h : p.Holds cap b) (ops : List PlayoutOp) :
    (playout.run p ops).Holds cap ((byteFifo cap).run b ops) ∧
      playout.outputs p ops = (byteFifo cap).outputs b ops ∧
      (playout.run p ops).enqueuedBytes = p.enqueuedBytes + UInt64.ofNat (bytesWritten cap b ops) ∧
      (playout.run p ops).dequeuedBytes = p.dequeuedBytes + UInt64.ofNat (bytesTaken cap b ops) := by
  induction ops generalizing p b with
  | nil => exact ⟨h, rfl, (UInt64.add_zero _).symm, (UInt64.add_zero _).symm⟩
  | cons op ops ih =>
    obtain ⟨hnext, hout⟩ := h.step op
    obtain ⟨henq, hdeq⟩ := h.counters_step op
    obtain ⟨hrun, houts, henqs, hdeqs⟩ := ih hnext
    refine ⟨hrun, ?_, ?_, ?_⟩
    · rw [Machine.outputs_cons, Machine.outputs_cons, hout, houts]
    · rw [Machine.run_cons, henqs, henq, bytesWritten_cons cap b op ops, UInt64.ofNat_add,
        UInt64.add_assoc]
    · rw [Machine.run_cons, hdeqs, hdeq, bytesTaken_cons cap b op ops, UInt64.ofNat_add,
        UInt64.add_assoc]

/-- What was written was read, was cleared or is still there. -/
theorem bytesWritten_eq (cap : ℕ) (ops : List PlayoutOp) :
    bytesWritten cap [] ops =
      bytesTaken cap [] ops + bytesDiscarded cap [] ops + ((byteFifo cap).run [] ops).length := by
  have hbalance := Stream.balance cap (ops.flatMap request) ([] : List UInt8)
  rw [List.length_nil, Nat.zero_add] at hbalance
  rw [run_byteFifo]
  exact hbalance

/-- The buffer `p` stands for the bytes `b`: its live window holds them, the tail is behind
them, a write that does not fit is refused and changes nothing, and the counters account for
the bytes lost to clears, `lost` of them. -/
structure RepresentsBytes (cap : ℕ) (p : Playout) (b : List UInt8) (lost : ℕ) : Prop where
  ring : window p.buf cap p.head p.size = b
  size : p.size = b.length
  bounded : p.size ≤ cap
  tail : p.tail = (p.head + p.size) % cap
  refused : ∀ data, cap < p.size + data.length → rtwPlayoutWrite p data = (-1, p)
  balance : p.enqueuedBytes - p.dequeuedBytes - UInt64.ofNat p.size = UInt64.ofNat lost

theorem Playout.Holds.represents (h : p.Holds cap b) {lost : ℕ}
    (hbalance : p.enqueuedBytes - p.dequeuedBytes - UInt64.ofNat p.size = UInt64.ofNat lost) :
    RepresentsBytes cap p b lost := by
  obtain ⟨rfl, rfl⟩ := h
  refine ⟨rfl, p.length_bytes.symm, p.size_le, p.tail_eq, ?_, hbalance⟩
  intro data hfull
  have hrc : (rtwPlayoutWrite p data).1 = -1 := by
    rw [Core.write_fst, if_neg (Nat.not_le.mpr hfull)]
  have hne : (rtwPlayoutWrite p data).1 ≠ 0 := by
    rw [hrc]
    decide
  exact Prod.ext hrc (write_rejected p hne)

/-- After every sequence of calls the buffer stands for the list that the same calls make of
the empty list, and it has answered as the list does. -/
theorem playout_refines {ok : Bool} {p₀ : Playout} (h : rtwPlayoutInit ok cap = some p₀)
    (ops : List PlayoutOp) :
    RepresentsBytes cap (playout.run p₀ ops) ((byteFifo cap).run [] ops)
        (bytesDiscarded cap [] ops) ∧
      playout.outputs p₀ ops = (byteFifo cap).outputs [] ops := by
  obtain ⟨hcap, hbytes, -⟩ := rtwPlayoutInit_spec h
  have hstart : p₀.Holds cap [] := ⟨hcap, hbytes⟩
  have hcounters : p₀.enqueuedBytes = 0 ∧ p₀.dequeuedBytes = 0 := by
    unfold rtwPlayoutInit at h
    split_ifs at h
    cases h
    exact ⟨rfl, rfl⟩
  obtain ⟨hrun, houts, henq, hdeq⟩ := hstart.run ops
  refine ⟨hrun.represents ?_, houts⟩
  have hsum : bytesWritten cap [] ops = bytesDiscarded cap [] ops + (playout.run p₀ ops).size +
      bytesTaken cap [] ops := by
    rw [bytesWritten_eq, hrun.size]
    omega
  rw [henq, hdeq, hcounters.1, hcounters.2, UInt64.zero_add, UInt64.zero_add, hsum,
    UInt64.ofNat_add, UInt64.ofNat_add, UInt64.add_sub_cancel, UInt64.add_sub_cancel]

theorem fourBytes_starts : (rtwPlayoutInit true 4).isSome := rfl

/-- A ring of four bytes: filled, read in part, written over its end, refused and cleared. -/
def fourBytesCalls : List PlayoutOp :=
  [.write [1, 2, 3, 4], .read 3, .write [5, 6, 7], .write [8], .clear true 64, .read 1]

theorem playout_refines_fourBytes :
    playout.outputs ((rtwPlayoutInit true 4).get fourBytes_starts) fourBytesCalls =
      [.wrote 0, .took [1, 2, 3], .wrote 0, .wrote (-1), .took []] :=
  (playout_refines (Option.some_get fourBytes_starts).symm fourBytesCalls).2.trans rfl

/-! ### The marks -/

/-- What a call does to a queue of bytes with markers. -/
def markerOp : PlayoutOp → Markers.Op UInt8 (CBuf RTW_MARK_NAME_LEN)
  | .write data => .feed data
  | .read maxLen => .take maxLen
  | .addMark name => .mark (CBuf.copy RTW_MARK_NAME_LEN name)
  | .popCompletedMarks _ _ => .collect
  | .clear _ _ => .discard

/-- The table entry of a marker that came in at time `m.1`. -/
def entryOf (s : Markers.State UInt8 (CBuf RTW_MARK_NAME_LEN))
    (m : ℕ × CBuf RTW_MARK_NAME_LEN) : Mark := ⟨m.2, s.waiting m.1⟩

/-- The bytes are the queued ones, and every mark waits for those written before it was added. -/
structure Playout.Follows (p : Playout) (cap : ℕ)
    (s : Markers.State UInt8 (CBuf RTW_MARK_NAME_LEN)) : Prop where
  capacity : p.capacity = cap
  ordered : s.Ordered
  bytes : p.bytes = s.queue.map Prod.snd
  marks : p.marks = s.marks.map (entryOf s)

variable {s : Markers.State UInt8 (CBuf RTW_MARK_NAME_LEN)}

theorem Playout.Follows.size (h : p.Follows cap s) : p.size = s.queue.length := by
  rw [← p.length_bytes, h.bytes, List.length_map]

theorem Playout.Follows.write (h : p.Follows cap s) (data : List UInt8) :
    (rtwPlayoutWrite p data).2.Follows cap (s.step cap RTW_MARK_MAX (.feed data)) := by
  constructor
  · exact (capacity_write p data).trans h.capacity
  · exact h.ordered.step (.feed data)
  · have hrc := write_fst p data
    simp only [Markers.State.step]
    rw [h.size, h.capacity] at hrc
    split_ifs at hrc ⊢ with hfits
    · rw [(write_accepted p hrc).1, h.bytes, List.map_append, List.map_map]
      congr 1
      exact (List.map_id data).symm
    · rw [write_rejected p (by rw [hrc]; decide), h.bytes]
  · rw [marks_write, h.marks]
    apply List.map_congr_left
    intro m hm
    rw [entryOf, entryOf, h.ordered.waiting_feed data hm]

theorem Playout.Follows.read (h : p.Follows cap s) (maxLen : ℕ) :
    (rtwPlayoutRead p maxLen).2.Follows cap (s.step cap RTW_MARK_MAX (.take maxLen)) := by
  constructor
  · exact (capacity_read p maxLen).trans h.capacity
  · exact h.ordered.step (.take maxLen)
  · rw [bytes_read, h.bytes]
    exact List.map_drop.symm
  · rw [marks_read, h.marks, List.map_map]
    apply List.map_congr_left
    intro m _
    have hle := s.waiting_le m.1
    have htake : s.waiting m.1 - (rtwPlayoutRead p maxLen).1.length = s.waiting m.1 - maxLen := by
      rw [length_read, h.size]
      omega
    rw [entryOf, h.ordered.waiting_take, ← htake]
    rfl

theorem Playout.Follows.addMark (h : p.Follows cap s) (name : CStr) :
    (rtwPlayoutAddMark p name).2.Follows cap
      (s.step cap RTW_MARK_MAX (.mark (CBuf.copy RTW_MARK_NAME_LEN name))) := by
  constructor
  · exact (capacity_addMark p name).trans h.capacity
  · exact h.ordered.step (.mark (CBuf.copy RTW_MARK_NAME_LEN name))
  · exact (bytes_addMark p name).trans h.bytes
  · have hrc := addMark_fst p name
    have hlen : p.marks.length = s.marks.length := by rw [h.marks, List.length_map]
    simp only [Markers.State.step]
    rw [hlen] at hrc
    split_ifs at hrc ⊢ with hroom
    · rw [addMark_accepted p hrc, h.marks, List.map_append, List.map_singleton, p.length_bytes,
        h.size, ← h.ordered.waiting_now]
      rfl
    · rw [addMark_rejected p (by rw [hrc]; decide), h.marks]
      rfl

theorem Playout.Follows.popCompletedMarks (h : p.Follows cap s) (maxOut : ℕ) :
    (rtwPlayoutPopCompletedMarks p maxOut).2.Follows cap (s.step cap RTW_MARK_MAX .collect) := by
  constructor
  · exact h.capacity
  · exact h.ordered.step .collect
  · exact h.bytes
  · rw [marks_popCompletedMarks, h.marks, uncompleted, List.filter_map]
    rfl

theorem Playout.Follows.clear (h : p.Follows cap s) (maxOut : ℕ) :
    (rtwPlayoutClear p maxOut).2.Follows cap (s.step cap RTW_MARK_MAX .discard) :=
  ⟨h.capacity, h.ordered.step .discard, rfl, rfl⟩

theorem Playout.Follows.step (h : p.Follows cap s) (op : PlayoutOp) :
    (playout.step p op).Follows cap (s.step cap RTW_MARK_MAX (markerOp op)) := by
  cases op with
  | write data => exact h.write data
  | read maxLen => exact h.read maxLen
  | addMark name => exact h.addMark name
  | popCompletedMarks namesOut maxOut => exact h.popCompletedMarks (roomFor namesOut maxOut)
  | clear namesOut maxOut => exact h.clear (roomFor namesOut maxOut)

theorem Playout.Follows.run (h : p.Follows cap s) (ops : List PlayoutOp) :
    (playout.run p ops).Follows cap
      ((Markers.machine cap RTW_MARK_MAX).run s (ops.map markerOp)) := by
  induction ops generalizing p s with
  | nil => exact h
  | cons op ops ih => exact ih (h.step op)

/-- The table of `p` when `s` is what came in so far: it is full at 64 marks, the mark at each
index waits for the buffered bytes written before it was added, later marks wait for no less,
the completed ones stand in front, and popping leaves the others as they are. -/
structure MarksHold (p : Playout) (s : Markers.State UInt8 (CBuf RTW_MARK_NAME_LEN)) : Prop where
  bytes : p.bytes = s.queue.map Prod.snd
  marks : p.marks = s.marks.map (entryOf s)
  count : p.marks.length ≤ 64
  sorted : (p.marks.map Mark.bytesAfter).Pairwise (· ≤ ·)
  within : ∀ m ∈ p.marks, m.bytesAfter ≤ p.size
  completed_front : completed p.marks ++ uncompleted p.marks = p.marks
  popped : ∀ namesOut maxOut,
    (rtwPlayoutPopCompletedMarks p (roomFor namesOut maxOut)).2.marks = uncompleted p.marks

theorem Playout.Follows.marksHold (h : p.Follows cap s) : MarksHold p s := by
  constructor
  · exact h.bytes
  · exact h.marks
  · exact p.marks_le
  · rw [h.marks, List.map_map]
    exact h.ordered.waiting_sorted
  · intro m hm
    rw [h.marks] at hm
    obtain ⟨k, -, rfl⟩ := List.mem_map.mp hm
    rw [h.size]
    exact s.waiting_le k.1
  · exact p.completed_append
  · exact fun namesOut maxOut => marks_popCompletedMarks p (roomFor namesOut maxOut)

/-- After every sequence of calls each mark waits for the bytes that were buffered before it. -/
theorem marks_wait_for_older {ok : Bool} {p₀ : Playout} (h : rtwPlayoutInit ok cap = some p₀)
    (ops : List PlayoutOp) :
    MarksHold (playout.run p₀ ops)
      ((Markers.machine cap RTW_MARK_MAX).run .empty (ops.map markerOp)) := by
  obtain ⟨hcap, hbytes, hmarks⟩ := rtwPlayoutInit_spec h
  have hstart : p₀.Follows cap .empty := ⟨hcap, Markers.ordered_empty, hbytes, hmarks⟩
  exact (hstart.run ops).marksHold

/-- Two marks with audio between them, and a read that completes the first. -/
def twoMarksCalls : List PlayoutOp :=
  [.write [1, 2], .addMark (.lit "a"), .write [3], .addMark (.lit "b"), .read 2,
    .popCompletedMarks false 64]

theorem marks_wait_for_older_twoMarks :
    (playout.run ((rtwPlayoutInit true 4).get fourBytes_starts) twoMarksCalls).marks =
      [⟨CBuf.copy RTW_MARK_NAME_LEN (.lit "b"), 1⟩] :=
  (marks_wait_for_older (Option.some_get fourBytes_starts).symm twoMarksCalls).marks.trans rfl

end RealtimeWs.Core
