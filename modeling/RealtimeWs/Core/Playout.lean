import RealtimeWs.Core.CString
import RealtimeWs.Lib.Window

/-! The playout buffer: a byte ring for agent audio and the table of marks that
wait for the audio in front of them. The table is the list of its used entries. -/
namespace RealtimeWs.Core

open Circular

def RTW_MARK_MAX : ℕ := 64
def RTW_MARK_NAME_LEN : ℕ := 128

instance : Fact (0 < RTW_MARK_NAME_LEN) := ⟨by decide⟩

structure Mark where
  name : CBuf RTW_MARK_NAME_LEN
  bytesAfter : ℕ
  deriving DecidableEq

/-- Marks are in the order they were added, and none waits for more than is buffered. -/
structure Playout where
  buf : ℕ → UInt8
  capacity : ℕ
  head : ℕ
  tail : ℕ
  size : ℕ
  marks : List Mark
  enqueuedBytes : UInt64
  dequeuedBytes : UInt64
  clearCount : UInt64
  head_lt : head < capacity
  size_le : size ≤ capacity
  tail_eq : tail = (head + size) % capacity
  marks_le : marks.length ≤ RTW_MARK_MAX
  sorted : marks.Pairwise fun m k => m.bytesAfter ≤ k.bytesAfter
  within : ∀ m ∈ marks, m.bytesAfter ≤ size

/-- The buffered bytes, oldest first. -/
def Playout.bytes (p : Playout) : List UInt8 := window p.buf p.capacity p.head p.size

/-- The buffer is never read before it is written, so its first content is left at zero. -/
def rtwPlayoutInit (mallocOk : Bool) (capacityBytes : ℕ) : Option Playout :=
  if h : 0 < capacityBytes then
    if mallocOk then some {
      buf := fun _ => 0
      capacity := capacityBytes
      head := 0
      tail := 0
      size := 0
      marks := []
      enqueuedBytes := 0
      dequeuedBytes := 0
      clearCount := 0
      head_lt := h
      size_le := Nat.zero_le _
      tail_eq := empty_tail _
      marks_le := Nat.zero_le _
      sorted := .nil
      within := by simp }
    else none
  else none

/-! ### The mark table -/

def advanceMarksOnRead (n : ℕ) (marks : List Mark) : List Mark :=
  marks.map fun m => { m with bytesAfter := if n ≤ m.bytesAfter then m.bytesAfter - n else 0 }

private theorem advance_eq_sub (n b : ℕ) : (if n ≤ b then b - n else 0) = b - n := by
  split <;> omega

private theorem advance_sorted {marks : List Mark} (n : ℕ)
    (h : marks.Pairwise fun m k => m.bytesAfter ≤ k.bytesAfter) :
    (advanceMarksOnRead n marks).Pairwise fun m k => m.bytesAfter ≤ k.bytesAfter := by
  rw [advanceMarksOnRead, List.pairwise_map]
  refine h.imp fun hmk => ?_
  rw [advance_eq_sub, advance_eq_sub]
  exact Nat.sub_le_sub_right hmk n

private theorem advance_within {marks : List Mark} {size : ℕ} (n : ℕ)
    (h : ∀ m ∈ marks, m.bytesAfter ≤ size) :
    ∀ m ∈ advanceMarksOnRead n marks, m.bytesAfter ≤ size - n := by
  intro m hm
  obtain ⟨k, hk, rfl⟩ := List.mem_map.mp hm
  rw [advance_eq_sub]
  exact Nat.sub_le_sub_right (h k hk) n

/-- A mark set at the end of the buffered bytes waits for all of them. -/
def rtwPlayoutAddMark (p : Playout) (name : CStr) : ℤ × Playout :=
  if h : RTW_MARK_MAX ≤ p.marks.length then (-1, p)
  else (0, { p with
    marks := p.marks ++ [⟨CBuf.copy RTW_MARK_NAME_LEN name, p.size⟩]
    marks_le := by rw [List.length_append]; exact Nat.lt_of_not_le h
    sorted := List.pairwise_append.mpr
      ⟨p.sorted, List.pairwise_singleton _ _, by simpa using p.within⟩
    within := by
      intro m hm
      rcases List.mem_append.mp hm with hm | hm
      · exact p.within m hm
      · rw [List.mem_singleton.mp hm] })

/-- The scan of the table with removal in place: every completed mark goes, the
first `maxOut` of them are handed out. The counter is the number handed out. -/
def popLoop (maxOut : ℕ) : ℕ → List Mark → List (CBuf RTW_MARK_NAME_LEN) × List Mark
  | _, [] => ([], [])
  | outN, m :: ms =>
    if m.bytesAfter = 0 then
      if outN < maxOut then
        (CBuf.copy RTW_MARK_NAME_LEN m.name.toCStr :: (popLoop maxOut (outN + 1) ms).1,
          (popLoop maxOut (outN + 1) ms).2)
      else popLoop maxOut outN ms
    else ((popLoop maxOut outN ms).1, m :: (popLoop maxOut outN ms).2)

/-- Marks with nothing left in front of them. -/
def completed (marks : List Mark) : List Mark := marks.filter fun m => m.bytesAfter = 0

def uncompleted (marks : List Mark) : List Mark := marks.filter fun m => m.bytesAfter ≠ 0

theorem popLoop_eq (maxOut outN : ℕ) (marks : List Mark) :
    popLoop maxOut outN marks =
      (((completed marks).take (maxOut - outN)).map Mark.name, uncompleted marks) := by
  induction marks generalizing outN with
  | nil => simp [popLoop, completed, uncompleted]
  | cons m ms ih =>
    by_cases hm : m.bytesAfter = 0
    · by_cases ho : outN < maxOut
      · obtain ⟨k, hk⟩ := Nat.exists_eq_add_of_lt ho
        have h1 : maxOut - outN = maxOut - (outN + 1) + 1 := by omega
        simp [popLoop, completed, uncompleted, hm, ho, ih, h1]
      · have h0 : maxOut - outN = 0 := by omega
        simp [popLoop, completed, uncompleted, hm, ho, ih, h0]
    · simp [popLoop, completed, uncompleted, hm, ih]

def rtwPlayoutPopCompletedMarks (p : Playout) (maxOut : ℕ) :
    List (CBuf RTW_MARK_NAME_LEN) × Playout :=
  have hs : (popLoop maxOut 0 p.marks).2.Sublist p.marks := by
    rw [popLoop_eq]
    exact List.filter_sublist
  ((popLoop maxOut 0 p.marks).1, { p with
    marks := (popLoop maxOut 0 p.marks).2
    marks_le := hs.length_le.trans p.marks_le
    sorted := p.sorted.sublist hs
    within := fun m hm => p.within m (hs.subset hm) })

def rtwPlayoutClear (p : Playout) (maxOut : ℕ) : List (CBuf RTW_MARK_NAME_LEN) × Playout :=
  ((p.marks.take maxOut).map fun m => CBuf.copy RTW_MARK_NAME_LEN m.name.toCStr, { p with
    head := 0
    tail := 0
    size := 0
    marks := []
    clearCount := p.clearCount + 1
    head_lt := (Nat.zero_le _).trans_lt p.head_lt
    size_le := Nat.zero_le _
    tail_eq := empty_tail _
    marks_le := Nat.zero_le _
    sorted := .nil
    within := by simp })

/-! ### The byte ring -/

/-- Writes the bytes at the tail one by one. -/
def writeLoop (cap : ℕ) : List UInt8 → (ℕ → UInt8) × ℕ → (ℕ → UInt8) × ℕ
  | [], r => r
  | b :: bs, r => writeLoop cap bs (Function.update r.1 r.2 b, advance cap r.2)

/-- Reads `n` bytes at the head one by one. -/
def readLoop (buf : ℕ → UInt8) (cap : ℕ) : ℕ → ℕ → List UInt8 × ℕ
  | 0, head => ([], head)
  | n + 1, head =>
    (buf head :: (readLoop buf cap n (advance cap head)).1,
      (readLoop buf cap n (advance cap head)).2)

theorem writeLoop_tail {cap head size : ℕ} (data : List UInt8) (buf : ℕ → UInt8) :
    (writeLoop cap data (buf, (head + size) % cap)).2 = (head + (size + data.length)) % cap := by
  induction data generalizing size buf with
  | nil => rfl
  | cons b bs ih =>
    rw [writeLoop, advance, Nat.mod_add_mod, Nat.add_assoc, ih, List.length_cons]
    congr 2
    omega

theorem writeLoop_window {cap head size : ℕ} (data : List UInt8) (buf : ℕ → UInt8)
    (h : size + data.length ≤ cap) :
    window (writeLoop cap data (buf, (head + size) % cap)).1 cap head (size + data.length) =
      window buf cap head size ++ data := by
  induction data generalizing size buf with
  | nil => simp [writeLoop]
  | cons b bs ih =>
    rw [List.length_cons] at h
    rw [writeLoop, advance, Nat.mod_add_mod, Nat.add_assoc, List.length_cons,
      show size + (bs.length + 1) = size + 1 + bs.length by omega, ih _ (by omega),
      window_put _ _ (by omega), List.append_assoc, List.singleton_append]

theorem readLoop_eq {cap head : ℕ} (buf : ℕ → UInt8) (n : ℕ) (h : head < cap) :
    readLoop buf cap n head = (window buf cap head n, (head + n) % cap) := by
  induction n generalizing head with
  | zero => rw [readLoop, window_zero, Nat.add_zero, Nat.mod_eq_of_lt h]
  | succ n ih =>
    have ha : advance cap head < cap := Nat.mod_lt _ ((Nat.zero_le _).trans_lt h)
    rw [readLoop, ih ha, window_cons, Nat.mod_eq_of_lt h, advance_slot, Nat.add_comm n]

/-- All or nothing: bytes that do not fit are refused whole. -/
def rtwPlayoutWrite (p : Playout) (data : List UInt8) : ℤ × Playout :=
  if data.length = 0 then (0, p)
  else if h : p.capacity < p.size + data.length then (-1, p)
  else (0, { p with
    buf := (writeLoop p.capacity data (p.buf, p.tail)).1
    tail := (writeLoop p.capacity data (p.buf, p.tail)).2
    size := p.size + data.length
    enqueuedBytes := p.enqueuedBytes + UInt64.ofNat data.length
    size_le := Nat.le_of_not_lt h
    tail_eq := by rw [p.tail_eq, writeLoop_tail]
    within := fun m hm => (p.within m hm).trans (Nat.le_add_right _ _) })

/-- The number of bytes a read takes. -/
def Playout.readAmount (p : Playout) (maxLen : ℕ) : ℕ :=
  if maxLen < p.size then maxLen else p.size

theorem Playout.readAmount_eq (p : Playout) (maxLen : ℕ) :
    p.readAmount maxLen = min maxLen p.size := by
  unfold readAmount
  split <;> omega

private theorem read_tail {cap head size n tail : ℕ} (hn : n ≤ size)
    (ht : tail = (head + size) % cap) : tail = ((head + n) % cap + (size - n)) % cap := by
  rw [ht, Nat.mod_add_mod]
  congr 1
  omega

/-- The buffer after `n` bytes were read from the head. -/
def Playout.consume (p : Playout) (n : ℕ) (hn : n ≤ p.size) : Playout :=
  { p with
    head := (readLoop p.buf p.capacity n p.head).2
    size := p.size - n
    marks := advanceMarksOnRead n p.marks
    dequeuedBytes := p.dequeuedBytes + UInt64.ofNat n
    head_lt := by
      rw [readLoop_eq _ _ p.head_lt]
      exact Nat.mod_lt _ ((Nat.zero_le _).trans_lt p.head_lt)
    size_le := (Nat.sub_le _ _).trans p.size_le
    tail_eq := by
      rw [readLoop_eq _ _ p.head_lt]
      exact read_tail hn p.tail_eq
    marks_le := by rw [advanceMarksOnRead, List.length_map]; exact p.marks_le
    sorted := advance_sorted n p.sorted
    within := advance_within n p.within }

def rtwPlayoutRead (p : Playout) (maxLen : ℕ) : List UInt8 × Playout :=
  if maxLen = 0 then ([], p)
  else
    ((readLoop p.buf p.capacity (p.readAmount maxLen) p.head).1,
      p.consume (p.readAmount maxLen) (by rw [p.readAmount_eq]; exact Nat.min_le_right _ _))

def rtwPlayoutSize (p : Playout) : ℕ := p.size

/-! ### What the operations do to the bytes and the marks -/

@[simp] theorem Playout.length_bytes (p : Playout) : p.bytes.length = p.size := length_window ..

theorem rtwPlayoutInit_spec {ok : Bool} {cap : ℕ} {p : Playout}
    (h : rtwPlayoutInit ok cap = some p) :
    p.capacity = cap ∧ p.bytes = [] ∧ p.marks = [] := by
  unfold rtwPlayoutInit at h
  split_ifs at h
  cases h
  exact ⟨rfl, rfl, rfl⟩

variable (p : Playout)

theorem write_fst (data : List UInt8) : (rtwPlayoutWrite p data).1 =
    if p.size + data.length ≤ p.capacity then 0 else -1 := by
  have := p.size_le
  unfold rtwPlayoutWrite
  split_ifs <;> first | rfl | omega

theorem write_rejected {data : List UInt8} (h : (rtwPlayoutWrite p data).1 ≠ 0) :
    (rtwPlayoutWrite p data).2 = p := by
  unfold rtwPlayoutWrite at h ⊢
  split_ifs at h ⊢ <;> first | rfl | exact absurd rfl h

theorem write_accepted {data : List UInt8} (h : (rtwPlayoutWrite p data).1 = 0) :
    (rtwPlayoutWrite p data).2.bytes = p.bytes ++ data ∧
      (rtwPlayoutWrite p data).2.size = p.size + data.length := by
  unfold rtwPlayoutWrite at h ⊢
  split_ifs at h ⊢ with h0 hc
  · rw [List.length_eq_zero_iff.mp h0]
    exact ⟨(List.append_nil _).symm, rfl⟩
  · simp at h
  · refine ⟨?_, rfl⟩
    have hw : window (writeLoop p.capacity data (p.buf, (p.head + p.size) % p.capacity)).1
        p.capacity p.head (p.size + data.length) = p.bytes ++ data :=
      writeLoop_window data p.buf (Nat.le_of_not_lt hc)
    rwa [← p.tail_eq] at hw

@[simp] theorem marks_write (data : List UInt8) :
    (rtwPlayoutWrite p data).2.marks = p.marks := by
  unfold rtwPlayoutWrite
  split_ifs <;> rfl

@[simp] theorem capacity_write (data : List UInt8) :
    (rtwPlayoutWrite p data).2.capacity = p.capacity := by
  unfold rtwPlayoutWrite
  split_ifs <;> rfl

theorem Playout.bytes_consume (n : ℕ) (hn : n ≤ p.size) :
    (p.consume n hn).bytes = p.bytes.drop n := by
  have hhead : (p.consume n hn).head = (p.head + n) % p.capacity :=
    congrArg Prod.snd (readLoop_eq p.buf n p.head_lt)
  rw [bytes, bytes, drop_window, hhead]
  rfl

/-- Reading takes a prefix of the buffered bytes. -/
theorem read_fst (maxLen : ℕ) : (rtwPlayoutRead p maxLen).1 = p.bytes.take maxLen := by
  unfold rtwPlayoutRead
  split_ifs with h
  · rw [h, List.take_zero]
  · simp only [readLoop_eq _ _ p.head_lt, p.readAmount_eq]
    rw [← take_window _ (Nat.min_le_right maxLen p.size), ← Playout.bytes, ← p.length_bytes,
      ← List.take_eq_take_min]

theorem bytes_read (maxLen : ℕ) : (rtwPlayoutRead p maxLen).2.bytes = p.bytes.drop maxLen := by
  unfold rtwPlayoutRead
  split_ifs with h
  · rw [h, List.drop_zero]
  · simp only [p.bytes_consume, p.readAmount_eq]
    rw [← p.length_bytes, ← List.drop_eq_drop_min]

theorem length_read (maxLen : ℕ) : (rtwPlayoutRead p maxLen).1.length = min maxLen p.size := by
  rw [read_fst, List.length_take, p.length_bytes]

theorem size_read (maxLen : ℕ) : (rtwPlayoutRead p maxLen).2.size =
    p.size - (rtwPlayoutRead p maxLen).1.length := by
  rw [← Playout.length_bytes, bytes_read, List.length_drop, length_read, p.length_bytes]
  omega

/-- Every mark comes nearer by the bytes read. -/
theorem marks_read (maxLen : ℕ) : (rtwPlayoutRead p maxLen).2.marks = p.marks.map fun m =>
    { m with bytesAfter := m.bytesAfter - (rtwPlayoutRead p maxLen).1.length } := by
  rw [length_read]
  unfold rtwPlayoutRead
  split_ifs with h
  · simp [h]
  · refine List.map_congr_left fun m _ => ?_
    simp only [p.readAmount_eq, advance_eq_sub]

@[simp] theorem capacity_read (maxLen : ℕ) :
    (rtwPlayoutRead p maxLen).2.capacity = p.capacity := by
  unfold rtwPlayoutRead
  split_ifs <;> rfl

theorem addMark_fst (name : CStr) : (rtwPlayoutAddMark p name).1 =
    if p.marks.length < RTW_MARK_MAX then 0 else -1 := by
  unfold rtwPlayoutAddMark
  split_ifs <;> first | rfl | omega

theorem addMark_rejected {name : CStr} (h : (rtwPlayoutAddMark p name).1 ≠ 0) :
    (rtwPlayoutAddMark p name).2 = p := by
  unfold rtwPlayoutAddMark at h ⊢
  split_ifs at h ⊢ <;> first | rfl | exact absurd rfl h

theorem addMark_accepted {name : CStr} (h : (rtwPlayoutAddMark p name).1 = 0) :
    (rtwPlayoutAddMark p name).2.marks =
      p.marks ++ [⟨CBuf.copy RTW_MARK_NAME_LEN name, p.bytes.length⟩] := by
  unfold rtwPlayoutAddMark at h ⊢
  split_ifs at h ⊢
  · simp at h
  · rw [p.length_bytes]

@[simp] theorem bytes_addMark (name : CStr) : (rtwPlayoutAddMark p name).2.bytes = p.bytes := by
  unfold rtwPlayoutAddMark
  split_ifs <;> rfl

@[simp] theorem capacity_addMark (name : CStr) :
    (rtwPlayoutAddMark p name).2.capacity = p.capacity := by
  unfold rtwPlayoutAddMark
  split_ifs <;> rfl

/-- The completed marks stand in front of the table. -/
theorem Playout.completed_append : completed p.marks ++ uncompleted p.marks = p.marks := by
  have hsort := p.sorted
  generalize p.marks = marks at hsort
  induction marks with
  | nil => rfl
  | cons m ms ih =>
    obtain ⟨hm, hms⟩ := List.pairwise_cons.mp hsort
    by_cases h0 : m.bytesAfter = 0
    · simpa [completed, uncompleted, h0] using ih hms
    · have hpos : ∀ k ∈ m :: ms, k.bytesAfter ≠ 0 := by
        intro k hk
        rcases List.mem_cons.mp hk with rfl | hk
        · exact h0
        · have := hm k hk
          omega
      have hnone : completed (m :: ms) = [] :=
        List.filter_eq_nil_iff.mpr fun k hk => by simpa using hpos k hk
      have hall : uncompleted (m :: ms) = m :: ms :=
        List.filter_eq_self.mpr fun k hk => by simpa using hpos k hk
      rw [hnone, hall, List.nil_append]

theorem popCompletedMarks_fst (maxOut : ℕ) : (rtwPlayoutPopCompletedMarks p maxOut).1 =
    ((completed p.marks).take maxOut).map Mark.name := by
  have h : (rtwPlayoutPopCompletedMarks p maxOut).1 = (popLoop maxOut 0 p.marks).1 := rfl
  rw [h, popLoop_eq, Nat.sub_zero]

@[simp] theorem marks_popCompletedMarks (maxOut : ℕ) :
    (rtwPlayoutPopCompletedMarks p maxOut).2.marks = uncompleted p.marks := by
  have h : (rtwPlayoutPopCompletedMarks p maxOut).2.marks = (popLoop maxOut 0 p.marks).2 := rfl
  rw [h, popLoop_eq]

@[simp] theorem bytes_popCompletedMarks (maxOut : ℕ) :
    (rtwPlayoutPopCompletedMarks p maxOut).2.bytes = p.bytes := rfl

@[simp] theorem capacity_popCompletedMarks (maxOut : ℕ) :
    (rtwPlayoutPopCompletedMarks p maxOut).2.capacity = p.capacity := rfl

/-- The table is never longer than the buffer the session clears into. -/
theorem clear_fst : (rtwPlayoutClear p RTW_MARK_MAX).1 = p.marks.map Mark.name := by
  simp [rtwPlayoutClear, List.take_of_length_le p.marks_le]

@[simp] theorem marks_clear (maxOut : ℕ) : (rtwPlayoutClear p maxOut).2.marks = [] := rfl

@[simp] theorem bytes_clear (maxOut : ℕ) : (rtwPlayoutClear p maxOut).2.bytes = [] := rfl

@[simp] theorem capacity_clear (maxOut : ℕ) :
    (rtwPlayoutClear p maxOut).2.capacity = p.capacity := rfl

end RealtimeWs.Core
