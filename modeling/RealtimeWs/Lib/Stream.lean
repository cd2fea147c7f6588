import Mathlib.Algebra.GroupWithZero.Nat
import Mathlib.Data.List.DropRight
import RealtimeWs.Lib.Machine

/-! A bounded stream that is fed all or nothing, read from the front and discarded
whole: what was taken from it is what went in, less what each discard found queued. -/
namespace Stream

variable {α : Type*}

inductive Op (α : Type*)
  | feed (bs : List α)
  | discard
  | take (n : ℕ)
  deriving DecidableEq, Repr

/-- The state is what is queued; the outputs are what is taken. -/
def machine (cap : ℕ) : Machine (List α) (Op α) α where
  step b
    | .feed bs => if b.length + bs.length ≤ cap then b ++ bs else b
    | .discard => []
    | .take n => b.drop n
  out b
    | .take n => b.take n
    | _ => []

/-- What happened to the content, reads apart. -/
inductive Entry (α : Type*)
  | accepted (bs : List α)
  | discarded (lost : List α)
  deriving DecidableEq, Repr

/-- The same machine, with its entries as outputs. -/
def journal (cap : ℕ) : Machine (List α) (Op α) (Entry α) where
  step := (machine cap).step
  out b
    | .feed bs => if b.length + bs.length ≤ cap then [.accepted bs] else []
    | .discard => [.discarded b]
    | .take _ => []

/-- Everything accepted, with what each discard found queued taken off its end; a discard
of anything else is no discard of this stream. -/
def kept [DecidableEq α] : List α → List (Entry α) → Option (List α)
  | acc, [] => some acc
  | acc, .accepted bs :: es => kept (acc ++ bs) es
  | acc, .discarded lost :: es =>
    if lost <:+ acc then kept (acc.rdrop lost.length) es else none

theorem rdrop_append_right (xs ys : List α) : (xs ++ ys).rdrop ys.length = xs := by
  have hlen : ys.length = ys.reverse.length := List.length_reverse.symm
  rw [List.rdrop_eq_reverse_drop_reverse, List.reverse_append, hlen, List.drop_left,
    List.reverse_reverse]

/-- One step moves what it takes from the queue to what was taken. -/
theorem kept_step [DecidableEq α] (cap : ℕ) (op : Op α) (played b : List α)
    (es : List (Entry α)) :
    kept (played ++ b) ((journal cap).out b op ++ es) =
      kept (played ++ (machine cap).out b op ++ (machine cap).step b op) es := by
  cases op with
  | feed bs =>
    by_cases h : b.length + bs.length ≤ cap
    · simp [journal, machine, h, kept]
    · simp [journal, machine, h]
  | discard =>
    simp only [journal, machine, List.singleton_append, kept, List.append_nil]
    rw [if_pos (List.suffix_append played b), rdrop_append_right]
  | take n => simp [journal, machine]

/-- First in, first out: what was taken before and during the run, followed by what is
still queued, is what was kept. -/
theorem taken_append_queued [DecidableEq α] (cap : ℕ) (ops : List (Op α)) (played b : List α) :
    kept (played ++ b) ((journal cap).outputs b ops) =
      some (played ++ (machine cap).outputs b ops ++ (machine cap).run b ops) := by
  induction ops generalizing played b with
  | nil => simp [kept]
  | cons op ops ih =>
    rw [Machine.outputs_cons, Machine.run_cons, Machine.outputs_cons, kept_step,
      ← List.append_assoc played]
    exact ih (played ++ (machine cap).out b op) ((machine cap).step b op)

/-! ### Counting -/

def Entry.gained : Entry α → ℕ
  | .accepted bs => bs.length
  | .discarded _ => 0

def Entry.lost : Entry α → ℕ
  | .accepted _ => 0
  | .discarded lost => lost.length

/-- Length of what was accepted, and of what discards found queued. -/
def gained (es : List (Entry α)) : ℕ := (es.map Entry.gained).sum

def lost (es : List (Entry α)) : ℕ := (es.map Entry.lost).sum

theorem balance_step (cap : ℕ) (op : Op α) (b : List α) :
    b.length + gained ((journal cap).out b op) =
      ((machine cap).out b op).length + lost ((journal cap).out b op) +
        ((machine cap).step b op).length := by
  cases op with
  | feed bs =>
    by_cases h : b.length + bs.length ≤ cap
    · simp [journal, machine, h, gained, lost, Entry.gained, Entry.lost]
    · simp [journal, machine, h, gained, lost]
  | discard => simp [journal, machine, gained, lost, Entry.gained, Entry.lost]
  | take n =>
    have hsplit := congrArg List.length (List.take_append_drop n b)
    rw [List.length_append] at hsplit
    simp [journal, machine, gained, lost] at hsplit ⊢
    omega

/-- What was accepted was taken, discarded or is still queued. -/
theorem balance (cap : ℕ) (ops : List (Op α)) (b : List α) :
    b.length + gained ((journal cap).outputs b ops) =
      ((machine cap).outputs b ops).length + lost ((journal cap).outputs b ops) +
        ((machine cap).run b ops).length := by
  induction ops generalizing b with
  | nil => simp [gained, lost]
  | cons op ops ih =>
    have hstep := balance_step cap op b
    have hrest := ih ((machine cap).step b op)
    simp only [Machine.outputs_cons, Machine.run_cons, gained, lost, List.map_append,
      List.sum_append, List.length_append] at hstep hrest ⊢
    change _ + (_ + (((journal cap).outputs ((machine cap).step b op) ops).map Entry.gained).sum) =
      _ + (_ + (((journal cap).outputs ((machine cap).step b op) ops).map Entry.lost).sum) + _
    omega

/-! ### Splitting reads -/

/-- A read in front of what follows: it joins a read that comes next. -/
def joinTake (n : ℕ) : List (Op α) → List (Op α)
  | .take m :: ops => .take (n + m) :: ops
  | ops => .take n :: ops

/-- The operations with each stretch of reads joined into one. -/
def demand : List (Op α) → List (Op α)
  | [] => []
  | .take n :: ops => joinTake n (demand ops)
  | .feed bs :: ops => .feed bs :: demand ops
  | .discard :: ops => .discard :: demand ops

theorem joinTake_spec (cap n : ℕ) (b : List α) (ops : List (Op α)) :
    (machine cap).run b (joinTake n ops) = (machine cap).run b (.take n :: ops) ∧
      (machine cap).outputs b (joinTake n ops) = (machine cap).outputs b (.take n :: ops) := by
  unfold joinTake
  split
  · rename_i m ops
    have hdrop : (machine cap).step b (.take (n + m)) =
        (machine cap).step ((machine cap).step b (.take n)) (.take m) := by
      simp [machine, List.drop_drop]
    have htake : (machine cap).out b (.take (n + m)) =
        (machine cap).out b (.take n) ++
          (machine cap).out ((machine cap).step b (.take n)) (.take m) := by
      simp [machine, List.take_add]
    constructor
    · rw [Machine.run_cons, hdrop]
      rfl
    · rw [Machine.outputs_cons, htake, hdrop, List.append_assoc]
      rfl
  · exact ⟨rfl, rfl⟩

theorem demand_spec (cap : ℕ) (ops : List (Op α)) (b : List α) :
    (machine cap).run b (demand ops) = (machine cap).run b ops ∧
      (machine cap).outputs b (demand ops) = (machine cap).outputs b ops := by
  induction ops generalizing b with
  | nil => exact ⟨rfl, rfl⟩
  | cons op ops ih =>
    obtain ⟨hrun, hout⟩ := ih ((machine cap).step b op)
    cases op with
    | feed bs | discard =>
      simp only [demand, Machine.run_cons, Machine.outputs_cons, hrun, hout]
      exact ⟨trivial, trivial⟩
    | take n =>
      obtain ⟨hjrun, hjout⟩ := joinTake_spec cap n b (demand ops)
      rw [demand, hjrun, hjout]
      simp only [Machine.run_cons, Machine.outputs_cons, hrun, hout]
      exact ⟨trivial, trivial⟩

/-- How reads are split changes nothing. -/
theorem same_of_demand_eq (cap : ℕ) {ops ops' : List (Op α)} (h : demand ops = demand ops')
    (b : List α) :
    (machine cap).run b ops = (machine cap).run b ops' ∧
      (machine cap).outputs b ops = (machine cap).outputs b ops' := by
  obtain ⟨hrun, hout⟩ := demand_spec cap ops b
  obtain ⟨hrun', hout'⟩ := demand_spec cap ops' b
  constructor
  · rw [← hrun, ← hrun', h]
  · rw [← hout, ← hout', h]

end Stream
