import Mathlib.Data.List.Pairwise
import RealtimeWs.Lib.Machine

/-! A bounded queue and a table of markers over it. Entries and markers carry the time they
came in; a marker waits for the queued entries that are older than it. -/
namespace Markers

variable {α ν : Type*}

inductive Op (α ν : Type*)
  | feed (bs : List α)
  | take (n : ℕ)
  | mark (name : ν)
  | collect
  | discard

structure State (α ν : Type*) where
  now : ℕ
  queue : List (ℕ × α)
  marks : List (ℕ × ν)

def State.empty : State α ν := ⟨0, [], []⟩

/-- The number of queued entries that came in before the time `t`. -/
def older (t : ℕ) (queue : List (ℕ × α)) : ℕ := queue.countP fun b => b.1 < t

def State.waiting (s : State α ν) (t : ℕ) : ℕ := older t s.queue

/-- Every operation takes one unit of time. -/
def State.step (cap limit : ℕ) (s : State α ν) : Op α ν → State α ν
  | .feed bs =>
    { s with
      now := s.now + 1
      queue := if s.queue.length + bs.length ≤ cap then s.queue ++ bs.map (s.now, ·) else s.queue }
  | .take n => { s with now := s.now + 1, queue := s.queue.drop n }
  | .mark name =>
    { s with
      now := s.now + 1
      marks := if s.marks.length < limit then s.marks ++ [(s.now, name)] else s.marks }
  | .collect =>
    { s with now := s.now + 1, marks := s.marks.filter fun m => s.waiting m.1 ≠ 0 }
  | .discard => { now := s.now + 1, queue := [], marks := [] }

def machine (cap limit : ℕ) : Machine (State α ν) (Op α ν) Empty where
  step := State.step cap limit
  out _ _ := []

/-! ### Counting older entries -/

@[simp] theorem older_nil (t : ℕ) : older t ([] : List (ℕ × α)) = 0 := rfl

theorem older_append (t : ℕ) (xs ys : List (ℕ × α)) :
    older t (xs ++ ys) = older t xs + older t ys := List.countP_append

theorem older_eq_zero {t : ℕ} {xs : List (ℕ × α)} (h : ∀ b ∈ xs, t ≤ b.1) : older t xs = 0 := by
  apply List.countP_eq_zero.mpr
  intro b hb hlt
  have hle := h b hb
  have hlt := of_decide_eq_true hlt
  omega

theorem older_eq_length {t : ℕ} {xs : List (ℕ × α)} (h : ∀ b ∈ xs, b.1 < t) :
    older t xs = xs.length :=
  List.countP_eq_length.mpr fun b hb => decide_eq_true (h b hb)

/-- What comes off the front of a queue in order of age is older than everything left. -/
theorem older_drop {xs : List (ℕ × α)} (h : xs.Pairwise fun a b => a.1 ≤ b.1) (t n : ℕ) :
    older t (xs.drop n) = older t xs - n := by
  induction xs generalizing n with
  | nil => simp
  | cons b bs ih =>
    obtain ⟨hb, hbs⟩ := List.pairwise_cons.mp h
    cases n with
    | zero => rfl
    | succ n =>
      have hcons : older t (b :: bs) = older t bs + older t [b] := by
        rw [Nat.add_comm, ← older_append, List.singleton_append]
      rw [List.drop_succ_cons, ih hbs, hcons]
      by_cases hlt : b.1 < t
      · have hone : older t [b] = 1 := by simp [older, hlt]
        omega
      · have hzero : older t [b] = 0 := by simp [older, hlt]
        have hrest : older t bs = 0 := older_eq_zero fun a ha => by
          have hle := hb a ha
          omega
        omega

theorem older_mono {t u : ℕ} (h : t ≤ u) (xs : List (ℕ × α)) : older t xs ≤ older u xs := by
  apply List.countP_mono_left
  intro b _ hlt
  have hlt := of_decide_eq_true hlt
  exact decide_eq_true (Nat.lt_of_lt_of_le hlt h)

/-! ### The order of times -/

/-- Entries and markers stand in the order they came in, all in the past. -/
structure State.Ordered (s : State α ν) : Prop where
  queue : s.queue.Pairwise fun a b => a.1 ≤ b.1
  marks : s.marks.Pairwise fun m k => m.1 ≤ k.1
  queue_past : ∀ b ∈ s.queue, b.1 < s.now
  marks_past : ∀ m ∈ s.marks, m.1 < s.now

theorem ordered_empty : (State.empty : State α ν).Ordered :=
  ⟨.nil, .nil, nofun, nofun⟩

variable {s : State α ν} {cap limit : ℕ}

theorem State.Ordered.later (h : s.Ordered) {queue : List (ℕ × α)} {marks : List (ℕ × ν)}
    (hqueue : queue.Sublist s.queue) (hmarks : marks.Sublist s.marks) :
    State.Ordered ⟨s.now + 1, queue, marks⟩ := by
  constructor
  · exact h.queue.sublist hqueue
  · exact h.marks.sublist hmarks
  · exact fun b hb => Nat.lt_succ_of_lt (h.queue_past b (hqueue.subset hb))
  · exact fun m hm => Nat.lt_succ_of_lt (h.marks_past m (hmarks.subset hm))

/-- What comes in now stands behind everything that came in before. -/
theorem pairwise_now {β : Type*} {now : ℕ} {xs : List (ℕ × β)}
    (h : xs.Pairwise fun a b => a.1 ≤ b.1) (hpast : ∀ b ∈ xs, b.1 < now) (bs : List β) :
    (xs ++ bs.map (now, ·)).Pairwise fun a b => a.1 ≤ b.1 := by
  apply List.pairwise_append.mpr
  refine ⟨h, ?_, ?_⟩
  · rw [List.pairwise_map]
    exact List.pairwise_of_forall fun _ _ => Nat.le_refl now
  · intro a ha b hb
    obtain ⟨c, -, rfl⟩ := List.mem_map.mp hb
    exact Nat.le_of_lt (hpast a ha)

theorem past_now {β : Type*} {now : ℕ} {xs : List (ℕ × β)} (hpast : ∀ b ∈ xs, b.1 < now)
    (bs : List β) : ∀ b ∈ xs ++ bs.map (now, ·), b.1 < now + 1 := by
  intro b hb
  rcases List.mem_append.mp hb with hold | hnew
  · exact Nat.lt_succ_of_lt (hpast b hold)
  · obtain ⟨c, -, rfl⟩ := List.mem_map.mp hnew
    exact Nat.lt_succ_self now

theorem State.Ordered.step (h : s.Ordered) (op : Op α ν) : (s.step cap limit op).Ordered := by
  have hsame := h.later (List.Sublist.refl s.queue) (List.Sublist.refl s.marks)
  cases op with
  | feed bs =>
    simp only [State.step]
    split
    · exact ⟨pairwise_now h.queue h.queue_past bs, h.marks, past_now h.queue_past bs,
        hsame.marks_past⟩
    · exact hsame
  | take n => exact h.later (List.drop_sublist n s.queue) (List.Sublist.refl s.marks)
  | mark name =>
    simp only [State.step]
    split
    · exact ⟨h.queue, pairwise_now h.marks h.marks_past [name], hsame.queue_past,
        past_now h.marks_past [name]⟩
    · exact hsame
  | collect => exact h.later (List.Sublist.refl s.queue) List.filter_sublist
  | discard => exact h.later (List.nil_sublist s.queue) (List.nil_sublist s.marks)

theorem State.Ordered.run (h : s.Ordered) (ops : List (Op α ν)) :
    ((machine cap limit).run s ops).Ordered :=
  (machine cap limit).invariant (P := fun _ _ => True) (fun _ op _ h => h.step op) h
    ((machine cap limit).along_of_forall (fun _ _ => trivial) s ops)

/-! ### What a marker waits for -/

/-- Later markers wait for no less. -/
theorem State.Ordered.waiting_sorted (h : s.Ordered) :
    (s.marks.map fun m => s.waiting m.1).Pairwise (· ≤ ·) := by
  rw [List.pairwise_map]
  exact h.marks.imp fun hle => older_mono hle s.queue

theorem State.waiting_le (s : State α ν) (t : ℕ) : s.waiting t ≤ s.queue.length :=
  List.countP_le_length

/-- A marker that comes in now waits for everything queued. -/
theorem State.Ordered.waiting_now (h : s.Ordered) : s.waiting s.now = s.queue.length :=
  older_eq_length h.queue_past

/-- Entries that come in behind a marker do not delay it. -/
theorem State.Ordered.waiting_feed (h : s.Ordered) (bs : List α) {m : ℕ × ν} (hm : m ∈ s.marks) :
    (s.step cap limit (.feed bs)).waiting m.1 = s.waiting m.1 := by
  unfold waiting State.step
  dsimp only
  split
  · have hnew : older m.1 (bs.map (s.now, ·)) = 0 := by
      apply older_eq_zero
      intro b hb
      obtain ⟨c, -, rfl⟩ := List.mem_map.mp hb
      exact Nat.le_of_lt (h.marks_past m hm)
    rw [older_append, hnew, Nat.add_zero]
  · rfl

/-- What is taken off the front brings every marker nearer, none below zero. -/
theorem State.Ordered.waiting_take (h : s.Ordered) (n t : ℕ) :
    (s.step cap limit (.take n)).waiting t = s.waiting t - n :=
  older_drop h.queue t n

end Markers
