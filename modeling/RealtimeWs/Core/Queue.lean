import RealtimeWs.Lib.Fifo
import RealtimeWs.Lib.Window

/-! The bounded outbound queue. An entry stands for the copied text of an item,
`none` for a freed slot. `history` is a ghost field: every operation appends what
it did to it and none reads it. -/
namespace RealtimeWs.Core

open Circular

structure BoundedQueue (α : Type*) where
  items : ℕ → Option α
  capacity : ℕ
  head : ℕ
  tail : ℕ
  size : ℕ
  drops : UInt64
  enqueued : UInt64
  history : List (Fifo.Event α)
  head_lt : head < capacity
  size_le : size ≤ capacity
  tail_eq : tail = (head + size) % capacity
  stored : ∀ i < size, (items ((head + i) % capacity)).isSome

variable {α : Type*}

/-- The queued entries, oldest first. -/
def BoundedQueue.contents (q : BoundedQueue α) : List α :=
  (window q.items q.capacity q.head q.size).reduceOption

def rtwQueueInit (callocOk : Bool) (capacity : ℕ) : Option (BoundedQueue α) :=
  if h : 0 < capacity then
    if callocOk then some {
      items := fun _ => none
      capacity := capacity
      head := 0
      tail := 0
      size := 0
      drops := 0
      enqueued := 0
      history := []
      head_lt := h
      size_le := Nat.zero_le _
      tail_eq := empty_tail _
      stored := fun _ hi => absurd hi (Nat.not_lt_zero _) }
    else none
  else none

private theorem removeHead_tail {cap head size tail : ℕ} (hs : 0 < size)
    (ht : tail = (head + size) % cap) : tail = (advance cap head + (size - 1)) % cap := by
  rw [ht, advance_slot, Nat.sub_add_cancel hs]

private theorem removeHead_stored {items : ℕ → Option α} {cap head size : ℕ}
    (hh : head < cap) (hc : size ≤ cap) (hs : ∀ i < size, (items ((head + i) % cap)).isSome) :
    ∀ i < size - 1,
      (Function.update items head none ((advance cap head + i) % cap)).isSome := by
  intro i hi
  rw [Function.update_of_ne (advance_slot_ne hh (by omega)), advance_slot]
  exact hs (i + 1) (by omega)

/-- Frees the head slot and advances over it; `ev` is what the history records. -/
def BoundedQueue.removeHead (q : BoundedQueue α) (ev : α → Fifo.Event α) (h : 0 < q.size) :
    BoundedQueue α :=
  { q with
    items := Function.update q.items q.head none
    head := advance q.capacity q.head
    size := q.size - 1
    history := q.history ++ (q.items q.head).toList.map ev
    head_lt := Nat.mod_lt _ ((Nat.zero_le _).trans_lt q.head_lt)
    size_le := (Nat.sub_le _ _).trans q.size_le
    tail_eq := removeHead_tail h q.tail_eq
    stored := removeHead_stored q.head_lt q.size_le q.stored }

/-- Drop-oldest: afterwards there is room for one more entry. -/
def BoundedQueue.makeRoom (q : BoundedQueue α) : { r : BoundedQueue α // r.size < r.capacity } :=
  if h : q.size = q.capacity then
    have hpos : 0 < q.size := h ▸ (Nat.zero_le _).trans_lt q.head_lt
    ⟨{ q.removeHead .evict hpos with drops := q.drops + 1 },
      show q.size - 1 < q.capacity by omega⟩
  else ⟨q, lt_of_le_of_ne q.size_le h⟩

private theorem store_stored {items : ℕ → Option α} {cap head size tail : ℕ} (a : α)
    (ht : tail = (head + size) % cap) (hs : ∀ i < size, (items ((head + i) % cap)).isSome)
    (hc : size < cap) :
    ∀ i < size + 1, (Function.update items tail (some a) ((head + i) % cap)).isSome := by
  intro i hi
  rcases Nat.lt_succ_iff_lt_or_eq.mp hi with hi | rfl
  · rw [ht, Function.update_of_ne (slot_ne head hi hc)]
    exact hs i hi
  · rw [ht, Function.update_self]
    rfl

/-- Writes the tail slot and advances over it. -/
def BoundedQueue.store (q : BoundedQueue α) (a : α) (h : q.size < q.capacity) :
    BoundedQueue α :=
  { q with
    items := Function.update q.items q.tail (some a)
    tail := advance q.capacity q.tail
    size := q.size + 1
    enqueued := q.enqueued + 1
    history := q.history ++ [.push a]
    size_le := h
    tail_eq := by rw [advance, q.tail_eq, Nat.mod_add_mod, Nat.add_assoc]
    stored := store_stored a q.tail_eq q.stored h }

/-- The oldest entry is dropped before the copy is allocated, so it is lost also
when the allocation fails. -/
def rtwQueuePush (mallocOk : Bool) (q : BoundedQueue α) (a : α) : ℤ × BoundedQueue α :=
  if mallocOk then (0, q.makeRoom.1.store a q.makeRoom.2)
  else (-1, { q.makeRoom.1 with history := q.makeRoom.1.history ++ [.refuse a] })

/-- `none` is the return value `-1`. -/
def rtwQueuePop (q : BoundedQueue α) : Option α × BoundedQueue α :=
  if h : 0 < q.size then (q.items q.head, q.removeHead .pop h) else (none, q)

def rtwQueuePeek (q : BoundedQueue α) : Option α :=
  if 0 < q.size then q.items q.head else none

def rtwQueueDropHead (q : BoundedQueue α) : ℤ × BoundedQueue α :=
  if h : 0 < q.size then (0, q.removeHead .drop h) else (-1, q)

def rtwQueueSize (q : BoundedQueue α) : ℕ := q.size

namespace BoundedQueue

private theorem map_some_reduceOption {l : List (Option α)} (h : ∀ o ∈ l, o.isSome) :
    l.reduceOption.map some = l := by
  induction l with
  | nil => rfl
  | cons o l ih =>
    obtain ⟨a, rfl⟩ := Option.isSome_iff_exists.mp (h o (by simp))
    have hl : (l.filterMap id).map some = l := ih fun o ho => h o (by simp [ho])
    change some a :: (l.filterMap id).map some = some a :: l
    rw [hl]

/-- No slot of the window is free, so nothing is lost in reading the entries. -/
theorem map_some_contents (q : BoundedQueue α) :
    q.contents.map some = window q.items q.capacity q.head q.size := by
  refine map_some_reduceOption fun o ho => ?_
  obtain ⟨i, hi, rfl⟩ := List.mem_map.mp ho
  exact q.stored i (List.mem_range.mp hi)

theorem contents_eq_iff (q : BoundedQueue α) (l : List α) :
    q.contents = l ↔ window q.items q.capacity q.head q.size = l.map some := by
  rw [← map_some_contents, (List.map_injective_iff.mpr (Option.some_injective α)).eq_iff]

@[simp] theorem length_contents (q : BoundedQueue α) : q.contents.length = q.size := by
  have h := congrArg List.length q.map_some_contents
  rwa [List.length_map, length_window] at h

theorem contents_eq_nil_iff (q : BoundedQueue α) : q.contents = [] ↔ q.size = 0 := by
  rw [← List.length_eq_zero_iff, length_contents]

theorem length_contents_le (q : BoundedQueue α) : q.contents.length ≤ q.capacity :=
  q.length_contents.le.trans q.size_le

/-- The head slot is the oldest entry, and removing it leaves the others. -/
theorem removeHead_spec (q : BoundedQueue α) (ev : α → Fifo.Event α) (h : 0 < q.size) :
    ∃ a, q.items q.head = some a ∧ q.contents = a :: (q.removeHead ev h).contents ∧
      (q.removeHead ev h).history = q.history ++ [ev a] := by
  obtain ⟨a, ha⟩ := Option.isSome_iff_exists.mp (q.stored 0 h)
  rw [Nat.add_zero, Nat.mod_eq_of_lt q.head_lt] at ha
  refine ⟨a, ha, ?_, by simp [removeHead, ha]⟩
  have hn : q.size - 1 < q.capacity := by have := q.size_le; omega
  have hrest : (q.removeHead ev h).contents.map some =
      window q.items q.capacity (advance q.capacity q.head) (q.size - 1) :=
    (map_some_contents _).trans (window_update_head q.items none q.head_lt hn)
  rw [contents_eq_iff, List.map_cons, hrest, ← ha]
  conv_lhs => rw [← Nat.sub_add_cancel h, window_cons, Nat.mod_eq_of_lt q.head_lt]

@[simp] theorem removeHead_capacity (q : BoundedQueue α) (ev : α → Fifo.Event α)
    (h : 0 < q.size) : (q.removeHead ev h).capacity = q.capacity := rfl

@[simp] theorem removeHead_drops (q : BoundedQueue α) (ev : α → Fifo.Event α)
    (h : 0 < q.size) : (q.removeHead ev h).drops = q.drops := rfl

theorem contents_store (q : BoundedQueue α) (a : α) (h : q.size < q.capacity) :
    (q.store a h).contents = q.contents ++ [a] := by
  rw [contents_eq_iff, List.map_append, map_some_contents]
  simp only [store, q.tail_eq, window_put _ _ h, List.map_cons, List.map_nil]

/-- What drop-oldest removes to make room. -/
def evicted (q : BoundedQueue α) : List α :=
  if q.size = q.capacity then q.contents.take 1 else []

theorem evicted_of_lt {q : BoundedQueue α} (h : q.size < q.capacity) : q.evicted = [] :=
  if_neg h.ne

private theorem makeRoom_full (q : BoundedQueue α) (h : q.size = q.capacity) :
    ∃ a, q.evicted = [a] ∧ q.contents = a :: q.makeRoom.1.contents ∧
      q.makeRoom.1.history = q.history ++ [.evict a] ∧ q.makeRoom.1.drops = q.drops + 1 := by
  have hpos : 0 < q.size := h ▸ (Nat.zero_le _).trans_lt q.head_lt
  obtain ⟨a, -, hc, hh⟩ := q.removeHead_spec .evict hpos
  have hroom : q.makeRoom.1 = { q.removeHead .evict hpos with drops := q.drops + 1 } := by
    rw [makeRoom, dif_pos h]
  refine ⟨a, by rw [evicted, if_pos h, hc, List.take_succ_cons, List.take_zero], ?_, ?_, ?_⟩
  · rw [hroom]; exact hc
  · rw [hroom]; exact hh
  · rw [hroom]

private theorem makeRoom_eq_self {q : BoundedQueue α} (h : q.size ≠ q.capacity) :
    q.makeRoom.1 = q := by rw [makeRoom, dif_neg h]

theorem contents_makeRoom (q : BoundedQueue α) :
    q.contents = q.evicted ++ q.makeRoom.1.contents := by
  by_cases h : q.size = q.capacity
  · obtain ⟨a, he, hc, -⟩ := q.makeRoom_full h
    rw [he, hc, List.singleton_append]
  · rw [makeRoom_eq_self h, evicted, if_neg h, List.nil_append]

theorem history_makeRoom (q : BoundedQueue α) :
    q.makeRoom.1.history = q.history ++ q.evicted.map .evict := by
  by_cases h : q.size = q.capacity
  · obtain ⟨a, he, -, hh, -⟩ := q.makeRoom_full h
    rw [he, hh, List.map_singleton]
  · rw [makeRoom_eq_self h, evicted, if_neg h, List.map_nil, List.append_nil]

theorem drops_makeRoom (q : BoundedQueue α) :
    q.makeRoom.1.drops = q.drops + UInt64.ofNat q.evicted.length := by
  by_cases h : q.size = q.capacity
  · obtain ⟨a, he, -, -, hd⟩ := q.makeRoom_full h
    rw [he, hd, List.length_singleton]
    rfl
  · rw [makeRoom_eq_self h, evicted, if_neg h, List.length_nil]
    exact (UInt64.add_zero _).symm

@[simp] theorem capacity_makeRoom (q : BoundedQueue α) :
    q.makeRoom.1.capacity = q.capacity := by
  unfold makeRoom
  split <;> rfl

@[simp] theorem enqueued_makeRoom (q : BoundedQueue α) :
    q.makeRoom.1.enqueued = q.enqueued := by
  unfold makeRoom
  split <;> rfl

end BoundedQueue

open BoundedQueue

/-! ### What the operations do to the entries -/

variable (q : BoundedQueue α) (a : α)

theorem rtwQueueInit_spec {ok : Bool} {cap : ℕ} {q : BoundedQueue α}
    (h : rtwQueueInit ok cap = some q) :
    q.capacity = cap ∧ q.contents = [] ∧ q.history = [] ∧ q.drops = 0 := by
  unfold rtwQueueInit at h
  split_ifs at h
  cases h
  exact ⟨rfl, rfl, rfl, rfl⟩

@[simp] theorem capacity_push (ok : Bool) : (rtwQueuePush ok q a).2.capacity = q.capacity := by
  cases ok <;> exact q.capacity_makeRoom

theorem contents_push :
    q.evicted ++ (rtwQueuePush true q a).2.contents = q.contents ++ [a] := by
  rw [q.contents_makeRoom, List.append_assoc]
  exact congrArg _ (contents_store _ _ _)

theorem contents_push_failed :
    q.evicted ++ (rtwQueuePush false q a).2.contents = q.contents := q.contents_makeRoom.symm

theorem history_push (ok : Bool) : (rtwQueuePush ok q a).2.history =
    q.history ++ (q.evicted.map .evict ++ [if ok then .push a else .refuse a]) := by
  rw [← List.append_assoc, ← q.history_makeRoom]
  cases ok <;> rfl

theorem pushes_push :
    Fifo.pushes (rtwQueuePush true q a).2.history = Fifo.pushes q.history ++ [a] := by
  rw [history_push, Fifo.pushes_append, Fifo.pushes_append, Fifo.pushes_evicts]
  rfl

theorem pushes_removeHead {ev : α → Fifo.Event α} (hev : ∀ a, (ev a).pushed? = none)
    (hpos : 0 < q.size) : Fifo.pushes (q.removeHead ev hpos).history = Fifo.pushes q.history := by
  obtain ⟨a, -, -, hhist⟩ := q.removeHead_spec ev hpos
  have hnone : Fifo.pushes [ev a] = [] := List.filterMap_cons_none (hev a)
  rw [hhist, Fifo.pushes_append, hnone, List.append_nil]

theorem drops_push (ok : Bool) : (rtwQueuePush ok q a).2.drops =
    q.drops + UInt64.ofNat q.evicted.length := by
  rw [← q.drops_makeRoom]
  cases ok <;> rfl

/-- Popping takes the oldest entry, if there is one. -/
theorem rtwQueuePop_spec :
    (q.contents = [] ∧ rtwQueuePop q = (none, q)) ∨
      ∃ b, (rtwQueuePop q).1 = some b ∧ q.contents = b :: (rtwQueuePop q).2.contents ∧
        (rtwQueuePop q).2.history = q.history ++ [.pop b] ∧
        (rtwQueuePop q).2.drops = q.drops ∧ (rtwQueuePop q).2.capacity = q.capacity := by
  by_cases h : 0 < q.size
  · obtain ⟨b, hb, hc, hh⟩ := q.removeHead_spec .pop h
    rw [rtwQueuePop, dif_pos h]
    exact Or.inr ⟨b, hb, hc, hh, rfl, rfl⟩
  · rw [rtwQueuePop, dif_neg h]
    exact Or.inl ⟨q.contents_eq_nil_iff.mpr (by omega), rfl⟩

theorem rtwQueueDropHead_spec :
    (q.contents = [] ∧ rtwQueueDropHead q = (-1, q)) ∨
      ∃ b, (rtwQueueDropHead q).1 = 0 ∧ q.contents = b :: (rtwQueueDropHead q).2.contents ∧
        (rtwQueueDropHead q).2.history = q.history ++ [.drop b] ∧
        (rtwQueueDropHead q).2.drops = q.drops ∧
        (rtwQueueDropHead q).2.capacity = q.capacity := by
  by_cases h : 0 < q.size
  · obtain ⟨b, -, hc, hh⟩ := q.removeHead_spec .drop h
    rw [rtwQueueDropHead, dif_pos h]
    exact Or.inr ⟨b, rfl, hc, hh, rfl, rfl⟩
  · rw [rtwQueueDropHead, dif_neg h]
    exact Or.inl ⟨q.contents_eq_nil_iff.mpr (by omega), rfl⟩

/-- Peeking shows the oldest entry. -/
theorem rtwQueuePeek_eq_head? : rtwQueuePeek q = q.contents.head? := by
  by_cases h : 0 < q.size
  · obtain ⟨b, hb, hc, -⟩ := q.removeHead_spec .drop h
    rw [rtwQueuePeek, if_pos h, hb, hc, List.head?_cons]
  · rw [rtwQueuePeek, if_neg h, q.contents_eq_nil_iff.mpr (by omega), List.head?_nil]

/-! ### Conservation -/

/-- What was pushed is what left, in order, then what is queued; `drops` counts evictions. -/
structure BoundedQueue.Lawful (q : BoundedQueue α) : Prop where
  conserved : Fifo.Conserved q.history q.contents
  drops_eq : q.drops = UInt64.ofNat (Fifo.removedBy .evicted q.history).length

variable {q}

theorem lawful_init {ok : Bool} {cap : ℕ} (h : rtwQueueInit ok cap = some q) : q.Lawful := by
  obtain ⟨-, hc, hh, hd⟩ := rtwQueueInit_spec h
  exact ⟨by rw [hc, hh]; rfl, by rw [hd, hh]; rfl⟩

theorem BoundedQueue.Lawful.push (h : q.Lawful) (ok : Bool) :
    (rtwQueuePush ok q a).2.Lawful := by
  have hroom : Fifo.Conserved (q.history ++ q.evicted.map .evict) q.makeRoom.1.contents :=
    Fifo.Conserved.evicts (q.contents_makeRoom ▸ h.conserved)
  constructor
  · rw [history_push, ← List.append_assoc]
    cases ok with
    | true =>
      have hc : (rtwQueuePush true q a).2.contents = q.makeRoom.1.contents ++ [a] :=
        contents_store _ _ _
      rw [hc]
      exact hroom.push a
    | false => exact hroom.refuse a
  · rw [drops_push, h.drops_eq, history_push, Fifo.removedBy_append, List.length_append,
      ← UInt64.ofNat_add]
    congr 2
    rw [Fifo.removedBy_append, Fifo.removedBy_evicts, if_pos rfl, List.length_append]
    cases ok <;> rfl

theorem BoundedQueue.Lawful.pop (h : q.Lawful) : (rtwQueuePop q).2.Lawful := by
  rcases rtwQueuePop_spec q with ⟨-, he⟩ | ⟨b, -, hc, hh, hd, -⟩
  · rw [he]
    exact h
  · refine ⟨?_, ?_⟩
    · rw [hh]
      exact (hc ▸ h.conserved).pop
    · rw [hd, hh, h.drops_eq, Fifo.removedBy_append]
      simp [Fifo.removedBy]

theorem BoundedQueue.Lawful.dropHead (h : q.Lawful) : (rtwQueueDropHead q).2.Lawful := by
  rcases rtwQueueDropHead_spec q with ⟨-, he⟩ | ⟨b, -, hc, hh, hd, -⟩
  · rw [he]
    exact h
  · refine ⟨?_, ?_⟩
    · rw [hh]
      exact (hc ▸ h.conserved).drop
    · rw [hd, hh, h.drops_eq, Fifo.removedBy_append]
      simp [Fifo.removedBy]

end RealtimeWs.Core
