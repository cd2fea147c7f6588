import Mathlib.Data.List.ReduceOption
import RealtimeWs.Core.Queue
import RealtimeWs.Lib.DropOldest

/-! The bounded queue stands for a list that drops its oldest entry, and the memory of its
copies: every copy is an allocation of its own and is released once. -/
namespace RealtimeWs.Core

open Circular BoundedQueue

/-! ### Slots outside the window -/

section tidy

variable {α : Type*}

/-- Every slot outside the live window holds a null pointer. -/
def BoundedQueue.Tidy (q : BoundedQueue α) : Prop :=
  ∀ j, j ∉ slots q.capacity q.head q.size → q.items j = none

/-- `rtw_queue_destroy`: what it frees, slot by slot; `free(NULL)` does nothing. -/
def rtwQueueDestroy (q : BoundedQueue α) : List α := (List.range q.capacity).filterMap q.items

theorem tidy_init {ok : Bool} {cap : ℕ} {q : BoundedQueue α} (h : rtwQueueInit ok cap = some q) :
    q.Tidy := by
  unfold rtwQueueInit at h
  split_ifs at h
  cases h
  exact fun j _ => rfl

variable {q : BoundedQueue α}

theorem BoundedQueue.Tidy.removeHead (h : q.Tidy) (ev : α → Fifo.Event α) (hpos : 0 < q.size) :
    (q.removeHead ev hpos).Tidy := by
  intro j hj
  change Function.update q.items q.head none j = none
  by_cases hhead : j = q.head
  · rw [hhead, Function.update_self]
  · rw [Function.update_of_ne hhead]
    apply h
    intro hmem
    rw [← Nat.sub_add_cancel hpos, slots_cons q.head_lt, List.mem_cons] at hmem
    exact hj (hmem.resolve_left hhead)

theorem BoundedQueue.Tidy.store (h : q.Tidy) (a : α) (hroom : q.size < q.capacity) :
    (q.store a hroom).Tidy := by
  intro j hj
  have hslots : slots (q.store a hroom).capacity (q.store a hroom).head (q.store a hroom).size =
      slots q.capacity q.head q.size ++ [q.tail] := by
    rw [q.tail_eq]
    exact slots_snoc q.capacity q.head q.size
  rw [hslots, List.mem_append, List.mem_singleton, not_or] at hj
  change Function.update q.items q.tail (some a) j = none
  rw [Function.update_of_ne hj.2]
  exact h j hj.1

theorem BoundedQueue.Tidy.makeRoom (h : q.Tidy) : q.makeRoom.1.Tidy := by
  unfold BoundedQueue.makeRoom
  split
  · rename_i hfull
    exact h.removeHead .evict (hfull ▸ (Nat.zero_le _).trans_lt q.head_lt)
  · exact h

theorem BoundedQueue.Tidy.push (h : q.Tidy) (a : α) : (rtwQueuePush true q a).2.Tidy :=
  h.makeRoom.store a q.makeRoom.2

theorem BoundedQueue.Tidy.pop (h : q.Tidy) : (rtwQueuePop q).2.Tidy := by
  unfold rtwQueuePop
  split
  · rename_i hpos
    exact h.removeHead .pop hpos
  · exact h

theorem BoundedQueue.Tidy.dropHead (h : q.Tidy) : (rtwQueueDropHead q).2.Tidy := by
  unfold rtwQueueDropHead
  split
  · rename_i hpos
    exact h.removeHead .drop hpos
  · exact h

/-- Destroying a queue frees what it holds and nothing twice. -/
theorem BoundedQueue.Tidy.destroy (h : q.Tidy) : (rtwQueueDestroy q).Perm q.contents := by
  have hcontents : q.contents = (slots q.capacity q.head q.size).filterMap q.items := by
    rw [contents, window_eq_map_slots, List.reduceOption, List.filterMap_map]
    rfl
  rw [hcontents]
  exact filterMap_range_perm q.head_lt q.size_le fun j _ hj => h j hj

end tidy

/-! ### Copies -/

/-- A copy made by `malloc`: the number of the allocation, and the bytes in front of its NUL. -/
structure Block where
  number : ℕ
  bytes : List UInt8
  deriving DecidableEq

/-- `rtw_queue_push` when its copy can be allocated. -/
def pushCopy (q : BoundedQueue Block) (data : List UInt8) : ℤ × BoundedQueue Block :=
  rtwQueuePush true q ⟨(Fifo.pushes q.history).length, data⟩

def outcome (rc : ℤ) : DropOldest.Reply (List UInt8) := if rc = 0 then .done else .failed

def found : Option Block → DropOldest.Reply (List UInt8)
  | none => .failed
  | some b => .entry b.bytes

/-- The queue as its callers see it. -/
def queue : Machine (BoundedQueue Block) (DropOldest.Op (List UInt8))
    (DropOldest.Reply (List UInt8)) where
  step q
    | .push data => (pushCopy q data).2
    | .pop => (rtwQueuePop q).2
    | .peek => q
    | .dropHead => (rtwQueueDropHead q).2
  out q
    | .push data => [outcome (pushCopy q data).1]
    | .pop => [found (rtwQueuePop q).1]
    | .peek => [found (rtwQueuePeek q)]
    | .dropHead => [outcome (rtwQueueDropHead q).1]

/-- Allocations that were freed by an eviction or a drop, or handed to the caller of a pop. -/
def BoundedQueue.released (q : BoundedQueue Block) : List ℕ :=
  (Fifo.removals q.history).map fun r => r.2.number

/-- The queue holds these entries, after so many evictions and removals. -/
structure Represents (cap : ℕ) (q : BoundedQueue Block) (s : DropOldest.State (List UInt8)) :
    Prop where
  capacity : q.capacity = cap
  entries : q.contents.map Block.bytes = s.entries
  drops : (Fifo.removedBy .evicted q.history).length = s.drops
  taken : (Fifo.removals q.history).length = s.drops + s.taken

/-- The copies are numbered in the order they were made, and none is lost. -/
structure Owned (q : BoundedQueue Block) : Prop where
  lawful : q.Lawful
  tidy : q.Tidy
  enqueued : q.enqueued = UInt64.ofNat (Fifo.pushes q.history).length
  numbers : (Fifo.pushes q.history).map Block.number =
    List.range (Fifo.pushes q.history).length

variable {q : BoundedQueue Block} {cap : ℕ} {s : DropOldest.State (List UInt8)}

theorem Owned.push (h : Owned q) (data : List UInt8) : Owned (pushCopy q data).2 := by
  have hpushes := pushes_push q ⟨(Fifo.pushes q.history).length, data⟩
  constructor
  · exact h.lawful.push _ true
  · exact h.tidy.push _
  · change q.makeRoom.1.enqueued + 1 = _
    rw [pushCopy, hpushes, enqueued_makeRoom, h.enqueued, List.length_append, UInt64.ofNat_add]
    rfl
  · rw [pushCopy, hpushes, List.map_append, h.numbers, List.length_append, List.length_singleton,
      List.range_succ]
    rfl

theorem Owned.pop (h : Owned q) : Owned (rtwQueuePop q).2 := by
  by_cases hpos : 0 < q.size
  · have hlawful := h.lawful.pop
    have heq : (rtwQueuePop q).2 = q.removeHead .pop hpos := by rw [rtwQueuePop, dif_pos hpos]
    have hpushes : Fifo.pushes (q.removeHead .pop hpos).history = Fifo.pushes q.history :=
      pushes_removeHead q (fun _ => rfl) hpos
    rw [heq] at hlawful ⊢
    exact ⟨hlawful, h.tidy.removeHead .pop hpos, hpushes ▸ h.enqueued, hpushes ▸ h.numbers⟩
  · rw [rtwQueuePop, dif_neg hpos]
    exact h

theorem Owned.dropHead (h : Owned q) : Owned (rtwQueueDropHead q).2 := by
  by_cases hpos : 0 < q.size
  · have hlawful := h.lawful.dropHead
    have heq : (rtwQueueDropHead q).2 = q.removeHead .drop hpos := by
      rw [rtwQueueDropHead, dif_pos hpos]
    have hpushes : Fifo.pushes (q.removeHead .drop hpos).history = Fifo.pushes q.history :=
      pushes_removeHead q (fun _ => rfl) hpos
    rw [heq] at hlawful ⊢
    exact ⟨hlawful, h.tidy.removeHead .drop hpos, hpushes ▸ h.enqueued, hpushes ▸ h.numbers⟩
  · rw [rtwQueueDropHead, dif_neg hpos]
    exact h

theorem Owned.step (h : Owned q) (op : DropOldest.Op (List UInt8)) : Owned (queue.step q op) := by
  cases op with
  | push data => exact h.push data
  | pop => exact h.pop
  | peek => exact h
  | dropHead => exact h.dropHead

/-! ### Refinement -/

theorem Represents.push (h : Represents cap q s) (data : List UInt8) :
    Represents cap (pushCopy q data).2 (s.push cap data) := by
  have hcontents : q.evicted ++ (pushCopy q data).2.contents = q.contents ++ [_] :=
    contents_push q ⟨(Fifo.pushes q.history).length, data⟩
  have hhist : (pushCopy q data).2.history = _ :=
    history_push q ⟨(Fifo.pushes q.history).length, data⟩ true
  have hsize : s.entries.length = q.size := by
    rw [← h.entries, List.length_map, length_contents]
  have hpos : 0 < q.capacity := (Nat.zero_le _).trans_lt q.head_lt
  unfold DropOldest.State.push
  by_cases hfull : s.entries.length = cap
  · have hq : q.size = q.capacity := by rw [← hsize, hfull, h.capacity]
    have hlen := q.length_contents
    obtain ⟨b, rest, hb⟩ := List.exists_cons_of_ne_nil
      (List.length_pos_iff.mp (show 0 < q.contents.length by omega))
    have hevicted : q.evicted = [b] := by
      rw [evicted, if_pos hq, hb]
      rfl
    have hentries := h.entries
    rw [hb] at hcontents hentries
    rw [hevicted, List.singleton_append, List.cons_append, List.cons.injEq] at hcontents
    rw [hevicted] at hhist
    rw [if_pos hfull]
    constructor
    · exact (capacity_push q _ true).trans h.capacity
    · rw [hcontents.2, List.map_append, ← hentries]
      rfl
    · rw [hhist, Fifo.removedBy_append, List.length_append, h.drops]
      rfl
    · rw [hhist, Fifo.removals_append, List.length_append, h.taken]
      change s.drops + s.taken + 1 = s.drops + 1 + s.taken
      omega
  · have hevicted : q.evicted = [] := if_neg fun hq => hfull (by rw [hsize, hq, h.capacity])
    rw [hevicted] at hcontents hhist
    rw [if_neg hfull]
    constructor
    · exact (capacity_push q _ true).trans h.capacity
    · rw [List.nil_append] at hcontents
      rw [hcontents, List.map_append, h.entries]
      rfl
    · rw [hhist, Fifo.removedBy_append, List.length_append, h.drops]
      rfl
    · rw [hhist, Fifo.removals_append, List.length_append, h.taken]
      rfl

/-- Taking the oldest entry, by a pop or by a drop. -/
theorem Represents.remove (h : Represents cap q s) {ev : Block → Fifo.Event Block}
    (hev : ev = .pop ∨ ev = .drop) (hpos : 0 < q.size) :
    ∃ b, q.items q.head = some b ∧ s.oldest = .entry b.bytes ∧
      Represents cap (q.removeHead ev hpos) s.remove := by
  obtain ⟨b, hb, hcontents, hhist⟩ := q.removeHead_spec ev hpos
  have hentries := h.entries
  rw [hcontents, List.map_cons] at hentries
  refine ⟨b, hb, ?_, ?_⟩
  · rw [DropOldest.State.oldest, ← hentries]
  · rw [DropOldest.State.remove, ← hentries]
    constructor
    · exact h.capacity
    · rfl
    · rw [hhist, Fifo.removedBy_append, List.length_append, h.drops]
      rcases hev with rfl | rfl <;> rfl
    · rw [hhist, Fifo.removals_append, List.length_append, h.taken]
      rcases hev with rfl | rfl <;> rfl

theorem Represents.nothing (h : Represents cap q s) (hzero : ¬ 0 < q.size) : s.entries = [] := by
  rw [← h.entries, q.contents_eq_nil_iff.mpr (by omega)]
  rfl

/-- Every operation does on the queue what it does on the list, and answers alike. -/
theorem Represents.step (h : Represents cap q s) (op : DropOldest.Op (List UInt8)) :
    Represents cap (queue.step q op) ((DropOldest.machine cap).step s op) ∧
      queue.out q op = (DropOldest.machine cap).out s op := by
  cases op with
  | push data => exact ⟨h.push data, rfl⟩
  | pop =>
    by_cases hpos : 0 < q.size
    · obtain ⟨b, hb, hold, hnext⟩ := h.remove (Or.inl rfl) hpos
      have heq : rtwQueuePop q = (some b, q.removeHead .pop hpos) := by
        rw [rtwQueuePop, dif_pos hpos, hb]
      simp only [queue, DropOldest.machine, heq, hold]
      exact ⟨hnext, rfl⟩
    · have heq : rtwQueuePop q = (none, q) := by rw [rtwQueuePop, dif_neg hpos]
      have hnil := h.nothing hpos
      simp only [queue, DropOldest.machine, heq, DropOldest.State.oldest, DropOldest.State.remove,
        hnil]
      exact ⟨h, rfl⟩
  | peek =>
    refine ⟨h, ?_⟩
    by_cases hpos : 0 < q.size
    · obtain ⟨b, hb, hold, -⟩ := h.remove (Or.inl (Eq.refl Fifo.Event.pop)) hpos
      simp only [queue, DropOldest.machine, rtwQueuePeek, if_pos hpos, hb, hold]
      rfl
    · have hnil := h.nothing hpos
      simp only [queue, DropOldest.machine, rtwQueuePeek, if_neg hpos, DropOldest.State.oldest, hnil]
      rfl
  | dropHead =>
    by_cases hpos : 0 < q.size
    · obtain ⟨b, hb, hold, hnext⟩ := h.remove (Or.inr (Eq.refl Fifo.Event.drop)) hpos
      have heq : rtwQueueDropHead q = (0, q.removeHead .drop hpos) := by
        rw [rtwQueueDropHead, dif_pos hpos]
      have hne : s.entries ≠ [] := by
        intro hnil
        rw [DropOldest.State.oldest, hnil] at hold
        cases hold
      simp only [queue, DropOldest.machine, heq, if_neg hne]
      exact ⟨hnext, rfl⟩
    · have heq : rtwQueueDropHead q = (-1, q) := by rw [rtwQueueDropHead, dif_neg hpos]
      have hnil := h.nothing hpos
      simp only [queue, DropOldest.machine, heq, DropOldest.State.remove, hnil]
      exact ⟨h, rfl⟩

theorem Represents.run (h : Represents cap q s) (ops : List (DropOldest.Op (List UInt8))) :
    Represents cap (queue.run q ops) ((DropOldest.machine cap).run s ops) ∧
      queue.outputs q ops = (DropOldest.machine cap).outputs s ops := by
  induction ops generalizing q s with
  | nil => exact ⟨h, rfl⟩
  | cons op ops ih =>
    obtain ⟨hnext, hout⟩ := h.step op
    obtain ⟨hrun, houts⟩ := ih hnext
    rw [Machine.outputs_cons, Machine.outputs_cons, hout, houts]
    exact ⟨hrun, rfl⟩

theorem Owned.run (h : Owned q) (ops : List (DropOldest.Op (List UInt8))) :
    Owned (queue.run q ops) :=
  queue.invariant (P := fun _ _ => True) (fun _ op _ h => h.step op) h
    (queue.along_of_forall (fun _ _ => trivial) q ops)

/-- The queue `q` after `ops` and the list `s` it stands for: the live window holds the entries
and all other slots are null, the counters count, and every allocation made is released once,
the rest of them by destroying the queue. -/
structure StandsFor (cap : ℕ) (ops : List (DropOldest.Op (List UInt8))) (q : BoundedQueue Block)
    (s : DropOldest.State (List UInt8)) : Prop where
  entries : ∃ blocks : List Block, window q.items cap q.head q.size = blocks.map some ∧
    blocks.map Block.bytes = s.entries
  bounded : s.entries.length ≤ cap
  size : q.size = s.entries.length
  tail : q.tail = (q.head + q.size) % cap
  null : ∀ j, j ∉ slots cap q.head q.size → q.items j = none
  drops : q.drops = UInt64.ofNat s.drops
  enqueued : q.enqueued = q.drops + UInt64.ofNat s.taken + UInt64.ofNat q.size
  counted : DropOldest.pushed ops = s.drops + s.taken + s.entries.length
  released : (q.released ++ (rtwQueueDestroy q).map Block.number).Perm
    (List.range (DropOldest.pushed ops))

theorem Represents.standsFor {ops : List (DropOldest.Op (List UInt8))}
    (h : Represents cap q s) (ho : Owned q) (hs : DropOldest.Sound cap (DropOldest.pushed ops) s) :
    StandsFor cap ops q s := by
  have hsize : q.size = s.entries.length := by
    rw [← h.entries, List.length_map, length_contents]
  have hpushes : (Fifo.pushes q.history).length = DropOldest.pushed ops := by
    have hall := congrArg List.length ho.lawful.conserved
    rw [List.length_append, List.length_map, h.taken, length_contents, hsize] at hall
    rw [hall, hs.counted]
  have hdrops : q.drops = UInt64.ofNat s.drops := by
    rw [ho.lawful.drops_eq, h.drops]
  have hnumbers : q.released ++ q.contents.map Block.number =
      List.range (DropOldest.pushed ops) := by
    rw [← hpushes, ← ho.numbers, ho.lawful.conserved, List.map_append, List.map_map]
    rfl
  constructor
  · refine ⟨q.contents, ?_, h.entries⟩
    rw [q.map_some_contents, h.capacity]
  · exact hs.within
  · exact hsize
  · rw [← h.capacity]
    exact q.tail_eq
  · rw [← h.capacity]
    exact ho.tidy
  · exact hdrops
  · rw [ho.enqueued, hdrops, hsize, ← UInt64.ofNat_add, ← UInt64.ofNat_add, hpushes, hs.counted]
  · exact hs.counted
  · rw [← hnumbers]
    exact (ho.tidy.destroy.map Block.number).append_left _

/-- After every sequence of operations the queue stands for a list that drops its oldest
entry, and it has answered as that list does. -/
theorem queue_refines {ok : Bool} {q₀ : BoundedQueue Block} (h : rtwQueueInit ok cap = some q₀)
    (ops : List (DropOldest.Op (List UInt8))) :
    StandsFor cap ops (queue.run q₀ ops) ((DropOldest.machine cap).run .empty ops) ∧
      queue.outputs q₀ ops = (DropOldest.machine cap).outputs .empty ops := by
  obtain ⟨hcap, hcontents, hhist, -⟩ := rtwQueueInit_spec h
  have hstart : Represents cap q₀ .empty := by
    refine ⟨hcap, ?_, ?_, ?_⟩
    · rw [hcontents]
      rfl
    · rw [hhist]
      rfl
    · rw [hhist]
      rfl
  have howned : Owned q₀ := by
    refine ⟨lawful_init h, tidy_init h, ?_, ?_⟩
    · rw [hhist]
      unfold rtwQueueInit at h
      split_ifs at h
      cases h
      rfl
    · rw [hhist]
      rfl
  have hpos : 0 < cap := hcap ▸ (Nat.zero_le _).trans_lt q₀.head_lt
  obtain ⟨hrun, houts⟩ := hstart.run ops
  exact ⟨hrun.standsFor (howned.run ops) (DropOldest.sound_run hpos ops), houts⟩

/-- Three pushes into two slots, of which the first is evicted and the second popped. -/
def threePushes : List (DropOldest.Op (List UInt8)) :=
  [.push [97], .push [98, 0, 98], .push [99], .peek, .pop, .dropHead, .pop]

theorem twoSlots_starts : (rtwQueueInit (α := Block) true 2).isSome := rfl

theorem queue_refines_threePushes :
    queue.outputs ((rtwQueueInit true 2).get twoSlots_starts) threePushes =
      [.done, .done, .done, .entry [98, 0, 98], .entry [98, 0, 98], .done, .failed] :=
  (queue_refines (Option.some_get twoSlots_starts).symm threePushes).2.trans rfl

end RealtimeWs.Core
