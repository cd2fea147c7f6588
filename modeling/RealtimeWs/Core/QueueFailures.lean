import Mathlib.Algebra.Order.Group.Nat
import RealtimeWs.Core.Queue
import RealtimeWs.Lib.Machine

/-! The outbound queue when allocations fail: what a push that returns -1 leaves behind, over
whole runs of calls and every schedule of failures. -/
namespace RealtimeWs.Core

open BoundedQueue

variable {α : Type*}

/-- `rtw_queue_push` with a pointer that may be NULL. -/
def rtwQueuePushData (mallocOk : Bool) (q : BoundedQueue α) (data : Option α) :
    ℤ × BoundedQueue α :=
  match data with
  | none => (-1, q)
  | some a => rtwQueuePush mallocOk q a

/-- A call, a push with what its `malloc` does. A consumer takes entries by `pop` or, after a
peek, by `dropHead`. -/
inductive QueueCall (α : Type*)
  | push (mallocOk : Bool) (data : Option α)
  | pop
  | peek
  | dropHead

/-- The queue under its calls; the outputs are what the pushes return. -/
def queueCalls : Machine (BoundedQueue α) (QueueCall α) ℤ where
  step q
    | .push mallocOk data => (rtwQueuePushData mallocOk q data).2
    | .pop => (rtwQueuePop q).2
    | .peek => q
    | .dropHead => (rtwQueueDropHead q).2
  out q
    | .push mallocOk data => [(rtwQueuePushData mallocOk q data).1]
    | _ => []

/-- Equal slots, positions and counters. -/
structure SameQueue (q r : BoundedQueue α) : Prop where
  items : q.items = r.items
  capacity : q.capacity = r.capacity
  head : q.head = r.head
  tail : q.tail = r.tail
  size : q.size = r.size
  drops : q.drops = r.drops
  enqueued : q.enqueued = r.enqueued

/-- A push that returns -1 changes nothing. -/
def FailureKeeps (q : BoundedQueue α) (call : QueueCall α) : Prop :=
  -1 ∈ queueCalls.out q call → SameQueue q (queueCalls.step q call)

/-- A push onto a full queue gets its memory. -/
def FullAllocates (q : BoundedQueue α) (call : QueueCall α) : Prop :=
  ∀ mallocOk a, call = .push mallocOk (some a) → q.size = q.capacity → mallocOk = true

/-- Whatever was evicted made room for the push behind it. -/
def EvictionsReplaced (history : List (Fifo.Event α)) : Prop :=
  ∀ older a newer, history = older ++ .evict a :: newer →
    ∃ b rest, newer = .push b :: rest

/-- As long as `enqueued` has not wrapped. -/
def DropsBelowEnqueued (q : BoundedQueue α) : Prop :=
  (Fifo.pushes q.history).length < 2 ^ 64 → 0 < q.drops →
    q.drops.toNat + q.capacity ≤ q.enqueued.toNat

/-! ### One push -/

theorem makeRoom_of_lt {q : BoundedQueue α} (h : q.size ≠ q.capacity) : q.makeRoom.1 = q := by
  rw [makeRoom, dif_neg h]

theorem size_makeRoom_of_full {q : BoundedQueue α} (h : q.size = q.capacity) :
    q.makeRoom.1.size = q.size - 1 := by
  rw [makeRoom, dif_pos h]
  rfl

/-- A failed push onto a full queue has lost an entry, any other changes nothing. -/
theorem failureKeeps_iff (q : BoundedQueue α) (call : QueueCall α) :
    FailureKeeps q call ↔ FullAllocates q call := by
  unfold FailureKeeps FullAllocates
  cases call with
  | pop => exact iff_of_true nofun nofun
  | peek => exact iff_of_true nofun nofun
  | dropHead => exact iff_of_true nofun nofun
  | push mallocOk data =>
    cases data with
    | none =>
      have hkeep : SameQueue q q := ⟨rfl, rfl, rfl, rfl, rfl, rfl, rfl⟩
      exact iff_of_true (fun _ => hkeep) nofun
    | some a =>
      cases mallocOk with
      | true =>
        apply iff_of_true
        · intro hrc
          have hneg : (-1 : ℤ) = 0 := List.mem_singleton.mp hrc
          exact absurd hneg (by decide)
        · rintro _ _ ⟨⟩ -
          rfl
      | false =>
        constructor
        · rintro hkeep _ _ ⟨⟩ hfull
          have hsize : q.size = q.makeRoom.1.size := (hkeep (List.mem_singleton.mpr rfl)).size
          have hpos := q.head_lt
          rw [size_makeRoom_of_full hfull] at hsize
          omega
        · intro hroom _
          have hne : q.size ≠ q.capacity := fun hfull =>
            Bool.false_ne_true (hroom false a rfl hfull)
          have hrefused : ∀ r, r = q →
              SameQueue q { r with history := r.history ++ [Fifo.Event.refuse a] } := by
            rintro _ rfl
            exact ⟨rfl, rfl, rfl, rfl, rfl, rfl, rfl⟩
          exact hrefused _ (makeRoom_of_lt hne)

/-! ### Whole runs -/

/-- What the histories and the counters keep while no full queue is refused memory. -/
structure Replaced (q : BoundedQueue α) : Prop where
  lawful : q.Lawful
  enqueued : q.enqueued = UInt64.ofNat (Fifo.pushes q.history).length
  replaced : EvictionsReplaced q.history
  below : 0 < (Fifo.removedBy .evicted q.history).length →
    (Fifo.removedBy .evicted q.history).length + q.capacity ≤ (Fifo.pushes q.history).length

theorem evictionsReplaced_append {h : List (Fifo.Event α)} (hh : EvictionsReplaced h)
    {ev : Fifo.Event α} (hev : ∀ a, ev ≠ .evict a) : EvictionsReplaced (h ++ [ev]) := by
  intro older a newer heq
  rcases List.eq_nil_or_concat newer with rfl | ⟨newer, last, rfl⟩
  · have hlast : ev = .evict a := by
      have hinj := List.append_inj_right' heq rfl
      exact (List.cons.inj hinj).1
    exact absurd hlast (hev a)
  · rw [List.concat_eq_append, ← List.cons_append, ← List.append_assoc] at heq
    obtain ⟨hfront, -⟩ := List.append_inj' heq rfl
    obtain ⟨b, rest, hb⟩ := hh older a newer hfront
    refine ⟨b, rest ++ [last], ?_⟩
    rw [List.concat_eq_append, hb, List.cons_append]

theorem evictionsReplaced_evict {h : List (Fifo.Event α)} (hh : EvictionsReplaced h) (a b : α) :
    EvictionsReplaced (h ++ [.evict a] ++ [.push b]) := by
  intro older x newer heq
  rcases List.eq_nil_or_concat newer with rfl | ⟨newer, last, rfl⟩
  · have hlast := (List.cons.inj (List.append_inj_right' heq rfl)).1
    cases hlast
  · rw [List.concat_eq_append, ← List.cons_append, ← List.append_assoc] at heq
    obtain ⟨hfront, hpush⟩ := List.append_inj' heq rfl
    have hpush : last = .push b := (List.cons.inj hpush).1.symm
    rcases List.eq_nil_or_concat newer with rfl | ⟨newer, middle, rfl⟩
    · exact ⟨b, [], by rw [hpush]; rfl⟩
    · rw [List.concat_eq_append, ← List.cons_append, ← List.append_assoc] at hfront
      obtain ⟨holder, -⟩ := List.append_inj' hfront rfl
      obtain ⟨c, rest, hc⟩ := hh older x newer holder
      refine ⟨c, rest ++ [middle] ++ [last], ?_⟩
      rw [List.concat_eq_append, List.concat_eq_append, hc, List.cons_append, List.cons_append]

theorem replaced_init {ok : Bool} {cap : ℕ} {q : BoundedQueue α}
    (h : rtwQueueInit ok cap = some q) : Replaced q := by
  obtain ⟨-, -, hhist, -⟩ := rtwQueueInit_spec h
  have henqueued : q.enqueued = 0 := by
    unfold rtwQueueInit at h
    split_ifs at h
    cases h
    rfl
  constructor
  · exact lawful_init h
  · rw [henqueued, hhist]
    rfl
  · rw [hhist]
    intro older a newer heq
    exact absurd heq (by simp)
  · rw [hhist]
    exact fun hpos => absurd hpos (Nat.lt_irrefl 0)

theorem Replaced.pushStored {q : BoundedQueue α} (h : Replaced q) (a : α) :
    Replaced (rtwQueuePush true q a).2 := by
  have hhist := history_push q a true
  have hevicted : Fifo.removedBy .evicted (rtwQueuePush true q a).2.history =
      Fifo.removedBy .evicted q.history ++ q.evicted := by
    rw [hhist, Fifo.removedBy_append, Fifo.removedBy_append, Fifo.removedBy_evicts, if_pos rfl]
    exact congrArg _ (List.append_nil _)
  have hbelow := h.below
  constructor
  · exact h.lawful.push a true
  · change q.makeRoom.1.enqueued + 1 = _
    rw [pushes_push, enqueued_makeRoom, h.enqueued, List.length_append, UInt64.ofNat_add]
    rfl
  · rw [hhist, ← List.append_assoc]
    by_cases hfull : q.size = q.capacity
    · obtain ⟨b, hb⟩ : ∃ b, q.evicted = [b] := by
        have hpos : 0 < q.contents.length := by
          rw [length_contents, hfull]
          exact (Nat.zero_le _).trans_lt q.head_lt
        obtain ⟨b, rest, hcontents⟩ := List.exists_cons_of_length_pos hpos
        exact ⟨b, by rw [evicted, if_pos hfull, hcontents, List.take_succ_cons, List.take_zero]⟩
      rw [hb]
      exact evictionsReplaced_evict h.replaced b a
    · rw [evicted, if_neg hfull, List.map_nil, List.append_nil]
      apply evictionsReplaced_append h.replaced
      intro b heq
      cases heq
  · rw [hevicted, pushes_push, capacity_push, List.length_append, List.length_append,
      List.length_singleton]
    intro hpos
    by_cases hfull : q.size = q.capacity
    · -- all that was ever pushed has left, or fills the queue
      have hall := congrArg List.length h.lawful.conserved
      have hone : q.evicted.length ≤ 1 := by
        rw [evicted, if_pos hfull]
        exact List.length_take_le 1 _
      have hfilter : (Fifo.removedBy .evicted q.history).length ≤
          (Fifo.removals q.history).length := by
        rw [Fifo.removedBy, List.length_map]
        exact List.length_filter_le _ _
      rw [List.length_append, List.length_map, length_contents, hfull] at hall
      omega
    · have hnone : q.evicted.length = 0 := by rw [evicted, if_neg hfull, List.length_nil]
      omega

/-- An event that neither stores nor evicts. -/
theorem Replaced.event {q r : BoundedQueue α} (h : Replaced q) {ev : Fifo.Event α}
    (hhist : r.history = q.history ++ [ev]) (hpushed : ev.pushed? = none)
    (hev : ∀ a, ev ≠ .evict a) (hlawful : r.Lawful) (hcap : r.capacity = q.capacity)
    (henqueued : r.enqueued = q.enqueued) : Replaced r := by
  have hpushes : Fifo.pushes r.history = Fifo.pushes q.history := by
    have hnone : Fifo.pushes [ev] = [] := List.filterMap_cons_none hpushed
    rw [hhist, Fifo.pushes_append, hnone, List.append_nil]
  have hevicted : Fifo.removedBy .evicted r.history = Fifo.removedBy .evicted q.history := by
    rw [hhist, Fifo.removedBy_append]
    cases ev with
    | evict a => exact absurd rfl (hev a)
    | _ => exact List.append_nil _
  constructor
  · exact hlawful
  · rw [hpushes, henqueued]
    exact h.enqueued
  · rw [hhist]
    exact evictionsReplaced_append h.replaced hev
  · rw [hevicted, hpushes, hcap]
    exact h.below

theorem Replaced.step {q : BoundedQueue α} {call : QueueCall α} (hcall : FullAllocates q call)
    (h : Replaced q) : Replaced (queueCalls.step q call) := by
  cases call with
  | peek => exact h
  | pop =>
    change Replaced (rtwQueuePop q).2
    rcases rtwQueuePop_spec q with ⟨-, heq⟩ | ⟨a, -, -, hhist, -, hcap⟩
    · rw [heq]
      exact h
    · have hkind : ∀ b, Fifo.Event.pop a ≠ .evict b := by
        intro b heq
        cases heq
      apply h.event hhist rfl hkind h.lawful.pop hcap
      unfold rtwQueuePop
      split <;> rfl
  | dropHead =>
    change Replaced (rtwQueueDropHead q).2
    rcases rtwQueueDropHead_spec q with ⟨-, heq⟩ | ⟨a, -, -, hhist, -, hcap⟩
    · rw [heq]
      exact h
    · have hkind : ∀ b, Fifo.Event.drop a ≠ .evict b := by
        intro b heq
        cases heq
      apply h.event hhist rfl hkind h.lawful.dropHead hcap
      unfold rtwQueueDropHead
      split <;> rfl
  | push mallocOk data =>
    cases data with
    | none => exact h
    | some a =>
      cases mallocOk with
      | true => exact h.pushStored a
      | false =>
        have hroom : q.size ≠ q.capacity := fun hfull =>
          Bool.false_ne_true (hcall false a rfl hfull)
        have hhist := history_push q a false
        rw [evicted, if_neg hroom] at hhist
        have hlawful := h.lawful.push a false
        have hkind : ∀ b, Fifo.Event.refuse a ≠ .evict b := by
          intro b heq
          cases heq
        exact h.event hhist rfl hkind hlawful (capacity_push q a false) (enqueued_makeRoom q)

theorem Replaced.dropsBelowEnqueued {q : BoundedQueue α} (h : Replaced q) :
    DropsBelowEnqueued q := by
  intro hfew hdrops
  have hbelow := h.below
  have hle : (Fifo.removedBy .evicted q.history).length < 2 ^ 64 := by
    have hall := congrArg List.length h.lawful.conserved
    have hfilter : (Fifo.removedBy .evicted q.history).length ≤
        (Fifo.removals q.history).length := by
      rw [Fifo.removedBy, List.length_map]
      exact List.length_filter_le _ _
    rw [List.length_append, List.length_map] at hall
    omega
  rw [h.lawful.drops_eq, UInt64.lt_iff_toNat_lt] at hdrops
  rw [h.lawful.drops_eq, h.enqueued]
  rw [UInt64.toNat_ofNat_of_lt' hle] at hdrops ⊢
  rw [UInt64.toNat_ofNat_of_lt' hfew]
  exact hbelow hdrops

variable {ok : Bool} {cap : ℕ} {q₀ : BoundedQueue α}

/-- Over a run every failed push keeps the queue, every eviction is replaced and the counters
agree if and only if no push onto a full queue is refused its memory. -/
theorem failed_pushes_keep_iff (h : rtwQueueInit ok cap = some q₀) (calls : List (QueueCall α)) :
    (queueCalls.Along FailureKeeps q₀ calls ∧ ∀ k,
      EvictionsReplaced (queueCalls.run q₀ (calls.take k)).history ∧
        DropsBelowEnqueued (queueCalls.run q₀ (calls.take k))) ↔
      queueCalls.Along FullAllocates q₀ calls := by
  have hsame : FailureKeeps (α := α) = FullAllocates := by
    funext q call
    exact propext (failureKeeps_iff q call)
  rw [hsame]
  constructor
  · exact fun hrun => hrun.1
  · intro hrun
    refine ⟨hrun, ?_⟩
    intro k
    have hstart := replaced_init h
    rw [← List.take_append_drop k calls, Machine.along_append] at hrun
    have hk := queueCalls.invariant (J := Replaced) (fun _ _ => Replaced.step) hstart hrun.1
    exact ⟨hk.replaced, hk.dropsBelowEnqueued⟩

/-- The queue after `rtw_queue_init` with room for one message. -/
def oneSlot : BoundedQueue (List UInt8) where
  items := fun _ => none
  capacity := 1
  head := 0
  tail := 0
  size := 0
  drops := 0
  enqueued := 0
  history := []
  head_lt := Nat.one_pos
  size_le := Nat.zero_le 1
  tail_eq := Circular.empty_tail 1
  stored := fun _ hi => absurd hi (Nat.not_lt_zero _)

theorem oneSlot_init : rtwQueueInit true 1 = some oneSlot := rfl

/-- A failure while there is room, then an eviction. -/
def roomyCalls : List (QueueCall (List UInt8)) :=
  [.push false (some [65]), .push true (some [66]), .push true (some [67])]

theorem failed_pushes_keep_roomy : queueCalls.Along FailureKeeps oneSlot roomyCalls := by
  apply ((failed_pushes_keep_iff oneSlot_init roomyCalls).mpr _).1
  refine ⟨?_, ?_, ?_, trivial⟩
  · intro _ _ _ hfull
    exact absurd hfull (by decide)
  · rintro _ _ ⟨⟩ -
    rfl
  · rintro _ _ ⟨⟩ -
    rfl

/-- A push that fails on a full queue has thrown the queued message away. -/
theorem failed_push_loses :
    let q := queueCalls.step oneSlot (.push true (some [65]))
    (rtwQueuePushData false q (some [66])).1 = -1 ∧
      ¬ SameQueue q (rtwQueuePushData false q (some [66])).2 ∧
      q.contents = [[65]] ∧ (rtwQueuePushData false q (some [66])).2.contents = [] ∧
      (rtwQueuePushData false q (some [66])).2.drops = 1 ∧
      (rtwQueuePushData false q (some [66])).2.enqueued = 1 := by
  refine ⟨rfl, ?_, rfl, rfl, rfl, rfl⟩
  intro hsame
  exact absurd hsame.size (by decide)

end RealtimeWs.Core
