import RealtimeWs.Core.QueueRefines
import RealtimeWs.Core.Session
import RealtimeWs.Lib.Ledger

/-! The memory of the queue and of the messages that go into it. The functions bear the
source's names in the namespace `Mem`; they take and free what the source takes and frees,
with the outcomes the functions of the same names meet. -/
namespace RealtimeWs.Core

open Ledger

inductive Resource
  | block | tree | file | addrinfo | socket | sslCtx | ssl | mutex | thread
  deriving DecidableEq, Repr

abbrev Pointer := Handle Resource

abbrev Heap (α : Type) := StateM (Ledger Resource) α

theorem eq_none_of_isSome {α β : Type*} {o : Option α}
    (h : (none : Option β).isSome = o.isSome) : o = none :=
  Option.not_isSome_iff_eq_none.mp (h ▸ Bool.false_ne_true)

/-! ### The queue -/

/-- The array of a queue and, in its slots, the copies. -/
structure QueueMem where
  items : Pointer
  slots : BoundedQueue Pointer
  tidy : slots.Tidy

def QueueMem.owned (m : QueueMem) : Multiset Pointer := {m.items} + (m.slots.contents : Multiset _)

/-- As full as the queue of messages `q`, with as many slots. -/
structure QueueMem.Mirrors (m : QueueMem) (q : BoundedQueue OutMsg) : Prop where
  size : m.slots.size = q.size
  capacity : m.slots.capacity = q.capacity

private theorem queueInit_isSome {α : Type*} {capacity : ℕ} (h : 0 < capacity) :
    (rtwQueueInit (α := α) true capacity).isSome := by
  unfold rtwQueueInit
  rw [dif_pos h]
  rfl

/-- An array of null pointers. -/
def freeSlots (capacity : ℕ) (h : 0 < capacity) : { q : BoundedQueue Pointer // q.Tidy } :=
  ⟨(rtwQueueInit true capacity).get (queueInit_isSome h), tidy_init (Option.some_get _).symm⟩

theorem freeSlots_spec {capacity : ℕ} (h : 0 < capacity) :
    (freeSlots capacity h).1.capacity = capacity ∧ (freeSlots capacity h).1.contents = [] := by
  obtain ⟨hcap, hnil, -, -⟩ := rtwQueueInit_spec (Option.some_get (queueInit_isSome h)).symm
  exact ⟨hcap, hnil⟩

/-- The copy in the head slot. -/
def QueueMem.headCopy (m : QueueMem) : Option Pointer := m.slots.items m.slots.head

namespace Mem

def rtwQueueInit (callocOk : Bool) (capacity : ℕ) : Heap (Option QueueMem) :=
  if h : 0 < capacity then do
    match ← acquire callocOk .block with
    | none => return none
    | some items => return some ⟨items, (freeSlots capacity h).1, (freeSlots capacity h).2⟩
  else return none

def rtwQueueDestroy (m : QueueMem) : Heap Unit := do
  use m.items
  releaseAll (Core.rtwQueueDestroy m.slots)
  release m.items

def rtwQueuePush (mallocOk : Bool) (m : QueueMem) : Heap (ℤ × QueueMem) := do
  use m.items
  release? (if m.slots.size = m.slots.capacity then m.headCopy else none)
  match ← acquire mallocOk .block with
  | none => return (-1, ⟨m.items, m.slots.makeRoom.1, m.tidy.makeRoom⟩)
  | some copy => return (0, ⟨m.items, (Core.rtwQueuePush true m.slots copy).2, m.tidy.push copy⟩)

def rtwQueuePeek (m : QueueMem) : Heap (Option Pointer) := do
  use m.items
  return Core.rtwQueuePeek m.slots

def rtwQueueDropHead (m : QueueMem) : Heap (ℤ × QueueMem) :=
  if 0 < m.slots.size then do
    use m.items
    release? m.headCopy
    return (0, ⟨m.items, (Core.rtwQueueDropHead m.slots).2, m.tidy.dropHead⟩)
  else return (-1, m)

end Mem

variable {L : Pointer → Prop}

theorem items_mem_owned (m : QueueMem) : m.items ∈ m.owned :=
  Multiset.mem_add.mpr (Or.inl (Multiset.mem_singleton_self _))

theorem rtwQueueInit_accounts (ok : Bool) (capacity : ℕ) :
    Accounts L 0 (Mem.rtwQueueInit ok capacity)
      (fun r => r.isSome = (rtwQueueInit (α := OutMsg) ok capacity).isSome ∧
        ∀ m ∈ r, m.slots.size = 0 ∧ m.slots.capacity = capacity)
      (fun r => r.elim 0 QueueMem.owned) := by
  unfold Mem.rtwQueueInit rtwQueueInit
  by_cases h : 0 < capacity
  · rw [dif_pos h, dif_pos h]
    obtain ⟨hcap, hnil⟩ := freeSlots_spec h
    refine Accounts.acquire_bind (fun hno => ?_) fun hyes items => ?_
    · rw [hno]
      exact Accounts.pure ⟨rfl, by simp⟩ rfl
    · rw [hyes]
      refine Accounts.pure ⟨rfl, ?_⟩ ?_
      · rintro m ⟨⟩
        exact ⟨(BoundedQueue.contents_eq_nil_iff _).mp hnil, hcap⟩
      · change {items} + ((freeSlots capacity h).1.contents : Multiset Pointer) = _
        rw [hnil]
        rfl
  · rw [dif_neg h, dif_neg h]
    exact Accounts.pure ⟨rfl, by simp⟩ rfl

theorem rtwQueueDestroy_accounts (m : QueueMem) :
    Accounts L m.owned (Mem.rtwQueueDestroy m) (fun _ => True) (fun _ => 0) := by
  have hall : (m.slots.contents : Multiset Pointer) = (rtwQueueDestroy m.slots : List Pointer) :=
    Multiset.coe_eq_coe.mpr m.tidy.destroy.symm
  unfold Mem.rtwQueueDestroy
  refine Accounts.use_bind (items_mem_owned m) ?_
  refine Accounts.releaseAll_bind (R := {m.items}) ?_ (Accounts.release m.items)
  rw [QueueMem.owned, hall, add_comm]

/-- The head slot of a queue that is not empty holds its oldest copy. -/
theorem headCopy_cons {m : QueueMem} (h : 0 < m.slots.size) :
    held m.headCopy + ((rtwQueueDropHead m.slots).2.contents : Multiset Pointer) =
      (m.slots.contents : Multiset Pointer) := by
  obtain ⟨a, ha, hcons, -⟩ := m.slots.removeHead_spec .drop h
  rw [QueueMem.headCopy, ha, held_some, rtwQueueDropHead, dif_pos h, hcons, ← Multiset.cons_coe,
    Multiset.singleton_add]

theorem evicted_eq (m : QueueMem) :
    held (if m.slots.size = m.slots.capacity then m.headCopy else none) =
      (m.slots.evicted : Multiset Pointer) := by
  unfold BoundedQueue.evicted
  by_cases hfull : m.slots.size = m.slots.capacity
  · have hpos : 0 < m.slots.size := hfull ▸ (Nat.zero_le _).trans_lt m.slots.head_lt
    obtain ⟨a, ha, hcons, -⟩ := m.slots.removeHead_spec .drop hpos
    rw [if_pos hfull, if_pos hfull, QueueMem.headCopy, ha, hcons]
    rfl
  · rw [if_neg hfull, if_neg hfull]
    rfl

theorem size_makeRoom {α : Type*} (q : BoundedQueue α) :
    q.makeRoom.1.size = if q.size = q.capacity then q.size - 1 else q.size := by
  unfold BoundedQueue.makeRoom
  by_cases hfull : q.size = q.capacity
  · rw [dif_pos hfull, if_pos hfull]
    rfl
  · rw [dif_neg hfull, if_neg hfull]

theorem size_push {α : Type*} (ok : Bool) (q : BoundedQueue α) (a : α) :
    (rtwQueuePush ok q a).2.size = q.makeRoom.1.size + if ok then 1 else 0 := by
  cases ok <;> rfl

theorem size_dropHead {α : Type*} (q : BoundedQueue α) :
    (rtwQueueDropHead q).2.size = q.size - 1 := by
  unfold rtwQueueDropHead
  split
  · rfl
  · simp only
    omega

theorem capacity_dropHead {α : Type*} (q : BoundedQueue α) :
    (rtwQueueDropHead q).2.capacity = q.capacity := by
  unfold rtwQueueDropHead
  split <;> rfl

variable {m : QueueMem} {q : BoundedQueue OutMsg}

/-- A push frees the copy it evicts and owns the one it makes. -/
theorem rtwQueuePush_accounts (h : m.Mirrors q) (ok : Bool) (a : OutMsg) :
    Accounts L m.owned (Mem.rtwQueuePush ok m)
      (fun r => r.1 = (rtwQueuePush ok q a).1 ∧ r.2.Mirrors (rtwQueuePush ok q a).2)
      (fun r => r.2.owned) := by
  have hroom : m.slots.makeRoom.1.size = q.makeRoom.1.size := by
    rw [size_makeRoom, size_makeRoom, h.size, h.capacity]
  have hcontents : (m.slots.contents : Multiset Pointer) =
      (m.slots.evicted : Multiset Pointer) + (m.slots.makeRoom.1.contents : Multiset Pointer) := by
    rw [m.slots.contents_makeRoom]
    rfl
  unfold Mem.rtwQueuePush
  refine Accounts.use_bind (items_mem_owned m) ?_
  refine Accounts.release?_bind (R := {m.items} + (m.slots.makeRoom.1.contents : Multiset _)) ?_ ?_
  · rw [evicted_eq, QueueMem.owned, hcontents]
    abel
  refine Accounts.acquire_bind (fun hno => ?_) fun hyes copy => ?_
  · rw [hno]
    refine Accounts.pure ⟨rfl, hroom, ?_⟩ rfl
    rw [capacity_push]
    exact m.slots.capacity_makeRoom.trans h.capacity
  · rw [hyes]
    refine Accounts.pure ⟨rfl, ?_, ?_⟩ ?_
    · simp only [size_push, hroom]
    · rw [capacity_push, capacity_push, h.capacity]
    · have hstored : (rtwQueuePush true m.slots copy).2.contents =
          m.slots.makeRoom.1.contents ++ [copy] := BoundedQueue.contents_store _ _ _
      rw [QueueMem.owned, hstored, ← Multiset.coe_add, Multiset.coe_singleton]
      abel

theorem rtwQueueDropHead_accounts (h : m.Mirrors q) :
    Accounts L m.owned (Mem.rtwQueueDropHead m)
      (fun r => r.1 = (rtwQueueDropHead q).1 ∧ r.2.Mirrors (rtwQueueDropHead q).2)
      (fun r => r.2.owned) := by
  unfold Mem.rtwQueueDropHead
  by_cases hpos : 0 < m.slots.size
  · rw [if_pos hpos]
    refine Accounts.use_bind (items_mem_owned m) ?_
    refine Accounts.release?_bind
      (R := {m.items} + ((rtwQueueDropHead m.slots).2.contents : Multiset _)) ?_ ?_
    · rw [QueueMem.owned, ← headCopy_cons hpos]
      abel
    · have hpos' : 0 < q.size := h.size ▸ hpos
      refine Accounts.pure ⟨?_, ?_, ?_⟩ rfl
      · change 0 = (rtwQueueDropHead q).1
        rw [rtwQueueDropHead, dif_pos hpos']
      · simp only [size_dropHead, h.size]
      · simp only [capacity_dropHead, h.capacity]
  · have hsame : rtwQueueDropHead q = (-1, q) := by
      rw [rtwQueueDropHead, dif_neg (h.size ▸ hpos)]
    rw [if_neg hpos, hsame]
    exact Accounts.pure ⟨rfl, h⟩ rfl

/-- A peek shows a copy the queue owns, if there is a message. -/
theorem rtwQueuePeek_accounts (h : m.Mirrors q) :
    Accounts L m.owned (Mem.rtwQueuePeek m)
      (fun r => r.isSome = (rtwQueuePeek q).isSome ∧ ∀ p ∈ r, p ∈ m.owned)
      (fun _ => m.owned) := by
  unfold Mem.rtwQueuePeek
  refine Accounts.use_bind (items_mem_owned m) (Accounts.pure ⟨?_, ?_⟩ rfl)
  · have hlen : m.slots.contents.length = q.contents.length := by
      rw [m.slots.length_contents, q.length_contents, h.size]
    rw [rtwQueuePeek_eq_head?, rtwQueuePeek_eq_head?, Bool.eq_iff_iff, List.isSome_head?,
      List.isSome_head?, ← List.length_pos_iff, ← List.length_pos_iff, hlen]
  · intro p hp
    rw [rtwQueuePeek_eq_head?] at hp
    exact Multiset.mem_add.mpr (Or.inr (Multiset.mem_coe.mpr (List.mem_of_mem_head? hp)))

end RealtimeWs.Core
