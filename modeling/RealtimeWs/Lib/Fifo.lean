import Mathlib.Data.List.Basic

/-! Histories of a bounded first-in first-out queue that drops its oldest entry
when full. A history is conserved when the entries ever pushed are the entries
removed so far followed by the entries still queued. -/
namespace Fifo

variable {α : Type*}

/-- One event in the life of a queue. A refused entry was offered and not stored. -/
inductive Event (α : Type*)
  | push (a : α)
  | refuse (a : α)
  | evict (a : α)
  | pop (a : α)
  | drop (a : α)
  deriving DecidableEq, Repr

/-- How an entry left the queue. -/
inductive Fate
  | evicted
  | popped
  | dropped
  deriving DecidableEq, Repr

def Event.pushed? : Event α → Option α
  | .push a => some a
  | _ => none

/-- The entry of an offer, stored or not. -/
def Event.offered? : Event α → Option α
  | .push a | .refuse a => some a
  | _ => none

def Event.removed? : Event α → Option (Fate × α)
  | .evict a => some (.evicted, a)
  | .pop a => some (.popped, a)
  | .drop a => some (.dropped, a)
  | _ => none

def pushes (h : List (Event α)) : List α := h.filterMap Event.pushed?

def offers (h : List (Event α)) : List α := h.filterMap Event.offered?

def removals (h : List (Event α)) : List (Fate × α) := h.filterMap Event.removed?

/-- The entries that left the queue in one given way, oldest first. -/
def removedBy (f : Fate) (h : List (Event α)) : List α :=
  ((removals h).filter fun r => r.1 = f).map Prod.snd

@[simp] theorem pushes_append (h k : List (Event α)) :
    pushes (h ++ k) = pushes h ++ pushes k := List.filterMap_append

@[simp] theorem offers_append (h k : List (Event α)) :
    offers (h ++ k) = offers h ++ offers k := List.filterMap_append

@[simp] theorem removals_append (h k : List (Event α)) :
    removals (h ++ k) = removals h ++ removals k := List.filterMap_append

@[simp] theorem removedBy_append (f : Fate) (h k : List (Event α)) :
    removedBy f (h ++ k) = removedBy f h ++ removedBy f k := by simp [removedBy]

@[simp] theorem pushes_nil : pushes ([] : List (Event α)) = [] := rfl
@[simp] theorem pushes_push (a : α) (h) : pushes (.push a :: h) = a :: pushes h := rfl
@[simp] theorem pushes_refuse (a : α) (h) : pushes (.refuse a :: h) = pushes h := rfl
@[simp] theorem pushes_evict (a : α) (h) : pushes (.evict a :: h) = pushes h := rfl
@[simp] theorem pushes_pop (a : α) (h) : pushes (.pop a :: h) = pushes h := rfl
@[simp] theorem pushes_drop (a : α) (h) : pushes (.drop a :: h) = pushes h := rfl

@[simp] theorem offers_nil : offers ([] : List (Event α)) = [] := rfl
@[simp] theorem offers_push (a : α) (h) : offers (.push a :: h) = a :: offers h := rfl
@[simp] theorem offers_refuse (a : α) (h) : offers (.refuse a :: h) = a :: offers h := rfl
@[simp] theorem offers_evict (a : α) (h) : offers (.evict a :: h) = offers h := rfl
@[simp] theorem offers_pop (a : α) (h) : offers (.pop a :: h) = offers h := rfl
@[simp] theorem offers_drop (a : α) (h) : offers (.drop a :: h) = offers h := rfl

@[simp] theorem removals_nil : removals ([] : List (Event α)) = [] := rfl
@[simp] theorem removals_push (a : α) (h) : removals (.push a :: h) = removals h := rfl
@[simp] theorem removals_refuse (a : α) (h) : removals (.refuse a :: h) = removals h := rfl
@[simp] theorem removals_evict (a : α) (h) :
    removals (.evict a :: h) = (.evicted, a) :: removals h := rfl
@[simp] theorem removals_pop (a : α) (h) :
    removals (.pop a :: h) = (.popped, a) :: removals h := rfl
@[simp] theorem removals_drop (a : α) (h) :
    removals (.drop a :: h) = (.dropped, a) :: removals h := rfl

@[simp] theorem pushes_evicts (as : List α) : pushes (as.map .evict) = [] := by
  induction as with
  | nil => rfl
  | cons a as ih => exact ih

@[simp] theorem offers_evicts (as : List α) : offers (as.map .evict) = [] := by
  induction as with
  | nil => rfl
  | cons a as ih => exact ih

@[simp] theorem removals_evicts (as : List α) :
    removals (as.map .evict) = as.map (Fate.evicted, ·) := by
  induction as with
  | nil => rfl
  | cons a as ih => exact congrArg _ ih

@[simp] theorem removedBy_evicts (f : Fate) (as : List α) :
    removedBy f (as.map .evict) = if f = .evicted then as else [] := by
  rw [removedBy, removals_evicts]
  split
  · rename_i h
    rw [h, List.filter_eq_self.mpr (by simp), List.map_map]
    exact List.map_id as
  · rename_i h
    rw [List.filter_eq_nil_iff.mpr (by simp [Ne.symm h]), List.map_nil]

@[simp] theorem offers_drops (as : List α) : offers (as.map .drop) = [] := by
  induction as with
  | nil => rfl
  | cons a as ih => exact ih

@[simp] theorem pushes_drops (as : List α) : pushes (as.map .drop) = [] := by
  induction as with
  | nil => rfl
  | cons a as ih => exact ih

@[simp] theorem removals_drops (as : List α) :
    removals (as.map .drop) = as.map (Fate.dropped, ·) := by
  induction as with
  | nil => rfl
  | cons a as ih => exact congrArg _ ih

@[simp] theorem removedBy_drops (f : Fate) (as : List α) :
    removedBy f (as.map .drop) = if f = .dropped then as else [] := by
  rw [removedBy, removals_drops]
  split
  · rename_i h
    rw [h, List.filter_eq_self.mpr (by simp), List.map_map]
    exact List.map_id as
  · rename_i h
    rw [List.filter_eq_nil_iff.mpr (by simp [Ne.symm h]), List.map_nil]

/-- Everything pushed either left the queue, in order, or is still in it. -/
def Conserved (h : List (Event α)) (contents : List α) : Prop :=
  pushes h = (removals h).map Prod.snd ++ contents

theorem Conserved.push {h : List (Event α)} {c : List α} (hc : Conserved h c) (a : α) :
    Conserved (h ++ [.push a]) (c ++ [a]) := by
  unfold Conserved at *
  simp [hc]

theorem Conserved.refuse {h : List (Event α)} {c : List α} (hc : Conserved h c) (a : α) :
    Conserved (h ++ [.refuse a]) c := by
  unfold Conserved at *
  simp [hc]

theorem Conserved.evicts {h : List (Event α)} {as c : List α}
    (hc : Conserved h (as ++ c)) : Conserved (h ++ as.map .evict) c := by
  unfold Conserved at *
  simp [hc, Function.comp_def]

theorem Conserved.drops {h : List (Event α)} {as c : List α}
    (hc : Conserved h (as ++ c)) : Conserved (h ++ as.map .drop) c := by
  unfold Conserved at *
  simp [hc, Function.comp_def]

theorem Conserved.pop {h : List (Event α)} {a : α} {c : List α}
    (hc : Conserved h (a :: c)) : Conserved (h ++ [.pop a]) c := by
  unfold Conserved at *
  simp [hc]

theorem Conserved.drop {h : List (Event α)} {a : α} {c : List α}
    (hc : Conserved h (a :: c)) : Conserved (h ++ [.drop a]) c := by
  unfold Conserved at *
  simp [hc]

/-- The pushed entries are a sublist of the offered ones. -/
theorem pushes_sublist_offers (h : List (Event α)) : (pushes h).Sublist (offers h) := by
  induction h with
  | nil => exact .slnil
  | cons e h ih =>
    cases e with
    | push a => exact ih.cons_cons a
    | refuse a => exact ih.cons a
    | evict a => exact ih
    | pop a => exact ih
    | drop a => exact ih

/-- Entries leaving one way are a sublist of the pushed ones. -/
theorem Conserved.removedBy_sublist {h : List (Event α)} {c : List α} (hc : Conserved h c)
    (f : Fate) : (removedBy f h).Sublist (pushes h) := by
  rw [hc]
  exact (List.filter_sublist.map _).trans (List.sublist_append_left _ _)

end Fifo
