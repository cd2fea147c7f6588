import Mathlib.Algebra.GroupWithZero.Nat
import RealtimeWs.Lib.Machine

/-! A bounded list that drops its oldest entry when a new one finds it full: what a queue
with that policy is for. -/
namespace DropOldest

variable {α : Type*}

inductive Op (α : Type*)
  | push (a : α)
  | pop
  | peek
  | dropHead
  deriving DecidableEq, Repr

/-- Answer to an operation: it was done, it found nothing, or this entry. -/
inductive Reply (α : Type*)
  | done
  | failed
  | entry (a : α)
  deriving DecidableEq, Repr

/-- The entries, oldest first, and how many were evicted and taken so far. -/
@[ext] structure State (α : Type*) where
  entries : List α
  drops : ℕ
  taken : ℕ
  deriving DecidableEq, Repr

def State.empty : State α := ⟨[], 0, 0⟩

def State.push (cap : ℕ) (s : State α) (a : α) : State α :=
  if s.entries.length = cap then ⟨s.entries.tail ++ [a], s.drops + 1, s.taken⟩
  else ⟨s.entries ++ [a], s.drops, s.taken⟩

/-- Removes the oldest entry, if there is one. -/
def State.remove (s : State α) : State α :=
  match s.entries with
  | [] => s
  | _ :: rest => ⟨rest, s.drops, s.taken + 1⟩

def State.oldest (s : State α) : Reply α :=
  match s.entries with
  | [] => .failed
  | a :: _ => .entry a

def machine (cap : ℕ) : Machine (State α) (Op α) (Reply α) where
  step s
    | .push a => s.push cap a
    | .pop | .dropHead => s.remove
    | .peek => s
  out s
    | .push _ => [.done]
    | .pop | .peek => [s.oldest]
    | .dropHead => [if s.entries = [] then .failed else .done]

def Op.pushed : Op α → ℕ
  | .push _ => 1
  | _ => 0

/-- Entries pushed by a run. -/
def pushed (ops : List (Op α)) : ℕ := (ops.map Op.pushed).sum

/-- Within the capacity, and every entry of `n` pushes is somewhere. -/
structure Sound (cap n : ℕ) (s : State α) : Prop where
  within : s.entries.length ≤ cap
  counted : n = s.drops + s.taken + s.entries.length

theorem Sound.push {cap n : ℕ} {s : State α} (hcap : 0 < cap) (h : Sound cap n s) (a : α) :
    Sound cap (n + 1) (s.push cap a) := by
  obtain ⟨hwithin, hcounted⟩ := h
  unfold State.push
  by_cases hfull : s.entries.length = cap
  · rw [if_pos hfull]
    constructor <;> simp only [List.length_append, List.length_tail, List.length_singleton] <;> omega
  · rw [if_neg hfull]
    constructor <;> simp only [List.length_append, List.length_singleton] <;> omega

theorem Sound.remove {cap n : ℕ} {s : State α} (h : Sound cap n s) : Sound cap n s.remove := by
  obtain ⟨hwithin, hcounted⟩ := h
  unfold State.remove
  cases hs : s.entries with
  | nil => exact ⟨by omega, hcounted⟩
  | cons a rest =>
    rw [hs, List.length_cons] at hwithin hcounted
    constructor
    · change rest.length ≤ cap
      omega
    · change n = s.drops + (s.taken + 1) + rest.length
      omega

theorem Sound.step {cap n : ℕ} {s : State α} (hcap : 0 < cap) (h : Sound cap n s) (op : Op α) :
    Sound cap (n + op.pushed) ((machine cap).step s op) := by
  cases op with
  | push a => exact h.push hcap a
  | pop => exact h.remove
  | peek => exact h
  | dropHead => exact h.remove

/-- The list stays within its capacity, and nothing is lost or duplicated. -/
theorem sound_run {cap : ℕ} (hcap : 0 < cap) (ops : List (Op α)) :
    Sound cap (pushed ops) ((machine cap).run State.empty ops) := by
  have hrun : ∀ (n : ℕ) (s : State α), Sound cap n s →
      Sound cap (n + pushed ops) ((machine cap).run s ops) := by
    induction ops with
    | nil => exact fun n s h => h
    | cons op ops ih =>
      intro n s h
      have hnext := ih (n + op.pushed) _ (h.step hcap op)
      rw [pushed, List.map_cons, List.sum_cons, ← Nat.add_assoc]
      exact hnext
  have hall := hrun 0 State.empty ⟨Nat.zero_le _, rfl⟩
  rwa [Nat.zero_add] at hall

end DropOldest
