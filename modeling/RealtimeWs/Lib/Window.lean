import Mathlib.Data.List.Nodup
import Mathlib.Data.List.Range
import Mathlib.Data.Nat.ModEq
import Mathlib.Logic.Function.Basic

/-! Windows of a circular memory: `n` consecutive cells from a head position,
wrapping at the capacity. Memory is a total function of the cell index. -/
namespace Circular

variable {β : Type*}

def window (mem : ℕ → β) (cap head n : ℕ) : List β :=
  (List.range n).map fun i => mem ((head + i) % cap)

/-- Position after one step around the ring. -/
def advance (cap i : ℕ) : ℕ := (i + 1) % cap

/-- Head and tail of an empty ring agree. -/
theorem empty_tail (cap : ℕ) : 0 = (0 + 0) % cap := (Nat.zero_mod cap).symm

@[simp] theorem length_window (mem : ℕ → β) (cap head n : ℕ) :
    (window mem cap head n).length = n := by simp [window]

@[simp] theorem window_zero (mem : ℕ → β) (cap head : ℕ) : window mem cap head 0 = [] := rfl

theorem window_snoc (mem : ℕ → β) (cap head n : ℕ) :
    window mem cap head (n + 1) = window mem cap head n ++ [mem ((head + n) % cap)] := by
  simp [window, List.range_succ]

theorem window_advance (mem : ℕ → β) (cap head n : ℕ) :
    window mem cap (advance cap head) n = window mem cap (head + 1) n := by
  apply List.map_congr_left
  intro i _
  simp [advance, Nat.add_mod]

theorem window_cons (mem : ℕ → β) (cap head n : ℕ) :
    window mem cap head (n + 1) = mem (head % cap) :: window mem cap (advance cap head) n := by
  rw [window_advance]
  simp only [window, List.range_succ_eq_map, List.map_cons, List.map_map, Nat.add_zero]
  congr 1
  apply List.map_congr_left
  intro i _
  simp [Nat.add_assoc, Nat.add_comm 1]

/-- Distinct offsets below the capacity address distinct cells. -/
theorem slot_ne {cap i k : ℕ} (head : ℕ) (hik : i < k) (hk : k < cap) :
    (head + i) % cap ≠ (head + k) % cap := by
  intro h
  have hcap : 0 < cap := by omega
  have hd : cap ∣ (head + k) - (head + i) :=
    (Nat.modEq_iff_dvd' (by omega)).mp h
  have hle := Nat.le_of_dvd (by omega) hd
  omega

theorem advance_slot (cap head i : ℕ) : (advance cap head + i) % cap = (head + (i + 1)) % cap := by
  rw [advance, Nat.mod_add_mod]
  congr 1
  omega

/-- The slots behind the head do not come back to it. -/
theorem advance_slot_ne {cap head i : ℕ} (hh : head < cap) (hi : i + 1 < cap) :
    (advance cap head + i) % cap ≠ head := by
  have h := slot_ne head (Nat.succ_pos i) hi
  rw [Nat.add_zero, Nat.mod_eq_of_lt hh] at h
  rw [advance_slot]
  exact h.symm

/-- Writing the head cell leaves the window behind it unchanged. -/
theorem window_update_head {cap head n : ℕ} (mem : ℕ → β) (b : β) (hh : head < cap)
    (hn : n < cap) :
    window (Function.update mem head b) cap (advance cap head) n =
      window mem cap (advance cap head) n := by
  apply List.map_congr_left
  intro i hi
  have hi := List.mem_range.mp hi
  exact Function.update_of_ne (advance_slot_ne hh (by omega)) _ _

/-- Writing at or beyond the end of a window leaves it unchanged. -/
theorem window_update {cap head n k : ℕ} (mem : ℕ → β) (b : β) (hn : n ≤ k) (hk : k < cap) :
    window (Function.update mem ((head + k) % cap) b) cap head n = window mem cap head n := by
  apply List.map_congr_left
  intro i hi
  have hik : i < k := (List.mem_range.mp hi).trans_le hn
  exact Function.update_of_ne (slot_ne head hik hk) _ _

/-- Writing the cell behind a window and lengthening it appends the value. -/
theorem window_put {cap head n : ℕ} (mem : ℕ → β) (b : β) (hn : n < cap) :
    window (Function.update mem ((head + n) % cap) b) cap head (n + 1) =
      window mem cap head n ++ [b] := by
  rw [window_snoc, window_update mem b le_rfl hn, Function.update_self]

/-- The cells of a window, in its order. -/
def slots (cap head n : ℕ) : List ℕ := (List.range n).map fun i => (head + i) % cap

theorem window_eq_map_slots (mem : ℕ → β) (cap head n : ℕ) :
    window mem cap head n = (slots cap head n).map mem := by
  rw [window, slots, List.map_map]
  rfl

theorem mem_slots {cap head n j : ℕ} :
    j ∈ slots cap head n ↔ ∃ i < n, (head + i) % cap = j := by
  simp [slots]

theorem slots_snoc (cap head n : ℕ) :
    slots cap head (n + 1) = slots cap head n ++ [(head + n) % cap] := by
  simp [slots, List.range_succ]

/-- The head cell, and the window behind it. -/
theorem slots_cons {cap head : ℕ} (hh : head < cap) (n : ℕ) :
    slots cap head (n + 1) = head :: slots cap (advance cap head) n := by
  have hwin := window_cons id cap head n
  rwa [window_eq_map_slots, window_eq_map_slots, List.map_id, List.map_id, id_eq,
    Nat.mod_eq_of_lt hh] at hwin

theorem nodup_slots {cap n : ℕ} (head : ℕ) (hn : n ≤ cap) : (slots cap head n).Nodup := by
  rw [slots, List.nodup_map_iff_inj_on List.nodup_range]
  intro i hi k hk hik
  have hi := List.mem_range.mp hi
  have hk := List.mem_range.mp hk
  rcases lt_trichotomy i k with hlt | heq | hgt
  · exact absurd hik (slot_ne head hlt (by omega))
  · exact heq
  · exact absurd hik.symm (slot_ne head hgt (by omega))

/-- Looking through the whole memory finds what a window holds, when the rest is empty. -/
theorem filterMap_range_perm {cap head n : ℕ} {mem : ℕ → Option β} (hh : head < cap) (hn : n ≤ cap)
    (hrest : ∀ j < cap, j ∉ slots cap head n → mem j = none) :
    ((List.range cap).filterMap mem).Perm ((slots cap head n).filterMap mem) := by
  have hkeep : (List.range cap).filterMap mem =
      ((List.range cap).filter (· ∈ slots cap head n)).filterMap mem := by
    rw [List.filterMap_filter]
    apply List.filterMap_congr
    intro j hj
    by_cases hmem : j ∈ slots cap head n
    · simp [hmem]
    · simp [hmem, hrest j (List.mem_range.mp hj) hmem]
  rw [hkeep]
  apply List.Perm.filterMap
  rw [List.perm_ext_iff_of_nodup (List.nodup_range.filter _) (nodup_slots head hn)]
  intro j
  rw [List.mem_filter, List.mem_range, decide_eq_true_iff]
  constructor
  · exact And.right
  · intro hj
    obtain ⟨i, -, rfl⟩ := mem_slots.mp hj
    exact ⟨Nat.mod_lt _ (by omega), hj⟩

theorem getElem?_window (mem : ℕ → β) (cap head n i : ℕ) (hi : i < n) :
    (window mem cap head n)[i]? = some (mem ((head + i) % cap)) := by
  simp [window, hi]

theorem take_window {cap head k n : ℕ} (mem : ℕ → β) (hk : k ≤ n) :
    (window mem cap head n).take k = window mem cap head k := by
  simp [window, ← List.map_take, List.take_range, Nat.min_eq_left hk]

theorem drop_window {cap head k n : ℕ} (mem : ℕ → β) :
    (window mem cap head n).drop k = window mem cap ((head + k) % cap) (n - k) := by
  apply List.ext_getElem?
  intro i
  rw [List.getElem?_drop]
  by_cases hi : k + i < n
  · rw [getElem?_window _ _ _ _ _ hi, getElem?_window _ _ _ _ _ (by omega), Nat.mod_add_mod,
      Nat.add_assoc]
  · rw [List.getElem?_eq_none (by simpa using hi),
      List.getElem?_eq_none (by rw [length_window]; omega)]

end Circular
