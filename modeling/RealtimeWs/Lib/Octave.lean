import Mathlib.Algebra.Ring.Nat
import Mathlib.Data.Nat.Log

/-! Rounding to the midpoint of a step, with steps that double from octave to octave:
the arithmetic of logarithmic companding. -/
namespace Octave

/-- Size of the steps in the octave of `v`, with `2 ^ k` steps in every octave. -/
def step (k v : ℕ) : ℕ := 2 ^ (Nat.log 2 v - k)

/-- The midpoint of the step that holds `v`. -/
def midpoint (k v : ℕ) : ℕ := v / step k v * step k v + step k v / 2

variable {k v w : ℕ}

theorem step_pos (k v : ℕ) : 0 < step k v := Nat.two_pow_pos _

/-- A step is at most the `2 ^ k`-th part of the value. -/
theorem step_mul_le (hk : k ≤ Nat.log 2 v) (hv : v ≠ 0) : step k v * 2 ^ k ≤ v := by
  rw [step, ← Nat.pow_add, Nat.sub_add_cancel hk]
  exact Nat.pow_log_le_self 2 hv

/-- A value is at most half a step away from its midpoint. -/
theorem midpoint_error (k v : ℕ) :
    v ≤ midpoint k v + step k v / 2 ∧ midpoint k v ≤ v + step k v / 2 := by
  have hdiv := Nat.div_add_mod' v (step k v)
  have hmod := Nat.mod_lt v (step_pos k v)
  unfold midpoint
  constructor
  · omega
  · omega

/-- Rounding stays in the octave of the value. -/
theorem midpoint_octave (hk : k ≤ Nat.log 2 v) (hv : v ≠ 0) :
    2 ^ Nat.log 2 v ≤ midpoint k v ∧ midpoint k v < 2 ^ (Nat.log 2 v + 1) := by
  have hstep := step_pos k v
  have hpow : 2 ^ k * step k v = 2 ^ Nat.log 2 v := by
    rw [step, ← Nat.pow_add, Nat.add_sub_cancel' hk]
  have hlow : 2 ^ k ≤ v / step k v := by
    rw [Nat.le_div_iff_mul_le hstep, hpow]
    exact Nat.pow_log_le_self 2 hv
  have hhigh : v / step k v + 1 ≤ 2 ^ (k + 1) := by
    rw [Nat.add_one_le_iff, Nat.div_lt_iff_lt_mul hstep, Nat.pow_succ', Nat.mul_assoc, hpow, ← Nat.pow_succ']
    exact Nat.lt_pow_succ_log_self Nat.one_lt_two v
  unfold midpoint
  constructor
  · calc 2 ^ Nat.log 2 v = 2 ^ k * step k v := hpow.symm
      _ ≤ v / step k v * step k v := Nat.mul_le_mul_right _ hlow
      _ ≤ _ := Nat.le_add_right _ _
  · have hnext : (v / step k v + 1) * step k v ≤ 2 ^ (Nat.log 2 v + 1) := by
      calc (v / step k v + 1) * step k v ≤ 2 ^ (k + 1) * step k v := Nat.mul_le_mul_right _ hhigh
        _ = 2 ^ (Nat.log 2 v + 1) := by rw [Nat.pow_succ', Nat.mul_assoc, hpow, ← Nat.pow_succ']
    rw [Nat.add_mul, Nat.one_mul] at hnext
    omega

/-- Rounding keeps the order. -/
theorem midpoint_mono (hk : k ≤ Nat.log 2 v) (hv : v ≠ 0) (h : v ≤ w) :
    midpoint k v ≤ midpoint k w := by
  have hw : w ≠ 0 := by omega
  rcases Nat.lt_or_eq_of_le (Nat.log_mono_right (b := 2) h) with hlt | heq
  · have hv' := (midpoint_octave hk hv).2
    have hw' := (midpoint_octave (hk.trans hlt.le) hw).1
    have hpow : 2 ^ (Nat.log 2 v + 1) ≤ 2 ^ Nat.log 2 w := Nat.pow_le_pow_right (by decide) hlt
    omega
  · have hstep : step k v = step k w := by rw [step, step, heq]
    unfold midpoint
    rw [hstep]
    exact Nat.add_le_add_right (Nat.mul_le_mul_right _ (Nat.div_le_div_right h)) _

end Octave
