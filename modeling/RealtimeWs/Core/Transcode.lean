import Mathlib.Algebra.Order.Group.Abs
import Mathlib.Tactic.Ring
import RealtimeWs.Core.Mulaw
import RealtimeWs.Lib.Octave

/-! How far µ-law encoding followed by decoding is from the identity: on every sample
but one it rounds the biased magnitude to the midpoint of its step. -/
namespace RealtimeWs.Core

/-- A sample sent through the encoder and the decoder. -/
def transcode (x : Int16) : Int16 := rtwMulawToLinear (rtwLinearToMulaw x)

/-- The clipped magnitude with the bias the encoder adds. -/
def biased (x : Int16) : ℕ := min x.toInt.natAbs 32635 + 132

/-- The byte the encoder assembles from sign, exponent and mantissa. -/
def mulawCode (negative : Bool) (exponent mantissa : ℕ) : UInt8 :=
  UInt8.ofInt (Int.lnot (Int.lor (Int.lor (if negative then 128 else 0) ((exponent : ℤ) <<< 4))
    mantissa))

theorem mulawToLinear_code : ∀ negative, ∀ exponent < 8, ∀ mantissa < 16,
    (rtwMulawToLinear (mulawCode negative exponent mantissa)).toInt =
      if negative then -(((8 * mantissa + 132) * 2 ^ exponent - 132 : ℕ) : ℤ)
      else ((8 * mantissa + 132) * 2 ^ exponent - 132 : ℕ) := by
  decide +kernel

theorem biased_range (x : Int16) : 132 ≤ biased x ∧ biased x < 2 ^ 15 := by
  unfold biased
  omega

theorem log_biased (x : Int16) : 7 ≤ Nat.log 2 (biased x) ∧ Nat.log 2 (biased x) < 15 := by
  obtain ⟨hlow, hhigh⟩ := biased_range x
  have hne : biased x ≠ 0 := by omega
  constructor
  · exact Nat.le_log_of_pow_le (by decide) (by omega)
  · exact Nat.log_lt_of_lt_pow hne hhigh

/-! ### The parts of the encoder -/

private theorem sign_bits (k : ℤ) (hlow : -128 ≤ k) (hhigh : k < 128) :
    Int.land k 0x80 = if k < 0 then 128 else 0 := by
  have htable : ∀ i : Fin 256, Int.land ((i : ℤ) - 128) 0x80 =
      if (i : ℤ) - 128 < 0 then 128 else 0 := by decide +kernel
  have hk := htable ⟨(k + 128).toNat, by omega⟩
  have hback : (((k + 128).toNat : ℕ) : ℤ) - 128 = k := by omega
  simpa only [hback] using hk

theorem sign_of_sample (x : Int16) :
    Int.land (x.toInt >>> 8) 0x80 = if x.toInt < 0 then 128 else 0 := by
  have hlow := x.le_toInt
  have hhigh := x.toInt_lt
  rw [show (8 : ℤ) = (8 : ℕ) from rfl, Int.shiftRight_natCast_right, Int.shiftRight_eq_div_pow,
    sign_bits _ (by omega) (by omega)]
  split <;> split <;> omega

/-- A mask of low bits on a number that is not negative. -/
theorem land_mask (n k : ℕ) : Int.land (n : ℤ) ((2 ^ k - 1 : ℕ) : ℤ) = ((n % 2 ^ k : ℕ) : ℤ) := by
  change ((n &&& (2 ^ k - 1) : ℕ) : ℤ) = _
  rw [Nat.and_two_pow_sub_one_eq_mod]

private theorem exponent_table : ∀ p ∈ expLut.zipIdx, p.2 ≠ 0 →
    2 ^ p.1 ≤ p.2 ∧ p.2 < 2 ^ (p.1 + 1) := by
  decide +kernel

theorem exponent_entry {i : ℕ} (hne : i ≠ 0) (hlt : i < 256) :
    2 ^ expLut.getD i 0 ≤ i ∧ i < 2 ^ (expLut.getD i 0 + 1) := by
  have hlen : i < expLut.length := by
    simpa only [expLut, List.length_append, List.length_replicate] using hlt
  have hentry : (expLut.getD i 0, i) ∈ expLut.zipIdx := by
    rw [List.mk_mem_zipIdx_iff_getElem?, List.getD_eq_getElem _ _ hlen]
    exact List.getElem?_eq_getElem hlen
  exact exponent_table _ hentry hne

/-- The table holds the octave of a biased magnitude. -/
theorem exponent_of_biased {v : ℕ} (hlow : 132 ≤ v) (hhigh : v < 2 ^ 15) :
    expLut.getD (Int.land ((v : ℤ) >>> 7) 0xFF).toNat 0 = Nat.log 2 v - 7 := by
  have hshift : (v : ℤ) >>> 7 = ((v / 2 ^ 7 : ℕ) : ℤ) := by
    rw [show (7 : ℤ) = (7 : ℕ) from rfl, Int.shiftRight_natCast_right, Int.shiftRight_eq_div_pow]
    rfl
  have hindex : (Int.land ((v / 2 ^ 7 : ℕ) : ℤ) 0xFF).toNat = v / 2 ^ 7 := by
    rw [show (0xFF : ℤ) = ((2 ^ 8 - 1 : ℕ) : ℤ) from rfl, land_mask, Int.toNat_natCast]
    omega
  rw [hshift, hindex]
  obtain ⟨hpow, hlt⟩ := exponent_entry (i := v / 2 ^ 7) (by omega) (by omega)
  generalize expLut.getD (v / 2 ^ 7) 0 = e at *
  have hlog : Nat.log 2 v = e + 7 := by
    apply Nat.log_eq_of_pow_le_of_lt_pow
    · rw [Nat.pow_add]
      exact (Nat.le_div_iff_mul_le (by decide)).mp hpow
    · rw [show e + 7 + 1 = e + 1 + 7 by omega, Nat.pow_add]
      exact (Nat.div_lt_iff_lt_mul (by decide)).mp hlt
  omega

private theorem mantissa_bits {q : ℕ} (hlow : 16 ≤ q) (hhigh : q < 32) :
    Int.land (q : ℤ) 0x0F = ((q - 16 : ℕ) : ℤ) := by
  rw [show (0x0F : ℤ) = ((2 ^ 4 - 1 : ℕ) : ℤ) from rfl, land_mask]
  omega

/-- The steps of an octave are numbered from 16 to 31. -/
theorem step_index {v : ℕ} (hlow : 7 ≤ Nat.log 2 v) (hv : v ≠ 0) :
    16 ≤ v / Octave.step 4 v ∧ v / Octave.step 4 v < 32 := by
  have hstep := Octave.step_pos 4 v
  constructor
  · rw [Nat.le_div_iff_mul_le hstep, Nat.mul_comm]
    exact Octave.step_mul_le (k := 4) (by omega) hv
  · rw [Nat.div_lt_iff_lt_mul hstep]
    have hpow : 2 ^ 5 * Octave.step 4 v = 2 ^ (Nat.log 2 v + 1) := by
      rw [Octave.step, ← Nat.pow_add]
      congr 1
      omega
    calc v < 2 ^ (Nat.log 2 v + 1) := Nat.lt_pow_succ_log_self (by decide) v
      _ = 32 * Octave.step 4 v := hpow.symm

theorem toInt_ne_min {x : Int16} (hx : x ≠ -32768) : -32768 < x.toInt := by
  have hlow := x.le_toInt
  rcases lt_or_eq_of_le hlow with hlt | heq
  · exact hlt
  · exact absurd (Int16.toInt.inj (heq.symm.trans (by decide))) hx

/-- On every sample but `INT16_MIN` the byte codes the sign, the octave and the step. -/
theorem rtwLinearToMulaw_eq {x : Int16} (hx : x ≠ -32768) :
    rtwLinearToMulaw x = mulawCode (decide (x.toInt < 0)) (Nat.log 2 (biased x) - 7)
      (biased x / Octave.step 4 (biased x) - 16) := by
  have hmin := toInt_ne_min hx
  have hmax := x.toInt_lt
  obtain ⟨hlow, hhigh⟩ := biased_range x
  -- the three assignments to `sample`
  have habs : (if Int.land (x.toInt >>> 8) 0x80 ≠ 0 then Int16.ofInt (-x.toInt) else x).toInt =
      x.toInt.natAbs := by
    rw [sign_of_sample]
    by_cases hneg : x.toInt < 0
    · rw [if_pos hneg, if_pos (by decide), Int16.toInt_ofInt_of_le (by omega) (by omega)]
      omega
    · rw [if_neg hneg, if_neg (by decide)]
      omega
  have hclip : ∀ s : Int16, s.toInt = x.toInt.natAbs →
      (Int16.ofInt ((if s.toInt > CLIP then Int16.ofInt CLIP else s).toInt + BIAS)).toInt =
        biased x := by
    intro s hs
    have hclipped : (if s.toInt > CLIP then Int16.ofInt CLIP else s).toInt =
        min x.toInt.natAbs 32635 := by
      by_cases hbig : s.toInt > CLIP
      · rw [if_pos hbig]
        have hbig : (32635 : ℤ) < x.toInt.natAbs := hs ▸ hbig
        rw [min_eq_right (by omega)]
        decide
      · rw [if_neg hbig, hs]
        have hsmall : ¬ (32635 : ℤ) < x.toInt.natAbs := hs ▸ hbig
        rw [min_eq_left (by omega)]
    rw [hclipped, BIAS, Int16.toInt_ofInt_of_le (by omega) (by omega), biased]
    push_cast
    rfl
  unfold rtwLinearToMulaw
  simp only
  rw [hclip _ habs, sign_of_sample, exponent_of_biased hlow hhigh]
  generalize hv : biased x = v at *
  have hlog := log_biased x
  rw [hv] at hlog
  have hstep : Nat.log 2 v - 7 + 3 = Nat.log 2 v - 4 := by omega
  obtain ⟨hq, hq'⟩ := step_index hlog.1 (by omega)
  have hshift : (v : ℤ) >>> (Nat.log 2 v - 7 + 3) = ((v / Octave.step 4 v : ℕ) : ℤ) := by
    rw [Int.shiftRight_eq_div_pow, hstep]
    rfl
  rw [hshift, mantissa_bits hq hq', mulawCode]
  simp only [decide_eq_true_eq]

/-- Every sample but `INT16_MIN` comes back as the midpoint of its step. -/
theorem toInt_transcode {x : Int16} (hx : x ≠ -32768) :
    (transcode x).toInt =
      if x.toInt < 0 then -((Octave.midpoint 4 (biased x) - 132 : ℕ) : ℤ)
      else (Octave.midpoint 4 (biased x) - 132 : ℕ) := by
  obtain ⟨hlog, hlog'⟩ := log_biased x
  obtain ⟨hlow, -⟩ := biased_range x
  obtain ⟨hq, hq'⟩ := step_index hlog (by omega)
  rw [transcode, rtwLinearToMulaw_eq hx, mulawToLinear_code _ _ (by omega) _ (by omega)]
  have hstep : Octave.step 4 (biased x) = 8 * 2 ^ (Nat.log 2 (biased x) - 7) := by
    rw [Octave.step, show Nat.log 2 (biased x) - 4 = 3 + (Nat.log 2 (biased x) - 7) by omega,
      Nat.pow_add]
  have hmid : (8 * (biased x / Octave.step 4 (biased x) - 16) + 132) *
      2 ^ (Nat.log 2 (biased x) - 7) = Octave.midpoint 4 (biased x) := by
    unfold Octave.midpoint
    generalize biased x / Octave.step 4 (biased x) = q at *
    rw [hstep]
    generalize 2 ^ (Nat.log 2 (biased x) - 7) = p
    obtain ⟨m, rfl⟩ := Nat.exists_eq_add_of_le hq
    have hhalf : 8 * p / 2 = 4 * p := by omega
    rw [Nat.add_sub_cancel_left, hhalf]
    ring
  rw [hmid]
  simp only [decide_eq_true_eq]

/-! ### Accuracy -/

/-- The tolerance of the codec: a sixteenth of the sample or 256, and the same sign. -/
def Near (x y : Int16) : Prop :=
  |x.toInt - y.toInt| ≤ max (|x.toInt| / 16) 256 ∧
    ¬(x.toInt < 0 ∧ 0 < y.toInt) ∧ ¬(0 < x.toInt ∧ y.toInt < 0)

instance (x y : Int16) : Decidable (Near x y) := inferInstanceAs (Decidable (_ ∧ _))

theorem midpoint_mono_biased {v w : ℕ} (hv : 132 ≤ v) (h : v ≤ w) :
    Octave.midpoint 4 v ≤ Octave.midpoint 4 w := by
  have hlog : 4 ≤ Nat.log 2 v := Nat.le_log_of_pow_le (by decide) (by omega)
  exact Octave.midpoint_mono hlog (by omega) h

theorem le_midpoint_biased (x : Int16) : 132 ≤ Octave.midpoint 4 (biased x) := by
  have hmono := midpoint_mono_biased le_rfl (biased_range x).1
  have hlow : Octave.midpoint 4 132 = 132 := by decide
  omega

/-- Half a step is at most a thirty-second part of the biased magnitude. -/
theorem midpoint_biased_error (x : Int16) :
    32 * biased x ≤ 32 * Octave.midpoint 4 (biased x) + biased x ∧
      32 * Octave.midpoint 4 (biased x) ≤ 32 * biased x + biased x := by
  obtain ⟨hlog, -⟩ := log_biased x
  obtain ⟨hlow, -⟩ := biased_range x
  have hstep := Octave.step_mul_le (k := 4) (v := biased x) (by omega) (by omega)
  obtain ⟨herr, herr'⟩ := Octave.midpoint_error 4 (biased x)
  constructor
  · omega
  · omega

/-- The codec is within its tolerance on every sample but `INT16_MIN`. -/
theorem near_transcode_iff (x : Int16) : Near x (transcode x) ↔ x ≠ -32768 := by
  constructor
  · rintro hnear rfl
    revert hnear
    decide +kernel
  · intro hx
    have hmin := toInt_ne_min hx
    have hmax := x.toInt_lt
    have hlow := le_midpoint_biased x
    obtain ⟨herr, herr'⟩ := midpoint_biased_error x
    have hbiased : biased x = min x.toInt.natAbs 32635 + 132 := rfl
    unfold Near
    rw [toInt_transcode hx]
    generalize Octave.midpoint 4 (biased x) = m at *
    by_cases hneg : x.toInt < 0
    · rw [if_pos hneg, abs_of_neg hneg]
      refine ⟨abs_le.mpr ⟨?_, ?_⟩, ?_, ?_⟩ <;> omega
    · rw [if_neg hneg, abs_of_nonneg (show 0 ≤ x.toInt by omega)]
      refine ⟨abs_le.mpr ⟨?_, ?_⟩, ?_, ?_⟩ <;> omega

/-- The codec keeps the order of samples. -/
theorem transcode_mono {x y : Int16} (hx : x ≠ -32768) (hy : y ≠ -32768) (h : x.toInt ≤ y.toInt) :
    (transcode x).toInt ≤ (transcode y).toInt := by
  have hxlow := le_midpoint_biased x
  have hylow := le_midpoint_biased y
  have hbx : biased x = min x.toInt.natAbs 32635 + 132 := rfl
  have hby : biased y = min y.toInt.natAbs 32635 + 132 := rfl
  rw [toInt_transcode hx, toInt_transcode hy]
  by_cases hxneg : x.toInt < 0
  · rw [if_pos hxneg]
    by_cases hyneg : y.toInt < 0
    · -- on the negative side the order of the magnitudes is the other way
      have hmono := midpoint_mono_biased (biased_range y).1 (show biased y ≤ biased x by omega)
      rw [if_pos hyneg]
      omega
    · rw [if_neg hyneg]
      omega
  · have hmono := midpoint_mono_biased (biased_range x).1 (show biased x ≤ biased y by omega)
    rw [if_neg hxneg, if_neg (by omega)]
    omega

end RealtimeWs.Core
