import Mathlib.Logic.Function.Basic
import RealtimeWs.Lib.Machine

/-! Threads over a shared state, one acting at a time in any order, and what a mutex
does for them. -/

/-- What a thread does at a place of its program. -/
structure Threads (τ ℓ γ ι : Type*) where
  step : τ → ι → ℓ → γ → ℓ × γ

namespace Threads

/-- Where every thread is, and the state they share. -/
structure State (τ ℓ γ : Type*) where
  pc : τ → ℓ
  shared : γ

variable {τ ℓ γ ι : Type*} (m : Threads τ ℓ γ ι) {s : State τ ℓ γ} {t u : τ} {i : ι}
variable {owner : γ → Option τ} {inside : ℓ → Bool}

/-- Whoever is inside owns the mutex. -/
def Exclusive (owner : γ → Option τ) (inside : ℓ → Bool) (s : State τ ℓ γ) : Prop :=
  ∀ t, inside (s.pc t) = true → owner s.shared = some t

theorem Exclusive.unique (h : Exclusive owner inside s) (ht : inside (s.pc t) = true)
    (hu : inside (s.pc u) = true) : t = u :=
  Option.some.inj ((h t ht).symm.trans (h u hu))

/-- The places in `inside` are entered by taking the mutex, and nobody else touches it. -/
structure Guards (owner : γ → Option τ) (inside : ℓ → Bool) : Prop where
  enter : ∀ t i l g, inside l = false → inside (m.step t i l g).1 = true →
    owner g = none ∧ owner (m.step t i l g).2 = some t
  keep : ∀ t i l g, inside (m.step t i l g).1 = inside l → owner (m.step t i l g).2 = owner g

variable [DecidableEq τ]

/-- The interleavings of the threads; an input names the thread that acts. -/
def machine : Machine (State τ ℓ γ) (τ × ι) Empty where
  step s e :=
    ⟨Function.update s.pc e.1 (m.step e.1 e.2 (s.pc e.1) s.shared).1,
      (m.step e.1 e.2 (s.pc e.1) s.shared).2⟩
  out _ _ := []

variable {m}

theorem pc_self : (m.machine.step s (t, i)).pc t = (m.step t i (s.pc t) s.shared).1 :=
  Function.update_self ..

theorem pc_other (h : u ≠ t) : (m.machine.step s (t, i)).pc u = s.pc u :=
  Function.update_of_ne h ..

theorem shared_step : (m.machine.step s (t, i)).shared = (m.step t i (s.pc t) s.shared).2 := rfl

/-- A thread that does nothing leaves everything as it is. -/
theorem step_eq_self (h : m.step t i (s.pc t) s.shared = (s.pc t, s.shared)) :
    m.machine.step s (t, i) = s := by
  simp only [machine, h, Function.update_eq_self]

/-- What the acting thread establishes and the other threads had holds of all of them. -/
theorem forall_pc_step {P : τ → ℓ → Prop} (own : P t (m.step t i (s.pc t) s.shared).1)
    (other : ∀ u, u ≠ t → P u (s.pc u)) : ∀ u, P u ((m.machine.step s (t, i)).pc u) := by
  intro u
  by_cases h : u = t
  · subst h
    rw [pc_self]
    exact own
  · rw [pc_other h]
    exact other u h

theorem Exclusive.step (h : Exclusive owner inside s) (hm : m.Guards owner inside) (t : τ)
    (i : ι) : Exclusive owner inside (m.machine.step s (t, i)) := by
  have hkeep := hm.keep t i (s.pc t) s.shared
  have henter := hm.enter t i (s.pc t) s.shared
  intro u
  by_cases hut : u = t
  · subst hut
    rw [pc_self, shared_step]
    intro hafter
    cases hbefore : inside (s.pc u) with
    | false => exact (henter hbefore hafter).2
    | true =>
      rw [hkeep (hafter.trans hbefore.symm)]
      exact h u hbefore
  · rw [pc_other hut, shared_step]
    intro hu
    -- `u` is inside, so `t` is not and cannot get in
    have hout : inside (s.pc t) = false := by
      rw [Bool.eq_false_iff]
      intro ht
      exact hut (h.unique hu ht)
    cases hafter : inside (m.step t i (s.pc t) s.shared).1 with
    | false =>
      rw [hkeep (hafter.trans hout.symm)]
      exact h u hu
    | true =>
      have hfree := (henter hout hafter).1
      rw [h u hu] at hfree
      cases hfree

end Threads
