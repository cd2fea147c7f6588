import Mathlib.Data.Prod.Lex
import Mathlib.Order.WellFounded
import RealtimeWs.Lib.Machine

/-! Progress of infinite runs: a goal that somebody is always responsible for is reached
when everybody who is on its way goes on acting. -/
namespace Machine

variable {σ ι ο : Type*} (m : Machine σ ι ο)

/-- The states of the run in which the inputs of `sched` come one after the other. -/
def states (s : σ) (sched : ℕ → ι) : ℕ → σ
  | 0 => s
  | k + 1 => m.step (states s sched k) (sched k)

theorem states_invariant {J : σ → Prop} (hstep : ∀ s i, J s → J (m.step s i)) {s : σ} (hs : J s)
    (sched : ℕ → ι) (k : ℕ) : J (m.states s sched k) := by
  induction k with
  | zero => exact hs
  | succ k ih => exact hstep _ _ ih

/-- What a step keeps once it holds, holds from then on. -/
theorem states_stable {J : σ → Prop} {s : σ} {sched : ℕ → ι}
    (hstep : ∀ k, J (m.states s sched k) → J (m.states s sched (k + 1))) {k₀ k : ℕ}
    (hk : k₀ ≤ k) (h : J (m.states s sched k₀)) : J (m.states s sched k) := by
  induction k, hk using Nat.le_induction with
  | base => exact h
  | succ k _ ih => exact hstep k ih

end Machine

/-- In every state short of the goal one actor is responsible, and it is on its way: no step
makes the rank grow, it falls or the responsibility stays where it is, and it falls when the
responsible actor acts. Then the goal is reached if every actor that stays on its way acts
again. -/
theorem eventually_of_rank {σ τ ω : Type*} [Preorder ω] [WellFoundedLT ω] (x : ℕ → σ)
    (Goal : σ → Prop) (rank : σ → ω) (actor : σ → τ) {busy : σ → τ → Prop} {acts : τ → ℕ → Prop}
    (hfair : ∀ t k, (∀ j ≥ k, busy (x j) t) → ∃ k' ≥ k, acts t k') {k₀ : ℕ}
    (hbusy : ∀ k ≥ k₀, ¬ Goal (x k) → busy (x k) (actor (x k)))
    (hstep : ∀ k ≥ k₀, ¬ Goal (x k) → Goal (x (k + 1)) ∨ rank (x (k + 1)) < rank (x k) ∨
      (rank (x (k + 1)) = rank (x k) ∧ actor (x (k + 1)) = actor (x k) ∧
        ¬ acts (actor (x k)) k)) :
    ∃ k ≥ k₀, Goal (x k) := by
  have hmain : ∀ w, ∀ k ≥ k₀, rank (x k) = w → ∃ k' ≥ k, Goal (x k') := by
    intro w
    induction w using WellFoundedLT.induction with
    | ind w ih =>
      intro k hk hw
      by_contra hno
      have hnever : ∀ j ≥ k, ¬ Goal (x j) := by
        intro j hj hgoal
        exact hno ⟨j, hj, hgoal⟩
      -- the rank cannot fall, by the induction hypothesis
      have hlevel : ∀ j ≥ k, ¬ rank (x j) < w := by
        intro j hj hlt
        obtain ⟨i, hi, hgoal⟩ := ih (rank (x j)) hlt j (hk.trans hj) rfl
        exact hnever i (hj.trans hi) hgoal
      have hstay : ∀ j ≥ k, rank (x j) = w ∧ actor (x j) = actor (x k) := by
        intro j hj
        induction j, hj using Nat.le_induction with
        | base => exact ⟨hw, rfl⟩
        | succ j hj ihj =>
          rcases hstep j (hk.trans hj) (hnever j hj) with hgoal | hlt | ⟨hrank, hactor, -⟩
          · exact absurd hgoal (hnever (j + 1) (hj.trans (Nat.le_succ j)))
          · rw [ihj.1] at hlt
            exact absurd hlt (hlevel (j + 1) (hj.trans (Nat.le_succ j)))
          · exact ⟨hrank.trans ihj.1, hactor.trans ihj.2⟩
      have hon : ∀ j ≥ k, busy (x j) (actor (x k)) := by
        intro j hj
        rw [← (hstay j hj).2]
        exact hbusy j (hk.trans hj) (hnever j hj)
      obtain ⟨j, hj, hacts⟩ := hfair (actor (x k)) k hon
      obtain ⟨hrank, hactor⟩ := hstay j hj
      rcases hstep j (hk.trans hj) (hnever j hj) with hgoal | hlt | ⟨-, -, hidle⟩
      · exact hnever (j + 1) (hj.trans (Nat.le_succ j)) hgoal
      · rw [hrank] at hlt
        exact hlevel (j + 1) (hj.trans (Nat.le_succ j)) hlt
      · rw [hactor] at hidle
        exact hidle hacts
  exact hmain (rank (x k₀)) k₀ le_rfl rfl
