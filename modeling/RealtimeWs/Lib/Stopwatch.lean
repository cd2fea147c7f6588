import Mathlib.Data.List.Induction
import RealtimeWs.Lib.Machine

/-! A stopwatch that may be started again before it is read: a reading gives the time
since the latest start, and no start is read twice. -/
namespace Stopwatch

inductive Moment (τ : Type*)
  | start (t : τ)
  | read (t : τ)

variable {τ δ : Type*} (elapsed : τ → τ → δ)

/-- The state is the start that waits for its reading. -/
def watch : Machine (Option τ) (Moment τ) δ where
  step
    | _, .start t => some t
    | _, .read _ => none
  out
    | some t₀, .read t => [elapsed t₀ t]
    | _, _ => []

def Moment.start? : Moment τ → Option τ
  | .start t => some t
  | .read _ => none

/-- The times at which the watch was started. -/
def starts (ms : List (Moment τ)) : List τ := ms.filterMap Moment.start?

@[simp] theorem starts_start (ms : List (Moment τ)) (t : τ) :
    starts (ms ++ [.start t]) = starts ms ++ [t] := by
  rw [starts, List.filterMap_append]
  rfl

@[simp] theorem starts_read (ms : List (Moment τ)) (t : τ) :
    starts (ms ++ [.read t]) = starts ms := by
  rw [starts, List.filterMap_append]
  exact List.append_nil _

/-- A running watch runs since the latest start. -/
theorem getLast?_starts {ms : List (Moment τ)} {t₀ : τ}
    (h : (watch elapsed).run none ms = some t₀) : (starts ms).getLast? = some t₀ := by
  induction ms using List.reverseRecOn with
  | nil => cases h
  | append_singleton ms m _ =>
    rw [Machine.run_snoc] at h
    cases m with
    | start t =>
      have ht : t = t₀ := Option.some.inj h
      rw [starts_start, List.getLast?_concat, ht]
    | read t => cases h

theorem mem_reading {ms : List (Moment τ)} {m : Moment τ} {d : δ}
    (h : d ∈ (watch elapsed).out ((watch elapsed).run none ms) m) :
    ∃ t₀ t, m = .read t ∧ (starts ms).getLast? = some t₀ ∧ d = elapsed t₀ t := by
  cases hrun : (watch elapsed).run none ms with
  | none =>
    rw [hrun] at h
    cases h
  | some t₀ =>
    rw [hrun] at h
    cases m with
    | start t => cases h
    | read t => exact ⟨t₀, t, rfl, getLast?_starts elapsed hrun, List.mem_singleton.mp h⟩

/-- Readings, and the start that still waits for one, are no more than the starts. -/
theorem length_readings_le (ms : List (Moment τ)) :
    ((watch elapsed).outputs none ms).length + ((watch elapsed).run none ms).toList.length ≤
      (starts ms).length := by
  induction ms using List.reverseRecOn with
  | nil => exact Nat.le_refl 0
  | append_singleton ms m ih =>
    rw [Machine.outputs_snoc, Machine.run_snoc, List.length_append]
    cases m with
    | start t =>
      have hout : (watch elapsed).out ((watch elapsed).run none ms) (.start t) = [] := by
        cases (watch elapsed).run none ms <;> rfl
      rw [hout, starts_start, List.length_append]
      change _ + 0 + 1 ≤ _ + 1
      omega
    | read t =>
      rw [starts_read]
      change _ + _ + 0 ≤ _
      have hout : ((watch elapsed).out ((watch elapsed).run none ms) (.read t)).length =
          ((watch elapsed).run none ms).toList.length := by
        cases (watch elapsed).run none ms <;> rfl
      omega

end Stopwatch
