import Mathlib.Data.List.Basic

/-! Decoders that take messages off the front of a stream while it arrives. What they
make of the stream does not depend on the pieces it arrives in. -/

/-- What a decoder makes of the input it holds: it waits for more, gives up, or takes
one message of `n` symbols off the front. -/
inductive Verdict (β : Type*)
  | wait
  | stop (out : List β)
  | message (n : ℕ) (out : List β)

/-- Input that arrives later never changes a verdict other than `wait`. -/
structure Decoder (α β : Type*) where
  next : List α → Verdict β
  progress : ∀ {xs n out}, next xs = .message n out → 0 < n ∧ n ≤ xs.length
  stop_append : ∀ {xs out} ys, next xs = .stop out → next (xs ++ ys) = .stop out
  message_append : ∀ {xs n out} ys, next xs = .message n out →
    next (xs ++ ys) = .message n out

namespace Decoder

variable {α β : Type*} (d : Decoder α β)

/-- The outputs so far, and the input left unless the decoder gave up. -/
def drainLoop : ℕ → List α → List β × Option (List α)
  | 0, xs => ([], some xs)
  | fuel + 1, xs =>
    match d.next xs with
    | .wait => ([], some xs)
    | .stop out => (out, none)
    | .message n out =>
      (out ++ (drainLoop fuel (xs.drop n)).1, (drainLoop fuel (xs.drop n)).2)

/-- Every message makes the input shorter, so the fuel is never used up. -/
def drain (xs : List α) : List β × Option (List α) := d.drainLoop (xs.length + 1) xs

theorem drainLoop_eq_drain {fuel : ℕ} {xs : List α} (h : xs.length < fuel) :
    d.drainLoop fuel xs = d.drain xs := by
  have hany : ∀ f g (xs : List α), xs.length < f → xs.length < g →
      d.drainLoop f xs = d.drainLoop g xs := by
    intro f
    induction f with
    | zero => intro g xs hf; omega
    | succ f ih =>
      intro g xs hf hg
      obtain ⟨g, rfl⟩ := Nat.exists_eq_add_of_lt (Nat.zero_lt_of_lt hg)
      rw [Nat.zero_add] at hg ⊢
      rw [drainLoop, drainLoop]
      cases hv : d.next xs with
      | wait => rfl
      | stop out => rfl
      | message n out =>
        have hn := d.progress hv
        have hrest := ih g (xs.drop n) (by rw [List.length_drop]; omega)
          (by rw [List.length_drop]; omega)
        simp only [hrest]
  exact hany fuel (xs.length + 1) xs h (Nat.lt_succ_self _)

theorem drain_of_wait {xs : List α} (h : d.next xs = .wait) : d.drain xs = ([], some xs) := by
  rw [drain, drainLoop, h]

theorem drain_of_stop {xs : List α} {out : List β} (h : d.next xs = .stop out) :
    d.drain xs = (out, none) := by
  rw [drain, drainLoop, h]

theorem drain_of_message {xs : List α} {n : ℕ} {out : List β} (h : d.next xs = .message n out) :
    d.drain xs = (out ++ (d.drain (xs.drop n)).1, (d.drain (xs.drop n)).2) := by
  have hn := d.progress h
  have hrest : d.drainLoop xs.length (xs.drop n) = d.drain (xs.drop n) :=
    d.drainLoop_eq_drain (by rw [List.length_drop]; omega)
  rw [drain, drainLoop, h]
  simp only [hrest]

/-- What follows once some input is drained: nothing after the decoder gave up. -/
def andThen (r : List β × Option (List α)) (k : List α → List β × Option (List α)) :
    List β × Option (List α) :=
  match r.2 with
  | none => (r.1, none)
  | some rest => (r.1 ++ (k rest).1, (k rest).2)

theorem andThen_prepend (out : List β) (r : List β × Option (List α))
    (k : List α → List β × Option (List α)) :
    andThen (out ++ r.1, r.2) k = (out ++ (andThen r k).1, (andThen r k).2) := by
  obtain ⟨out', _ | rest⟩ := r
  · rfl
  · simp only [andThen, List.append_assoc]

/-- Nothing follows when nothing is left to do. -/
theorem andThen_pure (r : List β × Option (List α)) :
    andThen r (fun rest => ([], some rest)) = r := by
  obtain ⟨out, _ | rest⟩ := r
  · rfl
  · simp only [andThen, List.append_nil]

/-- Draining in two steps. -/
theorem drain_append (xs ys : List α) :
    d.drain (xs ++ ys) = andThen (d.drain xs) fun rest => d.drain (rest ++ ys) := by
  induction hlen : xs.length using Nat.strongRecOn generalizing xs with
  | ind len ih =>
    subst hlen
    cases hv : d.next xs with
    | wait =>
      rw [d.drain_of_wait hv]
      rfl
    | stop out =>
      rw [d.drain_of_stop hv, d.drain_of_stop (d.stop_append ys hv)]
      rfl
    | message n out =>
      have hn := d.progress hv
      have hrest := ih (xs.drop n).length (by rw [List.length_drop]; omega) (xs.drop n) rfl
      rw [d.drain_of_message hv, d.drain_of_message (d.message_append ys hv),
        List.drop_append_of_le_length hn.2, hrest, andThen_prepend]

/-- Draining after each piece that arrives. -/
def feed : List α → List (List α) → List β × Option (List α)
  | buf, [] => ([], some buf)
  | buf, piece :: pieces => andThen (d.drain (buf ++ piece)) fun rest => feed rest pieces

theorem feed_eq_drain (buf piece : List α) (pieces : List (List α)) :
    d.feed buf (piece :: pieces) = d.drain (buf ++ (piece :: pieces).flatten) := by
  induction pieces generalizing buf piece with
  | nil =>
    rw [feed, List.flatten_singleton]
    exact andThen_pure _
  | cons piece' pieces ih =>
    have hrest := d.drain_append (buf ++ piece) (piece' :: pieces).flatten
    rw [feed, List.flatten_cons, ← List.append_assoc, hrest]
    simp only [ih]

/-- From an empty buffer on, the pieces are drained as one. -/
theorem feed_nil_eq_drain (h : d.next [] = .wait) (pieces : List (List α)) :
    d.feed [] pieces = d.drain pieces.flatten := by
  cases pieces with
  | nil => exact (d.drain_of_wait h).symm
  | cons piece pieces => exact d.feed_eq_drain [] piece pieces

/-- Only the stream counts, not the pieces. -/
theorem feed_congr {buf : List α} {pieces pieces' : List (List α)}
    (hne : ∀ piece ∈ pieces, piece ≠ []) (hne' : ∀ piece ∈ pieces', piece ≠ [])
    (h : pieces.flatten = pieces'.flatten) : d.feed buf pieces = d.feed buf pieces' := by
  have hnil : ∀ {ps : List (List α)}, (∀ piece ∈ ps, piece ≠ []) → ps.flatten = [] → ps = [] := by
    intro ps hps hflat
    cases ps with
    | nil => rfl
    | cons p ps =>
      rw [List.flatten_cons, List.append_eq_nil_iff] at hflat
      exact absurd hflat.1 (hps p List.mem_cons_self)
  cases pieces with
  | nil => rw [hnil hne' h.symm]
  | cons piece pieces =>
    cases pieces' with
    | nil => rw [hnil hne h]
    | cons piece' pieces' => rw [feed_eq_drain, feed_eq_drain, h]

end Decoder
