import Mathlib.Algebra.BigOperators.Group.List.Basic
import Mathlib.Algebra.Order.Group.Multiset
import Mathlib.Tactic.Abel

/-! Accounts of resources. A ledger hands out handles, none of them twice, and knows which
are live. Giving back or using a handle that is not live is a fault. -/

/-- One resource: its kind, and its place in the order in which they were handed out. -/
structure Handle (κ : Type) where
  kind : κ
  number : ℕ
  deriving DecidableEq, Repr

structure Ledger (κ : Type) where
  next : ℕ
  live : Multiset (Handle κ)
  faulted : Bool
  below : ∀ h ∈ live, h.number < next
  nodup : live.Nodup

namespace Ledger

variable {κ : Type} {α β : Type}

def empty : Ledger κ := ⟨0, 0, false, by simp, Multiset.nodup_zero⟩

/-- The handle that is handed out next. -/
def fresh (s : Ledger κ) (k : κ) : Handle κ := ⟨k, s.next⟩

theorem fresh_notMem (s : Ledger κ) (k : κ) : s.fresh k ∉ s.live := fun h =>
  Nat.lt_irrefl _ (s.below _ h)

private theorem below_fresh (s : Ledger κ) (k : κ) :
    ∀ h ∈ s.fresh k ::ₘ s.live, h.number < s.next + 1 := by
  intro h hmem
  rcases Multiset.mem_cons.mp hmem with rfl | hmem
  · exact Nat.lt_succ_self _
  · exact (s.below h hmem).trans (Nat.lt_succ_self _)

/-- A request for a resource; `ok` is whether the system grants it. -/
def acquire (ok : Bool) (k : κ) : StateM (Ledger κ) (Option (Handle κ)) := fun s =>
  if ok then (some (s.fresh k), { s with
    next := s.next + 1
    live := s.fresh k ::ₘ s.live
    below := below_fresh s k
    nodup := Multiset.nodup_cons.mpr ⟨s.fresh_notMem k, s.nodup⟩ })
  else (none, s)

section

variable [DecidableEq κ]

private theorem below_erase (s : Ledger κ) (h : Handle κ) :
    ∀ h' ∈ s.live.erase h, h'.number < s.next := fun h' hmem =>
  s.below h' (Multiset.mem_of_mem_erase hmem)

def release (h : Handle κ) : StateM (Ledger κ) Unit := fun s =>
  if h ∈ s.live then ((), { s with
    live := s.live.erase h
    below := below_erase s h
    nodup := s.nodup.erase h })
  else ((), { s with faulted := true })

/-- A read or a write through the handle. -/
def use (h : Handle κ) : StateM (Ledger κ) Unit := fun s =>
  if h ∈ s.live then ((), s) else ((), { s with faulted := true })

/-- A null pointer is given back without effect. -/
def release? : Option (Handle κ) → StateM (Ledger κ) Unit
  | none => pure ()
  | some h => release h

def releaseAll : List (Handle κ) → StateM (Ledger κ) Unit
  | [] => pure ()
  | h :: hs => do
    release h
    releaseAll hs

/-- A new resource takes the place of an old one; a refused request leaves the old one. -/
def exchange (ok : Bool) (h : Handle κ) : StateM (Ledger κ) (Option (Handle κ)) := do
  match ← acquire ok h.kind with
  | none => return none
  | some h' => do
    release h
    return some h'

end

/-- What a pointer that may be null refers to. -/
def held (o : Option (Handle κ)) : Multiset (Handle κ) := (o.toList : Multiset (Handle κ))

@[simp] theorem held_none : held (none : Option (Handle κ)) = 0 := rfl
@[simp] theorem held_some (h : Handle κ) : held (some h) = {h} := rfl

/-! ### Accounting -/

/-- Started with `P` live and anything else beside it, `c` commits no fault, returns a value
of which `φ` holds, and leaves `Q` of that value in the place of `P`. Nothing is lost on the
way but what `L` holds of. -/
def Accounts (L : Handle κ → Prop) (P : Multiset (Handle κ)) (c : StateM (Ledger κ) α)
    (φ : α → Prop) (Q : α → Multiset (Handle κ)) : Prop :=
  ∀ (s : Ledger κ) (F : Multiset (Handle κ)), s.faulted = false → s.live = P + F →
    (c s).2.faulted = false ∧ φ (c s).1 ∧
      ∃ lost, (∀ h ∈ lost, L h) ∧ (c s).2.live = Q (c s).1 + lost + F

namespace Accounts

variable {L : Handle κ → Prop} {P P' R : Multiset (Handle κ)} {c : StateM (Ledger κ) α}
variable {f : α → StateM (Ledger κ) β} {φ : α → Prop} {ψ : β → Prop} {Q : α → Multiset (Handle κ)}
variable {S : β → Multiset (Handle κ)} {a : α}

private theorem none_lost (L : Handle κ → Prop) : ∀ h ∈ (0 : Multiset (Handle κ)), L h := by simp

private theorem lost_add {lost lost' : Multiset (Handle κ)} (h : ∀ h ∈ lost, L h)
    (h' : ∀ h ∈ lost', L h) : ∀ h ∈ lost + lost', L h := fun x hx =>
  (Multiset.mem_add.mp hx).elim (h x) (h' x)

protected theorem pure (hφ : φ a) (hQ : Q a = P) :
    Accounts L P (pure a : StateM (Ledger κ) α) φ Q := by
  intro s F hok hlive
  refine ⟨hok, hφ, 0, none_lost L, ?_⟩
  change s.live = Q a + 0 + F
  rw [hQ, add_zero]
  exact hlive

/-- The frame: a program takes nothing but what it accounts for. -/
theorem bind (hc : Accounts L P' c φ Q) (hP : P = P' + R)
    (hf : ∀ a, φ a → Accounts L (Q a + R) (f a) ψ S) : Accounts L P (c >>= f) ψ S := by
  intro s F hok hlive
  have hsplit : s.live = P' + (R + F) := by rw [hlive, hP, add_assoc]
  obtain ⟨hok', hφ, lost, hL, hlive'⟩ := hc s (R + F) hok hsplit
  have hmid : (c s).2.live = Q (c s).1 + R + (lost + F) := by
    rw [hlive']
    abel
  obtain ⟨hok'', hψ, lost', hL', hlive''⟩ := hf _ hφ _ (lost + F) hok' hmid
  refine ⟨hok'', hψ, lost' + lost, lost_add hL' hL, ?_⟩
  change (f (c s).1 (c s).2).2.live = S (f (c s).1 (c s).2).1 + (lost' + lost) + F
  rw [hlive'']
  abel

/-- What a program has no pointer to any more is lost. -/
theorem lose {gone : Multiset (Handle κ)} (hc : Accounts L P c φ Q) (hL : ∀ h ∈ gone, L h) :
    Accounts L (gone + P) c φ Q := by
  intro s F hok hlive
  have hsplit : s.live = P + (gone + F) := by
    rw [hlive]
    abel
  obtain ⟨hok', hφ, lost, hlost, hlive'⟩ := hc s (gone + F) hok hsplit
  refine ⟨hok', hφ, lost + gone, lost_add hlost hL, ?_⟩
  rw [hlive']
  abel

theorem weaken {φ' : α → Prop} {Q' : α → Multiset (Handle κ)} (hc : Accounts L P c φ Q)
    (hφ : ∀ a, φ a → φ' a) (hQ : ∀ a, φ a → Q' a = Q a) : Accounts L P c φ' Q' := by
  intro s F hok hlive
  obtain ⟨hok', hval, lost, hL, hlive'⟩ := hc s F hok hlive
  refine ⟨hok', hφ _ hval, lost, hL, ?_⟩
  rw [hQ _ hval]
  exact hlive'

theorem of_eq (hc : Accounts L P' c φ Q) (hP : P = P') : Accounts L P c φ Q := hP ▸ hc

/-- What is said of a program holds beside anything. -/
theorem frame (hc : Accounts L P c φ Q) (R : Multiset (Handle κ)) :
    Accounts L (P + R) c φ (fun a => Q a + R) := by
  intro s F hok hlive
  obtain ⟨hok', hφ, lost, hL, hlive'⟩ := hc s (R + F) hok (by rw [hlive, add_assoc])
  refine ⟨hok', hφ, lost, hL, ?_⟩
  change (c s).2.live = Q (c s).1 + R + lost + F
  rw [hlive']
  abel

theorem acquire_kind (ok : Bool) (k : κ) :
    Accounts L 0 (acquire ok k) (fun o => o.isSome = ok ∧ ∀ h ∈ o, h.kind = k) held := by
  intro s F hok hlive
  cases ok with
  | false =>
    refine ⟨hok, ⟨rfl, by rintro h ⟨⟩⟩, 0, none_lost L, ?_⟩
    exact hlive
  | true =>
    refine ⟨hok, ⟨rfl, ?_⟩, 0, none_lost L, ?_⟩
    · rintro h ⟨⟩
      rfl
    · change s.fresh k ::ₘ s.live = {s.fresh k} + 0 + F
      rw [hlive, zero_add, add_zero, Multiset.singleton_add]

protected theorem acquire (ok : Bool) (k : κ) :
    Accounts L 0 (acquire ok k) (fun o => o.isSome = ok) held :=
  (acquire_kind ok k).weaken (fun _ ho => ho.1) fun _ _ => rfl

/-- A request, by whether it is granted. -/
theorem acquire_bind {ok : Bool} {k : κ} {f : Option (Handle κ) → StateM (Ledger κ) β}
    (hno : ok = false → Accounts L P (f none) ψ S)
    (hyes : ok = true → ∀ h, Accounts L ({h} + P) (f (some h)) ψ S) :
    Accounts L P (acquire ok k >>= f) ψ S := by
  refine (Accounts.acquire ok k).bind (zero_add P).symm fun o ho => ?_
  cases o with
  | none => exact (hno ho.symm).of_eq (zero_add P)
  | some h => exact hyes ho.symm h

section

variable [DecidableEq κ] {h : Handle κ} {g : Unit → StateM (Ledger κ) β}

protected theorem release (h : Handle κ) :
    Accounts L {h} (release h) (fun _ => True) (fun _ => 0) := by
  intro s F hok hlive
  have hmem : h ∈ s.live := by rw [hlive]; simp
  unfold release
  rw [if_pos hmem]
  refine ⟨hok, trivial, 0, none_lost L, ?_⟩
  change s.live.erase h = 0 + 0 + F
  rw [hlive, Multiset.singleton_add, Multiset.erase_cons_head, add_zero, zero_add]

theorem release_bind (hP : P = {h} + R) (hg : Accounts L R (g ()) ψ S) :
    Accounts L P (release h >>= g) ψ S :=
  (Accounts.release h).bind hP fun _ _ => hg.of_eq (zero_add R)

theorem use_bind (hmem : h ∈ P) (hg : Accounts L P (g ()) ψ S) :
    Accounts L P (use h >>= g) ψ S := by
  intro s F hok hlive
  have hlive' : h ∈ s.live := by rw [hlive]; exact Multiset.mem_add.mpr (Or.inl hmem)
  have hrun : (use h >>= g) s = g () s := by
    change g (use h s).1 (use h s).2 = g () s
    unfold use
    rw [if_pos hlive']
  rw [hrun]
  exact hg s F hok hlive

protected theorem release? (o : Option (Handle κ)) :
    Accounts L (held o) (release? o) (fun _ => True) (fun _ => 0) := by
  cases o with
  | none => exact Accounts.pure trivial rfl
  | some h => exact Accounts.release h

theorem release?_bind {o : Option (Handle κ)} (hP : P = held o + R)
    (hg : Accounts L R (g ()) ψ S) : Accounts L P (release? o >>= g) ψ S :=
  (Accounts.release? o).bind hP fun _ _ => hg.of_eq (zero_add R)

protected theorem releaseAll (hs : List (Handle κ)) :
    Accounts L (hs : Multiset (Handle κ)) (releaseAll hs) (fun _ => True) (fun _ => 0) := by
  induction hs with
  | nil => exact Accounts.pure trivial rfl
  | cons h hs ih => exact release_bind (Multiset.singleton_add h hs).symm ih

theorem releaseAll_bind {hs : List (Handle κ)} (hP : P = (hs : Multiset (Handle κ)) + R)
    (hg : Accounts L R (g ()) ψ S) : Accounts L P (releaseAll hs >>= g) ψ S :=
  (Accounts.releaseAll hs).bind hP fun _ _ => hg.of_eq (zero_add R)

/-- An exchange keeps one handle: the new one, or the old one when it is refused. -/
protected theorem exchange (ok : Bool) (h : Handle κ) :
    Accounts L {h} (exchange ok h) (fun o => o.isSome = ok) (fun o => {o.getD h}) := by
  refine acquire_bind (fun hno => ?_) fun hyes h' => ?_
  · exact Accounts.pure hno.symm rfl
  · exact release_bind (add_comm _ _) (Accounts.pure hyes.symm rfl)

end

end Accounts

/-! ### Tenants -/

/-- A ledger that several tenants share: all that is live is what they own, and what was lost. -/
structure Tenancy {τ : Type} (L : Handle κ → Prop) (owned : τ → Multiset (Handle κ))
    (ts : List τ) (s : Ledger κ) : Prop where
  sound : s.faulted = false
  live : ∃ lost, (∀ h ∈ lost, L h) ∧ s.live = (ts.map owned).sum + lost

namespace Tenancy

variable {τ : Type} {L : Handle κ → Prop} {owned : τ → Multiset (Handle κ)} {ts : List τ}
variable {s : Ledger κ} {n : ℕ} {t : τ} {c : StateM (Ledger κ) α} {φ : α → Prop}
variable {Q : α → Multiset (Handle κ)}

theorem empty : Tenancy L owned [] (Ledger.empty : Ledger κ) := ⟨rfl, 0, by simp, rfl⟩

/-- What a program leaves for `rest`, whatever the tenants are then. -/
theorem account {P rest : Multiset (Handle κ)} (h : Tenancy L owned ts s)
    (hP : (ts.map owned).sum = P + rest) (hc : Accounts L P c φ Q) :
    (c s).2.faulted = false ∧ φ (c s).1 ∧
      ∃ lost, (∀ h ∈ lost, L h) ∧ (c s).2.live = Q (c s).1 + rest + lost := by
  obtain ⟨lost, hL, hlive⟩ := h.live
  have hbefore : s.live = P + (rest + lost) := by rw [hlive, hP, add_assoc]
  obtain ⟨hsound, hφ, lost', hL', hlive'⟩ := hc s (rest + lost) h.sound hbefore
  refine ⟨hsound, hφ, lost' + lost, fun x hx => ?_, ?_⟩
  · exact (Multiset.mem_add.mp hx).elim (hL' x) (hL x)
  · rw [hlive']
    abel

/-- What a tenant does with what it owns changes no other tenant. -/
theorem act (h : Tenancy L owned ts s) (ht : ts[n]? = some t) (hc : Accounts L (owned t) c φ Q)
    (next : α → τ) (hnext : ∀ a, φ a → owned (next a) = Q a) :
    φ (c s).1 ∧ Tenancy L owned (ts.set n (next (c s).1)) (c s).2 := by
  obtain ⟨hn, rfl⟩ := List.getElem?_eq_some_iff.mp ht
  have hbefore : (ts.map owned).sum = owned ts[n] + ((ts.map owned).eraseIdx n).sum := by
    rw [← List.CommMonoid.add_sum_eraseIdx (by rwa [List.length_map]), List.getElem_map]
  obtain ⟨hsound, hφ, lost, hL, hlive⟩ := h.account hbefore hc
  have hset : n < ((ts.set n (next (c s).1)).map owned).length := by simpa using hn
  refine ⟨hφ, hsound, lost, hL, ?_⟩
  rw [← List.CommMonoid.add_sum_eraseIdx hset, List.getElem_map, List.getElem_set_self,
    List.map_set, List.eraseIdx_set_eq, hnext _ hφ]
  exact hlive

/-- A newcomer that starts from nothing. -/
theorem join (h : Tenancy L owned ts s) (hc : Accounts L 0 c φ Q) (new : τ)
    (hnew : φ (c s).1 → owned new = Q (c s).1) :
    φ (c s).1 ∧ Tenancy L owned (ts ++ [new]) (c s).2 := by
  obtain ⟨hsound, hφ, lost, hL, hlive⟩ := h.account (zero_add _).symm hc
  refine ⟨hφ, hsound, lost, hL, ?_⟩
  rw [hlive, List.map_append, List.sum_append, List.map_singleton, List.sum_singleton, hnew hφ,
    add_comm (Q _)]

/-- One that starts from nothing and keeps nothing. -/
theorem visit (h : Tenancy L owned ts s) (hc : Accounts L 0 c φ Q)
    (hnone : φ (c s).1 → Q (c s).1 = 0) : φ (c s).1 ∧ Tenancy L owned ts (c s).2 := by
  obtain ⟨hsound, hφ, lost, hL, hlive⟩ := h.account (zero_add _).symm hc
  refine ⟨hφ, hsound, lost, hL, ?_⟩
  rw [hlive, hnone hφ, zero_add]

end Tenancy

end Ledger
