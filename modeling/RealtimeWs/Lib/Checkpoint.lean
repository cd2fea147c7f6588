import Mathlib.Data.List.Basic
import Mathlib.Data.List.Pairwise
import Mathlib.Logic.Function.Basic
import Mathlib.Order.Basic
import Mathlib.Order.Nat

/-! Acknowledged checkpoints in a stream. A trace records units written to the
stream, checkpoints set at the current write position, units that left the
stream, and acknowledgements. Acknowledging is disciplined when every
acknowledgement can be charged to one earlier checkpoint, in order, and only
after everything written before that checkpoint has left the stream. -/
namespace Checkpoint

variable {ι : Type*}

inductive Event (ι : Type*)
  | write (n : ℕ)
  | mark (x : ι)
  | gone (n : ℕ)
  | ack (x : ι)
  deriving DecidableEq, Repr

def Event.written : Event ι → ℕ
  | .write n => n
  | _ => 0

def Event.left : Event ι → ℕ
  | .gone n => n
  | _ => 0

def Event.mark? : Event ι → Option ι
  | .mark x => some x
  | _ => none

def Event.ack? : Event ι → Option ι
  | .ack x => some x
  | _ => none

/-- Units written in a trace. -/
def written : List (Event ι) → ℕ
  | [] => 0
  | e :: tr => e.written + written tr

/-- Units that left the stream in a trace. -/
def gone : List (Event ι) → ℕ
  | [] => 0
  | e :: tr => e.left + gone tr

def marks (tr : List (Event ι)) : List ι := tr.filterMap Event.mark?

def acks (tr : List (Event ι)) : List ι := tr.filterMap Event.ack?

/-- `f` sends the place of each acknowledgement in the trace to the place of the
checkpoint it acknowledges. -/
structure Charges (tr : List (Event ι)) (f : ℕ → ℕ) : Prop where
  earlier : ∀ i x, tr[i]? = some (.ack x) → f i < i
  names : ∀ i x, tr[i]? = some (.ack x) → tr[f i]? = some (.mark x)
  due : ∀ i x, tr[i]? = some (.ack x) → written (tr.take (f i)) ≤ gone (tr.take i)
  ordered : ∀ i j x y, tr[i]? = some (.ack x) → tr[j]? = some (.ack y) → i < j → f i < f j

/-- Every acknowledgement answers its own checkpoint, late enough and in order. -/
def Disciplined (tr : List (Event ι)) : Prop := ∃ f, Charges tr f

/-- `os` lists places of checkpoints that may still be acknowledged, in order. -/
def Open (tr : List (Event ι)) (os : List ℕ) : Prop :=
  ∃ f, Charges tr f ∧ os.Pairwise (· < ·) ∧
    (∀ o ∈ os, o < tr.length) ∧ ∀ i x, tr[i]? = some (.ack x) → ∀ o ∈ os, f i < o

@[simp] theorem written_append (tr us : List (Event ι)) :
    written (tr ++ us) = written tr + written us := by
  induction tr with
  | nil => exact (Nat.zero_add _).symm
  | cons e tr ih => rw [List.cons_append, written, written, ih, Nat.add_assoc]

@[simp] theorem gone_append (tr us : List (Event ι)) :
    gone (tr ++ us) = gone tr + gone us := by
  induction tr with
  | nil => exact (Nat.zero_add _).symm
  | cons e tr ih => rw [List.cons_append, gone, gone, ih, Nat.add_assoc]

@[simp] theorem marks_append (tr us : List (Event ι)) :
    marks (tr ++ us) = marks tr ++ marks us := List.filterMap_append

@[simp] theorem acks_append (tr us : List (Event ι)) :
    acks (tr ++ us) = acks tr ++ acks us := List.filterMap_append

@[simp] theorem marks_map_ack (xs : List ι) : marks (xs.map Event.ack) = [] :=
  List.filterMap_eq_nil_iff.mpr fun e he => by
    obtain ⟨x, -, rfl⟩ := List.mem_map.mp he
    rfl

@[simp] theorem acks_map_ack (xs : List ι) : acks (xs.map Event.ack) = xs := by
  rw [acks, List.filterMap_map]
  exact List.filterMap_some

theorem Open.disciplined {tr : List (Event ι)} {os : List ℕ} (h : Open tr os) :
    Disciplined tr := let ⟨f, hf, _⟩ := h; ⟨f, hf⟩

theorem open_nil : Open ([] : List (Event ι)) [] :=
  ⟨id, ⟨by simp, by simp, by simp, by simp⟩, .nil, by simp, by simp⟩

private theorem ack_of_snoc {tr : List (Event ι)} {e : Event ι} (he : e.ack? = none)
    {i : ℕ} {x : ι} (h : (tr ++ [e])[i]? = some (.ack x)) : tr[i]? = some (.ack x) := by
  rcases lt_trichotomy i tr.length with hi | rfl | hi
  · rwa [List.getElem?_append_left hi] at h
  · rw [List.getElem?_concat_length] at h
    cases h
    simp [Event.ack?] at he
  · rw [List.getElem?_eq_none (by simp; omega)] at h
    cases h

private theorem Charges.snoc {tr : List (Event ι)} {f : ℕ → ℕ} (hf : Charges tr f)
    {e : Event ι} (he : e.ack? = none) : Charges (tr ++ [e]) f := by
  have hlt : ∀ {i : ℕ} {x}, tr[i]? = some (Event.ack x) → i < tr.length := fun h =>
    (List.getElem?_eq_some_iff.mp h).1
  constructor
  · exact fun i x h => hf.earlier i x (ack_of_snoc he h)
  · intro i x h
    have hi := ack_of_snoc he h
    rw [List.getElem?_append_left ((hf.earlier i x hi).trans (hlt hi))]
    exact hf.names i x hi
  · intro i x h
    have hi := ack_of_snoc he h
    rw [List.take_append_of_le_length (hlt hi).le,
      List.take_append_of_le_length ((hf.earlier i x hi).trans (hlt hi)).le]
    exact hf.due i x hi
  · exact fun i j x y hx hy hij =>
      hf.ordered i j x y (ack_of_snoc he hx) (ack_of_snoc he hy) hij

/-- Only acknowledgements use up open checkpoints. -/
theorem Open.snoc {tr : List (Event ι)} {os : List ℕ} (h : Open tr os) {e : Event ι}
    (he : e.ack? = none) : Open (tr ++ [e]) os := by
  obtain ⟨f, hf, hs, hlt, ho⟩ := h
  exact ⟨f, hf.snoc he, hs, fun o hm => (hlt o hm).trans (by simp),
    fun i x hi => ho i x (ack_of_snoc he hi)⟩

theorem Open.mark {tr : List (Event ι)} {os : List ℕ} (h : Open tr os) (x : ι) :
    Open (tr ++ [.mark x]) (os ++ [tr.length]) := by
  obtain ⟨f, hf, hs, hlt, ho⟩ := h
  refine ⟨f, hf.snoc rfl, ?_, ?_, ?_⟩
  · rw [List.pairwise_append]
    exact ⟨hs, by simp, by simpa using hlt⟩
  · intro o hm
    rcases List.mem_append.mp hm with hm | hm
    · exact (hlt o hm).trans (by simp)
    · simp [List.mem_singleton.mp hm]
  · intro i y hi o hm
    have hi := ack_of_snoc rfl hi
    rcases List.mem_append.mp hm with hm | hm
    · exact ho i y hi o hm
    · rw [List.mem_singleton.mp hm]
      exact (hf.earlier i y hi).trans (List.getElem?_eq_some_iff.mp hi).1

/-- Open checkpoints may be given up without an acknowledgement. -/
theorem Open.skip {tr : List (Event ι)} {os os' : List ℕ} (h : Open tr os)
    (hs : os'.Sublist os) : Open tr os' := by
  obtain ⟨f, hf, hp, hlt, ho⟩ := h
  exact ⟨f, hf, hp.sublist hs, fun o hm => hlt o (hs.subset hm),
    fun i x hi o hm => ho i x hi o (hs.subset hm)⟩

/-- The oldest open checkpoint may be acknowledged once it is due. -/
theorem Open.ack {tr : List (Event ι)} {o : ℕ} {os : List ℕ} (h : Open tr (o :: os)) {x : ι}
    (hx : tr[o]? = some (.mark x)) (hdue : written (tr.take o) ≤ gone tr) :
    Open (tr ++ [.ack x]) os := by
  obtain ⟨f, hf, hp, hlt, ho⟩ := h
  have holt : o < tr.length := hlt o (by simp)
  -- the new acknowledgement sits at `tr.length` and is charged to `o`
  have hcases : ∀ {i : ℕ} {y}, (tr ++ [Event.ack x])[i]? = some (.ack y) →
      (i < tr.length ∧ tr[i]? = some (.ack y)) ∨ (i = tr.length ∧ y = x) := by
    intro i y hi
    rcases lt_trichotomy i tr.length with hlt' | rfl | hgt
    · rw [List.getElem?_append_left hlt'] at hi
      exact Or.inl ⟨hlt', hi⟩
    · rw [List.getElem?_concat_length] at hi
      cases hi
      exact Or.inr ⟨rfl, rfl⟩
    · rw [List.getElem?_eq_none (by simp; omega)] at hi
      cases hi
  have hold : ∀ {i : ℕ}, i < tr.length → Function.update f tr.length o i = f i := fun hi =>
    Function.update_of_ne hi.ne _ _
  refine ⟨Function.update f tr.length o, ⟨?_, ?_, ?_, ?_⟩, (List.pairwise_cons.mp hp).2, ?_, ?_⟩
  · intro i y hi
    rcases hcases hi with ⟨hil, hi⟩ | ⟨rfl, rfl⟩
    · rw [hold hil]; exact hf.earlier i y hi
    · rw [Function.update_self]; exact holt
  · intro i y hi
    rcases hcases hi with ⟨hil, hi⟩ | ⟨rfl, rfl⟩
    · rw [hold hil, List.getElem?_append_left ((hf.earlier i y hi).trans hil)]
      exact hf.names i y hi
    · rw [Function.update_self, List.getElem?_append_left holt]; exact hx
  · intro i y hi
    rcases hcases hi with ⟨hil, hi⟩ | ⟨rfl, rfl⟩
    · rw [hold hil, List.take_append_of_le_length hil.le,
        List.take_append_of_le_length ((hf.earlier i y hi).trans hil).le]
      exact hf.due i y hi
    · rw [Function.update_self, List.take_append_of_le_length holt.le, List.take_left]
      exact hdue
  · intro i j y z hy hz hij
    rcases hcases hy with ⟨hil, hy'⟩ | ⟨rfl, rfl⟩
    · rw [hold hil]
      rcases hcases hz with ⟨hjl, hz'⟩ | ⟨rfl, -⟩
      · rw [hold hjl]; exact hf.ordered i j y z hy' hz' hij
      · rw [Function.update_self]; exact ho i y hy' o (by simp)
    · rcases hcases hz with ⟨hjl, -⟩ | ⟨rfl, -⟩ <;> omega
  · exact fun o' hm => (hlt o' (by simp [hm])).trans (by simp)
  · intro i y hi o' hm
    rcases hcases hi with ⟨hil, hi⟩ | ⟨rfl, rfl⟩
    · rw [hold hil]; exact ho i y hi o' (by simp [hm])
    · rw [Function.update_self]; exact (List.pairwise_cons.mp hp).1 o' hm

end Checkpoint
