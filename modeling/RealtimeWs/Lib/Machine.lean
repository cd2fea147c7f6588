import Mathlib.Data.List.Basic
import Mathlib.Data.List.Forall2

/-! Deterministic labelled machines, their runs and the outputs of a run. -/

/-- A machine steps on an input and emits a list of outputs while doing so. -/
structure Machine (σ ι ο : Type*) where
  step : σ → ι → σ
  out : σ → ι → List ο

namespace Machine

variable {σ ι ο : Type*} (m : Machine σ ι ο)

def run (s : σ) (is : List ι) : σ := is.foldl m.step s

def outputs : σ → List ι → List ο
  | _, [] => []
  | s, i :: is => m.out s i ++ outputs (m.step s i) is

/-- The guard holds at every step of the run. -/
def Along (P : σ → ι → Prop) : σ → List ι → Prop
  | _, [] => True
  | s, i :: is => P s i ∧ Along P (m.step s i) is

instance {P : σ → ι → Prop} [∀ s i, Decidable (P s i)] : ∀ s is, Decidable (m.Along P s is)
  | _, [] => .isTrue trivial
  | s, i :: is =>
    have := instDecidableAlong (P := P) (m.step s i) is
    inferInstanceAs (Decidable (P s i ∧ m.Along P (m.step s i) is))

@[simp] theorem run_nil (s : σ) : m.run s [] = s := rfl

@[simp] theorem run_cons (s : σ) (i : ι) (is : List ι) :
    m.run s (i :: is) = m.run (m.step s i) is := rfl

theorem run_append (s : σ) (is js : List ι) :
    m.run s (is ++ js) = m.run (m.run s is) js := List.foldl_append

@[simp] theorem outputs_nil (s : σ) : m.outputs s [] = [] := rfl

@[simp] theorem outputs_cons (s : σ) (i : ι) (is : List ι) :
    m.outputs s (i :: is) = m.out s i ++ m.outputs (m.step s i) is := rfl

theorem outputs_append (s : σ) (is js : List ι) :
    m.outputs s (is ++ js) = m.outputs s is ++ m.outputs (m.run s is) js := by
  induction is generalizing s with
  | nil => rfl
  | cons i is ih => simp only [List.cons_append, outputs_cons, run_cons, ih, List.append_assoc]

theorem run_snoc (s : σ) (is : List ι) (i : ι) :
    m.run s (is ++ [i]) = m.step (m.run s is) i := m.run_append s is [i]

theorem outputs_snoc (s : σ) (is : List ι) (i : ι) :
    m.outputs s (is ++ [i]) = m.outputs s is ++ m.out (m.run s is) i := by
  simp [outputs_append]

@[simp] theorem along_nil (P : σ → ι → Prop) (s : σ) : m.Along P s [] := trivial

@[simp] theorem along_cons (P : σ → ι → Prop) (s : σ) (i : ι) (is : List ι) :
    m.Along P s (i :: is) ↔ P s i ∧ m.Along P (m.step s i) is := Iff.rfl

theorem along_append (P : σ → ι → Prop) (s : σ) (is js : List ι) :
    m.Along P s (is ++ js) ↔ m.Along P s is ∧ m.Along P (m.run s is) js := by
  induction is generalizing s with
  | nil => simp
  | cons i is ih => simp only [List.cons_append, along_cons, run_cons, ih, and_assoc]

theorem along_of_forall {P : σ → ι → Prop} (h : ∀ s i, P s i) (s : σ) (is : List ι) :
    m.Along P s is := by
  induction is generalizing s with
  | nil => trivial
  | cons i is ih => exact ⟨h s i, ih _⟩

theorem along_of_mem {Q : ι → Prop} {is : List ι} (h : ∀ i ∈ is, Q i) (s : σ) :
    m.Along (fun _ i => Q i) s is := by
  induction is generalizing s with
  | nil => trivial
  | cons i is ih =>
    exact ⟨h i List.mem_cons_self, ih (fun j hj => h j (List.mem_cons_of_mem i hj)) _⟩

/-- Invariant rule relating the state to everything emitted so far. -/
theorem history_invariant {P : σ → ι → Prop} {J : σ → List ο → Prop}
    (hstep : ∀ s i h, P s i → J s h → J (m.step s i) (h ++ m.out s i))
    {s : σ} {h : List ο} (hs : J s h) {is : List ι} (hP : m.Along P s is) :
    J (m.run s is) (h ++ m.outputs s is) := by
  induction is generalizing s h with
  | nil => simpa using hs
  | cons i is ih =>
    rw [run_cons, outputs_cons, ← List.append_assoc]
    exact ih (hstep s i h hP.1 hs) hP.2

theorem invariant {P : σ → ι → Prop} {J : σ → Prop}
    (hstep : ∀ s i, P s i → J s → J (m.step s i))
    {s : σ} (hs : J s) {is : List ι} (hP : m.Along P s is) : J (m.run s is) := by
  induction is generalizing s with
  | nil => exact hs
  | cons i is ih => exact ih (hstep s i hP.1 hs) hP.2

/-- When the guard is exactly what a step needs to keep the relation, the relation
holds at every moment of a run if and only if the guard holds all along it. -/
theorem history_invariant_iff {P : σ → ι → Prop} {J : σ → List ο → Prop} {is : List ι}
    (hstep : ∀ i ∈ is, ∀ s h, J s h → (J (m.step s i) (h ++ m.out s i) ↔ P s i))
    {s : σ} {h : List ο} (hs : J s h) :
    (∀ k, J (m.run s (is.take k)) (h ++ m.outputs s (is.take k))) ↔ m.Along P s is := by
  induction is generalizing s h with
  | nil => simpa using hs
  | cons i is ih =>
    have ih := @ih fun j hj => hstep j (List.mem_cons_of_mem i hj)
    have hi := hstep i List.mem_cons_self s h hs
    constructor
    · intro hall
      have hone : J (m.step s i) (h ++ m.out s i) := by simpa using hall 1
      refine ⟨hi.mp hone, (ih hone).mp fun k => ?_⟩
      simpa [List.append_assoc] using hall (k + 1)
    · rintro ⟨hP, hrest⟩ k
      have hone := hi.mpr hP
      cases k with
      | zero => simpa using hs
      | succ k => simpa [List.append_assoc] using (ih hone).mpr hrest k

/-- A machine that does on every input what another does on a list of inputs fixed in
advance, under an invariant, does the same over whole runs. -/
theorem simulation {τ κ ο' : Type*} (m' : Machine τ κ ο') {abs : σ → τ} {enc : ι → List κ}
    {f : ο' → ο} {J : σ → Prop}
    (hstep : ∀ s i, J s → J (m.step s i) ∧ abs (m.step s i) = m'.run (abs s) (enc i) ∧
      m.out s i = (m'.outputs (abs s) (enc i)).map f)
    {s : σ} (hs : J s) (is : List ι) :
    abs (m.run s is) = m'.run (abs s) (is.flatMap enc) ∧
      m.outputs s is = (m'.outputs (abs s) (is.flatMap enc)).map f := by
  induction is generalizing s with
  | nil => exact ⟨rfl, rfl⟩
  | cons i is ih =>
    obtain ⟨hJ, habs, hout⟩ := hstep s i hs
    obtain ⟨hrun, houts⟩ := ih hJ
    rw [List.flatMap_cons, m'.run_append, m'.outputs_append, List.map_append, ← habs]
    constructor
    · exact hrun
    · rw [outputs_cons, hout, houts]

/-- What a machine does is at every moment what another does on a list of inputs fixed in
advance, if and only if no step of the run breaks the guard under which a single step is. -/
theorem simulation_iff {τ κ ο' : Type*} (m' : Machine τ κ ο') {abs : σ → τ} {enc : ι → List κ}
    {f : ο' → ο} {J : σ → Prop} {P : σ → ι → Prop} (hkeep : ∀ s i, J s → J (m.step s i))
    (hstep : ∀ s i, J s → (abs (m.step s i) = m'.run (abs s) (enc i) ∧
      m.out s i = (m'.outputs (abs s) (enc i)).map f ↔ P s i))
    {s : σ} (hs : J s) (is : List ι) :
    (∀ k, abs (m.run s (is.take k)) = m'.run (abs s) ((is.take k).flatMap enc) ∧
        m.outputs s (is.take k) = (m'.outputs (abs s) ((is.take k).flatMap enc)).map f) ↔
      m.Along P s is := by
  induction is generalizing s with
  | nil => simp
  | cons i is ih =>
    have ih := ih (hkeep s i hs)
    constructor
    · intro hall
      have hone : abs (m.step s i) = m'.run (abs s) (enc i) ∧
          m.out s i = (m'.outputs (abs s) (enc i)).map f := by simpa using hall 1
      obtain ⟨habs, hout⟩ := hone
      refine ⟨(hstep s i hs).mp ⟨habs, hout⟩, ih.mp fun k => ?_⟩
      obtain ⟨hrun, houts⟩ := hall (k + 1)
      rw [List.take_succ_cons, List.flatMap_cons, m'.run_append, ← habs] at hrun
      rw [List.take_succ_cons, List.flatMap_cons, m'.outputs_append, ← habs, outputs_cons, hout,
        List.map_append] at houts
      exact ⟨hrun, List.append_cancel_left houts⟩
    · intro hP k
      obtain ⟨habs, hout⟩ := (hstep s i hs).mpr hP.1
      cases k with
      | zero => exact ⟨rfl, rfl⟩
      | succ k =>
        obtain ⟨hrun, houts⟩ := ih.mpr hP.2 k
        rw [List.take_succ_cons, List.flatMap_cons, m'.run_append, m'.outputs_append, ← habs,
          List.map_append]
        constructor
        · exact hrun
        · rw [outputs_cons, hout, houts]

/-- The same steps with other outputs. -/
def relabel {κ : Type*} (out : σ → ι → List κ) : Machine σ ι κ := ⟨m.step, out⟩

@[simp] theorem run_relabel {κ : Type*} (out : σ → ι → List κ) (s : σ) (is : List ι) :
    (m.relabel out).run s is = m.run s is := rfl

/-- Outputs that agree one by one at every step agree one by one over whole runs. -/
theorem forall₂_relabel {κ : Type*} {out : σ → ι → List κ} {R : ο → κ → Prop}
    (hstep : ∀ s i, List.Forall₂ R (m.out s i) (out s i)) (s : σ) (is : List ι) :
    List.Forall₂ R (m.outputs s is) ((m.relabel out).outputs s is) := by
  induction is generalizing s with
  | nil => exact .nil
  | cons i is ih => exact List.rel_append (hstep s i) (ih (m.step s i))

/-- A machine that does on every input what another does on the inputs it is translated
to, where the translation may look at the state, does the same over whole runs. -/
theorem simulation_relabel {τ κ : Type*} (m' : Machine τ κ ο) {abs : σ → τ}
    {enc : σ → ι → List κ}
    (hstep : ∀ s i, abs (m.step s i) = m'.run (abs s) (enc s i) ∧
      m.out s i = m'.outputs (abs s) (enc s i)) (s : σ) (is : List ι) :
    abs (m.run s is) = m'.run (abs s) ((m.relabel enc).outputs s is) ∧
      m.outputs s is = m'.outputs (abs s) ((m.relabel enc).outputs s is) := by
  induction is generalizing s with
  | nil => exact ⟨rfl, rfl⟩
  | cons i is ih =>
    obtain ⟨habs, hout⟩ := hstep s i
    obtain ⟨hrun, houts⟩ := ih (m.step s i)
    have hcons : (m.relabel enc).outputs s (i :: is) =
        enc s i ++ (m.relabel enc).outputs (m.step s i) is := rfl
    rw [hcons, m'.run_append, m'.outputs_append, ← habs]
    constructor
    · exact hrun
    · rw [outputs_cons, hout, houts]

end Machine
