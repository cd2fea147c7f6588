import RealtimeWs.Lib.Machine

/-! A buffer that takes items one by one and hands them on in blocks of a fixed size. An item
that finds the buffer at its bound is refused. -/
namespace Packer

variable {α : Type*}

inductive Event (α : Type*)
  | block (items : List α)
  | refused (item : α)
  deriving DecidableEq, Repr

/-- What is held with one item more. -/
def kept (bound : ℕ) (hold : List α) (item : α) : List α :=
  if hold.length < bound then hold ++ [item] else hold

def machine (size bound : ℕ) : Machine (List α) α (Event α) where
  step hold item :=
    if size ≤ (kept bound hold item).length then [] else kept bound hold item
  out hold item :=
    (if hold.length < bound then [] else [.refused item]) ++
      if size ≤ (kept bound hold item).length then [.block ((kept bound hold item).take size)]
      else []

/-- The items an event hands on. -/
def Event.items : Event α → List α
  | .block items => items
  | .refused _ => []

variable {size bound : ℕ} {hold : List α}

theorem kept_of_small (hbound : size ≤ bound) (h : hold.length < size) (item : α) :
    kept bound hold item = hold ++ [item] := if_pos (Nat.lt_of_lt_of_le h hbound)

theorem step_small (hsize : 0 < size) (item : α) :
    ((machine size bound).step hold item).length < size := by
  change (if size ≤ (kept bound hold item).length then [] else _).length < size
  split
  · exact hsize
  · rename_i hpart
    exact Nat.lt_of_not_le hpart

/-- What is handed on and what is held is what was held and the item. -/
theorem step_conserved (hbound : size ≤ bound) (h : hold.length < size) (item : α) :
    ((machine size bound).out hold item).flatMap Event.items ++
      (machine size bound).step hold item = hold ++ [item] := by
  have hlen : (hold ++ [item]).length = hold.length + 1 := List.length_append
  simp only [machine, kept_of_small hbound h, if_pos (Nat.lt_of_lt_of_le h hbound),
    List.nil_append]
  split
  · have htake : (hold ++ [item]).take size = hold ++ [item] :=
      List.take_of_length_le (by omega)
    rw [htake]
    simp [Event.items]
  · rfl

/-- Nothing is refused, and every block has the size of a block. -/
theorem out_block (hbound : size ≤ bound) (h : hold.length < size) (item : α) :
    ∀ e ∈ (machine size bound).out hold item, ∃ items, e = .block items ∧ items.length = size := by
  have hlen : (hold ++ [item]).length = hold.length + 1 := List.length_append
  simp only [machine, kept_of_small hbound h, if_pos (Nat.lt_of_lt_of_le h hbound),
    List.nil_append]
  intro e he
  split at he
  · refine ⟨_, List.mem_singleton.mp he, ?_⟩
    rw [List.length_take]
    omega
  · cases he

/-! ### Runs -/

theorem run_small (h : hold.length < size) (items : List α) :
    ((machine size bound).run hold items).length < size :=
  (machine size bound).invariant (P := fun _ _ => True)
    (fun _ item _ h => step_small (Nat.zero_lt_of_lt h) item) h
    ((machine size bound).along_of_forall (fun _ _ => trivial) hold items)

theorem run_conserved (hbound : size ≤ bound) (h : hold.length < size) (items : List α) :
    ((machine size bound).outputs hold items).flatMap Event.items ++
      (machine size bound).run hold items = hold ++ items := by
  induction items generalizing hold with
  | nil => exact (List.append_nil hold).symm
  | cons item items ih =>
    have hsmall : ((machine size bound).step hold item).length < size :=
      step_small (Nat.zero_lt_of_lt h) item
    have hnext := ih hsmall
    rw [Machine.outputs_cons, Machine.run_cons, List.flatMap_append, List.append_assoc, hnext,
      ← List.append_assoc, step_conserved hbound h, List.append_assoc, List.singleton_append]

theorem outputs_block (hbound : size ≤ bound) (h : hold.length < size) (items : List α) :
    ∀ e ∈ (machine size bound).outputs hold items,
      ∃ block, e = .block block ∧ block.length = size := by
  induction items generalizing hold with
  | nil => nofun
  | cons item items ih =>
    intro e he
    rw [Machine.outputs_cons] at he
    rcases List.mem_append.mp he with hnow | hlater
    · exact out_block hbound h item e hnow
    · exact ih (step_small (Nat.zero_lt_of_lt h) item) e hlater

/-- What is handed on and held tells the items. -/
theorem items_eq_of_same (hbound : size ≤ bound) (h : hold.length < size) {items items' : List α}
    (hout : (machine size bound).outputs hold items = (machine size bound).outputs hold items')
    (hrun : (machine size bound).run hold items = (machine size bound).run hold items') :
    items = items' := by
  have hall := run_conserved hbound h items
  rw [hout, hrun, run_conserved hbound h items'] at hall
  exact (List.append_cancel_left hall).symm

end Packer
