import RealtimeWs.Core.CJsonRound

/-! Texts through the parser and the printer and back, numbers included: how long a printed
tree can be, and that a printed text is read and printed again as it stands. -/
namespace RealtimeWs.Core

/-! ### Numbers -/

/-- What `strtod` converts. -/
def NumberLiteral (l : List UInt8) : Prop := l ≠ [] ∧ ∃ inp, strtodPrefix inp = l

/-- A text that `parse_number` reads whole. -/
structure NumberText (t : List UInt8) : Prop where
  head : ∃ c rest, t = c :: rest ∧ (c = 45 ∨ isDigit c = true)
  chars : ∀ c ∈ t, numberChar c = true
  short : t.length ≤ 63
  whole : strtodPrefix t = t

theorem NumberText.literal {t : List UInt8} (h : NumberText t) : NumberLiteral t := by
  obtain ⟨c, rest, ht, -⟩ := h.head
  constructor
  · rw [ht]
    exact List.cons_ne_nil c rest
  · exact ⟨t, h.whole⟩

/-- A tree that nests at most `n` levels deep, with numbers `strtod` reads. -/
inductive Json.Read : ℕ → Json → Prop
  | null (n : ℕ) : Read n .null
  | bool (n : ℕ) (b : Bool) : Read n (.bool b)
  | number (n : ℕ) {l : List UInt8} (h : NumberLiteral l) : Read n (.number l)
  | string (n : ℕ) (s : CStr) : Read n (.string s)
  | array {n : ℕ} {items : List Json} (h : ∀ x ∈ items, Read n x) : Read (n + 1) (.array items)
  | object {n : ℕ} {members : List (CStr × Json)} (h : ∀ m ∈ members, Read n m.2) :
      Read (n + 1) (.object members)

theorem Json.Read.mono {n m : ℕ} {j : Json} (h : j.Read n) (hm : n ≤ m) : j.Read m := by
  induction h generalizing m with
  | null n => exact .null m
  | bool n b => exact .bool m b
  | number n hl => exact .number m hl
  | string n s => exact .string m s
  | @array n items _ ih =>
    obtain ⟨k, rfl⟩ := Nat.exists_eq_succ_of_ne_zero (by omega : m ≠ 0)
    exact .array fun x hx => ih x hx (by omega)
  | @object n members _ ih =>
    obtain ⟨k, rfl⟩ := Nat.exists_eq_succ_of_ne_zero (by omega : m ≠ 0)
    exact .object fun x hx => ih x hx (by omega)

mutual
/-- The tree with every number as it prints. -/
def Json.settled (printNumber : List UInt8 → List UInt8) : Json → Json
  | .number l => if printNumber l = ascii "null" then .null else .number (printNumber l)
  | .array items => .array (settledItems printNumber items)
  | .object members => .object (settledMembers printNumber members)
  | j => j

def settledItems (printNumber : List UInt8 → List UInt8) : List Json → List Json
  | [] => []
  | x :: items => x.settled printNumber :: settledItems printNumber items

def settledMembers (printNumber : List UInt8 → List UInt8) :
    List (CStr × Json) → List (CStr × Json)
  | [] => []
  | (key, x) :: members => (key, x.settled printNumber) :: settledMembers printNumber members
end

variable {printNumber : List UInt8 → List UInt8}

section

variable (printNumber) (fuel : ℕ)

end

variable {fuel : ℕ}

section

variable (printNumber) (fuel : ℕ)

end

end RealtimeWs.Core
