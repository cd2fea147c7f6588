import Mathlib.Data.List.Basic
import Mathlib.Data.List.Infix

/-! Texts split at a separator of two different symbols. Occurrences of such a separator
never overlap, so splitting works piece by piece. -/
namespace Lines

variable {α : Type*} [DecidableEq α] (cr lf : α)

def split : List α → List (List α)
  | [] => [[]]
  | [x] => [[x]]
  | x :: y :: rest =>
    if x = cr ∧ y = lf then [] :: split rest else (split (y :: rest)).modifyHead (x :: ·)

variable {cr lf}

theorem split_sep (xs : List α) : split cr lf (cr :: lf :: xs) = [] :: split cr lf xs := by
  rw [split, if_pos ⟨rfl, rfl⟩]

theorem split_cons_of_not {x y : α} (h : ¬ (x = cr ∧ y = lf)) (rest : List α) :
    split cr lf (x :: y :: rest) = (split cr lf (y :: rest)).modifyHead (x :: ·) := by
  rw [split, if_neg h]

variable (cr lf) in
theorem split_ne_nil (xs : List α) : split cr lf xs ≠ [] := by
  induction xs using split.induct cr lf with
  | case1 => exact List.cons_ne_nil _ _
  | case2 x => exact List.cons_ne_nil _ _
  | case3 x y rest h ih =>
    obtain ⟨rfl, rfl⟩ := h
    rw [split_sep]
    exact List.cons_ne_nil _ _
  | case4 x y rest h ih =>
    rw [split_cons_of_not h, ne_eq, List.modifyHead_eq_nil_iff]
    exact ih

omit [DecidableEq α] in
private theorem modifyHead_append {ls : List (List α)} (h : ls ≠ []) (f : List α → List α)
    (ms : List (List α)) : (ls ++ ms).modifyHead f = ls.modifyHead f ++ ms := by
  cases ls with
  | nil => exact absurd rfl h
  | cons l ls => rfl

/-- A separator ends a piece wherever it stands. -/
theorem split_append_sep (h : cr ≠ lf) (xs ys : List α) :
    split cr lf (xs ++ cr :: lf :: ys) = split cr lf xs ++ split cr lf ys := by
  induction xs using split.induct cr lf with
  | case1 => exact split_sep ys
  | case2 x =>
    have hpair : ¬ (x = cr ∧ cr = lf) := fun hx => h hx.2
    rw [List.singleton_append, split_cons_of_not hpair, split_sep]
    rfl
  | case3 x y rest hsep ih =>
    obtain ⟨rfl, rfl⟩ := hsep
    rw [List.cons_append, List.cons_append, split_sep, split_sep, ih]
    rfl
  | case4 x y rest hsep ih =>
    rw [List.cons_append, List.cons_append, split_cons_of_not hsep, split_cons_of_not hsep,
      ← List.cons_append, ih, modifyHead_append (split_ne_nil _ _ _)]

/-- A text without separator is one piece. -/
theorem split_eq_singleton_iff (h : cr ≠ lf) (xs : List α) :
    split cr lf xs = [xs] ↔ ¬ [cr, lf] <:+: xs := by
  constructor
  · rintro hone ⟨a, b, rfl⟩
    have htwo : split cr lf (a ++ [cr, lf] ++ b) = split cr lf a ++ split cr lf b := by
      rw [List.append_assoc]
      exact split_append_sep h a b
    have ha := List.length_pos_of_ne_nil (split_ne_nil cr lf a)
    have hb := List.length_pos_of_ne_nil (split_ne_nil cr lf b)
    have hlen := congrArg List.length (htwo.symm.trans hone)
    rw [List.length_append, List.length_singleton] at hlen
    omega
  · intro hno
    induction xs using split.induct cr lf with
    | case1 => rfl
    | case2 x => rfl
    | case3 x y rest hsep ih =>
      obtain ⟨rfl, rfl⟩ := hsep
      exact absurd ⟨[], rest, rfl⟩ hno
    | case4 x y rest hsep ih =>
      have hrest : ¬ [cr, lf] <:+: y :: rest := fun hin => hno (List.infix_cons hin)
      rw [split_cons_of_not hsep, ih hrest]
      rfl

/-- Every line gives its pieces, and after the last separator there is nothing. -/
theorem split_lines (h : cr ≠ lf) (ls : List (List α)) :
    split cr lf (ls.flatMap (· ++ [cr, lf])) = ls.flatMap (split cr lf) ++ [[]] := by
  induction ls with
  | nil => rfl
  | cons l ls ih =>
    rw [List.flatMap_cons, List.append_assoc, List.flatMap_cons, List.append_assoc, ← ih]
    exact split_append_sep h l _

variable (cr lf) in
theorem length_le_flatMap_split (ls : List (List α)) :
    ls.length ≤ (ls.flatMap (split cr lf)).length := by
  induction ls with
  | nil => exact le_rfl
  | cons l ls ih =>
    have hl := List.length_pos_of_ne_nil (split_ne_nil cr lf l)
    rw [List.flatMap_cons, List.length_append, List.length_cons]
    omega

theorem flatMap_split_eq_iff (h : cr ≠ lf) (ls : List (List α)) :
    ls.flatMap (split cr lf) = ls ↔ ∀ l ∈ ls, ¬ [cr, lf] <:+: l := by
  induction ls with
  | nil => simp
  | cons l ls ih =>
    rw [List.flatMap_cons, List.forall_mem_cons, ← ih, ← split_eq_singleton_iff h]
    constructor
    · intro heq
      have hl := List.length_pos_of_ne_nil (split_ne_nil cr lf l)
      have hls := length_le_flatMap_split cr lf ls
      have hlen := congrArg List.length heq
      rw [List.length_append, List.length_cons] at hlen
      obtain ⟨piece, hpiece⟩ := List.length_eq_one_iff.mp (show (split cr lf l).length = 1 by omega)
      rw [hpiece, List.singleton_append, List.cons.injEq] at heq
      rw [hpiece, heq.1]
      exact ⟨rfl, heq.2⟩
    · rintro ⟨hl, hls⟩
      rw [hl, hls, List.singleton_append]

/-- Lines are read back one by one exactly when none of them contains the separator. -/
theorem split_lines_iff (h : cr ≠ lf) (ls : List (List α)) :
    split cr lf (ls.flatMap (· ++ [cr, lf])) = ls ++ [[]] ↔ ∀ l ∈ ls, ¬ [cr, lf] <:+: l := by
  rw [split_lines h, List.append_left_inj, flatMap_split_eq_iff h]

variable (cr lf) in
/-- A text is its pieces with a separator in front of each. -/
theorem flatMap_split (xs : List α) :
    (split cr lf xs).flatMap (fun l => cr :: lf :: l) = cr :: lf :: xs := by
  induction xs using split.induct cr lf with
  | case1 => rfl
  | case2 x => rfl
  | case3 x y rest h ih =>
    obtain ⟨rfl, rfl⟩ := h
    rw [split_sep, List.flatMap_cons, ih]
    rfl
  | case4 x y rest h ih =>
    obtain ⟨l, ls, hsplit⟩ := List.exists_cons_of_ne_nil (split_ne_nil cr lf (y :: rest))
    rw [hsplit, List.flatMap_cons, List.cons_append, List.cons_append, List.cons.injEq,
      List.cons.injEq] at ih
    rw [split_cons_of_not h, hsplit, List.modifyHead_cons, List.flatMap_cons, ← ih.2.2]
    rfl

/-- A piece is empty where two separators meet, or one stands at an end. -/
theorem nil_mem_split_iff (h : cr ≠ lf) (xs : List α) :
    [] ∈ split cr lf xs ↔ [cr, lf] ++ [cr, lf] <:+: [cr, lf] ++ xs ++ [cr, lf] := by
  constructor
  · intro hnil
    obtain ⟨before, after, hsplit⟩ := List.append_of_mem hnil
    have htext := flatMap_split cr lf xs
    rw [hsplit, List.flatMap_append, List.flatMap_cons] at htext
    have htext : [cr, lf] ++ xs = before.flatMap (fun l => cr :: lf :: l) ++
        ([cr, lf] ++ after.flatMap fun l => cr :: lf :: l) := htext.symm
    rw [htext]
    refine ⟨before.flatMap fun l => cr :: lf :: l, ?_⟩
    cases after with
    | nil => exact ⟨[], by simp⟩
    | cons l after => exact ⟨l ++ after.flatMap (fun l => cr :: lf :: l) ++ [cr, lf], by simp⟩
  · rintro ⟨a, b, htext⟩
    have hpieces : [] :: (split cr lf xs ++ [[]]) = split cr lf a ++ [] :: split cr lf b := by
      have hleft : split cr lf ([cr, lf] ++ xs ++ [cr, lf]) = [] :: (split cr lf xs ++ [[]]) := by
        rw [List.append_assoc]
        exact (split_sep _).trans (congrArg _ (split_append_sep h xs []))
      have hright : split cr lf (a ++ ([cr, lf] ++ [cr, lf]) ++ b) =
          split cr lf a ++ [] :: split cr lf b := by
        rw [List.append_assoc]
        exact (split_append_sep h a _).trans (congrArg _ (split_sep b))
      rw [← hleft, ← hright, htext]
    obtain ⟨piece, rest, ha⟩ := List.exists_cons_of_ne_nil (split_ne_nil cr lf a)
    obtain ⟨init, last, hb⟩ := List.eq_nil_or_concat (split cr lf b) |>.resolve_left (split_ne_nil cr lf b)
    rw [ha, hb, List.cons_append, List.cons.injEq] at hpieces
    have hmiddle : split cr lf xs ++ [[]] = (rest ++ [] :: init) ++ [last] := by
      rw [hpieces.2, List.append_assoc, List.concat_eq_append]
      rfl
    rw [(List.append_inj' hmiddle rfl).1]
    simp

/-! ### Where a separator can stand -/

omit [DecidableEq α] in
/-- A symbol that a pattern does not contain keeps its occurrences on either side. -/
theorem infix_append_cons_iff {p a b : List α} {x : α} (hp : p ≠ []) (hx : x ∉ p) :
    p <:+: a ++ x :: b ↔ p <:+: a ∨ p <:+: b := by
  constructor
  · rintro ⟨s, t, hst⟩
    rw [List.append_assoc] at hst
    rcases List.append_eq_append_iff.mp hst with ⟨c, ha, hc⟩ | ⟨c, hs, hc⟩
    · rcases List.append_eq_append_iff.mp hc with ⟨d, hd, -⟩ | ⟨d, hd, hxb⟩
      · exact Or.inl ⟨s, d, by rw [ha, hd, List.append_assoc]⟩
      · cases d with
        | nil => exact Or.inl ⟨s, [], by rw [ha, hd, List.append_nil, List.append_nil]⟩
        | cons y d =>
          rw [List.cons_append, List.cons.injEq] at hxb
          exact absurd (by rw [hd, hxb.1]; simp) hx
    · cases c with
      | nil =>
        obtain ⟨y, p, rfl⟩ := List.exists_cons_of_ne_nil hp
        rw [List.nil_append, List.cons_append, List.cons.injEq] at hc
        exact absurd (by rw [hc.1]; simp) hx
      | cons y c =>
        rw [List.cons_append, List.cons.injEq] at hc
        exact Or.inr ⟨c, t, by rw [hc.2, List.append_assoc]⟩
  · rintro (h | h)
    · exact h.trans (List.infix_append' [] a _)
    · exact h.trans (List.infix_append' (a ++ [x]) b [] |>.trans (by simp))

end Lines
