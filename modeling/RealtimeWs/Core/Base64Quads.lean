import RealtimeWs.Core.Base64

/-! The decoder seen through the quads of its input: white space does not matter, and each
quad of four other characters is one round of the outer loop. -/
namespace RealtimeWs.Core

/-- White space, which the inner loop skips. -/
def isSkipped (c : UInt8) : Bool := c = 32 ∨ c = 10 ∨ c = 13 ∨ c = 9

/-- The characters the decoder looks at. -/
def significant (inp : List UInt8) : List UInt8 := inp.filter fun c => !isSkipped c

/-- Padding counts as zero. -/
def charValue (c : UInt8) : Option ℕ := if c = 61 then some 0 else decVal c

/-- Groups of four; the last one may be shorter. -/
def quads : List UInt8 → List (List UInt8)
  | a :: b :: c :: d :: rest => [a, b, c, d] :: quads rest
  | [a, b, c] => [[a, b, c]]
  | [a, b] => [[a, b]]
  | [a] => [[a]]
  | [] => []

@[simp] theorem quads_nil : quads [] = [] := rfl

theorem quads_of_ne_nil {t : List UInt8} (h : t ≠ []) :
    quads t = t.take 4 :: quads (t.drop 4) := by
  match t with
  | [] => exact absurd rfl h
  | [a] => rfl
  | [a, b] => rfl
  | [a, b, c] => rfl
  | a :: b :: c :: d :: rest => rfl

theorem flatten_quads (t : List UInt8) : (quads t).flatten = t := by
  fun_induction quads t with
  | case1 a b c d rest ih => rw [List.flatten_cons, ih]; rfl
  | case2 | case3 | case4 | case5 => rfl

theorem length_quads (t : List UInt8) : (quads t).length = (t.length + 3) / 4 := by
  fun_induction quads t with
  | case1 a b c d rest ih =>
    simp only [List.length_cons, ih]
    omega
  | case2 | case3 | case4 | case5 => simp

/-- Every quad is complete exactly when the length is a multiple of four. -/
theorem complete_quads_iff (t : List UInt8) : (∀ q ∈ quads t, q.length = 4) ↔ 4 ∣ t.length := by
  fun_induction quads t with
  | case1 a b c d rest ih =>
    rw [List.forall_mem_cons, ih]
    simp only [List.length_cons, List.length_nil, true_and]
    omega
  | case2 | case3 | case4 | case5 => simp

/-! ### One quad -/

theorem readQuad_skip {c : UInt8} (hc : isSkipped c = true) (rest : List UInt8) {val : List ℕ}
    (hval : val.length ≠ 4) (pad : ℕ) : readQuad (c :: rest) val pad = readQuad rest val pad := by
  have hskip : c = 32 ∨ c = 10 ∨ c = 13 ∨ c = 9 := by simpa [isSkipped] using hc
  rw [readQuad, if_neg hval, if_pos hskip]

/-- A character of the alphabet or a padding character is taken; any other ends the decoding. -/
theorem readQuad_take {c : UInt8} (hc : isSkipped c = false) (rest : List UInt8) {val : List ℕ}
    (hval : val.length ≠ 4) (pad : ℕ) : readQuad (c :: rest) val pad =
      (charValue c).bind fun d => readQuad rest (val ++ [d]) (pad + if c = 61 then 1 else 0) := by
  have hskip : ¬ (c = 32 ∨ c = 10 ∨ c = 13 ∨ c = 9) := by simpa [isSkipped] using hc
  rw [readQuad, if_neg hval, if_neg hskip, charValue]
  by_cases hpad : c = 61
  · rw [if_pos hpad, if_pos hpad, if_pos hpad]
    rfl
  · rw [if_neg hpad, if_neg hpad, if_neg hpad]
    cases decVal c with
    | none => rfl
    | some d => rfl

theorem significant_skip {c : UInt8} (hc : isSkipped c = true) (rest : List UInt8) :
    significant (c :: rest) = significant rest := by
  rw [significant, List.filter_cons_of_neg (by simp [hc])]
  rfl

theorem significant_take {c : UInt8} (hc : isSkipped c = false) (rest : List UInt8) :
    significant (c :: rest) = c :: significant rest := by
  rw [significant, List.filter_cons_of_pos (by simp [hc])]
  rfl

theorem length_significant_le (inp : List UInt8) : (significant inp).length ≤ inp.length :=
  List.length_filter_le _ _

@[simp] theorem significant_significant (inp : List UInt8) :
    significant (significant inp) = significant inp := by
  rw [significant, significant, List.filter_filter]
  simp only [Bool.and_self]

/-- The inner loop takes the next `n` significant characters. -/
theorem readQuad_spec {n : ℕ} (inp : List UInt8) {val : List ℕ} (hval : val.length + n = 4)
    (pad : ℕ) :
    match ((significant inp).take n).mapM charValue with
    | none => readQuad inp val pad = none
    | some vals => ∃ rest, readQuad inp val pad =
          some (val ++ vals, pad + ((significant inp).take n).count 61, rest) ∧
        significant rest = (significant inp).drop n ∧ rest.length + vals.length ≤ inp.length := by
  induction inp generalizing n val pad with
  | nil =>
    rw [significant, List.filter_nil, List.take_nil]
    exact ⟨[], by simp [readQuad], by simp [significant], Nat.le_refl 0⟩
  | cons c inp ih =>
    cases n with
    | zero => exact ⟨c :: inp, by rw [readQuad_full _ (by omega)]; simp, by simp, by simp⟩
    | succ n =>
      have hlen : val.length ≠ 4 := by omega
      cases hc : isSkipped c with
      | true =>
        have hih := ih hval pad
        rw [readQuad_skip hc inp hlen, significant_skip hc]
        cases hvals : ((significant inp).take (n + 1)).mapM charValue with
        | none =>
          rw [hvals] at hih
          exact hih
        | some vals =>
          rw [hvals] at hih
          obtain ⟨rest, hread, hsig, hle⟩ := hih
          refine ⟨rest, hread, hsig, ?_⟩
          rw [List.length_cons]
          omega
      | false =>
        rw [readQuad_take hc inp hlen, significant_take hc, List.take_succ_cons, List.mapM_cons]
        cases hd : charValue c with
        | none => rfl
        | some d =>
          have hsum : (val ++ [d]).length + n = 4 := by
            rw [List.length_append, List.length_singleton]
            omega
          have hih := ih hsum (pad + if c = 61 then 1 else 0)
          cases hvals : ((significant inp).take n).mapM charValue with
          | none =>
            rw [hvals] at hih
            exact hih
          | some vals =>
            rw [hvals] at hih
            obtain ⟨rest, hread, hsig, hle⟩ := hih
            refine ⟨rest, ?_, hsig, ?_⟩
            · change readQuad inp (val ++ [d]) (pad + if c = 61 then 1 else 0) = _
              rw [hread, List.count_cons, List.append_assoc]
              simp only [beq_iff_eq, List.singleton_append, Nat.add_assoc,
                Nat.add_comm (if c = 61 then 1 else 0)]
            · simp only [List.length_cons]
              omega

/-! ### The outer loop -/

/-- The outer loop of the decoder with its stores `out[o++] = b`: the return value, and the
byte and the index of every store, also of those before a failure. -/
def decodeStoresLoop (outCap : ℕ) : ℕ → List UInt8 → ℕ → Option ℕ × List (UInt8 × ℕ)
  | 0, _, o => (some o, [])
  | _ + 1, [], o => (some o, [])
  | fuel + 1, c :: rest, o =>
    match readQuad (c :: rest) [] 0 with
    | none => (none, [])
    | some (val, pad, inp) =>
      if val.length = 0 then (some o, [])
      else if val.length ≠ 4 then (none, [])
      else if (o + ((3 - (pad : ℤ)) % 2 ^ 64).toNat) % 2 ^ 64 > outCap then (none, [])
      else
        let r := decodeStoresLoop outCap fuel inp (o + (quadBytes val pad).length)
        (r.1, (quadBytes val pad).zipIdx o ++ r.2)

def decodeStores (inp : List UInt8) (outCap : ℕ) : Option ℕ × List (UInt8 × ℕ) :=
  decodeStoresLoop outCap inp.length inp 0

/-- What the decoder returns is what it stored. -/
theorem decodeLoop_eq_stores (outCap fuel : ℕ) (inp out : List UInt8) :
    decodeLoop outCap fuel inp out = (decodeStoresLoop outCap fuel inp out.length).1.map fun _ =>
      out ++ (decodeStoresLoop outCap fuel inp out.length).2.map Prod.fst := by
  induction fuel generalizing inp out with
  | zero => simp [decodeLoop, decodeStoresLoop]
  | succ fuel ih =>
    cases inp with
    | nil => simp [decodeLoop, decodeStoresLoop]
    | cons c inp =>
      rw [decodeLoop, decodeStoresLoop]
      cases readQuad (c :: inp) [] 0 with
      | none => rfl
      | some r =>
        obtain ⟨val, pad, rest⟩ := r
        dsimp only
        split_ifs
        · simp
        · rfl
        · rfl
        · have hround := ih rest (out ++ quadBytes val pad)
          rw [List.length_append] at hround
          rw [hround, List.map_append, List.zipIdx_map_fst, List.append_assoc]

private theorem mapM_cons_some {c : UInt8} {q : List UInt8} {val : List ℕ}
    (h : (c :: q).mapM charValue = some val) :
    ∃ d vals, charValue c = some d ∧ q.mapM charValue = some vals ∧ val = d :: vals := by
  rw [List.mapM_cons] at h
  cases hd : charValue c with
  | none =>
    rw [hd] at h
    cases h
  | some d =>
    cases hvals : q.mapM charValue with
    | none =>
      rw [hd, hvals] at h
      cases h
    | some vals =>
      rw [hd, hvals] at h
      cases h
      exact ⟨d, vals, rfl, rfl, rfl⟩

theorem length_of_values {q : List UInt8} {val : List ℕ} (h : q.mapM charValue = some val) :
    val.length = q.length := by
  induction q generalizing val with
  | nil =>
    cases h
    rfl
  | cons c q ih =>
    obtain ⟨d, vals, -, hvals, rfl⟩ := mapM_cons_some h
    rw [List.length_cons, List.length_cons, ih hvals]

/-- A quad has values when all its characters do. -/
theorem values_isSome_iff (q : List UInt8) :
    (q.mapM charValue).isSome ↔ ∀ c ∈ q, (charValue c).isSome := by
  induction q with
  | nil => exact ⟨fun _ c hc => absurd hc List.not_mem_nil, fun _ => rfl⟩
  | cons c q ih =>
    rw [List.forall_mem_cons, ← ih, List.mapM_cons]
    cases charValue c with
    | none => simp
    | some d =>
      cases q.mapM charValue with
      | none => simp
      | some vals => simp

/-- The capacity test of one round, in `size_t` arithmetic. -/
def FitsIn (outCap o pad : ℕ) : Prop :=
  (o + ((3 - (pad : ℤ)) % 2 ^ 64).toNat) % 2 ^ 64 ≤ outCap

instance (outCap o pad : ℕ) : Decidable (FitsIn outCap o pad) :=
  inferInstanceAs (Decidable (_ ≤ _))

/-- The outer loop on quads: whether it succeeds, and all it stored. -/
def decodeQuads (outCap : ℕ) : List (List UInt8) → List UInt8 → Bool × List UInt8
  | [], out => (true, out)
  | q :: qs, out =>
    match q.mapM charValue with
    | none => (false, out)
    | some val =>
      if q.length = 4 ∧ FitsIn outCap out.length (q.count 61) then
        decodeQuads outCap qs (out ++ quadBytes val (q.count 61))
      else (false, out)

/-- One round of the outer loop meets only white space, or takes one quad or fails on it. -/
theorem readQuad_cases (inp : List UInt8) :
    (quads (significant inp) = [] ∧ ∃ rest, readQuad inp [] 0 = some ([], 0, rest)) ∨
      ∃ q qs, quads (significant inp) = q :: qs ∧
        ((q.mapM charValue = none ∧ readQuad inp [] 0 = none) ∨
          ∃ val rest, q.mapM charValue = some val ∧
            readQuad inp [] 0 = some (val, q.count 61, rest) ∧ val.length = q.length ∧
            val.length ≠ 0 ∧ quads (significant rest) = qs ∧ rest.length < inp.length) := by
  have hfour : ([] : List ℕ).length + 4 = 4 := rfl
  have hspec := readQuad_spec inp hfour 0
  by_cases hnil : significant inp = []
  · rw [hnil] at hspec
    obtain ⟨rest, hread, -, -⟩ := hspec
    exact Or.inl ⟨by rw [hnil]; rfl, rest, hread⟩
  · refine Or.inr ⟨_, _, quads_of_ne_nil hnil, ?_⟩
    cases hval : ((significant inp).take 4).mapM charValue with
    | none =>
      rw [hval] at hspec
      exact Or.inl ⟨rfl, hspec⟩
    | some val =>
      rw [hval] at hspec
      obtain ⟨rest, hread, hsig, hle⟩ := hspec
      rw [List.nil_append, Nat.zero_add] at hread
      have hlen := length_of_values hval
      have hpos := List.length_pos_iff.mpr hnil
      have hval0 : val.length ≠ 0 := by
        rw [hlen, List.length_take]
        omega
      exact Or.inr ⟨val, rest, rfl, hread, hlen, hval0, by rw [hsig], by omega⟩

/-- One round of the outer loop is one quad; stores go to one index after the other. -/
theorem decodeStoresLoop_eq (outCap : ℕ) {fuel : ℕ} {inp : List UInt8} (hfuel : inp.length ≤ fuel)
    (out : List UInt8) : ∃ new, (decodeQuads outCap (quads (significant inp)) out).2 = out ++ new ∧
      decodeStoresLoop outCap fuel inp out.length =
        (if (decodeQuads outCap (quads (significant inp)) out).1 then some (out ++ new).length
          else none, new.zipIdx out.length) := by
  induction fuel generalizing inp out with
  | zero =>
    rw [List.length_eq_zero_iff.mp (Nat.le_zero.mp hfuel)]
    exact ⟨[], (List.append_nil out).symm, by simp [decodeStoresLoop, significant, decodeQuads]⟩
  | succ fuel ih =>
    cases inp with
    | nil =>
      exact ⟨[], (List.append_nil out).symm, by simp [decodeStoresLoop, significant, decodeQuads]⟩
    | cons c inp =>
      rw [decodeStoresLoop]
      rcases readQuad_cases (c :: inp) with ⟨hqs, rest, hread⟩ | ⟨q, qs, hqs, hround⟩
      · rw [hqs, hread]
        exact ⟨[], (List.append_nil out).symm, by simp [decodeQuads]⟩
      · rw [hqs, decodeQuads]
        rcases hround with ⟨hval, hread⟩ | ⟨val, rest, hval, hread, hlen, hval0, hrest, hlt⟩
        · simp only [hval, hread]
          exact ⟨[], (List.append_nil out).symm, rfl⟩
        · simp only [hval, hread, if_neg hval0]
          by_cases hfour : val.length = 4
          · rw [if_neg (not_not.mpr hfour)]
            by_cases hfits : FitsIn outCap out.length (q.count 61)
            · have hfuel : rest.length ≤ fuel := by
                rw [List.length_cons] at hfuel hlt
                omega
              obtain ⟨new, hout, hstores⟩ := ih hfuel (out ++ quadBytes val (q.count 61))
              rw [hrest] at hout hstores
              rw [List.length_append] at hstores
              simp only [if_neg (Nat.not_lt.mpr hfits), if_pos (And.intro (hlen ▸ hfour) hfits)]
              refine ⟨quadBytes val (q.count 61) ++ new, ?_, ?_⟩
              · rw [hout, List.append_assoc]
              · rw [hstores, List.zipIdx_append, List.append_assoc]
            · simp only [if_pos (Nat.lt_of_not_le hfits), if_neg (fun h => hfits (And.right h))]
              exact ⟨[], (List.append_nil out).symm, rfl⟩
          · simp only [if_pos hfour, if_neg (fun h => hfour (hlen.trans (And.left h)))]
            exact ⟨[], (List.append_nil out).symm, rfl⟩

/-- The stores of a call, in order from index 0, and its return value. -/
theorem decodeStores_quads (inp : List UInt8) (outCap : ℕ) : decodeStores inp outCap =
    (if (decodeQuads outCap (quads (significant inp)) []).1 then
        some (decodeQuads outCap (quads (significant inp)) []).2.length else none,
      (decodeQuads outCap (quads (significant inp)) []).2.zipIdx 0) := by
  obtain ⟨new, hout, hstores⟩ := decodeStoresLoop_eq outCap (le_refl inp.length) []
  rw [hout]
  exact hstores

theorem rtwBase64Decode_eq (inp : List UInt8) (outCap : ℕ) : rtwBase64Decode inp outCap =
    if (decodeQuads outCap (quads (significant inp)) []).1 then
      some (decodeQuads outCap (quads (significant inp)) []).2 else none := by
  have hreturned : rtwBase64Decode inp outCap = (decodeStores inp outCap).1.map fun _ =>
      (decodeStores inp outCap).2.map Prod.fst :=
    decodeLoop_eq_stores outCap inp.length inp []
  rw [hreturned, decodeStores_quads]
  dsimp only
  rw [List.zipIdx_map_fst]
  split <;> rfl

/-- The stores of a call are the decoded bytes. -/
theorem decodeStores_eq (inp : List UInt8) (outCap : ℕ) : decodeStores inp outCap =
    ((rtwBase64Decode inp outCap).map List.length,
      (decodeQuads outCap (quads (significant inp)) []).2.zipIdx 0) := by
  rw [decodeStores_quads, rtwBase64Decode_eq]
  split <;> rfl

/-- White space may stand anywhere. -/
theorem rtwBase64Decode_significant (inp : List UInt8) (outCap : ℕ) :
    rtwBase64Decode (significant inp) outCap = rtwBase64Decode inp outCap := by
  rw [rtwBase64Decode_eq, rtwBase64Decode_eq, significant_significant]

end RealtimeWs.Core
