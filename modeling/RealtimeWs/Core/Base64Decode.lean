import RealtimeWs.Core.Base64Quads

/-! What the decoder stores, accepts and returns, for every input and every capacity. -/
namespace RealtimeWs.Core

/-! ### Stores -/

/-- Bytes one quad stores. -/
def storedBytes (pad : ℕ) : ℕ := if pad = 0 then 3 else if pad = 1 then 2 else 1

theorem length_quadBytes (val : List ℕ) (pad : ℕ) :
    (quadBytes val pad).length = storedBytes pad := by
  unfold quadBytes storedBytes
  rcases pad with _ | _ | pad <;> simp

/-! ### The capacity test -/

/-- Four padding characters make `3 - pad` wrap around, except in the first quad. -/
theorem fits_iff (outCap : ℕ) {o pad : ℕ} (ho : o + 3 < 2 ^ 64) (hpad : pad ≤ 4) : FitsIn outCap o pad ↔
    if pad ≤ 3 then o + (3 - pad) ≤ outCap
    else if o = 0 then 2 ^ 64 - 1 ≤ outCap else o - 1 ≤ outCap := by
  unfold FitsIn
  by_cases hthree : pad ≤ 3
  · have hlen : ((3 - (pad : ℤ)) % 2 ^ 64).toNat = 3 - pad := by omega
    rw [if_pos hthree, hlen, Nat.mod_eq_of_lt (by omega)]
  · have hlen : ((3 - (pad : ℤ)) % 2 ^ 64).toNat = 2 ^ 64 - 1 := by omega
    rw [if_neg hthree, hlen]
    by_cases hzero : o = 0
    · rw [if_pos hzero, hzero, Nat.zero_add, Nat.mod_eq_of_lt (by omega)]
    · have hmod : (o + (2 ^ 64 - 1)) % 2 ^ 64 = o - 1 := by omega
      rw [if_neg hzero, hmod]

/-- A complete quad of characters the decoder takes. -/
def Readable (q : List UInt8) : Prop := q.length = 4 ∧ ∀ c ∈ q, (charValue c).isSome

instance (q : List UInt8) : Decidable (Readable q) := inferInstanceAs (Decidable (_ ∧ _))

/-- Four padding characters. -/
def blank : List UInt8 := [61, 61, 61, 61]

theorem eq_blank_iff {q : List UInt8} (h : q.length = 4) : q = blank ↔ q.count 61 = 4 := by
  rw [← h, List.count_eq_length]
  constructor
  · rintro rfl c hc
    exact (List.eq_of_mem_replicate (show c ∈ List.replicate 4 61 from hc)).symm
  · intro hall
    exact List.eq_replicate_iff.mpr ⟨h, fun c hc => (hall c hc).symm⟩

/-- Bytes a row of quads stores. -/
def quadsSize (qs : List (List UInt8)) : ℕ := (qs.map fun q => storedBytes (q.count 61)).sum

@[simp] theorem quadsSize_nil : quadsSize [] = 0 := rfl

@[simp] theorem quadsSize_cons (q : List UInt8) (qs : List (List UInt8)) :
    quadsSize (q :: qs) = storedBytes (q.count 61) + quadsSize qs := by
  simp [quadsSize]

theorem decodeQuads_of_not_readable {outCap : ℕ} {q : List UInt8} (h : ¬ Readable q)
    (qs : List (List UInt8)) (out : List UInt8) : decodeQuads outCap (q :: qs) out = (false, out) := by
  rw [decodeQuads]
  cases hval : q.mapM charValue with
  | none => rfl
  | some val =>
    have hall := (values_isSome_iff q).mp (hval ▸ rfl)
    exact if_neg fun hq => h ⟨hq.1, hall⟩

/-- A round on a readable quad. -/
theorem decodeQuads_of_readable {q : List UInt8} (h : Readable q) (outCap : ℕ)
    (qs : List (List UInt8)) (out : List UInt8) :
    ∃ new, new.length = storedBytes (q.count 61) ∧ decodeQuads outCap (q :: qs) out =
      if FitsIn outCap out.length (q.count 61) then decodeQuads outCap qs (out ++ new)
      else (false, out) := by
  obtain ⟨val, hval⟩ := Option.isSome_iff_exists.mp ((values_isSome_iff q).mpr h.2)
  refine ⟨quadBytes val (q.count 61), length_quadBytes val _, ?_⟩
  rw [decodeQuads, hval]
  simp only [h.1, true_and]

theorem length_decodeQuads_le (outCap : ℕ) (qs : List (List UInt8)) (out : List UInt8) :
    (decodeQuads outCap qs out).2.length ≤ out.length + 3 * qs.length := by
  induction qs generalizing out with
  | nil => exact Nat.le_add_right _ _
  | cons q qs ih =>
    rw [List.length_cons]
    by_cases hq : Readable q
    · obtain ⟨new, hlen, heq⟩ := decodeQuads_of_readable hq outCap qs out
      have hnew : new.length ≤ 3 := by
        rw [hlen, storedBytes]
        split_ifs <;> omega
      have hrest := ih (out ++ new)
      rw [List.length_append] at hrest
      rw [heq]
      split_ifs
      · omega
      · exact Nat.le_add_right _ _
    · rw [decodeQuads_of_not_readable hq]
      exact Nat.le_add_right _ _

theorem length_le_decodeQuads (outCap : ℕ) (qs : List (List UInt8)) (out : List UInt8) :
    out.length ≤ (decodeQuads outCap qs out).2.length := by
  induction qs generalizing out with
  | nil => exact le_rfl
  | cons q qs ih =>
    by_cases hq : Readable q
    · obtain ⟨new, -, heq⟩ := decodeQuads_of_readable hq outCap qs out
      have hrest := ih (out ++ new)
      rw [List.length_append] at hrest
      rw [heq]
      split_ifs
      · omega
      · exact le_rfl
    · rw [decodeQuads_of_not_readable hq]

/-! ### Staying inside the buffer -/

/-- A quad with three or four padding characters is reached when the quads before it fill the
buffer exactly; the first quad is not blank. -/
def Overruns (outCap o : ℕ) (qs : List (List UInt8)) : Prop :=
  ∃ before q after, qs = before ++ q :: after ∧ (∀ r ∈ before ++ [q], Readable r) ∧
    o + quadsSize before = outCap ∧ 3 ≤ q.count 61 ∧
    (o = 0 → (before ++ [q]).head? ≠ some blank)

theorem not_overruns_of_not_readable {outCap o : ℕ} {q : List UInt8} (h : ¬ Readable q)
    (qs : List (List UInt8)) : ¬ Overruns outCap o (q :: qs) := by
  rintro ⟨before, r, after, hqs, hall, -⟩
  cases before with
  | nil =>
    rw [List.nil_append, List.cons.injEq] at hqs
    exact h (hqs.1 ▸ hall r (by simp))
  | cons b before =>
    rw [List.cons_append, List.cons.injEq] at hqs
    exact h (hqs.1 ▸ hall b (by simp))

theorem Overruns.le {outCap o : ℕ} {qs : List (List UInt8)} (h : Overruns outCap o qs) :
    o ≤ outCap := by
  obtain ⟨before, q, after, -, -, hsize, -⟩ := h
  omega

/-- A row overruns at its first quad or behind it. -/
theorem overruns_cons {outCap o : ℕ} {q : List UInt8} (h : Readable q) (qs : List (List UInt8)) :
    Overruns outCap o (q :: qs) ↔
      (o = outCap ∧ 3 ≤ q.count 61 ∧ (o = 0 → q ≠ blank)) ∨
        ((o = 0 → q ≠ blank) ∧ Overruns outCap (o + storedBytes (q.count 61)) qs) := by
  have hpos : 0 < storedBytes (q.count 61) := by
    unfold storedBytes
    split_ifs <;> omega
  constructor
  · rintro ⟨before, r, after, hqs, hall, hsize, hpad, hhead⟩
    cases before with
    | nil =>
      rw [List.nil_append, List.cons.injEq] at hqs
      obtain ⟨rfl, rfl⟩ := hqs
      exact Or.inl ⟨hsize, hpad, fun ho hq => hhead ho (congrArg some hq)⟩
    | cons b before =>
      rw [List.cons_append, List.cons.injEq] at hqs
      obtain ⟨rfl, rfl⟩ := hqs
      refine Or.inr ⟨fun ho hq => hhead ho (congrArg some hq), before, r, after, rfl, ?_, ?_, hpad,
        fun ho => ?_⟩
      · exact fun s hs => hall s (List.mem_cons_of_mem _ hs)
      · rw [quadsSize_cons] at hsize
        omega
      · omega
  · rintro (⟨ho, hpad, hhead⟩ | ⟨hhead, before, r, after, rfl, hall, hsize, hpad, -⟩)
    · refine ⟨[], q, qs, rfl, ?_, ho, hpad, fun h0 hq => hhead h0 (Option.some.inj hq)⟩
      simpa using h
    · refine ⟨q :: before, r, after, rfl, ?_, ?_, hpad, fun h0 hq => hhead h0 (Option.some.inj hq)⟩
      · rw [List.cons_append, List.forall_mem_cons]
        exact ⟨h, hall⟩
      · rw [quadsSize_cons]
        omega

theorem decodeQuads_overruns_iff {outCap : ℕ} (qs : List (List UInt8)) (out : List UInt8)
    (hbound : out.length + 3 * qs.length < 2 ^ 64 - 1) (hout : out.length ≤ outCap) :
    outCap < (decodeQuads outCap qs out).2.length ↔ Overruns outCap out.length qs := by
  induction qs generalizing out with
  | nil =>
    constructor
    · intro h
      exact absurd h (Nat.not_lt.mpr hout)
    · rintro ⟨before, q, after, hqs, -⟩
      simp at hqs
  | cons q qs ih =>
    by_cases hq : Readable q
    · obtain ⟨new, hlen, heq⟩ := decodeQuads_of_readable hq outCap qs out
      have hcount : q.count 61 ≤ 4 := hq.1 ▸ List.count_le_length
      have hblank := eq_blank_iff hq.1
      have hsmall : out.length + 3 < 2 ^ 64 := by
        rw [List.length_cons] at hbound
        omega
      have hfits := fits_iff outCap hsmall hcount
      have hmore := length_le_decodeQuads outCap qs (out ++ new)
      have hless := length_decodeQuads_le outCap qs (out ++ new)
      rw [List.length_append] at hmore hless
      rw [List.length_cons] at hbound
      have hstored : storedBytes (q.count 61) = if q.count 61 ≤ 1 then 3 - q.count 61 else 1 := by
        unfold storedBytes
        split_ifs <;> omega
      rw [overruns_cons hq, heq, ne_eq, hblank, ← hlen]
      rw [← hlen] at hstored
      by_cases hpass : FitsIn outCap out.length (q.count 61)
      · rw [if_pos hpass]
        rw [hfits] at hpass
        by_cases hroom : out.length + new.length ≤ outCap
        · -- the bytes of the quad fit
          have hrest := ih (out ++ new) (by rw [List.length_append]; split_ifs at hstored <;> omega)
            (by rw [List.length_append]; exact hroom)
          rw [List.length_append] at hrest
          rw [hrest]
          constructor
          · intro hover
            have hlater := hrest.mpr hover
            refine Or.inr ⟨fun ho hfour => ?_, hover⟩
            rw [if_neg (by omega), if_pos ho] at hpass
            split_ifs at hstored <;> omega
          · rintro (⟨ho, -⟩ | ⟨-, hover⟩)
            · split_ifs at hstored <;> omega
            · exact hover
        · -- they do not, though the test passed
          refine iff_of_true (by omega) (Or.inl ?_)
          split_ifs at hstored hpass <;> omega
      · rw [if_neg hpass]
        rw [hfits] at hpass
        apply iff_of_false (Nat.not_lt.mpr hout)
        rintro (⟨ho, hpad, hfour⟩ | ⟨hfour, hover⟩)
        · split_ifs at hpass <;> omega
        · have hle := hover.le
          split_ifs at hstored hpass <;> omega
    · rw [decodeQuads_of_not_readable hq]
      exact iff_of_false (Nat.not_lt.mpr hout) (not_overruns_of_not_readable hq qs)

/-- Every store is inside the buffer, and so is what the result counts. -/
def StaysInside (inp : List UInt8) (outCap : ℕ) : Prop :=
  (∀ s ∈ (decodeStores inp outCap).2, s.2 < outCap) ∧
    ∀ decoded ∈ rtwBase64Decode inp outCap, decoded.length ≤ outCap

theorem quads_bound {inp : List UInt8} (h : inp.length < 2 ^ 64) :
    3 * (quads (significant inp)).length < 2 ^ 64 - 1 := by
  have hsig := length_significant_le inp
  rw [length_quads]
  omega

theorem staysInside_iff_length (inp : List UInt8) (outCap : ℕ) : StaysInside inp outCap ↔
    (decodeQuads outCap (quads (significant inp)) []).2.length ≤ outCap := by
  rw [StaysInside, decodeStores_eq, rtwBase64Decode_eq]
  constructor
  · rintro ⟨hstores, -⟩
    by_contra hlong
    have hindex := Nat.lt_of_not_le hlong
    have hmem := List.mk_mem_zipIdx_iff_getElem?.mpr (List.getElem?_eq_getElem hindex)
    exact absurd (hstores _ hmem) (lt_irrefl _)
  · intro hle
    constructor
    · rintro ⟨b, i⟩ hmem
      obtain ⟨hi, -⟩ := List.getElem?_eq_some_iff.mp (List.mk_mem_zipIdx_iff_getElem?.mp hmem)
      exact hi.trans_le hle
    · intro decoded hdecoded
      split at hdecoded
      · cases hdecoded
        exact hle
      · cases hdecoded

/-- The decoder stays inside its buffer on all inputs but those that overrun. -/
theorem decode_stays_inside_iff {inp : List UInt8} (hlen : inp.length < 2 ^ 64) (outCap : ℕ) :
    StaysInside inp outCap ↔ ¬ Overruns outCap 0 (quads (significant inp)) := by
  have hover := decodeQuads_overruns_iff (quads (significant inp)) []
    (by simpa using quads_bound hlen) (Nat.zero_le outCap)
  rw [staysInside_iff_length, ← Nat.not_lt]
  exact not_congr hover

theorem not_overruns_of_count {qs : List (List UInt8)} (h : ∀ q ∈ qs, q.count 61 ≤ 2)
    (outCap o : ℕ) : ¬ Overruns outCap o qs := by
  rintro ⟨before, q, after, rfl, -, -, hpad, -⟩
  have hq := h q (by simp)
  omega

theorem decode_stays_inside_text : StaysInside (ascii "QUJD RA==") 4 := by
  apply (decode_stays_inside_iff (by decide) 4).mpr
  exact not_overruns_of_count (by decide) 4 0

/-- Three bytes fill the buffer, and a quad with three padding characters stores one more. -/
theorem decode_overruns : ¬ StaysInside (ascii "QUJDQ===") 3 := by
  rintro ⟨hstores, -⟩
  exact absurd (hstores (64, 3) (by decide)) (by decide)

/-! ### What is accepted -/

/-- With enough room a row is decoded when its quads are readable, unless the first is blank. -/
theorem decodeQuads_succeeds_iff (outCap : ℕ) (qs : List (List UInt8)) (out : List UInt8)
    (hbound : out.length + 3 * qs.length < 2 ^ 64 - 1)
    (hcap : out.length + quadsSize qs ≤ outCap) :
    ((decodeQuads outCap qs out).1 = true ↔ (∀ q ∈ qs, Readable q) ∧
      ¬ (out.length = 0 ∧ qs.head? = some blank ∧ outCap < 2 ^ 64 - 1)) ∧
    ((decodeQuads outCap qs out).1 = true →
      (decodeQuads outCap qs out).2.length = out.length + quadsSize qs) := by
  induction qs generalizing out with
  | nil => simp [decodeQuads]
  | cons q qs ih =>
    rw [List.length_cons] at hbound
    rw [quadsSize_cons] at hcap
    rw [List.forall_mem_cons, List.head?_cons, Option.some.injEq, quadsSize_cons]
    by_cases hq : Readable q
    · obtain ⟨new, hlen, heq⟩ := decodeQuads_of_readable hq outCap qs out
      have hcount : q.count 61 ≤ 4 := hq.1 ▸ List.count_le_length
      have hsmall : out.length + 3 < 2 ^ 64 := by omega
      have hfits := fits_iff outCap hsmall hcount
      have hstored : storedBytes (q.count 61) = if q.count 61 ≤ 1 then 3 - q.count 61 else 1 := by
        unfold storedBytes
        split_ifs <;> omega
      rw [heq, eq_blank_iff hq.1]
      rw [← hlen] at hcap hstored ⊢
      obtain ⟨hiff, hsize⟩ := ih (out ++ new)
        (by rw [List.length_append]; split_ifs at hstored <;> omega)
        (by rw [List.length_append]; omega)
      rw [List.length_append] at hiff hsize
      by_cases hpass : FitsIn outCap out.length (q.count 61)
      · rw [if_pos hpass, hiff]
        rw [hfits] at hpass
        constructor
        · constructor
          · rintro ⟨hall, -⟩
            refine ⟨⟨hq, hall⟩, ?_⟩
            rintro ⟨hzero, hfour, hsmall⟩
            rw [if_neg (by omega), if_pos hzero] at hpass
            omega
          · rintro ⟨⟨-, hall⟩, -⟩
            refine ⟨hall, ?_⟩
            rintro ⟨hzero, -⟩
            split_ifs at hstored <;> omega
        · intro hok
          rw [hsize (hiff.mpr hok)]
          omega
      · rw [if_neg hpass]
        rw [hfits] at hpass
        have hfirst : out.length = 0 ∧ q.count 61 = 4 ∧ outCap < 2 ^ 64 - 1 := by
          split_ifs at hstored hpass <;> omega
        exact ⟨iff_of_false Bool.false_ne_true fun h => h.2 hfirst, fun h => absurd h Bool.false_ne_true⟩
    · rw [decodeQuads_of_not_readable hq]
      exact ⟨iff_of_false Bool.false_ne_true fun h => hq h.1.1, fun h => absurd h Bool.false_ne_true⟩

/-- Complete quads of the alphabet, of which one or two last characters may be padding. -/
def IsBase64 (t : List UInt8) : Prop :=
  4 ∣ t.length ∧ ∃ data pad, pad ≤ 2 ∧ (∀ c ∈ data, (decVal c).isSome) ∧
    t = data ++ List.replicate pad 61

theorem decVal_padding : decVal 61 = none := rfl

theorem charValue_isSome_iff (c : UInt8) : (charValue c).isSome ↔ c = 61 ∨ (decVal c).isSome := by
  unfold charValue
  by_cases h : c = 61
  · simp [h]
  · simp [h]

theorem IsBase64.count_le {t : List UInt8} (h : IsBase64 t) : t.count 61 ≤ 2 := by
  obtain ⟨-, data, pad, hpad, hdata, rfl⟩ := h
  have hnone : data.count 61 = 0 := by
    rw [List.count_eq_zero]
    intro hmem
    have hsome := hdata 61 hmem
    rw [decVal_padding] at hsome
    cases hsome
  rw [List.count_append, hnone, List.count_replicate_self]
  omega

theorem readable_quads_iff (t : List UInt8) : (∀ q ∈ quads t, Readable q) ↔
    4 ∣ t.length ∧ ∀ c ∈ t, (charValue c).isSome := by
  have hchars : (∀ c ∈ t, (charValue c).isSome) ↔
      ∀ q ∈ quads t, ∀ c ∈ q, (charValue c).isSome := by
    conv_lhs => rw [← flatten_quads t]
    simp only [List.mem_flatten]
    exact ⟨fun h q hq c hc => h c ⟨q, hq, hc⟩, fun h c ⟨q, hq, hc⟩ => h q hq c hc⟩
  rw [hchars, ← complete_quads_iff]
  exact ⟨fun h => ⟨fun q hq => (h q hq).1, fun q hq => (h q hq).2⟩,
    fun h q hq => ⟨h.1 q hq, h.2 q hq⟩⟩

theorem IsBase64.readable {t : List UInt8} (h : IsBase64 t) : ∀ q ∈ quads t, Readable q := by
  rw [readable_quads_iff]
  obtain ⟨hlen, data, pad, -, hdata, rfl⟩ := h
  refine ⟨hlen, fun c hc => (charValue_isSome_iff c).mpr ?_⟩
  rcases List.mem_append.mp hc with hc | hc
  · exact Or.inr (hdata c hc)
  · exact Or.inl (List.eq_of_mem_replicate hc)

theorem quadsSize_of_count {qs : List (List UInt8)} (h : ∀ q ∈ qs, q.count 61 ≤ 2) :
    quadsSize qs + qs.flatten.count 61 = 3 * qs.length := by
  induction qs with
  | nil => rfl
  | cons q qs ih =>
    rw [List.forall_mem_cons] at h
    have hrest := ih h.2
    have hstored : storedBytes (q.count 61) = 3 - q.count 61 := by
      unfold storedBytes
      split_ifs <;> omega
    rw [quadsSize_cons, hstored, List.flatten_cons, List.count_append, List.length_cons]
    omega

theorem count_quad_le {t q : List UInt8} (hq : q ∈ quads t) : q.count 61 ≤ t.count 61 := by
  rw [← flatten_quads t]
  exact (List.sublist_flatten_of_mem hq).count_le 61

/-- Exactly base64 is accepted, and its length is as the padding says. -/
def AcceptsBase64 (inp : List UInt8) (outCap : ℕ) : Prop :=
  ((rtwBase64Decode inp outCap).isSome ↔ IsBase64 (significant inp)) ∧
    (IsBase64 (significant inp) → (rtwBase64Decode inp outCap).map List.length =
      some (3 * (quads (significant inp)).length - (significant inp).count 61))

/-- With room for what the quads store, exactly base64 is accepted unless all characters can
be read, the padding is misplaced and the first quad is not blank. -/
theorem accepts_base64_iff {inp : List UInt8} (hlen : inp.length < 2 ^ 64) {outCap : ℕ}
    (hcap : quadsSize (quads (significant inp)) ≤ outCap) :
    AcceptsBase64 inp outCap ↔ IsBase64 (significant inp) ∨
      ¬ (4 ∣ (significant inp).length ∧ ∀ c ∈ significant inp, (charValue c).isSome) ∨
        ((quads (significant inp)).head? = some blank ∧ outCap < 2 ^ 64 - 1) := by
  obtain ⟨hiff, hsize⟩ := decodeQuads_succeeds_iff outCap (quads (significant inp)) []
    (by simpa using quads_bound hlen) (by simpa using hcap)
  simp only [List.length_nil, true_and, Nat.zero_add] at hiff hsize
  have hsome : (rtwBase64Decode inp outCap).isSome ↔
      (∀ q ∈ quads (significant inp), Readable q) ∧
        ¬ ((quads (significant inp)).head? = some blank ∧ outCap < 2 ^ 64 - 1) := by
    rw [← hiff, rtwBase64Decode_eq]
    split_ifs with hok
    · exact iff_of_true rfl hok
    · exact iff_of_false Bool.false_ne_true hok
  have hfits : IsBase64 (significant inp) → (rtwBase64Decode inp outCap).isSome ∧
      (rtwBase64Decode inp outCap).map List.length =
        some (3 * (quads (significant inp)).length - (significant inp).count 61) := by
    intro hbase
    have hcount := hbase.count_le
    have hblank : (quads (significant inp)).head? ≠ some blank := by
      intro hhead
      have hfour : blank.count 61 ≤ (significant inp).count 61 :=
        count_quad_le (List.mem_of_head? hhead)
      exact absurd (hfour.trans hcount) (by decide)
    have hok : (rtwBase64Decode inp outCap).isSome :=
      hsome.mpr ⟨hbase.readable, fun h => hblank h.1⟩
    have hsum := quadsSize_of_count fun q hq => (count_quad_le hq).trans hcount
    have hdecoded := hiff.mpr (hsome.mp hok)
    rw [flatten_quads] at hsum
    refine ⟨hok, ?_⟩
    rw [rtwBase64Decode_eq, if_pos hdecoded, Option.map_some, hsize hdecoded]
    congr 1
    omega
  rw [AcceptsBase64, ← readable_quads_iff, hsome]
  constructor
  · rintro ⟨haccepts, -⟩
    by_cases hread : ∀ q ∈ quads (significant inp), Readable q
    · by_cases hblank : (quads (significant inp)).head? = some blank ∧ outCap < 2 ^ 64 - 1
      · exact Or.inr (Or.inr hblank)
      · exact Or.inl (haccepts.mp ⟨hread, hblank⟩)
    · exact Or.inr (Or.inl hread)
  · intro hcase
    refine ⟨⟨?_, fun hbase => hsome.mp (hfits hbase).1⟩, fun hbase => (hfits hbase).2⟩
    rintro ⟨hread, hblank⟩
    rcases hcase with hbase | hbad | hfirst
    · exact hbase
    · exact absurd hread hbad
    · exact absurd hfirst hblank

/-- Padding in the middle. -/
theorem accepts_padding_inside : ¬ AcceptsBase64 (ascii "QQ==QQ==") 2 := by
  rintro ⟨haccepts, -⟩
  have hcount := (haccepts.mp (by decide)).count_le
  revert hcount
  decide

theorem accepts_base64_text : AcceptsBase64 (ascii " QU\nI= ") 2 := by
  apply (accepts_base64_iff (by decide) (by decide)).mpr
  have hdata : ∀ c ∈ ascii "QUI", (decVal c).isSome = true := by
    decide +kernel
  exact Or.inl ⟨by decide, ascii "QUI", 1, by decide, hdata, by decide⟩

/-! ### Round trip -/

/-- White space inserted anywhere into a text. -/
inductive Spaced : List UInt8 → List UInt8 → Prop
  | nil : Spaced [] []
  | keep (c : UInt8) {t s : List UInt8} (h : Spaced t s) : Spaced (c :: t) (c :: s)
  | insert {c : UInt8} (hc : isSkipped c = true) {t s : List UInt8} (h : Spaced t s) :
      Spaced t (c :: s)

theorem Spaced.significant_eq {t s : List UInt8} (h : Spaced t s) :
    significant s = significant t := by
  induction h with
  | nil => rfl
  | keep c h ih =>
    cases hc : isSkipped c with
    | true => rw [significant_skip hc, significant_skip hc, ih]
    | false => rw [significant_take hc, significant_take hc, ih]
  | insert hc h ih => rw [significant_skip hc, ih]

/-- All the encoder writes to the buffer, the NUL included; nothing when it is too small. -/
def encodeStores (inp : List UInt8) (outCap : ℕ) : List UInt8 :=
  if outCap < rtwBase64EncodedLen inp.length then [] else encodeLoop inp ++ [0]

theorem isSkipped_encChar (n : ℕ) : isSkipped (encChar n) = false := by
  have hmem := (encChar_spec n).2
  simp only [List.mem_cons, not_or] at hmem
  simp [isSkipped, hmem]

theorem encChar_ne_padding (n : ℕ) : encChar n ≠ 61 := by
  have hmem := (encChar_spec n).2
  simp only [List.mem_cons, not_or] at hmem
  exact hmem.2.2.2.2.1

/-- An encoding has no white space, and padding only in its last quad. -/
theorem significant_encodeLoop (inp : List UInt8) :
    significant (encodeLoop inp) = encodeLoop inp := by
  rw [significant, List.filter_eq_self]
  induction inp using encodeLoop.induct with
  | case1 a b c rest ih => simpa [encodeLoop, isSkipped_encChar] using ih
  | case2 a b => simp [encodeLoop, isSkipped_encChar]; decide
  | case3 a => simp [encodeLoop, isSkipped_encChar]; decide
  | case4 => simp [encodeLoop]

theorem count_quads_encodeLoop (inp : List UInt8) :
    ∀ q ∈ quads (encodeLoop inp), q.count 61 ≤ 2 := by
  induction inp using encodeLoop.induct with
  | case1 a b c rest ih =>
    rw [encodeLoop]
    simp only [quads, List.forall_mem_cons]
    exact ⟨by simp [encChar_ne_padding], ih⟩
  | case2 a b => simp [encodeLoop, quads, encChar_ne_padding]
  | case3 a => simp [encodeLoop, quads, encChar_ne_padding]
  | case4 => simp [encodeLoop]

/-- A larger buffer gives the same bytes. -/
theorem decodeQuads_mono {outCap outCap' : ℕ} (hcap : outCap ≤ outCap') (qs : List (List UInt8))
    {out : List UInt8} (h : (decodeQuads outCap qs out).1 = true) :
    decodeQuads outCap' qs out = decodeQuads outCap qs out := by
  induction qs generalizing out with
  | nil => rfl
  | cons q qs ih =>
    rw [decodeQuads] at h ⊢
    rw [decodeQuads]
    cases hval : q.mapM charValue with
    | none => rfl
    | some val =>
      simp only [hval] at h ⊢
      by_cases hround : q.length = 4 ∧ FitsIn outCap out.length (q.count 61)
      · have hround' : q.length = 4 ∧ FitsIn outCap' out.length (q.count 61) :=
          ⟨hround.1, hround.2.trans hcap⟩
        rw [if_pos hround] at h ⊢
        rw [if_pos hround']
        exact ih h
      · rw [if_neg hround] at h
        exact absurd h Bool.false_ne_true

theorem rtwBase64Decode_mono {inp decoded : List UInt8} {outCap outCap' : ℕ}
    (hcap : outCap ≤ outCap') (h : rtwBase64Decode inp outCap = some decoded) :
    rtwBase64Decode inp outCap' = some decoded := by
  rw [rtwBase64Decode_eq] at h ⊢
  split_ifs at h with hok
  rw [decodeQuads_mono hcap _ hok, if_pos hok]
  exact h

/-- An encoding with white space anywhere decodes to what was encoded, exactly when it fits. -/
theorem base64_round_trip {b s : List UInt8} {encCap : ℕ}
    (henc : rtwBase64EncodedLen b.length ≤ encCap) (hs : Spaced (rtwBase64Encode b encCap) s)
    (hlen : s.length < 2 ^ 64) (outCap : ℕ) :
    (b.length ≤ outCap → decodeStores s outCap = (some b.length, b.zipIdx)) ∧
      (outCap < b.length → (decodeStores s outCap).1 = none) ∧
      encodeStores b encCap = rtwBase64Encode b encCap ++ [0] ∧
      (rtwBase64Encode b encCap).length = rtwBase64EncodedLen b.length - 1 := by
  have hencode : rtwBase64Encode b encCap = encodeLoop b := if_neg (Nat.not_lt.mpr henc)
  have hsig : significant s = encodeLoop b := by
    rw [hs.significant_eq, hencode, significant_encodeLoop]
  have hdecode : ∀ cap, b.length ≤ cap → rtwBase64Decode s cap = some b := by
    intro cap hcap
    have hround := rtwBase64Decode_encode hcap
    rwa [rtwBase64Encode, if_neg (lt_irrefl _), ← hsig, rtwBase64Decode_significant] at hround
  refine ⟨fun hcap => ?_, fun hcap => ?_, ?_, ?_⟩
  · have hok := hdecode outCap hcap
    rw [decodeStores_eq, hok]
    rw [rtwBase64Decode_eq] at hok
    split_ifs at hok
    rw [Option.some.inj hok]
    rfl
  · have hinside : StaysInside s outCap := by
      rw [decode_stays_inside_iff hlen, hsig]
      exact not_overruns_of_count (count_quads_encodeLoop b) outCap 0
    rw [decodeStores_eq]
    cases hok : rtwBase64Decode s outCap with
    | none => rfl
    | some decoded =>
      have hsame := (rtwBase64Decode_mono hcap.le hok).symm.trans (hdecode b.length le_rfl)
      have hle := hinside.2 decoded hok
      rw [Option.some.inj hsame] at hle
      exact absurd hle (Nat.not_le.mpr hcap)
  · rw [encodeStores, if_neg (Nat.not_lt.mpr henc), hencode]
  · rw [hencode, length_encodeLoop, rtwBase64EncodedLen]
    rfl

theorem base64_round_trip_spaced :
    decodeStores (ascii " A AH/\nfiA =\t") 5 = (some 5, [0x00, 0x01, 0xff, 0x7e, 0x20].zipIdx) ∧
      (decodeStores (ascii " A AH/\nfiA =\t") 4).1 = none := by
  have hs : Spaced (rtwBase64Encode [0x00, 0x01, 0xff, 0x7e, 0x20] 9) (ascii " A AH/\nfiA =\t") :=
    .insert rfl <| .keep 65 <| .insert rfl <| .keep 65 <| .keep 72 <| .keep 47 <| .insert rfl <|
      .keep 102 <| .keep 105 <| .keep 65 <| .insert rfl <| .keep 61 <| .insert rfl .nil
  constructor
  · exact (base64_round_trip (by decide) hs (by decide) 5).1 (by decide)
  · exact (base64_round_trip (by decide) hs (by decide) 4).2.1 (by decide)

end RealtimeWs.Core
