import RealtimeWs.Core.CJson

/-! Parsing what the vendored library printed: a tree without numbers comes back. -/
namespace RealtimeWs.Core

/-- A tree without numbers that nests at most `n` levels deep. -/
inductive Json.Within : ℕ → Json → Prop
  | null (n : ℕ) : Within n .null
  | bool (n : ℕ) (b : Bool) : Within n (.bool b)
  | string (n : ℕ) (s : CStr) : Within n (.string s)
  | array {n : ℕ} {items : List Json} (h : ∀ x ∈ items, Within n x) :
      Within (n + 1) (.array items)
  | object {n : ℕ} {members : List (CStr × Json)} (h : ∀ m ∈ members, Within n m.2) :
      Within (n + 1) (.object members)

/-! ### Strings -/

private theorem hexChar_plain : ∀ n < 16, hexChar n ≠ 34 ∧ hexChar n ≠ 92 ∧ hexChar n ≠ 0 := by
  decide

theorem scanString_quote (rest : List UInt8) : scanString (34 :: rest) = some ([], rest) := by
  rw [scanString.eq_def]
  rfl

theorem scanString_plain {c : UInt8} (h34 : c ≠ 34) (h92 : c ≠ 92) (rest : List UInt8) :
    scanString (c :: rest) = (scanString rest).map fun p => (c :: p.1, p.2) := by
  rw [scanString.eq_def]
  simp only [h34, h92, if_false]

theorem scanString_pair (e : UInt8) (rest : List UInt8) :
    scanString (92 :: e :: rest) = (scanString rest).map fun p => (92 :: e :: p.1, p.2) := by
  rw [scanString.eq_def]
  rfl

/-- A byte stands for itself, or is escaped with a letter or with its number. -/
theorem escapeByte_cases (c : UInt8) :
    (escapeByte c = [c] ∧ c ≠ 34 ∧ c ≠ 92) ∨
      (∃ e, escapeByte c = [92, e] ∧ e ≠ 117 ∧ e ≠ 0 ∧ escapeChar e = some c) ∨
        (escapeByte c = [92, 117, 48, 48, hexChar (c.toNat / 16), hexChar (c.toNat % 16)] ∧
          c.toNat < 32) := by
  by_cases hplain : 31 < c ∧ c ≠ 34 ∧ c ≠ 92
  · exact Or.inl ⟨if_pos hplain, hplain.2⟩
  · have hletter : ∀ d e, c = d → escapeByte d = [92, e] ∧ e ≠ 117 ∧ e ≠ 0 ∧
        escapeChar e = some d → ∃ e, escapeByte c = [92, e] ∧ e ≠ 117 ∧ e ≠ 0 ∧
          escapeChar e = some c := by
      rintro d e rfl h
      exact ⟨e, h⟩
    by_cases h92 : c = 92
    · exact Or.inr (Or.inl (hletter 92 92 h92 (by decide)))
    by_cases h34 : c = 34
    · exact Or.inr (Or.inl (hletter 34 34 h34 (by decide)))
    by_cases h8 : c = 8
    · exact Or.inr (Or.inl (hletter 8 98 h8 (by decide)))
    by_cases h12 : c = 12
    · exact Or.inr (Or.inl (hletter 12 102 h12 (by decide)))
    by_cases h10 : c = 10
    · exact Or.inr (Or.inl (hletter 10 110 h10 (by decide)))
    by_cases h13 : c = 13
    · exact Or.inr (Or.inl (hletter 13 114 h13 (by decide)))
    by_cases h9 : c = 9
    · exact Or.inr (Or.inl (hletter 9 116 h9 (by decide)))
    · -- the other control characters
      refine Or.inr (Or.inr ⟨?_, ?_⟩)
      · rw [escapeByte, if_neg hplain, if_neg h92, if_neg h34, if_neg h8, if_neg h12, if_neg h10,
          if_neg h13, if_neg h9]
      · by_contra hbig
        refine hplain ⟨?_, h34, h92⟩
        rw [UInt8.lt_iff_toNat_lt]
        change 31 < c.toNat
        omega

theorem scanString_escapeByte (c : UInt8) (rest : List UInt8) :
    scanString (escapeByte c ++ rest) =
      (scanString rest).map fun p => (escapeByte c ++ p.1, p.2) := by
  obtain ⟨hi34, hi92, -⟩ := hexChar_plain (c.toNat / 16) (by have := c.toNat_lt; omega)
  obtain ⟨hj34, hj92, -⟩ := hexChar_plain (c.toNat % 16) (by omega)
  rcases escapeByte_cases c with ⟨hc, h34, h92⟩ | ⟨e, hc, -⟩ | ⟨hc, -⟩
  · rw [hc]
    exact scanString_plain h34 h92 rest
  · rw [hc]
    exact scanString_pair e rest
  · rw [hc]
    simp only [List.cons_append, List.nil_append]
    rw [scanString_pair, scanString_plain (by decide) (by decide),
      scanString_plain (by decide) (by decide), scanString_plain hi34 hi92,
      scanString_plain hj34 hj92]
    simp only [Option.map_map, Function.comp_def]

/-- The scan stops at the closing quote, not at an escaped one. -/
theorem scanString_escaped (b rest : List UInt8) :
    scanString (b.flatMap escapeByte ++ 34 :: rest) = some (b.flatMap escapeByte, rest) := by
  induction b with
  | nil => exact scanString_quote rest
  | cons c b ih =>
    rw [List.flatMap_cons, List.append_assoc, scanString_escapeByte, ih]
    rfl

/-- Values of two hexadecimal digits behind `00`. -/
private theorem parseHex4_table : ∀ i < 2, ∀ j < 16,
    ([48, 48, hexChar i, hexChar j].mapM hexDigit) = some [0, 0, i, j] := by
  decide +kernel

theorem utf16LiteralToUtf8_control {c : UInt8} (hc : c.toNat < 32) (rest : List UInt8) :
    utf16LiteralToUtf8 (92 :: 117 :: 48 :: 48 :: hexChar (c.toNat / 16) ::
      hexChar (c.toNat % 16) :: rest) = some ([c], 6) := by
  have hhex : parseHex4 (48 :: 48 :: hexChar (c.toNat / 16) :: hexChar (c.toNat % 16) :: rest) =
      c.toNat := by
    have htable := parseHex4_table (c.toNat / 16) (by omega) (c.toNat % 16) (by omega)
    have htake : (48 :: 48 :: hexChar (c.toNat / 16) :: hexChar (c.toNat % 16) :: rest).take 4 =
        [48, 48, hexChar (c.toNat / 16), hexChar (c.toNat % 16)] := rfl
    rw [parseHex4, htake, htable]
    simp only [List.foldl_cons, List.foldl_nil, Nat.shiftLeft_eq]
    omega
  have hdrop : (92 :: 117 :: 48 :: 48 :: hexChar (c.toNat / 16) :: hexChar (c.toNat % 16) ::
      rest).drop 2 = 48 :: 48 :: hexChar (c.toNat / 16) :: hexChar (c.toNat % 16) :: rest := rfl
  have hbyte : UInt8.ofNat (c.toNat &&& 127) = c := by
    have hand : c.toNat &&& 127 = c.toNat % 128 := Nat.and_two_pow_sub_one_eq_mod _ 7
    rw [hand, Nat.mod_eq_of_lt (by omega), UInt8.ofNat_toNat]
  rw [utf16LiteralToUtf8, if_neg (by simp), hdrop, hhex]
  simp only
  rw [if_neg (by omega), if_neg (by omega), utf8Bytes, if_pos (by omega), hbyte]
  rfl

theorem unescape_plain {c : UInt8} (h : c ≠ 92) (fuel : ℕ) (rest : List UInt8) :
    unescape (fuel + 1) (c :: rest) = (unescape fuel rest).map (c :: ·) := by
  rw [unescape.eq_def]
  simp only [ne_eq, h, not_false_eq_true, if_true]

theorem unescape_letter {e c : UInt8} (h : e ≠ 117) (hchar : escapeChar e = some c) (fuel : ℕ)
    (rest : List UInt8) :
    unescape (fuel + 1) (92 :: e :: rest) = (unescape fuel rest).map (c :: ·) := by
  rw [unescape.eq_def]
  simp [h, hchar]

theorem unescape_hex {bs : List UInt8} {len : ℕ} {inp : List UInt8}
    (h : utf16LiteralToUtf8 (92 :: 117 :: inp) = some (bs, len)) (fuel : ℕ) :
    unescape (fuel + 1) (92 :: 117 :: inp) =
      (unescape fuel ((92 :: 117 :: inp).drop len)).map (bs ++ ·) := by
  rw [unescape.eq_def]
  simp [h]

theorem unescape_escapeByte (c : UInt8) (fuel : ℕ) (rest : List UInt8) :
    unescape (fuel + 1) (escapeByte c ++ rest) = (unescape fuel rest).map (c :: ·) := by
  rcases escapeByte_cases c with ⟨hc, -, h92⟩ | ⟨e, hc, h117, -, hchar⟩ | ⟨hc, hlt⟩
  · rw [hc]
    exact unescape_plain h92 fuel rest
  · rw [hc]
    exact unescape_letter h117 hchar fuel rest
  · rw [hc]
    exact unescape_hex (utf16LiteralToUtf8_control hlt rest) fuel

theorem unescape_escaped (b : List UInt8) (fuel : ℕ) (h : b.length ≤ fuel) :
    unescape fuel (b.flatMap escapeByte) = some b := by
  induction b generalizing fuel with
  | nil => cases fuel <;> rfl
  | cons c b ih =>
    obtain ⟨fuel, rfl⟩ : ∃ k, fuel = k + 1 := ⟨fuel - 1, by simp at h; omega⟩
    rw [List.flatMap_cons, unescape_escapeByte, ih fuel (by simpa using h)]
    rfl

theorem length_le_escaped (b : List UInt8) : b.length ≤ (b.flatMap escapeByte).length := by
  induction b with
  | nil => exact le_rfl
  | cons c b ih =>
    have hpos : 1 ≤ (escapeByte c).length := by
      rcases escapeByte_cases c with ⟨hc, -⟩ | ⟨e, hc, -⟩ | ⟨hc, -⟩ <;> rw [hc] <;> simp
    rw [List.flatMap_cons, List.length_append, List.length_cons]
    omega

/-- A printed string parses to itself, whatever follows it. -/
theorem parseString_print (s : CStr) (rest : List UInt8) :
    parseString (printStringPtr s ++ rest) = some (s, rest) := by
  have hscan := scanString_escaped s.bytes rest
  have hback := unescape_escaped s.bytes _ (length_le_escaped s.bytes)
  simp only [printStringPtr, List.append_assoc, List.cons_append, List.nil_append, parseString]
  rw [if_neg (by simp), hscan]
  simp only [hback, Option.map_some, CStr.ofBytes_bytes]

/-! ### Values -/

theorem ascii_literals : ascii "null" = [110, 117, 108, 108] ∧
    ascii "false" = [102, 97, 108, 115, 101] ∧ ascii "true" = [116, 114, 117, 101] := by
  decide

theorem bufferSkipWhitespace_cons {c : UInt8} (h : 32 < c) (rest : List UInt8) :
    bufferSkipWhitespace (c :: rest) = c :: rest := by
  rw [bufferSkipWhitespace, List.dropWhile_cons_of_neg]
  simpa using h

/-- A printed value begins with a character that is neither space nor a closing bracket. -/
theorem printValue_head (printNumber : List UInt8 → List UInt8) {n : ℕ} {j : Json}
    (h : j.Within n) : ∃ c t, printValue printNumber j = c :: t ∧ 32 < c ∧ c < 128 ∧ c ≠ 93 := by
  obtain ⟨hnull, hfalse, htrue⟩ := ascii_literals
  cases h with
  | null => exact ⟨110, _, hnull, by decide, by decide, by decide⟩
  | bool n b =>
    cases b with
    | false => exact ⟨102, _, hfalse, by decide, by decide, by decide⟩
    | true => exact ⟨116, _, htrue, by decide, by decide, by decide⟩
  | string n s => exact ⟨34, _, rfl, by decide, by decide, by decide⟩
  | array h => exact ⟨91, _, rfl, by decide, by decide, by decide⟩
  | object h => exact ⟨123, _, rfl, by decide, by decide, by decide⟩

theorem printMembers_head (printNumber : List UInt8 → List UInt8) (m : CStr × Json)
    (members : List (CStr × Json)) :
    ∃ t, printMembers printNumber (m :: members) = 34 :: t := ⟨_, rfl⟩

variable {printNumber : List UInt8 → List UInt8} {fuel : ℕ}

variable (printNumber fuel) in
/-- With this fuel every printed value is read back. -/
def ValueBack : Prop := ∀ n j depth rest, Json.Within n j → depth + n ≤ CJSON_NESTING_LIMIT →
  2 * (printValue printNumber j).length ≤ fuel →
    parseValue fuel depth (printValue printNumber j ++ rest) = some (j, rest)

variable (printNumber fuel) in
def ElementsBack : Prop := ∀ n items depth rest, items ≠ [] → (∀ x ∈ items, Json.Within n x) →
  depth + n ≤ CJSON_NESTING_LIMIT → 2 * (printElements printNumber items).length + 3 ≤ fuel →
    parseElements fuel depth (printElements printNumber items ++ 93 :: rest) = some (items, rest)

variable (printNumber fuel) in
def MembersBack : Prop := ∀ n members depth rest, members ≠ [] →
  (∀ m ∈ members, Json.Within n m.2) → depth + n ≤ CJSON_NESTING_LIMIT →
    2 * (printMembers printNumber members).length + 3 ≤ fuel →
      parseMembers fuel depth (printMembers printNumber members ++ 125 :: rest) =
        some (members, rest)

/-- No literal begins with any other letter. -/
theorem literal_not_prefix {c : UInt8} (h : c ≠ 110 ∧ c ≠ 102 ∧ c ≠ 116)
    (rest : List UInt8) : ¬ascii "null" <+: c :: rest ∧ ¬ascii "false" <+: c :: rest ∧
      ¬ascii "true" <+: c :: rest := by
  obtain ⟨hnull, hfalse, htrue⟩ := ascii_literals
  rw [hnull, hfalse, htrue]
  refine ⟨?_, ?_, ?_⟩ <;> intro hpre <;> have hhead := (List.cons_prefix_cons.mp hpre).1
  · exact h.1 hhead.symm
  · exact h.2.1 hhead.symm
  · exact h.2.2 hhead.symm

theorem valueBack_succ (hE : ElementsBack printNumber fuel) (hM : MembersBack printNumber fuel) :
    ValueBack printNumber (fuel + 1) := by
  intro n j depth rest hj hdepth hfuel
  obtain ⟨hnull, hfalse, htrue⟩ := ascii_literals
  cases hj with
  | null =>
    rw [parseValue.eq_def, printValue]
    simp only
    rw [if_pos (List.prefix_append _ _), hnull]
    rfl
  | bool n b =>
    cases b with
    | false =>
      rw [parseValue.eq_def, printValue]
      simp only
      rw [if_neg (by rw [hnull, hfalse]; simp), if_pos (List.prefix_append _ _), hfalse]
      rfl
    | true =>
      rw [parseValue.eq_def, printValue]
      simp only
      rw [if_neg (by rw [hnull, htrue]; simp), if_neg (by rw [hfalse, htrue]; simp),
        if_pos (List.prefix_append _ _), htrue]
      rfl
  | string n s =>
    obtain ⟨h1, h2, h3⟩ := literal_not_prefix (c := 34) (by decide)
      (s.bytes.flatMap escapeByte ++ [34] ++ rest)
    have hback := parseString_print s rest
    rw [printStringPtr, List.cons_append, List.cons_append] at hback
    rw [parseValue.eq_def, printValue, printStringPtr, List.cons_append, List.cons_append]
    simp only
    rw [if_neg h1, if_neg h2, if_neg h3, if_pos trivial, hback]
    rfl
  | @array n items h =>
    obtain ⟨h1, h2, h3⟩ := literal_not_prefix (c := 91) (by decide)
      (printElements printNumber items ++ [93] ++ rest)
    rw [printValue, List.length_append, List.length_cons, List.length_singleton] at hfuel
    rw [parseValue.eq_def, printValue, List.cons_append, List.cons_append]
    simp only
    rw [if_neg h1, if_neg h2, if_neg h3, if_neg (by decide), if_neg (by decide), if_pos trivial,
      if_neg (by omega)]
    cases items with
    | nil => rfl
    | cons x items =>
      obtain ⟨c, t, hc, hspace, -, hclose⟩ := printValue_head printNumber (h x (by simp))
      have hhead : (bufferSkipWhitespace
          (printElements printNumber (x :: items) ++ [93] ++ rest)).head? ≠ some 93 := by
        simp only [printElements, hc, List.cons_append]
        rw [bufferSkipWhitespace_cons hspace, List.head?_cons]
        simpa using hclose
      rw [if_neg hhead, List.append_assoc]
      exact congrArg (Option.map _)
        (hE n (x :: items) (depth + 1) rest (by simp) h (by omega) (by omega))
  | @object n members h =>
    obtain ⟨h1, h2, h3⟩ := literal_not_prefix (c := 123) (by decide)
      (printMembers printNumber members ++ [125] ++ rest)
    rw [printValue, List.length_append, List.length_cons, List.length_singleton] at hfuel
    rw [parseValue.eq_def, printValue, List.cons_append, List.cons_append]
    simp only
    rw [if_neg h1, if_neg h2, if_neg h3, if_neg (by decide), if_neg (by decide),
      if_neg (by decide), if_pos trivial, if_neg (by omega)]
    cases members with
    | nil => rfl
    | cons m members =>
      obtain ⟨t, ht⟩ := printMembers_head printNumber m members
      have hhead : (bufferSkipWhitespace
          (printMembers printNumber (m :: members) ++ [125] ++ rest)).head? ≠ some 125 := by
        rw [ht, List.cons_append, List.cons_append, bufferSkipWhitespace_cons (by decide)]
        simp
      rw [if_neg hhead, List.append_assoc]
      exact congrArg (Option.map _)
        (hM n (m :: members) (depth + 1) rest (by simp) h (by omega) (by omega))

theorem elementsBack_succ (hV : ValueBack printNumber fuel) (hE : ElementsBack printNumber fuel) :
    ElementsBack printNumber (fuel + 1) := by
  intro n items depth rest hne hitems hdepth hfuel
  obtain ⟨x, items, rfl⟩ := List.exists_cons_of_ne_nil hne
  have hx := hitems x (by simp)
  obtain ⟨c, t, hc, hspace, -⟩ := printValue_head printNumber hx
  have hskip : ∀ more, bufferSkipWhitespace (printValue printNumber x ++ more) =
      printValue printNumber x ++ more := fun more => by
    rw [hc, List.cons_append, bufferSkipWhitespace_cons hspace]
  have hlen : 1 ≤ (printValue printNumber x).length := by
    rw [hc]
    simp
  rw [printElements] at hfuel ⊢
  simp only [List.length_append] at hfuel
  rw [parseElements, List.append_assoc, List.append_assoc, hskip,
    hV n x depth _ hx hdepth (by omega)]
  cases items with
  | nil =>
    simp only [List.isEmpty_nil, if_true, List.nil_append, printElements]
    rw [bufferSkipWhitespace_cons (by decide)]
    simp
  | cons y items =>
    simp only [List.isEmpty_cons, Bool.false_eq_true, if_false, List.cons_append, List.nil_append,
      List.length_singleton] at hfuel ⊢
    rw [bufferSkipWhitespace_cons (by decide)]
    have hrest := hE n (y :: items) depth rest (by simp)
      (fun z hz => hitems z (List.mem_cons_of_mem x hz)) hdepth (by omega)
    simp only [if_true, hrest, Option.map_some]

theorem membersBack_succ (hV : ValueBack printNumber fuel) (hM : MembersBack printNumber fuel) :
    MembersBack printNumber (fuel + 1) := by
  intro n members depth rest hne hmembers hdepth hfuel
  obtain ⟨⟨key, x⟩, members, rfl⟩ := List.exists_cons_of_ne_nil hne
  have hx : x.Within n := hmembers (key, x) (by simp)
  obtain ⟨c, t, hc, hspace, -⟩ := printValue_head printNumber hx
  have hskip : ∀ more, bufferSkipWhitespace (printValue printNumber x ++ more) =
      printValue printNumber x ++ more := fun more => by
    rw [hc, List.cons_append, bufferSkipWhitespace_cons hspace]
  have hkey : ∀ more, bufferSkipWhitespace (printStringPtr key ++ more) =
      printStringPtr key ++ more := fun more => bufferSkipWhitespace_cons (by decide) _
  have hlen : 1 ≤ (printValue printNumber x).length := by
    rw [hc]
    simp
  rw [printMembers] at hfuel ⊢
  simp only [List.length_append] at hfuel
  rw [parseMembers]
  simp only [List.append_assoc]
  rw [hkey, parseString_print]
  simp only [List.cons_append, List.nil_append]
  rw [bufferSkipWhitespace_cons (by decide)]
  simp only [ne_eq, not_true_eq_false, if_false]
  rw [hskip, hV n x depth _ hx hdepth (by omega)]
  cases members with
  | nil =>
    simp only [List.isEmpty_nil, if_true, List.nil_append, printMembers]
    rw [bufferSkipWhitespace_cons (by decide)]
    simp
  | cons m members =>
    simp only [List.isEmpty_cons, Bool.false_eq_true, if_false, List.cons_append, List.nil_append,
      List.length_singleton] at hfuel ⊢
    rw [bufferSkipWhitespace_cons (by decide)]
    have hrest := hM n (m :: members) depth rest (by simp)
      (fun z hz => hmembers z (List.mem_cons_of_mem _ hz)) hdepth (by omega)
    simp only [if_true, hrest, Option.map_some]

theorem all_back (printNumber : List UInt8 → List UInt8) (fuel : ℕ) :
    ValueBack printNumber fuel ∧ ElementsBack printNumber fuel ∧ MembersBack printNumber fuel := by
  induction fuel with
  | zero =>
    refine ⟨fun n j depth rest hj _ hfuel => ?_, fun n items depth rest _ _ _ hfuel => ?_,
      fun n members depth rest _ _ _ hfuel => ?_⟩
    · obtain ⟨c, t, hc, -⟩ := printValue_head printNumber hj
      rw [hc, List.length_cons] at hfuel
      omega
    · omega
    · omega
  | succ fuel ih =>
    obtain ⟨hV, hE, hM⟩ := ih
    exact ⟨valueBack_succ hE hM, elementsBack_succ hV hE, membersBack_succ hV hM⟩

/-! ### Whole texts -/

theorem zero_notMem_escapeByte {c : UInt8} (h : c ≠ 0) : 0 ∉ escapeByte c := by
  have hi := (hexChar_plain (c.toNat / 16) (by have := c.toNat_lt; omega)).2.2
  have hj := (hexChar_plain (c.toNat % 16) (by omega)).2.2
  rcases escapeByte_cases c with ⟨hc, -⟩ | ⟨e, hc, -, he, -⟩ | ⟨hc, -⟩
  · simp [hc, h.symm]
  · simp [hc, he.symm]
  · simp [hc, hi.symm, hj.symm]

theorem zero_notMem_printStringPtr (s : CStr) : 0 ∉ printStringPtr s := by
  intro h0
  rw [printStringPtr, List.cons_append, List.mem_cons, List.mem_append, List.mem_flatMap] at h0
  rcases h0 with h0 | ⟨c, hc, h0⟩ | h0
  · cases h0
  · exact zero_notMem_escapeByte (fun hzero => s.noNul (hzero ▸ hc)) h0
  · simp at h0

theorem zero_notMem_printElements {items : List Json}
    (h : ∀ x ∈ items, 0 ∉ printValue printNumber x) : 0 ∉ printElements printNumber items := by
  induction items with
  | nil => simp [printElements]
  | cons x items ih =>
    have hx := h x (by simp)
    have hrest := ih fun y hy => h y (List.mem_cons_of_mem x hy)
    rw [printElements]
    cases items <;> simp [hx, hrest]

theorem zero_notMem_printMembers {members : List (CStr × Json)}
    (h : ∀ m ∈ members, 0 ∉ printValue printNumber m.2) :
    0 ∉ printMembers printNumber members := by
  induction members with
  | nil => simp [printMembers]
  | cons m members ih =>
    have hx := h m (by simp)
    have hkey := zero_notMem_printStringPtr m.1
    have hrest := ih fun y hy => h y (List.mem_cons_of_mem m hy)
    rw [printMembers]
    cases members <;> simp [hx, hkey, hrest]

/-- No byte of a printed value is NUL. -/
theorem zero_notMem_printValue (printNumber : List UInt8 → List UInt8) {n : ℕ} {j : Json}
    (h : j.Within n) : 0 ∉ printValue printNumber j := by
  obtain ⟨hnull, hfalse, htrue⟩ := ascii_literals
  induction h with
  | null => simp [printValue, hnull]
  | bool n b => cases b <;> simp [printValue, hfalse, htrue]
  | string n s => exact zero_notMem_printStringPtr s
  | array _ ih => simp [printValue, zero_notMem_printElements ih]
  | object _ ih => simp [printValue, zero_notMem_printMembers ih]

/-- Printing a tree without numbers and parsing the text gives the tree. -/
theorem cJSONParse_print (printNumber : List UInt8 → List UInt8) {j : Json}
    (h : j.Within CJSON_NESTING_LIMIT) :
    cJSONParse (cJSONPrintUnformatted printNumber j) = some j := by
  have hbytes : (cJSONPrintUnformatted printNumber j).bytes = printValue printNumber j :=
    CStr.ofBytes_of_noNul (zero_notMem_printValue printNumber h)
  obtain ⟨c, t, hc, hspace, hascii, -⟩ := printValue_head printNumber h
  have hbom : skipUtf8Bom (printValue printNumber j) = printValue printNumber j := by
    rw [skipUtf8Bom, if_neg]
    rintro ⟨-, hbom⟩
    rw [hc, List.take_succ_cons, List.cons.injEq] at hbom
    rw [hbom.1] at hascii
    exact absurd hascii (by decide)
  have hskip : bufferSkipWhitespace (printValue printNumber j) = printValue printNumber j := by
    rw [hc]
    exact bufferSkipWhitespace_cons hspace t
  have hback := (all_back printNumber (2 * (printValue printNumber j).length + 2)).1
    CJSON_NESTING_LIMIT j 0 [] h (by omega) (by omega)
  rw [List.append_nil] at hback
  rw [cJSONParse, hbytes, hbom, hskip, hback]
  rfl

end RealtimeWs.Core
