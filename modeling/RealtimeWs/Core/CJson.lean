import RealtimeWs.Core.CString

/-! The vendored JSON library: trees, parser, printer and object access. Text is
a byte list without the terminating NUL. A number keeps the characters `strtod`
consumed; how the double they stand for prints is a parameter. -/
namespace RealtimeWs.Core

inductive Json
  | null
  | bool (b : Bool)
  | number (literal : List UInt8)
  | string (valuestring : CStr)
  | array (items : List Json)
  | object (members : List (CStr × Json))

def CJSON_NESTING_LIMIT : ℕ := 1000

/-! ### Parsing -/

def bufferSkipWhitespace (inp : List UInt8) : List UInt8 := inp.dropWhile (· ≤ 32)

def hexDigit (c : UInt8) : Option ℕ :=
  if 48 ≤ c.toNat ∧ c.toNat ≤ 57 then some (c.toNat - 48)
  else if 65 ≤ c.toNat ∧ c.toNat ≤ 70 then some (10 + c.toNat - 65)
  else if 97 ≤ c.toNat ∧ c.toNat ≤ 102 then some (10 + c.toNat - 97)
  else none

/-- Zero, as for `0000`, when a character is not a hexadecimal digit. -/
def parseHex4 (inp : List UInt8) : ℕ :=
  match (inp.take 4).mapM hexDigit with
  | none => 0
  | some ds => ds.foldl (fun h d => (h <<< 4) + d) 0

def utf8Tail (codepoint : ℕ) : UInt8 := UInt8.ofNat ((codepoint ||| 0x80) &&& 0xBF)

def utf8Bytes (codepoint : ℕ) : Option (List UInt8) :=
  if codepoint < 0x80 then some [UInt8.ofNat (codepoint &&& 0x7F)]
  else if codepoint < 0x800 then
    some [UInt8.ofNat ((codepoint >>> 6) ||| 0xC0), utf8Tail codepoint]
  else if codepoint < 0x10000 then
    some [UInt8.ofNat ((codepoint >>> 12) ||| 0xE0), utf8Tail (codepoint >>> 6), utf8Tail codepoint]
  else if codepoint ≤ 0x10FFFF then
    some [UInt8.ofNat ((codepoint >>> 18) ||| 0xF0), utf8Tail (codepoint >>> 12),
      utf8Tail (codepoint >>> 6), utf8Tail codepoint]
  else none

/-- Bytes and input length of one `\uXXXX` or surrogate pair at the head of `inp`. -/
def utf16LiteralToUtf8 (inp : List UInt8) : Option (List UInt8 × ℕ) :=
  if inp.length < 6 then none
  else
    let first := parseHex4 (inp.drop 2)
    if 0xDC00 ≤ first ∧ first ≤ 0xDFFF then none
    else if 0xD800 ≤ first ∧ first ≤ 0xDBFF then
      let second := inp.drop 6
      if second.length < 6 then none
      else if second.take 2 ≠ [92, 117] then none
      else
        let code := parseHex4 (second.drop 2)
        if code < 0xDC00 ∨ 0xDFFF < code then none
        else (utf8Bytes (0x10000 + (((first &&& 0x3FF) <<< 10) ||| (code &&& 0x3FF)))).map (·, 12)
    else (utf8Bytes first).map (·, 6)

/-- The raw characters up to the closing quote, and the text behind it. -/
def scanString : List UInt8 → Option (List UInt8 × List UInt8)
  | [] => none
  | c :: rest =>
    if c = 34 then some ([], rest)
    else if c = 92 then
      match rest with
      | [] => none
      | e :: rest => (scanString rest).map fun p => (c :: e :: p.1, p.2)
    else (scanString rest).map fun p => (c :: p.1, p.2)

/-- The character a one-letter escape stands for. -/
def escapeChar (e : UInt8) : Option UInt8 :=
  if e = 98 then some 8
  else if e = 102 then some 12
  else if e = 110 then some 10
  else if e = 114 then some 13
  else if e = 116 then some 9
  else if e = 34 ∨ e = 92 ∨ e = 47 then some e
  else none

/-- Second loop of `parse_string`. Every round consumes a character, so the
length of the segment is fuel enough. -/
def unescape : ℕ → List UInt8 → Option (List UInt8)
  | 0, _ => some []
  | _ + 1, [] => some []
  | fuel + 1, c :: rest =>
    if c ≠ 92 then (unescape fuel rest).map (c :: ·)
    else match rest with
      -- the character read behind the segment is the closing quote
      | [] => some [34]
      | e :: rest' =>
        if e = 117 then
          match utf16LiteralToUtf8 (c :: e :: rest') with
          | none => none
          | some (bs, len) => (unescape fuel ((c :: rest).drop len)).map (bs ++ ·)
        else
          match escapeChar e with
          | none => none
          | some b => (unescape fuel rest').map (b :: ·)

def parseString (inp : List UInt8) : Option (CStr × List UInt8) :=
  match inp with
  | [] => none
  | c :: rest =>
    if c ≠ 34 then none
    else match scanString rest with
      | none => none
      | some (seg, rest) => (unescape seg.length seg).map fun out => (CStr.ofBytes out, rest)

def isDigit (c : UInt8) : Bool := 48 ≤ c.toNat && c.toNat ≤ 57

def numberChar (c : UInt8) : Bool :=
  isDigit c || c == 43 || c == 45 || c == 101 || c == 69 || c == 46

/-- Digits of an exponent, empty unless at least one digit follows. -/
def exponentPart (inp : List UInt8) : List UInt8 :=
  match inp with
  | e :: rest =>
    if e = 101 ∨ e = 69 then
      let sign := rest.take 1 |>.filter fun c => c = 43 ∨ c = 45
      let digits := (rest.drop sign.length).takeWhile isDigit
      if digits = [] then [] else e :: sign ++ digits
    else []
  | [] => []

/-- The prefix `strtod` converts, empty when it converts nothing. -/
def strtodPrefix (inp : List UInt8) : List UInt8 :=
  let sign := inp.take 1 |>.filter fun c => c = 43 ∨ c = 45
  let body := inp.drop sign.length
  let whole := body.takeWhile isDigit
  let frac := match body.drop whole.length with
    | 46 :: rest => 46 :: rest.takeWhile isDigit
    | _ => []
  if whole = [] ∧ frac.length ≤ 1 then []
  else sign ++ whole ++ frac ++ exponentPart (body.drop (whole.length + frac.length))

def parseNumber (inp : List UInt8) : Option (Json × List UInt8) :=
  let literal := strtodPrefix ((inp.take 63).takeWhile numberChar)
  if literal = [] then none else some (.number literal, inp.drop literal.length)

mutual
/-- `depth` is `input_buffer->depth`; the fuel bounds the recursion and is never
the reason for a failure when it is twice the length of the text and two more. -/
def parseValue : ℕ → ℕ → List UInt8 → Option (Json × List UInt8)
  | 0, _, _ => none
  | fuel + 1, depth, inp =>
    if ascii "null" <+: inp then some (.null, inp.drop 4)
    else if ascii "false" <+: inp then some (.bool false, inp.drop 5)
    else if ascii "true" <+: inp then some (.bool true, inp.drop 4)
    else match inp with
      | [] => none
      | c :: rest =>
        if c = 34 then (parseString (c :: rest)).map fun p => (.string p.1, p.2)
        else if c = 45 ∨ isDigit c then parseNumber (c :: rest)
        else if c = 91 then
          if CJSON_NESTING_LIMIT ≤ depth then none
          else if (bufferSkipWhitespace rest).head? = some 93 then
            some (.array [], (bufferSkipWhitespace rest).tail)
          else (parseElements fuel (depth + 1) rest).map fun p => (.array p.1, p.2)
        else if c = 123 then
          if CJSON_NESTING_LIMIT ≤ depth then none
          else if (bufferSkipWhitespace rest).head? = some 125 then
            some (.object [], (bufferSkipWhitespace rest).tail)
          else (parseMembers fuel (depth + 1) rest).map fun p => (.object p.1, p.2)
        else none

/-- Elements of an array up to and including the closing bracket. -/
def parseElements : ℕ → ℕ → List UInt8 → Option (List Json × List UInt8)
  | 0, _, _ => none
  | fuel + 1, depth, inp =>
    match parseValue fuel depth (bufferSkipWhitespace inp) with
    | none => none
    | some (x, rest) =>
      match bufferSkipWhitespace rest with
      | [] => none
      | c :: rest =>
        if c = 44 then (parseElements fuel depth rest).map fun p => (x :: p.1, p.2)
        else if c = 93 then some ([x], rest)
        else none

/-- Members of an object up to and including the closing brace. -/
def parseMembers : ℕ → ℕ → List UInt8 → Option (List (CStr × Json) × List UInt8)
  | 0, _, _ => none
  | fuel + 1, depth, inp =>
    match parseString (bufferSkipWhitespace inp) with
    | none => none
    | some (key, rest) =>
      match bufferSkipWhitespace rest with
      | [] => none
      | c :: rest =>
        if c ≠ 58 then none
        else match parseValue fuel depth (bufferSkipWhitespace rest) with
          | none => none
          | some (x, rest) =>
            match bufferSkipWhitespace rest with
            | [] => none
            | c :: rest =>
              if c = 44 then (parseMembers fuel depth rest).map fun p => ((key, x) :: p.1, p.2)
              else if c = 125 then some ([(key, x)], rest)
              else none
end

def skipUtf8Bom (inp : List UInt8) : List UInt8 :=
  if 4 ≤ inp.length ∧ inp.take 3 = [0xEF, 0xBB, 0xBF] then inp.drop 3 else inp

/-- Text behind the first value is ignored. -/
def cJSONParse (value : CStr) : Option Json :=
  (parseValue (2 * value.bytes.length + 2) 0
    (bufferSkipWhitespace (skipUtf8Bom value.bytes))).map Prod.fst

/-! ### Printing -/

/-- `%x` of a number below 16. -/
def hexChar (n : ℕ) : UInt8 := (ascii "0123456789abcdef").getD n 0

def escapeByte (c : UInt8) : List UInt8 :=
  if 31 < c ∧ c ≠ 34 ∧ c ≠ 92 then [c]
  else if c = 92 then [92, 92]
  else if c = 34 then [92, 34]
  else if c = 8 then [92, 98]
  else if c = 12 then [92, 102]
  else if c = 10 then [92, 110]
  else if c = 13 then [92, 114]
  else if c = 9 then [92, 116]
  else [92, 117, 48, 48, hexChar (c.toNat / 16), hexChar (c.toNat % 16)]

def printStringPtr (s : CStr) : List UInt8 := 34 :: s.bytes.flatMap escapeByte ++ [34]

mutual
def printValue (printNumber : List UInt8 → List UInt8) : Json → List UInt8
  | .null => ascii "null"
  | .bool false => ascii "false"
  | .bool true => ascii "true"
  | .number literal => printNumber literal
  | .string s => printStringPtr s
  | .array items => 91 :: printElements printNumber items ++ [93]
  | .object members => 123 :: printMembers printNumber members ++ [125]

def printElements (printNumber : List UInt8 → List UInt8) : List Json → List UInt8
  | [] => []
  | x :: rest =>
    printValue printNumber x ++ (if rest.isEmpty then [] else [44]) ++
      printElements printNumber rest

def printMembers (printNumber : List UInt8 → List UInt8) : List (CStr × Json) → List UInt8
  | [] => []
  | (key, x) :: rest =>
    printStringPtr key ++ [58] ++ printValue printNumber x ++
      (if rest.isEmpty then [] else [44]) ++ printMembers printNumber rest
end

def cJSONPrintUnformatted (printNumber : List UInt8 → List UInt8) (item : Json) : CStr :=
  CStr.ofBytes (printValue printNumber item)

/-! ### Access -/

def cJSONGetObjectItemCaseSensitive (object : Json) (name : CStr) : Option Json :=
  match object with
  | .object members => (members.find? fun m => m.1 = name).map Prod.snd
  | _ => none

def tolower (c : UInt8) : UInt8 := if 65 ≤ c.toNat ∧ c.toNat ≤ 90 then c + 32 else c

/-- `case_insensitive_strcmp(a, b) == 0`. -/
def caseInsensitiveEq (a b : CStr) : Bool := a.bytes.map tolower = b.bytes.map tolower

/-- Removes the first member whose key is equal up to case. -/
def cJSONDeleteItemFromObject (members : List (CStr × Json)) (name : CStr) :
    List (CStr × Json) :=
  members.eraseP fun m => caseInsensitiveEq name m.1

/-- The string of a string item. -/
def Json.valuestring? : Option Json → Option CStr
  | some (.string s) => some s
  | _ => none

/-- The members of an object item. -/
def Json.members? : Option Json → Option (List (CStr × Json))
  | some (.object ms) => some ms
  | _ => none

/-! ### Equality of trees is decidable -/

mutual
def Json.same : Json → Json → Bool
  | .null, .null => true
  | .bool a, .bool b => a == b
  | .number a, .number b => a == b
  | .string a, .string b => decide (a = b)
  | .array a, .array b => sameItems a b
  | .object a, .object b => sameMembers a b
  | _, _ => false

def sameItems : List Json → List Json → Bool
  | [], [] => true
  | a :: as, b :: bs => Json.same a b && sameItems as bs
  | _, _ => false

def sameMembers : List (CStr × Json) → List (CStr × Json) → Bool
  | [], [] => true
  | (k, a) :: as, (l, b) :: bs => decide (k = l) && Json.same a b && sameMembers as bs
  | _, _ => false
end

mutual
theorem same_sound : ∀ a b : Json, Json.same a b = true → a = b
  | .null, b, h => by cases b <;> first | rfl | cases h
  | .bool x, b, h => by cases b <;> simp_all [Json.same]
  | .number l, b, h => by cases b <;> simp_all [Json.same]
  | .string s, b, h => by cases b <;> simp_all [Json.same]
  | .array as, b, h => by
    cases b with
    | array bs => rw [sameItems_sound as bs h]
    | _ => cases h
  | .object as, b, h => by
    cases b with
    | object bs => rw [sameMembers_sound as bs h]
    | _ => cases h

theorem sameItems_sound : ∀ as bs : List Json, sameItems as bs = true → as = bs
  | [], bs, h => by cases bs <;> first | rfl | cases h
  | a :: as, bs, h => by
    cases bs with
    | nil => cases h
    | cons b bs =>
      obtain ⟨ha, has⟩ := Bool.and_eq_true_iff.mp h
      rw [same_sound a b ha, sameItems_sound as bs has]

theorem sameMembers_sound : ∀ as bs : List (CStr × Json), sameMembers as bs = true → as = bs
  | [], bs, h => by cases bs <;> first | rfl | cases h
  | (k, a) :: as, bs, h => by
    cases bs with
    | nil => cases h
    | cons b bs =>
      obtain ⟨l, b⟩ := b
      obtain ⟨hka, has⟩ := Bool.and_eq_true_iff.mp h
      obtain ⟨hk, ha⟩ := Bool.and_eq_true_iff.mp hka
      rw [of_decide_eq_true hk, same_sound a b ha, sameMembers_sound as bs has]
end

mutual
theorem same_refl : ∀ a : Json, Json.same a a = true
  | .null => rfl
  | .bool b => by simp [Json.same]
  | .number l => by simp [Json.same]
  | .string s => by simp [Json.same]
  | .array items => by rw [Json.same]; exact sameItems_refl items
  | .object members => by rw [Json.same]; exact sameMembers_refl members

theorem sameItems_refl : ∀ as : List Json, sameItems as as = true
  | [] => rfl
  | a :: as => by rw [sameItems, same_refl a, sameItems_refl as]; rfl

theorem sameMembers_refl : ∀ as : List (CStr × Json), sameMembers as as = true
  | [] => rfl
  | (k, a) :: as => by rw [sameMembers, same_refl a, sameMembers_refl as]; simp
end

instance : DecidableEq Json := fun a b =>
  decidable_of_iff (Json.same a b = true) ⟨same_sound a b, fun h => h ▸ same_refl a⟩

example : (cJSONParse (CStr.lit "\x7b\"event\" : \"ma\\u0072k\", \"n\":[1.5e3 ,true]\x7d tail")).bind
    (fun j => Json.valuestring? (cJSONGetObjectItemCaseSensitive j (CStr.lit "event"))) =
      some (CStr.lit "mark") := by decide +kernel

end RealtimeWs.Core
