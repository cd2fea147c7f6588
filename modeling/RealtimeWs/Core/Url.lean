import RealtimeWs.Core.MessageRound

/-! The address of the peer: which strings pass the check of the module, and how the client takes
them apart. -/
namespace RealtimeWs.Core

/-! ### Strings -/

/-- `strchr(s, c)`: what is in front of the first `c` and what is behind it. -/
def strchr (s : List UInt8) (c : UInt8) : Option (List UInt8 × List UInt8) :=
  if c ∈ s then some (s.takeWhile (· ≠ c), (s.dropWhile (· ≠ c)).tail) else none

/-- `strrchr(s, c)`: what is in front of the last `c` and what is behind it. -/
def strrchr (s : List UInt8) (c : UInt8) : Option (List UInt8 × List UInt8) :=
  (strchr s.reverse c).map fun r => (r.2.reverse, r.1.reverse)

/-- The number digits stand for, the first the most significant. -/
def digitsValue (digits : List UInt8) : ℕ := digits.foldl (fun v c => 10 * v + (c.toNat - 48)) 0

/-- `atoi`: `(int)strtol(s, NULL, 10)` with a 64-bit `long`. -/
def atoi (s : List UInt8) : ℤ :=
  let inp := s.dropWhile isspace
  let sign := inp.take 1 |>.filter fun c => c = 43 ∨ c = 45
  let value : ℤ := digitsValue ((inp.drop sign.length).takeWhile isDigit)
  let long := if sign = [45] then max (-value) (-2 ^ 63) else min value (2 ^ 63 - 1)
  long.bmod (2 ^ 32)

/-! ### The parser -/

/-- Size of `hostport` in `parse_url`. -/
abbrev HOSTPORT_MAX : ℕ := 256

/-- Size of `host` in `rtw_ws_connect_ex`. -/
abbrev HOST_MAX : ℕ := 256

/-- Size of `path` in `rtw_ws_connect_ex`. -/
abbrev URL_PATH_MAX : ℕ := 512

/-- What a successful `parse_url` stores. -/
structure ParsedUrl (hostCap pathCap : ℕ) where
  host : CBuf hostCap
  port : ℤ
  path : CBuf pathCap
  useTls : Bool

section

variable (hostCap pathCap : ℕ) [Fact (0 < hostCap)] [Fact (0 < pathCap)]

/-- Host and port of the text between the scheme and the path. -/
def parseHostport (defaultPort : ℤ) (hostport : List UInt8) : Option (CBuf hostCap × ℤ) :=
  if hostport.head? = some 91 then
    match strchr hostport 93 with
    | none => none
    | some (front, rest) =>
      let host := front.drop 1
      if hostCap ≤ host.length then none
      else match rest with
        | [] => some (.copy hostCap (.ofBytes host), defaultPort)
        | c :: port => if c = 58 then some (.copy hostCap (.ofBytes host), atoi port) else none
  else
    match strrchr hostport 58 with
    | some (host, port) =>
      if hostCap ≤ host.length then none else some (.copy hostCap (.ofBytes host), atoi port)
    | none => some (.copy hostCap (.ofBytes hostport), defaultPort)

/-- `parse_url` behind the scheme. -/
def parseAuthority (tls : Bool) (defaultPort : ℤ) (p : List UInt8) :
    Option (ParsedUrl hostCap pathCap) :=
  let hostport := p.takeWhile (· ≠ 47)
  let pathStart := p.dropWhile (· ≠ 47)
  let path := if pathStart = [] then ascii "/" else pathStart
  if HOSTPORT_MAX ≤ hostport.length ∨ hostport.length = 0 then none
  else (parseHostport hostCap defaultPort hostport).map fun r =>
    ⟨r.1, r.2, .copy pathCap (.ofBytes path), tls⟩

/-- `parse_url`; `openssl` is `RTW_HAS_OPENSSL`. -/
def parseUrl (openssl : Bool) (url : CStr) : Option (ParsedUrl hostCap pathCap) :=
  if ascii "ws://" <+: url.bytes then
    parseAuthority hostCap pathCap false 80 (url.bytes.drop 5)
  else if ascii "wss://" <+: url.bytes then
    if openssl then parseAuthority hostCap pathCap true 443 (url.bytes.drop 6) else none
  else none

end

abbrev RTW_MAX_WS_URI : ℕ := 4096

/-- `rtw_validate_ws_uri`: the copy in `out`. -/
def rtwValidateWsUri (openssl : Bool) (outCap : ℕ) [Fact (0 < outCap)] (url : Option CStr) :
    Option (CBuf outCap) :=
  match url with
  | none => none
  | some url =>
    if outCap < 8 then none
    else if ascii "ws://" <+: url.bytes ∨ (ascii "wss://" <+: url.bytes ∧ openssl) then
      if outCap ≤ url.bytes.length then none else some (.copy outCap url)
    else none

/-! ### Characters and digits -/

theorem strchr_eq_none {s : List UInt8} {c : UInt8} : strchr s c = none ↔ c ∉ s := by
  unfold strchr
  split_ifs with h <;> simp [h]

theorem strchr_append {s t : List UInt8} {c : UInt8} (h : c ∉ s) :
    strchr (s ++ c :: t) c = some (s, t) := by
  have hkeep : ∀ b ∈ s, decide (b ≠ c) = true := fun b hb => decide_eq_true fun hbc => h (hbc ▸ hb)
  unfold strchr
  rw [if_pos (by simp), List.takeWhile_append_of_pos hkeep, List.dropWhile_append_of_pos hkeep]
  simp

/-- The first occurrence splits the string. -/
theorem strchr_eq_some {s front rest : List UInt8} {c : UInt8} :
    strchr s c = some (front, rest) ↔ s = front ++ c :: rest ∧ c ∉ front := by
  constructor
  · intro h
    have hmem : c ∈ s := by
      by_contra hnot
      rw [strchr_eq_none.mpr hnot] at h
      cases h
    obtain ⟨before, after, hsplit, hfirst⟩ := List.eq_append_cons_of_mem hmem
    rw [hsplit, strchr_append hfirst] at h
    cases h
    exact ⟨hsplit, hfirst⟩
  · rintro ⟨rfl, hfirst⟩
    exact strchr_append hfirst

/-- The last occurrence splits the string. -/
theorem strrchr_eq_some {s front rest : List UInt8} {c : UInt8} :
    strrchr s c = some (front, rest) ↔ s = front ++ c :: rest ∧ c ∉ rest := by
  have hreverse : strrchr s c = some (front, rest) ↔
      strchr s.reverse c = some (rest.reverse, front.reverse) := by
    unfold strrchr
    rw [Option.map_eq_some_iff]
    constructor
    · rintro ⟨r, hr, heq⟩
      obtain ⟨hfront, hrest⟩ := Prod.mk.inj heq
      rw [hr, ← hfront, ← hrest, List.reverse_reverse, List.reverse_reverse]
    · intro h
      exact ⟨_, h, by rw [List.reverse_reverse, List.reverse_reverse]⟩
  rw [hreverse, strchr_eq_some, List.mem_reverse, ← List.reverse_inj, List.reverse_reverse,
    List.reverse_append, List.reverse_cons, List.reverse_reverse, List.reverse_reverse,
    List.append_assoc, List.singleton_append]

theorem strrchr_eq_none {s : List UInt8} {c : UInt8} : strrchr s c = none ↔ c ∉ s := by
  rw [strrchr, Option.map_eq_none_iff, strchr_eq_none, List.mem_reverse]

theorem digit_plain {c : UInt8} (h : isDigit c = true) :
    isspace c = false ∧ c ≠ 43 ∧ c ≠ 45 ∧ c ≠ 47 ∧ c ≠ 58 := by
  simp only [isDigit, Bool.and_eq_true, decide_eq_true_eq] at h
  refine ⟨?_, ?_, ?_, ?_, ?_⟩
  · have h32 : c ≠ 32 := by
      rintro rfl
      exact absurd h.1 (by decide)
    simp only [isspace, Bool.or_eq_false_iff, beq_eq_false_iff_ne, ne_eq, h32, not_false_iff,
      true_and, Bool.and_eq_false_iff, decide_eq_false_iff_not]
    right
    omega
  all_goals
    rintro rfl
    revert h
    decide

/-- Digits below 2^31 are read as the number they stand for. -/
theorem atoi_digits {s : List UInt8} (hdigits : ∀ c ∈ s, isDigit c = true)
    (hlt : digitsValue s < 2 ^ 31) : atoi s = digitsValue s := by
  have hspace : s.dropWhile isspace = s := by
    apply List.dropWhile_eq_self_iff.mpr
    intro hlen hspace
    rw [(digit_plain (hdigits _ (List.getElem_mem hlen))).1] at hspace
    cases hspace
  have hsign : (s.take 1 |>.filter fun c => c = 43 ∨ c = 45) = [] := by
    apply List.filter_eq_nil_iff.mpr
    intro c hc
    obtain ⟨-, hplus, hminus, -⟩ := digit_plain (hdigits c (List.mem_of_mem_take hc))
    simp [hplus, hminus]
  have htake : s.takeWhile isDigit = s := List.takeWhile_eq_self_iff.mpr hdigits
  have hmin : min (digitsValue s : ℤ) (2 ^ 63 - 1) = digitsValue s := by omega
  unfold atoi
  simp only [hspace, hsign, List.length_nil, List.drop_zero, htake]
  rw [if_neg (by simp), hmin, Int.bmod_def]
  push_cast
  split_ifs <;> omega

/-! ### Well-formed addresses -/

def scheme (tls : Bool) : List UInt8 := if tls then ascii "wss://" else ascii "ws://"

def defaultPort (tls : Bool) : ℤ := if tls then 443 else 80

/-- A name, or a literal in brackets. -/
def HostText (host : List UInt8) : Prop :=
  (host ≠ [] ∧ 47 ∉ host ∧ 58 ∉ host ∧ 91 ∉ host ∧ 93 ∉ host) ∨
    ∃ literal, host = 91 :: literal ++ [93] ∧ literal ≠ [] ∧ 47 ∉ literal ∧ 91 ∉ literal ∧
      93 ∉ literal

def PortText (port : List UInt8) : Prop :=
  port ≠ [] ∧ (∀ c ∈ port, isDigit c = true) ∧ 1 ≤ digitsValue port ∧ digitsValue port ≤ 65535

/-- What may follow the host, and the port it stands for. -/
def PortPart (default : ℤ) (tail : List UInt8) (port : ℤ) : Prop :=
  (tail = [] ∧ port = default) ∨ ∃ text, tail = 58 :: text ∧ PortText text ∧ port = digitsValue text

/-- A host and what may follow it. -/
def AuthorityText (default : ℤ) (authority : List UInt8) (port : ℤ) : Prop :=
  ∃ host tail, authority = host ++ tail ∧ HostText host ∧ PortPart default tail port

def WellFormedUrl (url : List UInt8) (port : ℤ) : Prop :=
  ∃ tls authority path, url = scheme tls ++ (authority ++ path) ∧
    AuthorityText (defaultPort tls) authority port ∧ (path = [] ∨ path.head? = some 47)

/-- What is wrong with the text in front of the path and goes unnoticed. -/
inductive Unnoticed : List UInt8 → Prop
  | literal {text rest : List UInt8} (hend : 93 ∉ text) (hbad : text = [] ∨ 91 ∈ text)
    (hrest : rest = [] ∨ rest.head? = some 58) : Unnoticed (91 :: text ++ 93 :: rest)
  | literalPort {text port : List UInt8} (hend : 93 ∉ text) (hbad : ¬ PortText port) :
    Unnoticed (91 :: text ++ 93 :: 58 :: port)
  | bareName {name : List UInt8} (hstart : name.head? ≠ some 91) (hcolon : 58 ∉ name)
    (hbad : 91 ∈ name ∨ 93 ∈ name) : Unnoticed name
  | name {name port : List UInt8} (hstart : name.head? ≠ some 91) (hlast : 58 ∉ port)
    (hbad : name = [] ∨ 58 ∈ name ∨ 91 ∈ name ∨ 93 ∈ name) : Unnoticed (name ++ 58 :: port)
  | port {name port : List UInt8} (hstart : name.head? ≠ some 91) (hlast : 58 ∉ port)
    (hbad : ¬ PortText port) : Unnoticed (name ++ 58 :: port)

/-! ### The three shapes of an authority -/

theorem first_unique {c : UInt8} {f f' r r' : List UInt8} (h : f ++ c :: r = f' ++ c :: r')
    (hf : c ∉ f) (hf' : c ∉ f') : f = f' ∧ r = r' := by
  have hleft := strchr_append (t := r) hf
  rw [h, strchr_append hf'] at hleft
  cases hleft
  exact ⟨rfl, rfl⟩

theorem last_unique {c : UInt8} {f f' r r' : List UInt8} (h : f ++ c :: r = f' ++ c :: r')
    (hr : c ∉ r) (hr' : c ∉ r') : f = f' ∧ r = r' := by
  have hleft : strrchr (f ++ c :: r) c = some (f, r) := strrchr_eq_some.mpr ⟨rfl, hr⟩
  have hright : strrchr (f ++ c :: r) c = some (f', r') := strrchr_eq_some.mpr ⟨h, hr'⟩
  rw [hleft] at hright
  cases hright
  exact ⟨rfl, rfl⟩

theorem PortText.noColon {port : List UInt8} (h : PortText port) : 58 ∉ port := by
  intro hmem
  obtain ⟨-, -, -, -, hcolon⟩ := digit_plain (h.2.1 58 hmem)
  exact hcolon rfl

theorem head?_name {name port : List UInt8} (h : name.head? ≠ some 91) :
    (name ++ 58 :: port).head? ≠ some 91 := by
  cases name with
  | nil => simp
  | cons c name => exact h

section

variable {default port : ℤ} {text rest name digits : List UInt8}

theorem notMem_bracket (hend : 93 ∉ text) : 93 ∉ 91 :: text := by
  rw [List.mem_cons, not_or]
  exact ⟨by decide, hend⟩

theorem unnoticed_literal_iff (hend : 93 ∉ text) : Unnoticed (91 :: text ++ 93 :: rest) ↔
    ((text = [] ∨ 91 ∈ text) ∧ (rest = [] ∨ rest.head? = some 58)) ∨
      ∃ p, rest = 58 :: p ∧ ¬ PortText p := by
  have hstart : ∀ name : List UInt8, 91 :: text ++ 93 :: rest = name → name.head? = some 91 := by
    rintro name rfl
    rfl
  constructor
  · intro h
    generalize hall : 91 :: text ++ 93 :: rest = all at h
    cases h with
    | literal hend' hbad hrest =>
      obtain ⟨htext, rfl⟩ := first_unique hall (notMem_bracket hend) (notMem_bracket hend')
      obtain rfl := (List.cons.inj htext).2
      exact Or.inl ⟨hbad, hrest⟩
    | literalPort hend' hbad =>
      obtain ⟨-, hrest⟩ := first_unique hall (notMem_bracket hend) (notMem_bracket hend')
      exact Or.inr ⟨_, hrest, hbad⟩
    | bareName hname hcolon hbad => exact absurd (hstart _ hall) hname
    | name hname hlast hbad => exact absurd (hstart _ hall) (head?_name hname)
    | port hname hlast hbad => exact absurd (hstart _ hall) (head?_name hname)
  · rintro (⟨hbad, hrest⟩ | ⟨p, rfl, hbad⟩)
    · exact .literal hend hbad hrest
    · exact .literalPort hend hbad

theorem authority_literal_iff (hend : 93 ∉ text) (hslash : 47 ∉ text) :
    AuthorityText default (91 :: text ++ 93 :: rest) port ↔
      text ≠ [] ∧ 91 ∉ text ∧ PortPart default rest port := by
  constructor
  · rintro ⟨host, tail, hall, hhost | ⟨literal, rfl, hne, -, hopen, hclose⟩, htail⟩
    · obtain ⟨hne, -, -, hopen, -⟩ := hhost
      obtain ⟨c, host, rfl⟩ := List.exists_cons_of_ne_nil hne
      have hc : 91 = c := (List.cons.inj hall).1
      exact absurd (hc ▸ List.mem_cons_self) hopen
    · rw [List.append_assoc, List.singleton_append] at hall
      obtain ⟨htext, rfl⟩ := first_unique hall (notMem_bracket hend) (notMem_bracket hclose)
      obtain rfl := (List.cons.inj htext).2
      exact ⟨hne, hopen, htail⟩
  · rintro ⟨hne, hopen, htail⟩
    refine ⟨91 :: text ++ [93], rest, ?_, Or.inr ⟨text, rfl, hne, hslash, hopen, hend⟩, htail⟩
    rw [List.append_assoc, List.singleton_append]

theorem unnoticed_bare_iff (hstart : name.head? ≠ some 91) (hcolon : 58 ∉ name) :
    Unnoticed name ↔ 91 ∈ name ∨ 93 ∈ name := by
  constructor
  · intro h
    cases h with
    | literal => exact absurd rfl hstart
    | literalPort => exact absurd rfl hstart
    | bareName _ _ hbad => exact hbad
    | name => exact absurd (by simp) hcolon
    | port => exact absurd (by simp) hcolon
  · exact .bareName hstart hcolon

/-- A bracket does not start a host that is a name. -/
theorem not_literal_host (hstart : name.head? ≠ some 91) {literal tail : List UInt8} :
    name ≠ 91 :: literal ++ [93] ++ tail := by
  rintro rfl
  exact hstart rfl

theorem authority_bare_iff (hne : name ≠ []) (hslash : 47 ∉ name)
    (hstart : name.head? ≠ some 91) (hcolon : 58 ∉ name) :
    AuthorityText default name port ↔ (91 ∉ name ∧ 93 ∉ name) ∧ port = default := by
  constructor
  · rintro ⟨host, tail, hall, ⟨-, -, -, hopen, hclose⟩ | ⟨literal, rfl, -⟩, htail⟩
    · rcases htail with ⟨rfl, hport⟩ | ⟨digits, rfl, -⟩
      · rw [List.append_nil] at hall
        exact ⟨⟨hall ▸ hopen, hall ▸ hclose⟩, hport⟩
      · exact absurd (hall ▸ by simp) hcolon
    · exact absurd hall (not_literal_host hstart)
  · rintro ⟨⟨hopen, hclose⟩, rfl⟩
    exact ⟨name, [], (List.append_nil name).symm, Or.inl ⟨hne, hslash, hcolon, hopen, hclose⟩,
      Or.inl ⟨rfl, rfl⟩⟩

theorem unnoticed_colon_iff (hstart : name.head? ≠ some 91) (hlast : 58 ∉ digits) :
    Unnoticed (name ++ 58 :: digits) ↔
      (name = [] ∨ 58 ∈ name ∨ 91 ∈ name ∨ 93 ∈ name) ∨ ¬ PortText digits := by
  constructor
  · intro h
    generalize hall : name ++ 58 :: digits = all at h
    cases h with
    | literal => exact absurd (congrArg List.head? hall) (head?_name hstart)
    | literalPort => exact absurd (congrArg List.head? hall) (head?_name hstart)
    | bareName _ hcolon _ => exact absurd (hall ▸ by simp) hcolon
    | name _ hlast' hbad =>
      obtain ⟨rfl, -⟩ := last_unique hall hlast hlast'
      exact Or.inl hbad
    | port _ hlast' hbad =>
      obtain ⟨-, rfl⟩ := last_unique hall hlast hlast'
      exact Or.inr hbad
  · rintro (hbad | hbad)
    · exact .name hstart hlast hbad
    · exact .port hstart hlast hbad

theorem authority_colon_iff (hslash : 47 ∉ name) (hstart : name.head? ≠ some 91)
    (hlast : 58 ∉ digits) : AuthorityText default (name ++ 58 :: digits) port ↔
      (name ≠ [] ∧ 58 ∉ name ∧ 91 ∉ name ∧ 93 ∉ name) ∧ PortText digits ∧
        port = digitsValue digits := by
  constructor
  · rintro ⟨host, tail, hall, ⟨hne, -, hcolon, hopen, hclose⟩ | ⟨literal, rfl, -⟩, htail⟩
    · rcases htail with ⟨rfl, -⟩ | ⟨text, rfl, htext, hport⟩
      · rw [List.append_nil] at hall
        exact absurd (hall ▸ by simp) hcolon
      · obtain ⟨rfl, rfl⟩ := last_unique hall hlast htext.noColon
        exact ⟨⟨hne, hcolon, hopen, hclose⟩, htext, hport⟩
    · exact absurd hall (not_literal_host (head?_name hstart))
  · rintro ⟨⟨hne, hcolon, hopen, hclose⟩, hdigits, hport⟩
    exact ⟨name, 58 :: digits, rfl, Or.inl ⟨hne, hslash, hcolon, hopen, hclose⟩,
      Or.inr ⟨digits, rfl, hdigits, hport⟩⟩

/-! ### What the parser accepts -/

theorem portPart_colon_iff : PortPart default (58 :: digits) (atoi digits) ↔ PortText digits := by
  constructor
  · rintro (⟨hnil, -⟩ | ⟨text, htext, hok, -⟩)
    · cases hnil
    · obtain rfl := (List.cons.inj htext).2
      exact hok
  · intro h
    have hvalue : atoi digits = digitsValue digits := by
      apply atoi_digits h.2.1
      have hle := h.2.2.2
      omega
    exact Or.inr ⟨digits, rfl, h, hvalue⟩

theorem portPart_nil_iff : PortPart default [] port ↔ port = default := by
  constructor
  · rintro (⟨-, hport⟩ | ⟨text, htext, -⟩)
    · exact hport
    · cases htext
  · exact fun hport => Or.inl ⟨rfl, hport⟩

/-- An authority that starts with a bracket and has no closing one is noticed. -/
theorem Unnoticed.closes {authority : List UInt8} (h : Unnoticed authority)
    (hstart : authority.head? = some 91) : 93 ∈ authority := by
  cases h with
  | literal => simp
  | literalPort => simp
  | bareName hname => exact absurd hstart hname
  | name hname => exact absurd hstart (head?_name hname)
  | port hname => exact absurd hstart (head?_name hname)

/-- Up to 255 bytes in front of the path are taken apart as a well-formed authority if and only
if nothing goes unnoticed. -/
theorem parseHostport_sound_iff (default : ℤ) {authority : List UInt8} (hne : authority ≠ [])
    (hslash : 47 ∉ authority) (hlen : authority.length < HOSTPORT_MAX) :
    (∀ r, parseHostport HOST_MAX default authority = some r →
      AuthorityText default authority r.2) ↔ ¬ Unnoticed authority := by
  have hcap : HOST_MAX = HOSTPORT_MAX := rfl
  unfold parseHostport
  by_cases hstart : authority.head? = some 91
  · rw [if_pos hstart]
    cases hclose : strchr authority 93 with
    | none => exact iff_of_true nofun fun h => strchr_eq_none.mp hclose (h.closes hstart)
    | some split =>
      obtain ⟨front, rest⟩ := split
      obtain ⟨rfl, hend⟩ := strchr_eq_some.mp hclose
      obtain ⟨text, rfl⟩ : ∃ text, front = 91 :: text := by
        cases front with
        | nil => cases hstart
        | cons c text => exact ⟨text, congrArg (· :: text) (Option.some.inj hstart)⟩
      have hend' : 93 ∉ text := fun hmem => hend (List.mem_cons_of_mem 91 hmem)
      have hslash' : 47 ∉ text := fun hmem => hslash (by simp [hmem])
      have hfits : ¬ HOST_MAX ≤ text.length := by
        rw [List.length_append, List.length_cons] at hlen
        omega
      simp only [List.drop_succ_cons, List.drop_zero, if_neg hfits]
      rw [unnoticed_literal_iff hend']
      cases rest with
      | nil =>
        simp only [Option.some.injEq, forall_eq', authority_literal_iff hend' hslash',
          portPart_nil_iff]
        simp [not_or]
      | cons c digits =>
        by_cases hcolon : c = 58
        · subst hcolon
          simp only [if_true, Option.some.injEq, forall_eq', authority_literal_iff hend' hslash',
            portPart_colon_iff]
          simp [not_or, and_assoc]
        · simp only [if_neg hcolon]
          simp [hcolon]
  · rw [if_neg hstart]
    cases hcolon : strrchr authority 58 with
    | none =>
      have hnone := strrchr_eq_none.mp hcolon
      rw [unnoticed_bare_iff hstart hnone, not_or]
      simp only [Option.some.injEq, forall_eq', authority_bare_iff hne hslash hstart hnone,
        and_true]
    | some split =>
      obtain ⟨name, digits⟩ := split
      obtain ⟨rfl, hlast⟩ := strrchr_eq_some.mp hcolon
      have hname : name.head? ≠ some 91 := by
        cases name with
        | nil => nofun
        | cons c name => exact hstart
      have hslash' : 47 ∉ name := fun hmem => hslash (List.mem_append_left _ hmem)
      have hfits : ¬ HOST_MAX ≤ name.length := by
        rw [List.length_append] at hlen
        omega
      have hvalue : PortText digits → atoi digits = digitsValue digits := by
        intro h
        apply atoi_digits h.2.1
        have hle := h.2.2.2
        omega
      rw [unnoticed_colon_iff hname hlast]
      simp only [if_neg hfits, Option.some.injEq, forall_eq',
        authority_colon_iff hslash' hname hlast]
      constructor
      · rintro ⟨⟨hne, hno, hopen, hclose⟩, hport, -⟩ (hbad | hbad)
        · simp [hne, hno, hopen, hclose] at hbad
        · exact hbad hport
      · intro h
        rw [not_or, not_not, not_or, not_or, not_or] at h
        exact ⟨h.1, h.2, hvalue h.2⟩

end

/-! ### Whole addresses -/

theorem schemes_differ : ¬ ascii "ws://" <+: ascii "wss://" := by decide

/-- What is behind the scheme. -/
theorem parseUrl_scheme {hostCap pathCap : ℕ} [Fact (0 < hostCap)] [Fact (0 < pathCap)]
    {openssl tls : Bool} (hbuilt : tls = true → openssl = true) {url : CStr} {rest : List UInt8}
    (hurl : url.bytes = scheme tls ++ rest) : parseUrl hostCap pathCap openssl url =
      parseAuthority hostCap pathCap tls (defaultPort tls) rest := by
  unfold parseUrl
  cases tls with
  | false =>
    have hpre : ascii "ws://" <+: url.bytes := ⟨rest, hurl.symm⟩
    have hdrop : url.bytes.drop 5 = rest := by
      rw [hurl]
      exact List.drop_left' rfl
    rw [if_pos hpre, hdrop]
    rfl
  | true =>
    have hpre : ascii "wss://" <+: url.bytes := ⟨rest, hurl.symm⟩
    have hnot : ¬ ascii "ws://" <+: url.bytes := fun hws =>
      schemes_differ (List.prefix_of_prefix_length_le hws hpre (by decide))
    have hdrop : url.bytes.drop 6 = rest := by
      rw [hurl]
      exact List.drop_left' rfl
    rw [if_neg hnot, if_pos hpre, if_pos (hbuilt rfl), hdrop]
    rfl

theorem parseUrl_some_scheme {hostCap pathCap : ℕ} [Fact (0 < hostCap)] [Fact (0 < pathCap)]
    {openssl : Bool} {url : CStr} {r : ParsedUrl hostCap pathCap}
    (h : parseUrl hostCap pathCap openssl url = some r) :
    ∃ tls rest, (tls = true → openssl = true) ∧ url.bytes = scheme tls ++ rest := by
  unfold parseUrl at h
  split_ifs at h with hws hwss hssl
  · obtain ⟨rest, hrest⟩ := hws
    exact ⟨false, rest, nofun, hrest.symm⟩
  · obtain ⟨rest, hrest⟩ := hwss
    exact ⟨true, rest, fun _ => hssl, hrest.symm⟩

theorem scheme_inj {tls tls' : Bool} {rest rest' : List UInt8}
    (h : scheme tls ++ rest = scheme tls' ++ rest') : tls = tls' ∧ rest = rest' := by
  have hws : ∀ {r r' : List UInt8}, ascii "ws://" ++ r ≠ ascii "wss://" ++ r' := by
    intro r r' heq
    exact schemes_differ (List.prefix_of_prefix_length_le ⟨r, rfl⟩ ⟨r', heq.symm⟩ (by decide))
  cases tls with
  | false =>
    cases tls' with
    | false => exact ⟨rfl, List.append_cancel_left h⟩
    | true => exact absurd h hws
  | true =>
    cases tls' with
    | false => exact absurd h.symm hws
    | true => exact ⟨rfl, List.append_cancel_left h⟩

theorem AuthorityText.noSlash {default port : ℤ} {authority : List UInt8}
    (h : AuthorityText default authority port) : 47 ∉ authority := by
  obtain ⟨host, tail, rfl, hhost, htail⟩ := h
  rw [List.mem_append, not_or]
  constructor
  · rcases hhost with ⟨-, hslash, -⟩ | ⟨literal, rfl, -, hslash, -⟩
    · exact hslash
    · simp [hslash]
  · rcases htail with ⟨rfl, -⟩ | ⟨text, rfl, htext, -⟩
    · exact List.not_mem_nil
    · intro hmem
      rcases List.mem_cons.mp hmem with hcolon | hmem
      · cases hcolon
      · obtain ⟨-, -, -, hslash, -⟩ := digit_plain (htext.2.1 47 hmem)
        exact hslash rfl

/-- The authority of an address is the text up to the first slash. -/
theorem wellFormedUrl_scheme_iff {tls : Bool} {rest : List UInt8} {port : ℤ} :
    WellFormedUrl (scheme tls ++ rest) port ↔
      AuthorityText (defaultPort tls) (rest.takeWhile (· ≠ 47)) port := by
  constructor
  · rintro ⟨tls', authority, path, hurl, hauthority, hpath⟩
    obtain ⟨rfl, rfl⟩ := scheme_inj hurl
    have hkeep : ∀ c ∈ authority, decide (c ≠ 47) = true := fun c hc =>
      decide_eq_true fun heq => hauthority.noSlash (heq ▸ hc)
    have hstop : path.takeWhile (· ≠ 47) = [] := by
      rcases hpath with rfl | hhead
      · rfl
      · obtain ⟨path, rfl⟩ := List.head?_eq_some_iff.mp hhead
        rfl
    rw [List.takeWhile_append_of_pos hkeep, hstop, List.append_nil]
    exact hauthority
  · intro h
    refine ⟨tls, _, rest.dropWhile (· ≠ 47), ?_, h, ?_⟩
    · rw [List.takeWhile_append_dropWhile]
    · cases hpath : rest.dropWhile (· ≠ 47) with
      | nil => exact Or.inl rfl
      | cons c path =>
        right
        have hc : decide (c ≠ 47) = false := by
          have hhead := List.head?_dropWhile_not (fun b : UInt8 => decide (b ≠ 47)) rest
          rw [hpath] at hhead
          exact hhead
        rw [List.head?_cons, of_not_not (of_decide_eq_false hc)]

/-- Only well-formed addresses are accepted, with the port they carry, if and only if nothing is
wrong with the text in front of the path that goes unnoticed. -/
theorem parseUrl_sound_iff (openssl : Bool) (url : CStr) :
    (∀ r, parseUrl HOST_MAX URL_PATH_MAX openssl url = some r → WellFormedUrl url.bytes r.port) ↔
      ∀ tls rest, url.bytes = scheme tls ++ rest → (tls = true → openssl = true) →
        rest.takeWhile (· ≠ 47) ≠ [] → (rest.takeWhile (· ≠ 47)).length < HOSTPORT_MAX →
          ¬ Unnoticed (rest.takeWhile (· ≠ 47)) := by
  have hslash : ∀ rest : List UInt8, 47 ∉ rest.takeWhile (· ≠ 47) := by
    intro rest hmem
    have hne := List.mem_takeWhile_imp hmem
    simp at hne
  constructor
  · intro hsound tls rest hurl hbuilt hne hlen
    rw [← parseHostport_sound_iff (defaultPort tls) hne (hslash rest) hlen]
    intro r hr
    have hbounds : ¬ (HOSTPORT_MAX ≤ (rest.takeWhile (· ≠ 47)).length ∨
        (rest.takeWhile (· ≠ 47)).length = 0) := by
      rw [not_or, List.length_eq_zero_iff]
      exact ⟨Nat.not_le_of_lt hlen, hne⟩
    have hparse : parseUrl HOST_MAX URL_PATH_MAX openssl url =
        parseAuthority HOST_MAX URL_PATH_MAX tls (defaultPort tls) rest :=
      parseUrl_scheme hbuilt hurl
    rw [parseAuthority, if_neg hbounds, hr, Option.map_some] at hparse
    have hwell := hsound _ hparse
    rw [hurl, wellFormedUrl_scheme_iff] at hwell
    exact hwell
  · intro hgood r hr
    obtain ⟨tls, rest, hbuilt, hurl⟩ := parseUrl_some_scheme hr
    rw [parseUrl_scheme hbuilt hurl, parseAuthority] at hr
    by_cases hbounds : HOSTPORT_MAX ≤ (rest.takeWhile (· ≠ 47)).length ∨
        (rest.takeWhile (· ≠ 47)).length = 0
    · rw [if_pos hbounds] at hr
      cases hr
    rw [if_neg hbounds] at hr
    rw [not_or, List.length_eq_zero_iff] at hbounds
    obtain ⟨hlen, hne⟩ := hbounds
    obtain ⟨r', hr', rfl⟩ := Option.map_eq_some_iff.mp hr
    rw [hurl, wellFormedUrl_scheme_iff]
    have hunnoticed := hgood tls rest hurl hbuilt hne (Nat.lt_of_not_le hlen)
    exact (parseHostport_sound_iff _ hne (hslash rest) (Nat.lt_of_not_le hlen)).mpr hunnoticed r' hr'

/-- The host is missing. -/
def hostlessUrl : CStr := .lit "ws://:80/x"

theorem hostlessUrl_accepted : ∃ r, parseUrl HOST_MAX URL_PATH_MAX false hostlessUrl = some r ∧
    ¬ WellFormedUrl hostlessUrl.bytes r.port := by
  have hsome : (parseUrl HOST_MAX URL_PATH_MAX false hostlessUrl).isSome = true := by decide
  have hurl : hostlessUrl.bytes = scheme false ++ ascii ":80/x" := by decide
  have hauthority : (ascii ":80/x").takeWhile (· ≠ 47) = [] ++ 58 :: ascii "80" := by decide
  have hlast : 58 ∉ ascii "80" := by decide
  obtain ⟨r, hr⟩ := Option.isSome_iff_exists.mp hsome
  refine ⟨r, hr, ?_⟩
  rw [hurl, wellFormedUrl_scheme_iff, hauthority,
    authority_colon_iff List.not_mem_nil nofun hlast]
  exact fun h => h.1.1 rfl

end RealtimeWs.Core
