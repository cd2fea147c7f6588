import Mathlib.Data.Nat.Digits.Lemmas
import RealtimeWs.Core.Url
import RealtimeWs.Mod.UpgradeRequest

/-! From the address of the peer to the request: what the client recovers of the parts an
address was made of. -/
namespace RealtimeWs.Mod

open RealtimeWs.Core

/-- The parts of an address; a literal host stands in brackets. -/
structure UrlParts where
  tls : Bool
  literal : Bool
  host : List UInt8
  port : Option UInt32
  path : List UInt8

def UrlParts.hostText (u : UrlParts) : List UInt8 :=
  if u.literal then 91 :: u.host ++ [93] else u.host

def UrlParts.portText (u : UrlParts) : List UInt8 :=
  match u.port with
  | none => []
  | some n => 58 :: (decimal n).bytes

def UrlParts.bytes (u : UrlParts) : List UInt8 :=
  scheme u.tls ++ (u.hostText ++ u.portText ++ u.path)

/-- The port of the address, or that of its scheme. -/
def UrlParts.portNumber (u : UrlParts) : ℤ :=
  match u.port with
  | none => defaultPort u.tls
  | some n => n.toNat

def UrlParts.target (u : UrlParts) : List UInt8 := if u.path = [] then ascii "/" else u.path

/-- The addresses the module takes; a literal may be any text that its bracket ends. -/
structure UrlParts.Valid (u : UrlParts) : Prop where
  host_ne : u.host ≠ []
  host_short : u.host.length ≤ 240
  host_plain : 0 ∉ u.host ∧ 47 ∉ u.host ∧ 93 ∉ u.host
  name_plain : u.literal = false → 58 ∉ u.host ∧ 91 ∉ u.host
  port_range : ∀ n, u.port = some n → 1 ≤ n.toNat ∧ n.toNat ≤ 65535
  path_start : u.path = [] ∨ u.path.head? = some 47
  path_noNul : 0 ∉ u.path
  short : u.bytes.length < RTW_MAX_WS_URI

local instance hostMaxPos : Fact (0 < HOST_MAX) := ⟨by decide⟩

local instance urlPathMaxPos : Fact (0 < URL_PATH_MAX) := ⟨by decide⟩

/-- The parser yields the parts, and the request asks for the whole path. -/
def Recovered (openssl : Bool) (url : CStr) (u : UrlParts) : Prop :=
  ∃ r, parseUrl HOST_MAX URL_PATH_MAX openssl url = some r ∧ r.useTls = u.tls ∧
    r.host.bytes = u.host ∧ r.port = u.portNumber ∧ r.path.bytes = u.target ∧
    ∀ extra, ascii "GET " ++ u.target ++ ascii " HTTP/1.1\r\n" <+:
      httpRequest r.useTls extra r.host.toCStr r.port r.path.toCStr

/-- Every request starts with its request line. -/
theorem requestLine_prefix (useTls : Bool) (extra : Option CStr) (host : CStr) (port : ℤ)
    (path : CStr) : ascii "GET " ++ path.bytes ++ ascii " HTTP/1.1\r\n" <+:
      httpRequest useTls extra host port path := by
  have hline : ascii "GET " ++ path.bytes ++ ascii " HTTP/1.1\r\n" = requestLine path ++ crlf := by
    have hlit : ascii " HTTP/1.1\r\n" = ascii " HTTP/1.1" ++ crlf := by decide
    rw [requestLine, hlit, List.append_assoc, List.append_assoc, List.append_assoc]
  rw [hline, httpRequest_eq, List.flatMap_cons, List.append_assoc, List.append_assoc]
  exact List.prefix_append _ _

/-! ### Ports -/

theorem decimal_length_le {n : UInt32} (h : n.toNat ≤ 65535) : (decimal n).bytes.length ≤ 5 := by
  have hlt : n.toNat < 10 ^ 5 := by omega
  rw [decimal_bytes, List.length_map]
  unfold decimalDigits
  split_ifs
  · decide
  · rw [List.length_reverse]
    exact (Nat.digits_length_le_iff (by decide) _).mpr hlt

theorem atoi_decimal {n : UInt32} (h : n.toNat ≤ 65535) : atoi (decimal n).bytes = n.toNat := by
  have hvalue : digitsValue (decimal n).bytes = n.toNat := decimal_value n
  rw [atoi_digits (decimal_isDigit n) (by omega), hvalue]

theorem copy_ofBytes {cap : ℕ} [Fact (0 < cap)] {b : List UInt8} (hnul : 0 ∉ b)
    (hlen : b.length < cap) : (CBuf.copy cap (.ofBytes b)).bytes = b := by
  have hbytes := CStr.ofBytes_of_noNul hnul
  rw [CBuf.copy_bytes, hbytes]
  rw [hbytes]
  exact hlen

variable {u : UrlParts}

theorem portText_cases (h : u.Valid) :
    (u.portText = [] ∧ u.portNumber = defaultPort u.tls) ∨
      ∃ digits, u.portText = 58 :: digits ∧ atoi digits = u.portNumber ∧ 47 ∉ digits ∧
        58 ∉ digits ∧ digits.length ≤ 5 := by
  unfold UrlParts.portText UrlParts.portNumber
  cases hport : u.port with
  | none => exact Or.inl ⟨rfl, rfl⟩
  | some n =>
    obtain ⟨-, hle⟩ := h.port_range n hport
    refine Or.inr ⟨_, rfl, atoi_decimal hle, ?_, ?_, decimal_length_le hle⟩
    · intro hmem
      obtain ⟨-, -, -, hslash, -⟩ := digit_plain (decimal_isDigit n 47 hmem)
      exact hslash rfl
    · intro hmem
      obtain ⟨-, -, -, -, hcolon⟩ := digit_plain (decimal_isDigit n 58 hmem)
      exact hcolon rfl

/-- What is in front of the path is taken apart into host and port. -/
theorem parseHostport_parts (h : u.Valid) : ∃ host : CBuf HOST_MAX, host.bytes = u.host ∧
    parseHostport HOST_MAX (defaultPort u.tls) (u.hostText ++ u.portText) =
      some (host, u.portNumber) := by
  have hcap : HOST_MAX = 256 := rfl
  have hshort := h.host_short
  have hfits : ¬ HOST_MAX ≤ u.host.length := by omega
  obtain ⟨hnul, -, hclose⟩ := h.host_plain
  refine ⟨.copy HOST_MAX (.ofBytes u.host), copy_ofBytes hnul (by omega), ?_⟩
  unfold parseHostport UrlParts.hostText
  cases hliteral : u.literal with
  | true =>
    have hend : 93 ∉ 91 :: u.host := notMem_bracket hclose
    have hsplit : 91 :: u.host ++ [93] ++ u.portText = 91 :: u.host ++ 93 :: u.portText := by
      rw [List.append_assoc, List.singleton_append]
    rw [if_pos rfl, hsplit, if_pos (by rfl), strchr_append hend]
    simp only [List.drop_succ_cons, List.drop_zero, if_neg hfits]
    rcases portText_cases h with ⟨hnone, hport⟩ | ⟨digits, hsome, hport, -⟩
    · rw [hnone, hport]
    · rw [hsome]
      simp only [if_true, hport]
  | false =>
    obtain ⟨hcolon, hopen⟩ := h.name_plain hliteral
    have hstart : u.host.head? ≠ some 91 := fun hhead => hopen (List.mem_of_head? hhead)
    simp only [Bool.false_eq_true, if_false]
    rcases portText_cases h with ⟨hnone, hport⟩ | ⟨digits, hsome, hport, -, hlast, -⟩
    · rw [hnone, List.append_nil, if_neg hstart, strrchr_eq_none.mpr hcolon, hport]
    · rw [hsome, if_neg (head?_name hstart), strrchr_eq_some.mpr ⟨rfl, hlast⟩]
      simp only [if_neg hfits, hport]

/-- The text in front of the path has no slash and fits its buffer. -/
theorem authority_plain (h : u.Valid) : 47 ∉ u.hostText ++ u.portText ∧
    (u.hostText ++ u.portText).length < HOSTPORT_MAX ∧ u.hostText ++ u.portText ≠ [] := by
  have hcap : HOSTPORT_MAX = 256 := rfl
  have hshort := h.host_short
  obtain ⟨-, hslash, -⟩ := h.host_plain
  have hhost : 47 ∉ u.hostText ∧ u.hostText.length ≤ 242 ∧ u.hostText ≠ [] := by
    unfold UrlParts.hostText
    cases u.literal with
    | true =>
      simp only [if_true]
      refine ⟨by simp [hslash], ?_, nofun⟩
      rw [List.length_append, List.length_cons, List.length_singleton]
      omega
    | false =>
      simp only [Bool.false_eq_true, if_false]
      exact ⟨hslash, by omega, h.host_ne⟩
  have hport : 47 ∉ u.portText ∧ u.portText.length ≤ 6 := by
    rcases portText_cases h with ⟨hnone, -⟩ | ⟨digits, hsome, -, hdigits, -, hlen⟩
    · rw [hnone]
      exact ⟨List.not_mem_nil, Nat.zero_le 6⟩
    · rw [hsome]
      refine ⟨by simp [hdigits], ?_⟩
      rw [List.length_cons]
      omega
  refine ⟨?_, ?_, ?_⟩
  · rw [List.mem_append, not_or]
    exact ⟨hhost.1, hport.1⟩
  · rw [List.length_append]
    omega
  · exact List.append_ne_nil_of_left_ne_nil hhost.2.2 _

theorem target_noNul (h : u.Valid) : 0 ∉ u.target := by
  unfold UrlParts.target
  split_ifs
  · decide
  · exact h.path_noNul

theorem parseUrl_parts {openssl : Bool} {url : CStr} (h : u.Valid)
    (hbuilt : u.tls = true → openssl = true) (hurl : url.bytes = u.bytes) :
    ∃ r, parseUrl HOST_MAX URL_PATH_MAX openssl url = some r ∧ r.useTls = u.tls ∧
      r.host.bytes = u.host ∧ r.port = u.portNumber ∧
      r.path.bytes = u.target.take (URL_PATH_MAX - 1) := by
  obtain ⟨hslash, hlen, hne⟩ := authority_plain h
  obtain ⟨host, hhost, hparse⟩ := parseHostport_parts h
  have hbytes : url.bytes = scheme u.tls ++ (u.hostText ++ u.portText ++ u.path) := hurl
  generalize u.hostText ++ u.portText = authority at hslash hlen hne hparse hbytes
  have hkeep : ∀ c ∈ authority, decide (c ≠ 47) = true := fun c hc =>
    decide_eq_true fun heq => hslash (heq ▸ hc)
  have hstop : u.path.takeWhile (· ≠ 47) = [] ∧ u.path.dropWhile (· ≠ 47) = u.path := by
    rcases h.path_start with hnil | hhead
    · rw [hnil]
      exact ⟨rfl, rfl⟩
    · obtain ⟨path, hpath⟩ := List.head?_eq_some_iff.mp hhead
      rw [hpath]
      exact ⟨rfl, rfl⟩
  have hbounds : ¬ (HOSTPORT_MAX ≤ authority.length ∨ authority.length = 0) := by
    rw [not_or, List.length_eq_zero_iff]
    exact ⟨Nat.not_le_of_lt hlen, hne⟩
  refine ⟨⟨host, u.portNumber, .copy URL_PATH_MAX (.ofBytes u.target), u.tls⟩, ?_, rfl, hhost, rfl,
    ?_⟩
  · rw [parseUrl_scheme hbuilt hbytes, parseAuthority]
    simp only [List.takeWhile_append_of_pos hkeep, List.dropWhile_append_of_pos hkeep, hstop.1,
      hstop.2, List.append_nil]
    rw [if_neg hbounds, hparse]
    rfl
  · change (CStr.ofBytes u.target).bytes.take (URL_PATH_MAX - 1) = _
    rw [CStr.ofBytes_of_noNul (target_noNul h)]

theorem target_length_le (u : UrlParts) :
    u.path.length < URL_PATH_MAX ↔ u.target.length ≤ URL_PATH_MAX - 1 := by
  have hcap : URL_PATH_MAX = 512 := rfl
  unfold UrlParts.target
  split_ifs with hnil
  · rw [hnil]
    exact iff_of_true (by decide) (by decide)
  · omega

/-- A path that does not fit is cut. -/
theorem Recovered.path_fits {openssl : Bool} {url : CStr} (h : u.Valid)
    (hbuilt : u.tls = true → openssl = true) (hurl : url.bytes = u.bytes)
    (hall : Recovered openssl url u) : u.path.length < URL_PATH_MAX := by
  obtain ⟨r, hr, -, -, -, hpath⟩ := parseUrl_parts h hbuilt hurl
  obtain ⟨r', hr', -, -, -, hpath', -⟩ := hall
  rw [hr] at hr'
  cases hr'
  have hlen := congrArg List.length (hpath.symm.trans hpath')
  rw [List.length_take] at hlen
  rw [target_length_le]
  omega

/-- Valid addresses are taken apart into their parts if and only if the path fits its buffer. -/
theorem url_recovered_iff {openssl : Bool} {url : CStr} (h : u.Valid)
    (hbuilt : u.tls = true → openssl = true) (hurl : url.bytes = u.bytes) :
    Recovered openssl url u ↔ u.path.length < URL_PATH_MAX := by
  constructor
  · exact Recovered.path_fits h hbuilt hurl
  · intro hfits
    obtain ⟨r, hr, htls, hhost, hport, hpath⟩ := parseUrl_parts h hbuilt hurl
    rw [List.take_of_length_le ((target_length_le u).mp hfits)] at hpath
    refine ⟨r, hr, htls, hhost, hport, hpath, ?_⟩
    intro extra
    rw [← hpath]
    exact requestLine_prefix _ extra _ _ _

/-- The check of the module lets these addresses pass unchanged. -/
theorem rtwValidateWsUri_parts {openssl : Bool} {url : CStr} (h : u.Valid)
    (hbuilt : u.tls = true → openssl = true) (hurl : url.bytes = u.bytes) :
    ∃ out, rtwValidateWsUri openssl RTW_MAX_WS_URI (some url) = some out ∧
      out.bytes = url.bytes := by
  have hlen : url.bytes.length < RTW_MAX_WS_URI := by
    rw [hurl]
    exact h.short
  have hscheme : ascii "ws://" <+: url.bytes ∨ (ascii "wss://" <+: url.bytes ∧ openssl) := by
    rw [hurl, UrlParts.bytes]
    cases htls : u.tls with
    | false => exact Or.inl ⟨_, rfl⟩
    | true => exact Or.inr ⟨⟨_, rfl⟩, hbuilt htls⟩
  refine ⟨.copy RTW_MAX_WS_URI url, ?_, CBuf.copy_bytes hlen⟩
  rw [rtwValidateWsUri, if_neg (by decide), if_pos hscheme, if_neg (Nat.not_le_of_lt hlen)]

/-- `ws://h` and a path of `n` letters. -/
def longPath (n : ℕ) : UrlParts := ⟨false, false, ascii "h", none, 47 :: List.replicate n 97⟩

theorem longPath_bytes (n : ℕ) :
    (longPath n).bytes = ascii "ws://h" ++ 47 :: List.replicate n 97 := rfl

theorem longPath_noNul (n : ℕ) : 0 ∉ (longPath n).bytes := by
  have hfront : 0 ∉ ascii "ws://h" := by decide
  rw [longPath_bytes, List.mem_append, not_or]
  exact ⟨hfront, by simp⟩

theorem longPath_valid {n : ℕ} (h : n < 4000) : (longPath n).Valid where
  host_ne := nofun
  host_short := show 1 ≤ 240 by decide
  host_plain := show 0 ∉ ascii "h" ∧ 47 ∉ ascii "h" ∧ 93 ∉ ascii "h" by decide
  name_plain := fun _ => show 58 ∉ ascii "h" ∧ 91 ∉ ascii "h" by decide
  port_range := nofun
  path_start := Or.inr rfl
  path_noNul := by simp [longPath]
  short := by
    have hcap : RTW_MAX_WS_URI = 4096 := rfl
    have hfront : (ascii "ws://h").length = 6 := by decide
    rw [longPath_bytes, List.length_append, List.length_cons, List.length_replicate]
    omega

theorem url_recovered_short : Recovered false (.ofBytes (longPath 3).bytes) (longPath 3) :=
  (url_recovered_iff (longPath_valid (by decide)) nofun
    (CStr.ofBytes_of_noNul (longPath_noNul 3))).mpr (by decide)

/-- A path of 512 bytes loses its last byte. -/
theorem long_path_truncated : (longPath 511).Valid ∧
    ¬ Recovered false (.ofBytes (longPath 511).bytes) (longPath 511) := by
  have hvalid : (longPath 511).Valid := longPath_valid (by decide)
  refine ⟨hvalid, ?_⟩
  intro h
  have hfits := Recovered.path_fits hvalid nofun (CStr.ofBytes_of_noNul (longPath_noNul 511)) h
  have hcap : URL_PATH_MAX = 512 := rfl
  have hlen : (longPath 511).path.length = 512 := by
    change (47 :: List.replicate 511 97).length = 512
    rw [List.length_cons, List.length_replicate]
  omega

end RealtimeWs.Mod
