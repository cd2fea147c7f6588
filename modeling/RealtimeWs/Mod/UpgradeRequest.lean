import RealtimeWs.Lib.Lines
import RealtimeWs.Mod.SplitMetadata

/-! The upgrade request with the header block of the start metadata in it, line by line. -/
namespace RealtimeWs.Mod

open RealtimeWs.Core

/-- `%d`. -/
def signedDecimal (n : ℤ) : List UInt8 :=
  (if n < 0 then [45] else []) ++ if n = 0 then [48] else
    (Nat.digits 10 n.natAbs).reverse.map fun d => UInt8.ofNat (48 + d)

/-- Text of the `Host` header; an IPv6 literal is put in brackets. -/
def hostHdr (useTls : Bool) (host : CStr) (port : ℤ) : List UInt8 :=
  snprintf 300 (
    if 58 ∈ host.bytes then ascii "[" ++ host.bytes ++ ascii "]:" ++ signedDecimal port
    else if (useTls ∧ port = 443) ∨ (¬ useTls ∧ port = 80) then host.bytes
    else host.bytes ++ ascii ":" ++ signedDecimal port)

/-- The request `http_handshake` sends. -/
def httpRequest (useTls : Bool) (extraHeaders : Option CStr) (host : CStr) (port : ℤ)
    (path : CStr) : List UInt8 :=
  let extra := (extraHeaders.map CStr.bytes).getD []
  let hostHdr := hostHdr useTls host port
  let need := path.bytes.length + hostHdr.length + extra.length + 256
  snprintf need (ascii "GET " ++ path.bytes ++ ascii " HTTP/1.1\r\n" ++
    ascii "Host: " ++ hostHdr ++ ascii "\r\n" ++
    ascii "Upgrade: websocket\r\n" ++
    ascii "Connection: Upgrade\r\n" ++
    ascii "Sec-WebSocket-Key: dGhlIHNhbXBsZSBub25jZQ==\r\n" ++
    ascii "Sec-WebSocket-Version: 13\r\n" ++
    extra ++
    ascii "\r\n")

/-! ### The request as lines -/

def crlfLines (text : List UInt8) : List (List UInt8) := Lines.split 13 10 text

def requestLine (path : CStr) : List UInt8 := ascii "GET " ++ path.bytes ++ ascii " HTTP/1.1"

def hostLine (hostHdr : List UInt8) : List UInt8 := ascii "Host: " ++ hostHdr

/-- The lines of every request. -/
def fixedLines : List (List UInt8) := [ascii "Upgrade: websocket", ascii "Connection: Upgrade",
  ascii "Sec-WebSocket-Key: dGhlIHNhbXBsZSBub25jZQ==", ascii "Sec-WebSocket-Version: 13"]

/-- The buffer holds the whole request. -/
theorem httpRequest_eq (useTls : Bool) (extraHeaders : Option CStr) (host : CStr) (port : ℤ)
    (path : CStr) : httpRequest useTls extraHeaders host port path =
      (requestLine path :: hostLine (hostHdr useTls host port) :: fixedLines).flatMap (· ++ crlf) ++
        (extraHeaders.map CStr.bytes).getD [] ++ crlf := by
  have hlit : ascii " HTTP/1.1\r\n" = ascii " HTTP/1.1" ++ crlf ∧ ascii "\r\n" = crlf ∧
      ascii "Upgrade: websocket\r\n" = ascii "Upgrade: websocket" ++ crlf ∧
      ascii "Connection: Upgrade\r\n" = ascii "Connection: Upgrade" ++ crlf ∧
      ascii "Sec-WebSocket-Key: dGhlIHNhbXBsZSBub25jZQ==\r\n" =
        ascii "Sec-WebSocket-Key: dGhlIHNhbXBsZSBub25jZQ==" ++ crlf ∧
      ascii "Sec-WebSocket-Version: 13\r\n" = ascii "Sec-WebSocket-Version: 13" ++ crlf := by
    decide +kernel
  have hlen : (ascii "GET ").length = 4 ∧ (ascii " HTTP/1.1\r\n").length = 11 ∧
      (ascii "Host: ").length = 6 ∧ (ascii "\r\n").length = 2 ∧
      (ascii "Upgrade: websocket\r\n").length = 20 ∧
      (ascii "Connection: Upgrade\r\n").length = 21 ∧
      (ascii "Sec-WebSocket-Key: dGhlIHNhbXBsZSBub25jZQ==\r\n").length = 45 ∧
      (ascii "Sec-WebSocket-Version: 13\r\n").length = 27 := by decide +kernel
  obtain ⟨hget, hversion, hhost, hend, hupgrade, hconnection, hkey, hws⟩ := hlen
  refine (List.take_of_length_le ?_).trans ?_
  · simp only [List.length_append, hget, hversion, hhost, hend, hupgrade, hconnection, hkey, hws]
    omega
  · obtain ⟨hversion, hend, hupgrade, hconnection, hkey, hws⟩ := hlit
    rw [hversion, hend, hupgrade, hconnection, hkey, hws]
    simp only [requestLine, hostLine, fixedLines, List.flatMap_cons, List.flatMap_nil,
      List.append_assoc, List.nil_append]

/-- A request with these lines of its own, split. -/
theorem crlfLines_httpRequest (useTls : Bool) {extraHeaders : Option CStr} (host : CStr)
    (port : ℤ) (path : CStr) {ls : List (List UInt8)}
    (hextra : (extraHeaders.map CStr.bytes).getD [] = ls.flatMap (· ++ crlf)) :
    crlfLines (httpRequest useTls extraHeaders host port path) =
      crlfLines (requestLine path) ++ crlfLines (hostLine (hostHdr useTls host port)) ++
        fixedLines ++ ls.flatMap crlfLines ++ [[], []] := by
  have hall : httpRequest useTls extraHeaders host port path =
      ([requestLine path, hostLine (hostHdr useTls host port)] ++ fixedLines ++ ls ++ [[]]).flatMap
        (· ++ crlf) := by
    rw [httpRequest_eq, hextra]
    simp only [List.flatMap_append, List.cons_append, List.nil_append, List.flatMap_cons,
      List.flatMap_nil, List.append_assoc, List.append_nil]
  have hfixed : fixedLines.flatMap crlfLines = fixedLines := by decide +kernel
  rw [hall, crlfLines, crlf, Lines.split_lines (by decide)]
  simp only [List.flatMap_append]
  change (crlfLines (requestLine path) ++ (crlfLines (hostLine (hostHdr useTls host port)) ++ [])) ++
    fixedLines.flatMap crlfLines ++ ls.flatMap crlfLines ++ [[]] ++ [[]] = _
  rw [hfixed, List.append_nil]
  simp only [List.append_assoc]
  rfl

/-! ### Line breaks in names, values, path and host -/

theorem crlf_infix_headerText (key val : List UInt8) :
    crlf <:+: key ++ ascii ": " ++ val ↔ crlf <:+: key ∨ crlf <:+: val := by
  have hsplit : key ++ ascii ": " ++ val = key ++ 58 :: ([] ++ 32 :: val) := by
    rw [List.append_assoc]
    rfl
  rw [hsplit, Lines.infix_append_cons_iff (by decide) (by decide),
    Lines.infix_append_cons_iff (by decide) (by decide)]
  have hnil : ¬ crlf <:+: ([] : List UInt8) := by decide
  rw [or_iff_right hnil]

theorem crlf_infix_authorization (v : List UInt8) :
    crlf <:+: ascii "Authorization: " ++ v ↔ crlf <:+: v := by
  have hsplit : ascii "Authorization: " ++ v = ascii "Authorization:" ++ 32 :: v := by
    have hlit : ascii "Authorization: " = ascii "Authorization:" ++ [32] := by decide
    rw [hlit, List.append_assoc, List.singleton_append]
  have hname : ¬ crlf <:+: ascii "Authorization:" := by decide
  rw [hsplit, Lines.infix_append_cons_iff (by decide) (by decide)]
  exact or_iff_right hname

/-- The request line stays one line, or breaks into lines that are not empty. -/
theorem nil_mem_requestLine (path : CStr) :
    [] ∈ crlfLines (requestLine path) ↔ crlf ++ crlf <:+: path.bytes := by
  have hsplit : crlf ++ requestLine path ++ crlf =
      ascii "\r\nGET" ++ 32 :: (path.bytes ++ 32 :: ascii "HTTP/1.1\r\n") := by
    have hget : crlf ++ ascii "GET " = ascii "\r\nGET" ++ [32] := by decide
    have hversion : ascii " HTTP/1.1" ++ crlf = [32] ++ ascii "HTTP/1.1\r\n" := by decide
    rw [requestLine, ← List.append_assoc, ← List.append_assoc, hget]
    simp only [List.append_assoc, hversion]
    rfl
  have hfirst : ¬ crlf ++ crlf <:+: ascii "\r\nGET" := by decide
  have hlast : ¬ crlf ++ crlf <:+: ascii "HTTP/1.1\r\n" := by decide
  rw [crlfLines, Lines.nil_mem_split_iff (by decide)]
  change crlf ++ crlf <:+: crlf ++ requestLine path ++ crlf ↔ _
  rw [hsplit, Lines.infix_append_cons_iff (by decide) (by decide),
    Lines.infix_append_cons_iff (by decide) (by decide), or_iff_right hfirst]
  exact or_iff_left hlast

theorem nil_mem_hostLine (hostHdr : List UInt8) :
    [] ∈ crlfLines (hostLine hostHdr) ↔ crlf ++ crlf <:+: hostHdr ++ crlf := by
  have hsplit : crlf ++ hostLine hostHdr ++ crlf = ascii "\r\nHost:" ++ 32 :: (hostHdr ++ crlf) := by
    have hname : crlf ++ ascii "Host: " = ascii "\r\nHost:" ++ [32] := by decide
    rw [hostLine, ← List.append_assoc, hname]
    simp only [List.append_assoc]
    rfl
  have hfirst : ¬ crlf ++ crlf <:+: ascii "\r\nHost:" := by decide
  rw [crlfLines, Lines.nil_mem_split_iff (by decide)]
  change crlf ++ crlf <:+: crlf ++ hostLine hostHdr ++ crlf ↔ _
  rw [hsplit, Lines.infix_append_cons_iff (by decide) (by decide)]
  exact or_iff_right hfirst

/-- No line break in the authorization or in a name or string value of `ws_headers`. -/
def Unbroken (members : List (CStr × Json)) : Prop :=
  (∀ v, authValue members = some v → ¬ crlf <:+: v.bytes) ∧
    ∀ m ∈ (wsHeaders members).getD [], ∀ val, m.2 = .string val →
      ¬ crlf <:+: m.1.bytes ∧ ¬ crlf <:+: val.bytes

theorem headerText_eq_some {m : CStr × Json} {line : List UInt8} :
    headerText m = some line ↔
      ∃ val, m.2 = .string val ∧ line = m.1.bytes ++ ascii ": " ++ val.bytes := by
  obtain ⟨key, item⟩ := m
  cases item with
  | string val =>
    constructor
    · intro h
      cases h
      exact ⟨val, rfl, rfl⟩
    · rintro ⟨_, hval, rfl⟩
      cases hval
      rfl
  | _ =>
    constructor
    · intro h
      cases h
    · rintro ⟨_, hval, -⟩
      cases hval

theorem unbroken_iff (members : List (CStr × Json)) :
    Unbroken members ↔ ∀ line ∈ handshakeLines members, ¬ crlf <:+: line := by
  rw [handshakeLines, List.forall_mem_append, Unbroken]
  refine and_congr ?_ ?_
  · constructor
    · intro h line hline
      obtain ⟨v, hv, rfl⟩ := Option.map_eq_some_iff.mp (Option.mem_toList.mp hline)
      rw [crlf_infix_authorization]
      exact h v hv
    · intro h v hv
      rw [← crlf_infix_authorization]
      apply h
      rw [hv]
      exact List.mem_singleton_self _
  · constructor
    · intro h line hline
      obtain ⟨m, hm, hitem⟩ := List.mem_filterMap.mp hline
      obtain ⟨val, hval, rfl⟩ := headerText_eq_some.mp hitem
      rw [crlf_infix_headerText, not_or]
      exact h m hm val hval
    · intro h m hm val hval
      rw [← not_or, ← crlf_infix_headerText]
      exact h _ (List.mem_filterMap.mpr ⟨m, hm, headerText_eq_some.mpr ⟨val, hval, rfl⟩⟩)

theorem handshakeLines_ne_nil (members : List (CStr × Json)) :
    ∀ line ∈ handshakeLines members, line ≠ [] := by
  rw [handshakeLines, List.forall_mem_append]
  constructor
  · intro line hline
    obtain ⟨v, -, rfl⟩ := Option.map_eq_some_iff.mp (Option.mem_toList.mp hline)
    exact List.cons_ne_nil _ _
  · intro line hline
    obtain ⟨m, -, hitem⟩ := List.mem_filterMap.mp hline
    obtain ⟨val, -, rfl⟩ := headerText_eq_some.mp hitem
    rw [List.append_assoc]
    exact List.append_ne_nil_of_right_ne_nil _ (List.cons_ne_nil _ _)

/-- The block built from the metadata is its lines, and the upgrade request has them as its
last lines before its only empty one, exactly when no line break comes in through the
credentials and no empty line through the path or the host. -/
theorem upgrade_headers_iff {io : SplitAllocs} {metadata : CStr}
    {members : List (CStr × Json)} (hparse : cJSONParse metadata = some (.object members))
    (hrc : (splitMetadataAlloc io (some metadata)).rc = 0)
    (useTls : Bool) (host : CStr) (port : ℤ) (path : CStr) :
    let extra := (splitMetadataAlloc io (some metadata)).extraHeaders
    (crlfLines ((extra.map CStr.bytes).getD []) = handshakeLines members ++ [[]] ∧
      ∃ before, crlfLines (httpRequest useTls extra host port path) =
          before ++ handshakeLines members ++ [[], []] ∧
        ∀ line ∈ before ++ handshakeLines members, line ≠ []) ↔
    Unbroken members ∧ ¬ crlf ++ crlf <:+: path.bytes ∧
      ¬ crlf ++ crlf <:+: hostHdr useTls host port ++ crlf := by
  intro extra
  have hblock : (extra.map CStr.bytes).getD [] = (handshakeLines members).flatMap (· ++ crlf) :=
    (splitMetadataAlloc_spec hparse hrc).2
  have hlines : crlfLines ((extra.map CStr.bytes).getD []) = handshakeLines members ++ [[]] ↔
      Unbroken members := by
    rw [hblock, unbroken_iff]
    exact Lines.split_lines_iff (by decide) _
  rw [hlines, crlfLines_httpRequest useTls host port path hblock, ← nil_mem_requestLine,
    ← nil_mem_hostLine]
  refine and_congr_right fun hunbroken => ?_
  have hsplit : (handshakeLines members).flatMap crlfLines = handshakeLines members :=
    (Lines.flatMap_split_eq_iff (by decide) _).mpr ((unbroken_iff members).mp hunbroken)
  have hfixed : ∀ line ∈ fixedLines, line ≠ [] := by decide
  rw [hsplit]
  constructor
  · rintro ⟨before, hbefore, hne⟩
    rw [List.append_left_inj, List.append_left_inj] at hbefore
    rw [← hbefore] at hne
    constructor
    · exact fun hnil => hne [] (by simp [hnil]) rfl
    · exact fun hnil => hne [] (by simp [hnil]) rfl
  · rintro ⟨hpath, hhost⟩
    refine ⟨_, rfl, ?_⟩
    rw [List.forall_mem_append, List.forall_mem_append, List.forall_mem_append]
    refine ⟨⟨⟨?_, ?_⟩, hfixed⟩, handshakeLines_ne_nil members⟩
    · exact fun line hline heq => hpath (heq ▸ hline)
    · exact fun line hline heq => hhost (heq ▸ hline)

theorem upgrade_headers_token :
    let members := [(CStr.lit "authorization", Json.string (.lit "Bearer t")),
      (.lit "ws_headers", .object [(.lit "X-Api-Key", .string (.lit "k"))])]
    let extra := (splitMetadataAlloc .plenty
      (some (cJSONPrintUnformatted id (.object members)))).extraHeaders
    crlfLines ((extra.map CStr.bytes).getD []) = handshakeLines members ++ [[]] ∧
      ∃ before, crlfLines (httpRequest true extra (.lit "h") 443 (.lit "/")) =
          before ++ handshakeLines members ++ [[], []] ∧
        ∀ line ∈ before ++ handshakeLines members, line ≠ [] := by
  intro members
  have hparse : cJSONParse (cJSONPrintUnformatted id (.object members)) =
      some (.object members) := by decide +kernel
  refine (upgrade_headers_iff hparse (by decide +kernel) true (.lit "h") 443 (.lit "/")).mpr
    ⟨?_, by decide +kernel, by decide +kernel⟩
  rw [unbroken_iff]
  decide +kernel

/-- A header value with an escaped line break adds a line of its own to the request, and
with two of them the request ends before its last lines. -/
theorem header_injected :
    let members := [(CStr.lit "ws_headers",
      Json.object [(.lit "X-Api-Key", .string (.lit "k\r\n\r\nGET / HTTP/1.1"))])]
    let metadata := cJSONPrintUnformatted id (.object members)
    let extra := (splitMetadataAlloc .plenty (some metadata)).extraHeaders
    cJSONParse metadata = some (.object members) ∧
      (splitMetadataAlloc .plenty (some metadata)).rc = 0 ∧
      crlfLines ((extra.map CStr.bytes).getD []) ≠ handshakeLines members ++ [[]] ∧
      ((crlfLines (httpRequest false extra (.lit "h") 80 (.lit "/"))).filter (· = [])).length = 3 := by
  decide +kernel

end RealtimeWs.Mod
