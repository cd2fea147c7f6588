import RealtimeWs.Core.MessageRound
import RealtimeWs.Mod.HandshakeRun
import RealtimeWs.Mod.StreamIds

/-! The texts the bridge makes for its own session. They are put together without escaping,
so they say what is meant only because ids and names are made of harmless characters. -/
namespace RealtimeWs.Mod

open RealtimeWs.Core

/-! ### What is printed -/

/-- Bytes that JSON strings show as they are. -/
def Plain (b : List UInt8) : Prop := ∀ c ∈ b, 31 < c ∧ c ≠ 34 ∧ c ≠ 92

theorem Plain.escaped {b : List UInt8} (h : Plain b) : b.flatMap escapeByte = b := by
  induction b with
  | nil => rfl
  | cons c b ih =>
    obtain ⟨hc, hrest⟩ := List.forall_mem_cons.mp h
    rw [List.flatMap_cons, ih hrest, escapeByte, if_pos hc]
    rfl

theorem Plain.printed {s : CStr} (h : Plain s.bytes) :
    printStringPtr s = 34 :: s.bytes ++ [34] := by
  rw [printStringPtr, h.escaped]

theorem plain_of_toNat {c : UInt8} (h : 45 ≤ c.toNat) (hne : c.toNat ≠ 92) :
    31 < c ∧ c ≠ 34 ∧ c ≠ 92 := by
  refine ⟨?_, ?_, ?_⟩
  · rw [UInt8.lt_iff_toNat_lt]
    change 31 < c.toNat
    omega
  · rintro rfl
    revert h
    decide
  · rintro rfl
    exact hne rfl

theorem validMarkName_plain {name : CStr} (h : validMarkName name = true) : Plain name.bytes := by
  have hall : ∀ c ∈ name.bytes, (isalnum c || c == 95 || c == 45 || c == 46) = true :=
    List.all_eq_true.mp (of_decide_eq_true h).2.2
  intro c hc
  have hcases := hall c hc
  simp only [isalnum, isDigit, Bool.or_eq_true, Bool.and_eq_true, decide_eq_true_eq,
    beq_iff_eq] at hcases
  rcases hcases with ((hclass | rfl) | rfl) | rfl
  · exact plain_of_toNat (by omega) (by omega)
  · decide
  · decide
  · decide

theorem validMarkName_length {name : CStr} (h : validMarkName name = true) :
    name.bytes.length < 128 := (of_decide_eq_true h).2.1

theorem startSid_plain (uuid : Option CStr) : Plain (startSid uuid).bytes := by
  have hletters : ∀ c ∈ ascii "MZ", 31 < c ∧ c ≠ 34 ∧ c ≠ 92 := by
    have hascii : ascii "MZ" = [77, 90] := by decide
    rw [hascii]
    exact List.forall_mem_cons.mpr ⟨by decide, List.forall_mem_singleton.mpr (by decide)⟩
  intro c hc
  rw [startSid_bytes] at hc
  rcases List.mem_append.mp hc with hc | hc
  · exact hletters c hc
  · obtain ⟨i, -, hi⟩ := List.mem_map.mp hc
    have hlower := lowerHex_foldedDigits uuid i
    rw [hi, lowerHex] at hlower
    exact plain_of_toNat (by omega) (by omega)

/-! ### The texts -/

/-- What the format of `rtw_bridge_send_mark` stands for. -/
def markBytes (sid name : List UInt8) : List UInt8 :=
  ascii "\x7b\"event\":\"mark\",\"streamSid\":\"" ++ sid ++ ascii "\",\"mark\":\x7b\"name\":\"" ++
    name ++ ascii "\"\x7d\x7d"

/-- What the format of `rtw_bridge_clear` stands for. -/
def clearBytes (sid : List UInt8) : List UInt8 :=
  ascii "\x7b\"event\":\"clear\",\"streamSid\":\"" ++ sid ++ ascii "\"\x7d"

/-- A stream id leaves room for every accepted name. -/
theorem markMessage_bytes (tech : Tech) {name : CStr} (h : validMarkName name = true) :
    (markMessage tech name).bytes = markBytes tech.streamSid.bytes name.bytes := by
  have hnul : 0 ∉ markBytes tech.streamSid.bytes name.bytes := by
    simp only [markBytes, List.mem_append, not_or]
    exact ⟨⟨⟨⟨by decide, tech.streamSid.noNul⟩, by decide⟩, name.noNul⟩, by decide⟩
  have hbytes : (CStr.ofBytes (markBytes tech.streamSid.bytes name.bytes)).bytes = _ :=
    CStr.ofBytes_of_noNul hnul
  have hopen : (ascii "\x7b\"event\":\"mark\",\"streamSid\":\"").length = 29 := by decide
  have hmid : (ascii "\",\"mark\":\x7b\"name\":\"").length = 18 := by decide
  have hclose : (ascii "\"\x7d\x7d").length = 3 := by decide
  have hsid : tech.streamSid.bytes.length < 64 := tech.streamSid.fits
  have hname := validMarkName_length h
  have hfit : (CStr.ofBytes (markBytes tech.streamSid.bytes name.bytes)).bytes.length < 256 := by
    rw [hbytes, markBytes]
    simp only [List.length_append, hopen, hmid, hclose]
    omega
  exact (CBuf.copy_bytes hfit).trans hbytes

theorem clearText_bytes (tech : Tech) :
    (clearText tech).bytes = clearBytes tech.streamSid.bytes := by
  have hnul : 0 ∉ clearBytes tech.streamSid.bytes := by
    simp only [clearBytes, List.mem_append, not_or]
    exact ⟨⟨by decide, tech.streamSid.noNul⟩, by decide⟩
  have hbytes : (CStr.ofBytes (clearBytes tech.streamSid.bytes)).bytes = _ :=
    CStr.ofBytes_of_noNul hnul
  have hopen : (ascii "\x7b\"event\":\"clear\",\"streamSid\":\"").length = 30 := by decide
  have hclose : (ascii "\"\x7d").length = 2 := by decide
  have hsid : tech.streamSid.bytes.length < 64 := tech.streamSid.fits
  have hfit : (CStr.ofBytes (clearBytes tech.streamSid.bytes)).bytes.length < 128 := by
    rw [hbytes, clearBytes]
    simp only [List.length_append, hopen, hclose]
    omega
  exact (CBuf.copy_bytes hfit).trans hbytes

/-! ### Reading them back -/

/-- The trees that print as these texts. -/
def markTree (sid name : CStr) : Json := .object [
  (.lit "event", .string (.lit "mark")),
  (.lit "streamSid", .string sid),
  (.lit "mark", .object [(.lit "name", .string name)])]

def clearTree (sid : CStr) : Json := .object [
  (.lit "event", .string (.lit "clear")),
  (.lit "streamSid", .string sid)]

theorem print_markTree {sid name : CStr} (hsid : Plain sid.bytes) (hname : Plain name.bytes) :
    printValue id (markTree sid name) = markBytes sid.bytes name.bytes := by
  have hevent : printStringPtr (.lit "event") = ascii "\"event\"" := by decide
  have hmark : printStringPtr (.lit "mark") = ascii "\"mark\"" := by decide
  have hkey : printStringPtr (.lit "streamSid") = ascii "\"streamSid\"" := by decide
  have hinner : printStringPtr (.lit "name") = ascii "\"name\"" := by decide
  have hopen : ascii "\x7b\"event\":\"mark\",\"streamSid\":\"" = 123 :: ascii "\"event\"" ++ [58] ++
      ascii "\"mark\"" ++ [44] ++ ascii "\"streamSid\"" ++ [58, 34] := by decide
  have hmid : ascii "\",\"mark\":\x7b\"name\":\"" = [34, 44] ++ ascii "\"mark\"" ++ [58, 123] ++
      ascii "\"name\"" ++ [58, 34] := by decide
  have hclose : ascii "\"\x7d\x7d" = [34, 125, 125] := by decide
  simp only [markTree, printValue, printMembers, hevent, hmark, hkey, hinner, hsid.printed,
    hname.printed, markBytes, hopen, hmid, hclose]
  simp

theorem print_clearTree {sid : CStr} (hsid : Plain sid.bytes) :
    printValue id (clearTree sid) = clearBytes sid.bytes := by
  have hevent : printStringPtr (.lit "event") = ascii "\"event\"" := by decide
  have hclear : printStringPtr (.lit "clear") = ascii "\"clear\"" := by decide
  have hkey : printStringPtr (.lit "streamSid") = ascii "\"streamSid\"" := by decide
  have hopen : ascii "\x7b\"event\":\"clear\",\"streamSid\":\"" = 123 :: ascii "\"event\"" ++
      [58] ++ ascii "\"clear\"" ++ [44] ++ ascii "\"streamSid\"" ++ [58, 34] := by decide
  have hclose : ascii "\"\x7d" = [34, 125] := by decide
  simp only [clearTree, printValue, printMembers, hevent, hclear, hkey, hsid.printed,
    clearBytes, hopen, hclose]
  simp

/-- A text with the bytes of a printed tree parses to the tree. -/
theorem cJSONParse_of_bytes {text : CStr} {j : Json} (hj : j.Within CJSON_NESTING_LIMIT)
    (h : text.bytes = printValue id j) : cJSONParse text = some j := by
  have htext : text = cJSONPrintUnformatted id j := by
    rw [cJSONPrintUnformatted, ← h, CStr.ofBytes_bytes]
  rw [htext]
  exact cJSONParse_print id hj

theorem rtwParseInbound_markTree {text sid name : CStr} (payloadCap : ℕ)
    (h : cJSONParse text = some (markTree sid name)) :
    rtwParseInbound text payloadCap = some { InboundEvent.zero with
      type := .mark
      streamSid := .copy _ sid
      markName := .copy _ name } := by
  have hevent : cJSONGetObjectItemCaseSensitive (markTree sid name) (.lit "event") =
      some (.string (.lit "mark")) := getObjectItem_self _ _ _
  have hsid : cJSONGetObjectItemCaseSensitive (markTree sid name) (.lit "streamSid") =
      some (.string sid) := by
    rw [markTree, getObjectItem_skip (by decide), getObjectItem_self]
  have hseq : cJSONGetObjectItemCaseSensitive (markTree sid name) (.lit "sequenceNumber") =
      none := by
    rw [markTree, getObjectItem_skip (by decide), getObjectItem_skip (by decide),
      getObjectItem_skip (by decide)]
    rfl
  have hmark : cJSONGetObjectItemCaseSensitive (markTree sid name) (.lit "mark") =
      some (.object [(.lit "name", .string name)]) := by
    rw [markTree, getObjectItem_skip (by decide), getObjectItem_skip (by decide),
      getObjectItem_self]
  have htype : mapEvent (.lit "mark") = .mark := by decide
  rw [rtwParseInbound, h]
  simp only [hevent, hsid, hseq, hmark, Json.valuestring?, copyStr, sequenceNumberOf, nestedStr,
    getObjectItem_self, htype]
  rfl

theorem rtwParseInbound_clearTree {text sid : CStr} (payloadCap : ℕ)
    (h : cJSONParse text = some (clearTree sid)) :
    rtwParseInbound text payloadCap = some { InboundEvent.zero with
      type := .clear
      streamSid := .copy _ sid } := by
  have hevent : cJSONGetObjectItemCaseSensitive (clearTree sid) (.lit "event") =
      some (.string (.lit "clear")) := getObjectItem_self _ _ _
  have hsid : cJSONGetObjectItemCaseSensitive (clearTree sid) (.lit "streamSid") =
      some (.string sid) := by
    rw [clearTree, getObjectItem_skip (by decide), getObjectItem_self]
  have hseq : cJSONGetObjectItemCaseSensitive (clearTree sid) (.lit "sequenceNumber") =
      none := by
    rw [clearTree, getObjectItem_skip (by decide), getObjectItem_skip (by decide)]
    rfl
  have htype : mapEvent (.lit "clear") = .clear := by decide
  rw [rtwParseInbound, h]
  simp only [hevent, hsid, hseq, Json.valuestring?, copyStr, sequenceNumberOf, htype]
  rfl

/-- The text of a mark names the mark and the session's stream. -/
theorem rtwParseInbound_markMessage {uuid : Option CStr} {tech : Tech}
    (hnamed : Named (startSid uuid) tech) {name : CStr} (h : validMarkName name = true)
    (payloadCap : ℕ) :
    rtwParseInbound (markMessage tech name) payloadCap = some { InboundEvent.zero with
      type := .mark
      streamSid := tech.session.streamSid
      markName := .copy _ name } := by
  have hwithin : (markTree tech.streamSid.toCStr name).Within CJSON_NESTING_LIMIT := by
    apply Json.Within.object (n := 999)
    simp only [List.forall_mem_cons]
    refine ⟨.string _ _, .string _ _, .object (n := 998) ?_, by simp⟩
    simp only [List.forall_mem_cons]
    exact ⟨.string _ _, by simp⟩
  have hplain : Plain tech.streamSid.bytes := by
    rw [hnamed.own]
    exact startSid_plain uuid
  have hbytes := print_markTree hplain (validMarkName_plain h)
  have hparse : cJSONParse (markMessage tech name) = some (markTree tech.streamSid.toCStr name) :=
    cJSONParse_of_bytes hwithin ((markMessage_bytes tech h).trans hbytes.symm)
  rw [rtwParseInbound_markTree payloadCap hparse, CBuf.copy_toCStr, hnamed.own, hnamed.session]

theorem rtwParseInbound_clearText {uuid : Option CStr} {tech : Tech}
    (hnamed : Named (startSid uuid) tech) (payloadCap : ℕ) :
    rtwParseInbound (clearText tech) payloadCap = some { InboundEvent.zero with
      type := .clear
      streamSid := tech.session.streamSid } := by
  have hwithin : (clearTree tech.streamSid.toCStr).Within CJSON_NESTING_LIMIT := by
    apply Json.Within.object (n := 999)
    simp only [List.forall_mem_cons]
    exact ⟨.string _ _, .string _ _, by simp⟩
  have hplain : Plain tech.streamSid.bytes := by
    rw [hnamed.own]
    exact startSid_plain uuid
  have hparse : cJSONParse (clearText tech) = some (clearTree tech.streamSid.toCStr) :=
    cJSONParse_of_bytes hwithin ((clearText_bytes tech).trans (print_clearTree hplain).symm)
  rw [rtwParseInbound_clearTree payloadCap hparse, CBuf.copy_toCStr, hnamed.own, hnamed.session]

/-- In every state a bridge reaches, the texts it makes for marks and clears are whole and
parse to what they are meant to say, for the session's own stream, whose id is `MZ` and 32
hexadecimal digits that come from the first digits of the uuid. -/
theorem local_texts_parse_back {printNumber : List UInt8 → List UInt8} {io : StartIo}
    {uuid metadata : Option CStr} {sampling channels : ℤ} {tech₀ : Tech}
    (h : rtwBridgeStart printNumber io uuid sampling channels metadata = some tech₀)
    (es : List WorldEvent) (payloadCap : ℕ) :
    let tech := (world.run ⟨tech₀, .loop⟩ es).tech
    (∀ name, validMarkName name = true →
      (markMessage tech name).bytes = markBytes tech.streamSid.bytes name.bytes ∧
        ∃ ev, rtwParseInbound (markMessage tech name) payloadCap = some ev ∧
          ev.type = .mark ∧ ev.markName.toCStr = name ∧ ev.streamSid = tech.session.streamSid) ∧
      ((clearText tech).bytes = clearBytes tech.streamSid.bytes ∧
        ∃ ev, rtwParseInbound (clearText tech) payloadCap = some ev ∧
          ev.type = .clear ∧ ev.streamSid = tech.session.streamSid) ∧
      (∃ digits, tech.session.streamSid.bytes = ascii "MZ" ++ digits ∧ digits.length = 32 ∧
        ∀ c ∈ digits, lowerHex c) ∧
      ∀ printNumber' io' uuid' sampling' channels' metadata' tech',
        rtwBridgeStart printNumber' io' uuid' sampling' channels' metadata' = some tech' →
          (tech'.session.streamSid = tech.session.streamSid ↔
            ∀ i < 32, (foldedDigits uuid').getD i 48 = (foldedDigits uuid).getD i 48) := by
  intro tech
  have hnamed : Named (startSid uuid) tech := (rtwBridgeStart_named h).run es (w := ⟨tech₀, .loop⟩)
  refine ⟨fun name hname => ⟨markMessage_bytes tech hname, _,
    rtwParseInbound_markMessage hnamed hname payloadCap, rfl, ?_, rfl⟩,
    ⟨clearText_bytes tech, _, rtwParseInbound_clearText hnamed payloadCap, rfl, rfl⟩, ?_, ?_⟩
  · exact copy_toCStr_of_length (validMarkName_length hname)
  · refine ⟨(List.range 32).map fun i => (foldedDigits uuid).getD i 48, ?_, ?_, ?_⟩
    · rw [hnamed.session]
      exact startSid_bytes uuid
    · rw [List.length_map, List.length_range]
    · intro c hc
      obtain ⟨i, -, rfl⟩ := List.mem_map.mp hc
      exact lowerHex_foldedDigits uuid i
  · intro _ _ uuid' _ _ _ tech' h'
    rw [hnamed.session, (rtwBridgeStart_named h').session]
    exact startSid_eq_iff uuid' uuid

/-- A mark set while the connection is being made anew. -/
theorem local_texts_parse_back_quiet :
    let tech := (world.run ⟨demoTech, .loop⟩ quietRun).tech
    validMarkName (.lit "m") = true ∧
      ∃ ev, rtwParseInbound (markMessage tech (.lit "m")) PAYLOAD_CAP = some ev ∧
        ev.markName.toCStr = .lit "m" := by
  have hvalid : validMarkName (.lit "m") = true := by decide
  obtain ⟨hmark, -⟩ := local_texts_parse_back demoTech_starts quietRun PAYLOAD_CAP
  obtain ⟨-, ev, hev, -, hname, -⟩ := hmark (.lit "m") hvalid
  exact ⟨hvalid, ev, hev, hname⟩

end RealtimeWs.Mod
