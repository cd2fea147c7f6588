import RealtimeWs.Core.CJsonRound
import RealtimeWs.Core.Outbound

/-! The parser reads back what the builders write. -/
namespace RealtimeWs.Core

/-! ### Decimal numbers -/

/-- The digits `%u` prints, most significant first. -/
def decimalDigits (n : UInt32) : List ℕ := if n = 0 then [0] else (Nat.digits 10 n.toNat).reverse

theorem decimalDigits_lt (n : UInt32) : ∀ d ∈ decimalDigits n, d < 10 := by
  intro d hd
  unfold decimalDigits at hd
  split at hd
  · rw [List.mem_singleton.mp hd]
    decide
  · exact Nat.digits_lt_base (by decide) (List.mem_reverse.mp hd)

theorem decimalDigits_value (n : UInt32) :
    (decimalDigits n).foldl (fun v d => 10 * v + d) 0 = n.toNat := by
  unfold decimalDigits
  split
  · rename_i hn
    rw [hn]
    rfl
  · rw [List.foldl_reverse]
    conv_rhs => rw [← Nat.ofDigits_digits 10 n.toNat, Nat.ofDigits_eq_foldr]
    congr 1
    funext d v
    exact Nat.add_comm _ _

/-- The character of a digit. -/
def digitChar (d : ℕ) : UInt8 := UInt8.ofNat (48 + d)

theorem digitChar_plain : ∀ d < 10, digitChar d ≠ 0 ∧ isspace (digitChar d) = false ∧
    digitChar d ≠ 43 ∧ digitChar d ≠ 45 ∧ isDigit (digitChar d) = true ∧
    (digitChar d).toNat - 48 = d := by decide

theorem decimal_bytes (n : UInt32) : (decimal n).bytes = (decimalDigits n).map digitChar := by
  have hbytes : (if n = 0 then [48] else
      (Nat.digits 10 n.toNat).reverse.map fun d => UInt8.ofNat (48 + d)) =
        (decimalDigits n).map digitChar := by
    unfold decimalDigits
    split <;> rfl
  rw [decimal, hbytes]
  apply CStr.ofBytes_of_noNul
  intro h0
  obtain ⟨d, hd, hzero⟩ := List.mem_map.mp h0
  exact (digitChar_plain d (decimalDigits_lt n d hd)).1 hzero

theorem decimal_digit {n : UInt32} {c : UInt8} (hc : c ∈ (decimal n).bytes) :
    ∃ d < 10, c = digitChar d := by
  rw [decimal_bytes] at hc
  obtain ⟨d, hd, rfl⟩ := List.mem_map.mp hc
  exact ⟨d, decimalDigits_lt n d hd, rfl⟩

theorem decimal_isDigit (n : UInt32) : ∀ c ∈ (decimal n).bytes, isDigit c = true := by
  intro c hc
  obtain ⟨d, hd, rfl⟩ := decimal_digit hc
  obtain ⟨-, -, -, -, hisdigit, -⟩ := digitChar_plain d hd
  exact hisdigit

theorem decimal_value (n : UInt32) :
    (decimal n).bytes.foldl (fun v c => 10 * v + (c.toNat - 48)) 0 = n.toNat := by
  have hdigits : (decimal n).bytes.map (fun c => c.toNat - 48) = decimalDigits n := by
    rw [decimal_bytes, List.map_map]
    refine (List.map_congr_left fun d hd => ?_).trans (List.map_id _)
    obtain ⟨-, -, -, -, -, hvalue⟩ := digitChar_plain d (decimalDigits_lt n d hd)
    exact hvalue
  rw [← decimalDigits_value n, ← hdigits, List.foldl_map]

/-- Reading a printed number gives the number. -/
theorem strtoul10_decimal (n : UInt32) : strtoul10 (decimal n) = n := by
  have hspace : (decimal n).bytes.dropWhile isspace = (decimal n).bytes := by
    refine List.dropWhile_eq_self_iff.mpr fun hlen => ?_
    obtain ⟨d, hd, hc⟩ := decimal_digit (List.getElem_mem hlen)
    rw [hc, (digitChar_plain d hd).2.1]
    decide
  have hsign : ((decimal n).bytes.take 1 |>.filter fun c => c = 43 ∨ c = 45) = [] := by
    refine List.filter_eq_nil_iff.mpr fun c hc => ?_
    obtain ⟨d, hd, rfl⟩ := decimal_digit (List.mem_of_mem_take hc)
    obtain ⟨-, -, hplus, hminus, -⟩ := digitChar_plain d hd
    simp [hplus, hminus]
  have htake : (decimal n).bytes.takeWhile isDigit = (decimal n).bytes :=
    List.takeWhile_eq_self_iff.mpr (decimal_isDigit n)
  have hlt : ¬ 2 ^ 64 ≤ n.toNat := by
    have := n.toNat_lt
    omega
  rw [strtoul10]
  simp only [hspace, hsign, List.length_nil, List.drop_zero, htake, decimal_value]
  rw [if_neg hlt, if_neg (by simp)]
  exact UInt32.ofNat_toNat

/-! ### Objects -/

theorem getObjectItem_cons (key : CStr) (x : Json) (members : List (CStr × Json)) (name : CStr) :
    cJSONGetObjectItemCaseSensitive (.object ((key, x) :: members)) name =
      if key = name then some x else cJSONGetObjectItemCaseSensitive (.object members) name := by
  by_cases h : key = name
  · simp [cJSONGetObjectItemCaseSensitive, h]
  · simp [cJSONGetObjectItemCaseSensitive, h]

@[simp] theorem getObjectItem_self (key : CStr) (x : Json) (members : List (CStr × Json)) :
    cJSONGetObjectItemCaseSensitive (.object ((key, x) :: members)) key = some x := by
  rw [getObjectItem_cons, if_pos rfl]

theorem getObjectItem_skip {a b : String} (h : CStr.lit a ≠ CStr.lit b) (x : Json)
    (members : List (CStr × Json)) :
    cJSONGetObjectItemCaseSensitive (.object ((.lit a, x) :: members)) (.lit b) =
      cJSONGetObjectItemCaseSensitive (.object members) (.lit b) := by
  rw [getObjectItem_cons, if_neg h]

/-- The tree of every message that carries a number: three strings and its own part. -/
def envelope (event : String) (seq : UInt32) (streamSid : CStr) (part : Json) : Json := .object [
  (.lit "event", .string (.lit event)),
  (.lit "sequenceNumber", .string (decimal seq)),
  (.lit "streamSid", .string streamSid),
  (.lit event, part)]

/-- The event of such a tree before its part is read. -/
def envelopeEvent (event : String) (seq : UInt32) (streamSid : CStr) : InboundEvent :=
  { InboundEvent.zero with
    type := mapEvent (.lit event)
    streamSid := .copy _ streamSid
    sequenceNumber := seq }

section

variable {event : String} {seq : UInt32} {streamSid : CStr} {part : Json} {json : CStr}
  {payloadCap : ℕ}

theorem envelope_streamSid : cJSONGetObjectItemCaseSensitive (envelope event seq streamSid part)
    (.lit "streamSid") = some (.string streamSid) := by
  rw [envelope, getObjectItem_skip (by decide), getObjectItem_skip (by decide),
    getObjectItem_self]

theorem envelope_sequenceNumber :
    cJSONGetObjectItemCaseSensitive (envelope event seq streamSid part) (.lit "sequenceNumber") =
      some (.string (decimal seq)) := by
  rw [envelope, getObjectItem_skip (by decide), getObjectItem_self]

theorem envelope_part (h : event ∈ ["start", "media", "mark", "stop"]) :
    cJSONGetObjectItemCaseSensitive (envelope event seq streamSid part) (.lit event) =
      some part := by
  have hkeys : ∀ event ∈ ["start", "media", "mark", "stop"], CStr.lit "event" ≠ .lit event ∧
      CStr.lit "sequenceNumber" ≠ .lit event ∧ CStr.lit "streamSid" ≠ .lit event := by
    decide
  obtain ⟨hevent, hnumber, hsid⟩ := hkeys event h
  rw [envelope, getObjectItem_skip hevent, getObjectItem_skip hnumber, getObjectItem_skip hsid,
    getObjectItem_self]

/-- The parser reads the three strings, then the part its type asks for. -/
theorem rtwParseInbound_envelope
    (hparse : cJSONParse json = some (envelope event seq streamSid part)) :
    rtwParseInbound json payloadCap =
      match (envelopeEvent event seq streamSid).type with
      | .media => parseMedia (envelopeEvent event seq streamSid)
          (cJSONGetObjectItemCaseSensitive (envelope event seq streamSid part) (.lit "media"))
          payloadCap
      | .mark => some { envelopeEvent event seq streamSid with
          markName := nestedStr RTW_MARK_NAME_MAX (envelope event seq streamSid part)
            (.lit "mark") (.lit "name") }
      | .dtmf => some { envelopeEvent event seq streamSid with
          digit := nestedStr 8 (envelope event seq streamSid part) (.lit "dtmf") (.lit "digit") }
      | _ => some (envelopeEvent event seq streamSid) := by
  have hevent : cJSONGetObjectItemCaseSensitive (envelope event seq streamSid part)
      (.lit "event") = some (.string (.lit event)) := getObjectItem_self _ _ _
  rw [rtwParseInbound, hparse]
  simp only [hevent, envelope_streamSid, envelope_sequenceNumber, Json.valuestring?, copyStr,
    sequenceNumberOf, strtoul10_decimal]
  rfl

theorem envelope_within (h : part.Within 999) :
    (envelope event seq streamSid part).Within CJSON_NESTING_LIMIT := by
  apply Json.Within.object (n := 999)
  simp only [List.forall_mem_cons]
  exact ⟨.string _ _, .string _ _, .string _ _, h, by simp⟩

end

/-! ### Messages -/

section

variable (track payload : CStr) (chunk timestampMs : UInt32)

/-- The members of the `media` object. -/
def mediaMembers : List (CStr × Json) := [
  (.lit "track", .string track),
  (.lit "chunk", .string (decimal chunk)),
  (.lit "timestamp", .string (decimal timestampMs)),
  (.lit "payload", .string payload)]

theorem mediaMembers_lookup :
    cJSONGetObjectItemCaseSensitive (.object (mediaMembers track payload chunk timestampMs))
        (.lit "track") = some (.string track) ∧
      cJSONGetObjectItemCaseSensitive (.object (mediaMembers track payload chunk timestampMs))
        (.lit "chunk") = some (.string (decimal chunk)) ∧
      cJSONGetObjectItemCaseSensitive (.object (mediaMembers track payload chunk timestampMs))
        (.lit "timestamp") = some (.string (decimal timestampMs)) ∧
      cJSONGetObjectItemCaseSensitive (.object (mediaMembers track payload chunk timestampMs))
        (.lit "payload") = some (.string payload) := by
  rw [mediaMembers]
  refine ⟨getObjectItem_self _ _ _, ?_, ?_, ?_⟩
  · rw [getObjectItem_skip (by decide), getObjectItem_self]
  · rw [getObjectItem_skip (by decide), getObjectItem_skip (by decide),
      getObjectItem_self]
  · rw [getObjectItem_skip (by decide), getObjectItem_skip (by decide),
      getObjectItem_skip (by decide), getObjectItem_self]

end

section

variable (printNumber : List UInt8 → List UInt8) (streamSid : CStr) (seq : UInt32)

theorem rtwParseInbound_media (track : CStr) (chunk timestampMs : UInt32) {mulaw : List UInt8}
    {payloadCap : ℕ} (h : mulaw.length ≤ payloadCap) :
    rtwParseInbound ((OutMsg.media streamSid track chunk timestampMs seq mulaw).text printNumber)
      payloadCap = some { envelopeEvent "media" seq streamSid with
        track := .copy 32 track
        chunk := chunk
        timestampMs := timestampMs
        payload := mulaw } := by
  have hpayload : (CStr.ofBytes (rtwBase64Encode mulaw (rtwBase64EncodedLen mulaw.length))).bytes =
      rtwBase64Encode mulaw (rtwBase64EncodedLen mulaw.length) := by
    apply CStr.ofBytes_of_noNul
    rw [rtwBase64Encode, if_neg (lt_irrefl _)]
    exact zero_notMem_encodeLoop mulaw
  have hwithin : (OutMsg.media streamSid track chunk timestampMs seq mulaw).root.Within
      CJSON_NESTING_LIMIT := by
    apply envelope_within
    apply Json.Within.object (n := 998)
    simp only [List.forall_mem_cons]
    exact ⟨.string _ _, .string _ _, .string _ _, .string _ _, by simp⟩
  have hparse : cJSONParse ((OutMsg.media streamSid track chunk timestampMs seq mulaw).text printNumber) = _ :=
    cJSONParse_print printNumber hwithin
  have htype : (envelopeEvent "media" seq streamSid).type = .media :=
    show mapEvent (.lit "media") = .media by decide
  rw [rtwParseInbound_envelope hparse, htype]
  obtain ⟨htrack, hchunk, htime, hdata⟩ := mediaMembers_lookup track
    (.ofBytes (rtwBase64Encode mulaw (rtwBase64EncodedLen mulaw.length))) chunk timestampMs
  have hpart : ∀ part, cJSONGetObjectItemCaseSensitive (envelope "media" seq streamSid part)
      (.lit "media") = some part := fun part => envelope_part (by decide)
  simp only [hpart]
  rw [← mediaMembers, parseMedia]
  simp only [htrack, hchunk, htime, hdata, Json.valuestring?, copyStr, decimalOf,
    strtoul10_decimal, hpayload, rtwBase64Decode_encode h, Option.map_some]

theorem rtwParseInbound_mark (name : CStr) (payloadCap : ℕ) :
    rtwParseInbound ((OutMsg.mark streamSid name seq).text printNumber) payloadCap =
      some { envelopeEvent "mark" seq streamSid with markName := .copy _ name } := by
  have hwithin : (OutMsg.mark streamSid name seq).root.Within CJSON_NESTING_LIMIT := by
    apply envelope_within
    apply Json.Within.object (n := 998)
    simp only [List.forall_mem_cons]
    exact ⟨.string _ _, by simp⟩
  have hparse : cJSONParse ((OutMsg.mark streamSid name seq).text printNumber) = _ :=
    cJSONParse_print printNumber hwithin
  have htype : (envelopeEvent "mark" seq streamSid).type = .mark :=
    show mapEvent (.lit "mark") = .mark by decide
  rw [rtwParseInbound_envelope hparse, htype]
  have hpart : ∀ part, cJSONGetObjectItemCaseSensitive (envelope "mark" seq streamSid part)
      (.lit "mark") = some part := fun part => envelope_part (by decide)
  simp only [nestedStr, hpart, getObjectItem_self, copyStr, Json.valuestring?]

theorem rtwParseInbound_stop (accountSid callSid : CStr) (payloadCap : ℕ) :
    rtwParseInbound ((OutMsg.stop streamSid accountSid callSid seq).text printNumber) payloadCap =
      some (envelopeEvent "stop" seq streamSid) := by
  have hwithin : (OutMsg.stop streamSid accountSid callSid seq).root.Within
      CJSON_NESTING_LIMIT := by
    apply envelope_within
    apply Json.Within.object (n := 998)
    simp only [List.forall_mem_cons]
    exact ⟨.string _ _, .string _ _, by simp⟩
  have hparse : cJSONParse ((OutMsg.stop streamSid accountSid callSid seq).text printNumber) = _ :=
    cJSONParse_print printNumber hwithin
  have htype : (envelopeEvent "stop" seq streamSid).type = .stop :=
    show mapEvent (.lit "stop") = .stop by decide
  rw [rtwParseInbound_envelope hparse, htype]

/-- A start message may carry any custom parameters, so its text must be one that the
library reads back. -/
theorem rtwParseInbound_start {json accountSid callSid : CStr} {customParams : Option CStr}
    (hparse : cJSONParse json =
      some (OutMsg.start streamSid accountSid callSid customParams seq).root) (payloadCap : ℕ) :
    rtwParseInbound json payloadCap = some (envelopeEvent "start" seq streamSid) := by
  have htype : (envelopeEvent "start" seq streamSid).type = .start :=
    show mapEvent (.lit "start") = .start by decide
  rw [rtwParseInbound_envelope hparse, htype]

end

theorem copy_toCStr_of_length {cap : ℕ} [Fact (0 < cap)] {s : CStr} (h : s.bytes.length < cap) :
    (CBuf.copy cap s).toCStr = s := CStr.ext (CBuf.copy_bytes h)

/-- The parser gets back from every message the fields its builder was given. The text of
a start message is assumed to be read back by the library, since custom parameters are any
object. -/
theorem builders_read_back (printNumber : List UInt8 → List UInt8)
    {streamSid track name : CStr} (hsid : streamSid.bytes.length ≤ 63)
    (htrack : track.bytes.length ≤ 31) (hname : name.bytes.length ≤ 127)
    (seq chunk timestampMs : UInt32) {mulaw : List UInt8} {payloadCap : ℕ} (hne : mulaw ≠ [])
    (hcap : mulaw.length ≤ payloadCap) (accountSid callSid customParams : Option CStr)
    (hstart : cJSONParse
      ((rtwBuildStart streamSid accountSid callSid customParams seq).text printNumber) =
        some (rtwBuildStart streamSid accountSid callSid customParams seq).root) :
    (∃ m ev, rtwBuildMedia streamSid (some track) chunk timestampMs seq mulaw = some m ∧
      rtwParseInbound (m.text printNumber) payloadCap = some ev ∧
      ev.type = .media ∧ ev.streamSid.toCStr = streamSid ∧ ev.track.toCStr = track ∧
      ev.chunk = chunk ∧ ev.timestampMs = timestampMs ∧ ev.sequenceNumber = seq ∧
      ev.payload = mulaw) ∧
    (∃ ev, rtwParseInbound ((rtwBuildMark streamSid name seq).text printNumber) payloadCap =
        some ev ∧
      ev.type = .mark ∧ ev.streamSid.toCStr = streamSid ∧ ev.markName.toCStr = name ∧
      ev.sequenceNumber = seq) ∧
    (∃ ev, rtwParseInbound
        ((rtwBuildStart streamSid accountSid callSid customParams seq).text printNumber)
        payloadCap = some ev ∧
      ev.type = .start ∧ ev.streamSid.toCStr = streamSid ∧ ev.sequenceNumber = seq) ∧
    ∃ ev, rtwParseInbound ((rtwBuildStop streamSid accountSid callSid seq).text printNumber)
        payloadCap = some ev ∧
      ev.type = .stop ∧ ev.streamSid.toCStr = streamSid ∧ ev.sequenceNumber = seq := by
  have hcopy : (CBuf.copy RTW_SID_MAX streamSid).toCStr = streamSid :=
    copy_toCStr_of_length (Nat.lt_succ_of_le hsid)
  have htypes : mapEvent (.lit "media") = .media ∧ mapEvent (.lit "mark") = .mark ∧
      mapEvent (.lit "start") = .start ∧ mapEvent (.lit "stop") = .stop := by decide
  obtain ⟨hmedia, hmark, hopen, hstop⟩ := htypes
  refine ⟨?_, ?_, ?_, ?_⟩
  · refine ⟨_, _, rtwBuildMedia_isSome hne,
      rtwParseInbound_media printNumber streamSid seq track chunk timestampMs hcap, hmedia, hcopy,
      ?_, rfl, rfl, rfl, rfl⟩
    exact copy_toCStr_of_length (Nat.lt_succ_of_le htrack)
  · refine ⟨_, rtwParseInbound_mark printNumber streamSid seq name payloadCap, hmark, hcopy, ?_,
      rfl⟩
    exact copy_toCStr_of_length (Nat.lt_succ_of_le hname)
  · exact ⟨_, rtwParseInbound_start streamSid seq hstart payloadCap, hopen, hcopy, rfl⟩
  · exact ⟨_, rtwParseInbound_stop printNumber streamSid seq _ _ payloadCap, hstop, hcopy, rfl⟩

/-- Custom parameters with the names the parser looks for. -/
def trickyParams : CStr :=
  .lit "\x7b\"event\":\"stop\",\"streamSid\":\"other\",\"sequenceNumber\":\"7\"\x7d"

set_option maxRecDepth 100000 in
theorem builders_read_back_tricky :
    ∃ ev, rtwParseInbound
        ((rtwBuildStart demoSid none none (some trickyParams) 3).text id) 8 = some ev ∧
      ev.type = .start ∧ ev.streamSid.toCStr = demoSid ∧ ev.sequenceNumber = 3 := by
  have hstart : cJSONParse ((rtwBuildStart demoSid none none (some trickyParams) 3).text id) =
      some (rtwBuildStart demoSid none none (some trickyParams) 3).root := by decide +kernel
  have hall := @builders_read_back id demoSid (.lit "inbound") (.lit "m") (by decide +kernel)
    (by decide +kernel) (by decide +kernel) 3 1 0 [255] 8 (by simp) (by simp) none none
    (some trickyParams) hstart
  exact hall.2.2.1

end RealtimeWs.Core
