import Mathlib.Data.Nat.Digits.Defs
import RealtimeWs.Core.Base64
import RealtimeWs.Core.CJson

/-! The wire messages: builders of outbound JSON and the parser of inbound JSON. -/
namespace RealtimeWs.Core

def RTW_SID_MAX : ℕ := 64
def RTW_MARK_NAME_MAX : ℕ := 128

instance : Fact (0 < RTW_SID_MAX) := ⟨by decide⟩
instance : Fact (0 < RTW_MARK_NAME_MAX) := ⟨by decide⟩

inductive EventType
  | unknown | connected | start | media | dtmf | mark | clear | stop
  deriving DecidableEq, Repr

structure InboundEvent where
  type : EventType
  streamSid : CBuf RTW_SID_MAX
  markName : CBuf RTW_MARK_NAME_MAX
  track : CBuf 32
  digit : CBuf 8
  /-- `payload[0 .. payload_len)` -/
  payload : List UInt8
  sequenceNumber : UInt32
  chunk : UInt32
  timestampMs : UInt32

/-- The event after `memset`. -/
def InboundEvent.zero : InboundEvent :=
  ⟨.unknown, .empty _, .empty _, .empty _, .empty _, [], 0, 0, 0⟩

/-! ### Builders -/

/-- An outbound JSON text, given by the builder call that produced it. -/
inductive OutMsg
  | connected (version : CStr)
  | start (streamSid accountSid callSid : CStr) (customParams : Option CStr) (seq : UInt32)
  | media (streamSid track : CStr) (chunk timestampMs seq : UInt32) (mulaw : List UInt8)
  | mark (streamSid name : CStr) (seq : UInt32)
  | stop (streamSid accountSid callSid : CStr) (seq : UInt32)
  deriving DecidableEq

def rtwBuildConnected (version : Option CStr) : OutMsg :=
  .connected (version.getD (.lit "1.0.0"))

def rtwBuildStart (streamSid : CStr) (accountSid callSid customParams : Option CStr)
    (seq : UInt32) : OutMsg :=
  .start streamSid (accountSid.getD (.lit "AC00000000000000000000000000000000"))
    (callSid.getD (.lit "CA00000000000000000000000000000000")) customParams seq

/-- Fails on an empty payload, whose encoding has length zero. -/
def rtwBuildMedia (streamSid : CStr) (track : Option CStr) (chunk timestampMs seq : UInt32)
    (mulaw : List UInt8) : Option OutMsg :=
  if rtwBase64Encode mulaw (rtwBase64EncodedLen mulaw.length) = [] then none
  else some (.media streamSid (track.getD (.lit "inbound")) chunk timestampMs seq mulaw)

def rtwBuildMark (streamSid name : CStr) (seq : UInt32) : OutMsg := .mark streamSid name seq

def rtwBuildStop (streamSid : CStr) (accountSid callSid : Option CStr) (seq : UInt32) : OutMsg :=
  .stop streamSid (accountSid.getD (.lit "AC00000000000000000000000000000000"))
    (callSid.getD (.lit "CA00000000000000000000000000000000")) seq

/-- `snprintf(buf, n, "%u", n)`. -/
def decimal (n : UInt32) : CStr :=
  .ofBytes (if n = 0 then [48] else
    (Nat.digits 10 n.toNat).reverse.map fun d => UInt8.ofNat (48 + d))

/-- The `customParameters` item: the parsed object, or an empty one. -/
def customParametersItem (customParams : Option CStr) : Json :=
  match customParams with
  | none => .object []
  | some text =>
    if text.bytes = [] then .object []
    else match cJSONParse text with
      | some (.object members) => .object members
      | _ => .object []

/-- The tree the builder prints. -/
def OutMsg.root : OutMsg → Json
  | .connected version => .object [
      (.lit "event", .string (.lit "connected")),
      (.lit "protocol", .string (.lit "Call")),
      (.lit "version", .string version),
      (.lit "mod_realtime_ws", .object [
        (.lit "compat", .string (.lit "twilio-media-streams")),
        (.lit "level", .string (.lit "L0"))])]
  | .start streamSid accountSid callSid customParams seq => .object [
      (.lit "event", .string (.lit "start")),
      (.lit "sequenceNumber", .string (decimal seq)),
      (.lit "streamSid", .string streamSid),
      (.lit "start", .object [
        (.lit "streamSid", .string streamSid),
        (.lit "accountSid", .string accountSid),
        (.lit "callSid", .string callSid),
        (.lit "tracks", .array [.string (.lit "inbound")]),
        (.lit "customParameters", customParametersItem customParams),
        (.lit "mediaFormat", .object [
          (.lit "encoding", .string (.lit "audio/x-mulaw")),
          (.lit "sampleRate", .number (ascii "8000")),
          (.lit "channels", .number (ascii "1"))])])]
  | .media streamSid track chunk timestampMs seq mulaw => .object [
      (.lit "event", .string (.lit "media")),
      (.lit "sequenceNumber", .string (decimal seq)),
      (.lit "streamSid", .string streamSid),
      (.lit "media", .object [
        (.lit "track", .string track),
        (.lit "chunk", .string (decimal chunk)),
        (.lit "timestamp", .string (decimal timestampMs)),
        (.lit "payload", .string (.ofBytes
          (rtwBase64Encode mulaw (rtwBase64EncodedLen mulaw.length))))])]
  | .mark streamSid name seq => .object [
      (.lit "event", .string (.lit "mark")),
      (.lit "sequenceNumber", .string (decimal seq)),
      (.lit "streamSid", .string streamSid),
      (.lit "mark", .object [(.lit "name", .string name)])]
  | .stop streamSid accountSid callSid seq => .object [
      (.lit "event", .string (.lit "stop")),
      (.lit "sequenceNumber", .string (decimal seq)),
      (.lit "streamSid", .string streamSid),
      (.lit "stop", .object [
        (.lit "accountSid", .string accountSid),
        (.lit "callSid", .string callSid)])]

/-- The JSON text on the queue and on the wire. -/
def OutMsg.text (printNumber : List UInt8 → List UInt8) (m : OutMsg) : CStr :=
  cJSONPrintUnformatted printNumber m.root

/-- The `sequenceNumber` a message carries. -/
def OutMsg.seq? : OutMsg → Option UInt32
  | .connected _ => none
  | .start _ _ _ _ seq | .media _ _ _ _ seq _ | .mark _ _ seq | .stop _ _ _ seq => some seq

def OutMsg.markName? : OutMsg → Option CStr
  | .mark _ name _ => some name
  | _ => none

/-! ### Parsing -/

def mapEvent (s : CStr) : EventType :=
  if s = .lit "connected" then .connected
  else if s = .lit "start" then .start
  else if s = .lit "media" then .media
  else if s = .lit "dtmf" then .dtmf
  else if s = .lit "mark" then .mark
  else if s = .lit "clear" then .clear
  else if s = .lit "stop" then .stop
  else .unknown

def isspace (c : UInt8) : Bool := c == 32 || (9 ≤ c.toNat && c.toNat ≤ 13)

/-- `(uint32_t)strtoul(s, NULL, 10)` with a 64-bit `unsigned long`. -/
def strtoul10 (s : CStr) : UInt32 :=
  let inp := s.bytes.dropWhile isspace
  let sign := inp.take 1 |>.filter fun c => c = 43 ∨ c = 45
  let digits := (inp.drop sign.length).takeWhile isDigit
  let value := digits.foldl (fun v c => 10 * v + (c.toNat - 48)) 0
  if 2 ^ 64 ≤ value then UInt32.ofNat (2 ^ 64 - 1)
  else if sign = [45] then UInt32.ofNat (2 ^ 64 - value) else UInt32.ofNat value

/-- The double `strtod` reads from a number literal. -/
def strtod (literal : List UInt8) : Float.Model :=
  let body := literal.filter fun c => isDigit c ∨ c = 46 ∨ c = 101 ∨ c = 69
  let mantissa := body.takeWhile fun c => isDigit c ∨ c = 46
  let whole := mantissa.takeWhile isDigit
  let frac := mantissa.drop (whole.length + 1)
  let expo := body.drop (mantissa.length + 1)
  let number : List UInt8 → ℕ := fun ds => ds.foldl (fun v c => 10 * v + (c.toNat - 48)) 0
  let negativeExpo := (literal.dropWhile fun c => c ≠ 101 ∧ c ≠ 69).tail.head? = some 45
  let scale : ℤ := if negativeExpo then -number expo else number expo
  let value := Float.Model.ofScientific (number (whole ++ frac)) (scale - frac.length)
  if literal.head? = some 45 then value.neg else value

/-- `(uint32_t)valuedouble` of a number literal. Where the truncated double is no `uint32_t` the
conversion is undefined in C; here it goes to the nearer end of the range. -/
def literalToUInt32 (literal : List UInt8) : UInt32 := (strtod literal).toUInt32

example : ["7", "7.9e0", "7.9999999999999999999", "0.07E+2", "-0.5", "4294967295"].map
    (fun text => literalToUInt32 (ascii text)) = [7, 7, 8, 7, 0, 4294967295] := by
  decide +kernel

/-- `copy_str` of a string item; anything else leaves the zeroed field. -/
def copyStr (cap : ℕ) [Fact (0 < cap)] (item : Option Json) : CBuf cap :=
  match Json.valuestring? item with
  | some s => CBuf.copy cap s
  | none => CBuf.empty cap

def sequenceNumberOf (item : Option Json) : UInt32 :=
  match item with
  | some (.string s) => strtoul10 s
  | some (.number literal) => literalToUInt32 literal
  | _ => 0

def decimalOf (item : Option Json) : UInt32 :=
  match Json.valuestring? item with
  | some s => strtoul10 s
  | none => 0

/-- The `media` branch: the track, the counters and the decoded payload. -/
def parseMedia (ev : InboundEvent) (media : Option Json) (payloadCap : ℕ) : Option InboundEvent :=
  match media with
  | some (.object members) =>
    let media := Json.object members
    let track := cJSONGetObjectItemCaseSensitive media (.lit "track")
    let chunk := cJSONGetObjectItemCaseSensitive media (.lit "chunk")
    let ts := cJSONGetObjectItemCaseSensitive media (.lit "timestamp")
    let payload := cJSONGetObjectItemCaseSensitive media (.lit "payload")
    match Json.valuestring? payload with
    | none => none
    | some payloadB64 =>
      (rtwBase64Decode payloadB64.bytes payloadCap).map fun decoded =>
        { ev with
          track := copyStr 32 track
          chunk := decimalOf chunk
          timestampMs := decimalOf ts
          payload := decoded }
  | _ => none

/-- `copy_str` of a string member of an object member. -/
def nestedStr (cap : ℕ) [Fact (0 < cap)] (root : Json) (outer inner : CStr) : CBuf cap :=
  match cJSONGetObjectItemCaseSensitive root outer with
  | some (.object members) =>
    copyStr cap (cJSONGetObjectItemCaseSensitive (.object members) inner)
  | _ => CBuf.empty cap

def rtwParseInbound (json : CStr) (payloadCap : ℕ) : Option InboundEvent :=
  match cJSONParse json with
  | none => none
  | some root =>
    match Json.valuestring? (cJSONGetObjectItemCaseSensitive root (.lit "event")) with
    | none => none
    | some event =>
      let out := { InboundEvent.zero with
        type := mapEvent event
        streamSid := copyStr RTW_SID_MAX (cJSONGetObjectItemCaseSensitive root (.lit "streamSid"))
        sequenceNumber :=
          sequenceNumberOf (cJSONGetObjectItemCaseSensitive root (.lit "sequenceNumber")) }
      match out.type with
      | .media =>
        parseMedia out (cJSONGetObjectItemCaseSensitive root (.lit "media")) payloadCap
      | .mark =>
        some { out with markName := nestedStr RTW_MARK_NAME_MAX root (.lit "mark") (.lit "name") }
      | .dtmf => some { out with digit := nestedStr 8 root (.lit "dtmf") (.lit "digit") }
      | _ => some out

example : (rtwParseInbound (.lit
    "\x7b\"event\":\"mark\",\"streamSid\":\"MZ1\",\"mark\":\x7b\"name\":\"x\"\x7d\x7d") 8).map
      (fun ev => (ev.type, ev.markName.toCStr)) = some (.mark, .lit "x") := by decide +kernel

end RealtimeWs.Core
