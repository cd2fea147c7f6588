import RealtimeWs.Core.CJson
import RealtimeWs.Core.Protocol

/-! Start metadata and stream identifiers of the bridge. -/
namespace RealtimeWs.Mod

open RealtimeWs.Core

def isxdigit (c : UInt8) : Bool :=
  isDigit c || (65 ≤ c.toNat && c.toNat ≤ 70) || (97 ≤ c.toNat && c.toNat ≤ 102)

def isalnum (c : UInt8) : Bool :=
  isDigit c || (65 ≤ c.toNat && c.toNat ≤ 90) || (97 ≤ c.toNat && c.toNat ≤ 122)

/-- The first `want` hexadecimal digits of the uuid in lower case, filled up with zeros. -/
def hexCompact (uuid : Option CStr) (outCap want : ℕ) : List UInt8 :=
  let n := min want (outCap - 1)
  let digits := match uuid with
    | none => []
    | some u => ((u.bytes.filter isxdigit).take n).map tolower
  digits ++ .replicate (n - digits.length) 48

def makeStreamSid (uuid : Option CStr) : CBuf RTW_SID_MAX :=
  .copy _ (.ofBytes (ascii "MZ" ++ hexCompact uuid 33 32))

def makeCallSid (uuid : Option CStr) : CBuf RTW_SID_MAX :=
  .copy _ (.ofBytes (ascii "CA" ++ hexCompact uuid 33 32))

def validMarkName (name : CStr) : Bool :=
  name.bytes ≠ [] ∧ name.bytes.length < RTW_MARK_NAME_MAX ∧
    name.bytes.all fun c => isalnum c || c == 95 || c == 45 || c == 46

/-- The header line of one member of `ws_headers`; members that are not strings have none. -/
def headerLine (member : CStr × Json) : List UInt8 :=
  match Json.valuestring? (some member.2) with
  | none => []
  | some val => member.1.bytes ++ ascii ": " ++ val.bytes ++ ascii "\r\n"

/-- Header block for the upgrade and custom parameters for the peer. The lookups
are exact, the deletions ignore case. -/
def splitMetadata (printNumber : List UInt8 → List UInt8) (metadata : Option CStr) :
    Option CStr × Option CStr :=
  match metadata.filter fun m => m.bytes ≠ [] with
  | none => (none, none)
  | some metadata =>
    match cJSONParse metadata with
    | some (.object members) =>
      let auth := Json.valuestring?
        (cJSONGetObjectItemCaseSensitive (.object members) (.lit "authorization"))
      let auth := auth.filter fun v => v.bytes ≠ []
      let hdr := match auth with
        | none => []
        | some v => ascii "Authorization: " ++ v.bytes ++ ascii "\r\n"
      let members := if auth.isSome then cJSONDeleteItemFromObject members (.lit "authorization")
        else members
      let headers := Json.members?
        (cJSONGetObjectItemCaseSensitive (.object members) (.lit "ws_headers"))
      let hdr := hdr ++ (headers.getD []).flatMap headerLine
      let members := if headers.isSome then cJSONDeleteItemFromObject members (.lit "ws_headers")
        else members
      (if hdr ≠ [] then some (.ofBytes hdr) else none,
        if members ≠ [] then some (cJSONPrintUnformatted printNumber (.object members)) else none)
    | _ => (none, some metadata)

example : (makeStreamSid (some (.lit "0A-1b"))).bytes =
    ascii "MZ0a1b0000000000000000000000000000" := by decide +kernel

end RealtimeWs.Mod
