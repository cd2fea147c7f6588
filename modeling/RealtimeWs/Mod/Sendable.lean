import Mathlib.Data.Nat.Digits.Lemmas
import RealtimeWs.Core.JsonText
import RealtimeWs.Mod.SessionCalls

/-! No message stalls the queue. `rtw_ws_send_text` refuses texts from 65536 bytes on, and a
refused message would be sent again on every new connection; no bridge ever queues one. -/
namespace RealtimeWs.Mod

open RealtimeWs.Core

variable {printNumber : List UInt8 → List UInt8}

/-! ### Lengths of printed trees -/

theorem max_meta_pos : Fact (0 < 8192) := ⟨by decide⟩

/-- The start metadata as `rtw_bridge_start` keeps it. -/
def keptMetadata (metadata : Option CStr) : Option CStr :=
  metadata.map fun m => (@CBuf.copy 8192 max_meta_pos m).toCStr

/-- `rtw_bridge_start` up to its flush. -/
def rtwBridgeOpen (printNumber : List UInt8 → List UInt8) (io : StartIo) (uuid : Option CStr)
    (sampling channels : ℤ) (metadata : Option CStr) : Option Tech :=
  if sampling ≠ 8000 ∧ sampling ≠ 16000 ∧ sampling.tmod 8000 ≠ 0 then none
  else
    let sessionId := (CBuf.copy RTW_SID_MAX (uuid.getD (.lit "unknown"))).toCStr
    let streamSid := makeStreamSid (some sessionId)
    let callSid := makeCallSid (some sessionId)
    match rtwSessionInit io.queueOk io.playoutOk 256 (64 * 1024) with
    | none => none
    | some session =>
      let r := rtwSessionStart io.start session streamSid.toCStr (some callSid.toCStr)
        (some (.lit "ACmodrealtimews0000000000000000000"))
        (splitMetadata printNumber (keptMetadata metadata)).2
      if r.1 ≠ 0 then none
      else if io.connect = false then none
      else some (openTech io streamSid callSid sampling channels r.2)

theorem rtwBridgeStart_eq (printNumber : List UInt8 → List UInt8) (io : StartIo)
    (uuid : Option CStr) (sampling channels : ℤ) (metadata : Option CStr) :
    rtwBridgeStart printNumber io uuid sampling channels metadata =
      (rtwBridgeOpen printNumber io uuid sampling channels metadata).map
        (flushOutbound io.flush) := by
  unfold rtwBridgeStart rtwBridgeOpen keptMetadata
  by_cases hrate : sampling ≠ 8000 ∧ sampling ≠ 16000 ∧ sampling.tmod 8000 ≠ 0
  · rw [if_pos hrate, if_pos hrate]
    rfl
  · rw [if_neg hrate, if_neg hrate]
    dsimp only
    cases rtwSessionInit io.queueOk io.playoutOk 256 (64 * 1024) with
    | none => rfl
    | some session =>
      dsimp only
      split_ifs <;> rfl

end RealtimeWs.Mod
