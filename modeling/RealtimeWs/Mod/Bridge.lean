import RealtimeWs.Core.Outbound
import RealtimeWs.Mod.Metadata

/-! The bridge between the media bug and the peer. A section under the mutex is one
step. `connections` and `wire` are ghost fields: how many connections were opened,
and every attempt to send a message, with the connection it was made on. -/
namespace RealtimeWs.Mod

open RealtimeWs.Core

inductive InjectMode
  | replace | mix
  deriving DecidableEq, Repr

/-- One call of `rtw_ws_send_text`. -/
structure Attempt where
  connection : ℕ
  json : OutMsg
  sent : Bool
  deriving DecidableEq

structure Tech where
  streamSid : CBuf RTW_SID_MAX
  callSid : CBuf RTW_SID_MAX
  sampling : ℤ
  channels : ℤ
  audioPaused : Bool
  closeRequested : Bool
  cleanupStarted : Bool
  wsReady : Bool
  session : Session
  ws : Option ℕ
  pcmHold : List Int16
  injectMode : InjectMode
  reconnectEnabled : Bool
  reconnectMax : ℤ
  reconnectAttempts : ℤ
  reconnectOk : UInt64
  connections : ℕ
  wire : List Attempt

/-- What one call of the bridge meets: whether it gets the mutex, the environments
of the session calls it makes, and the outcomes of its sends. -/
structure Io where
  locked : Bool
  env : ℕ → Env
  sends : ℕ → Bool

def stopping (tech : Tech) : Bool := tech.closeRequested || tech.cleanupStarted

/-! ### Sending -/

/-- Loop of `flush_outbound` on connection `c`: peek, send, drop. -/
def flushLoop (io : Io) (c : ℕ) : ℕ → ℕ → Tech → Tech
  | 0, _, tech => tech
  | fuel + 1, i, tech =>
    let r := rtwSessionPeekOutbound (io.env i) tech.session
    match r.1 with
    | none => { tech with session := r.2 }
    | some json =>
      if io.sends i then
        flushLoop io c fuel (i + 1) { tech with
          session := (rtwSessionDropOutboundHead r.2).2
          wire := tech.wire ++ [⟨c, json, true⟩] }
      else { tech with
        session := r.2
        wsReady := false
        wire := tech.wire ++ [⟨c, json, false⟩] }

/-- Every round sends one message and only the first can add any, at most the marks
of one harvest, so the fuel is never used up. -/
def flushOutbound (io : Io) (tech : Tech) : Tech :=
  match tech.ws with
  | none => tech
  | some c =>
    if tech.wsReady then
      flushLoop io c (rtwQueueSize tech.session.outbound + HARVEST_MAX + 1) 0 tech
    else tech

/-- The environments of the calls that follow the first one of a section. -/
def Io.tail (io : Io) : Io := { io with env := fun i => io.env (i + 1) }

/-- A peer text under the mutex: the session takes it and the queue is flushed. -/
def handleAndFlush (io : Io) (tech : Tech) (text : CStr) : Tech :=
  flushOutbound io.tail
    { tech with session := (rtwSessionHandlePeerJson (io.env 0) tech.session text).2 }

def onWsText (io : Io) (tech : Tech) (text : CStr) : Tech :=
  if stopping tech then tech
  else if io.locked = false then tech
  else handleAndFlush io tech text

def onWsClose (tech : Tech) : Tech := { tech with wsReady := false }

/-! ### Calls of the channel API -/

def clearText (tech : Tech) : CStr :=
  (CBuf.copy 128 (.ofBytes (ascii "\x7b\"event\":\"clear\",\"streamSid\":\"" ++
    tech.streamSid.bytes ++ ascii "\"\x7d"))).toCStr

def rtwBridgeClear (io : Io) (tech : Tech) : Bool × Tech :=
  if tech.cleanupStarted then (false, tech)
  else if io.locked = false then (false, tech)
  else (true, handleAndFlush io tech (clearText tech))

def markMessage (tech : Tech) (name : CStr) : CStr :=
  (CBuf.copy 256 (.ofBytes (ascii "\x7b\"event\":\"mark\",\"streamSid\":\"" ++
    tech.streamSid.bytes ++ ascii "\",\"mark\":\x7b\"name\":\"" ++ name.bytes ++
      ascii "\"\x7d\x7d"))).toCStr

def rtwBridgeSendMark (io : Io) (tech : Tech) (name : CStr) : Bool × Tech :=
  if tech.cleanupStarted ∨ validMarkName name = false then (false, tech)
  else if io.locked = false then (false, tech)
  else (true, handleAndFlush io tech (markMessage tech name))

def rtwBridgePause (io : Io) (tech : Tech) (pause : Bool) : Bool × Tech :=
  if tech.cleanupStarted then (false, tech)
  else if io.locked = false then (false, tech)
  else (true, { tech with audioPaused := pause, session := { tech.session with paused := pause } })

/-! ### Caller audio -/

/-- `(int16_t)(((int)a + (int)b) / 2)`. -/
def average (a b : Int16) : Int16 := Int16.ofInt ((a.toInt + b.toInt).tdiv 2)

/-- Samples the mono loop computes. -/
def monoSamples (sampling : ℤ) : List Int16 → List Int16
  | [] => []
  | [a] => [a]
  | a :: b :: pcm =>
    if sampling = 16000 then average a b :: monoSamples sampling pcm
    else a :: monoSamples sampling (b :: pcm)

/-- Samples the stereo loop computes: the left channel, at 16 kHz in averaged pairs. -/
def stereoSamples (sampling : ℤ) : List Int16 → List Int16
  | a :: _ :: b :: r :: pcm =>
    if sampling = 16000 then average a b :: stereoSamples sampling pcm
    else a :: stereoSamples sampling (b :: r :: pcm)
  | [a, _, _] => [a]
  | [a, _] => [a]
  | _ => []

def PCM_HOLD_LEN : ℕ := 320

/-- The held samples after one more; a full buffer takes none. -/
def heldWith (tech : Tech) (sample : Int16) : List Int16 :=
  if tech.pcmHold.length < PCM_HOLD_LEN then tech.pcmHold ++ [sample] else tech.pcmHold

/-- Common end of both loop bodies: hold the sample, and push a full frame. -/
def holdSample (env : Env) (tech : Tech) (sample : Int16) : Tech :=
  if 160 ≤ (heldWith tech sample).length then { tech with
    session := (rtwSessionPushPcm16 env tech.session ((heldWith tech sample).take 160)).2
    pcmHold := [] }
  else { tech with pcmHold := heldWith tech sample }

/-- The loop over the samples, the first of them the `i`-th of the call. -/
def holdSamples (io : Io) : ℕ → List Int16 → Tech → Tech
  | _, [], tech => tech
  | i, sample :: samples, tech =>
    holdSamples io (i + 1) samples (holdSample (io.env i) tech sample)

/-- Neither loop changes what the samples are computed from, so they are computed first. -/
def rtwBridgeOnReadPcm16 (io : Io) (tech : Tech) (pcm : List Int16) : Tech :=
  if stopping tech ∨ tech.audioPaused then tech
  else if io.locked = false then tech
  else if 2 ≤ tech.channels then holdSamples io 0 (stereoSamples tech.sampling pcm) tech
  else holdSamples io 0 (monoSamples tech.sampling pcm) tech

/-! ### Agent audio -/

/-- Length of the local frame buffers of both write paths. -/
def WRITE_FRAME_MAX : ℕ := 640

/-- At most one local buffer is read for a frame, however long the frame is. -/
def writeWant (nsamples : ℕ) : ℕ :=
  if nsamples < WRITE_FRAME_MAX then nsamples else WRITE_FRAME_MAX

/-- The part both write paths run under the mutex: the samples taken. -/
def takePlayout (env : Env) (tech : Tech) (want : ℕ) : List Int16 × Tech :=
  let r := rtwSessionReadPlayout tech.session want
  if 0 < r.1.length then (rtwMulawToPcm16 r.1, { tech with session := r.2 })
  else ([], { tech with session := rtwSessionNoteWriteAfterClear env r.2 0 })

/-- The samples written to `out`; their number is the return value. -/
def rtwBridgeOnWritePcm16 (io : Io) (tech : Tech) (maxSamples : ℕ) : List Int16 × Tech :=
  if maxSamples = 0 ∨ tech.cleanupStarted then ([], tech)
  else if io.locked = false then ([], tech)
  else takePlayout (io.env 0) tech (writeWant maxSamples)

def clampS16 (v : ℤ) : Int16 :=
  if 32767 < v then 32767 else if v < -32768 then -32768 else Int16.ofInt v

def mixSamples : List Int16 → List Int16 → List Int16
  | x :: pcm, a :: agent => clampS16 (x.toInt + a.toInt) :: mixSamples pcm agent
  | pcm, _ => pcm

/-- The new content of the frame and the number of samples taken from playout. -/
def rtwBridgeApplyWriteFrame (io : Io) (tech : Tech) (pcm : List Int16) :
    (List Int16 × ℕ) × Tech :=
  if pcm.length = 0 ∨ tech.cleanupStarted then ((pcm, 0), tech)
  else if io.locked = false then ((pcm, 0), tech)
  else
    let r := takePlayout (io.env 0) tech (writeWant pcm.length)
    if r.1.length = 0 then ((pcm, 0), r.2)
    else match tech.injectMode with
      | .mix => ((mixSamples pcm r.1, r.1.length), r.2)
      | .replace => ((r.1 ++ .replicate (pcm.length - r.1.length) 0, r.1.length), r.2)

/-! ### Reconnecting -/

/-- Head of `try_reconnect`: the wait in milliseconds, or no attempt at all. -/
def reconnectBegin (tech : Tech) : Option (ℕ × Tech) :=
  if tech.reconnectEnabled = false ∨ stopping tech then none
  else if 0 < tech.reconnectMax ∧ tech.reconnectMax ≤ tech.reconnectAttempts then none
  else
    let attempts := tech.reconnectAttempts + 1
    let shift := if 5 < attempts then 5 else attempts
    let backoff := 100 <<< shift.toNat
    some (if 3000 < backoff then 3000 else backoff, { tech with reconnectAttempts := attempts })

/-- `sleep_interruptible_ms` succeeds; `tech` is what its checks see. -/
def sleepInterruptibleMs (tech : Tech) (totalMs : ℕ) : Bool :=
  !(0 < totalMs && (stopping tech || !tech.reconnectEnabled)) && !stopping tech

def reconnectClose (tech : Tech) : Tech := { tech with ws := none }

/-- `rtw_ws_connect_ex`; a connection that opens is a new one. -/
def reconnectConnect (connect : Bool) (tech : Tech) : Tech :=
  if connect then { tech with ws := some tech.connections, connections := tech.connections + 1 }
  else { tech with ws := none }

def reconnectReady (tech : Tech) : Tech := { tech with wsReady := true }

def reconnectHandshake (io : Io) (tech : Tech) : Tech :=
  if io.locked = true ∧ stopping tech = false then
    flushOutbound io.tail
      { tech with session := (rtwSessionRehandshake (io.env 0) tech.session).2 }
  else tech

def reconnectDone (tech : Tech) : Tech :=
  { tech with reconnectOk := tech.reconnectOk + 1, reconnectAttempts := 0 }

/-! ### Start and stop -/

/-- The environment variables and outcomes `rtw_bridge_start` depends on. -/
structure StartIo where
  reconnectOff : Bool
  injectMix : Bool
  queueOk : Bool
  playoutOk : Bool
  start : Env
  connect : Bool
  flush : Io

/-- The bridge as its first connection opens, before anything is sent. -/
def openTech (io : StartIo) (streamSid callSid : CBuf RTW_SID_MAX) (sampling channels : ℤ)
    (session : Session) : Tech where
  streamSid := streamSid
  callSid := callSid
  sampling := if 0 < sampling then sampling else 8000
  channels := if 0 < channels then channels else 1
  audioPaused := false
  closeRequested := false
  cleanupStarted := false
  wsReady := true
  session := session
  ws := some 0
  pcmHold := []
  injectMode := if io.injectMix then .mix else .replace
  reconnectEnabled := !io.reconnectOff
  reconnectMax := 10
  reconnectAttempts := 0
  reconnectOk := 0
  connections := 1
  wire := []

def rtwBridgeStart (printNumber : List UInt8 → List UInt8) (io : StartIo) (uuid : Option CStr)
    (sampling channels : ℤ) (metadata : Option CStr) : Option Tech :=
  if sampling ≠ 8000 ∧ sampling ≠ 16000 ∧ sampling.tmod 8000 ≠ 0 then none
  else
    let sessionId := (CBuf.copy RTW_SID_MAX (uuid.getD (.lit "unknown"))).toCStr
    let streamSid := makeStreamSid (some sessionId)
    let callSid := makeCallSid (some sessionId)
    let metadata := metadata.map fun m => (CBuf.copy 8192 m).toCStr
    match rtwSessionInit io.queueOk io.playoutOk 256 (64 * 1024) with
    | none => none
    | some session =>
      let r := rtwSessionStart io.start session streamSid.toCStr (some callSid.toCStr)
        (some (.lit "ACmodrealtimews0000000000000000000")) (splitMetadata printNumber metadata).2
      if r.1 ≠ 0 then none
      else if io.connect = false then none
      else some (flushOutbound io.flush (openTech io streamSid callSid sampling channels r.2))

/-- A bridge that starts has an accepted rate and a fresh session, and flushed once. -/
theorem rtwBridgeStart_spec {printNumber : List UInt8 → List UInt8} {io : StartIo}
    {uuid metadata : Option CStr} {sampling channels : ℤ} {tech : Tech}
    (h : rtwBridgeStart printNumber io uuid sampling channels metadata = some tech) :
    ∃ streamSid callSid session, session.Started ∧ session.outbound.capacity = 256 ∧
      session.playout.capacity = 64 * 1024 ∧ session.timestampMs = 0 ∧
      (sampling = 8000 ∨ sampling = 16000 ∨ sampling.tmod 8000 = 0) ∧
      tech = flushOutbound io.flush (openTech io streamSid callSid sampling channels session) := by
  unfold rtwBridgeStart at h
  by_cases hrate : sampling ≠ 8000 ∧ sampling ≠ 16000 ∧ sampling.tmod 8000 ≠ 0
  · rw [if_pos hrate] at h
    cases h
  rw [if_neg hrate] at h
  cases hinit : rtwSessionInit io.queueOk io.playoutOk 256 (64 * 1024) with
  | none =>
    simp only [hinit] at h
    cases h
  | some s₀ =>
    simp only [hinit] at h
    split_ifs at h with hstart
    obtain ⟨-, -, -, -, -, -, hqcap, hpcap⟩ := rtwSessionInit_spec hinit
    have hok := Prod.ext (y := (0, _)) (not_not.mp hstart) rfl
    obtain ⟨hcap, hplay, htime⟩ := rtwSessionStart_frame hok
    refine ⟨_, _, _, ⟨_, _, _, _, _, _, _, _, _, _, hinit, hok⟩, ?_, ?_, htime, ?_,
      (Option.some.inj h).symm⟩
    · rw [hcap, hqcap]
      rfl
    · rw [hplay, hpcap]
      rfl
    · by_contra hno
      obtain ⟨h8, h16, hmod⟩ := not_or.mp hno |>.imp_right not_or.mp
      exact hrate ⟨h8, h16, hmod⟩

/-- Head of `rtw_bridge_stop`, before it joins the worker. -/
def bridgeStopRequest (tech : Tech) : Tech :=
  { tech with cleanupStarted := true, closeRequested := true, reconnectEnabled := false }

/-- The rest of `rtw_bridge_stop`, up to freeing everything. -/
def bridgeStopFinish (io : Io) (tech : Tech) : Tech :=
  let tech := if io.locked then
      flushOutbound io.tail { tech with
        session := (rtwSessionStop (io.env 0) tech.session).2
        wsReady := tech.ws.isSome || tech.wsReady }
    else tech
  { tech with ws := none, wsReady := if tech.ws.isSome then false else tech.wsReady }

/-- Nothing fails and every send succeeds. -/
def Io.calm : Io := ⟨true, fun _ => .calm, fun _ => true⟩

def StartIo.calm : StartIo := ⟨false, false, true, true, .calm, true, .calm⟩

end RealtimeWs.Mod
