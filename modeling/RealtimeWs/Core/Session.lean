import RealtimeWs.Core.Mulaw
import RealtimeWs.Core.Playout
import RealtimeWs.Core.Protocol
import RealtimeWs.Core.Queue
import RealtimeWs.Lib.Machine

/-! The session: uplink framing, inbound events, mark acknowledgements and the
handshake, over the outbound queue and the playout buffer. A call takes the
outcomes of its allocations and its clock reading from an environment. -/
namespace RealtimeWs.Core

def RTW_FRAME_MULAW_BYTES : ℕ := 160
def RTW_CLEAR_LAT_BUCKETS : ℕ := 8

inductive SessionState
  | idle | starting | running | stopping | stopped
  deriving DecidableEq, Repr

structure Session where
  streamSid : CBuf RTW_SID_MAX
  callSid : CBuf RTW_SID_MAX
  accountSid : CBuf RTW_SID_MAX
  customParams : Option CStr
  state : SessionState
  seq : UInt32
  chunk : UInt32
  timestampMs : UInt32
  outbound : BoundedQueue OutMsg
  playout : Playout
  paused : Bool
  uplinkFrames : UInt64
  downlinkFrames : UInt64
  clearEvents : UInt64
  clearArmed : Bool
  clearStartNs : UInt64
  clearLatencyLastUs : UInt64
  clearLatencyMaxUs : UInt64
  clearLatencySumUs : UInt64
  clearLatencySamples : UInt64
  clearLatencyBuckets : Fin RTW_CLEAR_LAT_BUCKETS → UInt64

/-- How queueing one message ends: stored, its text was never built, or the
queue could not copy it. A builder that is refused one item leaves it out and
goes on; the message here is the whole one. -/
inductive EnqueueOutcome
  | stored | noJson | noCopy
  deriving DecidableEq, Repr

/-- What one call meets: the clock, whether the buffer it allocates for itself
is there, and the outcome of the `i`-th message it queues. -/
structure Env where
  now : UInt64
  buffer : Bool
  enqueue : ℕ → EnqueueOutcome

/-- No allocation fails. -/
structure Env.Plentiful (env : Env) : Prop where
  buffer : env.buffer = true
  enqueue : ∀ i, env.enqueue i = .stored

def rtwSessionInit (queueOk playoutOk : Bool) (outQueueCap playoutCap : ℕ) : Option Session :=
  match rtwQueueInit queueOk (if outQueueCap ≠ 0 then outQueueCap else 64) with
  | none => none
  | some outbound =>
    match rtwPlayoutInit playoutOk (if playoutCap ≠ 0 then playoutCap else 8 * 8000) with
    | none => none
    | some playout => some {
        streamSid := .empty _
        callSid := .empty _
        accountSid := .empty _
        customParams := none
        state := .idle
        seq := 0
        chunk := 0
        timestampMs := 0
        outbound := outbound
        playout := playout
        paused := false
        uplinkFrames := 0
        downlinkFrames := 0
        clearEvents := 0
        clearArmed := false
        clearStartNs := 0
        clearLatencyLastUs := 0
        clearLatencyMaxUs := 0
        clearLatencySumUs := 0
        clearLatencySamples := 0
        clearLatencyBuckets := fun _ => 0 }

/-! ### Queueing messages -/

/-- The queue after `enqueue_json`. A message whose text was never built does
not reach the queue; only the ghost history notes it. -/
def offer (o : EnqueueOutcome) (q : BoundedQueue OutMsg) (m : OutMsg) :
    ℤ × BoundedQueue OutMsg :=
  match o with
  | .stored => rtwQueuePush true q m
  | .noCopy => rtwQueuePush false q m
  | .noJson => (-1, { q with history := q.history ++ [.refuse m] })

def enqueueJson (o : EnqueueOutcome) (s : Session) (json : Option OutMsg) : ℤ × Session :=
  match json with
  | none => (-1, s)
  | some m => ((offer o s.outbound m).1, { s with outbound := (offer o s.outbound m).2 })

/-- `connected`, then `start`: the tail of a session start and all of a rehandshake. -/
def enqueueHandshake (env : Env) (s : Session) : ℤ × Session :=
  let r := enqueueJson (env.enqueue 0) s (some (rtwBuildConnected (some (.lit "1.0.0"))))
  if r.1 ≠ 0 then (-1, r.2)
  else
    let start := rtwBuildStart s.streamSid.toCStr (some s.accountSid.toCStr)
      (some s.callSid.toCStr) s.customParams s.seq
    let r := enqueueJson (env.enqueue 1) { r.2 with seq := s.seq + 1 } (some start)
    if r.1 ≠ 0 then (-1, r.2) else (0, r.2)

def rtwSessionStart (env : Env) (s : Session) (streamSid : CStr)
    (callSid accountSid customParamsJson : Option CStr) : ℤ × Session :=
  let s := { s with
    streamSid := .copy _ streamSid
    callSid := .copy _ (callSid.getD streamSid)
    accountSid := .copy _ (accountSid.getD (.lit "AC00000000000000000000000000000000"))
    customParams := none }
  let custom := customParamsJson.filter fun c => c.bytes ≠ []
  if custom.isSome ∧ env.buffer = false then (-1, s)
  else
    let s := { s with
      customParams := custom, seq := 1, chunk := 1, timestampMs := 0, state := .starting }
    let r := enqueueHandshake env s
    if r.1 ≠ 0 then (-1, r.2) else (0, { r.2 with state := .running })

/-- Body of the framing loop: one 20 ms frame of 160 samples. -/
def pushFrame (o : EnqueueOutcome) (s : Session) (pcm : List Int16) : ℤ × Session :=
  let json := rtwBuildMedia s.streamSid.toCStr (some (.lit "inbound")) s.chunk s.timestampMs s.seq
    (rtwPcm16ToMulaw pcm)
  let r := enqueueJson o { s with seq := s.seq + 1 } json
  if r.1 ≠ 0 then (-1, r.2)
  else (0, { r.2 with
    chunk := r.2.chunk + 1
    timestampMs := r.2.timestampMs + 20
    uplinkFrames := r.2.uplinkFrames + 1 })

/-- The framing loop over `n` whole frames, the first of them the `i`-th of the call. -/
def pushFrames (env : Env) : ℕ → ℕ → List Int16 → Session → ℤ × Session
  | 0, _, pcm, s => (pcm.length, s)
  | n + 1, i, pcm, s =>
    let r := pushFrame (env.enqueue i) s (pcm.take RTW_FRAME_MULAW_BYTES)
    if r.1 ≠ 0 then (-1, r.2)
    else pushFrames env n (i + 1) (pcm.drop RTW_FRAME_MULAW_BYTES) r.2

def rtwSessionPushPcm16 (env : Env) (s : Session) (pcm : List Int16) : ℤ × Session :=
  if s.state ≠ .running ∨ s.paused then (-1, s)
  else pushFrames env (pcm.length / RTW_FRAME_MULAW_BYTES) 0 pcm s

/-! ### Inbound events and marks -/

/-- One mark acknowledgement. -/
def enqueueAck (o : EnqueueOutcome) (s : Session) (name : CBuf RTW_MARK_NAME_LEN) : ℤ × Session :=
  enqueueJson o { s with seq := s.seq + 1 } (some (rtwBuildMark s.streamSid.toCStr name.toCStr s.seq))

/-- Acknowledgements of a clear: the first failure ends the loop. -/
def flushAcks (env : Env) : ℕ → List (CBuf RTW_MARK_NAME_LEN) → Session → ℤ × Session
  | _, [], s => (0, s)
  | i, name :: names, s =>
    let r := enqueueAck (env.enqueue i) s name
    if r.1 ≠ 0 then (-1, r.2) else flushAcks env (i + 1) names r.2

/-- Acknowledgements of a harvest: failures are ignored. -/
def harvestAcks (env : Env) : ℕ → List (CBuf RTW_MARK_NAME_LEN) → Session → Session
  | _, [], s => s
  | i, name :: names, s => harvestAcks env (i + 1) names (enqueueAck (env.enqueue i) s name).2

def PAYLOAD_CAP : ℕ := 64 * 1024

/-- The switch on the type of an event addressed to this stream. -/
def handleEvent (env : Env) (s : Session) (ev : InboundEvent) : ℤ × Session :=
  match ev.type with
  | .media =>
    let r := rtwPlayoutWrite s.playout ev.payload
    if r.1 ≠ 0 then (-2, { s with playout := r.2 })
    else (0, { s with playout := r.2, downlinkFrames := s.downlinkFrames + 1 })
  | .mark =>
    let r := rtwPlayoutAddMark s.playout ev.markName.toCStr
    (if r.1 = 0 then 0 else -1, { s with playout := r.2 })
  | .clear =>
    let r := rtwPlayoutClear s.playout RTW_MARK_MAX
    flushAcks env 0 r.1 { s with
      playout := r.2
      clearEvents := s.clearEvents + 1
      clearArmed := true
      clearStartNs := env.now }
  | _ => (0, s)

def rtwSessionHandlePeerJson (env : Env) (s : Session) (json : CStr) : ℤ × Session :=
  if s.state ≠ .running then (-1, s)
  else if env.buffer = false then (-1, s)
  else match rtwParseInbound json PAYLOAD_CAP with
    | none => (-1, s)
    | some ev =>
      if ev.streamSid.bytes ≠ [] ∧ ev.streamSid ≠ s.streamSid then (1, s)
      else handleEvent env s ev

/-- Room for completed marks in one harvest. -/
def HARVEST_MAX : ℕ := 8

def rtwSessionHarvestMarks (env : Env) (s : Session) : Session :=
  let r := rtwPlayoutPopCompletedMarks s.playout HARVEST_MAX
  harvestAcks env 0 r.1 { s with playout := r.2 }

/-- The harvest is written out again in the source. -/
def rtwSessionPopOutbound (env : Env) (s : Session) : Option OutMsg × Session :=
  let s := rtwSessionHarvestMarks env s
  ((rtwQueuePop s.outbound).1, { s with outbound := (rtwQueuePop s.outbound).2 })

def rtwSessionPeekOutbound (env : Env) (s : Session) : Option OutMsg × Session :=
  let s := rtwSessionHarvestMarks env s
  (rtwQueuePeek s.outbound, s)

def rtwSessionDropOutboundHead (s : Session) : ℤ × Session :=
  ((rtwQueueDropHead s.outbound).1, { s with outbound := (rtwQueueDropHead s.outbound).2 })

def rtwSessionReadPlayout (s : Session) (maxLen : ℕ) : List UInt8 × Session :=
  ((rtwPlayoutRead s.playout maxLen).1, { s with playout := (rtwPlayoutRead s.playout maxLen).2 })

/-! ### Clear latency -/

def latencyBucket (us : UInt64) : Fin RTW_CLEAR_LAT_BUCKETS :=
  if us < 1000 then ⟨0, by decide⟩
  else if us < 2000 then ⟨1, by decide⟩
  else if us < 5000 then ⟨2, by decide⟩
  else if us < 10000 then ⟨3, by decide⟩
  else if us < 20000 then ⟨4, by decide⟩
  else if us < 50000 then ⟨5, by decide⟩
  else if us < 100000 then ⟨6, by decide⟩
  else ⟨7, by decide⟩

def recordClearLatency (s : Session) (us : UInt64) : Session :=
  { s with
    clearLatencyLastUs := us
    clearLatencyMaxUs := if s.clearLatencyMaxUs < us then us else s.clearLatencyMaxUs
    clearLatencySumUs := s.clearLatencySumUs + us
    clearLatencySamples := s.clearLatencySamples + 1
    clearLatencyBuckets := Function.update s.clearLatencyBuckets (latencyBucket us)
      (s.clearLatencyBuckets (latencyBucket us) + 1) }

def rtwSessionNoteWriteAfterClear (env : Env) (s : Session) (playoutSamplesWritten : ℕ) : Session :=
  if s.clearArmed = false then s
  else if playoutSamplesWritten ≠ 0 then s
  else
    let us := if s.clearStartNs ≠ 0 then (env.now - s.clearStartNs) / 1000 else 0
    { recordClearLatency s us with clearArmed := false }

/-! ### Stop and rehandshake -/

def rtwSessionStop (env : Env) (s : Session) : ℤ × Session :=
  if s.state = .stopped ∨ s.state = .idle then (-1, s)
  else
    let stop := rtwBuildStop s.streamSid.toCStr (some s.accountSid.toCStr) (some s.callSid.toCStr)
      s.seq
    let r := enqueueJson (env.enqueue 0) { s with state := .stopping, seq := s.seq + 1 } (some stop)
    if r.1 ≠ 0 then (-1, r.2) else (0, { r.2 with state := .stopped })

def rtwSessionRehandshake (env : Env) (s : Session) : ℤ × Session :=
  if s.state ≠ .running then (-1, s) else enqueueHandshake env s

/-! ### Runs -/

inductive SessionOp
  | handlePeerJson (json : CStr)
  | pushPcm16 (pcm : List Int16)
  | readPlayout (maxLen : ℕ)
  | popOutbound
  | peekOutbound
  | dropOutboundHead
  | harvestMarks
  | noteWriteAfterClear (playoutSamplesWritten : ℕ)
  | stop
  | rehandshake

def Session.step (s : Session) : Env × SessionOp → Session
  | (env, .handlePeerJson json) => (rtwSessionHandlePeerJson env s json).2
  | (env, .pushPcm16 pcm) => (rtwSessionPushPcm16 env s pcm).2
  | (_, .readPlayout maxLen) => (rtwSessionReadPlayout s maxLen).2
  | (env, .popOutbound) => (rtwSessionPopOutbound env s).2
  | (env, .peekOutbound) => (rtwSessionPeekOutbound env s).2
  | (_, .dropOutboundHead) => (rtwSessionDropOutboundHead s).2
  | (env, .harvestMarks) => rtwSessionHarvestMarks env s
  | (env, .noteWriteAfterClear n) => rtwSessionNoteWriteAfterClear env s n
  | (env, .stop) => (rtwSessionStop env s).2
  | (env, .rehandshake) => (rtwSessionRehandshake env s).2

/-- A session as `rtw_session_init` and one successful `rtw_session_start` leave it. -/
def Session.Started (s : Session) : Prop :=
  ∃ queueOk playoutOk outQueueCap playoutCap s₀ env streamSid callSid accountSid custom,
    rtwSessionInit queueOk playoutOk outQueueCap playoutCap = some s₀ ∧
      rtwSessionStart env s₀ streamSid callSid accountSid custom = (0, s)

end RealtimeWs.Core
