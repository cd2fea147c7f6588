import RealtimeWs.Mod.Delivery

/-! The whole bridge as one machine: the worker thread with its place in the code, and
the threads of the channel, which may act between any two steps of the worker. -/
namespace RealtimeWs.Mod

open RealtimeWs.Core

/-- Where the worker is: at the top of its loop, past the last check of the loop and
about to flush, at a point inside `try_reconnect`, or gone. -/
inductive WorkerPc
  | loop | sending | backoff | reopen | opening | opened | ready | done | exited | freed
  deriving DecidableEq, Repr

structure World where
  tech : Tech
  pc : WorkerPc

inductive WorldEvent
  -- calls of the channel's threads
  | onRead (io : Io) (pcm : List Int16)
  | onWrite (io : Io) (maxSamples : ℕ)
  | applyWrite (io : Io) (pcm : List Int16)
  | clear (io : Io)
  | sendMark (io : Io) (name : CStr)
  | pause (io : Io) (on : Bool)
  | closeRequest
  | stopRequest
  | stopFinish (io : Io)
  -- the worker's loop
  | wsText (io : Io) (text : CStr)
  | wsClose
  | polled
  | flush (io : Io)
  | leave
  -- `try_reconnect`
  | beginReconnect
  | wake
  | closeOld
  | connect (ok : Bool)
  | check
  | rehandshake (io : Io)
  | finish

/-- The worker's own steps, each taken only at its place in the code. -/
def World.workerStep (w : World) : WorldEvent → World
  | .wsText io text =>
    if w.pc = .loop ∧ w.tech.ws.isSome then { w with tech := onWsText io w.tech text } else w
  | .wsClose => if w.pc = .loop then { w with tech := onWsClose w.tech } else w
  | .polled => if w.pc = .loop ∧ stopping w.tech = false then { w with pc := .sending } else w
  | .flush io =>
    if w.pc = .sending then ⟨if io.locked then flushOutbound io w.tech else w.tech, .loop⟩ else w
  | .leave => if w.pc = .loop ∧ stopping w.tech then { w with pc := .exited } else w
  | .beginReconnect =>
    if w.pc = .loop ∧ w.tech.ws.isSome then
      match reconnectBegin { w.tech with wsReady := false } with
      | none => ⟨{ w.tech with wsReady := false }, .exited⟩
      | some (_, tech) => ⟨tech, .backoff⟩
    else w
  | .wake =>
    if w.pc = .backoff then
      { w with pc := if sleepInterruptibleMs w.tech 1 then .reopen else .exited }
    else w
  | .closeOld => if w.pc = .reopen then ⟨reconnectClose w.tech, .opening⟩ else w
  | .connect ok =>
    if w.pc = .opening then ⟨reconnectConnect ok w.tech, if ok then .opened else .exited⟩ else w
  | .check =>
    if w.pc = .opened then
      if stopping w.tech then ⟨{ w.tech with ws := none }, .exited⟩
      else ⟨reconnectReady w.tech, .ready⟩
    else w
  | .rehandshake io => if w.pc = .ready then ⟨reconnectHandshake io w.tech, .done⟩ else w
  | .finish => if w.pc = .done then ⟨reconnectDone w.tech, .loop⟩ else w
  | _ => w

/-- The bridge is freed at the end of `rtw_bridge_stop`, after the worker has gone. -/
def World.step (w : World) : WorldEvent → World
  | .onRead io pcm =>
    if w.pc = .freed then w else { w with tech := rtwBridgeOnReadPcm16 io w.tech pcm }
  | .onWrite io n =>
    if w.pc = .freed then w else { w with tech := (rtwBridgeOnWritePcm16 io w.tech n).2 }
  | .applyWrite io pcm =>
    if w.pc = .freed then w else { w with tech := (rtwBridgeApplyWriteFrame io w.tech pcm).2 }
  | .clear io => if w.pc = .freed then w else { w with tech := (rtwBridgeClear io w.tech).2 }
  | .sendMark io name =>
    if w.pc = .freed then w else { w with tech := (rtwBridgeSendMark io w.tech name).2 }
  | .pause io on => if w.pc = .freed then w else { w with tech := (rtwBridgePause io w.tech on).2 }
  | .closeRequest =>
    if w.pc = .freed then w else { w with tech := { w.tech with closeRequested := true } }
  | .stopRequest => if w.pc = .freed then w else { w with tech := bridgeStopRequest w.tech }
  | .stopFinish io =>
    if w.pc = .exited ∧ w.tech.cleanupStarted then ⟨bridgeStopFinish io w.tech, .freed⟩ else w
  | e => w.workerStep e

def world : Machine World WorldEvent Attempt where
  step := World.step
  out w e := (w.step e).tech.wire.drop w.tech.wire.length

/-- The messages sent on connection `c`. -/
def Tech.sentOn (tech : Tech) (c : ℕ) : List OutMsg :=
  (tech.wire.filter fun a => a.sent && a.connection == c).map Attempt.json

/-! ### What the calls leave alone -/

/-- A call that sends nothing: only the session, the held samples and the pause flag
can change, and the session stays in its state. -/
structure Silent (t u : Tech) : Prop where
  rest : u = { t with session := u.session, pcmHold := u.pcmHold, audioPaused := u.audioPaused }
  state : u.session.state = t.session.state

theorem Silent.refl (t : Tech) : Silent t t := ⟨rfl, rfl⟩

theorem Silent.trans {t u v : Tech} (h : Silent t u) (k : Silent u v) : Silent t v := by
  constructor
  · rw [k.rest, h.rest]
  · exact k.state.trans h.state

theorem Silent.ws {t u : Tech} (h : Silent t u) : u.ws = t.ws := by rw [h.rest]

theorem Silent.wsReady {t u : Tech} (h : Silent t u) : u.wsReady = t.wsReady := by rw [h.rest]

theorem Silent.wire {t u : Tech} (h : Silent t u) : u.wire = t.wire := by rw [h.rest]

theorem Silent.connections {t u : Tech} (h : Silent t u) : u.connections = t.connections := by
  rw [h.rest]

theorem Silent.stopping {t u : Tech} (h : Silent t u) : stopping u = stopping t := by
  rw [h.rest]
  rfl

theorem silent_session (t : Tech) {s : Session} (h : s.state = t.session.state) :
    Silent t { t with session := s } := ⟨rfl, h⟩

theorem silent_holdSample (env : Env) (t : Tech) (sample : Int16) :
    Silent t (holdSample env t sample) := by
  unfold holdSample
  split
  · obtain ⟨ms, -, -, -, hsame⟩ :=
      rtwSessionPushPcm16_spec env t.session ((heldWith t sample).take 160)
    exact ⟨rfl, hsame.state⟩
  · exact ⟨rfl, rfl⟩

theorem silent_holdSamples (io : Io) (i : ℕ) (samples : List Int16) (t : Tech) :
    Silent t (holdSamples io i samples t) := by
  induction samples generalizing i t with
  | nil => exact .refl t
  | cons sample samples ih => exact (silent_holdSample _ t sample).trans (ih (i + 1) _)

theorem silent_onRead (io : Io) (t : Tech) (pcm : List Int16) :
    Silent t (rtwBridgeOnReadPcm16 io t pcm) := by
  unfold rtwBridgeOnReadPcm16
  split_ifs
  · exact .refl t
  · exact .refl t
  · exact silent_holdSamples io 0 _ t
  · exact silent_holdSamples io 0 _ t

theorem silent_takePlayout (env : Env) (t : Tech) (want : ℕ) :
    Silent t (takePlayout env t want).2 := by
  simp only [takePlayout]
  split
  · exact silent_session t rfl
  · have hstate := (noteWriteAfterClear_frame env (rtwSessionReadPlayout t.session want).2 0).2.state
    exact silent_session t hstate

theorem silent_onWrite (io : Io) (t : Tech) (n : ℕ) :
    Silent t (rtwBridgeOnWritePcm16 io t n).2 := by
  unfold rtwBridgeOnWritePcm16
  split_ifs
  · exact .refl t
  · exact .refl t
  · exact silent_takePlayout _ t _

theorem silent_applyWrite (io : Io) (t : Tech) (pcm : List Int16) :
    Silent t (rtwBridgeApplyWriteFrame io t pcm).2 := by
  have htake := silent_takePlayout (io.env 0) t (writeWant pcm.length)
  unfold rtwBridgeApplyWriteFrame
  split_ifs
  · exact .refl t
  · exact .refl t
  · simp only
    split
    · exact htake
    · cases t.injectMode <;> exact htake

theorem silent_pause (io : Io) (t : Tech) (on : Bool) : Silent t (rtwBridgePause io t on).2 := by
  unfold rtwBridgePause
  split_ifs
  · exact .refl t
  · exact .refl t
  · exact ⟨rfl, rfl⟩

/-- An attempt counts itself and touches nothing else before it sleeps. -/
theorem reconnectBegin_cases (tech : Tech) : reconnectBegin tech = none ∨
    ∃ wait, reconnectBegin tech =
      some (wait, { tech with reconnectAttempts := tech.reconnectAttempts + 1 }) := by
  unfold reconnectBegin
  split_ifs
  · exact Or.inl rfl
  · exact Or.inl rfl
  all_goals exact Or.inr ⟨_, rfl⟩

end RealtimeWs.Mod
