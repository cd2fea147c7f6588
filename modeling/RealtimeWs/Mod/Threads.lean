import RealtimeWs.Core.WsFrames
import RealtimeWs.Lib.Threads
import RealtimeWs.Mod.World

/-! The bridge as a system of threads: the worker, and the callers of the channel API.
A step is a call on the mutex, one access to `ws` or `ws_ready`, or one call of the
socket client. What a thread does to the session under the mutex is one step. -/
namespace RealtimeWs.Mod

open RealtimeWs.Core

inductive Thread
  | worker
  | caller (i : ℕ)
  deriving DecidableEq

/-- One call of `rtw_ws_send_text`, with its mask and the bytes it wrote. -/
structure Write where
  connection : ℕ
  key : MaskKey
  text : List UInt8
  bytes : List UInt8

/-- `closed` and `writes` are ghost fields: the clients given to `rtw_ws_close`, and the
calls of `rtw_ws_send_text`. A client is known by the number of its connection. -/
structure Shared where
  tech : Tech
  mutex : Option Thread
  handedOut : Bool
  workerDone : Bool
  freed : Bool
  closed : List ℕ
  writes : List Write

/-! ### Places in the code -/

/-- Places in `flush_outbound`. -/
inductive FlushPc
  | readWs | readReady | peek
  | readArg (json : OutMsg)
  | send (c : Option ℕ) (json : OutMsg)
  | failed | drop | ret

/-- Where `flush_outbound` is called; a text arrives in a poll of a client. -/
inductive FlushSite
  | start | loop | handshake | call | stop
  | wsText (c : Option ℕ)

/-- `if (tech->ws) { rtw_ws_close(tech->ws); tech->ws = NULL; }` -/
inductive ClosePc
  | read | arg
  | closing (c : Option ℕ)
  | clear

/-- Where a client is closed: the old one and the new one of `try_reconnect`, or at stop. -/
inductive CloseSite
  | old | new | stop

inductive Pc
  | flush (site : FlushSite) (f : FlushPc)
  | unlock (site : FlushSite)
  | close (site : CloseSite) (p : ClosePc)
  -- `ws_worker`
  | loop | readWs | readReady | rereadWs | rereadReady | usleep
  | pollArg
  | poll (c : Option ℕ)
  | pollFailed | checkLoop | trylock | exited
  -- `on_ws_text`
  | textCheck (c : Option ℕ) (text : CStr)
  | textLock (c : Option ℕ) (text : CStr)
  | textHandle (c : Option ℕ) (text : CStr)
  -- `try_reconnect`
  | begin | backoff | connect
  | publish (c : Option ℕ)
  | readNew | checkStop | setReady | handshakeLock | handshake | count
  -- calls of the channel API
  | idle
  | callCheck (text : CStr)
  | callLock (text : CStr)
  | callHandle (text : CStr)
  -- `rtw_bridge_stop`
  | stopCheck | stopRequest | stopJoin | stopLock | stopSession | stopReadWs | stopReady
  | stopClearReady | free

/-! ### Steps -/

inductive PollStep
  | text (t : CStr)
  | closed | done | failed

inductive Call
  | clear
  | sendMark (name : CStr)
  | stop
  | closeRequest
  -- the media bug and `pause`, whose sections never touch the socket
  | onRead (pcm : List Int16)
  | onWrite (maxSamples : ℕ)
  | applyWrite (pcm : List Int16)
  | pause (on : Bool)

/-- What a step meets: whether a lock is granted or a connection opened, the environments
of session calls, the client a send finds and what the send does, what a poll does next,
and the call an idle thread makes. -/
structure StepIo where
  ok : Bool
  env : ℕ → Env
  client : WsClient
  send : SendIo
  poll : PollStep
  call : Call

def Shared.withTech (g : Shared) (tech : Tech) : Shared := { g with tech := tech }

/-- `switch_mutex_lock`: a thread waits at `wait` while another one is inside. -/
def lock (t : Thread) (io : StepIo) (g : Shared) (wait inside failed : Pc) : Pc × Shared :=
  if io.ok = false then (failed, g)
  else if g.mutex = none then (inside, { g with mutex := some t })
  else (wait, g)

/-- Return value and effect of `rtw_ws_send_text` on connection `c`. -/
def sendStep (printNumber : List UInt8 → List UInt8) (io : StepIo) (g : Shared) (c : ℕ)
    (json : OutMsg) : Option ℤ × Shared :=
  let text := (json.text printNumber).bytes
  let r := rtwWsSendText io.send io.client text
  (r.1, { g with
    tech := { g.tech with wire := g.tech.wire ++ [⟨c, json, r.1 = some 0⟩] }
    writes := g.writes ++ [⟨c, io.send.key, text, r.2⟩] })

/-- A call of `rtw_ws_send_text` that never returns leaves its thread where it is. -/
def flushStep (printNumber : List UInt8 → List UInt8) (io : StepIo) (g : Shared) :
    FlushPc → FlushPc × Shared
  | .readWs => (if g.tech.ws = none then .ret else .readReady, g)
  | .readReady => (if g.tech.wsReady then .peek else .ret, g)
  | .peek =>
    let r := rtwSessionPeekOutbound (io.env 0) g.tech.session
    (match r.1 with
      | none => .ret
      | some json => .readArg json, g.withTech { g.tech with session := r.2 })
  | .readArg json => (.send g.tech.ws json, g)
  | .send none _ => (.failed, g)
  | .send (some c) json =>
    let r := sendStep printNumber io g c json
    match r.1 with
    | none => (.send (some c) json, g)
    | some r₁ => (if r₁ = 0 then .drop else .failed, r.2)
  | .failed => (.ret, g.withTech { g.tech with wsReady := false })
  | .drop =>
    (.peek, g.withTech { g.tech with session := (rtwSessionDropOutboundHead g.tech.session).2 })
  | .ret => (.ret, g)

/-- Behind `flush_outbound`: `rtw_bridge_start` creates the worker, the others unlock. -/
def flushReturn (g : Shared) : FlushSite → Pc × Shared
  | .start => (.loop, { g with handedOut := true })
  | site => (.unlock site, g)

/-- Where a thread goes on when there is no client to close, and when it is closed. -/
def closeSkip : CloseSite → Pc
  | .old => .connect
  | .new => .exited
  | .stop => .free

def closeReturn : CloseSite → Pc
  | .old => .connect
  | .new => .exited
  | .stop => .stopClearReady

def closeStep (g : Shared) (site : CloseSite) : ClosePc → Pc × Shared
  | .read => (if g.tech.ws = none then closeSkip site else .close site .arg, g)
  | .arg => (.close site (.closing g.tech.ws), g)
  | .closing c => (.close site .clear, { g with closed := c.toList ++ g.closed })
  | .clear => (closeReturn site, g.withTech { g.tech with ws := none })

def unlockReturn : FlushSite → Pc
  | .start | .loop => .loop
  | .handshake => .count
  | .call => .idle
  | .stop => .close .stop .read
  | .wsText c => .poll c

/-- The section of a call of the media bug or of `pause`; the closing request needs no lock. -/
def mediaCall (io : StepIo) (g : Shared) : Call → Tech
  | .onRead pcm => rtwBridgeOnReadPcm16 ⟨io.ok, io.env, fun _ => true⟩ g.tech pcm
  | .onWrite n => (rtwBridgeOnWritePcm16 ⟨io.ok, io.env, fun _ => true⟩ g.tech n).2
  | .applyWrite pcm => (rtwBridgeApplyWriteFrame ⟨io.ok, io.env, fun _ => true⟩ g.tech pcm).2
  | .pause on => (rtwBridgePause ⟨io.ok, io.env, fun _ => true⟩ g.tech on).2
  | _ => g.tech

def idleStep (io : StepIo) (g : Shared) : Pc × Shared :=
  match io.call with
  | .clear => (.callCheck (clearText g.tech), g)
  | .sendMark name =>
    (if validMarkName name then .callCheck (markMessage g.tech name) else .idle, g)
  | .stop => (.stopCheck, g)
  | .closeRequest => (.idle, g.withTech { g.tech with closeRequested := true })
  | call => (.idle, if g.mutex = none then g.withTech (mediaCall io g call) else g)

/-- One step of a thread at a place of its program. -/
def Pc.step (printNumber : List UInt8 → List UInt8) (t : Thread) (io : StepIo) (g : Shared) :
    Pc → Pc × Shared
  | .flush site .ret => flushReturn g site
  | .flush site f =>
    let r := flushStep printNumber io g f
    (.flush site r.1, r.2)
  | .unlock site => (unlockReturn site, { g with mutex := none })
  | .close site p => closeStep g site p
  | .loop => (if stopping g.tech then .exited else .readWs, g)
  | .readWs => (if g.tech.ws = none then .rereadWs else .readReady, g)
  | .readReady => (if g.tech.wsReady then .pollArg else .rereadWs, g)
  | .rereadWs => (if g.tech.ws = none then .usleep else .rereadReady, g)
  | .rereadReady => (if g.tech.wsReady then .usleep else .begin, g)
  | .usleep => (.checkLoop, g)
  | .pollArg => (.poll g.tech.ws, g)
  | .poll none => (.pollFailed, g)
  | .poll (some c) => match io.poll with
    | .text text => (.textCheck (some c) text, g)
    | .closed => (.poll (some c), g.withTech (onWsClose g.tech))
    | .done => (.checkLoop, g)
    | .failed => (.pollFailed, g)
  | .pollFailed => (.begin, g.withTech { g.tech with wsReady := false })
  | .checkLoop => (if stopping g.tech then .exited else .trylock, g)
  | .trylock =>
    if io.ok = true ∧ g.mutex = none then (.flush .loop .readWs, { g with mutex := some t })
    else (.loop, g)
  | .exited => (.exited, { g with workerDone := true })
  | .textCheck c text => (if stopping g.tech then .poll c else .textLock c text, g)
  | .textLock c text => lock t io g (.textLock c text) (.textHandle c text) (.poll c)
  | .textHandle c text =>
    if stopping g.tech then (.unlock (.wsText c), g)
    else (.flush (.wsText c) .readWs, g.withTech { g.tech with
      session := (rtwSessionHandlePeerJson (io.env 0) g.tech.session text).2 })
  | .begin => match reconnectBegin g.tech with
    | none => (.exited, g)
    | some (_, tech) => (.backoff, g.withTech tech)
  | .backoff => (if sleepInterruptibleMs g.tech 1 then .close .old .read else .exited, g)
  | .connect =>
    if io.ok then (.publish (some g.tech.connections),
      g.withTech { g.tech with connections := g.tech.connections + 1 })
    else (.publish none, g)
  | .publish c => (.readNew, g.withTech { g.tech with ws := c })
  | .readNew => (if g.tech.ws = none then .exited else .checkStop, g)
  | .checkStop => (if stopping g.tech then .close .new .arg else .setReady, g)
  | .setReady => (.handshakeLock, g.withTech (reconnectReady g.tech))
  | .handshakeLock => lock t io g .handshakeLock .handshake .count
  | .handshake =>
    if stopping g.tech then (.unlock .handshake, g)
    else (.flush .handshake .readWs, g.withTech { g.tech with
      session := (rtwSessionRehandshake (io.env 0) g.tech.session).2 })
  | .count => (.loop, g.withTech (reconnectDone g.tech))
  | .idle => idleStep io g
  | .callCheck text => (if g.tech.cleanupStarted then .idle else .callLock text, g)
  | .callLock text => lock t io g (.callLock text) (.callHandle text) .idle
  | .callHandle text => (.flush .call .readWs, g.withTech { g.tech with
      session := (rtwSessionHandlePeerJson (io.env 0) g.tech.session text).2 })
  | .stopCheck => (if g.tech.cleanupStarted then .idle else .stopRequest, g)
  | .stopRequest => (.stopJoin, g.withTech (bridgeStopRequest g.tech))
  | .stopJoin => (if g.workerDone then .stopLock else .stopJoin, g)
  | .stopLock => lock t io g .stopLock .stopSession (.close .stop .read)
  | .stopSession => (.stopReadWs, g.withTech { g.tech with
      session := (rtwSessionStop (io.env 0) g.tech.session).2 })
  | .stopReadWs => (if g.tech.ws = none then .flush .stop .readWs else .stopReady, g)
  | .stopReady => (.flush .stop .readWs, g.withTech { g.tech with wsReady := true })
  | .stopClearReady => (.free, g.withTech { g.tech with wsReady := false })
  | .free => (.idle, { g with freed := true })

def Pc.starting : Pc → Bool
  | .flush .start _ => true
  | _ => false

/-- Until the bridge is handed out only `rtw_bridge_start` runs, and once it is freed
nothing does. -/
def threads (printNumber : List UInt8 → List UInt8) : Threads Thread Pc Shared StepIo where
  step t io pc g :=
    if g.freed = true ∨ (g.handedOut = false ∧ pc.starting = false) then (pc, g)
    else pc.step printNumber t io g

/-- `rtw_bridge_start` with its connection open, about to flush. -/
def startState (tech : Tech) : Threads.State Thread Pc Shared where
  pc t := if t = .worker then .flush .start .readWs else .idle
  shared := ⟨tech, none, false, false, false, [], []⟩

/-! ### The mutex -/

/-- Places under the mutex, and the flush of `rtw_bridge_start`, which has the bridge to itself. -/
def Pc.inSection : Pc → Bool
  | .flush .. | .unlock _ | .textHandle .. | .handshake | .callHandle _ | .stopSession
  | .stopReadWs | .stopReady => true
  | _ => false

/-- Whoever may touch the session. -/
def Shared.owner (g : Shared) : Option Thread := if g.handedOut then g.mutex else some .worker

/-! ### What a step can do -/

/-- In the loop of `flush_outbound`, up to a send that fails. -/
def Pc.inLoop : Pc → Bool
  | .flush _ .peek | .flush _ (.readArg _) | .flush _ (.send ..) | .flush _ .drop => true
  | _ => false

/-- The client that is about to be sent on or closed. -/
def Pc.holds? : Pc → Option ℕ
  | .flush _ (.send c _) => c
  | .close _ (.closing c) => c
  | _ => none

/-- The new client that is about to be stored in `ws`. -/
def Pc.publishes? : Pc → Option ℕ
  | .publish c => c
  | _ => none

/-- From the end of the backoff until the new connection is declared ready. -/
def Pc.reopening : Pc → Bool
  | .close .old _ | .close .new _ | .connect | .publish _ | .readNew | .checkStop
  | .setReady => true
  | _ => false

/-- Inside `try_reconnect`, until the new connection is declared ready. -/
def Pc.down : Pc → Bool
  | .begin | .backoff => true
  | pc => pc.reopening

/-- Places of the worker, and of the thread that starts the bridge. -/
def Pc.ofWorker : Pc → Bool
  | .flush .call _ | .flush .stop _ | .unlock .call | .unlock .stop | .close .stop _ | .idle
  | .callCheck _ | .callLock _ | .callHandle _ | .stopCheck | .stopRequest | .stopJoin | .stopLock
  | .stopSession | .stopReadWs | .stopReady | .stopClearReady | .free => false
  | _ => true

/-- Places of `rtw_bridge_stop`. -/
def Pc.ofStop : Pc → Bool
  | .flush .stop _ | .unlock .stop | .close .stop _ | .stopCheck | .stopRequest | .stopJoin
  | .stopLock | .stopSession | .stopReadWs | .stopReady | .stopClearReady | .free => true
  | _ => false

/-- What the threads know of the socket. -/
structure Socket where
  ws : Option ℕ
  ready : Bool
  connections : ℕ
  closed : List ℕ
  writes : List Write

def Shared.socket (g : Shared) : Socket :=
  ⟨g.tech.ws, g.tech.wsReady, g.tech.connections, g.closed, g.writes⟩

def Write.frame (w : Write) : List UInt8 := wireFrame 0x81 (some w.key) w.text

/-- A send that stopped in the middle of its frame. -/
def Write.cut (w : Write) : Prop := w.bytes ≠ [] ∧ w.bytes ≠ w.frame

instance (w : Write) : Decidable w.cut := inferInstanceAs (Decidable (_ ∧ _))

/-- A prefix of the frame, and nothing at all of a text that is too long for one. -/
def Write.Sound (w : Write) : Prop :=
  w.bytes <+: w.frame ∧ (w.bytes = [] ∨ w.text.length < 65536)

/-- The effects a step of a thread from `pc` to `pc'` can have on the socket. -/
inductive SocketStep : Pc → Socket → Pc → Socket → Prop
  | same (pc k pc') : SocketStep pc k pc' k
  | down (pc k pc') : SocketStep pc k pc' { k with ready := false }
  | sent (site c json w k) (hc : w.connection = c) (hw : w.Sound) (hcut : ¬ w.cut) :
    SocketStep (.flush site (.send (some c) json)) k (.flush site .drop)
      { k with writes := k.writes ++ [w] }
  | failed (site c json w k) (hc : w.connection = c) (hw : w.Sound) :
    SocketStep (.flush site (.send (some c) json)) k (.flush site .failed)
      { k with writes := k.writes ++ [w] }
  | close (site c k) : SocketStep (.close site (.closing c)) k (.close site .clear)
      { k with closed := c.toList ++ k.closed }
  | clear (site k pc') : SocketStep (.close site .clear) k pc' { k with ws := none }
  | connect (k) : SocketStep .connect k (.publish (some k.connections))
      { k with connections := k.connections + 1 }
  | publish (c k) : SocketStep (.publish c) k .readNew { k with ws := c }
  | setReady (k) : SocketStep .setReady k .handshakeLock { k with ready := true }
  | stopReady (k) : SocketStep .stopReady k (.flush .stop .readWs) { k with ready := true }

/-- Everything the proofs need to know of a step of thread `t`. -/
structure StepSpec (t : Thread) (g : Shared) (pc : Pc) (r : Pc × Shared) : Prop where
  enter : pc.inSection = false → r.1.inSection = true →
    g.mutex = none ∧ r.2.mutex = some t ∧ r.2.handedOut = g.handedOut
  keep : r.1.inSection = pc.inSection → r.2.owner = g.owner
  socket : SocketStep pc g.socket r.1 r.2.socket
  inLoop : r.1.inLoop = true →
    pc.inLoop = true ∨ ((∃ site, pc = .flush site .readReady) ∧ g.tech.wsReady = true)
  holds : ∀ c, r.1.holds? = some c → pc.holds? = some c ∨ g.tech.ws = some c
  publishes : ∀ c, r.1.publishes? = some c → pc = .connect ∧ c = g.tech.connections ∧
    r.2.tech.connections = g.tech.connections + 1
  reopening : r.1.reopening = true → pc.reopening = true ∨ pc = .backoff
  down : r.1.down = true → pc.down = true ∨ r.2.tech.wsReady = false
  ofWorker : r.1.ofWorker = pc.ofWorker

/-- A place outside of everything the other threads have to care about. -/
structure Pc.Plain (pc : Pc) : Prop where
  inSection : pc.inSection = false
  inLoop : pc.inLoop = false
  holds : pc.holds? = none
  publishes : pc.publishes? = none
  reopening : pc.reopening = false
  down : pc.down = false

/-- A step to such a place. -/
theorem StepSpec.plain {t : Thread} {g g' : Shared} {pc pc' : Pc} (hpc : pc'.Plain)
    (hrole : pc'.ofWorker = pc.ofWorker) (hsocket : SocketStep pc g.socket pc' g'.socket)
    (howner : pc.inSection = false → g'.owner = g.owner) : StepSpec t g pc (pc', g') := by
  constructor
  · intro _ h
    cases hpc.inSection.symm.trans h
  · intro h
    exact howner (h.symm.trans hpc.inSection)
  · exact hsocket
  · intro h
    cases hpc.inLoop.symm.trans h
  · intro c h
    cases hpc.holds.symm.trans h
  · intro c h
    cases hpc.publishes.symm.trans h
  · intro h
    cases hpc.reopening.symm.trans h
  · intro h
    cases hpc.down.symm.trans h
  · exact hrole

/-- A step within a section or a flush that touches only the session. -/
theorem StepSpec.inside {t : Thread} {g g' : Shared} {pc pc' : Pc}
    (hin : pc.inSection = true)
    (hdown : pc'.down = false ∧ pc'.reopening = false) (hpub : pc'.publishes? = none)
    (hrole : pc'.ofWorker = pc.ofWorker) (hsocket : SocketStep pc g.socket pc' g'.socket)
    (howner : g'.owner = g.owner)
    (hloop : pc'.inLoop = true →
      pc.inLoop = true ∨ ((∃ site, pc = .flush site .readReady) ∧ g.tech.wsReady = true))
    (hholds : ∀ c, pc'.holds? = some c → pc.holds? = some c ∨ g.tech.ws = some c) :
    StepSpec t g pc (pc', g') := by
  constructor
  · intro h
    cases hin.symm.trans h
  · intro _
    exact howner
  · exact hsocket
  · exact hloop
  · exact hholds
  · intro c h
    cases hpub.symm.trans h
  · intro h
    cases hdown.2.symm.trans h
  · intro h
    cases hdown.1.symm.trans h
  · exact hrole

/-- A step inside `try_reconnect`. -/
theorem StepSpec.reconnect {t : Thread} {g g' : Shared} {pc pc' : Pc}
    (hout : pc'.inSection = false ∧ pc'.inLoop = false)
    (hre : pc'.reopening = true → pc.reopening = true ∨ pc = .backoff)
    (hdown : pc.down = true ∨ g'.tech.wsReady = false)
    (hpub : ∀ c, pc'.publishes? = some c → pc = .connect ∧ c = g.tech.connections ∧
      g'.tech.connections = g.tech.connections + 1)
    (hrole : pc'.ofWorker = pc.ofWorker) (hsocket : SocketStep pc g.socket pc' g'.socket)
    (howner : g'.owner = g.owner)
    (hholds : ∀ c, pc'.holds? = some c → g.tech.ws = some c) : StepSpec t g pc (pc', g') := by
  constructor
  · intro _ h
    cases hout.1.symm.trans h
  · intro _
    exact howner
  · exact hsocket
  · intro h
    cases hout.2.symm.trans h
  · intro c h
    exact Or.inr (hholds c h)
  · exact hpub
  · exact hre
  · intro _
    exact hdown
  · exact hrole

/-- A place under the mutex, before the flush. -/
structure Pc.Entered (pc : Pc) : Prop where
  inSection : pc.inSection = true
  inLoop : pc.inLoop = false
  holds : pc.holds? = none
  publishes : pc.publishes? = none
  reopening : pc.reopening = false
  down : pc.down = false

theorem StepSpec.enters {t : Thread} {g : Shared} {pc pc' : Pc} (hfree : g.mutex = none)
    (hpc : pc.inSection = false) (hin : pc'.Entered) (hrole : pc'.ofWorker = pc.ofWorker) :
    StepSpec t g pc (pc', { g with mutex := some t }) := by
  constructor
  · intro _ _
    exact ⟨hfree, rfl, rfl⟩
  · intro h
    rw [hpc, hin.inSection] at h
    cases h
  · exact .same ..
  · intro h
    cases hin.inLoop.symm.trans h
  · intro c h
    cases hin.holds.symm.trans h
  · intro c h
    cases hin.publishes.symm.trans h
  · intro h
    cases hin.reopening.symm.trans h
  · intro h
    cases hin.down.symm.trans h
  · exact hrole

theorem StepSpec.lock (t : Thread) (io : StepIo) (g : Shared) {pc inside failed : Pc}
    (hpc : pc.Plain) (hin : inside.Entered) (hfail : failed.Plain)
    (hrole : inside.ofWorker = pc.ofWorker) (hrole' : failed.ofWorker = pc.ofWorker) :
    StepSpec t g pc (lock t io g pc inside failed) := by
  unfold RealtimeWs.Mod.lock
  split
  · exact .plain hfail hrole' (.same ..) fun _ => rfl
  · split
    · rename_i hfree
      exact .enters hfree hpc.inSection hin hrole
    · exact .plain hpc rfl (.same ..) fun _ => rfl

variable (printNumber : List UInt8 → List UInt8)

theorem sendStep_spec (io : StepIo) (g : Shared) (c : ℕ) (json : OutMsg) :
    ∃ w, (sendStep printNumber io g c json).2.socket =
        { g.socket with writes := g.socket.writes ++ [w] } ∧ w.connection = c ∧ w.Sound ∧
      ((sendStep printNumber io g c json).1 = some 0 → ¬ w.cut) ∧
        (sendStep printNumber io g c json).2.owner = g.owner := by
  refine ⟨_, rfl, rfl, ?_, ?_, rfl⟩
  · by_cases hlen : (json.text printNumber).bytes.length < 65536
    · exact ⟨(rtwWsSendText_spec io.send io.client hlen).1, Or.inr hlen⟩
    · have hnone : (rtwWsSendText io.send io.client (json.text printNumber).bytes).2 = [] := by
        rw [rtwWsSendText_long io.send io.client (Nat.le_of_not_lt hlen)]
      exact ⟨hnone ▸ List.nil_prefix, Or.inl hnone⟩
  · intro hok hcut
    have hok : (rtwWsSendText io.send io.client (json.text printNumber).bytes).1 = some 0 := hok
    by_cases hlen : (json.text printNumber).bytes.length < 65536
    · exact hcut.2 (((rtwWsSendText_spec io.send io.client hlen).2).mp hok)
    · rw [rtwWsSendText_long io.send io.client (Nat.le_of_not_lt hlen)] at hok
      cases hok

theorem StepSpec.flush (t : Thread) (io : StepIo) (g : Shared) (site : FlushSite) (f : FlushPc) :
    StepSpec t g (.flush site f) (Pc.step printNumber t io g (.flush site f)) := by
  -- leaving the loop, or staying out of it
  have hout : ∀ {f' g'}, Pc.inLoop (.flush site f') = false → Pc.holds? (.flush site f') = none →
      SocketStep (.flush site f) g.socket (.flush site f') g'.socket → g'.owner = g.owner →
        StepSpec t g (.flush site f) (.flush site f', g') := by
    intro f' g' hloop hholds hsocket howner
    refine .inside rfl ⟨rfl, rfl⟩ rfl (by cases site <;> rfl) hsocket howner ?_ ?_
    · intro h
      cases hloop.symm.trans h
    · intro c h
      cases hholds.symm.trans h
  -- going on in the loop
  have hin : ∀ {f' g'}, Pc.inLoop (.flush site f) = true → Pc.holds? (.flush site f') = none →
      SocketStep (.flush site f) g.socket (.flush site f') g'.socket → g'.owner = g.owner →
        StepSpec t g (.flush site f) (.flush site f', g') := by
    intro f' g' hloop hholds hsocket howner
    refine .inside rfl ⟨rfl, rfl⟩ rfl (by cases site <;> rfl) hsocket howner ?_ ?_
    · intro _
      exact Or.inl hloop
    · intro c h
      cases hholds.symm.trans h
  cases f with
  | readWs =>
    simp only [Pc.step, flushStep]
    split
    · exact hout rfl rfl (.same ..) rfl
    · exact hout rfl rfl (.same ..) rfl
  | readReady =>
    simp only [Pc.step, flushStep]
    split
    · rename_i hready
      refine .inside rfl ⟨rfl, rfl⟩ rfl (by cases site <;> rfl) (.same ..) rfl ?_ ?_
      · intro _
        exact Or.inr ⟨⟨site, rfl⟩, hready⟩
      · intro c h
        cases h
    · exact hout rfl rfl (.same ..) rfl
  | peek =>
    simp only [Pc.step, flushStep]
    split
    · exact hin rfl rfl (.same ..) rfl
    · exact hin rfl rfl (.same ..) rfl
  | readArg json =>
    refine .inside rfl ⟨rfl, rfl⟩ rfl (by cases site <;> rfl) (.same ..) rfl ?_ ?_
    · intro _
      exact Or.inl rfl
    · intro c h
      exact Or.inr h
  | send c json =>
    cases c with
    | none => exact hout rfl rfl (.same ..) rfl
    | some c =>
      obtain ⟨w, hsocket, hc, hw, hcut, howner⟩ := sendStep_spec printNumber io g c json
      simp only [Pc.step, flushStep]
      cases hr : (sendStep printNumber io g c json).1 with
      | none =>
        refine .inside rfl ⟨rfl, rfl⟩ rfl (by cases site <;> rfl) (.same ..) rfl ?_ ?_
        · intro _
          exact Or.inl rfl
        · intro c h
          exact Or.inl h
      | some r =>
        by_cases hzero : r = 0
        · subst hzero
          simp only [if_true]
          refine hin rfl rfl ?_ howner
          rw [hsocket]
          exact .sent _ _ _ _ _ hc hw (hcut hr)
        · simp only [if_neg hzero]
          refine hout rfl rfl ?_ howner
          rw [hsocket]
          exact .failed _ _ _ _ _ hc hw
  | failed => exact hout rfl rfl (.down ..) rfl
  | drop => exact hin rfl rfl (.same ..) rfl
  | ret =>
    cases site with
    | start => exact .plain ⟨rfl, rfl, rfl, rfl, rfl, rfl⟩ rfl (.same ..) (by intro h; cases h)
    | _ =>
      refine .inside rfl ⟨rfl, rfl⟩ rfl rfl (.same ..) rfl ?_ ?_
      · intro h
        cases h
      · intro c h
        cases h

/-- The calls of the media bug and of `pause` do not touch the socket. -/
theorem mediaCall_silent (io : StepIo) (g : Shared) (call : Call) :
    Silent g.tech (mediaCall io g call) := by
  cases call with
  | onRead pcm => exact silent_onRead _ _ _
  | onWrite n => exact silent_onWrite _ _ _
  | applyWrite pcm => exact silent_applyWrite _ _ _
  | pause on => exact silent_pause _ _ _
  | _ => exact .refl _

theorem StepSpec.idle (t : Thread) (io : StepIo) (g : Shared) :
    StepSpec t g .idle (idleStep io g) := by
  have hmedia : ∀ call, SocketStep .idle g.socket .idle
      (g.withTech (mediaCall io g call)).socket := by
    intro call
    have hs := mediaCall_silent io g call
    have heq : (g.withTech (mediaCall io g call)).socket = g.socket := by
      simp only [Shared.socket, Shared.withTech, hs.ws, hs.wsReady, hs.connections]
    rw [heq]
    exact .same ..
  unfold idleStep
  cases io.call with
  | clear => exact .plain ⟨rfl, rfl, rfl, rfl, rfl, rfl⟩ rfl (.same ..) fun _ => rfl
  | stop => exact .plain ⟨rfl, rfl, rfl, rfl, rfl, rfl⟩ rfl (.same ..) fun _ => rfl
  | closeRequest => exact .plain ⟨rfl, rfl, rfl, rfl, rfl, rfl⟩ rfl (.same ..) fun _ => rfl
  | sendMark name =>
    simp only
    split
    · exact .plain ⟨rfl, rfl, rfl, rfl, rfl, rfl⟩ rfl (.same ..) fun _ => rfl
    · exact .plain ⟨rfl, rfl, rfl, rfl, rfl, rfl⟩ rfl (.same ..) fun _ => rfl
  | _ =>
    simp only
    split
    · exact .plain ⟨rfl, rfl, rfl, rfl, rfl, rfl⟩ rfl (hmedia _) fun _ => rfl
    · exact .plain ⟨rfl, rfl, rfl, rfl, rfl, rfl⟩ rfl (.same ..) fun _ => rfl

/-- Closing the old or the new client happens inside `try_reconnect`. -/
theorem StepSpec.close (t : Thread) (g : Shared) (site : CloseSite) (p : ClosePc) :
    StepSpec t g (.close site p) (closeStep g site p) := by
  have hstay : ∀ {p' g'}, (∀ c, Pc.holds? (.close site p') = some c → g.tech.ws = some c) →
      SocketStep (.close site p) g.socket (.close site p') g'.socket → g'.owner = g.owner →
        StepSpec t g (.close site p) (.close site p', g') := by
    intro p' g' hholds hsocket howner
    cases site with
    | stop =>
      constructor
      · intro _ h
        cases h
      · intro _
        exact howner
      · exact hsocket
      · intro h
        cases h
      · intro c h
        exact Or.inr (hholds c h)
      · intro c h
        cases h
      · intro h
        cases h
      · intro h
        cases h
      · rfl
    | _ =>
      refine .reconnect ⟨rfl, rfl⟩ (fun _ => Or.inl rfl) (Or.inl rfl) ?_ rfl hsocket howner hholds
      intro c h
      cases h
  have hleave : ∀ {pc' g'}, pc' = closeSkip site ∨ pc' = closeReturn site →
      SocketStep (.close site p) g.socket pc' g'.socket → g'.owner = g.owner →
        StepSpec t g (.close site p) (pc', g') := by
    intro pc' g' hpc hsocket howner
    cases site with
    | old =>
      have hpc : pc' = .connect := hpc.elim id id
      subst hpc
      refine .reconnect ⟨rfl, rfl⟩ (fun _ => Or.inl rfl) (Or.inl rfl) ?_ rfl hsocket howner ?_
      · intro c h
        cases h
      · intro c h
        cases h
    | new =>
      have hpc : pc' = .exited := hpc.elim id id
      subst hpc
      exact .plain ⟨rfl, rfl, rfl, rfl, rfl, rfl⟩ rfl hsocket fun _ => howner
    | stop =>
      rcases hpc with rfl | rfl
      · exact .plain ⟨rfl, rfl, rfl, rfl, rfl, rfl⟩ rfl hsocket fun _ => howner
      · exact .plain ⟨rfl, rfl, rfl, rfl, rfl, rfl⟩ rfl hsocket fun _ => howner
  cases p with
  | read =>
    simp only [closeStep]
    split
    · exact hleave (Or.inl rfl) (.same ..) rfl
    · refine hstay ?_ (.same ..) rfl
      intro c h
      cases h
  | arg => exact hstay (fun c h => h) (.same ..) rfl
  | closing c =>
    refine hstay ?_ (.close ..) rfl
    intro c h
    cases h
  | clear => exact hleave (Or.inr rfl) (.clear ..) rfl

/-- What a step of a thread can do, at every place of the program. -/
theorem step_spec (t : Thread) (io : StepIo) (g : Shared) (pc : Pc) :
    StepSpec t g pc (pc.step printNumber t io g) := by
  have hplain : ∀ {pc' : Pc} {g'}, pc'.Plain → pc'.ofWorker = pc.ofWorker →
      g'.socket = g.socket → g'.owner = g.owner → StepSpec t g pc (pc', g') := by
    intro pc' g' hpc hrole hsocket howner
    refine .plain hpc hrole ?_ fun _ => howner
    rw [hsocket]
    exact .same ..
  have hunder : ∀ {pc' : Pc} {g'}, pc.inSection = true → pc'.Entered →
      pc'.ofWorker = pc.ofWorker → SocketStep pc g.socket pc' g'.socket →
        g'.owner = g.owner → StepSpec t g pc (pc', g') := by
    intro pc' g' hin hpc hrole hsocket howner
    refine .inside hin ⟨hpc.down, hpc.reopening⟩ hpc.publishes hrole hsocket howner ?_ ?_
    · intro h
      cases hpc.inLoop.symm.trans h
    · intro c h
      cases hpc.holds.symm.trans h
  have hdown : ∀ {pc' : Pc} {g'}, pc'.inSection = false ∧ pc'.inLoop = false →
      pc'.holds? = none →
      (pc'.reopening = true → pc.reopening = true ∨ pc = .backoff) →
        (pc.down = true ∨ g'.tech.wsReady = false) → pc'.publishes? = none →
          pc'.ofWorker = pc.ofWorker → SocketStep pc g.socket pc' g'.socket →
            g'.owner = g.owner → StepSpec t g pc (pc', g') := by
    intro pc' g' hout hholds hre hdown hpub hrole hsocket howner
    refine .reconnect hout hre hdown ?_ hrole hsocket howner ?_
    · intro c h
      cases hpub.symm.trans h
    · intro c h
      cases hholds.symm.trans h
  cases pc with
  | flush site f => exact .flush printNumber t io g site f
  | close site p => exact .close t g site p
  | idle => exact .idle t io g
  | unlock site =>
    cases site <;>
      exact .plain ⟨rfl, rfl, rfl, rfl, rfl, rfl⟩ rfl (.same ..) (by intro h; cases h)
  | poll c =>
    cases c with
    | none => exact hplain ⟨rfl, rfl, rfl, rfl, rfl, rfl⟩ rfl rfl rfl
    | some c =>
      simp only [Pc.step]
      split
      · exact hplain ⟨rfl, rfl, rfl, rfl, rfl, rfl⟩ rfl rfl rfl
      · exact .plain ⟨rfl, rfl, rfl, rfl, rfl, rfl⟩ rfl (.down ..) fun _ => rfl
      · exact hplain ⟨rfl, rfl, rfl, rfl, rfl, rfl⟩ rfl rfl rfl
      · exact hplain ⟨rfl, rfl, rfl, rfl, rfl, rfl⟩ rfl rfl rfl
  | textLock c text =>
    exact .lock t io g ⟨rfl, rfl, rfl, rfl, rfl, rfl⟩ ⟨rfl, rfl, rfl, rfl, rfl, rfl⟩
      ⟨rfl, rfl, rfl, rfl, rfl, rfl⟩ rfl rfl
  | callLock text =>
    exact .lock t io g ⟨rfl, rfl, rfl, rfl, rfl, rfl⟩ ⟨rfl, rfl, rfl, rfl, rfl, rfl⟩
      ⟨rfl, rfl, rfl, rfl, rfl, rfl⟩ rfl rfl
  | handshakeLock =>
    exact .lock t io g ⟨rfl, rfl, rfl, rfl, rfl, rfl⟩ ⟨rfl, rfl, rfl, rfl, rfl, rfl⟩
      ⟨rfl, rfl, rfl, rfl, rfl, rfl⟩ rfl rfl
  | stopLock =>
    exact .lock t io g ⟨rfl, rfl, rfl, rfl, rfl, rfl⟩ ⟨rfl, rfl, rfl, rfl, rfl, rfl⟩
      ⟨rfl, rfl, rfl, rfl, rfl, rfl⟩ rfl rfl
  | trylock =>
    simp only [Pc.step]
    split
    · rename_i hfree
      exact .enters hfree.2 rfl ⟨rfl, rfl, rfl, rfl, rfl, rfl⟩ rfl
    · exact hplain ⟨rfl, rfl, rfl, rfl, rfl, rfl⟩ rfl rfl rfl
  -- the session is called under the mutex
  | textHandle c text =>
    simp only [Pc.step]
    split
    · exact hunder rfl ⟨rfl, rfl, rfl, rfl, rfl, rfl⟩ rfl (.same ..) rfl
    · exact hunder rfl ⟨rfl, rfl, rfl, rfl, rfl, rfl⟩ rfl (.same ..) rfl
  | handshake =>
    simp only [Pc.step]
    split
    · exact hunder rfl ⟨rfl, rfl, rfl, rfl, rfl, rfl⟩ rfl (.same ..) rfl
    · exact hunder rfl ⟨rfl, rfl, rfl, rfl, rfl, rfl⟩ rfl (.same ..) rfl
  | callHandle text => exact hunder rfl ⟨rfl, rfl, rfl, rfl, rfl, rfl⟩ rfl (.same ..) rfl
  | stopSession => exact hunder rfl ⟨rfl, rfl, rfl, rfl, rfl, rfl⟩ rfl (.same ..) rfl
  | stopReadWs =>
    simp only [Pc.step]
    split
    · exact hunder rfl ⟨rfl, rfl, rfl, rfl, rfl, rfl⟩ rfl (.same ..) rfl
    · exact hunder rfl ⟨rfl, rfl, rfl, rfl, rfl, rfl⟩ rfl (.same ..) rfl
  | stopReady => exact hunder rfl ⟨rfl, rfl, rfl, rfl, rfl, rfl⟩ rfl (.stopReady _) rfl
  -- `try_reconnect`
  | rereadReady =>
    simp only [Pc.step]
    split
    · exact hplain ⟨rfl, rfl, rfl, rfl, rfl, rfl⟩ rfl rfl rfl
    · rename_i hready
      exact hdown ⟨rfl, rfl⟩ rfl (fun h => by cases h) (Or.inr (by simpa using hready)) rfl rfl (.same ..) rfl
  | pollFailed => exact hdown ⟨rfl, rfl⟩ rfl (fun h => by cases h) (Or.inr rfl) rfl rfl (.down ..) rfl
  | begin =>
    simp only [Pc.step]
    rcases reconnectBegin_cases g.tech with hb | ⟨wait, hb⟩
    · rw [hb]
      exact hplain ⟨rfl, rfl, rfl, rfl, rfl, rfl⟩ rfl rfl rfl
    · rw [hb]
      exact hdown ⟨rfl, rfl⟩ rfl (fun h => by cases h) (Or.inl rfl) rfl rfl (.same ..) rfl
  | backoff =>
    simp only [Pc.step]
    split
    · exact hdown ⟨rfl, rfl⟩ rfl (fun _ => Or.inr rfl) (Or.inl rfl) rfl rfl (.same ..) rfl
    · exact hplain ⟨rfl, rfl, rfl, rfl, rfl, rfl⟩ rfl rfl rfl
  | connect =>
    simp only [Pc.step]
    split
    · refine .reconnect ⟨rfl, rfl⟩ (fun _ => Or.inl rfl) (Or.inl rfl) ?_ rfl (.connect _) rfl ?_
      · intro c h
        cases h
        exact ⟨rfl, rfl, rfl⟩
      · intro c h
        cases h
    · exact hdown ⟨rfl, rfl⟩ rfl (fun _ => Or.inl rfl) (Or.inl rfl) rfl rfl (.same ..) rfl
  | publish c => exact hdown ⟨rfl, rfl⟩ rfl (fun _ => Or.inl rfl) (Or.inl rfl) rfl rfl (.publish ..) rfl
  | readNew =>
    simp only [Pc.step]
    split
    · exact hplain ⟨rfl, rfl, rfl, rfl, rfl, rfl⟩ rfl rfl rfl
    · exact hdown ⟨rfl, rfl⟩ rfl (fun _ => Or.inl rfl) (Or.inl rfl) rfl rfl (.same ..) rfl
  | checkStop =>
    simp only [Pc.step]
    split
    · exact hdown ⟨rfl, rfl⟩ rfl (fun _ => Or.inl rfl) (Or.inl rfl) rfl rfl (.same ..) rfl
    · exact hdown ⟨rfl, rfl⟩ rfl (fun _ => Or.inl rfl) (Or.inl rfl) rfl rfl (.same ..) rfl
  | setReady => exact .plain ⟨rfl, rfl, rfl, rfl, rfl, rfl⟩ rfl (.setReady _) fun _ => rfl
  | stopClearReady => exact .plain ⟨rfl, rfl, rfl, rfl, rfl, rfl⟩ rfl (.down ..) fun _ => rfl
  | loop | readWs | readReady | rereadWs | checkLoop | textCheck | callCheck | stopCheck
  | stopJoin =>
    simp only [Pc.step]
    split
    · exact hplain ⟨rfl, rfl, rfl, rfl, rfl, rfl⟩ rfl rfl rfl
    · exact hplain ⟨rfl, rfl, rfl, rfl, rfl, rfl⟩ rfl rfl rfl
  | usleep | pollArg | exited | count | stopRequest | free =>
    exact hplain ⟨rfl, rfl, rfl, rfl, rfl, rfl⟩ rfl rfl rfl

/-- A thread that may not run stays where it is. -/
theorem threads_step (t : Thread) (io : StepIo) (pc : Pc) (g : Shared) :
    (threads printNumber).step t io pc g = (pc, g) ∨
      ((g.handedOut = true ∨ pc.starting = true) ∧
        StepSpec t g pc ((threads printNumber).step t io pc g)) := by
  simp only [threads]
  split
  · exact Or.inl rfl
  · rename_i hrun
    refine Or.inr ⟨?_, step_spec printNumber t io g pc⟩
    by_contra hno
    obtain ⟨hout, hstart⟩ := not_or.mp hno
    exact hrun (Or.inr ⟨Bool.eq_false_iff.mpr hout, Bool.eq_false_iff.mpr hstart⟩)

theorem threads_guards : (threads printNumber).Guards Shared.owner Pc.inSection := by
  constructor
  · intro t io pc g hout hin
    rcases threads_step printNumber t io pc g with hstay | ⟨hrun, hspec⟩
    · rw [hstay] at hin
      cases hout.symm.trans hin
    · obtain ⟨hfree, htaken, hsame⟩ := hspec.enter hout hin
      have hhanded : g.handedOut = true := by
        refine hrun.resolve_right fun hstart => ?_
        cases pc <;> first | cases hstart | cases hout
      constructor
      · rw [Shared.owner, if_pos hhanded]
        exact hfree
      · rw [Shared.owner, if_pos (hsame.trans hhanded)]
        exact htaken
  · intro t io pc g hsame
    rcases threads_step printNumber t io pc g with hstay | ⟨-, hspec⟩
    · rw [hstay]
    · exact hspec.keep hsame

/-- At every moment at most one thread is in a section. -/
theorem startState_exclusive (tech : Tech) :
    Threads.Exclusive Shared.owner Pc.inSection (startState tech) := by
  intro t ht
  by_cases hw : t = .worker
  · subst hw
    rfl
  · have hidle : (startState tech).pc t = .idle := if_neg hw
    rw [hidle] at ht
    cases ht

end RealtimeWs.Mod
