import RealtimeWs.Mod.StartMemory
import RealtimeWs.Mod.World

/-! The memory of a bridge at work: what every call and every step of the worker takes, uses
and gives back, up to the end of `rtw_bridge_stop`. -/
namespace RealtimeWs.Mod

open RealtimeWs.Core Ledger

/-- What an event of the bridge meets beside its `Io`. -/
structure EventMemIo where
  mem : MemIo
  net : ConnectIo
  grow : Option Bool

namespace Mem

/-! ### Sections under the mutex -/

/-- A section takes the mutex of the bridge and then works on it. -/
def lockTech (m : TechMem) : Heap Unit := do
  use m.block
  use m.mutex

def handleAndFlush (io : Io) (mio : MemIo) (t : Tech) (text : CStr) (m : TechMem) :
    Heap TechMem := do
  let session ← Core.Mem.rtwSessionHandlePeerJson (io.env 0) (mio.allocs 0) t.session text m.session
  flushOutbound io.tail mio.tail
    { t with session := (rtwSessionHandlePeerJson (io.env 0) t.session text).2 }
    { m with session := session }

def onWsText (io : Io) (mio : MemIo) (t : Tech) (text : CStr) (m : TechMem) : Heap TechMem := do
  use m.block
  if stopping t then return m
  else do
    use m.mutex
    if io.locked = false then return m else handleAndFlush io mio t text m

/-- The copy of a text in `process_frames`, around the call of `on_ws_text`. -/
def deliverText (io : Io) (mio : MemIo) (t : Tech) (text : CStr) (m : TechMem) :
    Heap TechMem := do
  match ← acquire true .block with
  | none => return m
  | some copy => do
    use copy
    let m ← onWsText io mio t text m
    release copy
    return m

def rtwBridgeClear (io : Io) (mio : MemIo) (t : Tech) (m : TechMem) : Heap TechMem := do
  lockTech m
  if t.cleanupStarted then return m
  else if io.locked = false then return m
  else handleAndFlush io mio t (clearText t) m

def rtwBridgeSendMark (io : Io) (mio : MemIo) (t : Tech) (name : CStr) (m : TechMem) :
    Heap TechMem := do
  lockTech m
  if t.cleanupStarted ∨ validMarkName name = false then return m
  else if io.locked = false then return m
  else handleAndFlush io mio t (markMessage t name) m

def rtwBridgePause (m : TechMem) : Heap TechMem := do
  lockTech m
  return m

/-- The common end of both loop bodies of `rtw_bridge_on_read_pcm16`. -/
def holdSample (env : Env) (allocs : ℕ → BuildAllocs) (t : Tech) (sample : Int16) (m : SessionMem) :
    Heap SessionMem :=
  if 160 ≤ (heldWith t sample).length then
    Core.Mem.rtwSessionPushPcm16 env allocs t.session ((heldWith t sample).take 160) m
  else return m

def holdSamples (io : Io) (mio : MemIo) : ℕ → List Int16 → Tech → SessionMem → Heap SessionMem
  | _, [], _, m => return m
  | i, sample :: samples, t, m => do
    let m ← holdSample (io.env i) (mio.allocs i) t sample m
    holdSamples io mio (i + 1) samples (Mod.holdSample (io.env i) t sample) m

def holdFrame (io : Io) (mio : MemIo) (samples : List Int16) (t : Tech) (m : TechMem) :
    Heap TechMem := do
  let session ← holdSamples io mio 0 samples t m.session
  return { m with session := session }

def rtwBridgeOnReadPcm16 (io : Io) (mio : MemIo) (t : Tech) (pcm : List Int16) (m : TechMem) :
    Heap TechMem := do
  lockTech m
  if stopping t ∨ t.audioPaused then return m
  else if io.locked = false then return m
  else if 2 ≤ t.channels then holdFrame io mio (stereoSamples t.sampling pcm) t m
  else holdFrame io mio (monoSamples t.sampling pcm) t m

/-- Both write paths read the playout buffer under the mutex. -/
def takePlayout (m : TechMem) : Heap TechMem := do
  lockTech m
  Core.Mem.rtwSessionReadPlayout m.session
  return m

/-! ### Reconnecting and stopping -/

def reconnectClose (m : TechMem) : Heap TechMem := do
  closeWs m.ws
  return { m with ws := none }

def reconnectConnect (openssl : Bool) (net : ConnectIo) (m : TechMem) : Heap TechMem := do
  let ws ← Core.Mem.rtwWsConnectEx net openssl m.wsUri m.headers
  return { m with ws := ws }

def reconnectHandshake (io : Io) (mio : MemIo) (t : Tech) (m : TechMem) : Heap TechMem := do
  lockTech m
  if io.locked = true ∧ stopping t = false then do
    let r ← Core.Mem.rtwSessionRehandshake (io.env 0) (mio.allocs 0) t.session m.session
    flushOutbound io.tail mio.tail
      { t with session := (rtwSessionRehandshake (io.env 0) t.session).2 }
      { m with session := r.2 }
  else return m

/-- The last section of `rtw_bridge_stop`. -/
def stopSection (io : Io) (mio : MemIo) (t : Tech) (m : TechMem) : Heap TechMem := do
  lockTech m
  if io.locked then do
    let r ← Core.Mem.rtwSessionStop (io.env 0) (mio.allocs 0) t.session m.session
    flushOutbound io.tail mio.tail
      { t with
        session := (rtwSessionStop (io.env 0) t.session).2
        wsReady := t.ws.isSome || t.wsReady }
      { m with session := r.2 }
  else return m

/-- `rtw_bridge_stop` from the join on. -/
def bridgeStopFinish (io : Io) (mio : MemIo) (t : Tech) (m : TechMem) : Heap Unit := do
  use m.block
  release? m.worker
  let m ← stopSection io mio t { m with worker := none }
  closeWs m.ws
  Core.Mem.rtwSessionDestroy m.session
  freeShell m.block m.mutex m.extraHeaders m.peerCustomParams

/-! ### Events -/

def growRx (grow : Option Bool) (m : TechMem) : Heap TechMem :=
  match m.ws with
  | none => return m
  | some c => do
    let c ← Core.Mem.ensureRxCap grow c
    return { m with ws := some c }

/-- The worker's steps, each taken only at its place in the code. -/
def workerStep (openssl : Bool) (x : EventMemIo) (w : World) (m : TechMem) :
    WorldEvent → Heap TechMem
  | .wsText io text =>
    if w.pc = .loop ∧ w.tech.ws.isSome then deliverText io x.mem w.tech text m else return m
  | .polled => if w.pc = .loop ∧ stopping w.tech = false then growRx x.grow m else return m
  | .flush io =>
    if w.pc = .sending then do
      lockTech m
      if io.locked then flushOutbound io x.mem w.tech m else return m
    else return m
  | .closeOld => if w.pc = .reopen then reconnectClose m else return m
  | .connect _ => if w.pc = .opening then reconnectConnect openssl x.net m else return m
  | .check => if w.pc = .opened ∧ stopping w.tech then reconnectClose m else return m
  | .rehandshake io =>
    if w.pc = .ready then reconnectHandshake io x.mem w.tech m else return m
  | _ => return m

/-- An event of a bridge that is not freed; `none` when it frees it. -/
def event (openssl : Bool) (x : EventMemIo) (w : World) (m : TechMem) :
    WorldEvent → Heap (Option TechMem)
  | .onRead io pcm => some <$> rtwBridgeOnReadPcm16 io x.mem w.tech pcm m
  | .onWrite _ _ => some <$> takePlayout m
  | .applyWrite _ _ => some <$> takePlayout m
  | .clear io => some <$> rtwBridgeClear io x.mem w.tech m
  | .sendMark io name => some <$> rtwBridgeSendMark io x.mem w.tech name m
  | .pause _ _ => some <$> rtwBridgePause m
  | .stopFinish io =>
    if w.pc = .exited ∧ w.tech.cleanupStarted then do
      bridgeStopFinish io x.mem w.tech m
      return none
    else return some m
  | e => some <$> workerStep openssl x w m e

/-- Every event reads the bridge. -/
def step (openssl : Bool) (x : EventMemIo) (w : World) (m : TechMem) (e : WorldEvent) :
    Heap (Option TechMem) := do
  use m.block
  event openssl x w m e

end Mem

variable {L : Pointer → Prop}

/-! ### The session's part of a bridge -/

/-- What a bridge owns beside its session. -/
def TechMem.rest (m : TechMem) : Multiset Pointer :=
  m.client + held m.worker + held m.extraHeaders + held m.peerCustomParams + {m.mutex} + {m.block}

theorem owned_eq (m : TechMem) : m.owned = m.session.owned + m.rest := by
  rw [TechMem.owned, TechMem.rest]
  abel

theorem TechMem.block_mem (m : TechMem) : m.block ∈ m.owned :=
  Multiset.mem_add.mpr (Or.inr (Multiset.mem_singleton_self _))

theorem TechMem.mutex_mem (m : TechMem) : m.mutex ∈ m.owned := by
  rw [TechMem.owned]
  simp

theorem TechMem.SameBut.trans {m m' m'' : TechMem} (h : m.SameBut m') (k : m'.SameBut m'') :
    m.SameBut m'' := by
  unfold TechMem.SameBut at h k ⊢
  rw [k, h]

theorem TechMem.SameBut.ws {m m' : TechMem} (h : m.SameBut m') : m'.ws = m.ws := by rw [h]

/-- The bridge keeps its memory but for the session's, and mirrors `t'` afterwards. -/
def Works (L : Pointer → Prop) (m : TechMem) (c : Heap TechMem) (t' : Tech) : Prop :=
  Accounts L m.owned c (fun m' => m'.Mirrors t' ∧ m.SameBut m') TechMem.owned

section

variable {io : Io} {mio : MemIo} {m : TechMem} {t : Tech}

theorem works_pure {t' : Tech} (h : m.Mirrors t') : Works L m (return m) t' :=
  Accounts.pure ⟨h, rfl⟩ rfl

/-- A call of the session, and then the rest of the section. -/
theorem works_session {α : Type} {c : Heap α} {φ : α → Prop} {g : α → SessionMem}
    {f : α → Heap TechMem} {t' : Tech}
    (hc : Accounts L m.session.owned c φ fun a => (g a).owned)
    (hf : ∀ a, φ a → Works L { m with session := g a } (f a) t') : Works L m (c >>= f) t' := by
  refine hc.bind (owned_eq m) fun a ha => ?_
  have hnext : Accounts L ((g a).owned + m.rest) (f a)
      (fun m' => m'.Mirrors t' ∧ ({ m with session := g a } : TechMem).SameBut m')
      TechMem.owned := (hf a ha).of_eq (owned_eq { m with session := g a }).symm
  exact hnext.weaken (fun m' hm => ⟨hm.1, hm.2⟩) fun _ _ => rfl

theorem works_lock {c : Heap TechMem} {t' : Tech} (hc : Works L m c t') :
    Works L m (Mem.lockTech m >>= fun _ => c) t' := by
  have hlock : Accounts L m.owned (Mem.lockTech m) (fun _ => True) (fun _ => m.owned) := by
    unfold Mem.lockTech
    refine Accounts.use_bind m.block_mem ?_
    have huse : Accounts L m.owned (use m.mutex >>= fun _ => (pure () : Heap Unit))
        (fun _ => True) (fun _ => m.owned) :=
      Accounts.use_bind m.mutex_mem (Accounts.pure trivial rfl)
    rwa [bind_pure] at huse
  exact hlock.bind (add_zero _).symm fun _ _ => hc.of_eq (add_zero _)

theorem works_flush (h : m.Mirrors t) : Works L m (Mem.flushOutbound io mio t m) (flushOutbound io t) :=
  flushOutbound_accounts io mio h

theorem works_handleAndFlush (h : m.Mirrors t) (text : CStr) :
    Works L m (Mem.handleAndFlush io mio t text m) (handleAndFlush io t text) :=
  works_session (g := fun session => session)
    (rtwSessionHandlePeerJson_accounts (io.env 0) (mio.allocs 0) text h.session)
      fun _ hsession => works_flush ⟨hsession, h.ws⟩

theorem works_onWsText (h : m.Mirrors t) (text : CStr) :
    Works L m (Mem.onWsText io mio t text m) (onWsText io t text) := by
  unfold Mem.onWsText onWsText
  refine Accounts.use_bind m.block_mem ?_
  split_ifs
  · exact works_pure h
  · exact Accounts.use_bind m.mutex_mem (works_pure h)
  · exact Accounts.use_bind m.mutex_mem (works_handleAndFlush h text)

theorem works_deliverText (h : m.Mirrors t) (text : CStr) :
    Works L m (Mem.deliverText io mio t text m) (onWsText io t text) := by
  unfold Mem.deliverText
  refine Accounts.acquire_bind (fun hno => ?_) fun _ copy => ?_
  · cases hno
  refine Accounts.use_bind (by simp) ?_
  refine (works_onWsText h text).bind (add_comm _ _) fun m' hm => ?_
  exact Accounts.release_bind (add_comm _ _) (Accounts.pure hm rfl)

theorem works_clear (h : m.Mirrors t) :
    Works L m (Mem.rtwBridgeClear io mio t m) (rtwBridgeClear io t).2 := by
  refine works_lock ?_
  unfold rtwBridgeClear
  split_ifs
  · exact works_pure h
  · exact works_pure h
  · exact works_handleAndFlush h _

theorem works_sendMark (h : m.Mirrors t) (name : CStr) :
    Works L m (Mem.rtwBridgeSendMark io mio t name m) (rtwBridgeSendMark io t name).2 := by
  refine works_lock ?_
  unfold rtwBridgeSendMark
  split_ifs
  · exact works_pure h
  · exact works_pure h
  · exact works_handleAndFlush h _

theorem works_pause (h : m.Mirrors t) (on : Bool) :
    Works L m (Mem.rtwBridgePause m) (rtwBridgePause io t on).2 := by
  have hpaused : m.session.Mirrors { t.session with paused := on } := by
    refine SessionMem.Mirrors.of_eq h.session ?_ ?_
    · rfl
    · rfl
  refine works_lock (works_pure ?_)
  unfold rtwBridgePause
  split_ifs
  · exact h
  · exact h
  · constructor
    · exact hpaused
    · exact h.ws

theorem holdSamples_accounts (i : ℕ) (samples : List Int16) {s : SessionMem}
    (h : s.Mirrors t.session) :
    Accounts L s.owned (Mem.holdSamples io mio i samples t s)
      (fun s' => s'.Mirrors (holdSamples io i samples t).session) SessionMem.owned := by
  induction samples generalizing i t s with
  | nil => exact Accounts.pure h rfl
  | cons sample samples ih =>
    have hone : Accounts L s.owned (Mem.holdSample (io.env i) (mio.allocs i) t sample s)
        (fun s' => s'.Mirrors (holdSample (io.env i) t sample).session) SessionMem.owned := by
      unfold Mem.holdSample holdSample
      split_ifs
      · exact rtwSessionPushPcm16_accounts _ _ _ h
      · exact Accounts.pure h rfl
    exact hone.bind (add_zero _).symm fun s' hs => (ih (i + 1) hs).of_eq (add_zero _)

theorem holdSamples_ws (i : ℕ) (samples : List Int16) (t : Tech) :
    (holdSamples io i samples t).ws = t.ws := by
  induction samples generalizing i t with
  | nil => rfl
  | cons sample samples ih => exact (ih (i + 1) _).trans (silent_holdSample _ t sample).ws

theorem works_holdFrame (h : m.Mirrors t) (samples : List Int16) :
    Works L m (Mem.holdFrame io mio samples t m) (holdSamples io 0 samples t) :=
  works_session (g := fun session => session) (holdSamples_accounts 0 samples h.session)
    fun _ hsession => works_pure ⟨hsession, by rw [holdSamples_ws]; exact h.ws⟩

theorem works_onRead (h : m.Mirrors t) (pcm : List Int16) :
    Works L m (Mem.rtwBridgeOnReadPcm16 io mio t pcm m) (rtwBridgeOnReadPcm16 io t pcm) := by
  refine works_lock ?_
  unfold rtwBridgeOnReadPcm16
  split_ifs
  · exact works_pure h
  · exact works_pure h
  · exact works_holdFrame h _
  · exact works_holdFrame h _

theorem works_takePlayout {t' : Tech} (h : m.Mirrors t') : Works L m (Mem.takePlayout m) t' := by
  have hbuf : m.session.buf ∈ m.owned := by
    rw [owned_eq]
    exact Multiset.mem_add.mpr (Or.inl (buf_mem_owned m.session))
  exact works_lock (Accounts.use_bind hbuf (works_pure h))

theorem works_reconnectHandshake (hL : MayLose L (mio.allocs 0 1).attaches) (h : m.Mirrors t) :
    Works L m (Mem.reconnectHandshake io mio t m) (reconnectHandshake io t) := by
  refine works_lock ?_
  unfold reconnectHandshake
  split_ifs
  · have hcall := rtwSessionRehandshake_accounts (io.env 0) hL h.session
    refine works_session (g := fun r : ℤ × SessionMem => r.2) hcall fun r hr => ?_
    apply works_flush
    constructor
    · exact hr.2
    · exact h.ws
  · exact works_pure h

/-! ### Closing, connecting and stopping -/

theorem reconnectClose_accounts (h : m.session.Mirrors t.session) (hws : t.ws = none) :
    Accounts L m.owned (Mem.reconnectClose m) (fun m' => m'.Mirrors t) TechMem.owned := by
  unfold Mem.reconnectClose
  refine (closeWs_accounts m.ws).bind (R := m.session.owned + held m.worker +
    held m.extraHeaders + held m.peerCustomParams + {m.mutex} + {m.block}) ?_
      fun _ _ => Accounts.pure ⟨h, by rw [hws]; rfl⟩ ?_
  · rw [TechMem.owned, TechMem.client]
    abel
  · rw [TechMem.owned, TechMem.client, Option.elim_none]
    abel

theorem reconnectConnect_accounts (openssl : Bool) (net : ConnectIo) {t' : Tech}
    (h : m.session.Mirrors t'.session) (hnone : m.ws = none)
    (hws : t'.ws.isSome = net.opens openssl m.wsUri m.headers) :
    Accounts L m.owned (Mem.reconnectConnect openssl net m) (fun m' => m'.Mirrors t')
      TechMem.owned := by
  unfold Mem.reconnectConnect
  refine (rtwWsConnectEx_accounts net openssl m.wsUri m.headers).bind (zero_add _).symm
    fun ws hopens => Accounts.pure ⟨h, hopens.trans hws.symm⟩ ?_
  rw [TechMem.owned, TechMem.owned, TechMem.client, TechMem.client, hnone, Option.elim_none]
  abel

theorem growRx_accounts (grow : Option Bool) (h : m.Mirrors t) :
    Accounts L m.owned (Mem.growRx grow m) (fun m' => m'.Mirrors t) TechMem.owned := by
  have hws := h.ws
  unfold Mem.growRx
  cases hm : m.ws with
  | none => exact Accounts.pure h rfl
  | some c =>
    rw [hm] at hws
    refine (ensureRxCap_accounts grow c).bind (R := m.session.owned + held m.worker +
      held m.extraHeaders + held m.peerCustomParams + {m.mutex} + {m.block}) ?_
        fun c' _ => Accounts.pure ⟨h.session, hws⟩ ?_
    · rw [TechMem.owned, TechMem.client, hm, Option.elim_some]
      abel
    · rw [TechMem.owned, TechMem.client, Option.elim_some]
      abel

/-- The end of `rtw_bridge_stop` gives back everything. -/
theorem bridgeStopFinish_accounts (h : m.Mirrors t) :
    Accounts L m.owned (Mem.bridgeStopFinish io mio t m) (fun _ => True) (fun _ => 0) := by
  have hjoined : m.owned = held m.worker + ({ m with worker := none } : TechMem).owned := by
    simp only [TechMem.owned, TechMem.client, held_none]
    abel
  have hsection : ∃ t', Works L { m with worker := none }
      (Mem.stopSection io mio t { m with worker := none }) t' := by
    unfold Mem.stopSection
    cases io.locked with
    | false => exact ⟨t, works_lock (works_pure ⟨h.session, h.ws⟩)⟩
    | true =>
      have hcall := rtwSessionStop_accounts (L := L) (io.env 0) (mio.allocs 0) h.session
      refine ⟨flushOutbound io.tail { t with
        session := (rtwSessionStop (io.env 0) t.session).2
        wsReady := t.ws.isSome || t.wsReady }, works_lock (works_session
          (g := fun r : ℤ × SessionMem => r.2) hcall fun r hr => ?_)⟩
      apply works_flush
      constructor
      · exact hr.2
      · exact h.ws
  obtain ⟨t', hworks⟩ := hsection
  unfold Mem.bridgeStopFinish
  refine Accounts.use_bind m.block_mem (Accounts.release?_bind hjoined ?_)
  refine hworks.bind (add_zero _).symm fun m' hm => ?_
  have hworker : m'.worker = none := by rw [hm.2]
  refine (closeWs_accounts m'.ws).bind (R := m'.session.owned +
    (held m'.extraHeaders + held m'.peerCustomParams + {m'.mutex} + {m'.block})) ?_ fun _ _ => ?_
  · rw [TechMem.owned, TechMem.client, hworker, held_none]
    abel
  refine (rtwSessionDestroy_accounts m'.session).bind (zero_add _) fun _ _ => ?_
  exact freeShell_accounts.of_eq (zero_add _)

end

/-! ### Events -/

/-- A bridge that is not freed and its memory. While it opens a connection it has none. -/
structure Backed (w : World) (m : TechMem) : Prop where
  mirrors : m.Mirrors w.tech
  closed : w.pc = .opening → w.tech.ws = none
  alive : w.pc ≠ .freed

/-- The connection of a connect event opens just when the memory's does. -/
def WorldEvent.Meets (openssl : Bool) (x : EventMemIo) (m : TechMem) : WorldEvent → Prop
  | .connect ok => ok = x.net.opens openssl m.wsUri m.headers
  | _ => True

theorem Backed.of_works {w w' : World} {m m' : TechMem} (h : Backed w m)
    (hm : m'.Mirrors w'.tech ∧ m.SameBut m') (hpc : w'.pc = w.pc) : Backed w' m' := by
  refine ⟨hm.1, fun hopening => ?_, fun hfreed => h.alive (hpc ▸ hfreed)⟩
  have hclosed := h.closed (hpc ▸ hopening)
  have hbefore := h.mirrors.ws
  have hafter := hm.1.ws
  rw [hm.2.ws, hbefore, hclosed] at hafter
  exact eq_none_of_isSome hafter

/-- Everything the `start` message of a reconnect makes has its place in it. -/
def WorldEvent.attaches (x : EventMemIo) : WorldEvent → Bool
  | .rehandshake _ => (x.mem.allocs 0 1).attaches
  | _ => true

/-- The event ends with the bridge freed, or with its memory. -/
def Goes (w : World) (e : WorldEvent) (r : Option TechMem) : Prop :=
  r.elim ((w.step e).pc = .freed) (Backed (w.step e))

section

variable {openssl : Bool} {x : EventMemIo} {w : World} {m : TechMem}

theorem goes_of {c : Heap TechMem} {φ : TechMem → Prop} {e : WorldEvent}
    (hc : Accounts L m.owned c φ TechMem.owned) (hφ : ∀ m', φ m' → Backed (w.step e) m') :
    Accounts L m.owned (some <$> c) (Goes w e) fun r => r.elim 0 TechMem.owned := by
  rw [map_eq_pure_bind]
  exact hc.bind (add_zero _).symm fun m' hm => Accounts.pure (hφ m' hm) (add_zero _).symm

/-- An event that leaves the worker where it is. -/
theorem goes_of_works {c : Heap TechMem} {e : WorldEvent} (h : Backed w m)
    (hc : Works L m c (w.step e).tech) (hpc : (w.step e).pc = w.pc) :
    Accounts L m.owned (some <$> c) (Goes w e) fun r => r.elim 0 TechMem.owned :=
  goes_of hc fun _ hm => h.of_works hm hpc

theorem Backed.idle {w' : World} (h : Backed w m) (hsession : w'.tech.session = w.tech.session)
    (hws : w'.tech.ws = w.tech.ws) (hpc : w'.pc = .opening → w.pc = .opening)
    (halive : w'.pc ≠ .freed) : Backed w' m := by
  refine ⟨⟨?_, ?_⟩, fun hopening => ?_, halive⟩
  · rw [hsession]
    exact h.mirrors.session
  · rw [hws]
    exact h.mirrors.ws
  · rw [hws]
    exact h.closed (hpc hopening)

/-- A step that touches no memory. -/
theorem goes_idle {e : WorldEvent} (h : Backed w m)
    (hsession : (w.step e).tech.session = w.tech.session) (hws : (w.step e).tech.ws = w.tech.ws)
    (hpc : (w.step e).pc = .opening → w.pc = .opening) (halive : (w.step e).pc ≠ .freed) :
    Accounts L m.owned (some <$> (return m : Heap TechMem)) (Goes w e)
      fun r => r.elim 0 TechMem.owned :=
  goes_of (φ := fun m' => m' = m) (Accounts.pure rfl rfl) fun _ hm =>
    hm ▸ h.idle hsession hws hpc halive

/-- An event at a place of the code where it is not taken. -/
theorem goes_nowhere {e : WorldEvent} (h : Backed w m) (hsame : w.step e = w) :
    Accounts L m.owned (some <$> (return m : Heap TechMem)) (Goes w e)
      fun r => r.elim 0 TechMem.owned := by
  refine goes_idle h ?_ ?_ ?_ ?_
  · rw [hsame]
  · rw [hsame]
  · rw [hsame]
    exact fun hopening => hopening
  · rw [hsame]
    exact h.alive

/-! ### The worker's steps -/

theorem goes_wsText (h : Backed w m) (io : Io) (text : CStr) :
    Accounts L m.owned (some <$> Mem.workerStep openssl x w m (.wsText io text))
      (Goes w (.wsText io text)) fun r => r.elim 0 TechMem.owned := by
  by_cases hplace : w.pc = .loop ∧ w.tech.ws.isSome
  · have hstep : w.step (.wsText io text) = { w with tech := onWsText io w.tech text } :=
      if_pos hplace
    rw [Mem.workerStep, if_pos hplace]
    refine goes_of_works h ?_ (by rw [hstep])
    rw [hstep]
    exact works_deliverText h.mirrors text
  · rw [Mem.workerStep, if_neg hplace]
    exact goes_nowhere h (if_neg hplace)

theorem goes_polled (h : Backed w m) :
    Accounts L m.owned (some <$> Mem.workerStep openssl x w m .polled) (Goes w .polled)
      fun r => r.elim 0 TechMem.owned := by
  by_cases hplace : w.pc = .loop ∧ stopping w.tech = false
  · have hstep : w.step .polled = { w with pc := .sending } := if_pos hplace
    rw [Mem.workerStep, if_pos hplace]
    refine goes_of (growRx_accounts x.grow h.mirrors) fun m' hm => ?_
    rw [hstep]
    exact ⟨hm, by simp, by simp⟩
  · rw [Mem.workerStep, if_neg hplace]
    exact goes_nowhere h (if_neg hplace)

theorem goes_flush (h : Backed w m) (io : Io) :
    Accounts L m.owned (some <$> Mem.workerStep openssl x w m (.flush io)) (Goes w (.flush io))
      fun r => r.elim 0 TechMem.owned := by
  by_cases hplace : w.pc = .sending
  · have hstep : w.step (.flush io) =
        ⟨if io.locked then flushOutbound io w.tech else w.tech, .loop⟩ := if_pos hplace
    rw [Mem.workerStep, if_pos hplace]
    have hworks : Works L m (Mem.lockTech m >>= fun _ =>
        if io.locked then Mem.flushOutbound io x.mem w.tech m else return m)
          (if io.locked then flushOutbound io w.tech else w.tech) := by
      refine works_lock ?_
      cases io.locked with
      | true => exact works_flush h.mirrors
      | false => exact works_pure h.mirrors
    refine goes_of hworks fun m' hm => ?_
    rw [hstep]
    exact ⟨hm.1, by simp, by simp⟩
  · rw [Mem.workerStep, if_neg hplace]
    exact goes_nowhere h (if_neg hplace)

theorem goes_beginReconnect (h : Backed w m) :
    Accounts L m.owned (some <$> Mem.workerStep openssl x w m .beginReconnect)
      (Goes w .beginReconnect) fun r => r.elim 0 TechMem.owned := by
  by_cases hplace : w.pc = .loop ∧ w.tech.ws.isSome
  · have hstep : w.step .beginReconnect =
        (reconnectBegin { w.tech with wsReady := false }).elim
          ⟨{ w.tech with wsReady := false }, .exited⟩ fun r => ⟨r.2, .backoff⟩ := by
      refine (if_pos hplace).trans ?_
      cases reconnectBegin { w.tech with wsReady := false } <;> rfl
    cases hbegin : reconnectBegin { w.tech with wsReady := false } with
    | none =>
      rw [hbegin] at hstep
      refine goes_idle h ?_ ?_ ?_ ?_ <;> simp [hstep]
    | some r =>
      obtain ⟨backoff, tech⟩ := r
      rw [hbegin] at hstep
      obtain ⟨hsession, hws⟩ : tech.session = w.tech.session ∧ tech.ws = w.tech.ws := by
        unfold reconnectBegin at hbegin
        split_ifs at hbegin
        all_goals
          obtain ⟨-, rfl⟩ := Prod.mk.inj (Option.some.inj hbegin)
          exact ⟨rfl, rfl⟩
      refine goes_idle h ?_ ?_ ?_ ?_ <;> simp [hstep, hsession, hws]
  · exact goes_nowhere h (if_neg hplace)

theorem goes_wake (h : Backed w m) :
    Accounts L m.owned (some <$> Mem.workerStep openssl x w m .wake) (Goes w .wake)
      fun r => r.elim 0 TechMem.owned := by
  by_cases hplace : w.pc = .backoff
  · have hstep : w.step .wake =
        { w with pc := if sleepInterruptibleMs w.tech 1 then .reopen else .exited } :=
      if_pos hplace
    cases hslept : sleepInterruptibleMs w.tech 1 with
    | true =>
      rw [hslept] at hstep
      refine goes_idle h ?_ ?_ ?_ ?_ <;> simp [hstep]
    | false =>
      rw [hslept] at hstep
      refine goes_idle h ?_ ?_ ?_ ?_ <;> simp [hstep]
  · exact goes_nowhere h (if_neg hplace)

theorem goes_closeOld (h : Backed w m) :
    Accounts L m.owned (some <$> Mem.workerStep openssl x w m .closeOld) (Goes w .closeOld)
      fun r => r.elim 0 TechMem.owned := by
  by_cases hplace : w.pc = .reopen
  · have hstep : w.step .closeOld = ⟨reconnectClose w.tech, .opening⟩ := if_pos hplace
    rw [Mem.workerStep, if_pos hplace]
    refine goes_of (reconnectClose_accounts (t := reconnectClose w.tech) h.mirrors.session rfl)
      fun m' hm => ?_
    rw [hstep]
    exact ⟨hm, fun _ => rfl, by simp⟩
  · rw [Mem.workerStep, if_neg hplace]
    exact goes_nowhere h (if_neg hplace)

/-- A connection is opened only where there is none, so none is lost. -/
theorem goes_connect (h : Backed w m) :
    Accounts L m.owned
      (some <$> Mem.workerStep openssl x w m (.connect (x.net.opens openssl m.wsUri m.headers)))
      (Goes w (.connect (x.net.opens openssl m.wsUri m.headers)))
      fun r => r.elim 0 TechMem.owned := by
  by_cases hplace : w.pc = .opening
  · have hstep : w.step (.connect (x.net.opens openssl m.wsUri m.headers)) =
        ⟨reconnectConnect (x.net.opens openssl m.wsUri m.headers) w.tech,
          if x.net.opens openssl m.wsUri m.headers then .opened else .exited⟩ := if_pos hplace
    have hnone : m.ws = none := by
      have hws := h.mirrors.ws
      rw [h.closed hplace] at hws
      exact eq_none_of_isSome hws.symm
    have hopens : (reconnectConnect (x.net.opens openssl m.wsUri m.headers) w.tech).ws.isSome =
        x.net.opens openssl m.wsUri m.headers := by
      unfold reconnectConnect
      cases x.net.opens openssl m.wsUri m.headers <;> rfl
    have hsession : (reconnectConnect (x.net.opens openssl m.wsUri m.headers) w.tech).session =
        w.tech.session := by
      unfold reconnectConnect
      split_ifs <;> rfl
    rw [Mem.workerStep, if_pos hplace]
    refine goes_of (reconnectConnect_accounts openssl x.net (hsession ▸ h.mirrors.session) hnone
      hopens) fun m' hm => ?_
    rw [hstep]
    refine ⟨hm, fun hpc => ?_, fun hpc => ?_⟩
    · dsimp only at hpc
      split_ifs at hpc
    · dsimp only at hpc
      split_ifs at hpc
  · rw [Mem.workerStep, if_neg hplace]
    exact goes_nowhere h (if_neg hplace)

theorem goes_check (h : Backed w m) :
    Accounts L m.owned (some <$> Mem.workerStep openssl x w m .check) (Goes w .check)
      fun r => r.elim 0 TechMem.owned := by
  by_cases hplace : w.pc = .opened
  · have hstep : w.step .check = if stopping w.tech then ⟨{ w.tech with ws := none }, .exited⟩
        else ⟨reconnectReady w.tech, .ready⟩ := if_pos hplace
    cases hstopping : stopping w.tech with
    | true =>
      rw [hstopping] at hstep
      rw [Mem.workerStep, if_pos ⟨hplace, hstopping⟩]
      refine goes_of (reconnectClose_accounts (t := { w.tech with ws := none })
        h.mirrors.session rfl) fun m' hm => ?_
      rw [hstep]
      exact ⟨hm, fun _ => rfl, by simp⟩
    | false =>
      rw [hstopping] at hstep
      rw [Mem.workerStep, if_neg (by simp [hstopping])]
      refine goes_idle h ?_ ?_ ?_ ?_ <;> simp [hstep, reconnectReady]
  · rw [Mem.workerStep, if_neg fun hboth => hplace hboth.1]
    exact goes_nowhere h (if_neg hplace)

theorem goes_rehandshake (hL : MayLose L (x.mem.allocs 0 1).attaches) (h : Backed w m) (io : Io) :
    Accounts L m.owned (some <$> Mem.workerStep openssl x w m (.rehandshake io))
      (Goes w (.rehandshake io)) fun r => r.elim 0 TechMem.owned := by
  by_cases hplace : w.pc = .ready
  · have hstep : w.step (.rehandshake io) = ⟨reconnectHandshake io w.tech, .done⟩ :=
      if_pos hplace
    rw [Mem.workerStep, if_pos hplace]
    refine goes_of (works_reconnectHandshake hL h.mirrors) fun m' hm => ?_
    rw [hstep]
    exact ⟨hm.1, by simp, by simp⟩
  · rw [Mem.workerStep, if_neg hplace]
    exact goes_nowhere h (if_neg hplace)

theorem mirrors_takePlayout {m : TechMem} {t : Tech} (h : m.Mirrors t) (env : Env) (want : ℕ) :
    m.Mirrors (takePlayout env t want).2 := by
  have hread : m.session.Mirrors (rtwSessionReadPlayout t.session want).2 := by
    refine SessionMem.Mirrors.of_eq h.session ?_ ?_
    · rfl
    · rfl
  have hnote : m.session.Mirrors
      (rtwSessionNoteWriteAfterClear env (rtwSessionReadPlayout t.session want).2 0) := by
    unfold rtwSessionNoteWriteAfterClear
    split_ifs
    · exact hread
    all_goals
      refine SessionMem.Mirrors.of_eq hread ?_ ?_
      · rfl
      · rfl
  unfold takePlayout
  dsimp only
  split_ifs
  · exact ⟨hread, h.ws⟩
  · exact ⟨hnote, h.ws⟩

theorem works_onWrite {m : TechMem} {t : Tech} (h : m.Mirrors t) (io : Io) (n : ℕ) :
    Works L m (Mem.takePlayout m) (rtwBridgeOnWritePcm16 io t n).2 := by
  apply works_takePlayout
  unfold rtwBridgeOnWritePcm16
  split_ifs
  · exact h
  · exact h
  · exact mirrors_takePlayout h _ _

theorem works_applyWrite {m : TechMem} {t : Tech} (h : m.Mirrors t) (io : Io)
    (pcm : List Int16) :
    Works L m (Mem.takePlayout m) (rtwBridgeApplyWriteFrame io t pcm).2 := by
  apply works_takePlayout
  have htake := mirrors_takePlayout h (io.env 0) (writeWant pcm.length)
  unfold rtwBridgeApplyWriteFrame
  dsimp only
  split_ifs
  · exact h
  · exact h
  · exact htake
  · cases t.injectMode <;> exact htake

theorem goes_stopFinish (h : Backed w m) (io : Io) :
    Accounts L m.owned (Mem.event openssl x w m (.stopFinish io)) (Goes w (.stopFinish io))
      fun r => r.elim 0 TechMem.owned := by
  by_cases hplace : w.pc = .exited ∧ w.tech.cleanupStarted
  · have hstep : w.step (.stopFinish io) = ⟨bridgeStopFinish io w.tech, .freed⟩ :=
      if_pos hplace
    rw [Mem.event, if_pos hplace]
    refine (bridgeStopFinish_accounts h.mirrors).bind (add_zero _).symm fun _ _ => ?_
    refine Accounts.pure ?_ (add_zero _).symm
    change (w.step (.stopFinish io)).pc = .freed
    rw [hstep]
  · have hstep : w.step (.stopFinish io) = w := if_neg hplace
    rw [Mem.event, if_neg hplace]
    refine Accounts.pure ?_ rfl
    change Backed (w.step (.stopFinish io)) m
    rw [hstep]
    exact h

/-- Every event keeps the account of the bridge's memory, and one gives it all back. -/
theorem step_accounts (h : Backed w m) {e : WorldEvent} (hmeets : e.Meets openssl x m)
    (hL : MayLose L (e.attaches x)) :
    Accounts L m.owned (Mem.step openssl x w m e) (Goes w e) fun r => r.elim 0 TechMem.owned := by
  have hcall : ∀ {e : WorldEvent} {tech : Tech} {c : Heap TechMem},
      w.step e = (if w.pc = .freed then w else { w with tech := tech }) → Works L m c tech →
        Accounts L m.owned (some <$> c) (Goes w e) fun r => r.elim 0 TechMem.owned := by
    intro e tech c hstep hworks
    rw [if_neg h.alive] at hstep
    exact goes_of_works h (by rw [hstep]; exact hworks) (by rw [hstep])
  unfold Mem.step
  refine Accounts.use_bind m.block_mem ?_
  cases e with
  | onRead io pcm => exact hcall rfl (works_onRead h.mirrors pcm)
  | onWrite io n => exact hcall rfl (works_onWrite h.mirrors io n)
  | applyWrite io pcm => exact hcall rfl (works_applyWrite h.mirrors io pcm)
  | clear io => exact hcall rfl (works_clear h.mirrors)
  | sendMark io name => exact hcall rfl (works_sendMark h.mirrors name)
  | pause io on => exact hcall rfl (works_pause h.mirrors on)
  | closeRequest =>
    have hstep : w.step .closeRequest = { w with tech := { w.tech with closeRequested := true } } :=
      if_neg h.alive
    refine goes_idle h ?_ ?_ ?_ ?_ <;> simp [hstep, h.alive]
  | stopRequest =>
    have hstep : w.step .stopRequest = { w with tech := bridgeStopRequest w.tech } :=
      if_neg h.alive
    refine goes_idle h ?_ ?_ ?_ ?_ <;> simp [hstep, bridgeStopRequest, h.alive]
  | stopFinish io => exact goes_stopFinish h io
  | wsText io text => exact goes_wsText h io text
  | wsClose =>
    by_cases hplace : w.pc = .loop
    · have hstep : w.step .wsClose = { w with tech := onWsClose w.tech } := if_pos hplace
      refine goes_idle h ?_ ?_ ?_ ?_ <;> simp [hstep, onWsClose, h.alive]
    · exact goes_nowhere h (if_neg hplace)
  | polled => exact goes_polled h
  | flush io => exact goes_flush h io
  | leave =>
    by_cases hplace : w.pc = .loop ∧ stopping w.tech
    · have hstep : w.step .leave = { w with pc := .exited } := if_pos hplace
      refine goes_idle h ?_ ?_ ?_ ?_ <;> simp [hstep]
    · exact goes_nowhere h (if_neg hplace)
  | beginReconnect => exact goes_beginReconnect h
  | wake => exact goes_wake h
  | closeOld => exact goes_closeOld h
  | connect ok =>
    cases hmeets
    exact goes_connect h
  | check => exact goes_check h
  | rehandshake io => exact goes_rehandshake hL h io
  | finish =>
    by_cases hplace : w.pc = .done
    · have hstep : w.step .finish = ⟨reconnectDone w.tech, .loop⟩ := if_pos hplace
      refine goes_idle h ?_ ?_ ?_ ?_ <;> simp [hstep, reconnectDone]
    · exact goes_nowhere h (if_neg hplace)

end

end RealtimeWs.Mod
