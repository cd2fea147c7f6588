import RealtimeWs.Mod.Handshake

/-! Runs of the bridge keep the order of messages on each connection, while the queue
does not get in front of a handshake. -/
namespace RealtimeWs.Mod

open RealtimeWs.Core

/-! ### Every step keeps the invariant -/

theorem state_handlePeerJson (env : Env) (s : Session) (text : CStr) :
    (rtwSessionHandlePeerJson env s text).2.state = s.state := by
  cases hj : s.inboundFor env text with
  | none => rw [(handlePeerJson_of_none hj).2]
  | some ev =>
    obtain ⟨_, _, _, hstate, _⟩ := handleEvent_spec env s ev
    rw [handlePeerJson_of_event hj]
    exact hstate

/-- What a flush finds queued when up to `r` messages were offered since the backlog. -/
theorem queued_after {io : Io} {t u : Tech} {c r : ℕ} {ms : Offers}
    (hf : HandshakeFirst (t.sentOn c)) (hw : u.wire = t.wire)
    (he : Emits t.session.out ms (harvested io u).session.out) (hr : ms.length ≤ r)
    (h : Backlog t c r ∨ (t.session.outbound.contents = [] ∧ r = 0)) :
    Primed u c (harvested io u).session.outbound.contents ∨
      (harvested io u).session.outbound.contents = [] := by
  have hu : ∀ l, Primed t c l → Primed u c l := fun l hl => by
    rw [Primed, sentOn_eq hw]
    exact hl
  rcases h with (hs | ⟨hp, hroom⟩) | ⟨hnil, h0⟩
  · exact Or.inl (hu _ (hs.primed hf _))
  · have hc : (harvested io u).session.outbound.contents =
        t.session.outbound.contents ++ ms.stored :=
      he.contents_of_room ((Nat.add_le_add_left hr _).trans hroom)
    rw [hc]
    exact Or.inl (hu _ (hp.extend _))
  · have hms : ms = [] := List.eq_nil_of_length_eq_zero (by omega)
    subst hms
    have hc : (harvested io u).session.outbound.contents =
        t.session.outbound.contents ++ Offers.stored [] :=
      he.contents_of_room t.session.outbound.length_contents_le
    rw [hc, hnil]
    exact Or.inr rfl

/-- A text followed by a flush, on a connection that has its handshake or in the gap. -/
theorem Inv.handleAndFlush {w : World} (h : Inv w) (io : Io) (text : CStr)
    (hpre : w.tech.wsReady = true → ∀ c, w.tech.ws = some c →
      Backlog w.tech c (acksDue (io.env 0) w.tech.session text) ∨
        (w.tech.session.outbound.contents = [] ∧ acksDue (io.env 0) w.tech.session text = 0)) :
    Inv { w with tech := handleAndFlush io w.tech text } := by
  have hs : Silent w.tech
      { w.tech with session := (rtwSessionHandlePeerJson (io.env 0) w.tech.session text).2 } :=
    silent_session _ (state_handlePeerJson _ _ _)
  refine (h.silent hs).flush fun hready c hc => ?_
  obtain ⟨ms, he, hlen⟩ :=
    handle_harvest_offers (io.env 0) (io.tail.env 0) w.tech.session text
  exact queued_after (h.ordered.first c) rfl he hlen (hpre hready c hc)

theorem Inv.clear {w : World} (h : Inv w) (io : Io)
    (hg : w.tech.cleanupStarted = false → GapSafe w io (clearText w.tech)) :
    Inv { w with tech := (rtwBridgeClear io w.tech).2 } := by
  unfold rtwBridgeClear
  split_ifs with hstop hlock
  · exact h
  · exact h
  · exact h.handleAndFlush io _ (hg (by simpa using hstop) (by simpa using hlock))

theorem Inv.sendMark {w : World} (h : Inv w) (io : Io) (name : CStr)
    (hg : w.tech.cleanupStarted = false → GapSafe w io (markMessage w.tech name)) :
    Inv { w with tech := (rtwBridgeSendMark io w.tech name).2 } := by
  unfold rtwBridgeSendMark
  split_ifs with hstop hlock
  · exact h
  · exact h
  · exact h.handleAndFlush io _ 
      (hg (by simpa using fun h => hstop (Or.inl h)) (by simpa using hlock))

/-- In its loop the worker has no connection without a handshake, unless it stops. -/
theorem Inv.shaken_loop {w : World} (h : Inv w) (hpc : w.pc ≠ .ready)
    (hstop : stopping w.tech = false ∨ w.pc = .sending) (hready : w.tech.wsReady = true) {c : ℕ}
    (hc : w.tech.ws = some c) : Shaken w.tech c := by
  rcases h.shaken hready hstop c hc with ⟨hp, -⟩ | hs
  · exact absurd hp hpc
  · exact hs

theorem Inv.wsText {w : World} (h : Inv w) (io : Io) (text : CStr) (hpc : w.pc = .loop) :
    Inv { w with tech := onWsText io w.tech text } := by
  unfold onWsText
  split_ifs with hstop hlock
  · exact h
  · exact h
  · refine h.handleAndFlush io text fun hready c hc => Or.inl (Or.inl ?_)
    exact h.shaken_loop (by rw [hpc]; decide) (Or.inl (by simpa using hstop)) hready hc

theorem Inv.workerFlush {w : World} (h : Inv w) (io : Io) (hpc : w.pc = .sending) :
    Inv ⟨if io.locked then flushOutbound io w.tech else w.tech, .loop⟩ := by
  have hgo : ∀ {u : World}, Inv u → u.pc = .sending → Inv { u with pc := .loop } := fun hu hp =>
    hu.goto (by rw [hp]; decide) (by rw [hp]; decide) rfl (by intro h; cases h)
  split
  · have hflush : Inv { w with tech := flushOutbound io w.tech } := h.flush fun hready c hc =>
      Or.inl ((h.shaken_loop (by rw [hpc]; decide) (Or.inr hpc) hready hc).primed
        (h.ordered.first c) _)
    exact hgo hflush hpc
  · exact hgo h hpc

theorem Inv.beginReconnect {w : World} (h : Inv w) (hpc : w.pc = .loop) :
    Inv (w.step .beginReconnect) := by
  have hrun := h.running (by rw [hpc]; decide)
  have hoff : ∀ (attempts : ℤ) (pc : WorkerPc), pc ≠ .opened → Inv ⟨{ w.tech with
      wsReady := false, reconnectAttempts := attempts }, pc⟩ := fun attempts pc hne =>
    h.off rfl le_rfl h.ordered.current rfl (fun hp => absurd hp hne) hrun
  simp only [World.step, World.workerStep]
  split
  · rcases reconnectBegin_cases { w.tech with wsReady := false } with hno | ⟨wait, hyes⟩
    · rw [hno]
      exact hoff w.tech.reconnectAttempts .exited (by decide)
    · rw [hyes]
      exact hoff (w.tech.reconnectAttempts + 1) .backoff (by decide)
  · exact h

theorem Inv.connect {w : World} (h : Inv w) (ok : Bool) (hpc : w.pc = .opening) :
    Inv ⟨reconnectConnect ok w.tech, if ok then .opened else .exited⟩ := by
  have hrun := h.running (by rw [hpc]; decide)
  have hoff := h.down (by rw [hpc]; rfl)
  cases ok with
  | false =>
    refine h.off rfl le_rfl ?_ hoff ?_ hrun
    · intro c hc
      cases hc
    · intro hp
      cases hp
  | true =>
    refine h.off rfl (Nat.le_succ _) ?_ hoff ?_ hrun
    · intro c hc
      cases hc
      exact Nat.lt_succ_self _
    · intro _ c hc
      cases hc
      exact h.ordered.unopened le_rfl

theorem Inv.check {w : World} (h : Inv w) (hpc : w.pc = .opened) :
    Inv (if stopping w.tech then ⟨{ w.tech with ws := none }, .exited⟩
      else ⟨reconnectReady w.tech, .ready⟩) := by
  have hrun := h.running (by rw [hpc]; decide)
  split
  · refine h.off rfl le_rfl ?_ (h.down (by rw [hpc]; rfl)) ?_ hrun
    · intro c hc
      cases hc
    · intro hp
      cases hp
  · constructor
    · exact h.ordered.congr rfl le_rfl h.ordered.current
    · intro _ _ c hc
      exact Or.inl ⟨rfl, h.opened hpc c hc⟩
    · intro hd
      cases hd
    · intro hp
      cases hp
    · intro _
      exact hrun

theorem Inv.rehandshake {w : World} (h : Inv w) (io : Io) (hpc : w.pc = .ready)
    (hg : RehandshakeSafe w io) : Inv ⟨reconnectHandshake io w.tech, .done⟩ := by
  have hrun := h.running (by rw [hpc]; decide)
  unfold reconnectHandshake
  split
  · rename_i hgo
    obtain ⟨ms, x, hx, he, -, hp, h0, hok⟩ :=
      rtwSessionRehandshake_spec (io.env 0) w.tech.session
    rw [hx]
    obtain ⟨ns, hh, hlen⟩ := harvestMarks_offers (io.tail.env 0) (w.tech.session.withOut x)
    have hms : ms.length ≤ 2 := by simpa using hp.length_le
    have hfull : Emits w.tech.session.out (ms ++ ns)
        (harvested io.tail { w.tech with session := w.tech.session.withOut x }).session.out :=
      he.trans hh
    -- what the flush behind the rehandshake finds is primed
    have hprimed : w.tech.wsReady = true → ∀ c, w.tech.ws = some c → Primed w.tech c
        (harvested io.tail { w.tech with session := w.tech.session.withOut x }).session.outbound.contents := by
      intro hready c hc
      rcases hg hready hgo.2 c hc with hs | ⟨-, henv, henv', hq, hroom⟩
      · exact hs.primed (h.ordered.first c) _
      have hstored : ms.stored = [w.tech.session.connected, w.tech.session.start] :=
        h0 (hok henv henv' hrun)
      have hcont : (harvested io.tail { w.tech with
          session := w.tech.session.withOut x }).session.outbound.contents =
            w.tech.session.outbound.contents ++ (ms ++ ns).stored := by
        apply hfull.contents_of_room
        rw [List.length_append, hlen]
        have hroom' : w.tech.session.outbound.contents.length + 2 +
            min HARVEST_MAX (completed (w.tech.session.withOut x).playout.marks).length ≤
              w.tech.session.outbound.capacity := hroom
        change w.tech.session.outbound.contents.length + _ ≤ w.tech.session.outbound.capacity
        omega
      rw [hcont]
      rcases hq with hnil | hq
      · rcases h.shaken hready (Or.inl hgo.2) c hc with ⟨-, hempty⟩ | hs
        · rw [hnil, stored_append, hstored, Primed, hempty]
          refine ⟨handshakeFirst_cons_cons rfl rfl _, ?_⟩
          simp
        · exact hs.primed (h.ordered.first c) _
      · exact hq.extend _
    have hsilent : Silent w.tech { w.tech with session := w.tech.session.withOut x } :=
      silent_session _ rfl
    have hflush : Inv { w with
        tech := flushOutbound io.tail { w.tech with session := w.tech.session.withOut x } } :=
      (h.silent hsilent).flush fun hready c hc => Or.inl (hprimed hready c hc)
    constructor
    · exact hflush.ordered
    · intro hready _ c hc
      obtain ⟨hr, hws, -⟩ := flush_ready hready hc
      exact Or.inr (flush_shaken hready hc (hprimed hr c hws))
    · intro hd
      cases hd
    · intro hp
      cases hp
    · intro _
      exact hflush.running (by change w.pc ≠ _; rw [hpc]; decide)
  · -- the bridge stops, or the mutex is not taken
    rename_i hno
    constructor
    · exact h.ordered
    · intro hready hstop c hc
      have hstop : stopping w.tech = false := hstop.resolve_right (by intro h; cases h)
      rcases hg hready hstop c hc with hs | ⟨hlock, -⟩
      · exact Or.inr hs
      · exact absurd ⟨hlock, hstop⟩ hno
    · intro hd
      cases hd
    · intro hp
      cases hp
    · intro _
      exact hrun

theorem Inv.stopFinish {w : World} (h : Inv w) (io : Io) (hg : StopSafe w io) :
    Inv ⟨bridgeStopFinish io w.tech, .freed⟩ := by
  have hclosed : ∀ {t : Tech} {r : Bool}, Ordered t →
      Inv ⟨{ t with ws := none, wsReady := r }, .freed⟩ := by
    intro t r ht
    constructor
    · refine ht.congr rfl le_rfl ?_
      intro c hc
      cases hc
    · intro _ _ c hc
      cases hc
    · intro hd
      cases hd
    · intro hp
      cases hp
    · intro hp
      exact absurd rfl hp
  simp only [bridgeStopFinish]
  split
  · rename_i hlock
    obtain ⟨ms, he, -, -, hplay, hms⟩ := rtwSessionStop_spec (io.env 0) w.tech.session
    obtain ⟨ns, hh, hlen⟩ :=
      harvestMarks_offers (io.tail.env 0) (rtwSessionStop (io.env 0) w.tech.session).2
    have hold : Ordered { w.tech with
        session := (rtwSessionStop (io.env 0) w.tech.session).2
        wsReady := w.tech.ws.isSome || w.tech.wsReady } :=
      h.ordered.congr rfl le_rfl h.ordered.current
    refine hclosed (hold.flush fun _ c hc => ?_)
    refine queued_after (h.ordered.first c) rfl (he.trans hh) ?_ (Or.inl (hg hlock c hc))
    rw [List.length_append, hlen, hplay]
    omega
  · exact hclosed h.ordered

/-- A stop request needs nothing of the worker any more, except of a flush under way. -/
theorem Inv.stops {w : World} (h : Inv w) {closeRequested cleanupStarted reconnectEnabled : Bool}
    (hstop : closeRequested = true) : Inv { w with tech := { w.tech with
      closeRequested := closeRequested
      cleanupStarted := cleanupStarted
      reconnectEnabled := reconnectEnabled } } := by
  constructor
  · exact h.ordered.congr rfl le_rfl h.ordered.current
  · intro hready hgo c hc
    refine h.shaken hready (Or.inr (hgo.resolve_left fun hlive => ?_)) c hc
    rw [stopping, hstop] at hlive
    cases hlive
  · exact h.down
  · exact h.opened
  · exact h.running

/-- Every step that meets its guard keeps the invariant. -/
theorem Inv.step {w : World} (h : Inv w) (e : WorldEvent) (hg : Guarded w e) :
    Inv (w.step e) := by
  cases e with
  | onRead io pcm =>
    simp only [World.step]
    split
    · exact h
    · exact h.silent (silent_onRead io w.tech pcm)
  | onWrite io n =>
    simp only [World.step]
    split
    · exact h
    · exact h.silent (silent_onWrite io w.tech n)
  | applyWrite io pcm =>
    simp only [World.step]
    split
    · exact h
    · exact h.silent (silent_applyWrite io w.tech pcm)
  | clear io =>
    simp only [World.step]
    split
    · exact h
    · exact h.clear io hg
  | sendMark io name =>
    simp only [World.step]
    split
    · exact h
    · exact h.sendMark io name hg
  | pause io on =>
    simp only [World.step]
    split
    · exact h
    · exact h.silent (silent_pause io w.tech on)
  | closeRequest =>
    simp only [World.step]
    split
    · exact h
    · exact h.stops rfl
  | stopRequest =>
    simp only [World.step]
    split
    · exact h
    · exact h.stops rfl
  | stopFinish io =>
    simp only [World.step]
    split
    · rename_i hpc
      exact h.stopFinish io (hg hpc.1)
    · exact h
  | wsText io text =>
    simp only [World.step, World.workerStep]
    split
    · rename_i hpc
      exact h.wsText io text hpc.1
    · exact h
  | wsClose =>
    simp only [World.step, World.workerStep]
    split
    · rename_i hpc
      exact h.off rfl le_rfl h.ordered.current rfl (fun hp => by rw [hpc] at hp; cases hp)
        (h.running (by rw [hpc]; decide))
    · exact h
  | polled =>
    simp only [World.step, World.workerStep]
    split
    · rename_i hpc
      exact h.goto (by rw [hpc.1]; decide) (by rw [hpc.1]; decide) rfl fun _ => hpc.2
    · exact h
  | flush io =>
    simp only [World.step, World.workerStep]
    split
    · rename_i hpc
      exact h.workerFlush io hpc
    · exact h
  | leave =>
    simp only [World.step, World.workerStep]
    split
    · rename_i hpc
      exact h.goto (by rw [hpc.1]; decide) (by rw [hpc.1]; decide) rfl (by intro h; cases h)
    · exact h
  | beginReconnect =>
    by_cases hpc : w.pc = .loop
    · exact h.beginReconnect hpc
    · simp only [World.step, World.workerStep]
      rw [if_neg fun hp => hpc hp.1]
      exact h
  | wake =>
    simp only [World.step, World.workerStep]
    split
    · rename_i hpc
      exact h.off rfl le_rfl h.ordered.current (h.down (by rw [hpc]; rfl))
        (fun hp => by split at hp <;> cases hp) (h.running (by rw [hpc]; decide))
    · exact h
  | closeOld =>
    simp only [World.step, World.workerStep]
    split
    · rename_i hpc
      exact h.off rfl le_rfl (by intro c hc; cases hc) (h.down (by rw [hpc]; rfl))
        (by intro hp; cases hp) (h.running (by rw [hpc]; decide))
    · exact h
  | connect ok =>
    simp only [World.step, World.workerStep]
    split
    · rename_i hpc
      exact h.connect ok hpc
    · exact h
  | check =>
    by_cases hpc : w.pc = .opened
    · simp only [World.step, World.workerStep]
      rw [if_pos hpc]
      exact h.check hpc
    · simp only [World.step, World.workerStep]
      rw [if_neg hpc]
      exact h
  | rehandshake io =>
    simp only [World.step, World.workerStep]
    split
    · rename_i hpc
      exact h.rehandshake io hpc (hg hpc)
    · exact h
  | finish =>
    simp only [World.step, World.workerStep]
    split
    · rename_i hpc
      have hdone : Inv { w with tech := reconnectDone w.tech } :=
        ⟨h.ordered.congr rfl le_rfl h.ordered.current, h.shaken, h.down, h.opened, h.running⟩
      exact hdone.goto (by change w.pc ≠ _; rw [hpc]; decide)
        (by change w.pc ≠ _; rw [hpc]; decide) rfl (by intro h; cases h)
    · exact h

/-- Start flushes `connected` and `start`, or keeps what it could not send queued. -/
theorem Inv.start {printNumber : List UInt8 → List UInt8} {io : StartIo}
    {uuid metadata : Option CStr} {sampling channels : ℤ} {tech : Tech}
    (h : rtwBridgeStart printNumber io uuid sampling channels metadata = some tech) :
    Inv ⟨tech, .loop⟩ := by
  obtain ⟨streamSid, callSid, session, hs, hcap, -, -, -, rfl⟩ := rtwBridgeStart_spec h
  obtain ⟨hrun, -, -, -, -, -, -, hcont, -⟩ := hs.spec
  have hprimed : Primed (openTech io streamSid callSid sampling channels session) 0
      (harvested io.flush
        (openTech io streamSid callSid sampling channels session)).session.outbound.contents := by
    rw [harvested_openTech hs]
    change Primed _ 0 session.outbound.contents
    rw [hcont (by omega)]
    exact ⟨handshakeFirst_cons_cons rfl rfl _, le_rfl⟩
  have hopen : Ordered (openTech io streamSid callSid sampling channels session) := by
    constructor
    · intro a ha
      cases ha
    · intro c hc
      cases hc
      exact Nat.zero_lt_one
    · intro c
      exact handshakeFirst_nil
  have hzero : ∀ c, (openTech io streamSid callSid sampling channels session).ws = some c →
      c = 0 := by
    intro c hc
    exact (Option.some.inj hc).symm
  constructor
  · refine hopen.flush fun _ c hc => ?_
    rw [hzero c hc]
    exact Or.inl hprimed
  · intro hready _ c hc
    obtain ⟨-, hws, -⟩ := flush_ready hready hc
    rw [hzero c hws] at hc ⊢
    exact Or.inr (flush_shaken hready hc hprimed)
  · intro hd
    cases hd
  · intro hp
    cases hp
  · intro _
    exact (state_flush _ _).trans hrun

theorem demo_starts :
    (rtwBridgeStart id .calm (some (.lit "0")) 8000 1 none).isSome := by
  decide +kernel

/-- A bridge at 8 kHz mono whose start met no failure. -/
def demoTech : Tech := (rtwBridgeStart id .calm (some (.lit "0")) 8000 1 none).get demo_starts

theorem demoTech_starts : rtwBridgeStart id .calm (some (.lit "0")) 8000 1 none = some demoTech :=
  (Option.some_get _).symm

/-- The connection is lost and a new one opened, with the caller's audio in between. -/
def reconnectRun (pcm : List Int16) : List WorldEvent :=
  [.wsClose, .beginReconnect, .onRead .calm pcm, .wake, .closeOld, .connect true, .check,
    .rehandshake .calm, .finish]

/-- A reconnect that finds the queue empty, then a mark and the end of the call. -/
def quietRun : List WorldEvent :=
  reconnectRun [] ++ [.sendMark .calm (.lit "m"), .polled, .flush .calm, .stopRequest, .leave,
    .stopFinish .calm]

end RealtimeWs.Mod
