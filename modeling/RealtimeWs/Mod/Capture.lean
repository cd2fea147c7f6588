import RealtimeWs.Lib.Machine
import RealtimeWs.Mod.BridgeMemory

/-! The module over all of its channels. A channel keeps the bridge that `start_capture`
started for it in its private slot, and whoever wants the bridge asks the slot for it. A section
under the mutex is one step here, and so is what the worker does outside of it: that a caller
is still sending while the worker closes is for the threads. -/
namespace RealtimeWs.Mod

open RealtimeWs.Core Ledger

/-- A bridge that was started, with the memory it has or had. -/
structure Bridge where
  world : World
  mem : TechMem

/-- `privates` is what `RTW_BUG_NAME` names on each channel: a place in `bridges`. -/
structure Module where
  ledger : Ledger Resource
  bridges : List Bridge
  privates : ℕ → Option ℕ

/-- What `start_capture` is called with and meets. The stub build adds no media bug, so there
`bug` is true. -/
structure CaptureStart where
  io : StartMemIo
  preAnswer : Bool
  bug : Bool
  stereo : Bool
  wsUri : CStr
  uuid : Option CStr
  sampling : ℤ
  metadata : Option CStr

inductive ModuleEvent
  | start (channel : ℕ) (a : CaptureStart)
  | stop (channel : ℕ) (x : EventMemIo)
  | call (channel : ℕ) (x : EventMemIo) (e : WorldEvent)
  | work (bridge : ℕ) (x : EventMemIo) (e : WorldEvent)

/-- Everything the `start` message of the event makes, if there is one, has its place in it. -/
def ModuleEvent.attaches : ModuleEvent → Bool
  | .start _ a => (a.io.allocs 1).attaches
  | .stop _ _ => true
  | .call _ x e | .work _ x e => e.attaches x

/-- Who takes an event of a bridge: a thread that asks the channel for the bridge, `do_stop`,
or one that belongs to the bridge, the worker and the thread that joins it. -/
inductive Caller
  | channel | stop | own
  deriving DecidableEq

def WorldEvent.caller : WorldEvent → Caller
  | .onRead _ _ | .onWrite _ _ | .applyWrite _ _ | .clear _ | .sendMark _ _ | .pause _ _
  | .closeRequest => .channel
  | .stopRequest => .stop
  | _ => .own

/-- The event, with the outcome of the connection that the memory opens. -/
def WorldEvent.meeting (openssl : Bool) (x : EventMemIo) (m : TechMem) : WorldEvent → WorldEvent
  | .connect _ => .connect (x.net.opens openssl m.wsUri m.headers)
  | e => e

section

variable (printNumber : List UInt8 → List UInt8) (openssl : Bool)

/-- The event `e` on the bridge `n`, freed or not. -/
def Module.act (s : Module) (n : ℕ) (x : EventMemIo) (e : WorldEvent) : Module :=
  match s.bridges[n]? with
  | none => s
  | some b =>
    let e := e.meeting openssl x b.mem
    let r := Mem.step openssl x b.world b.mem e s.ledger
    { s with ledger := r.2, bridges := s.bridges.set n ⟨b.world.step e, r.1.getD b.mem⟩ }

/-- `start_capture`, behind its checks. With no media bug to be had the bridge is stopped
again. -/
def Module.startBridge (s : Module) (c : ℕ) (a : CaptureStart) : Module :=
  let channels := if a.stereo then 2 else 1
  let r := Mem.rtwBridgeStart printNumber openssl a.io a.wsUri a.uuid a.sampling channels
    a.metadata s.ledger
  match r.1, bridgeStarts printNumber openssl a.io a.wsUri a.uuid a.sampling channels a.metadata with
  | some m, some t =>
    if a.bug then
      { ledger := r.2
        bridges := s.bridges ++ [⟨⟨t, .loop⟩, m⟩]
        privates := Function.update s.privates c (some s.bridges.length) }
    else { s with
      ledger := r.2
      bridges := s.bridges ++ [⟨⟨bridgeStopRequest t, .loop⟩, m⟩] }
  | _, _ => { s with ledger := r.2 }

/-- `start_capture` -/
def Module.startCapture (s : Module) (c : ℕ) (a : CaptureStart) : Module :=
  if (s.privates c).isSome then s
  else if a.preAnswer = false then s
  else s.startBridge printNumber openssl c a

/-- `do_stop`, up to the join in `rtw_bridge_stop`. -/
def Module.doStop (s : Module) (c : ℕ) (x : EventMemIo) : Module :=
  match s.privates c with
  | none => s
  | some n =>
    { s.act openssl n x .stopRequest with privates := Function.update s.privates c none }

/-- `rtw_mod_get_tech`, and a call of the bridge it returns. -/
def Module.callTech (s : Module) (c : ℕ) (x : EventMemIo) (e : WorldEvent) : Module :=
  match s.privates c with
  | none => s
  | some n => s.act openssl n x e

/-- A bridge that is freed has no threads. -/
def Module.running (s : Module) (n : ℕ) : Bool :=
  (s.bridges[n]?).any fun b => b.world.pc ≠ .freed

def Module.step (s : Module) : ModuleEvent → Module
  | .start c a => s.startCapture printNumber openssl c a
  | .stop c x => s.doStop openssl c x
  | .call c x e => if e.caller = .channel then s.callTech openssl c x e else s
  | .work n x e => if e.caller = .own ∧ s.running n then s.act openssl n x e else s

def modRealtimeWs : Machine Module ModuleEvent Unit where
  step := Module.step printNumber openssl
  out _ _ := []

end

def Module.initial : Module := ⟨.empty, [], fun _ => none⟩

/-- What a bridge owns. -/
def Bridge.owned (b : Bridge) : Multiset Pointer :=
  if b.world.pc = .freed then 0 else b.mem.owned

/-- A bridge with memory, which nobody has asked to stop. -/
def World.Open (w : World) : Prop := w.pc ≠ .freed ∧ w.tech.cleanupStarted = false

/-- A bridge that is not freed has the memory the model of it has. -/
def Bridge.Sound (b : Bridge) : Prop := b.world.pc ≠ .freed → Backed b.world b.mem

/-- Nothing is live but what the bridges own, and what was lost. -/
structure Module.Accounted (L : Pointer → Prop) (s : Module) : Prop where
  shared : Tenancy L Bridge.owned s.bridges s.ledger
  sound : ∀ b ∈ s.bridges, b.Sound

/-- A channel's slot names an open bridge, and no other channel's slot does. -/
structure Module.Attached (s : Module) : Prop where
  bridge : ∀ c n, s.privates c = some n → ∃ b, s.bridges[n]? = some b ∧ b.world.Open
  own : ∀ c c' n, s.privates c = some n → s.privates c' = some n → c = c'

/-! ### What a bridge's step leaves alone -/

/-- A flush does not touch the flags of the bridge. -/
theorem flushOutbound_cleanup (io : Io) (t : Tech) :
    (flushOutbound io t).cleanupStarted = t.cleanupStarted := by rw [flushOutbound_rest]

theorem handleAndFlush_cleanup (io : Io) (t : Tech) (text : CStr) :
    (handleAndFlush io t text).cleanupStarted = t.cleanupStarted := by
  unfold handleAndFlush
  exact flushOutbound_cleanup _ _

theorem Silent.cleanup {t u : Tech} (h : Silent t u) : u.cleanupStarted = t.cleanupStarted := by
  rw [h.rest]

theorem onWsText_cleanup (io : Io) (t : Tech) (text : CStr) :
    (onWsText io t text).cleanupStarted = t.cleanupStarted := by
  unfold onWsText
  split_ifs
  · rfl
  · rfl
  · exact handleAndFlush_cleanup _ _ _

theorem clear_cleanup (io : Io) (t : Tech) :
    (rtwBridgeClear io t).2.cleanupStarted = t.cleanupStarted := by
  unfold rtwBridgeClear
  split_ifs
  · rfl
  · rfl
  · exact handleAndFlush_cleanup _ _ _

theorem sendMark_cleanup (io : Io) (t : Tech) (name : CStr) :
    (rtwBridgeSendMark io t name).2.cleanupStarted = t.cleanupStarted := by
  unfold rtwBridgeSendMark
  split_ifs
  · rfl
  · rfl
  · exact handleAndFlush_cleanup _ _ _

theorem reconnectHandshake_cleanup (io : Io) (t : Tech) :
    (reconnectHandshake io t).cleanupStarted = t.cleanupStarted := by
  unfold reconnectHandshake
  split_ifs
  · exact flushOutbound_cleanup _ _
  · rfl

theorem reconnectBegin_cleanup {t t' : Tech} {backoff : ℕ}
    (h : reconnectBegin t = some (backoff, t')) : t'.cleanupStarted = t.cleanupStarted := by
  unfold reconnectBegin at h
  split_ifs at h
  all_goals
    obtain ⟨-, rfl⟩ := Prod.mk.inj (Option.some.inj h)
    rfl

/-- A step taken at one place of the code. -/
theorem World.Open.at_place {w w' v : World} {p : Prop} [Decidable p] (h : w.Open)
    (hv : v = if p then w' else w) (hpc : w'.pc ≠ .freed)
    (hcleanup : w'.tech.cleanupStarted = w.tech.cleanupStarted) : v.Open := by
  rw [hv]
  split_ifs
  · exact ⟨hpc, hcleanup.trans h.2⟩
  · exact h

/-- A call of the bridge. -/
theorem World.Open.called {w v : World} {t : Tech} (h : w.Open)
    (hv : v = if w.pc = .freed then w else { w with tech := t })
    (hcleanup : t.cleanupStarted = w.tech.cleanupStarted) : v.Open := by
  rw [hv, if_neg h.1]
  exact ⟨h.1, hcleanup.trans h.2⟩

/-- Only `do_stop` begins the end of a bridge: every other event leaves an open bridge open. -/
theorem World.Open.step {w : World} {e : WorldEvent} (h : w.Open) (hcaller : e.caller ≠ .stop) :
    (w.step e).Open := by
  cases e with
  | onRead io pcm => exact h.called rfl (silent_onRead io w.tech pcm).cleanup
  | onWrite io n => exact h.called rfl (silent_onWrite io w.tech n).cleanup
  | applyWrite io pcm => exact h.called rfl (silent_applyWrite io w.tech pcm).cleanup
  | clear io => exact h.called rfl (clear_cleanup io w.tech)
  | sendMark io name => exact h.called rfl (sendMark_cleanup io w.tech name)
  | pause io on => exact h.called rfl (silent_pause io w.tech on).cleanup
  | closeRequest => exact h.called rfl rfl
  | stopRequest => exact absurd rfl hcaller
  | stopFinish io =>
    have hstep : w.step (.stopFinish io) = w := by
      refine if_neg fun hplace => ?_
      rw [h.2] at hplace
      exact Bool.false_ne_true hplace.2
    rw [hstep]
    exact h
  | wsText io text => exact h.at_place rfl h.1 (onWsText_cleanup io w.tech text)
  | wsClose => exact h.at_place rfl h.1 rfl
  | polled => exact h.at_place rfl (by simp) rfl
  | flush io =>
    refine h.at_place rfl (by simp) ?_
    cases io.locked with
    | true => exact flushOutbound_cleanup io w.tech
    | false => rfl
  | leave => exact h.at_place rfl (by simp) rfl
  | beginReconnect =>
    refine h.at_place rfl ?_ ?_
    · cases reconnectBegin { w.tech with wsReady := false } <;> simp
    · cases hbegin : reconnectBegin { w.tech with wsReady := false } with
      | none => rfl
      | some r =>
        have hkeep := reconnectBegin_cleanup hbegin
        exact hkeep
  | wake =>
    refine h.at_place rfl ?_ rfl
    cases sleepInterruptibleMs w.tech 1 <;> simp
  | closeOld => exact h.at_place rfl (by simp) rfl
  | connect ok =>
    refine h.at_place rfl ?_ ?_
    · cases ok <;> simp
    · cases ok <;> rfl
  | check =>
    refine h.at_place rfl ?_ ?_
    · cases stopping w.tech <;> simp
    · cases stopping w.tech <;> rfl
  | rehandshake io => exact h.at_place rfl (by simp) (reconnectHandshake_cleanup io w.tech)
  | finish => exact h.at_place rfl (by simp) rfl

/-! ### Steps of the module -/

section

variable {printNumber : List UInt8 → List UInt8} {openssl : Bool} {s : Module}
variable {L : Pointer → Prop}

theorem meeting_meets (openssl : Bool) (x : EventMemIo) (m : TechMem) (e : WorldEvent) :
    (e.meeting openssl x m).Meets openssl x m := by
  cases e
  case connect => rfl
  all_goals trivial

theorem meeting_attaches (openssl : Bool) (x : EventMemIo) (m : TechMem) (e : WorldEvent) :
    (e.meeting openssl x m).attaches x = e.attaches x := by
  cases e <;> rfl

theorem meeting_caller (openssl : Bool) (x : EventMemIo) (m : TechMem) (e : WorldEvent) :
    (e.meeting openssl x m).caller = e.caller := by
  cases e <;> rfl

/-- What a bridge is after an event that left `r` of its memory. -/
def Bridge.next (b : Bridge) (e : WorldEvent) (r : Option TechMem) : Bridge :=
  ⟨b.world.step e, r.getD b.mem⟩

theorem Goes.next {b : Bridge} {e : WorldEvent} {r : Option TechMem} (h : Goes b.world e r) :
    (b.next e r).Sound ∧ (b.next e r).owned = r.elim 0 TechMem.owned := by
  cases r with
  | none =>
    have hfreed : (b.world.step e).pc = .freed := h
    constructor
    · intro halive
      exact absurd hfreed halive
    · exact if_pos hfreed
  | some m =>
    have hbacked : Backed (b.world.step e) m := h
    constructor
    · intro _
      exact hbacked
    · exact if_neg hbacked.alive

theorem Module.act_eq {n : ℕ} {b : Bridge} (hb : s.bridges[n]? = some b) (x : EventMemIo)
    (e : WorldEvent) : s.act openssl n x e = { s with
      ledger := (Mem.step openssl x b.world b.mem (e.meeting openssl x b.mem) s.ledger).2
      bridges := s.bridges.set n (b.next (e.meeting openssl x b.mem)
        (Mem.step openssl x b.world b.mem (e.meeting openssl x b.mem) s.ledger).1) } := by
  unfold Module.act
  rw [hb]
  rfl

/-- An event of a bridge that is not freed. -/
theorem Module.Accounted.act (h : s.Accounted L) {n : ℕ} {b : Bridge}
    (hb : s.bridges[n]? = some b) (hpc : b.world.pc ≠ .freed) {x : EventMemIo} {e : WorldEvent}
    (hL : MayLose L (e.attaches x)) : (s.act openssl n x e).Accounted L := by
  have hbacked := h.sound b (List.mem_of_getElem? hb) hpc
  have haccounts := step_accounts hbacked (meeting_meets openssl x b.mem e)
    (L := L) (by rwa [meeting_attaches])
  have howned : b.owned = b.mem.owned := if_neg hpc
  rw [← howned] at haccounts
  obtain ⟨hgoes, hshared⟩ := h.shared.act hb haccounts
    (b.next (e.meeting openssl x b.mem)) fun r hr => hr.next.2
  rw [Module.act_eq hb]
  refine ⟨hshared, fun b' hb' => ?_⟩
  rcases List.mem_or_eq_of_mem_set hb' with hold | rfl
  · exact h.sound b' hold
  · exact hgoes.next.1

/-- An event that is no stop leaves every slot with an open bridge. -/
theorem Module.Attached.act (h : s.Attached) {n : ℕ} {b : Bridge}
    (hb : s.bridges[n]? = some b) (x : EventMemIo) {e : WorldEvent} (hcaller : e.caller ≠ .stop) :
    (s.act openssl n x e).Attached := by
  rw [Module.act_eq hb]
  refine ⟨fun c k hk => ?_, h.own⟩
  obtain ⟨b', hb', hopen⟩ := h.bridge c k hk
  by_cases hkn : n = k
  · subst hkn
    rw [hb] at hb'
    cases hb'
    refine ⟨_, List.getElem?_set_self (List.getElem?_eq_some_iff.mp hb).1, ?_⟩
    exact hopen.step (by rwa [meeting_caller])
  · exact ⟨b', (List.getElem?_set_ne hkn).trans hb', hopen⟩

theorem Module.Attached.stop (h : s.Attached) {c n : ℕ} (hc : s.privates c = some n)
    (x : EventMemIo) (e : WorldEvent) :
    Module.Attached { s.act openssl n x e with
      privates := Function.update s.privates c none } := by
  obtain ⟨b, hb, -⟩ := h.bridge c n hc
  rw [Module.act_eq hb]
  constructor
  · intro c' k hk
    by_cases hcc : c' = c
    · subst hcc
      dsimp only at hk
      rw [Function.update_self] at hk
      cases hk
    · dsimp only at hk
      rw [Function.update_of_ne hcc] at hk
      obtain ⟨b', hb', hopen⟩ := h.bridge c' k hk
      have hkn : n ≠ k := by
        rintro rfl
        exact hcc (h.own c' c n hk hc)
      exact ⟨b', (List.getElem?_set_ne hkn).trans hb', hopen⟩
  · intro c' c'' k hk hk'
    dsimp only at hk hk'
    by_cases hcc : c' = c
    · rw [hcc, Function.update_self] at hk
      cases hk
    by_cases hcc' : c'' = c
    · rw [hcc', Function.update_self] at hk'
      cases hk'
    rw [Function.update_of_ne hcc] at hk
    rw [Function.update_of_ne hcc'] at hk'
    exact h.own c' c'' k hk hk'

/-! ### Starting -/

/-- A bridge starts open. -/
theorem bridgeStarts_cleanup {io : StartMemIo} {wsUri : CStr} {uuid : Option CStr}
    {sampling channels : ℤ} {metadata : Option CStr} {t : Tech}
    (h : bridgeStarts printNumber openssl io wsUri uuid sampling channels metadata = some t) :
    t.cleanupStarted = false := by
  unfold bridgeStarts at h
  cases hinit : rtwSessionInit io.start.queueOk io.start.playoutOk 256 (64 * 1024) with
  | none =>
    rw [hinit] at h
    simp only [ite_self] at h
    cases h
  | some session =>
    rw [hinit] at h
    dsimp only at h
    split_ifs at h
    cases h
    exact flushOutbound_cleanup _ _

theorem Module.Attached.short (h : s.Attached) {c n : ℕ} (hc : s.privates c = some n) :
    n < s.bridges.length := by
  obtain ⟨b, hb, -⟩ := h.bridge c n hc
  exact (List.getElem?_eq_some_iff.mp hb).1

/-- A bridge that no slot names. -/
theorem Module.Attached.append (h : s.Attached) (b : Bridge) (ledger : Ledger Resource) :
    Module.Attached ⟨ledger, s.bridges ++ [b], s.privates⟩ := by
  refine ⟨fun c n hc => ?_, h.own⟩
  obtain ⟨b', hb', hopen⟩ := h.bridge c n hc
  exact ⟨b', (List.getElem?_append_left (h.short hc)).trans hb', hopen⟩

/-- A new bridge is named by the slot of its channel, which was empty. -/
theorem Module.Attached.start (h : s.Attached) {c : ℕ} {b : Bridge} (hopen : b.world.Open)
    (ledger : Ledger Resource) :
    Module.Attached ⟨ledger, s.bridges ++ [b],
      Function.update s.privates c (some s.bridges.length)⟩ := by
  constructor
  · intro c' n hc'
    by_cases hcc : c' = c
    · dsimp only at hc'
      rw [hcc, Function.update_self] at hc'
      cases hc'
      exact ⟨b, List.getElem?_concat_length, hopen⟩
    · dsimp only at hc'
      rw [Function.update_of_ne hcc] at hc'
      obtain ⟨b', hb', hopen'⟩ := h.bridge c' n hc'
      exact ⟨b', (List.getElem?_append_left (h.short hc')).trans hb', hopen'⟩
  · intro c' c'' n hc' hc''
    dsimp only at hc' hc''
    by_cases hcc : c' = c
    · by_cases hcc' : c'' = c
      · exact hcc.trans hcc'.symm
      · rw [hcc, Function.update_self] at hc'
        rw [Function.update_of_ne hcc'] at hc''
        cases hc'
        exact absurd (h.short hc'') (Nat.lt_irrefl _)
    · rw [Function.update_of_ne hcc] at hc'
      by_cases hcc' : c'' = c
      · rw [hcc', Function.update_self] at hc''
        cases hc''
        exact absurd (h.short hc') (Nat.lt_irrefl _)
      · rw [Function.update_of_ne hcc'] at hc''
        exact h.own c' c'' n hc' hc''

/-- Everything that holds of the module in every run. -/
structure Module.Sound (L : Pointer → Prop) (s : Module) : Prop where
  accounted : s.Accounted L
  attached : s.Attached

theorem Module.Accounted.join {c : Heap (Option TechMem)} {φ : Option TechMem → Prop}
    (h : s.Accounted L) (hc : Accounts L 0 c φ fun r => r.elim 0 TechMem.owned) {b : Bridge}
    (hm : (c s.ledger).1 = some b.mem) (hbacked : Backed b.world b.mem)
    (privates : ℕ → Option ℕ) :
    Module.Accounted L ⟨(c s.ledger).2, s.bridges ++ [b], privates⟩ := by
  obtain ⟨-, hshared⟩ := h.shared.join hc b fun _ => by
    rw [hm]
    exact if_neg hbacked.alive
  refine ⟨hshared, fun b' hb' => ?_⟩
  rcases List.mem_append.mp hb' with hold | hnew
  · exact h.sound b' hold
  · cases List.mem_singleton.mp hnew
    exact fun _ => hbacked

theorem Module.Sound.startBridge (h : s.Sound L) (c : ℕ) {a : CaptureStart}
    (hL : MayLose L (a.io.allocs 1).attaches) :
    (s.startBridge printNumber openssl c a).Sound L := by
  have haccounts := rtwBridgeStart_accounts printNumber openssl hL a.wsUri a.uuid a.sampling
    (if a.stereo then 2 else 1) a.metadata
  obtain ⟨-, ⟨hsome, hmirrors⟩, -⟩ := h.accounted.shared.account (zero_add _).symm haccounts
  unfold Module.startBridge
  dsimp only
  cases hr : (Mem.rtwBridgeStart printNumber openssl a.io a.wsUri a.uuid a.sampling
      (if a.stereo then 2 else 1) a.metadata s.ledger).1 with
  | none =>
    obtain ⟨-, hshared⟩ := h.accounted.shared.visit haccounts fun _ => by rw [hr]; rfl
    exact ⟨⟨hshared, h.accounted.sound⟩, ⟨h.attached.bridge, h.attached.own⟩⟩
  | some m =>
    rw [hr] at hsome hmirrors
    obtain ⟨t, ht⟩ := Option.isSome_iff_exists.mp hsome.symm
    obtain ⟨hm, -⟩ := hmirrors m rfl t ht
    rw [ht]
    dsimp only
    cases a.bug with
    | true =>
      have hbacked : Backed ⟨t, .loop⟩ m := ⟨hm, by simp, by simp⟩
      refine ⟨h.accounted.join haccounts (b := ⟨⟨t, .loop⟩, m⟩) hr hbacked _, ?_⟩
      exact h.attached.start (b := ⟨⟨t, .loop⟩, m⟩) ⟨by simp, bridgeStarts_cleanup ht⟩ _
    | false =>
      have hbacked : Backed ⟨bridgeStopRequest t, .loop⟩ m :=
        ⟨⟨hm.session, hm.ws⟩, by simp, by simp⟩
      refine ⟨h.accounted.join haccounts (b := ⟨⟨bridgeStopRequest t, .loop⟩, m⟩) hr hbacked _, ?_⟩
      exact h.attached.append _ _

theorem Module.Sound.startCapture (h : s.Sound L) (c : ℕ) {a : CaptureStart}
    (hL : MayLose L (a.io.allocs 1).attaches) :
    (s.startCapture printNumber openssl c a).Sound L := by
  unfold Module.startCapture
  split_ifs
  · exact h
  · exact h
  · exact h.startBridge c hL

theorem Module.Sound.doStop (h : s.Sound L) (c : ℕ) (x : EventMemIo) :
    (s.doStop openssl c x).Sound L := by
  unfold Module.doStop
  cases hc : s.privates c with
  | none => exact h
  | some n =>
    obtain ⟨b, hb, hopen⟩ := h.attached.bridge c n hc
    have hnone : MayLose L (WorldEvent.attaches x .stopRequest) := by
      intro hno
      cases hno
    have hacts : (s.act openssl n x .stopRequest).Accounted L := h.accounted.act hb hopen.1 hnone
    exact ⟨⟨hacts.shared, hacts.sound⟩, h.attached.stop hc x .stopRequest⟩

theorem Module.Sound.callTech (h : s.Sound L) (c : ℕ) {x : EventMemIo} {e : WorldEvent}
    (hL : MayLose L (e.attaches x)) (he : e.caller = .channel) :
    (s.callTech openssl c x e).Sound L := by
  unfold Module.callTech
  cases hc : s.privates c with
  | none => exact h
  | some n =>
    obtain ⟨b, hb, hopen⟩ := h.attached.bridge c n hc
    exact ⟨h.accounted.act hb hopen.1 hL, h.attached.act hb x (by rw [he]; decide)⟩

theorem Module.Sound.work (h : s.Sound L) {n : ℕ} {x : EventMemIo} {e : WorldEvent}
    (hL : MayLose L (e.attaches x)) (he : e.caller = .own) (hruns : s.running n = true) :
    (s.act openssl n x e).Sound L := by
  unfold Module.running at hruns
  cases hb : s.bridges[n]? with
  | none =>
    rw [hb] at hruns
    cases hruns
  | some b =>
    rw [hb, Option.any_some] at hruns
    exact ⟨h.accounted.act hb (of_decide_eq_true hruns) hL,
      h.attached.act hb x (by rw [he]; decide)⟩

theorem Module.Sound.step (h : s.Sound L) {e : ModuleEvent} (hL : MayLose L e.attaches) :
    (s.step printNumber openssl e).Sound L := by
  cases e with
  | start c a => exact h.startCapture c hL
  | stop c x => exact h.doStop c x
  | call c x e =>
    unfold Module.step
    dsimp only
    split_ifs with he
    · exact h.callTech c hL he
    · exact h
  | work n x e =>
    unfold Module.step
    dsimp only
    split_ifs with he
    · exact h.work hL he.1 he.2
    · exact h

theorem Module.Sound.initial : Module.initial.Sound L := by
  refine ⟨⟨Tenancy.empty, ?_⟩, ⟨?_, ?_⟩⟩
  · rintro b ⟨⟩
  · rintro c n ⟨⟩
  · rintro c c' n ⟨⟩

theorem sum_owned_of_freed {bridges : List Bridge} (h : ∀ b ∈ bridges, b.world.pc = .freed) :
    (bridges.map Bridge.owned).sum = 0 := by
  refine List.sum_eq_zero fun p hp => ?_
  obtain ⟨b, hb, rfl⟩ := List.mem_map.mp hp
  exact if_pos (h b hb)

end

/-- Whatever fails and in whatever order the threads of the channels and of the bridges act: no
memory is used or given back that is not live, no channel's slot names a bridge that is being
stopped or is gone, no two slots name the same one, and all that is live belongs to a bridge
that is not freed yet, but for trees that a `start` message had no place for. None is lost where
every such message is granted its items. -/
theorem captures_own_their_memory (printNumber : List UInt8 → List UInt8) (openssl : Bool)
    (events : List ModuleEvent) :
    let s := (modRealtimeWs printNumber openssl).run .initial events
    s.ledger.faulted = false ∧
      (∃ lost : Multiset Pointer, s.ledger.live = (s.bridges.map Bridge.owned).sum + lost ∧
        (∀ p ∈ lost, p.kind = .tree) ∧ ((∀ e ∈ events, e.attaches = true) → lost = 0) ∧
        ((∀ b ∈ s.bridges, b.world.pc = .freed) → s.ledger.live = lost)) ∧
      (∀ c n, s.privates c = some n → ∃ b, s.bridges[n]? = some b ∧ b.world.Open) ∧
      (∀ c c' n, s.privates c = some n → s.privates c' = some n → c = c') := by
  have hmay : ∀ e ∈ events,
      MayLose (fun p => p.kind = .tree ∧ ∃ e ∈ events, e.attaches = false) e.attaches :=
    fun e he hno p htree => ⟨htree, e, he, hno⟩
  have hsound := Machine.invariant (modRealtimeWs printNumber openssl)
    (fun s e hL (hs : s.Sound fun p => p.kind = .tree ∧ ∃ e ∈ events, e.attaches = false) =>
      hs.step hL) Module.Sound.initial (Machine.along_of_mem _ hmay _)
  obtain ⟨⟨⟨hok, lost, hlost, hlive⟩, -⟩, ⟨hbridge, hown⟩⟩ := hsound
  refine ⟨hok, ⟨lost, hlive, fun p hp => (hlost p hp).1, fun hall => ?_, fun hfreed => ?_⟩, hbridge,
    hown⟩
  · refine Multiset.eq_zero_of_forall_notMem fun p hp => ?_
    obtain ⟨-, e, he, hno⟩ := hlost p hp
    cases hno.symm.trans (hall e he)
  · rw [hlive, sum_owned_of_freed hfreed, zero_add]

end RealtimeWs.Mod
