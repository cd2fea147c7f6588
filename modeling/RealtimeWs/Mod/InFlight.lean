import RealtimeWs.Mod.Handles

/-! Delivery by the threads. A message is peeked, sent and dropped in steps of their own,
and the other threads act in between; none of them can move the head of the queue then. -/
namespace RealtimeWs.Mod

open RealtimeWs.Core

/-! ### What a step does to the messages -/

/-- The message a thread has peeked and not yet sent. -/
def Pc.carries? : Pc → Option OutMsg
  | .flush _ (.readArg json) | .flush _ (.send _ json) => some json
  | _ => none

/-- Behind a send that succeeded, about to drop the head of the queue. -/
def Pc.dropping : Pc → Bool
  | .flush _ .drop => true
  | _ => false

/-- The effects a step of a thread from `pc` to `pc'` can have on the messages: new ones
are queued and perhaps the head is peeked, the head is sent, or the head is dropped. -/
inductive FlowStep : Pc → Tech → Pc → Tech → Prop
  | queue {pc t pc' u} (ms : Offers) (h : Emits t.session.out ms u.session.out)
      (hwire : u.wire = t.wire) (hfrom : pc.dropping = false) (hto : pc'.dropping = false)
      (hcarries : ∀ json, pc'.carries? = some json →
        u.session.outbound.contents.head? = some json ∨
          (pc.carries? = some json ∧ u.session = t.session)) : FlowStep pc t pc' u
  | send {pc t pc' u} (c : ℕ) (json : OutMsg) (sent : Bool) (hcarries : pc.carries? = some json)
      (hsession : u.session = t.session) (hwire : u.wire = t.wire ++ [⟨c, json, sent⟩])
      (hto : pc'.dropping = sent) (hdone : pc'.carries? = none) : FlowStep pc t pc' u
  | drop {pc t pc' u} (hfrom : pc.dropping = true) (hto : pc'.dropping = false)
      (hdone : pc'.carries? = none) (hwire : u.wire = t.wire)
      (hsession : u.session = (rtwSessionDropOutboundHead t.session).2) : FlowStep pc t pc' u

/-- A step that neither touches the messages nor peeks at one. -/
theorem FlowStep.idle {pc pc' : Pc} {t u : Tech} (hsession : u.session = t.session)
    (hwire : u.wire = t.wire) (hfrom : pc.dropping = false) (hto : pc'.dropping = false)
    (hcarries : pc'.carries? = none) : FlowStep pc t pc' u := by
  refine .queue [] ?_ hwire hfrom hto ?_
  · rw [hsession]
    exact .nil _
  · intro json h
    cases hcarries.symm.trans h

/-- A step that calls the session. -/
theorem FlowStep.session {pc pc' : Pc} {t u : Tech} {ms : Offers}
    (h : Emits t.session.out ms u.session.out) (hwire : u.wire = t.wire)
    (hfrom : pc.dropping = false) (hto : pc'.dropping = false)
    (hcarries : pc'.carries? = none) : FlowStep pc t pc' u := by
  refine .queue ms h hwire hfrom hto ?_
  intro json hjson
  cases hcarries.symm.trans hjson

theorem rtwSessionHandlePeerJson_emits (env : Env) (s : Session) (text : CStr) :
    ∃ ms, Emits s.out ms (rtwSessionHandlePeerJson env s text).2.out := by
  obtain ⟨ms, x, he, -, hout⟩ := s.step_out env (.handlePeerJson text)
  have hout : (rtwSessionHandlePeerJson env s text).2.out = x := hout
  exact ⟨ms, hout ▸ he⟩

/-- The calls of the media bug and of `pause` only queue messages. -/
theorem holdSamples_emits (io : Io) (i : ℕ) (samples : List Int16) (t : Tech) :
    ∃ ms, Emits t.session.out ms (holdSamples io i samples t).session.out := by
  induction samples generalizing i t with
  | nil => exact ⟨[], .nil _⟩
  | cons sample samples ih =>
    have hone : ∃ ms, Emits t.session.out ms (holdSample (io.env i) t sample).session.out := by
      unfold holdSample
      split
      · obtain ⟨ms, he, -⟩ := rtwSessionPushPcm16_spec (io.env i) t.session
          ((heldWith t sample).take 160)
        exact ⟨ms, he⟩
      · exact ⟨[], .nil _⟩
    obtain ⟨ms, he⟩ := hone
    obtain ⟨ns, hk⟩ := ih (i + 1) (holdSample (io.env i) t sample)
    exact ⟨ms ++ ns, he.trans hk⟩

theorem takePlayout_out (env : Env) (t : Tech) (want : ℕ) :
    (takePlayout env t want).2.session.out = t.session.out := by
  simp only [takePlayout]
  split
  · rfl
  · exact (noteWriteAfterClear_frame env _ 0).1

theorem mediaCall_emits (io : StepIo) (g : Shared) (call : Call) :
    ∃ ms, Emits g.tech.session.out ms (mediaCall io g call).session.out := by
  have htake : ∀ want, (takePlayout (io.env 0) g.tech want).2.session.out = g.tech.session.out :=
    takePlayout_out (io.env 0) g.tech
  cases call with
  | onRead pcm =>
    simp only [mediaCall]
    unfold rtwBridgeOnReadPcm16
    split_ifs
    · exact ⟨[], .nil _⟩
    · exact ⟨[], .nil _⟩
    · exact holdSamples_emits _ 0 _ g.tech
    · exact holdSamples_emits _ 0 _ g.tech
  | onWrite n =>
    refine ⟨[], ?_⟩
    simp only [mediaCall]
    unfold rtwBridgeOnWritePcm16
    split_ifs
    · exact .nil _
    · exact .nil _
    · rw [htake]
      exact .nil _
  | applyWrite pcm =>
    refine ⟨[], ?_⟩
    simp only [mediaCall]
    unfold rtwBridgeApplyWriteFrame
    split_ifs
    · exact .nil _
    · exact .nil _
    · have hout := htake (writeWant pcm.length)
      simp only
      split
      · rw [hout]
        exact .nil _
      · cases g.tech.injectMode <;> rw [hout] <;> exact .nil _
  | pause on =>
    refine ⟨[], ?_⟩
    simp only [mediaCall]
    unfold rtwBridgePause
    split_ifs <;> exact .nil _
  | _ => exact ⟨[], .nil _⟩

variable (printNumber : List UInt8 → List UInt8)

theorem FlowStep.flush (io : StepIo) (g : Shared) (site : FlushSite) (f : FlushPc) :
    FlowStep (.flush site f) g.tech (.flush site (flushStep printNumber io g f).1)
      (flushStep printNumber io g f).2.tech := by
  cases f with
  | readWs =>
    simp only [flushStep]
    split
    · exact .idle rfl rfl rfl rfl rfl
    · exact .idle rfl rfl rfl rfl rfl
  | readReady =>
    simp only [flushStep]
    split
    · exact .idle rfl rfl rfl rfl rfl
    · exact .idle rfl rfl rfl rfl rfl
  | peek =>
    obtain ⟨ms, x, he, -, hout⟩ := g.tech.session.step_out (io.env 0) .peekOutbound
    have hout : (rtwSessionPeekOutbound (io.env 0) g.tech.session).2.out = x := hout
    have hpeek : (rtwSessionPeekOutbound (io.env 0) g.tech.session).1 =
        (rtwSessionPeekOutbound (io.env 0) g.tech.session).2.outbound.contents.head? :=
      rtwQueuePeek_eq_head? _
    simp only [flushStep]
    cases hmsg : (rtwSessionPeekOutbound (io.env 0) g.tech.session).1 with
    | none => exact .session (hout ▸ he) rfl rfl rfl rfl
    | some json =>
      refine .queue ms (hout ▸ he) rfl rfl rfl ?_
      intro json' h
      cases h
      exact Or.inl (hpeek.symm.trans hmsg)
  | readArg json =>
    refine .queue [] (.nil _) rfl rfl rfl ?_
    intro json' h
    exact Or.inr ⟨h, rfl⟩
  | send c json =>
    cases c with
    | none => exact .idle rfl rfl rfl rfl rfl
    | some c =>
      simp only [flushStep]
      cases hr : (sendStep printNumber io g c json).1 with
      | none =>
        -- the send never returns
        refine .queue [] (.nil _) rfl rfl rfl ?_
        intro json' h
        exact Or.inr ⟨h, rfl⟩
      | some r =>
        have hwire : (sendStep printNumber io g c json).2.tech.wire =
            g.tech.wire ++ [⟨c, json, decide (r = 0)⟩] := by
          have hret : (rtwWsSendText io.send io.client (json.text printNumber).bytes).1 = some r :=
            hr
          simp only [sendStep, hret, Option.some.injEq]
        by_cases hzero : r = 0
        · simp only [if_pos hzero]
          exact .send c json _ rfl rfl hwire (decide_eq_true hzero).symm rfl
        · simp only [if_neg hzero]
          exact .send c json _ rfl rfl hwire (decide_eq_false hzero).symm rfl
  | failed => exact .idle rfl rfl rfl rfl rfl
  | drop => exact .drop rfl rfl rfl rfl rfl
  | ret => exact .idle rfl rfl rfl rfl rfl

theorem FlowStep.idleCall (io : StepIo) (g : Shared) :
    FlowStep .idle g.tech (idleStep io g).1 (idleStep io g).2.tech := by
  have hmedia : ∀ call, FlowStep .idle g.tech .idle
      (if g.mutex = none then g.withTech (mediaCall io g call) else g).tech := by
    intro call
    split
    · obtain ⟨ms, he⟩ := mediaCall_emits io g call
      exact .session he (mediaCall_silent io g call).wire rfl rfl rfl
    · exact .idle rfl rfl rfl rfl rfl
  unfold idleStep
  cases io.call with
  | clear | stop | closeRequest => exact .idle rfl rfl rfl rfl rfl
  | sendMark name =>
    simp only
    split
    · exact .idle rfl rfl rfl rfl rfl
    · exact .idle rfl rfl rfl rfl rfl
  | onRead pcm => exact hmedia (.onRead pcm)
  | onWrite n => exact hmedia (.onWrite n)
  | applyWrite pcm => exact hmedia (.applyWrite pcm)
  | pause on => exact hmedia (.pause on)

theorem FlowStep.lock (t : Thread) (io : StepIo) (g : Shared) {wait inside failed : Pc}
    (hwait : wait.carries? = none ∧ wait.dropping = false)
    (hinside : inside.carries? = none ∧ inside.dropping = false)
    (hfailed : failed.carries? = none ∧ failed.dropping = false) :
    FlowStep wait g.tech (lock t io g wait inside failed).1
      (lock t io g wait inside failed).2.tech := by
  unfold RealtimeWs.Mod.lock
  split
  · exact .idle rfl rfl hwait.2 hfailed.2 hfailed.1
  · split
    · exact .idle rfl rfl hwait.2 hinside.2 hinside.1
    · exact .idle rfl rfl hwait.2 hwait.2 hwait.1

/-- What a step does to the messages, at every place of the program. -/
theorem flow_step (t : Thread) (io : StepIo) (g : Shared) (pc : Pc) :
    FlowStep pc g.tech (pc.step printNumber t io g).1 (pc.step printNumber t io g).2.tech := by
  have hidle : ∀ {pc' : Pc} {g' : Shared}, g'.tech.session = g.tech.session →
      g'.tech.wire = g.tech.wire → pc.dropping = false →
        pc'.carries? = none ∧ pc'.dropping = false → FlowStep pc g.tech pc' g'.tech := by
    intro pc' g' hsession hwire hfrom hto
    exact .idle hsession hwire hfrom hto.2 hto.1
  cases pc with
  | flush site f =>
    cases f with
    | ret => cases site <;> exact hidle rfl rfl rfl ⟨rfl, rfl⟩
    | _ => exact .flush printNumber io g site _
  | idle => exact .idleCall io g
  | textLock c text | callLock text | handshakeLock | stopLock =>
    exact .lock t io g ⟨rfl, rfl⟩ ⟨rfl, rfl⟩ ⟨rfl, rfl⟩
  -- calls of the session
  | textHandle c text =>
    simp only [Pc.step]
    split
    · exact hidle rfl rfl rfl ⟨rfl, rfl⟩
    · obtain ⟨ms, he⟩ := rtwSessionHandlePeerJson_emits (io.env 0) g.tech.session text
      exact .session he rfl rfl rfl rfl
  | callHandle text =>
    obtain ⟨ms, he⟩ := rtwSessionHandlePeerJson_emits (io.env 0) g.tech.session text
    exact .session he rfl rfl rfl rfl
  | handshake =>
    simp only [Pc.step]
    split
    · exact hidle rfl rfl rfl ⟨rfl, rfl⟩
    · obtain ⟨ms, x, he, -, hout⟩ := g.tech.session.step_out (io.env 0) .rehandshake
      have hout : (rtwSessionRehandshake (io.env 0) g.tech.session).2.out = x := hout
      exact .session (hout ▸ he) rfl rfl rfl rfl
  | stopSession =>
    obtain ⟨ms, he, -⟩ := rtwSessionStop_spec (io.env 0) g.tech.session
    exact .session he rfl rfl rfl rfl
  | close site p =>
    cases p with
    | read =>
      simp only [Pc.step, closeStep]
      split
      · cases site <;> exact hidle rfl rfl rfl ⟨rfl, rfl⟩
      · exact hidle rfl rfl rfl ⟨rfl, rfl⟩
    | clear => cases site <;> exact hidle rfl rfl rfl ⟨rfl, rfl⟩
    | _ => exact hidle rfl rfl rfl ⟨rfl, rfl⟩
  | poll c =>
    cases c with
    | none => exact hidle rfl rfl rfl ⟨rfl, rfl⟩
    | some c =>
      simp only [Pc.step]
      split <;> exact hidle rfl rfl rfl ⟨rfl, rfl⟩
  | begin =>
    simp only [Pc.step]
    rcases reconnectBegin_cases g.tech with hb | ⟨wait, hb⟩
    · rw [hb]
      exact hidle rfl rfl rfl ⟨rfl, rfl⟩
    · rw [hb]
      exact hidle rfl rfl rfl ⟨rfl, rfl⟩
  | unlock site => cases site <;> exact hidle rfl rfl rfl ⟨rfl, rfl⟩
  | _ =>
    simp only [Pc.step]
    first
    | exact hidle rfl rfl rfl ⟨rfl, rfl⟩
    | split <;> exact hidle rfl rfl rfl ⟨rfl, rfl⟩

/-! ### The other threads -/

/-- A thread outside of the sections leaves the messages alone while the mutex is taken. -/
theorem quiet_step (t : Thread) (io : StepIo) (g : Shared) {pc : Pc}
    (hout : pc.inSection = false) (hmutex : g.mutex ≠ none) :
    (pc.step printNumber t io g).2.tech.session = g.tech.session ∧
      (pc.step printNumber t io g).2.tech.wire = g.tech.wire := by
  have hlock : ∀ wait inside failed,
      (lock t io g wait inside failed).2.tech.session = g.tech.session ∧
        (lock t io g wait inside failed).2.tech.wire = g.tech.wire := by
    intro wait inside failed
    unfold RealtimeWs.Mod.lock
    split_ifs <;> exact ⟨rfl, rfl⟩
  cases pc with
  | flush | unlock | textHandle | handshake | callHandle | stopSession | stopReadWs | stopReady =>
    cases hout
  | textLock | callLock | handshakeLock | stopLock => exact hlock ..
  | idle =>
    simp only [Pc.step, idleStep]
    cases io.call with
    | clear | stop | closeRequest => exact ⟨rfl, rfl⟩
    | sendMark name => exact ⟨rfl, rfl⟩
    | _ =>
      simp only [if_neg hmutex, and_self]
  | close site p =>
    cases p with
    | _ => exact ⟨rfl, rfl⟩
  | trylock =>
    simp only [Pc.step]
    split <;> exact ⟨rfl, rfl⟩
  | poll c =>
    cases c with
    | none => exact ⟨rfl, rfl⟩
    | some c =>
      simp only [Pc.step]
      split <;> exact ⟨rfl, rfl⟩
  | begin =>
    simp only [Pc.step]
    rcases reconnectBegin_cases g.tech with hb | ⟨wait, hb⟩
    · rw [hb]
      exact ⟨rfl, rfl⟩
    · rw [hb]
      exact ⟨rfl, rfl⟩
  | connect =>
    simp only [Pc.step]
    split <;> exact ⟨rfl, rfl⟩
  | _ => exact ⟨rfl, rfl⟩

/-- What the thread in a section relies on: the others leave it and its messages alone. -/
theorem Ordinary.undisturbed {s : BridgeState} (h : Ordinary s) {t u : Thread}
    (hu : (s.pc u).inSection = true) (hne : u ≠ t) (io : StepIo) :
    (s.pc t).inSection = false ∧
      ((bridge printNumber).step s (t, io)).shared.tech.session = s.shared.tech.session ∧
        ((bridge printNumber).step s (t, io)).shared.tech.wire = s.shared.tech.wire := by
  have hout : (s.pc t).inSection = false := by
    rw [Bool.eq_false_iff]
    intro ht
    exact hne (h.exclusive.unique hu ht)
  refine ⟨hout, ?_⟩
  rw [Threads.shared_step]
  simp only [threads]
  split
  · exact ⟨rfl, rfl⟩
  · rename_i hrun
    apply quiet_step printNumber t io s.shared hout
    have howner := h.exclusive u hu
    unfold Shared.owner at howner
    cases hhanded : s.shared.handedOut with
    | true =>
      rw [hhanded, if_pos rfl] at howner
      rw [howner]
      exact Option.some_ne_none u
    | false =>
      -- only the thread that starts the bridge runs, and it is in its flush
      have hstarting : (s.pc t).starting = true := by
        by_contra hno
        exact hrun (Or.inr ⟨hhanded, Bool.eq_false_iff.mpr hno⟩)
      generalize s.pc t = pc at hout hstarting
      cases pc with
      | flush => cases hout
      | _ => cases hstarting

/-! ### The invariant -/

theorem carries_inSection {pc : Pc} {json : OutMsg} (h : pc.carries? = some json) :
    pc.inSection = true := by
  cases pc with
  | flush => rfl
  | _ => cases h

theorem dropping_inSection {pc : Pc} (h : pc.dropping = true) : pc.inSection = true := by
  cases pc with
  | flush => rfl
  | _ => cases h

/-- A peeked message stays the head of the queue until it is dropped, and what has been
sent is what was dropped, then the head that is about to be. -/
structure Flowing (s : BridgeState) : Prop where
  ordinary : Ordinary s
  lawful : s.shared.tech.session.outbound.Lawful
  numbered : Numbered s.shared.tech.session.out
  unpopped : Fifo.removedBy .popped s.shared.tech.session.outbound.history = []
  carried : ∀ t json, (s.pc t).carries? = some json →
    s.shared.tech.session.outbound.contents.head? = some json
  settled : (∀ t, (s.pc t).dropping = false) → s.shared.tech.delivered =
    Fifo.removedBy .dropped s.shared.tech.session.outbound.history
  sent : ∀ t, (s.pc t).dropping = true → ∃ json,
    s.shared.tech.session.outbound.contents.head? = some json ∧ s.shared.tech.delivered =
      Fifo.removedBy .dropped s.shared.tech.session.outbound.history ++ [json]

theorem delivered_snoc {t u : Tech} {c : ℕ} {json : OutMsg} {sent : Bool}
    (h : u.wire = t.wire ++ [⟨c, json, sent⟩]) :
    u.delivered = t.delivered ++ if sent = true then [json] else [] := by
  rw [Tech.delivered, Tech.delivered, h, List.filter_append, List.map_append]
  cases sent <;> rfl

theorem delivered_congr {t u : Tech} (h : u.wire = t.wire) : u.delivered = t.delivered := by
  rw [Tech.delivered, Tech.delivered, h]

/-- While another thread is in a section a step changes nothing of this. -/
theorem Flowing.other_step {s : BridgeState} (h : Flowing s) {t u : Thread} (io : StepIo)
    (hu : (s.pc u).inSection = true) (hne : u ≠ t) :
    Flowing ((bridge printNumber).step s (t, io)) := by
  obtain ⟨-, hsession, hwire⟩ := h.ordinary.undisturbed printNumber hu hne io
  have hafter := h.ordinary.step printNumber t io
  have hstill : (((bridge printNumber).step s (t, io)).pc u).inSection = true := by
    rw [Threads.pc_other hne]
    exact hu
  have hpc : ∀ v, (((bridge printNumber).step s (t, io)).pc v).inSection = true →
      ((bridge printNumber).step s (t, io)).pc v = s.pc v := by
    intro v hv
    rw [hafter.exclusive.unique hv hstill, Threads.pc_other hne]
  have hdelivered := delivered_congr hwire
  constructor
  · exact hafter
  · rw [hsession]
    exact h.lawful
  · rw [hsession]
    exact h.numbered
  · rw [hsession]
    exact h.unpopped
  · intro v json hv
    rw [hsession]
    rw [hpc v (carries_inSection hv)] at hv
    exact h.carried v json hv
  · intro hnone
    rw [hsession, hdelivered]
    refine h.settled fun v => ?_
    cases hv : (s.pc v).dropping with
    | false => rfl
    | true =>
      have hvu : v = u := h.ordinary.exclusive.unique (dropping_inSection hv) hu
      rw [hvu] at hv
      have hno := hnone u
      rw [Threads.pc_other hne] at hno
      cases hno.symm.trans hv
  · intro v hv
    rw [hsession, hdelivered]
    rw [hpc v (dropping_inSection hv)] at hv
    exact h.sent v hv

/-- A step of the only thread that can be in a section. -/
theorem Flowing.own_step {s : BridgeState} (h : Flowing s) {t : Thread} {io : StepIo}
    (hfree : ∀ u, u ≠ t → (s.pc u).inSection = false)
    (hflow : FlowStep (s.pc t) s.shared.tech (((bridge printNumber).step s (t, io)).pc t)
      ((bridge printNumber).step s (t, io)).shared.tech) :
    Flowing ((bridge printNumber).step s (t, io)) := by
  have hordinary := h.ordinary.step printNumber t io
  -- the other threads carry nothing
  have hothers : ∀ u, u ≠ t → (s.pc u).carries? = none ∧ (s.pc u).dropping = false := by
    intro u hu
    have hout := hfree u hu
    constructor
    · rw [Option.eq_none_iff_forall_ne_some]
      intro json hjson
      cases hout.symm.trans (carries_inSection hjson)
    · rw [Bool.eq_false_iff]
      intro hdrop
      cases hout.symm.trans (dropping_inSection hdrop)
  have hcarrier : ∀ u json, (((bridge printNumber).step s (t, io)).pc u).carries? = some json →
      u = t := by
    intro u json hu
    by_contra hne
    rw [Threads.pc_other hne] at hu
    cases (hothers u hne).1.symm.trans hu
  have hdropper : ∀ u, (((bridge printNumber).step s (t, io)).pc u).dropping = true → u = t := by
    intro u hu
    by_contra hne
    rw [Threads.pc_other hne] at hu
    cases (hothers u hne).2.symm.trans hu
  have hnone : (s.pc t).dropping = false → ∀ u, (s.pc u).dropping = false := by
    intro ht u
    by_cases hut : u = t
    · rw [hut]
      exact ht
    · exact (hothers u hut).2
  generalize ((bridge printNumber).step s (t, io)) = s' at hordinary hflow hcarrier hdropper ⊢
  cases hflow with
  | queue ms he hwire hfrom hto hcarries =>
    have hdelivered := delivered_congr hwire
    have hkept : ∀ {f : Fifo.Fate}, f ≠ .evicted →
        Fifo.removedBy f s'.shared.tech.session.outbound.history =
          Fifo.removedBy f s.shared.tech.session.outbound.history := by
      intro f hf
      exact he.removedBy hf
    constructor
    · exact hordinary
    · exact he.lawful h.lawful
    · exact he.numbered h.numbered
    · exact (hkept (by decide)).trans h.unpopped
    · intro u json hu
      have hut := hcarrier u json hu
      rw [hut] at hu
      rcases hcarries json hu with hhead | ⟨hold, hsession⟩
      · exact hhead
      · rw [hsession]
        exact h.carried t json hold
    · intro _
      rw [hkept (by decide), hdelivered]
      exact h.settled (hnone hfrom)
    · intro u hu
      have hut := hdropper u hu
      rw [hut] at hu
      cases hto.symm.trans hu
  | send c json sent hcarries hsession hwire hto hdone =>
    have hfrom : (s.pc t).dropping = false := by
      generalize s.pc t = pc at hcarries
      cases pc with
      | flush site f => cases f <;> first | rfl | cases hcarries
      | _ => rfl
    have hsettled := h.settled (hnone hfrom)
    have hdelivered := delivered_snoc hwire
    constructor
    · exact hordinary
    · rw [hsession]
      exact h.lawful
    · rw [hsession]
      exact h.numbered
    · rw [hsession]
      exact h.unpopped
    · intro u json' hu
      have hut := hcarrier u json' hu
      rw [hut, hdone] at hu
      cases hu
    · intro hnodrop
      have hfalse : sent = false := hto.symm.trans (hnodrop t)
      rw [hdelivered, hfalse, hsession, hsettled, if_neg Bool.false_ne_true, List.append_nil]
    · intro u hu
      have hut := hdropper u hu
      rw [hut] at hu
      have htrue : sent = true := hto.symm.trans hu
      refine ⟨json, ?_, ?_⟩
      · rw [hsession]
        exact h.carried t json hcarries
      · rw [hdelivered, htrue, if_pos rfl, hsession, hsettled]
  | drop hfrom hto hdone hwire hsession =>
    have hdelivered := delivered_congr hwire
    obtain ⟨json, hhead, hsent⟩ := h.sent t hfrom
    have hqueue : s'.shared.tech.session.outbound =
        (rtwQueueDropHead s.shared.tech.session.outbound).2 := by
      rw [hsession]
      rfl
    have hseq : s'.shared.tech.session.seq = s.shared.tech.session.seq := by
      rw [hsession]
      rfl
    rcases rtwQueueDropHead_spec s.shared.tech.session.outbound with ⟨hempty, -⟩ |
      ⟨b, -, hcontents, hhistory, -, -⟩
    · rw [hempty] at hhead
      cases hhead
    · rw [hcontents] at hhead
      have hb : b = json := Option.some.inj hhead
      rw [hb] at hhistory
      constructor
      · exact hordinary
      · rw [hqueue]
        exact h.lawful.dropHead
      · obtain ⟨n, hn, hx⟩ := h.numbered
        refine ⟨n, ?_, hseq.trans hx⟩
        change (Fifo.offers s'.shared.tech.session.outbound.history).filterMap _ = _
        rw [hqueue, hhistory, Fifo.offers_append, Fifo.offers_drop, Fifo.offers_nil, List.append_nil]
        exact hn
      · rw [hqueue, hhistory, Fifo.removedBy_append, h.unpopped]
        rfl
      · intro u json' hu
        have hut := hcarrier u json' hu
        rw [hut, hdone] at hu
        cases hu
      · intro _
        rw [hdelivered, hsent, hqueue, hhistory, Fifo.removedBy_append]
        rfl
      · intro u hu
        have hut := hdropper u hu
        rw [hut, hto] at hu
        cases hu

theorem Flowing.step {s : BridgeState} (h : Flowing s) (e : Thread × StepIo) :
    Flowing ((bridge printNumber).step s e) := by
  obtain ⟨t, io⟩ := e
  by_cases hother : ∃ u, (s.pc u).inSection = true ∧ u ≠ t
  · obtain ⟨u, hu, hne⟩ := hother
    exact h.other_step printNumber io hu hne
  · have hfree : ∀ u, u ≠ t → (s.pc u).inSection = false := by
      intro u hu
      rw [Bool.eq_false_iff]
      intro hin
      exact hother ⟨u, hin, hu⟩
    by_cases hstay : (threads printNumber).step t io (s.pc t) s.shared = (s.pc t, s.shared)
    · rw [Threads.step_eq_self hstay]
      exact h
    · apply h.own_step printNumber hfree
      rw [Threads.pc_self, Threads.shared_step]
      have hrun : ¬ (s.shared.freed = true ∨
          (s.shared.handedOut = false ∧ (s.pc t).starting = false)) := by
        intro hno
        exact hstay (if_pos hno)
      simp only [threads, if_neg hrun]
      exact flow_step printNumber t io s.shared (s.pc t)

theorem Opened.wire {tech : Tech} (h : Opened tech) : tech.wire = [] := by
  obtain ⟨io, streamSid, callSid, sampling, channels, session, rfl⟩ := h
  rfl

theorem Opened.flowing {tech : Tech} (h : Opened tech) (hs : tech.session.Started) :
    Flowing (startState tech) := by
  have hstart : Delivered tech := .start hs h.wire
  have hpc : ∀ t, ((startState tech).pc t).carries? = none ∧
      ((startState tech).pc t).dropping = false := by
    intro t
    rcases startState_pc tech t with ht | ht <;> rw [ht] <;> exact ⟨rfl, rfl⟩
  constructor
  · exact h.ordinary
  · exact hstart.lawful
  · exact hstart.numbered
  · exact hstart.unpopped
  · intro t json ht
    cases (hpc t).1.symm.trans ht
  · intro _
    exact hstart.wire
  · intro t ht
    cases (hpc t).2.symm.trans ht

theorem Opened.flowing_run {tech : Tech} (h : Opened tech) (hs : tech.session.Started)
    (es : List (Thread × StepIo)) : Flowing ((bridge printNumber).run (startState tech) es) :=
  (bridge printNumber).invariant (P := fun _ _ => True) (fun _ e _ hf => hf.step printNumber e)
    (h.flowing hs) ((bridge printNumber).along_of_forall (fun _ _ => trivial) _ es)

/-- At most the head of the queue has been sent and not yet dropped. -/
theorem Flowing.delivered_cases {s : BridgeState} (h : Flowing s) :
    s.shared.tech.delivered = Fifo.removedBy .dropped s.shared.tech.session.outbound.history ∨
      ∃ t json, (s.pc t).dropping = true ∧
        s.shared.tech.session.outbound.contents.head? = some json ∧ s.shared.tech.delivered =
          Fifo.removedBy .dropped s.shared.tech.session.outbound.history ++ [json] := by
  by_cases hdrop : ∃ t, (s.pc t).dropping = true
  · obtain ⟨t, ht⟩ := hdrop
    obtain ⟨json, hhead, hsent⟩ := h.sent t ht
    exact Or.inr ⟨t, json, ht, hhead, hsent⟩
  · refine Or.inl (h.settled fun t => ?_)
    rw [Bool.eq_false_iff]
    intro ht
    exact hdrop ⟨t, ht⟩

theorem Flowing.delivered_sublist {s : BridgeState} (h : Flowing s) :
    s.shared.tech.delivered.Sublist
      (Fifo.pushes s.shared.tech.session.outbound.history) := by
  have hconserved := h.lawful.conserved
  rcases h.delivered_cases with heq | ⟨t, json, -, hhead, heq⟩
  · rw [heq]
    exact hconserved.removedBy_sublist .dropped
  · obtain ⟨rest, hrest⟩ := List.head?_eq_some_iff.mp hhead
    have hone : [json].Sublist s.shared.tech.session.outbound.contents := by
      rw [hrest, List.singleton_sublist]
      exact List.mem_cons_self
    rw [heq, hconserved]
    exact (List.filter_sublist.map _).append hone

/-- In every interleaving of the worker and the callers each message queued is sent, counted
as dropped or still queued; what was sent is a part of what was queued, in order, each
message once, and at most the head of the queue was sent and not yet dropped. -/
theorem threads_deliver {tech : Tech} (h : Opened tech) (hs : tech.session.Started)
    (es : List (Thread × StepIo)) :
    let s := (bridge printNumber).run (startState tech) es
    let q := s.shared.tech.session.outbound
    Fifo.Conserved q.history q.contents ∧ Fifo.removedBy .popped q.history = [] ∧
      q.drops = UInt64.ofNat (Fifo.removedBy .evicted q.history).length ∧
      (s.shared.tech.delivered = Fifo.removedBy .dropped q.history ∨
        ∃ t json, (s.pc t).dropping = true ∧ q.contents.head? = some json ∧
          s.shared.tech.delivered = Fifo.removedBy .dropped q.history ++ [json]) ∧
      s.shared.tech.delivered.Sublist (Fifo.pushes q.history) ∧
      (((Fifo.offers q.history).filterMap OutMsg.seq?).length < 2 ^ 32 →
        (s.shared.tech.delivered.filterMap OutMsg.seq?).Pairwise (· < ·)) := by
  intro s q
  have hrun : Flowing s := h.flowing_run printNumber hs es
  refine ⟨hrun.lawful.conserved, hrun.unpopped, hrun.lawful.drops_eq, hrun.delivered_cases,
    hrun.delivered_sublist, ?_⟩
  intro hfew
  obtain ⟨n, hn, -⟩ := hrun.numbered
  have hlt : n < 2 ^ 32 := by
    rw [show (Fifo.offers q.history).filterMap OutMsg.seq? = _ from hn] at hfew
    simpa using hfew
  have hseqs := (hrun.delivered_sublist.trans (Fifo.pushes_sublist_offers q.history)).filterMap
    OutMsg.seq?
  rw [show (Fifo.offers q.history).filterMap OutMsg.seq? = _ from hn] at hseqs
  exact (numbers_increase hlt).sublist hseqs

/-- A caller has sent an acknowledgement and not yet dropped it, while the worker polls and
finds the mutex taken. -/
def crossedRun : List (Thread × StepIo) :=
  steps 16 .worker ++ [(.caller 0, { StepIo.calm with call := .sendMark (.lit "m") })] ++
    steps 4 (.caller 0) ++ steps 12 .worker ++ steps 4 (.caller 0)

theorem threads_deliver_crossed :
    let s := (bridge id).run (startState demoOpen) crossedRun
    let q := s.shared.tech.session.outbound
    Fifo.Conserved q.history q.contents ∧ Fifo.removedBy .popped q.history = [] ∧
      q.drops = UInt64.ofNat (Fifo.removedBy .evicted q.history).length ∧
      (s.shared.tech.delivered = Fifo.removedBy .dropped q.history ∨
        ∃ t json, (s.pc t).dropping = true ∧ q.contents.head? = some json ∧
          s.shared.tech.delivered = Fifo.removedBy .dropped q.history ++ [json]) ∧
      s.shared.tech.delivered.Sublist (Fifo.pushes q.history) ∧
      (((Fifo.offers q.history).filterMap OutMsg.seq?).length < 2 ^ 32 →
        (s.shared.tech.delivered.filterMap OutMsg.seq?).Pairwise (· < ·)) :=
  threads_deliver id demoOpen_opened (Session.boot_started 256 (64 * 1024) demoSid) crossedRun

end RealtimeWs.Mod
