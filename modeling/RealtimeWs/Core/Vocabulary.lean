import RealtimeWs.Core.Numbering

/-! The vocabulary of a session: every message it ever offers to its queue is one of five kinds,
made of its own ids, its custom parameters and short names. -/
namespace RealtimeWs.Core

/-- What a session puts into its messages. -/
structure Voice where
  streamSid : CBuf RTW_SID_MAX
  accountSid : CBuf RTW_SID_MAX
  callSid : CBuf RTW_SID_MAX
  customParams : Option CStr

def Session.voice (s : Session) : Voice := ⟨s.streamSid, s.accountSid, s.callSid, s.customParams⟩

/-- The messages that carry these ids. -/
inductive Voice.Speaks (v : Voice) : OutMsg → Prop
  | connected : v.Speaks (.connected (.lit "1.0.0"))
  | start (seq : UInt32) : v.Speaks (.start v.streamSid.toCStr v.accountSid.toCStr
      v.callSid.toCStr v.customParams seq)
  | media (chunk timestampMs seq : UInt32) {mulaw : List UInt8}
      (h : mulaw.length = RTW_FRAME_MULAW_BYTES) :
      v.Speaks (.media v.streamSid.toCStr (.lit "inbound") chunk timestampMs seq mulaw)
  | mark (name : CBuf RTW_MARK_NAME_LEN) (seq : UInt32) :
      v.Speaks (.mark v.streamSid.toCStr name.toCStr seq)
  | stop (seq : UInt32) :
      v.Speaks (.stop v.streamSid.toCStr v.accountSid.toCStr v.callSid.toCStr seq)

/-- Everything offered so far is in the session's own voice, which is `v`. -/
structure Session.Spoken (v : Voice) (s : Session) : Prop where
  voice : s.voice = v
  own : ∀ m ∈ Fifo.offers s.outbound.history, v.Speaks m

variable {v : Voice} {s : Session}

/-- Another queue with the same offers, and no other ids. -/
theorem Session.Spoken.congr (h : s.Spoken v) {t : Session} (hvoice : t.voice = s.voice)
    (hoffers : Fifo.offers t.outbound.history = Fifo.offers s.outbound.history) : t.Spoken v := by
  constructor
  · exact hvoice.trans h.voice
  · rw [hoffers]
    exact h.own

theorem Session.Spoken.enqueue (h : s.Spoken v) (o : EnqueueOutcome) {m : OutMsg}
    (hm : v.Speaks m) : (enqueueJson o s (some m)).2.Spoken v := by
  constructor
  · exact h.voice
  · intro m' hm'
    have hoffers : Fifo.offers (offer o s.outbound m).2.history = _ := offers_offer o s.outbound m
    have hmem : m' ∈ Fifo.offers s.outbound.history ++ [m] := hoffers ▸ hm'
    rcases List.mem_append.mp hmem with hold | hnew
    · exact h.own m' hold
    · rw [List.mem_singleton.mp hnew]
      exact hm

theorem Session.Spoken.ack (h : s.Spoken v) (o : EnqueueOutcome) (name : CBuf RTW_MARK_NAME_LEN) :
    (enqueueAck o s name).2.Spoken v := by
  have hcounted : Session.Spoken v { s with seq := s.seq + 1 } := ⟨h.voice, h.own⟩
  apply hcounted.enqueue o
  have hvoice := h.voice
  subst hvoice
  exact .mark name s.seq

theorem Session.Spoken.harvestAcks (h : s.Spoken v) (env : Env) (i : ℕ)
    (names : List (CBuf RTW_MARK_NAME_LEN)) : (harvestAcks env i names s).Spoken v := by
  induction names generalizing i s with
  | nil => exact h
  | cons name names ih => exact ih (h.ack (env.enqueue i) name) (i + 1)

theorem Session.Spoken.flushAcks (h : s.Spoken v) (env : Env) (i : ℕ)
    (names : List (CBuf RTW_MARK_NAME_LEN)) : (flushAcks env i names s).2.Spoken v := by
  induction names generalizing i s with
  | nil => exact h
  | cons name names ih =>
    have hack := h.ack (env.enqueue i) name
    unfold RealtimeWs.Core.flushAcks
    dsimp only
    split
    · exact hack
    · exact ih hack (i + 1)

theorem Session.Spoken.frame (h : s.Spoken v) (o : EnqueueOutcome) {pcm : List Int16}
    (hlen : pcm.length = RTW_FRAME_MULAW_BYTES) : (pushFrame o s pcm).2.Spoken v := by
  have hne : pcm ≠ [] := by
    intro hnil
    rw [hnil] at hlen
    cases hlen
  have hmulaw : (rtwPcm16ToMulaw pcm).length = RTW_FRAME_MULAW_BYTES := by
    rw [length_rtwPcm16ToMulaw]
    exact hlen
  have hown : v.Speaks (s.media pcm) := by
    have hvoice := h.voice
    subst hvoice
    exact .media s.chunk s.timestampMs s.seq hmulaw
  have hqueued := h.enqueue o hown
  rw [pushFrame_eq o s hne]
  split
  · exact ⟨h.voice, hqueued.own⟩
  · exact ⟨h.voice, hqueued.own⟩

theorem Session.Spoken.frames (h : s.Spoken v) (env : Env) (n i : ℕ) {pcm : List Int16}
    (hlen : RTW_FRAME_MULAW_BYTES * n ≤ pcm.length) : (pushFrames env n i pcm s).2.Spoken v := by
  induction n generalizing i pcm s with
  | zero => exact h
  | succ n ih =>
    have htake : (pcm.take RTW_FRAME_MULAW_BYTES).length = RTW_FRAME_MULAW_BYTES := by
      rw [List.length_take]
      exact min_eq_left (le_trans (Nat.le_mul_of_pos_right _ n.succ_pos) hlen)
    have hframe := h.frame (env.enqueue i) htake
    unfold pushFrames
    dsimp only
    split
    · exact hframe
    · apply ih hframe
      rw [List.length_drop]
      rw [Nat.mul_succ] at hlen
      omega

theorem Session.Spoken.handshake (h : s.Spoken v) (env : Env) :
    (enqueueHandshake env s).2.Spoken v := by
  have hconnected := h.enqueue (env.enqueue 0) .connected
  unfold enqueueHandshake
  dsimp only
  split
  · exact hconnected
  · have hcounted : Session.Spoken v { (enqueueJson (env.enqueue 0) s
        (some (rtwBuildConnected (some (.lit "1.0.0"))))).2 with seq := s.seq + 1 } :=
      ⟨hconnected.voice, hconnected.own⟩
    have hown : v.Speaks s.start := by
      have hvoice := h.voice
      subst hvoice
      exact .start s.seq
    have hstart := hcounted.enqueue (env.enqueue 1) hown
    split
    · exact hstart
    · exact hstart

theorem Session.Spoken.event (h : s.Spoken v) (env : Env) (ev : InboundEvent) :
    (handleEvent env s ev).2.Spoken v := by
  unfold handleEvent
  cases ev.type with
  | media =>
    dsimp only
    split
    · exact ⟨h.voice, h.own⟩
    · exact ⟨h.voice, h.own⟩
  | clear =>
    apply Session.Spoken.flushAcks
    exact ⟨h.voice, h.own⟩
  | _ => exact ⟨h.voice, h.own⟩

theorem Session.Spoken.stop (h : s.Spoken v) (env : Env) : (rtwSessionStop env s).2.Spoken v := by
  unfold rtwSessionStop
  split
  · exact h
  · have hcounted : Session.Spoken v { s with state := .stopping, seq := s.seq + 1 } :=
      ⟨h.voice, h.own⟩
    have hown : v.Speaks (rtwBuildStop s.streamSid.toCStr (some s.accountSid.toCStr)
        (some s.callSid.toCStr) s.seq) := by
      have hvoice := h.voice
      subst hvoice
      exact .stop s.seq
    have hstop := hcounted.enqueue (env.enqueue 0) hown
    dsimp only
    split
    · exact hstop
    · exact ⟨hstop.voice, hstop.own⟩

theorem Session.Spoken.harvest (h : s.Spoken v) (env : Env) :
    (rtwSessionHarvestMarks env s).Spoken v := by
  unfold rtwSessionHarvestMarks
  apply Session.Spoken.harvestAcks
  exact ⟨h.voice, h.own⟩

/-- No call makes the session say anything else. -/
theorem Session.Spoken.call (h : s.Spoken v) (x : Env × SessionCall) : (s.call x).Spoken v := by
  obtain ⟨env, call⟩ := x
  cases call with
  | pause on => exact ⟨h.voice, h.own⟩
  | op o =>
    cases o with
    | handlePeerJson json =>
      simp only [Session.call, Session.step]
      cases hev : s.inboundFor env json with
      | none =>
        rw [(handlePeerJson_of_none hev).2]
        exact h
      | some ev =>
        rw [handlePeerJson_of_event hev]
        exact h.event env ev
    | pushPcm16 pcm =>
      simp only [Session.call, Session.step]
      unfold rtwSessionPushPcm16
      split
      · exact h
      · exact h.frames env _ 0 (Nat.mul_div_le _ _)
    | popOutbound =>
      have hharvest := h.harvest env
      exact hharvest.congr rfl (offers_take .popOutbound _)
    | peekOutbound => exact h.harvest env
    | dropOutboundHead => exact h.congr rfl (offers_take .dropOutboundHead _)
    | harvestMarks => exact h.harvest env
    | stop => exact h.stop env
    | rehandshake =>
      simp only [Session.call, Session.step]
      unfold rtwSessionRehandshake
      split
      · exact h
      · exact h.handshake env
    | readPlayout maxLen => exact ⟨h.voice, h.own⟩
    | noteWriteAfterClear n =>
      obtain ⟨hout, hsame⟩ := noteWriteAfterClear_frame env s n
      have hqueue : (rtwSessionNoteWriteAfterClear env s n).outbound = s.outbound :=
        congrArg Prod.fst hout
      have hvoice : (rtwSessionNoteWriteAfterClear env s n).voice = s.voice := by
        unfold Session.voice
        rw [hsame.streamSid, hsame.accountSid, hsame.callSid, hsame.customParams]
      exact h.congr hvoice (by
        change Fifo.offers (rtwSessionNoteWriteAfterClear env s n).outbound.history = _
        rw [hqueue])

theorem Session.Spoken.calls (h : s.Spoken v) (cs : List (Env × SessionCall)) :
    (calls.run s cs).Spoken v :=
  RealtimeWs.Core.calls.invariant (P := fun _ _ => True) (fun _ _ _ hs => hs.call _) h
    (Machine.along_of_forall _ (fun _ _ => trivial) s cs)

/-- A session that starts speaks with the ids and the parameters it is given. -/
theorem Session.Spoken.start {env : Env} {s₀ s : Session} {streamSid : CStr}
    {callSid accountSid custom : Option CStr} (hnew : Fifo.offers s₀.outbound.history = [])
    (h : rtwSessionStart env s₀ streamSid callSid accountSid custom = (0, s)) :
    s.Spoken ⟨.copy _ streamSid,
      .copy _ (accountSid.getD (.lit "AC00000000000000000000000000000000")),
      .copy _ (callSid.getD streamSid), custom.filter fun c => c.bytes ≠ []⟩ := by
  simp only [rtwSessionStart] at h
  split_ifs at h
  · simp at h
  · simp at h
  · have hfresh : Session.Spoken ⟨.copy _ streamSid,
        .copy _ (accountSid.getD (.lit "AC00000000000000000000000000000000")),
        .copy _ (callSid.getD streamSid), custom.filter fun c => c.bytes ≠ []⟩ { s₀ with
          streamSid := .copy _ streamSid
          callSid := .copy _ (callSid.getD streamSid)
          accountSid := .copy _ (accountSid.getD (.lit "AC00000000000000000000000000000000"))
          customParams := custom.filter fun c => c.bytes ≠ []
          seq := 1, chunk := 1, timestampMs := 0, state := .starting } := by
      refine ⟨rfl, ?_⟩
      intro m hm
      rw [show Fifo.offers s₀.outbound.history = [] from hnew] at hm
      cases hm
    have hstarted := hfresh.handshake env
    cases h
    exact ⟨hstarted.voice, hstarted.own⟩

end RealtimeWs.Core
