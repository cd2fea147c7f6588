import Mathlib.Data.List.Range
import RealtimeWs.Core.Session

/-! What the session's calls do to the outbound queue and the sequence counter:
every message they queue is offered to the queue one after the other, and every
numbered message takes the counter's value. -/
namespace RealtimeWs.Core

/-- Offered messages with the outcome of each offer. -/
abbrev Offers := List (EnqueueOutcome × OutMsg)

/-- The messages that reached the queue. -/
def Offers.stored (ms : Offers) : List OutMsg :=
  (ms.filter fun om => om.1 = .stored).map Prod.snd

/-- The offers `ms`, in order, take the queue and the counter from `x` to `y`. -/
inductive Emits : BoundedQueue OutMsg × UInt32 → Offers → BoundedQueue OutMsg × UInt32 → Prop
  | nil (x) : Emits x [] x
  | number {o m q seq ms y} (hm : m.seq? = some seq)
      (h : Emits ((offer o q m).2, seq + 1) ms y) : Emits (q, seq) ((o, m) :: ms) y
  | plain {o m q seq ms y} (hm : m.seq? = none)
      (h : Emits ((offer o q m).2, seq) ms y) : Emits (q, seq) ((o, m) :: ms) y

/-- The outcomes are those the call's environment decided. -/
def Offers.From (env : Env) (ms : Offers) : Prop := ∀ om ∈ ms, ∃ i, om.1 = env.enqueue i

variable {x y z : BoundedQueue OutMsg × UInt32} {ms ns : Offers} {env : Env}

@[simp] theorem stored_nil : Offers.stored [] = [] := rfl

@[simp] theorem stored_append (ms ns : Offers) :
    Offers.stored (ms ++ ns) = ms.stored ++ ns.stored := by simp [Offers.stored]

theorem stored_sublist (ms : Offers) : ms.stored.Sublist (ms.map Prod.snd) :=
  List.filter_sublist.map _

theorem Offers.From.stored_eq (h : Offers.From env ms) (henv : env.Plentiful) :
    ms.stored = ms.map Prod.snd := by
  rw [Offers.stored, List.filter_eq_self.mpr]
  intro om hom
  obtain ⟨i, hi⟩ := h om hom
  simp [hi, henv.enqueue i]

theorem Offers.From.nil : Offers.From env [] := by simp [Offers.From]

theorem Offers.From.cons (i : ℕ) (m : OutMsg) (h : Offers.From env ms) :
    Offers.From env ((env.enqueue i, m) :: ms) := by
  intro om hom
  rcases List.mem_cons.mp hom with rfl | hom
  · exact ⟨i, rfl⟩
  · exact h om hom

theorem Emits.trans (h : Emits x ms y) (k : Emits y ns z) : Emits x (ms ++ ns) z := by
  induction h with
  | nil x => exact k
  | number hm _ ih => exact .number hm (ih k)
  | plain hm _ ih => exact .plain hm (ih k)

/-! ### One offer -/

variable (o : EnqueueOutcome) (q : BoundedQueue OutMsg) (m : OutMsg)

theorem offer_fst : (offer o q m).1 = if o = .stored then 0 else -1 := by cases o <;> rfl

theorem pushes_offer : Fifo.pushes (offer o q m).2.history =
    Fifo.pushes q.history ++ if o = .stored then [m] else [] := by
  cases o <;> simp [offer, history_push]

theorem offers_offer : Fifo.offers (offer o q m).2.history = Fifo.offers q.history ++ [m] := by
  cases o <;> simp [offer, history_push]

theorem removedBy_offer {f : Fifo.Fate} (hf : f ≠ .evicted) :
    Fifo.removedBy f (offer o q m).2.history = Fifo.removedBy f q.history := by
  have hpush : ∀ ok, Fifo.removedBy f (rtwQueuePush ok q m).2.history =
      Fifo.removedBy f q.history := by
    intro ok
    rw [history_push, Fifo.removedBy_append, Fifo.removedBy_append, Fifo.removedBy_evicts,
      if_neg hf]
    cases ok <;> exact List.append_nil _
  cases o with
  | stored => exact hpush true
  | noCopy => exact hpush false
  | noJson => exact (Fifo.removedBy_append f q.history [.refuse m]).trans (List.append_nil _)

theorem offer_lawful {q : BoundedQueue OutMsg} (h : q.Lawful) : (offer o q m).2.Lawful := by
  cases o with
  | stored => exact h.push m true
  | noCopy => exact h.push m false
  | noJson => exact ⟨h.conserved.refuse m, by simp [offer, h.drops_eq, Fifo.removedBy]⟩

@[simp] theorem capacity_offer : (offer o q m).2.capacity = q.capacity := by
  cases o <;> simp [offer]

/-- The entries move up by what was evicted and what was stored. -/
theorem contents_offer : ∃ ev, ev ++ (offer o q m).2.contents =
    q.contents ++ (if o = .stored then [m] else []) := by
  cases o with
  | stored => exact ⟨_, contents_push q m⟩
  | noCopy => exact ⟨_, (contents_push_failed q m).trans (List.append_nil _).symm⟩
  | noJson => exact ⟨[], (List.append_nil _).symm⟩

/-- With room for one more entry nothing is evicted. -/
theorem contents_offer_of_lt {q : BoundedQueue OutMsg} (h : q.size < q.capacity) :
    (offer o q m).2.contents = q.contents ++ if o = .stored then [m] else [] := by
  have hev : q.evicted = [] := BoundedQueue.evicted_of_lt h
  cases o with
  | stored =>
    have hpush := contents_push q m
    rwa [hev, List.nil_append] at hpush
  | noCopy =>
    have hpush := contents_push_failed q m
    rw [hev, List.nil_append] at hpush
    exact hpush.trans (List.append_nil _).symm
  | noJson => exact (List.append_nil _).symm

/-! ### Runs of offers -/

theorem Emits.pushes (h : Emits x ms y) :
    Fifo.pushes y.1.history = Fifo.pushes x.1.history ++ ms.stored := by
  induction h with
  | nil x => simp
  | @number o m q seq ms y hm _ ih | @plain o m q seq ms y hm _ ih =>
    rw [ih, pushes_offer, List.append_assoc]
    cases o <;> simp [Offers.stored]

theorem Emits.offers (h : Emits x ms y) :
    Fifo.offers y.1.history = Fifo.offers x.1.history ++ ms.map Prod.snd := by
  induction h with
  | nil x => simp
  | number _ _ ih | plain _ _ ih => simp [ih, offers_offer]

theorem Emits.removedBy (h : Emits x ms y) {f : Fifo.Fate} (hf : f ≠ .evicted) :
    Fifo.removedBy f y.1.history = Fifo.removedBy f x.1.history := by
  induction h with
  | nil x => rfl
  | number _ _ ih | plain _ _ ih => rw [ih, removedBy_offer _ _ _ hf]

theorem Emits.lawful (h : Emits x ms y) (hx : x.1.Lawful) : y.1.Lawful := by
  induction h with
  | nil x => exact hx
  | @number o m _ _ _ _ _ _ ih | @plain o m _ _ _ _ _ _ ih => exact ih (offer_lawful o m hx)

theorem Emits.capacity (h : Emits x ms y) : y.1.capacity = x.1.capacity := by
  induction h with
  | nil x => rfl
  | number _ _ ih | plain _ _ ih => rw [ih, capacity_offer]

theorem Emits.contents (h : Emits x ms y) :
    ∃ ev, ev ++ y.1.contents = x.1.contents ++ ms.stored := by
  induction h with
  | nil x => exact ⟨[], by simp⟩
  | @number o m q seq ms y hm _ ih | @plain o m q seq ms y hm _ ih =>
    obtain ⟨ev, hev⟩ := ih
    obtain ⟨ev', hev'⟩ := contents_offer o q m
    refine ⟨ev' ++ ev, ?_⟩
    rw [List.append_assoc, hev, ← List.append_assoc, hev', List.append_assoc]
    cases o <;> simp [Offers.stored]

/-- Offers for which there is room only append. -/
theorem Emits.contents_of_room (h : Emits x ms y)
    (hroom : x.1.contents.length + ms.length ≤ x.1.capacity) :
    y.1.contents = x.1.contents ++ ms.stored := by
  induction h with
  | nil x => exact (List.append_nil _).symm
  | @number o m q seq ms y hm _ ih | @plain o m q seq ms y hm _ ih =>
    have hlt : q.size < q.capacity := by
      rw [List.length_cons, q.length_contents] at hroom
      change q.size + (ms.length + 1) ≤ q.capacity at hroom
      omega
    have hone : (offer o q m).2.contents = q.contents ++ if o = .stored then [m] else [] :=
      contents_offer_of_lt o m hlt
    have hle : (offer o q m).2.contents.length ≤ q.contents.length + 1 := by
      rw [hone, List.length_append]
      split <;> simp
    rw [ih, hone, List.append_assoc]
    · cases o <;> simp [Offers.stored]
    · rw [List.length_cons] at hroom
      change q.contents.length + (ms.length + 1) ≤ q.capacity at hroom
      change (offer o q m).2.contents.length + ms.length ≤ (offer o q m).2.capacity
      rw [capacity_offer]
      omega

/-- The numbered messages offered so far carry the numbers from one on. -/
def Numbered (x : BoundedQueue OutMsg × UInt32) : Prop :=
  ∃ n, (Fifo.offers x.1.history).filterMap OutMsg.seq? =
      (List.range n).map (fun i => UInt32.ofNat (i + 1)) ∧ x.2 = UInt32.ofNat (n + 1)

theorem Emits.numbered (h : Emits x ms y) (hx : Numbered x) : Numbered y := by
  induction h with
  | nil x => exact hx
  | @number o m q seq ms y hm _ ih =>
    obtain ⟨n, hn, hseq⟩ := hx
    have hseq : seq = UInt32.ofNat (n + 1) := hseq
    refine ih ⟨n + 1, ?_, ?_⟩
    · rw [offers_offer, List.filterMap_append, hn, List.range_succ, List.map_append,
        List.filterMap_cons_some (hm.trans (congrArg some hseq))]
      rfl
    · exact (congrArg (· + 1) hseq).trans (UInt32.ofNat_add (n + 1) 1).symm
  | plain hm _ ih =>
    obtain ⟨n, hn, hseq⟩ := hx
    refine ih ⟨n, ?_, hseq⟩
    rw [offers_offer, List.filterMap_append, hn, List.filterMap_cons_none hm]
    exact List.append_nil _

/-! ### What each call offers -/

/-- Queue and counter of a session. -/
def Session.out (s : Session) : BoundedQueue OutMsg × UInt32 := (s.outbound, s.seq)

/-- The session after offers: queue and counter are replaced, nothing else. -/
def Session.withOut (s : Session) (x : BoundedQueue OutMsg × UInt32) : Session :=
  { s with outbound := x.1, seq := x.2 }

@[simp] theorem Session.out_withOut (s : Session) (x) : (s.withOut x).out = x := rfl

@[simp] theorem Session.withOut_out (s : Session) : s.withOut s.out = s := rfl

@[simp] theorem Session.withOut_withOut (s : Session) (x y) :
    (s.withOut x).withOut y = s.withOut y := rfl

theorem enqueueJson_eq (s : Session) (m : OutMsg) : enqueueJson o s (some m) =
    ((offer o s.outbound m).1, s.withOut ((offer o s.outbound m).2, s.seq)) := rfl

/-- The marks named in the offers, in order. -/
def Offers.names (ms : Offers) : List (Option CStr) := ms.map fun om => om.2.markName?

theorem harvestAcks_spec (env : Env) (i : ℕ) (names : List (CBuf RTW_MARK_NAME_LEN)) (s : Session) :
    ∃ ms x, harvestAcks env i names s = s.withOut x ∧ Emits s.out ms x ∧ ms.From env ∧
      ms.names = names.map fun n => some n.toCStr := by
  induction names generalizing i s with
  | nil => exact ⟨[], s.out, rfl, .nil _, .nil, rfl⟩
  | cons name names ih =>
    obtain ⟨ms, x, hx, he, hf, hn⟩ := ih (i + 1) (enqueueAck (env.enqueue i) s name).2
    refine ⟨(env.enqueue i, rtwBuildMark s.streamSid.toCStr name.toCStr s.seq) :: ms, x, ?_,
      .number rfl he, .cons i _ hf, ?_⟩
    · rw [harvestAcks, hx]
      rfl
    · rw [Offers.names, List.map_cons, ← Offers.names, hn]
      rfl

theorem flushAcks_spec (env : Env) (i : ℕ) (names : List (CBuf RTW_MARK_NAME_LEN)) (s : Session) :
    ∃ ms x, (flushAcks env i names s).2 = s.withOut x ∧ Emits s.out ms x ∧ ms.From env ∧
      (ms.names <+: names.map fun n => some n.toCStr) ∧
      (env.Plentiful → ms.names = names.map fun n => some n.toCStr) := by
  induction names generalizing i s with
  | nil => exact ⟨[], s.out, rfl, .nil _, .nil, List.nil_prefix, fun _ => rfl⟩
  | cons name names ih =>
    have hack : ∀ ms : Offers, Offers.names
        ((env.enqueue i, rtwBuildMark s.streamSid.toCStr name.toCStr s.seq) :: ms) =
          some name.toCStr :: ms.names := fun _ => rfl
    by_cases hr : (enqueueAck (env.enqueue i) s name).1 = 0
    · obtain ⟨ms, x, hx, he, hf, hn, hp⟩ := ih (i + 1) (enqueueAck (env.enqueue i) s name).2
      refine ⟨(env.enqueue i, rtwBuildMark s.streamSid.toCStr name.toCStr s.seq) :: ms, x, ?_,
        .number rfl he, .cons i _ hf, ?_, fun henv => ?_⟩
      · rw [flushAcks, if_neg (by simpa using hr), hx]
        rfl
      · rw [hack]
        exact List.prefix_cons_inj _ |>.mpr hn
      · rw [hack, hp henv]
        rfl
    · -- the loop ends with the offer that failed
      refine ⟨[(env.enqueue i, rtwBuildMark s.streamSid.toCStr name.toCStr s.seq)], _, ?_,
        .number rfl (.nil _), .cons i _ .nil, ?_, fun henv => absurd ?_ hr⟩
      · rw [flushAcks, if_pos hr]
        rfl
      · rw [hack]
        exact List.prefix_cons_inj _ |>.mpr List.nil_prefix
      · rw [enqueueAck, enqueueJson_eq, offer_fst, if_pos (henv.enqueue i)]

/-- The two messages of a handshake. -/
def Session.connected (_ : Session) : OutMsg := rtwBuildConnected (some (.lit "1.0.0"))

def Session.start (s : Session) : OutMsg :=
  rtwBuildStart s.streamSid.toCStr (some s.accountSid.toCStr) (some s.callSid.toCStr)
    s.customParams s.seq

theorem enqueueHandshake_spec (env : Env) (s : Session) :
    ∃ ms x, (enqueueHandshake env s).2 = s.withOut x ∧ Emits s.out ms x ∧ ms.From env ∧
      (ms.map Prod.snd <+: [s.connected, s.start]) ∧
      ((enqueueHandshake env s).1 = 0 → ms.stored = [s.connected, s.start]) ∧
      (env.enqueue 0 = .stored → env.enqueue 1 = .stored → (enqueueHandshake env s).1 = 0) := by
  by_cases h0 : env.enqueue 0 = .stored
  · by_cases h1 : env.enqueue 1 = .stored
    · refine ⟨[(env.enqueue 0, s.connected), (env.enqueue 1, s.start)], _, ?_,
        .plain rfl (.number rfl (.nil _)), .cons 0 _ (.cons 1 _ .nil), by simp, fun _ => ?_,
        fun _ _ => ?_⟩
      · simp only [enqueueHandshake, enqueueJson_eq, offer_fst, h0, h1]
        rfl
      · rw [h0, h1]
        rfl
      · simp [enqueueHandshake, enqueueJson_eq, offer_fst, h0, h1]
    · refine ⟨[(env.enqueue 0, s.connected), (env.enqueue 1, s.start)], _, ?_,
        .plain rfl (.number rfl (.nil _)), .cons 0 _ (.cons 1 _ .nil), by simp, fun h => ?_,
        fun _ henv => absurd henv h1⟩
      · simp only [enqueueHandshake, enqueueJson_eq, offer_fst, h0, h1]
        rfl
      · simp [enqueueHandshake, enqueueJson_eq, offer_fst, h0, h1] at h
  · refine ⟨[(env.enqueue 0, s.connected)], _, ?_, .plain rfl (.nil _), .cons 0 _ .nil,
      by simp, fun h => ?_, fun henv _ => absurd henv h0⟩
    · simp only [enqueueHandshake, enqueueJson_eq, offer_fst, h0]
      rfl
    · simp [enqueueHandshake, enqueueJson_eq, offer_fst, h0] at h

/-- An encoded frame is never empty, so the builder succeeds. -/
theorem rtwBuildMedia_isSome {sid : CStr} {track : Option CStr} {chunk ts seq : UInt32}
    {mulaw : List UInt8} (h : mulaw ≠ []) :
    rtwBuildMedia sid track chunk ts seq mulaw =
      some (.media sid (track.getD (.lit "inbound")) chunk ts seq mulaw) := by
  apply if_neg
  rw [rtwBase64Encode, if_neg (lt_irrefl _)]
  rcases mulaw with _ | ⟨a, _ | ⟨b, _ | ⟨c, rest⟩⟩⟩
  · exact absurd rfl h
  · simp [encodeLoop]
  · simp [encodeLoop]
  · simp [encodeLoop]

/-- The media message of one frame. -/
def Session.media (s : Session) (pcm : List Int16) : OutMsg :=
  .media s.streamSid.toCStr (.lit "inbound") s.chunk s.timestampMs s.seq (rtwPcm16ToMulaw pcm)

theorem pushFrame_eq (s : Session) {pcm : List Int16} (h : pcm ≠ []) :
    pushFrame o s pcm =
      if o = .stored then
        (0, { s.withOut ((offer o s.outbound (s.media pcm)).2, s.seq + 1) with
          chunk := s.chunk + 1
          timestampMs := s.timestampMs + 20
          uplinkFrames := s.uplinkFrames + 1 })
      else (-1, s.withOut ((offer o s.outbound (s.media pcm)).2, s.seq + 1)) := by
  have hne : rtwPcm16ToMulaw pcm ≠ [] := by simpa [rtwPcm16ToMulaw] using h
  simp only [pushFrame, rtwBuildMedia_isSome hne, enqueueJson_eq, offer_fst]
  cases o <;> rfl

/-- What a push of samples leaves alone. -/
structure SameApart (s t : Session) : Prop where
  streamSid : t.streamSid = s.streamSid
  accountSid : t.accountSid = s.accountSid
  callSid : t.callSid = s.callSid
  customParams : t.customParams = s.customParams
  state : t.state = s.state
  paused : t.paused = s.paused
  playout : t.playout = s.playout

theorem pushFrames_spec (env : Env) (n i : ℕ) (pcm : List Int16) (s : Session)
    (h : RTW_FRAME_MULAW_BYTES * n ≤ pcm.length) :
    ∃ ms, Emits s.out ms (pushFrames env n i pcm s).2.out ∧ ms.From env ∧
      (∀ om ∈ ms, om.2.markName? = none) ∧ SameApart s (pushFrames env n i pcm s).2 := by
  induction n generalizing i pcm s with
  | zero => exact ⟨[], .nil _, .nil, by simp, ⟨rfl, rfl, rfl, rfl, rfl, rfl, rfl⟩⟩
  | succ n ih =>
    have hne : pcm.take RTW_FRAME_MULAW_BYTES ≠ [] := by
      intro h0
      have := congrArg List.length h0
      rw [List.length_take, List.length_nil] at this
      rw [RTW_FRAME_MULAW_BYTES] at *
      omega
    by_cases hi : env.enqueue i = .stored
    · have hr : (pushFrame (env.enqueue i) s (pcm.take RTW_FRAME_MULAW_BYTES)).1 = 0 := by
        rw [pushFrame_eq _ _ hne, if_pos hi]
      obtain ⟨ms, he, hf, hm, hs⟩ := ih (i + 1) (pcm.drop RTW_FRAME_MULAW_BYTES)
        (pushFrame (env.enqueue i) s (pcm.take RTW_FRAME_MULAW_BYTES)).2
        (by rw [List.length_drop, RTW_FRAME_MULAW_BYTES] at *; omega)
      rw [pushFrames, if_neg (not_not.mpr hr)]
      rw [pushFrame_eq _ _ hne, if_pos hi] at he hs ⊢
      refine ⟨(env.enqueue i, s.media (pcm.take RTW_FRAME_MULAW_BYTES)) :: ms, .number rfl he,
        .cons i _ hf, ?_, ?_⟩
      · exact List.forall_mem_cons.mpr ⟨rfl, hm⟩
      · exact ⟨hs.1, hs.2, hs.3, hs.4, hs.5, hs.6, hs.7⟩
    · have hr : (pushFrame (env.enqueue i) s (pcm.take RTW_FRAME_MULAW_BYTES)).1 ≠ 0 := by
        rw [pushFrame_eq _ _ hne, if_neg hi]
        simp
      rw [pushFrames, if_pos hr, pushFrame_eq _ _ hne, if_neg hi]
      exact ⟨[(env.enqueue i, s.media (pcm.take RTW_FRAME_MULAW_BYTES))], .number rfl (.nil _),
        .cons i _ .nil, by simp [Session.media, OutMsg.markName?],
        ⟨rfl, rfl, rfl, rfl, rfl, rfl, rfl⟩⟩

theorem rtwSessionPushPcm16_spec (env : Env) (s : Session) (pcm : List Int16) :
    ∃ ms, Emits s.out ms (rtwSessionPushPcm16 env s pcm).2.out ∧ ms.From env ∧
      (∀ om ∈ ms, om.2.markName? = none) ∧ SameApart s (rtwSessionPushPcm16 env s pcm).2 := by
  unfold rtwSessionPushPcm16
  split
  · exact ⟨[], .nil _, .nil, by simp, ⟨rfl, rfl, rfl, rfl, rfl, rfl, rfl⟩⟩
  · exact pushFrames_spec env _ 0 pcm s (Nat.mul_div_le _ _)

theorem rtwSessionHarvestMarks_spec (env : Env) (s : Session) :
    ∃ ms x, rtwSessionHarvestMarks env s =
        { s with playout := (rtwPlayoutPopCompletedMarks s.playout HARVEST_MAX).2 }.withOut x ∧
      Emits s.out ms x ∧ ms.From env ∧
      ms.names = ((completed s.playout.marks).take HARVEST_MAX).map
        fun m => some m.name.toCStr := by
  obtain ⟨ms, x, hx, he, hf, hn⟩ := harvestAcks_spec env 0
    (rtwPlayoutPopCompletedMarks s.playout HARVEST_MAX).1
    { s with playout := (rtwPlayoutPopCompletedMarks s.playout HARVEST_MAX).2 }
  refine ⟨ms, x, hx, he, hf, ?_⟩
  rw [hn, popCompletedMarks_fst, List.map_map]
  rfl

/-- The event a text carries for this session, if it gets as far as the switch. -/
def Session.inboundFor (env : Env) (s : Session) (json : CStr) : Option InboundEvent :=
  if s.state = .running ∧ env.buffer then
    (rtwParseInbound json PAYLOAD_CAP).filter fun ev =>
      ev.streamSid.bytes = [] ∨ ev.streamSid = s.streamSid
  else none

theorem handlePeerJson_of_event {s : Session} {json : CStr} {ev : InboundEvent}
    (h : s.inboundFor env json = some ev) :
    rtwSessionHandlePeerJson env s json = handleEvent env s ev := by
  unfold Session.inboundFor at h
  split_ifs at h with hs
  obtain ⟨hp, hev⟩ := Option.filter_eq_some_iff.mp h
  have hev : ¬ (ev.streamSid.bytes ≠ [] ∧ ev.streamSid ≠ s.streamSid) := by
    have := of_decide_eq_true hev
    tauto
  simp only [rtwSessionHandlePeerJson, hs.1, hs.2, hp, if_neg hev]
  rfl

theorem handlePeerJson_of_none {s : Session} {json : CStr} (h : s.inboundFor env json = none) :
    (rtwSessionHandlePeerJson env s json).1 ≠ 0 ∧ (rtwSessionHandlePeerJson env s json).2 = s := by
  unfold Session.inboundFor at h
  unfold rtwSessionHandlePeerJson
  by_cases hr : s.state = .running
  · by_cases hb : env.buffer
    · rw [if_pos ⟨hr, hb⟩, Option.filter_eq_none_iff] at h
      rw [if_neg (not_not.mpr hr), if_neg (by simp [hb])]
      cases hp : rtwParseInbound json PAYLOAD_CAP with
      | none => exact ⟨by simp, rfl⟩
      | some ev =>
        have hev := h ev hp
        have hev : ev.streamSid.bytes ≠ [] ∧ ev.streamSid ≠ s.streamSid := by
          simpa only [decide_eq_true_eq, not_or] using hev
        simp only [if_pos hev]
        exact ⟨by simp, trivial⟩
    · rw [if_neg (not_not.mpr hr), if_pos (by simpa using hb)]
      exact ⟨by simp, rfl⟩
  · rw [if_pos hr]
    exact ⟨by simp, rfl⟩

/-- What the switch on the event type does, branch by branch. -/
theorem handleEvent_spec (env : Env) (s : Session) (ev : InboundEvent) :
    ∃ ms, Emits s.out ms (handleEvent env s ev).2.out ∧ ms.From env ∧
      (handleEvent env s ev).2.state = s.state ∧
      match ev.type with
      | .media => ms = [] ∧
        (handleEvent env s ev).1 = (if (rtwPlayoutWrite s.playout ev.payload).1 = 0 then 0 else -2) ∧
        (handleEvent env s ev).2.playout = (rtwPlayoutWrite s.playout ev.payload).2
      | .mark => ms = [] ∧
        (handleEvent env s ev).1 = (rtwPlayoutAddMark s.playout ev.markName.toCStr).1 ∧
        (handleEvent env s ev).2.playout = (rtwPlayoutAddMark s.playout ev.markName.toCStr).2
      | .clear => (ms.names <+: s.playout.marks.map fun m => some m.name.toCStr) ∧
        (env.Plentiful → ms.names = s.playout.marks.map fun m => some m.name.toCStr) ∧
        (handleEvent env s ev).2.playout = (rtwPlayoutClear s.playout RTW_MARK_MAX).2
      | _ => ms = [] ∧ (handleEvent env s ev).1 = 0 ∧
        (handleEvent env s ev).2.playout = s.playout := by
  rcases ev with ⟨type, sid, markName, track, digit, payload, sequence, chunk, ts⟩
  cases type with
  | media =>
    by_cases hw : (rtwPlayoutWrite s.playout payload).1 = 0
    · rw [handleEvent, if_neg (not_not.mpr hw)]
      exact ⟨[], .nil _, .nil, rfl, rfl, (if_pos hw).symm, rfl⟩
    · rw [handleEvent, if_pos hw]
      exact ⟨[], .nil _, .nil, rfl, rfl, (if_neg hw).symm, rfl⟩
  | mark =>
    refine ⟨[], .nil _, .nil, rfl, rfl, ?_, rfl⟩
    simp only [handleEvent, addMark_fst]
    split_ifs <;> first | rfl | contradiction
  | clear =>
    obtain ⟨ms, x, hx, he, hf, hn, hp⟩ := flushAcks_spec env 0
      (rtwPlayoutClear s.playout RTW_MARK_MAX).1 { s with
        playout := (rtwPlayoutClear s.playout RTW_MARK_MAX).2
        clearEvents := s.clearEvents + 1
        clearArmed := true
        clearStartNs := env.now }
    rw [clear_fst, List.map_map] at hn hp
    refine ⟨ms, ?_, hf, ?_, hn, hp, ?_⟩ <;> simp only [handleEvent, hx]
    · exact he
    · rfl
    · rfl
  | _ => exact ⟨[], .nil _, .nil, rfl, rfl, rfl, rfl⟩

theorem rtwSessionStop_spec (env : Env) (s : Session) :
    ∃ ms, Emits s.out ms (rtwSessionStop env s).2.out ∧ ms.From env ∧
      (∀ om ∈ ms, om.2.markName? = none) ∧ (rtwSessionStop env s).2.playout = s.playout ∧
      ms.length ≤ 1 := by
  unfold rtwSessionStop
  split
  · exact ⟨[], .nil _, .nil, by simp, rfl, Nat.zero_le 1⟩
  · have hfrom : Offers.From env [(env.enqueue 0, rtwBuildStop s.streamSid.toCStr
        (some s.accountSid.toCStr) (some s.callSid.toCStr) s.seq)] := .cons 0 _ .nil
    refine ⟨_, ?_, hfrom, List.forall_mem_singleton.mpr rfl, ?_, le_rfl⟩ <;>
      simp only [enqueueJson_eq, offer_fst] <;> cases env.enqueue 0
    exacts [.number rfl (.nil _), .number rfl (.nil _), .number rfl (.nil _), rfl, rfl, rfl]

theorem rtwSessionRehandshake_spec (env : Env) (s : Session) :
    ∃ ms x, (rtwSessionRehandshake env s).2 = s.withOut x ∧ Emits s.out ms x ∧ ms.From env ∧
      (ms.map Prod.snd <+: [s.connected, s.start]) ∧
      ((rtwSessionRehandshake env s).1 = 0 → ms.stored = [s.connected, s.start]) ∧
      (env.enqueue 0 = .stored → env.enqueue 1 = .stored → s.state = .running →
        (rtwSessionRehandshake env s).1 = 0) := by
  unfold rtwSessionRehandshake
  split
  · rename_i hs
    exact ⟨[], s.out, rfl, .nil _, .nil, List.nil_prefix, by simp,
      fun _ _ h => absurd h hs⟩
  · obtain ⟨ms, x, hx, he, hf, hp, h0, hok⟩ := enqueueHandshake_spec env s
    exact ⟨ms, x, hx, he, hf, hp, h0, fun henv henv' _ => hok henv henv'⟩

/-- The latency figures are all that noting a write can change. -/
theorem noteWriteAfterClear_frame (env : Env) (s : Session) (n : ℕ) :
    (rtwSessionNoteWriteAfterClear env s n).out = s.out ∧
      SameApart s (rtwSessionNoteWriteAfterClear env s n) := by
  unfold rtwSessionNoteWriteAfterClear
  split_ifs <;> exact ⟨rfl, rfl, rfl, rfl, rfl, rfl, rfl, rfl⟩

theorem rtwSessionInit_spec {queueOk playoutOk : Bool} {outQueueCap playoutCap : ℕ} {s : Session}
    (h : rtwSessionInit queueOk playoutOk outQueueCap playoutCap = some s) :
    s.paused = false ∧ s.playout.bytes = [] ∧ s.playout.marks = [] ∧
      s.outbound.contents = [] ∧ s.outbound.history = [] ∧ s.outbound.drops = 0 ∧
      s.outbound.capacity = (if outQueueCap ≠ 0 then outQueueCap else 64) ∧
      s.playout.capacity = (if playoutCap ≠ 0 then playoutCap else 8 * 8000) := by
  unfold rtwSessionInit at h
  split at h
  · cases h
  · rename_i q hq
    split at h
    · cases h
    · rename_i p hp
      cases h
      obtain ⟨hqcap, hc, hh, hd⟩ := rtwQueueInit_spec hq
      obtain ⟨hpcap, hb, hm⟩ := rtwPlayoutInit_spec hp
      exact ⟨rfl, hb, hm, hc, hh, hd, hqcap, hpcap⟩

/-- A started session has an empty playout buffer and has queued its handshake. -/
theorem Session.Started.spec {s : Session} (h : s.Started) :
    s.state = .running ∧ s.paused = false ∧ s.playout.bytes = [] ∧ s.playout.marks = [] ∧
      s.outbound.Lawful ∧ Numbered s.out ∧
      Fifo.pushes s.outbound.history = [s.connected, { s with seq := 1 }.start] ∧
      (2 ≤ s.outbound.capacity →
        s.outbound.contents = [s.connected, { s with seq := 1 }.start]) ∧
      ∀ f ≠ Fifo.Fate.evicted, Fifo.removedBy f s.outbound.history = [] := by
  obtain ⟨_, _, _, _, s₀, env, streamSid, callSid, accountSid, custom, hinit, hstart⟩ := h
  obtain ⟨hpaused, hbytes, hmarks, hc, hh, hd, -⟩ := rtwSessionInit_spec hinit
  simp only [rtwSessionStart] at hstart
  split_ifs at hstart with hbuf hr
  · simp at hstart
  · simp at hstart
  · rw [not_not] at hr
    obtain ⟨ms, x, hx, he, -, hpre, h0, -⟩ := enqueueHandshake_spec env
      { s₀ with
        streamSid := .copy _ streamSid
        callSid := .copy _ (callSid.getD streamSid)
        accountSid := .copy _ (accountSid.getD (.lit "AC00000000000000000000000000000000"))
        customParams := custom.filter fun c => c.bytes ≠ []
        seq := 1, chunk := 1, timestampMs := 0, state := .starting }
    have hs := congrArg Prod.snd hstart
    simp only [hx] at hs
    subst hs
    have hlaw : s₀.outbound.Lawful := ⟨by rw [hc, hh]; rfl, by rw [hd, hh]; rfl⟩
    refine ⟨rfl, hpaused, hbytes, hmarks, he.lawful hlaw, he.numbered ⟨0, ?_, rfl⟩, ?_, ?_, ?_⟩
    · change (Fifo.offers s₀.outbound.history).filterMap _ = _
      rw [hh]
      rfl
    · apply he.pushes.trans
      change Fifo.pushes s₀.outbound.history ++ _ = _
      rw [hh, h0 hr]
      rfl
    · intro hcap
      have hcap0 : s₀.outbound.capacity = x.1.capacity := he.capacity.symm
      have hlen := hpre.length_le
      rw [List.length_map] at hlen
      refine (he.contents_of_room ?_).trans ?_
      · change s₀.outbound.contents.length + ms.length ≤ s₀.outbound.capacity
        rw [hc, hcap0, List.length_nil, Nat.zero_add]
        exact hlen.trans hcap
      · change s₀.outbound.contents ++ ms.stored = _
        rw [hc, h0 hr]
        rfl
    · intro f hf
      apply (he.removedBy hf).trans
      change Fifo.removedBy f s₀.outbound.history = _
      rw [hh]
      rfl

/-- What a successful start takes over from the session it is given. -/
theorem rtwSessionStart_frame {env : Env} {s₀ s : Session} {streamSid : CStr}
    {callSid accountSid custom : Option CStr}
    (h : rtwSessionStart env s₀ streamSid callSid accountSid custom = (0, s)) :
    s.outbound.capacity = s₀.outbound.capacity ∧ s.playout = s₀.playout ∧ s.timestampMs = 0 := by
  simp only [rtwSessionStart] at h
  split_ifs at h
  · simp at h
  · simp at h
  · obtain ⟨ms, x, hx, he, -⟩ := enqueueHandshake_spec env
      { s₀ with
        streamSid := .copy _ streamSid
        callSid := .copy _ (callSid.getD streamSid)
        accountSid := .copy _ (accountSid.getD (.lit "AC00000000000000000000000000000000"))
        customParams := custom.filter fun c => c.bytes ≠ []
        seq := 1, chunk := 1, timestampMs := 0, state := .starting }
    have hs := congrArg Prod.snd h
    simp only [hx] at hs
    subst hs
    exact ⟨he.capacity, rfl, rfl⟩

/-- A clock at zero and no failing allocation. -/
def Env.calm : Env := ⟨0, true, fun _ => .stored⟩

theorem Env.calm_plentiful : Env.calm.Plentiful := ⟨rfl, fun _ => rfl⟩

theorem rtwSessionInit_isSome (outQueueCap playoutCap : ℕ) :
    (rtwSessionInit true true outQueueCap playoutCap).isSome := by
  have hpos : ∀ n d : ℕ, 0 < d → 0 < if n ≠ 0 then n else d := by
    intro n d hd
    split <;> omega
  simp only [rtwSessionInit, rtwQueueInit, rtwPlayoutInit]
  rw [dif_pos (hpos _ _ (by decide)), dif_pos (hpos _ _ (by decide))]
  rfl

/-- A session started with the given capacities and stream id when nothing fails. -/
def Session.boot (outQueueCap playoutCap : ℕ) (streamSid : CStr) : Session :=
  (rtwSessionStart .calm
    ((rtwSessionInit true true outQueueCap playoutCap).get (rtwSessionInit_isSome _ _))
    streamSid none none none).2

def demoSid : CStr := .lit "MZ0"

theorem Session.boot_started (outQueueCap playoutCap : ℕ) (streamSid : CStr) :
    (Session.boot outQueueCap playoutCap streamSid).Started := by
  refine ⟨true, true, outQueueCap, playoutCap, _, .calm, streamSid, none, none, none,
    (Option.some_get _).symm, Prod.ext ?_ rfl⟩
  obtain ⟨_, _, -, -, -, -, -, hok⟩ := enqueueHandshake_spec .calm
    { (rtwSessionInit true true outQueueCap playoutCap).get (rtwSessionInit_isSome _ _) with
      streamSid := .copy _ streamSid
      callSid := .copy _ streamSid
      accountSid := .copy _ (.lit "AC00000000000000000000000000000000")
      customParams := none
      seq := 1, chunk := 1, timestampMs := 0, state := .starting }
  have h0 := hok rfl rfl
  simp only [rtwSessionStart, Option.filter_none, Option.isSome_none, Option.getD_none]
  rw [if_neg (by simp), if_neg (not_not.mpr h0)]

/-! ### What sending leaves alone -/

/-- A reading that neither an offer nor the numbering of a frame changes. -/
def Spared {β : Type*} (f : Session → β) : Prop :=
  ∀ (s : Session) (x : BoundedQueue OutMsg × UInt32) (chunk timestampMs : UInt32)
    (uplinkFrames : UInt64), f { s.withOut x with chunk, timestampMs, uplinkFrames } = f s

section

variable {β : Type*} {f : Session → β}

theorem Spared.withOut (hf : Spared f) (s : Session) (x : BoundedQueue OutMsg × UInt32) :
    f (s.withOut x) = f s :=
  hf s x s.chunk s.timestampMs s.uplinkFrames

theorem Spared.frame (hf : Spared f) (o : EnqueueOutcome) (s : Session) (pcm : List Int16) :
    f (pushFrame o s pcm).2 = f s := by
  unfold pushFrame
  cases rtwBuildMedia s.streamSid.toCStr (some (.lit "inbound")) s.chunk s.timestampMs s.seq
      (rtwPcm16ToMulaw pcm) with
  | none => exact hf.withOut s (s.outbound, s.seq + 1)
  | some m =>
    simp only [enqueueJson_eq, offer_fst]
    cases o with
    | stored => exact hf s _ _ _ _
    | noJson => exact hf.withOut s _
    | noCopy => exact hf.withOut s _

theorem Spared.frames (hf : Spared f) (env : Env) (n i : ℕ) (pcm : List Int16) (s : Session) :
    f (pushFrames env n i pcm s).2 = f s := by
  induction n generalizing i pcm s with
  | zero => rfl
  | succ n ih =>
    have hframe := hf.frame (env.enqueue i) s (pcm.take RTW_FRAME_MULAW_BYTES)
    unfold pushFrames
    dsimp only
    split
    · exact hframe
    · exact (ih _ _ _).trans hframe

theorem Spared.push (hf : Spared f) (env : Env) (s : Session) (pcm : List Int16) :
    f (rtwSessionPushPcm16 env s pcm).2 = f s := by
  unfold rtwSessionPushPcm16
  split
  · rfl
  · exact hf.frames env _ 0 pcm s

theorem Spared.handshake (hf : Spared f) (env : Env) (s : Session) :
    f (enqueueHandshake env s).2 = f s := by
  obtain ⟨ms, x, hx, -⟩ := enqueueHandshake_spec env s
  rw [hx]
  exact hf.withOut s x

theorem Spared.rehandshake (hf : Spared f) (env : Env) (s : Session) :
    f (rtwSessionRehandshake env s).2 = f s := by
  obtain ⟨ms, x, hx, -⟩ := rtwSessionRehandshake_spec env s
  rw [hx]
  exact hf.withOut s x

/-- A harvest takes marks from the playout besides. -/
theorem Spared.harvest (hf : Spared f) (hplay : ∀ s playout, f { s with playout } = f s)
    (env : Env) (s : Session) : f (rtwSessionHarvestMarks env s) = f s := by
  obtain ⟨ms, x, hx, -⟩ := rtwSessionHarvestMarks_spec env s
  rw [hx]
  exact (hf.withOut _ x).trans (hplay s _)

/-- A stop leaves another state besides. -/
theorem Spared.stop (hf : Spared f) (hstate : ∀ s state, f { s with state } = f s) (env : Env)
    (s : Session) : f (rtwSessionStop env s).2 = f s := by
  have hleft : ∀ state x, f (({ s with state } : Session).withOut x) = f s := by
    intro state x
    exact (hf.withOut _ x).trans (hstate s state)
  unfold rtwSessionStop
  split
  · rfl
  · simp only [enqueueJson_eq, offer_fst]
    by_cases hsent : env.enqueue 0 = .stored
    · rw [if_pos hsent, if_neg (not_not.mpr rfl)]
      exact hleft .stopped (_, s.seq + 1)
    · rw [if_neg hsent, if_pos (by decide)]
      exact hleft .stopping (_, s.seq + 1)

end

/-! ### Every call -/

/-- What a call takes from the queue after its offers. -/
def SessionOp.take : SessionOp → BoundedQueue OutMsg → BoundedQueue OutMsg
  | .popOutbound, q => (rtwQueuePop q).2
  | .dropOutboundHead, q => (rtwQueueDropHead q).2
  | _, q => q

/-- Offers first, then at most one removal at the head. -/
theorem Session.step_out (s : Session) (env : Env) (op : SessionOp) :
    ∃ ms x, Emits s.out ms x ∧ ms.From env ∧
      (s.step (env, op)).out = (op.take x.1, x.2) := by
  cases op with
  | handlePeerJson json =>
    cases hj : s.inboundFor env json with
    | none =>
      refine ⟨[], s.out, .nil _, .nil, ?_⟩
      rw [step, (handlePeerJson_of_none hj).2]
      rfl
    | some ev =>
      obtain ⟨ms, he, hf, -⟩ := handleEvent_spec env s ev
      refine ⟨ms, _, he, hf, ?_⟩
      rw [step, handlePeerJson_of_event hj]
      rfl
  | pushPcm16 pcm =>
    obtain ⟨ms, he, hf, -⟩ := rtwSessionPushPcm16_spec env s pcm
    exact ⟨ms, _, he, hf, rfl⟩
  | popOutbound =>
    obtain ⟨ms, x, hx, he, hf, -⟩ := rtwSessionHarvestMarks_spec env s
    refine ⟨ms, x, he, hf, ?_⟩
    simp only [step, rtwSessionPopOutbound, hx]
    rfl
  | peekOutbound =>
    obtain ⟨ms, x, hx, he, hf, -⟩ := rtwSessionHarvestMarks_spec env s
    refine ⟨ms, x, he, hf, ?_⟩
    simp only [step, rtwSessionPeekOutbound, hx]
    rfl
  | harvestMarks =>
    obtain ⟨ms, x, hx, he, hf, -⟩ := rtwSessionHarvestMarks_spec env s
    refine ⟨ms, x, he, hf, ?_⟩
    simp only [step, hx]
    rfl
  | stop =>
    obtain ⟨ms, he, hf, -⟩ := rtwSessionStop_spec env s
    exact ⟨ms, _, he, hf, rfl⟩
  | rehandshake =>
    obtain ⟨ms, x, hx, he, hf, -⟩ := rtwSessionRehandshake_spec env s
    refine ⟨ms, x, he, hf, ?_⟩
    simp only [step, hx]
    rfl
  | readPlayout maxLen => exact ⟨[], s.out, .nil _, .nil, rfl⟩
  | dropOutboundHead => exact ⟨[], s.out, .nil _, .nil, rfl⟩
  | noteWriteAfterClear n =>
    refine ⟨[], s.out, .nil _, .nil, ?_⟩
    rw [step, (noteWriteAfterClear_frame env s n).1]
    rfl

end RealtimeWs.Core
