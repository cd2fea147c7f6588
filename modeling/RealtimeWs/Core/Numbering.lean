import RealtimeWs.Core.Marks
import RealtimeWs.Core.Uplink

/-! The counters of a session against the history of what it pushed: sequence numbers,
media chunks and timestamps, and the clear counts. -/
namespace RealtimeWs.Core

/-- A call on the session, or the bridge setting its `paused` field. -/
inductive SessionCall
  | op (o : SessionOp)
  | pause (on : Bool)

def Session.call (s : Session) : Env × SessionCall → Session
  | (env, .op o) => s.step (env, o)
  | (_, .pause on) => { s with paused := on }

/-- The blocks of 160 samples that a call consumes. -/
def Session.consumes (s : Session) : Env × SessionCall → List (List Int16)
  | (_, .op (.pushPcm16 pcm)) =>
    if s.state ≠ .running ∨ s.paused then [] else frames (pcm.length / RTW_FRAME_MULAW_BYTES) pcm
  | _ => []

/-- The session with the blocks it consumes. -/
def calls : Machine Session (Env × SessionCall) (List Int16) where
  step := Session.call
  out := Session.consumes

/-- Every message pushed on the outbound queue so far. -/
def Session.pushed (s : Session) : List OutMsg := Fifo.pushes s.outbound.history

/-- Chunk, timestamp and payload of a media message. -/
def OutMsg.media? : OutMsg → Option (UInt32 × UInt32 × List UInt8)
  | .media _ _ chunk timestampMs _ mulaw => some (chunk, timestampMs, mulaw)
  | _ => none

/-- The media messages the blocks are due, counting from `n`. -/
def mediaDue (n : ℕ) (blocks : List (List Int16)) : List (UInt32 × UInt32 × List UInt8) :=
  blocks.mapIdx fun j b =>
    (UInt32.ofNat (n + j + 1), UInt32.ofNat (20 * (n + j)), rtwPcm16ToMulaw b)

/-- The counters after `n` blocks. -/
structure Session.At (s : Session) (n : ℕ) : Prop where
  chunk : s.chunk = UInt32.ofNat (n + 1)
  timestampMs : s.timestampMs = UInt32.ofNat (20 * n)
  uplinkFrames : s.uplinkFrames = UInt64.ofNat n

/-! ### Media -/

theorem mediaDue_append (n : ℕ) (bs cs : List (List Int16)) :
    mediaDue n (bs ++ cs) = mediaDue n bs ++ mediaDue (n + bs.length) cs := by
  rw [mediaDue, List.mapIdx_append, mediaDue, mediaDue]
  congr 2
  funext j b
  rw [show n + (j + bs.length) = n + bs.length + j by omega]

/-- The framing loop pushes the media its blocks are due. -/
theorem pushFrames_media {env : Env} (henv : env.Plentiful) (k i : ℕ) (pcm : List Int16)
    (s : Session) (h : RTW_FRAME_MULAW_BYTES * k ≤ pcm.length) {n : ℕ} (hn : s.At n) :
    (pushFrames env k i pcm s).2.pushed.filterMap OutMsg.media? =
        s.pushed.filterMap OutMsg.media? ++ mediaDue n (frames k pcm) ∧
      (pushFrames env k i pcm s).2.At (n + k) ∧
      (pushFrames env k i pcm s).1 = (pcm.length - RTW_FRAME_MULAW_BYTES * k : ℕ) := by
  induction k generalizing i pcm s n with
  | zero => exact ⟨(List.append_nil _).symm, hn, rfl⟩
  | succ k ih =>
    have hne : pcm.take RTW_FRAME_MULAW_BYTES ≠ [] := by
      have hlen := length_of_mem_frames h _ List.mem_cons_self
      intro h0
      rw [h0] at hlen
      cases hlen
    have hframe := pushFrame_eq (env.enqueue i) s hne
    rw [if_pos (henv.enqueue i)] at hframe
    have hnext : (pushFrame (env.enqueue i) s (pcm.take RTW_FRAME_MULAW_BYTES)).2.At (n + 1) := by
      rw [hframe]
      constructor
      · change s.chunk + 1 = _
        rw [hn.chunk, UInt32.ofNat_add (n + 1) 1]
        rfl
      · change s.timestampMs + 20 = _
        rw [hn.timestampMs, Nat.mul_succ, UInt32.ofNat_add (20 * n) 20]
        rfl
      · change s.uplinkFrames + 1 = _
        rw [hn.uplinkFrames, UInt64.ofNat_add n 1]
        rfl
    obtain ⟨hmedia, hat, hret⟩ := ih (i + 1) (pcm.drop RTW_FRAME_MULAW_BYTES)
      (pushFrame (env.enqueue i) s (pcm.take RTW_FRAME_MULAW_BYTES)).2 (by
        rw [List.length_drop]
        rw [Nat.mul_succ] at h
        omega) hnext
    rw [pushFrames, hframe]
    rw [hframe] at hmedia hat hret
    simp only [ne_eq, not_true_eq_false, if_false]
    refine ⟨?_, ?_, ?_⟩
    · have hone : ∀ rest, mediaDue n (pcm.take RTW_FRAME_MULAW_BYTES :: rest) =
          (s.chunk, s.timestampMs, rtwPcm16ToMulaw (pcm.take RTW_FRAME_MULAW_BYTES)) ::
            mediaDue (n + 1) rest := by
        intro rest
        rw [← List.singleton_append, mediaDue_append, hn.chunk, hn.timestampMs]
        rfl
      rw [hmedia, frames, hone]
      change (Fifo.pushes (offer (env.enqueue i) s.outbound _).2.history).filterMap _ ++ _ = _
      rw [pushes_offer, if_pos (henv.enqueue i), List.filterMap_append, List.append_assoc]
      rfl
    · rw [Nat.add_comm k, ← Nat.add_assoc]
      exact hat
    · have hleft : (pcm.drop RTW_FRAME_MULAW_BYTES).length - RTW_FRAME_MULAW_BYTES * k =
          pcm.length - RTW_FRAME_MULAW_BYTES * (k + 1) := by
        rw [List.length_drop, Nat.mul_succ]
        omega
      rw [hret, hleft]

/-- What a call that pushes no samples does to the media counters: nothing. -/
structure SameMedia (s t : Session) : Prop where
  media : t.pushed.filterMap OutMsg.media? = s.pushed.filterMap OutMsg.media?
  chunk : t.chunk = s.chunk
  timestampMs : t.timestampMs = s.timestampMs
  uplinkFrames : t.uplinkFrames = s.uplinkFrames

theorem SameMedia.refl (s : Session) : SameMedia s s := ⟨rfl, rfl, rfl, rfl⟩

theorem SameMedia.at {s t : Session} (h : SameMedia s t) {n : ℕ} (hn : s.At n) : t.At n :=
  ⟨h.chunk.trans hn.chunk, h.timestampMs.trans hn.timestampMs,
    h.uplinkFrames.trans hn.uplinkFrames⟩

variable {env : Env} {s t : Session} {ms : Offers}

theorem media_of_mark {m : OutMsg} (h : m.markName?.isSome = true) : m.media? = none := by
  cases m with
  | mark => rfl
  | _ => cases h

theorem media_of_names {names : List CStr} (h : ms.names <+: names.map some) :
    ∀ om ∈ ms, om.2.media? = none := by
  intro om hom
  apply media_of_mark
  have hmem : om.2.markName? ∈ names.map some :=
    h.subset (List.mem_map_of_mem (f := fun om => om.2.markName?) hom)
  obtain ⟨name, -, hname⟩ := List.mem_map.mp hmem
  rw [← hname]
  rfl

theorem Emits.media {x y : BoundedQueue OutMsg × UInt32} (h : Emits x ms y)
    (hm : ∀ om ∈ ms, om.2.media? = none) :
    (Fifo.pushes y.1.history).filterMap OutMsg.media? =
      (Fifo.pushes x.1.history).filterMap OutMsg.media? := by
  have hnone : ms.stored.filterMap OutMsg.media? = [] := by
    refine List.filterMap_eq_nil_iff.mpr fun m hmem => ?_
    obtain ⟨om, hom, rfl⟩ := List.mem_map.mp ((stored_sublist ms).subset hmem)
    exact hm om hom
  rw [h.pushes, List.filterMap_append, hnone, List.append_nil]

theorem clearCount_write (p : Playout) (data : List UInt8) :
    (rtwPlayoutWrite p data).2.clearCount = p.clearCount := by
  unfold rtwPlayoutWrite
  split
  · rfl
  · split <;> rfl

theorem clearCount_addMark (p : Playout) (name : CStr) :
    (rtwPlayoutAddMark p name).2.clearCount = p.clearCount := by
  unfold rtwPlayoutAddMark
  split <;> rfl

theorem clearCount_read (p : Playout) (maxLen : ℕ) :
    (rtwPlayoutRead p maxLen).2.clearCount = p.clearCount := by
  unfold rtwPlayoutRead
  split <;> rfl

/-- What an event cannot change, and that both clear counters count the same. -/
theorem handleEvent_rest (env : Env) (s : Session) (ev : InboundEvent) :
    (handleEvent env s ev).2 = { (handleEvent env s ev).2 with
      chunk := s.chunk, timestampMs := s.timestampMs, uplinkFrames := s.uplinkFrames } ∧
    (s.clearEvents = s.playout.clearCount →
      (handleEvent env s ev).2.clearEvents = (handleEvent env s ev).2.playout.clearCount) := by
  unfold handleEvent
  cases ev.type with
  | media =>
    simp only
    split
    · exact ⟨rfl, fun h => h.trans (clearCount_write s.playout ev.payload).symm⟩
    · exact ⟨rfl, fun h => h.trans (clearCount_write s.playout ev.payload).symm⟩
  | mark => exact ⟨rfl, fun h => h.trans (clearCount_addMark s.playout ev.markName.toCStr).symm⟩
  | clear =>
    obtain ⟨ms, x, hx, -⟩ := flushAcks_spec env 0 (rtwPlayoutClear s.playout RTW_MARK_MAX).1
      { s with
        playout := (rtwPlayoutClear s.playout RTW_MARK_MAX).2
        clearEvents := s.clearEvents + 1
        clearArmed := true
        clearStartNs := env.now }
    simp only [hx]
    refine ⟨rfl, fun h => ?_⟩
    exact congrArg (· + 1) h
  | _ => exact ⟨rfl, fun h => h⟩

theorem handleEvent_media (env : Env) (s : Session) (ev : InboundEvent) :
    SameMedia s (handleEvent env s ev).2 := by
  obtain ⟨ms, he, -, -, hev⟩ := handleEvent_spec env s ev
  have hnone : ∀ om ∈ ms, om.2.media? = none := by
    cases htype : ev.type with
    | clear =>
      rw [htype] at hev
      have hnames : ms.names <+: (s.playout.marks.map fun m => m.name.toCStr).map some := by
        rw [List.map_map]
        exact hev.1
      exact media_of_names hnames
    | _ =>
      rw [htype] at hev
      rw [hev.1]
      intro om hom
      cases hom
  have hrest := (handleEvent_rest env s ev).1
  refine ⟨he.media hnone, ?_, ?_, ?_⟩ <;> rw [hrest]

theorem harvestMarks_media (env : Env) (s : Session) :
    SameMedia s (rtwSessionHarvestMarks env s) := by
  obtain ⟨ms, x, hx, he, -, hn⟩ := rtwSessionHarvestMarks_spec env s
  have hnone : ∀ om ∈ ms, om.2.media? = none := by
    have hnames : ms.names <+: (((completed s.playout.marks).take HARVEST_MAX).map
        fun m => m.name.toCStr).map some := by
      rw [hn, List.map_map]
      exact List.prefix_rfl
    exact media_of_names hnames
  rw [hx]
  exact ⟨he.media hnone, rfl, rfl, rfl⟩

theorem handshake_media (env : Env) (s : Session) :
    SameMedia s (rtwSessionRehandshake env s).2 := by
  obtain ⟨ms, x, hx, he, -, hpre, -⟩ := rtwSessionRehandshake_spec env s
  have hnone : ∀ om ∈ ms, om.2.media? = none := by
    intro om hom
    have hmem := hpre.subset (List.mem_map_of_mem hom)
    rcases List.mem_cons.mp hmem with h | h
    · rw [h]
      rfl
    · rw [List.mem_singleton.mp h]
      rfl
  rw [hx]
  exact ⟨he.media hnone, rfl, rfl, rfl⟩

theorem stop_media (env : Env) (s : Session) : SameMedia s (rtwSessionStop env s).2 := by
  unfold rtwSessionStop
  split
  · exact .refl s
  · have hpush : ∀ o m, OutMsg.media? m = none →
        (Fifo.pushes (offer o s.outbound m).2.history).filterMap OutMsg.media? =
          s.pushed.filterMap OutMsg.media? := by
      intro o m hm
      rw [pushes_offer, List.filterMap_append, Session.pushed]
      split
      · rw [List.filterMap_cons_none hm]
        exact List.append_nil _
      · exact List.append_nil _
    simp only [enqueueJson_eq, offer_fst]
    split
    · exact ⟨hpush _ _ rfl, rfl, rfl, rfl⟩
    · exact ⟨hpush _ _ rfl, rfl, rfl, rfl⟩

/-- Taking a message from the queue pushes nothing. -/
theorem SameMedia.take {s t : Session} (h : SameMedia s t) (op : SessionOp) :
    SameMedia s { t with outbound := op.take t.outbound } := by
  refine ⟨?_, h.chunk, h.timestampMs, h.uplinkFrames⟩
  rw [← h.media]
  exact congrArg _ (pushes_take op t.outbound)

/-- Only a push of samples touches the media counters. -/
theorem step_media {op : SessionOp} (hop : ∀ pcm, op ≠ .pushPcm16 pcm) (env : Env) (s : Session) :
    SameMedia s (s.step (env, op)) := by
  cases op with
  | pushPcm16 pcm => exact absurd rfl (hop pcm)
  | handlePeerJson json =>
    cases hj : s.inboundFor env json with
    | none =>
      rw [Session.step, (handlePeerJson_of_none hj).2]
      exact .refl s
    | some ev =>
      rw [Session.step, handlePeerJson_of_event hj]
      exact handleEvent_media env s ev
  | popOutbound => exact (harvestMarks_media env s).take .popOutbound
  | peekOutbound => exact harvestMarks_media env s
  | harvestMarks => exact harvestMarks_media env s
  | dropOutboundHead => exact (SameMedia.refl s).take .dropOutboundHead
  | readPlayout maxLen => exact ⟨rfl, rfl, rfl, rfl⟩
  | noteWriteAfterClear n =>
    rw [Session.step]
    unfold rtwSessionNoteWriteAfterClear
    split_ifs <;> exact ⟨rfl, rfl, rfl, rfl⟩
  | stop => exact stop_media env s
  | rehandshake => exact handshake_media env s

/-! ### The clear counters -/

theorem clears_spared : Spared fun s => (s.clearEvents, s.playout) := fun _ _ _ _ _ => rfl

theorem step_clears (h : s.clearEvents = s.playout.clearCount) (x : Env × SessionOp) :
    (s.step x).clearEvents = (s.step x).playout.clearCount := by
  obtain ⟨env, op⟩ := x
  have hharvest : (rtwSessionHarvestMarks env s).clearEvents =
      (rtwSessionHarvestMarks env s).playout.clearCount := by
    obtain ⟨ms, x, hx, -⟩ := rtwSessionHarvestMarks_spec env s
    rw [hx]
    exact h
  cases op with
  | pushPcm16 pcm =>
    obtain ⟨hevents, hplay⟩ := Prod.mk.inj (clears_spared.push env s pcm)
    rw [Session.step, hevents, hplay]
    exact h
  | handlePeerJson json =>
    cases hj : s.inboundFor env json with
    | none =>
      rw [Session.step, (handlePeerJson_of_none hj).2]
      exact h
    | some ev =>
      rw [Session.step, handlePeerJson_of_event hj]
      exact (handleEvent_rest env s ev).2 h
  | popOutbound => exact hharvest
  | peekOutbound => exact hharvest
  | harvestMarks => exact hharvest
  | dropOutboundHead => exact h
  | readPlayout maxLen => exact h.trans (clearCount_read s.playout maxLen).symm
  | noteWriteAfterClear n =>
    rw [Session.step]
    unfold rtwSessionNoteWriteAfterClear
    split_ifs <;> exact h
  | stop =>
    obtain ⟨hevents, hplay⟩ := Prod.mk.inj (clears_spared.stop (fun _ _ => rfl) env s)
    rw [Session.step, hevents, hplay]
    exact h
  | rehandshake =>
    obtain ⟨hevents, hplay⟩ := Prod.mk.inj (clears_spared.rehandshake env s)
    rw [Session.step, hevents, hplay]
    exact h

/-! ### Runs -/

theorem offers_take (op : SessionOp) (q : BoundedQueue OutMsg) :
    Fifo.offers (op.take q).history = Fifo.offers q.history := by
  cases op with
  | popOutbound =>
    rcases rtwQueuePop_spec q with ⟨-, he⟩ | ⟨b, -, -, hh, -⟩
    · rw [SessionOp.take, he]
    · rw [SessionOp.take, hh, Fifo.offers_append]
      exact List.append_nil _
  | dropOutboundHead =>
    rcases rtwQueueDropHead_spec q with ⟨-, he⟩ | ⟨b, -, -, hh, -⟩
    · rw [SessionOp.take, he]
    · rw [SessionOp.take, hh, Fifo.offers_append]
      exact List.append_nil _
  | _ => rfl

/-- What a run without failures keeps: everything offered was pushed, and the counters
agree with the history. -/
structure Tracked (s : Session) (blocks : List (List Int16)) : Prop where
  unfailed : Fifo.offers s.outbound.history = s.pushed
  numbered : Numbered s.out
  greeted : ∃ m ∈ s.pushed, m.seq? = none
  media : s.pushed.filterMap OutMsg.media? = mediaDue 0 blocks
  counters : s.At blocks.length
  clears : s.clearEvents = s.playout.clearCount

/-- The part about the queue, for any call. -/
theorem Tracked.queue_step {blocks : List (List Int16)} (h : Tracked s blocks)
    (henv : env.Plentiful) (op : SessionOp) :
    Fifo.offers (s.step (env, op)).outbound.history = (s.step (env, op)).pushed ∧
      Numbered (s.step (env, op)).out ∧ ∃ m ∈ (s.step (env, op)).pushed, m.seq? = none := by
  obtain ⟨ms, x, he, hf, hout⟩ := s.step_out env op
  have hq : (s.step (env, op)).outbound = op.take x.1 := congrArg Prod.fst hout
  have hpushes : (s.step (env, op)).pushed = s.pushed ++ ms.map Prod.snd := by
    rw [Session.pushed, hq, pushes_take, he.pushes, hf.stored_eq henv]
    rfl
  have hoffers : Fifo.offers (s.step (env, op)).outbound.history =
      Fifo.offers s.outbound.history ++ ms.map Prod.snd := by
    rw [hq, offers_take, he.offers]
    rfl
  refine ⟨?_, ?_, ?_⟩
  · rw [hoffers, hpushes, h.unfailed]
  · obtain ⟨n, hn, hseq⟩ := he.numbered h.numbered
    refine ⟨n, ?_, ?_⟩
    · rw [hout, offers_take]
      exact hn
    · rw [hout]
      exact hseq
  · obtain ⟨m, hm, hnone⟩ := h.greeted
    rw [hpushes]
    exact ⟨m, List.mem_append_left _ hm, hnone⟩

theorem Tracked.step {blocks : List (List Int16)} (h : Tracked s blocks) {x : Env × SessionCall}
    (henv : x.1.Plentiful) : Tracked (s.call x) (blocks ++ s.consumes x) := by
  obtain ⟨env, call⟩ := x
  cases call with
  | pause on =>
    have hnone : s.consumes (env, .pause on) = [] := rfl
    rw [hnone, List.append_nil]
    exact ⟨h.unfailed, h.numbered, h.greeted, h.media, ⟨h.counters.1, h.counters.2, h.counters.3⟩,
      h.clears⟩
  | op o =>
    obtain ⟨hunfailed, hnumbered, hgreeted⟩ := h.queue_step henv o
    have hclears := step_clears h.clears (env, o)
    by_cases hpush : ∃ pcm, o = .pushPcm16 pcm
    · obtain ⟨pcm, rfl⟩ := hpush
      by_cases hrun : s.state ≠ .running ∨ s.paused = true
      · have hstay : s.step (env, .pushPcm16 pcm) = s := by
          rw [Session.step, rtwSessionPushPcm16, if_pos hrun]
        have hnone : s.consumes (env, .op (.pushPcm16 pcm)) = [] := if_pos hrun
        rw [hnone, List.append_nil]
        change Tracked (s.step (env, .pushPcm16 pcm)) blocks
        rw [hstay]
        exact h
      · have hblocks : s.consumes (env, .op (.pushPcm16 pcm)) =
            frames (pcm.length / RTW_FRAME_MULAW_BYTES) pcm := if_neg hrun
        have hpushed : s.step (env, .pushPcm16 pcm) =
            (pushFrames env (pcm.length / RTW_FRAME_MULAW_BYTES) 0 pcm s).2 := by
          rw [Session.step, rtwSessionPushPcm16, if_neg hrun]
        obtain ⟨hmedia, hat, -⟩ := pushFrames_media henv
          (pcm.length / RTW_FRAME_MULAW_BYTES) 0 pcm s (Nat.mul_div_le _ _) h.counters
        rw [← hpushed] at hmedia hat
        refine ⟨hunfailed, hnumbered, hgreeted, ?_, ?_, hclears⟩
        · rw [hblocks, mediaDue_append, Nat.zero_add, ← h.media]
          exact hmedia
        · rw [hblocks, List.length_append, length_frames]
          exact hat
    · have hsame := step_media (fun pcm ho => hpush ⟨pcm, ho⟩) env s
      have hnone : s.consumes (env, .op o) = [] := by
        cases o with
        | pushPcm16 pcm => exact absurd ⟨pcm, rfl⟩ hpush
        | _ => rfl
      rw [hnone, List.append_nil]
      exact ⟨hunfailed, hnumbered, hgreeted, hsame.media.trans h.media, hsame.at h.counters,
        hclears⟩

theorem rtwPlayoutInit_clearCount {ok : Bool} {capacity : ℕ} {p : Playout}
    (h : rtwPlayoutInit ok capacity = some p) : p.clearCount = 0 := by
  unfold rtwPlayoutInit at h
  split at h
  · split at h
    · cases h
      rfl
    · cases h
  · cases h

theorem rtwSessionInit_counters {queueOk playoutOk : Bool} {outQueueCap playoutCap : ℕ}
    (h : rtwSessionInit queueOk playoutOk outQueueCap playoutCap = some s) :
    s.uplinkFrames = 0 ∧ s.clearEvents = s.playout.clearCount := by
  unfold rtwSessionInit at h
  split at h
  · cases h
  · split at h
    · cases h
    · rename_i p hp
      cases h
      exact ⟨rfl, (rtwPlayoutInit_clearCount hp).symm⟩

/-- A session that starts has pushed its handshake and nothing else. -/
theorem Session.Started.tracked (h : s.Started) : Tracked s [] := by
  obtain ⟨-, -, -, -, -, hnum, hpushes, -⟩ := h.spec
  obtain ⟨queueOk, playoutOk, outQueueCap, playoutCap, s₀, env, streamSid, callSid, accountSid,
    custom, hinit, hstart⟩ := h
  obtain ⟨-, -, -, -, hhist, -⟩ := rtwSessionInit_spec hinit
  obtain ⟨hframes, hevents⟩ := rtwSessionInit_counters hinit
  simp only [rtwSessionStart] at hstart
  split_ifs at hstart with hbuf hr
  · simp at hstart
  · simp at hstart
  · rw [not_not] at hr
    obtain ⟨ms, x, hx, he, -, hpre, h0, -⟩ := enqueueHandshake_spec env
      { s₀ with
        streamSid := .copy _ streamSid
        callSid := .copy _ (callSid.getD streamSid)
        accountSid := .copy _ (accountSid.getD (.lit "AC00000000000000000000000000000000"))
        customParams := custom.filter fun c => c.bytes ≠ []
        seq := 1, chunk := 1, timestampMs := 0, state := .starting }
    have hs := congrArg Prod.snd hstart
    simp only [hx] at hs
    have hstored := h0 hr
    have hall : ms.map Prod.snd = ms.stored := by
      apply ((stored_sublist ms).eq_of_length_le ?_).symm
      rw [hstored]
      exact hpre.length_le
    have hoffers : Fifo.offers s.outbound.history = s.pushed := by
      subst hs
      have hpushed : Fifo.pushes x.1.history = Fifo.pushes s₀.outbound.history ++ ms.stored :=
        he.pushes
      have hoffered : Fifo.offers x.1.history =
          Fifo.offers s₀.outbound.history ++ ms.map Prod.snd := he.offers
      rw [hhist] at hpushed hoffered
      change Fifo.offers x.1.history = Fifo.pushes x.1.history
      rw [hoffered, hpushed, hall]
      rfl
    refine ⟨hoffers, hnum, ⟨s.connected, ?_, rfl⟩, ?_, ?_, ?_⟩
    · rw [Session.pushed, hpushes]
      exact List.mem_cons_self
    · rw [Session.pushed, hpushes]
      rfl
    · subst hs
      exact ⟨rfl, rfl, hframes⟩
    · subst hs
      exact hevents

/-- The counters read as numbers, when `clock` is how milliseconds are counted. -/
structure Counted (clock : ℕ → ℕ) (s : Session) (blocks : List (List Int16)) : Prop where
  numbers : (s.pushed.filterMap OutMsg.seq?).map UInt32.toNat =
    (List.range (s.pushed.filterMap OutMsg.seq?).length).map (· + 1)
  seq : s.seq.toNat = (s.pushed.filterMap OutMsg.seq?).length + 1
  media : (s.pushed.filterMap OutMsg.media?).map (fun m => (m.1.toNat, m.2.1.toNat, m.2.2)) =
    blocks.mapIdx fun j b => (j + 1, clock (20 * j), rtwPcm16ToMulaw b)
  chunk : s.chunk.toNat = s.uplinkFrames.toNat + 1
  timestampMs : s.timestampMs.toNat = clock (20 * s.uplinkFrames.toNat)
  uplinkFrames : s.uplinkFrames.toNat = blocks.length
  remainder : s.state = .running → s.paused = false → ∀ env pcm, env.Plentiful →
    (rtwSessionPushPcm16 env s pcm).1 = (pcm.length % RTW_FRAME_MULAW_BYTES : ℕ)
  clears : s.clearEvents = s.playout.clearCount

/-- A connected message carries no number, so the others are fewer than all. -/
theorem Tracked.length_lt (h : Tracked s blocks) :
    (s.pushed.filterMap OutMsg.seq?).length < s.pushed.length ∧
      blocks.length < s.pushed.length := by
  obtain ⟨m, hm, hseq⟩ := h.greeted
  have hmedia : m.media? = none := by
    cases m with
    | connected => rfl
    | _ => cases hseq
  have hblocks : blocks.length = (s.pushed.filterMap OutMsg.media?).length := by
    rw [h.media, mediaDue, List.length_mapIdx]
  constructor
  · exact List.length_filterMap_lt_length_iff_exists.mpr ⟨m, hm, hseq⟩
  · rw [hblocks]
    exact List.length_filterMap_lt_length_iff_exists.mpr ⟨m, hm, hmedia⟩

/-- On a running session that is not paused the rest of the last frame is returned. -/
theorem pushPcm16_remainder (henv : env.Plentiful) (hrun : s.state = .running)
    (hpaused : s.paused = false) {n : ℕ} (hn : s.At n) (pcm : List Int16) :
    (rtwSessionPushPcm16 env s pcm).1 = (pcm.length % RTW_FRAME_MULAW_BYTES : ℕ) := by
  have hopen : ¬ (s.state ≠ .running ∨ s.paused = true) := by
    rintro (h | h)
    · exact h hrun
    · rw [hpaused] at h
      cases h
  obtain ⟨-, -, hret⟩ := pushFrames_media henv (pcm.length / RTW_FRAME_MULAW_BYTES) 0 pcm s
    (Nat.mul_div_le _ _) hn
  rw [rtwSessionPushPcm16, if_neg hopen, hret]
  congr 1
  exact (Nat.mod_eq_sub_mul_div).symm

theorem Tracked.counted (h : Tracked s blocks) (hfew : s.pushed.length < 2 ^ 32) :
    Counted (· % 2 ^ 32) s blocks := by
  obtain ⟨hnumbered, hblocks⟩ := h.length_lt
  obtain ⟨n, hn, hseq⟩ := h.numbered
  have hn : s.pushed.filterMap OutMsg.seq? =
      (List.range n).map fun i => UInt32.ofNat (i + 1) := by
    rw [← h.unfailed]
    exact hn
  have hlen : (s.pushed.filterMap OutMsg.seq?).length = n := by
    rw [hn, List.length_map, List.length_range]
  have hsmall : ∀ i < s.pushed.length, (UInt32.ofNat (i + 1)).toNat = i + 1 := by
    intro i hi
    apply UInt32.toNat_ofNat_of_lt'
    exact (Nat.succ_le_of_lt hi).trans_lt hfew
  have huplink : s.uplinkFrames.toNat = blocks.length := by
    rw [h.counters.uplinkFrames]
    apply UInt64.toNat_ofNat_of_lt'
    exact (hblocks.trans hfew).trans (by decide)
  constructor
  · rw [hlen, hn, List.map_map]
    refine List.map_congr_left fun i hi => ?_
    exact hsmall i ((List.mem_range.mp hi).trans (hlen ▸ hnumbered))
  · rw [hlen]
    exact (congrArg UInt32.toNat hseq).trans (hsmall n (hlen ▸ hnumbered))
  · rw [h.media, mediaDue]
    refine List.ext_getElem (by simp) fun j hj _ => ?_
    have hj : j < blocks.length := by simpa using hj
    have hchunk : (UInt32.ofNat (0 + j + 1)).toNat = j + 1 := by
      rw [Nat.zero_add]
      exact hsmall j (hj.trans hblocks)
    have htime : (UInt32.ofNat (20 * (0 + j))).toNat = 20 * j % 2 ^ 32 := by
      rw [Nat.zero_add, UInt32.toNat_ofNat']
    rw [List.getElem_map, List.getElem_mapIdx, List.getElem_mapIdx, hchunk, htime]
  · rw [h.counters.chunk, huplink]
    exact hsmall _ hblocks
  · rw [h.counters.timestampMs, huplink, UInt32.toNat_ofNat']
  · exact huplink
  · intro hrun hpaused env pcm henv
    exact pushPcm16_remainder henv hrun hpaused h.counters pcm
  · exact h.clears

/-- A started session keeps count: whatever is called on it, the messages pushed carry
the numbers from one on, the media messages are the blocks consumed in order, and the
counters of the session are those counts. Milliseconds wrap at `2 ^ 32`. -/
theorem counters_match_history (hs : s.Started) {cs : List (Env × SessionCall)}
    (henv : ∀ c ∈ cs, c.1.Plentiful) (hfew : (calls.run s cs).pushed.length < 2 ^ 32) :
    Counted (· % 2 ^ 32) (calls.run s cs) (calls.outputs s cs) := by
  have htracked : Tracked (calls.run s cs) ([] ++ calls.outputs s cs) :=
    calls.history_invariant (P := fun _ c => c.1.Plentiful)
      (fun _ _ _ hc h => h.step hc) hs.tracked (calls.along_of_mem henv s)
  exact htracked.counted hfew

/-- A frame and a half of silence, a pause, and a stop. -/
def shortRun : List (Env × SessionCall) :=
  [(.calm, .op (.pushPcm16 (.replicate 240 0))), (.calm, .pause true), (.calm, .op .stop)]

theorem counters_match_history_shortRun :
    Counted (· % 2 ^ 32) (calls.run (.boot 64 8 demoSid) shortRun)
      (calls.outputs (.boot 64 8 demoSid) shortRun) := by
  apply counters_match_history (Session.boot_started 64 8 demoSid)
  · intro c hc
    simp only [shortRun, List.mem_cons, List.not_mem_nil, or_false] at hc
    rcases hc with rfl | rfl | rfl <;> exact Env.calm_plentiful
  · decide +kernel

/-- The same frame of silence in `n` calls. -/
def silentCalls (n : ℕ) : List (Env × SessionCall) :=
  .replicate n (.calm, .op (.pushPcm16 (.replicate RTW_FRAME_MULAW_BYTES 0)))

/-- Every such call pushes one message. -/
theorem run_silentCalls (hrun : s.state = .running) (hpaused : s.paused = false) (n : ℕ) :
    (calls.run s (silentCalls n)).state = .running ∧
      (calls.run s (silentCalls n)).paused = false ∧
      (calls.run s (silentCalls n)).pushed.length = s.pushed.length + n ∧
      (calls.outputs s (silentCalls n)).length = n := by
  induction n with
  | zero => exact ⟨hrun, hpaused, rfl, rfl⟩
  | succ n ih =>
    obtain ⟨hstate, hpause, hlen, hout⟩ := ih
    rw [silentCalls, List.replicate_succ', calls.run_snoc, calls.outputs_snoc, ← silentCalls]
    obtain ⟨ms, hms, hmedia, -⟩ := rtwSessionPushPcm16_plentiful Env.calm_plentiful hstate hpause
      (.replicate RTW_FRAME_MULAW_BYTES 0)
    obtain ⟨-, -, -, -, hsame⟩ := rtwSessionPushPcm16_spec .calm (calls.run s (silentCalls n))
      (.replicate RTW_FRAME_MULAW_BYTES 0)
    refine ⟨hsame.state.trans hstate, hsame.paused.trans hpause, ?_, ?_⟩
    · change (Fifo.pushes (rtwSessionPushPcm16 _ _ _).2.outbound.history).length = _
      rw [hms, List.length_append, hmedia.length_eq, length_frames, List.length_replicate,
        ← Nat.add_assoc]
      exact congrArg (· + 1) hlen
    · have hone : calls.out (calls.run s (silentCalls n))
          (.calm, .op (.pushPcm16 (.replicate RTW_FRAME_MULAW_BYTES 0))) =
            frames 1 (.replicate RTW_FRAME_MULAW_BYTES 0) := by
        refine (if_neg ?_).trans ?_
        · rw [hstate, hpause]
          decide
        · rw [List.length_replicate]
          rfl
      rw [hone, List.length_append, hout, length_frames]

/-- After 50 days of calls the timestamp is no longer 20 ms a frame. -/
theorem timestamp_wraps :
    (Session.boot 64 8 demoSid).Started ∧ (∀ c ∈ silentCalls 214748365, c.1.Plentiful) ∧
      (calls.run (.boot 64 8 demoSid) (silentCalls 214748365)).pushed.length < 2 ^ 32 ∧
      ¬ Counted id (calls.run (.boot 64 8 demoSid) (silentCalls 214748365))
        (calls.outputs (.boot 64 8 demoSid) (silentCalls 214748365)) := by
  have hs := Session.boot_started 64 8 demoSid
  obtain ⟨hrun, hpaused, -, -, -, -, hpushes, -⟩ := hs.spec
  obtain ⟨-, -, hlen, hout⟩ := run_silentCalls hrun hpaused 214748365
  refine ⟨hs, ?_, ?_, fun h => ?_⟩
  · intro c hc
    rw [silentCalls] at hc
    rw [List.eq_of_mem_replicate hc]
    exact Env.calm_plentiful
  · have htwo : (Session.boot 64 8 demoSid).pushed.length = 2 := congrArg List.length hpushes
    rw [hlen, htwo]
    omega
  · have htime := h.timestampMs
    have hlt := UInt32.toNat_lt
      (calls.run (.boot 64 8 demoSid) (silentCalls 214748365)).timestampMs
    rw [h.uplinkFrames, hout, id] at htime
    omega

end RealtimeWs.Core
