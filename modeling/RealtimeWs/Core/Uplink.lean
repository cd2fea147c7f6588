import RealtimeWs.Core.MessageRound
import RealtimeWs.Core.Transcode

/-! Caller audio from the samples pushed to the samples the peer decodes. -/
namespace RealtimeWs.Core

/-! ### Framing -/

/-- The first `n` frames of the samples. -/
def frames : ℕ → List Int16 → List (List Int16)
  | 0, _ => []
  | n + 1, pcm => pcm.take RTW_FRAME_MULAW_BYTES :: frames n (pcm.drop RTW_FRAME_MULAW_BYTES)

@[simp] theorem length_frames (n : ℕ) (pcm : List Int16) : (frames n pcm).length = n := by
  induction n generalizing pcm with
  | zero => rfl
  | succ n ih => rw [frames, List.length_cons, ih]

theorem flatten_frames (n : ℕ) (pcm : List Int16) :
    (frames n pcm).flatten = pcm.take (RTW_FRAME_MULAW_BYTES * n) := by
  induction n generalizing pcm with
  | zero => rfl
  | succ n ih =>
    rw [frames, List.flatten_cons, ih, Nat.mul_succ, Nat.add_comm, List.take_add]

theorem length_of_mem_frames {n : ℕ} {pcm : List Int16}
    (h : RTW_FRAME_MULAW_BYTES * n ≤ pcm.length) :
    ∀ f ∈ frames n pcm, f.length = RTW_FRAME_MULAW_BYTES := by
  induction n generalizing pcm with
  | zero => simp [frames]
  | succ n ih =>
    rw [frames, List.forall_mem_cons]
    constructor
    · rw [List.length_take]
      rw [Nat.mul_succ] at h
      omega
    · apply ih
      rw [List.length_drop]
      rw [Nat.mul_succ] at h
      omega

/-- A media message whose payload encodes the frame. -/
def MediaOf (m : OutMsg) (frame : List Int16) : Prop :=
  ∃ streamSid track chunk timestampMs seq,
    m = .media streamSid track chunk timestampMs seq (rtwPcm16ToMulaw frame)

/-- Without allocation failures every frame is pushed, 20 ms after the one before. -/
theorem pushFrames_plentiful {env : Env} (henv : env.Plentiful) (n i : ℕ) (pcm : List Int16)
    (s : Session) (h : RTW_FRAME_MULAW_BYTES * n ≤ pcm.length) :
    ∃ ms, Fifo.pushes (pushFrames env n i pcm s).2.outbound.history =
        Fifo.pushes s.outbound.history ++ ms ∧
      List.Forall₂ MediaOf ms (frames n pcm) ∧
      (pushFrames env n i pcm s).2.timestampMs = s.timestampMs + 20 * .ofNat n := by
  induction n generalizing i pcm s with
  | zero => exact ⟨[], (List.append_nil _).symm, .nil, by simp [pushFrames]⟩
  | succ n ih =>
    have hne : pcm.take RTW_FRAME_MULAW_BYTES ≠ [] := by
      have hlen := length_of_mem_frames h _ List.mem_cons_self
      intro h0
      rw [h0] at hlen
      cases hlen
    have hframe := pushFrame_eq (env.enqueue i) s hne
    rw [if_pos (henv.enqueue i)] at hframe
    obtain ⟨ms, hms, hmedia, htime⟩ := ih (i + 1) (pcm.drop RTW_FRAME_MULAW_BYTES)
      (pushFrame (env.enqueue i) s (pcm.take RTW_FRAME_MULAW_BYTES)).2 (by
        rw [List.length_drop]
        rw [Nat.mul_succ] at h
        omega)
    rw [pushFrames, hframe]
    rw [hframe] at hms htime
    simp only [ne_eq, not_true_eq_false, if_false]
    refine ⟨s.media (pcm.take RTW_FRAME_MULAW_BYTES) :: ms, ?_, ?_, ?_⟩
    · rw [hms]
      change Fifo.pushes (offer (env.enqueue i) s.outbound _).2.history ++ ms = _
      rw [pushes_offer, henv.enqueue i, List.append_assoc]
      rfl
    · exact .cons ⟨_, _, _, _, _, rfl⟩ hmedia
    · rw [htime]
      change s.timestampMs + 20 + 20 * UInt32.ofNat n = _
      rw [UInt32.ofNat_add, UInt32.mul_add, UInt32.add_assoc, UInt32.add_comm 20]
      rfl

/-- A push of whole frames to a running session. -/
theorem rtwSessionPushPcm16_plentiful {env : Env} (henv : env.Plentiful) {s : Session}
    (hrun : s.state = .running) (hpaused : s.paused = false) (pcm : List Int16) :
    ∃ ms, Fifo.pushes (rtwSessionPushPcm16 env s pcm).2.outbound.history =
        Fifo.pushes s.outbound.history ++ ms ∧
      List.Forall₂ MediaOf ms (frames (pcm.length / RTW_FRAME_MULAW_BYTES) pcm) ∧
      (rtwSessionPushPcm16 env s pcm).2.timestampMs =
        s.timestampMs + 20 * .ofNat (pcm.length / RTW_FRAME_MULAW_BYTES) := by
  rw [rtwSessionPushPcm16, if_neg (by simp [hrun, hpaused])]
  exact pushFrames_plentiful henv _ 0 pcm s (Nat.mul_div_le _ _)

/-! ### Runs of pushes -/

/-- A session that is only given samples; the outputs are the messages it pushes. -/
def uplink : Machine Session (Env × List Int16) OutMsg where
  step s call := (rtwSessionPushPcm16 call.1 s call.2).2
  out s call := (Fifo.pushes (rtwSessionPushPcm16 call.1 s call.2).2.outbound.history).drop
    (Fifo.pushes s.outbound.history).length

/-- The frames of the pushes. -/
def framesOf (calls : List (Env × List Int16)) : List (List Int16) :=
  calls.flatMap fun call => frames (call.2.length / RTW_FRAME_MULAW_BYTES) call.2

theorem length_of_mem_framesOf {calls : List (Env × List Int16)} :
    ∀ f ∈ framesOf calls, f.length = RTW_FRAME_MULAW_BYTES := by
  intro f hf
  obtain ⟨call, -, hcall⟩ := List.mem_flatMap.mp hf
  exact length_of_mem_frames (Nat.mul_div_le _ _) f hcall

theorem uplink_outputs {s : Session} (hrun : s.state = .running) (hpaused : s.paused = false)
    {calls : List (Env × List Int16)} (henv : ∀ call ∈ calls, call.1.Plentiful) :
    List.Forall₂ MediaOf (uplink.outputs s calls) (framesOf calls) := by
  induction calls generalizing s with
  | nil => exact .nil
  | cons call calls ih =>
    rw [List.forall_mem_cons] at henv
    obtain ⟨ms, hms, hmedia, -⟩ := rtwSessionPushPcm16_plentiful henv.1 hrun hpaused call.2
    obtain ⟨-, -, -, -, hsame⟩ := rtwSessionPushPcm16_spec call.1 s call.2
    have hout : uplink.out s call = ms := by
      change List.drop _ _ = _
      rw [hms, List.drop_left]
    rw [Machine.outputs_cons, hout, framesOf, List.flatMap_cons]
    exact List.rel_append hmedia
      (ih (hsame.state.trans hrun) (hsame.paused.trans hpaused) henv.2)

theorem flatten_framesOf {calls : List (Env × List Int16)}
    (hlen : ∀ call ∈ calls, call.2.length % RTW_FRAME_MULAW_BYTES = 0) :
    (framesOf calls).flatten = calls.flatMap Prod.snd := by
  induction calls with
  | nil => rfl
  | cons call calls ih =>
    rw [List.forall_mem_cons] at hlen
    rw [framesOf, List.flatMap_cons, List.flatMap_cons, ← framesOf, List.flatten_append, ih hlen.2, flatten_frames,
      Nat.mul_div_cancel' (Nat.dvd_of_mod_eq_zero hlen.1), List.take_length]

/-- What a peer gets from each message: its parse, and the samples it decodes to. -/
def received (printNumber : List UInt8 → List UInt8) (payloadCap : ℕ) (ms : List OutMsg) :
    List (Option (List Int16)) :=
  ms.map fun m => (rtwParseInbound (m.text printNumber) payloadCap).map fun ev =>
    rtwMulawToPcm16 ev.payload

theorem received_media (printNumber : List UInt8 → List UInt8) {payloadCap : ℕ}
    {ms : List OutMsg} {fs : List (List Int16)} (h : List.Forall₂ MediaOf ms fs)
    (hlen : ∀ f ∈ fs, f.length ≤ payloadCap) :
    received printNumber payloadCap ms = fs.map fun f => some (f.map transcode) := by
  induction h with
  | nil => rfl
  | @cons m f ms fs hm _ ih =>
    obtain ⟨streamSid, track, chunk, timestampMs, seq, rfl⟩ := hm
    rw [List.forall_mem_cons] at hlen
    have hfit : (rtwPcm16ToMulaw f).length ≤ payloadCap := by simpa using hlen.1
    have hev := rtwParseInbound_media printNumber streamSid seq track chunk timestampMs hfit
    have hdecoded : rtwMulawToPcm16 (rtwPcm16ToMulaw f) = f.map transcode := by
      rw [rtwMulawToPcm16, rtwPcm16ToMulaw, List.map_map]
      rfl
    rw [received, List.map_cons, List.map_cons, ← received, ih hlen.2, hev, Option.map_some,
      hdecoded]

/-- Each decoded sample is near its source, and the order of samples is kept. -/
def Faithful (xs ys : List Int16) : Prop :=
  List.Forall₂ Near xs ys ∧
    ∀ p ∈ xs.zip ys, ∀ q ∈ xs.zip ys, p.1.toInt ≤ q.1.toInt → p.2.toInt ≤ q.2.toInt

theorem faithful_transcode_iff (xs : List Int16) :
    Faithful xs (xs.map transcode) ↔ -32768 ∉ xs := by
  constructor
  · rintro ⟨hnear, -⟩ hmem
    rw [List.forall₂_map_right_iff, List.forall₂_same] at hnear
    exact (near_transcode_iff _).mp (hnear _ hmem) rfl
  · intro hmin
    have hne : ∀ x ∈ xs, x ≠ -32768 := fun x hx hx' => hmin (hx' ▸ hx)
    constructor
    · rw [List.forall₂_map_right_iff, List.forall₂_same]
      exact fun x hx => (near_transcode_iff x).mpr (hne x hx)
    · have hzip : ∀ p ∈ xs.zip (xs.map transcode), p.1 ∈ xs ∧ p.2 = transcode p.1 := by
        intro p hp
        obtain ⟨i, hi, hget⟩ := List.mem_iff_getElem.mp hp
        have hi' : i < xs.length := by
          rw [List.length_zip, List.length_map, min_self] at hi
          exact hi
        have hpair : (xs.zip (xs.map transcode))[i] = (xs[i], _) := List.getElem_zip
        rw [hget] at hpair
        rw [hpair, List.getElem_map]
        exact ⟨List.getElem_mem _, rfl⟩
      intro p hp q hq h
      obtain ⟨hpx, hpy⟩ := hzip p hp
      obtain ⟨hqx, hqy⟩ := hzip q hq
      rw [hpy, hqy]
      exact transcode_mono (hne _ hpx) (hne _ hqx) h

/-- Every message is received as a frame of 160 samples, and the stream is faithful. -/
def UplinkFaithful (xs : List Int16) (got : List (Option (List Int16))) : Prop :=
  ∃ fs : List (List Int16), got = fs.map some ∧
    (∀ f ∈ fs, f.length = RTW_FRAME_MULAW_BYTES) ∧ Faithful xs fs.flatten

theorem uplinkFaithful_transcode_iff {xs : List Int16} {fs : List (List Int16)}
    (hxs : fs.flatten = xs) (hlen : ∀ f ∈ fs, f.length = RTW_FRAME_MULAW_BYTES) :
    UplinkFaithful xs (fs.map fun f => some (f.map transcode)) ↔ -32768 ∉ xs := by
  have hsplit : (fs.map fun f => some (f.map transcode)) =
      (fs.map fun f => f.map transcode).map some := by
    rw [List.map_map]
    rfl
  have hflat : (fs.map fun f => f.map transcode).flatten = xs.map transcode := by
    rw [← hxs, List.map_flatten]
  rw [← faithful_transcode_iff]
  constructor
  · rintro ⟨gs, hgs, -, hfaithful⟩
    rw [hsplit] at hgs
    rw [← hflat, List.map_injective_iff.mpr (Option.some_injective _) hgs]
    exact hfaithful
  · intro hfaithful
    refine ⟨_, hsplit, ?_, hflat ▸ hfaithful⟩
    rw [List.forall_mem_map]
    intro f hf
    rw [List.length_map]
    exact hlen f hf

/-- The peer gets every frame, each sample sent through the codec. -/
theorem received_uplink (printNumber : List UInt8 → List UInt8) {payloadCap : ℕ}
    (hcap : RTW_FRAME_MULAW_BYTES ≤ payloadCap) {s : Session} (hrun : s.state = .running)
    (hpaused : s.paused = false) {calls : List (Env × List Int16)}
    (henv : ∀ call ∈ calls, call.1.Plentiful) :
    received printNumber payloadCap (uplink.outputs s calls) =
      (framesOf calls).map fun f => some (f.map transcode) :=
  received_media printNumber (uplink_outputs hrun hpaused henv) fun f hf =>
    (length_of_mem_framesOf f hf).trans_le hcap

/-- Whole frames pushed to a running session arrive faithfully if and only if no sample
is `INT16_MIN`. -/
theorem uplink_faithful_iff (printNumber : List UInt8 → List UInt8) {payloadCap : ℕ}
    (hcap : RTW_FRAME_MULAW_BYTES ≤ payloadCap) {s : Session} (hrun : s.state = .running)
    (hpaused : s.paused = false) {calls : List (Env × List Int16)}
    (hlen : ∀ call ∈ calls, call.2.length % RTW_FRAME_MULAW_BYTES = 0)
    (henv : ∀ call ∈ calls, call.1.Plentiful) :
    UplinkFaithful (calls.flatMap Prod.snd)
        (received printNumber payloadCap (uplink.outputs s calls)) ↔
      -32768 ∉ calls.flatMap Prod.snd := by
  rw [received_uplink printNumber hcap hrun hpaused henv]
  exact uplinkFaithful_transcode_iff (flatten_framesOf hlen) length_of_mem_framesOf

/-- One frame of a single value pushed to a session that has just started. -/
def constantFrame (x : Int16) : List (Env × List Int16) := [(.calm, .replicate 160 x)]

theorem constantFrame_whole (x : Int16) :
    ∀ call ∈ constantFrame x, call.2.length % RTW_FRAME_MULAW_BYTES = 0 := by
  rw [constantFrame, List.forall_mem_singleton, List.length_replicate]
  rfl

theorem constantFrame_plentiful (x : Int16) : ∀ call ∈ constantFrame x, call.1.Plentiful := by
  rw [constantFrame, List.forall_mem_singleton]
  exact Env.calm_plentiful

theorem uplink_faithful_silence :
    UplinkFaithful ((constantFrame 0).flatMap Prod.snd)
        (received id 160 (uplink.outputs (.boot 64 64 demoSid) (constantFrame 0))) ↔
      -32768 ∉ (constantFrame 0).flatMap Prod.snd :=
  uplink_faithful_iff id le_rfl (Session.boot_started 64 64 demoSid).spec.1
    (Session.boot_started 64 64 demoSid).spec.2.1 (constantFrame_whole 0) (constantFrame_plentiful 0)

/-- A frame of `INT16_MIN` decodes to silence. -/
theorem min_frame_lost :
    ¬ UplinkFaithful ((constantFrame (-32768)).flatMap Prod.snd)
      (received id 160 (uplink.outputs (.boot 64 64 demoSid) (constantFrame (-32768)))) := by
  obtain ⟨hrun, hpaused, -⟩ := (Session.boot_started 64 64 demoSid).spec
  rw [received_uplink id (show RTW_FRAME_MULAW_BYTES ≤ 160 from le_rfl) hrun hpaused
      (constantFrame_plentiful _),
    uplinkFaithful_transcode_iff (flatten_framesOf (constantFrame_whole _))
      length_of_mem_framesOf]
  decide +kernel

end RealtimeWs.Core
