import RealtimeWs.Core.QueuedAudio
import RealtimeWs.Mod.Packing
import RealtimeWs.Mod.PeerView
import RealtimeWs.Mod.SessionCalls

/-! Caller audio from the calls of the media bug to the ear of the peer, through every thread,
queue, connection and format in between. -/
namespace RealtimeWs.Mod

open RealtimeWs.Core

/-! ### What the bridge listens to -/

/-- The samples a call of the media bug hands on, unless it is turned away. -/
def listened (io : StepIo) (g : Shared) : List Int16 :=
  match io.call with
  | .onRead pcm =>
    if g.mutex = none ∧ io.ok = true ∧ ¬(stopping g.tech ∨ g.tech.audioPaused) then
      monoSamples g.tech.sampling (heard g.tech.channels pcm)
    else []
  | _ => []

/-- Audio comes in where a thread of the media bug stands. -/
def Pc.listened (io : StepIo) (g : Shared) : Pc → List Int16
  | .idle => RealtimeWs.Mod.listened io g
  | _ => []

/-- The bridge, with the samples it listens to. -/
def listener (printNumber : List UInt8 → List UInt8) :
    Machine BridgeState (Thread × StepIo) Int16 where
  step := (bridge printNumber).step
  out s e :=
    if s.shared.freed = true ∨ (s.shared.handedOut = false ∧ (s.pc e.1).starting = false) then []
    else (s.pc e.1).listened e.2 s.shared

/-- Between `t` and `u` the samples went into blocks of 160, what is left of them is held, and
the blocks went into the queue in order, some perhaps not. -/
def Hears (t : Tech) (samples : List Int16) (u : Tech) : Prop :=
  ∃ blocks : List (List Int16), (∀ b ∈ blocks, b.length = RTW_FRAME_MULAW_BYTES) ∧
    blocks.flatten ++ u.pcmHold = t.pcmHold ++ samples ∧
      ∃ sub, u.session.audio = t.session.audio ++ sub ∧
        sub.Sublist (blocks.map rtwPcm16ToMulaw)

theorem Hears.trans {t u v : Tech} {xs ys : List Int16} (h : Hears t xs u) (k : Hears u ys v) :
    Hears t (xs ++ ys) v := by
  obtain ⟨bs, hbs, hflat, sub, haudio, hsub⟩ := h
  obtain ⟨cs, hcs, hflat', sub', haudio', hsub'⟩ := k
  refine ⟨bs ++ cs, List.forall_mem_append.mpr ⟨hbs, hcs⟩, ?_, sub ++ sub', ?_, ?_⟩
  · rw [List.flatten_append, List.append_assoc, hflat', ← List.append_assoc, hflat,
      List.append_assoc]
  · rw [haudio', haudio, List.append_assoc]
  · rw [List.map_append]
    exact hsub.append hsub'

/-- Nothing was brought and nothing changed. -/
theorem Hears.quiet {t u : Tech} (hhold : u.pcmHold = t.pcmHold)
    (haudio : u.session.audio = t.session.audio) : Hears t [] u := by
  refine ⟨[], ?_, ?_, [], ?_, List.Sublist.refl _⟩
  · rintro b ⟨⟩
  · rw [hhold, List.append_nil, List.flatten_nil, List.nil_append]
  · rw [haudio, List.append_nil]

/-! ### A call with audio -/

theorem frames_block {block : List Int16} (h : block.length = RTW_FRAME_MULAW_BYTES) :
    frames (block.length / RTW_FRAME_MULAW_BYTES) block = [block] := by
  rw [h, Nat.div_self (by decide), frames, frames, List.take_of_length_le h.le]

theorem holdSample_hears (env : Env) {t : Tech} (sample : Int16) (h : t.pcmHold.length < 160) :
    Hears t [sample] (holdSample env t sample) ∧ (holdSample env t sample).pcmHold.length < 160 := by
  have hwith : heldWith t sample = t.pcmHold ++ [sample] :=
    if_pos (h.trans (by decide))
  have hlen : (t.pcmHold ++ [sample]).length = t.pcmHold.length + 1 := List.length_append
  unfold holdSample
  rw [hwith]
  by_cases hfull : 160 ≤ (t.pcmHold ++ [sample]).length
  · have hblock : (t.pcmHold ++ [sample]).length = RTW_FRAME_MULAW_BYTES :=
      le_antisymm (by rw [hlen]; exact h) hfull
    have htake : (t.pcmHold ++ [sample]).take 160 = t.pcmHold ++ [sample] :=
      List.take_of_length_le hblock.le
    rw [if_pos hfull, htake]
    obtain ⟨sub, haudio, hsub⟩ := push_audio env t.session (t.pcmHold ++ [sample])
    rw [frames_block hblock] at hsub
    have hempty : ([] : List Int16).length < 160 := by decide
    refine ⟨⟨[t.pcmHold ++ [sample]], List.forall_mem_singleton.mpr hblock, ?_, sub, haudio, hsub⟩,
      hempty⟩
    rw [List.flatten_singleton, List.append_nil]
  · rw [if_neg hfull]
    refine ⟨⟨[], ?_, rfl, [], (List.append_nil _).symm, List.Sublist.refl _⟩,
      Nat.lt_of_not_le hfull⟩
    rintro b ⟨⟩

theorem holdSamples_hears (io : Io) (i : ℕ) (samples : List Int16) {t : Tech}
    (h : t.pcmHold.length < 160) : Hears t samples (holdSamples io i samples t) ∧
      (holdSamples io i samples t).pcmHold.length < 160 := by
  induction samples generalizing i t with
  | nil => exact ⟨.quiet rfl rfl, h⟩
  | cons sample samples ih =>
    obtain ⟨hone, hsmall⟩ := holdSample_hears (io.env i) sample h
    obtain ⟨hrest, hsmall'⟩ := ih (i + 1) hsmall
    exact ⟨hone.trans hrest, hsmall'⟩

/-- A call listens to its samples, or is turned away. -/
theorem onRead_hears (io : Io) (pcm : List Int16) {t : Tech} (h : t.pcmHold.length < 160) :
    Hears t (if io.locked = true ∧ ¬(stopping t ∨ t.audioPaused) then
        monoSamples t.sampling (heard t.channels pcm) else [])
      (rtwBridgeOnReadPcm16 io t pcm) ∧
        (rtwBridgeOnReadPcm16 io t pcm).pcmHold.length < 160 := by
  unfold rtwBridgeOnReadPcm16
  by_cases haway : stopping t ∨ t.audioPaused
  · rw [if_pos haway, if_neg (fun hboth => hboth.2 haway)]
    exact ⟨.quiet rfl rfl, h⟩
  rw [if_neg haway]
  by_cases hlocked : io.locked = true
  · rw [if_neg (show ¬ io.locked = false by simp [hlocked]), if_pos ⟨hlocked, haway⟩,
      stereoSamples_eq, heard]
    split
    · exact holdSamples_hears io 0 _ h
    · exact holdSamples_hears io 0 _ h
  · rw [if_pos (Bool.eq_false_iff.mpr hlocked), if_neg (fun hboth => hlocked hboth.1)]
    exact ⟨.quiet rfl rfl, h⟩

/-! ### One step -/

variable (printNumber : List UInt8 → List UInt8)

theorem makes_quiet {io : StepIo} {pc : Pc} (h : pc = .idle → ∀ pcm, io.call ≠ .onRead pcm)
    {c : SessionCall} (hc : pc.makes io c) : ∀ pcm, c ≠ .op (.pushPcm16 pcm) := by
  rintro pcm rfl
  cases pc with
  | idle =>
    have hcall := h rfl
    simp only [Pc.makes] at hc
    cases hio : io.call with
    | onRead pcm => exact hcall pcm hio
    | _ => simp [hio, Call.makes] at hc
  | _ => simp [Pc.makes] at hc

theorem call_audio {x : Env × SessionCall} (h : ∀ pcm, x.2 ≠ .op (.pushPcm16 pcm))
    (s : Session) : (s.call x).audio = s.audio := by
  obtain ⟨env, c⟩ := x
  cases c with
  | op o =>
    have hop : ∀ pcm, o ≠ .pushPcm16 pcm := by
      rintro pcm rfl
      exact h pcm rfl
    exact (step_media hop env s).audio
  | pause on => rfl

/-- Nothing but a call with audio queues media. -/
theorem step_audio (t : Thread) (io : StepIo) (g : Shared) {pc : Pc}
    (h : pc = .idle → ∀ pcm, io.call ≠ .onRead pcm) :
    (pc.step printNumber t io g).2.tech.session.audio = g.tech.session.audio := by
  have hreach := step_reaches printNumber t io g pc
  exact hreach.keeps (P := fun s => s.audio = g.tech.session.audio)
    (fun s x hx hs => (call_audio (makes_quiet h hx) s).trans hs) rfl

/-- A step listens to the samples of its call, if it makes one. -/
theorem step_hears (t : Thread) (io : StepIo) (g : Shared) (pc : Pc)
    (h : g.tech.pcmHold.length < 160) :
    Hears g.tech (pc.listened io g) (pc.step printNumber t io g).2.tech ∧
      (pc.step printNumber t io g).2.tech.pcmHold.length < 160 := by
  by_cases hread : pc = .idle ∧ ∃ pcm, io.call = .onRead pcm
  · obtain ⟨rfl, pcm, hcall⟩ := hread
    simp only [Pc.step, Pc.listened, idleStep, listened, hcall]
    by_cases hmutex : g.mutex = none
    · have hone := onRead_hears ⟨io.ok, io.env, fun _ => true⟩ pcm h
      simp only [hmutex, true_and, if_true]
      exact hone
    · rw [if_neg hmutex, if_neg (fun hboth => hmutex hboth.1)]
      exact ⟨.quiet rfl rfl, h⟩
  · have hquiet : pc = .idle → ∀ pcm, io.call ≠ .onRead pcm := by
      intro hpc pcm hcall
      exact hread ⟨hpc, pcm, hcall⟩
    have hsilent : pc.listened io g = [] := by
      cases pc with
      | idle =>
        unfold Pc.listened RealtimeWs.Mod.listened
        cases hcall : io.call with
        | onRead pcm => exact absurd hcall (hquiet rfl pcm)
        | _ => rfl
      | _ => rfl
    have hhold : (pc.step printNumber t io g).2.tech.pcmHold = g.tech.pcmHold :=
      congrArg Prod.fst (step_held printNumber t io g hquiet)
    rw [hsilent, hhold]
    exact ⟨.quiet hhold (step_audio printNumber t io g hquiet), h⟩

/-! ### Runs -/

/-- In every interleaving the queue has the samples the bridge listened to, in blocks. -/
theorem run_hears {s : BridgeState} (h : s.shared.tech.pcmHold.length < 160)
    (es : List (Thread × StepIo)) :
    Hears s.shared.tech ((listener printNumber).outputs s es)
        ((bridge printNumber).run s es).shared.tech ∧
      ((bridge printNumber).run s es).shared.tech.pcmHold.length < 160 := by
  refine emitted_invariant printNumber (m := listener printNumber) rfl (fun _ _ => rfl)
    (J := fun u samples => Hears s.shared.tech samples u ∧ u.pcmHold.length < 160) ?_
    ⟨.quiet rfl rfl, h⟩ es
  rintro t io g pc samples ⟨hheard, hsmall⟩
  obtain ⟨hone, hsmall'⟩ := step_hears printNumber t io g pc hsmall
  exact ⟨hheard.trans hone, hsmall'⟩

/-! ### The ear of the peer -/

theorem frames_of_flatten {blocks : List (List Int16)} {rest : List Int16}
    (h : ∀ b ∈ blocks, b.length = RTW_FRAME_MULAW_BYTES) :
    frames blocks.length (blocks.flatten ++ rest) = blocks := by
  induction blocks with
  | nil => rfl
  | cons b blocks ih =>
    rw [List.forall_mem_cons] at h
    rw [List.length_cons, frames, List.flatten_cons, List.append_assoc, ← h.1, List.take_left,
      List.drop_left, ih h.2]

/-- Blocks of a listening are the frames of its samples. -/
theorem Hears.frames {t u : Tech} {samples : List Int16} (h : Hears t samples u)
    (hold : t.pcmHold = []) (hsmall : u.pcmHold.length < 160) :
    ∃ sub, u.session.audio = t.session.audio ++ sub ∧
      sub.Sublist ((Core.frames (samples.length / 160) samples).map rtwPcm16ToMulaw) := by
  obtain ⟨blocks, hblocks, hflat, sub, haudio, hsub⟩ := h
  rw [hold, List.nil_append] at hflat
  have hlen : samples.length / 160 = blocks.length := by
    have hall : blocks.flatten.length = blocks.length * 160 := by
      rw [List.length_flatten, List.map_congr_left hblocks, List.map_const', List.sum_replicate_nat]
      rfl
    rw [← hflat, List.length_append, hall]
    omega
  refine ⟨sub, haudio, ?_⟩
  rw [hlen, ← hflat, frames_of_flatten hblocks]
  exact hsub

/-- The samples a peer plays for what it read: those of a text that is a media message. -/
def hearing (payloadCap : ℕ) : WsEvent → Option (List Int16)
  | .text bs => (heardPayload payloadCap (.ofBytes bs)).map rtwMulawToPcm16
  | _ => none

theorem hearing_sent {payloadCap : ℕ} {ms : List OutMsg}
    (h : ∀ m ∈ ms, ∀ p ∈ m.media?, p.2.2.length ≤ payloadCap) :
    (ms.map fun m => WsEvent.text (sentText printNumber m)).filterMap (hearing payloadCap) =
      ((ms.filterMap OutMsg.media?).map fun p => p.2.2).map rtwMulawToPcm16 := by
  induction ms with
  | nil => rfl
  | cons m ms ih =>
    rw [List.forall_mem_cons] at h
    have hone : hearing payloadCap (.text (sentText printNumber m)) =
        (m.media?.map fun p => p.2.2).map rtwMulawToPcm16 := by
      rw [hearing, sentText, CStr.ofBytes_bytes, heardPayload_text printNumber h.1]
    rw [List.map_cons]
    cases hmedia : m.media? with
    | none =>
      rw [hmedia] at hone
      rw [List.filterMap_cons_none hone, List.filterMap_cons_none hmedia]
      exact ih h.2
    | some p =>
      rw [hmedia] at hone
      rw [List.filterMap_cons_some hone, List.filterMap_cons_some hmedia, ih h.2]
      rfl

theorem Opened.pcmHold {tech : Tech} (h : Opened tech) : tech.pcmHold = [] := by
  obtain ⟨io, streamSid, callSid, sampling, channels, session, rfl⟩ := h
  rfl

/-- What a peer hears on a connection, in whatever pieces the bytes arrive: frames of the
samples the bridge listened to, each as the µ-law codec renders it, in order and none twice;
unless a connection was declared ready behind a send that was cut. -/
theorem peer_hears {tech : Tech} (h : Opened tech) (hs : tech.session.Started)
    {es : List (Thread × StepIo)}
    (hguard : (bridge printNumber).Along RaisesWhole (startState tech) es) (c : ℕ)
    (onClose : Bool) {payloadCap : ℕ} (hcap : RTW_FRAME_MULAW_BYTES ≤ payloadCap)
    (segments : List (List UInt8))
    (hsegments : segments.flatten =
      ((bridge printNumber).run (startState tech) es).shared.socket.bytesOn c) :
    let samples := (listener printNumber).outputs (startState tech) es
    (((frameDecoder true onClose).feed [] segments).1.filterMap (hearing payloadCap)).Sublist
      ((frames (samples.length / RTW_FRAME_MULAW_BYTES) samples).map (List.map transcode)) := by
  intro samples
  have hempty : (startState tech).shared.tech.pcmHold = [] := h.pcmHold
  have hnone : (startState tech).shared.tech.session.audio = [] := hs.audio
  obtain ⟨hheard, hsmall⟩ := run_hears printNumber (by rw [hempty]; decide) es
  obtain ⟨sub, haudio, hsub⟩ := hheard.frames hempty hsmall
  rw [hnone, List.nil_append] at haudio
  obtain ⟨rest, hfeed⟩ := h.feed_sent printNumber hguard c onClose hsegments
  -- from the sends on the connection back to the frames
  have hpayloads := (((h.sentOn_sublist printNumber hs es c).filterMap OutMsg.media?).map
    fun p => p.2.2).trans (haudio ▸ hsub)
  have hfit : ∀ m ∈ ((bridge printNumber).run (startState tech) es).shared.tech.sentOn c,
      ∀ p ∈ m.media?, p.2.2.length ≤ payloadCap := by
    intro m hm p hp
    have hmem := hpayloads.subset (List.mem_map_of_mem (List.mem_filterMap.mpr ⟨m, hm, hp⟩))
    obtain ⟨f, hf, hpayload⟩ := List.mem_map.mp hmem
    have hlen := length_of_mem_frames (Nat.mul_div_le samples.length 160) f hf
    rw [← hpayload, length_rtwPcm16ToMulaw, hlen]
    exact hcap
  have hdecode : (frames (samples.length / 160) samples).map (List.map transcode) =
      ((frames (samples.length / 160) samples).map rtwPcm16ToMulaw).map rtwMulawToPcm16 := by
    rw [List.map_map]
    apply List.map_congr_left
    intro f _
    rw [Function.comp_apply, rtwMulawToPcm16, rtwPcm16ToMulaw, List.map_map]
    rfl
  rw [hfeed, hearing_sent printNumber hfit]
  exact hdecode ▸ hpayloads.map rtwMulawToPcm16

/-- A call brings 170 samples while the worker polls; then the worker flushes. -/
def audioRun : List (Thread × StepIo) :=
  steps 16 .worker ++ [(.caller 0, { StepIo.calm with call := .onRead (List.replicate 170 1000) })] ++
    steps 20 .worker

/-- The peer hears the first 160 of them. -/
theorem peer_hears_audio :
    let samples := (listener id).outputs (startState demoOpen) audioRun
    (((frameDecoder true true).feed [] ((((bridge id).run (startState demoOpen)
      audioRun).shared.socket.bytesOn 0).map fun b => [b])).1.filterMap (hearing 160)).Sublist
      ((frames (samples.length / RTW_FRAME_MULAW_BYTES) samples).map (List.map transcode)) :=
  peer_hears id demoOpen_opened (Session.boot_started 256 (64 * 1024) demoSid) (by decide +kernel) 0
    true (Nat.le_refl 160) _ (flatten_bytewise _)

end RealtimeWs.Mod
