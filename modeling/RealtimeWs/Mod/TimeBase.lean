import RealtimeWs.Core.Uplink
import RealtimeWs.Mod.Downlink
import RealtimeWs.Mod.Delivery

/-! The time base of both directions: how much 8 kHz audio a run of source audio at an
accepted rate becomes, and how much a run of written frames takes. -/
namespace RealtimeWs.Mod

open RealtimeWs.Core

/-! ### Caller audio -/

/-- The media bug hands over audio call by call. -/
def readRun (tech : Tech) (calls : List (Io × List Int16)) : Tech :=
  calls.foldl (fun tech call => rtwBridgeOnReadPcm16 call.1 tech call.2) tech

def isMedia : OutMsg → Bool
  | .media .. => true
  | _ => false

/-- Media messages queued so far, evicted ones included. -/
def Tech.mediaQueued (tech : Tech) : ℕ :=
  (Fifo.pushes tech.session.outbound.history).countP isMedia

/-- A running bridge that was given `n` samples at 8 kHz. -/
structure Captured (n : ℕ) (tech : Tech) : Prop where
  hold : tech.pcmHold.length = n % 160
  media : tech.mediaQueued = n / 160
  timestamp : tech.session.timestampMs = 20 * .ofNat (n / 160)
  running : tech.session.state = .running
  unpaused : tech.session.paused = false

theorem countP_isMedia {ms : List OutMsg} {fs : List (List Int16)}
    (h : List.Forall₂ MediaOf ms fs) : ms.countP isMedia = fs.length := by
  have hall : ∀ m ∈ ms, isMedia m = true := by
    induction h with
    | nil => simp
    | cons hm _ ih =>
      obtain ⟨streamSid, track, chunk, timestampMs, seq, rfl⟩ := hm
      exact List.forall_mem_cons.mpr ⟨rfl, ih⟩
  rw [List.countP_eq_length.mpr hall, h.length_eq]

theorem Captured.held {n : ℕ} {tech : Tech} (h : Captured n tech) {env : Env}
    (henv : env.Plentiful) (sample : Int16) : Captured (n + 1) (holdSample env tech sample) := by
  have hmod : n % 160 < 160 := Nat.mod_lt n (by decide)
  have hheld : heldWith tech sample = tech.pcmHold ++ [sample] := by
    rw [heldWith, if_pos]
    rw [h.hold, PCM_HOLD_LEN]
    omega
  have hlen : (heldWith tech sample).length = n % 160 + 1 := by
    rw [hheld, List.length_append, h.hold]
    rfl
  by_cases hfull : 160 ≤ (heldWith tech sample).length
  · have hframe : ((heldWith tech sample).take 160).length / RTW_FRAME_MULAW_BYTES = 1 := by
      rw [List.length_take, RTW_FRAME_MULAW_BYTES]
      omega
    obtain ⟨ms, hms, hmedia, htime⟩ := rtwSessionPushPcm16_plentiful henv h.running h.unpaused
      ((heldWith tech sample).take 160)
    obtain ⟨-, -, -, -, hsame⟩ := rtwSessionPushPcm16_spec env tech.session
      ((heldWith tech sample).take 160)
    have hone := countP_isMedia hmedia
    rw [hframe] at htime hone
    rw [length_frames] at hone
    have hdiv : (n + 1) / 160 = n / 160 + 1 := by omega
    rw [holdSample, if_pos hfull]
    constructor
    · change 0 = (n + 1) % 160
      omega
    · change (Fifo.pushes _).countP isMedia = _
      rw [hms, List.countP_append, hone, hdiv]
      exact congrArg (· + 1) h.media
    · change (rtwSessionPushPcm16 env tech.session _).2.timestampMs = _
      rw [htime, h.timestamp, hdiv, UInt32.ofNat_add, UInt32.mul_add]
    · exact hsame.state.trans h.running
    · exact hsame.paused.trans h.unpaused
  · have hdiv : (n + 1) / 160 = n / 160 := by omega
    rw [holdSample, if_neg hfull]
    constructor
    · change (heldWith tech sample).length = _
      omega
    · rw [hdiv]
      exact h.media
    · rw [hdiv]
      exact h.timestamp
    · exact h.running
    · exact h.unpaused

theorem Captured.heldAll {n : ℕ} {tech : Tech} (h : Captured n tech) {io : Io}
    (henv : ∀ i, (io.env i).Plentiful) (i : ℕ) (samples : List Int16) :
    Captured (n + samples.length) (holdSamples io i samples tech) := by
  induction samples generalizing i n tech with
  | nil => exact h
  | cons sample samples ih =>
    have hnext := ih (h.held (henv i) sample) (i + 1)
    rw [List.length_cons, Nat.add_comm samples.length, ← Nat.add_assoc]
    exact hnext

theorem length_monoSamples (sampling : ℤ) (pcm : List Int16) :
    (monoSamples sampling pcm).length =
      if sampling = 16000 then (pcm.length + 1) / 2 else pcm.length := by
  fun_induction monoSamples sampling pcm with
  | case1 => simp
  | case2 a => simp
  | case3 a b pcm h ih =>
    rw [if_pos h] at ih ⊢
    simp only [List.length_cons, ih]
    omega
  | case4 a b pcm h ih =>
    rw [if_neg h] at ih ⊢
    simp only [List.length_cons, ih]

theorem length_stereoSamples (sampling : ℤ) (pcm : List Int16) :
    (stereoSamples sampling pcm).length =
      if sampling = 16000 then (pcm.length / 2 + 1) / 2 else pcm.length / 2 := by
  fun_induction stereoSamples sampling pcm with
  | case1 a _ b r pcm h ih =>
    rw [if_pos h] at ih ⊢
    simp only [List.length_cons, ih]
    omega
  | case2 a _ b r pcm h ih =>
    rw [if_neg h] at ih ⊢
    simp only [List.length_cons] at ih ⊢
    omega
  | case3 a => simp
  | case4 a => simp
  | case5 pcm h1 h2 h3 =>
    have hshort : pcm.length ≤ 1 := by
      match pcm, h2, h3 with
      | [], _, _ => simp
      | [_], _, _ => simp
      | [a, b], _, h => exact absurd rfl (h a b)
      | [a, b, c], h, _ => exact absurd rfl (h a b c)
      | a :: b :: c :: d :: pcm, _, _ => exact absurd rfl (h1 a b c d pcm)
    simp only [List.length_nil]
    split <;> omega

/-- An accepted rate is a multiple of 8 kHz. -/
theorem rate_multiple {sampling : ℤ} (hpos : 0 < sampling)
    (h : sampling = 8000 ∨ sampling = 16000 ∨ sampling.tmod 8000 = 0) :
    ∃ k : ℕ, 0 < k ∧ sampling = 8000 * k := by
  have hdvd : (8000 : ℤ) ∣ sampling := by
    rcases h with rfl | rfl | h
    · exact ⟨1, rfl⟩
    · exact ⟨2, rfl⟩
    · exact Int.dvd_of_tmod_eq_zero h
  obtain ⟨q, rfl⟩ := hdvd
  refine ⟨q.toNat, ?_, ?_⟩ <;> omega

/-- The samples one 20 ms frame at `k` times 8 kHz is folded to, in frames of 160. -/
def folded (k : ℕ) : ℕ := if k = 2 then 1 else k

/-- A bridge that takes caller audio at the given rate. -/
structure Listening (sampling channels : ℤ) (tech : Tech) : Prop where
  sampling : tech.sampling = sampling
  channels : tech.channels = channels
  audioPaused : tech.audioPaused = false
  stopping : stopping tech = false

theorem holdSamples_rest (io : Io) (i : ℕ) (samples : List Int16) (tech : Tech) :
    ∃ session hold, holdSamples io i samples tech =
      { tech with session := session, pcmHold := hold } := by
  induction samples generalizing i tech with
  | nil => exact ⟨_, _, rfl⟩
  | cons sample samples ih =>
    obtain ⟨session, hold, hrest⟩ := ih (i + 1) (holdSample (io.env i) tech sample)
    refine ⟨session, hold, ?_⟩
    rw [holdSamples, hrest, holdSample]
    split <;> rfl

/-- One call with whole 20 ms frames, mono or stereo. -/
theorem Captured.read {n k : ℕ} {channels : ℤ} (hch : channels = 1 ∨ channels = 2)
    {tech : Tech} (h : Captured n tech) (hl : Listening (8000 * k) channels tech) {io : Io}
    (hlock : io.locked = true) (henv : ∀ i, (io.env i).Plentiful) {pcm : List Int16} {j : ℕ}
    (hlen : pcm.length = channels.toNat * (160 * k * j)) :
    Captured (n + 160 * (folded k * j)) (rtwBridgeOnReadPcm16 io tech pcm) ∧
      Listening (8000 * k) channels (rtwBridgeOnReadPcm16 io tech pcm) := by
  have hsamples : ∃ samples, rtwBridgeOnReadPcm16 io tech pcm = holdSamples io 0 samples tech ∧
      samples.length = 160 * (folded k * j) := by
    have hrate : ((8000 : ℤ) * k = 16000) = (k = 2) := by
      rw [eq_iff_iff]
      omega
    have hframes : (if k = 2 then (160 * k * j + 1) / 2 else 160 * k * j) =
        160 * (folded k * j) := by
      unfold folded
      split
      · rename_i hk
        subst hk
        omega
      · exact Nat.mul_assoc _ _ _
    rw [rtwBridgeOnReadPcm16, if_neg (by simp [hl.stopping, hl.audioPaused]),
      if_neg (by simp [hlock]), hl.channels, hl.sampling]
    rcases hch with rfl | rfl
    · refine ⟨_, if_neg (by decide), ?_⟩
      have hone : pcm.length = 160 * k * j := by
        rw [hlen]
        exact Nat.one_mul _
      rw [length_monoSamples, hone, ← hframes]
      simp only [hrate]
    · refine ⟨_, if_pos (by decide), ?_⟩
      have htwo : pcm.length / 2 = 160 * k * j := by
        rw [hlen]
        exact Nat.mul_div_cancel_left _ (by decide)
      rw [length_stereoSamples, htwo, ← hframes]
      simp only [hrate]
  obtain ⟨samples, hread, hcount⟩ := hsamples
  obtain ⟨session, hold, hrest⟩ := holdSamples_rest io 0 samples tech
  constructor
  · rw [hread, ← hcount]
    exact h.heldAll henv 0 samples
  · rw [hread, hrest]
    exact ⟨hl.sampling, hl.channels, hl.audioPaused, hl.stopping⟩

/-- A call that gets the mutex, meets no failing allocation and brings whole 20 ms frames. -/
structure WholeFrames (sampling channels : ℤ) (call : Io × List Int16) : Prop where
  locked : call.1.locked = true
  plentiful : ∀ i, (call.1.env i).Plentiful
  whole : (channels * (sampling / 50)).toNat ∣ call.2.length

/-- Sample-frames of source audio in the calls. -/
def sourceFrames (channels : ℤ) (calls : List (Io × List Int16)) : ℕ :=
  (calls.flatMap Prod.snd).length / channels.toNat

theorem Captured.run {n k : ℕ} {channels : ℤ} (hch : channels = 1 ∨ channels = 2)
    {tech : Tech} (h : Captured n tech) (hl : Listening (8000 * k) channels tech)
    {calls : List (Io × List Int16)} (hcalls : ∀ call ∈ calls, WholeFrames (8000 * k) channels call) :
    ∃ j, (calls.flatMap Prod.snd).length = channels.toNat * (160 * k * j) ∧
      Captured (n + 160 * (folded k * j)) (readRun tech calls) := by
  induction calls generalizing n tech with
  | nil => exact ⟨0, rfl, h⟩
  | cons call calls ih =>
    rw [List.forall_mem_cons] at hcalls
    obtain ⟨hcall, hcalls⟩ := hcalls
    obtain ⟨j, hj⟩ := hcall.whole
    have hlen : call.2.length = channels.toNat * (160 * k * j) := by
      rw [hj]
      rcases hch with rfl | rfl
      · rw [show (1 * (8000 * (k : ℤ) / 50)).toNat = 160 * k by omega]
        exact (Nat.one_mul _).symm
      · rw [show (2 * (8000 * (k : ℤ) / 50)).toNat = 2 * (160 * k) by omega]
        exact Nat.mul_assoc _ _ _
    obtain ⟨hnext, hlnext⟩ := h.read hch hl hcall.locked hcall.plentiful hlen
    obtain ⟨j', hlen', hrun⟩ := ih hnext hlnext hcalls
    refine ⟨j + j', ?_, ?_⟩
    · rw [List.flatMap_cons, List.length_append, hlen, hlen', ← Nat.mul_add, ← Nat.mul_add]
    · rw [Nat.mul_add, Nat.mul_add, ← Nat.add_assoc]
      exact hrun

/-- A bridge that starts has taken no caller audio and has none to play. -/
theorem rtwBridgeStart_captured {printNumber : List UInt8 → List UInt8} {io : StartIo}
    {uuid metadata : Option CStr} {sampling channels : ℤ} {tech : Tech}
    (h : rtwBridgeStart printNumber io uuid sampling channels metadata = some tech)
    (hpos : 0 < sampling) (hch : 0 < channels) :
    Captured 0 tech ∧ Listening sampling channels tech ∧
      (sampling = 8000 ∨ sampling = 16000 ∨ sampling.tmod 8000 = 0) ∧
      tech.buffered = [] ∧ tech.session.playout.capacity = 64 * 1024 := by
  obtain ⟨streamSid, callSid, session, hs, -, hcap, htime, hrate, rfl⟩ := rtwBridgeStart_spec h
  obtain ⟨hrun, hpaused, hbytes, -, -, -, hpushes, -⟩ := hs.spec
  obtain ⟨k, hk⟩ : ∃ k, Sent io.flush 0 0 k
      (openTech io streamSid callSid sampling channels session) _ := flushOutbound_openTech hs
  refine ⟨?_, ?_, hrate, ?_⟩
  · constructor
    · rw [hk.rest]
      rfl
    · rw [Tech.mediaQueued, hk.history, Fifo.pushes_append, Fifo.pushes_drops, List.append_nil]
      change (Fifo.pushes session.outbound.history).countP isMedia = 0
      rw [hpushes]
      rfl
    · rw [hk.session]
      exact htime
    · rw [hk.session]
      exact hrun
    · rw [hk.session]
      exact hpaused
  · rw [hk.rest]
    exact ⟨if_pos hpos, if_pos hch, rfl, rfl⟩
  · rw [Tech.buffered, hk.session]
    exact ⟨hbytes, hcap⟩

/-- The wire has advanced by the duration of `n` sample-frames of source audio. -/
def TimeBase (sampling : ℤ) (n : ℕ) (tech : Tech) : Prop :=
  tech.mediaQueued = n * 8000 / (sampling.toNat * 160) ∧
    tech.session.timestampMs.toNat = 20 * (n * 8000 / (sampling.toNat * 160))

instance (sampling : ℤ) (n : ℕ) (tech : Tech) : Decidable (TimeBase sampling n tech) :=
  inferInstanceAs (Decidable (_ ∧ _))

/-- Frames due for `j` source frames of 20 ms at `k` times 8 kHz. -/
theorem frames_due {k : ℕ} (hk : 0 < k) (j : ℕ) :
    160 * k * j * 8000 / ((8000 * (k : ℤ)).toNat * 160) = j := by
  rw [show (8000 * (k : ℤ)).toNat = 8000 * k by omega,
    show 160 * k * j * 8000 = j * (8000 * k * 160) by ring]
  exact Nat.mul_div_cancel _ (by omega)

theorem folded_mul_eq_iff (k j : ℕ) : folded k * j = j ↔ k = 1 ∨ k = 2 ∨ j = 0 := by
  unfold folded
  split
  · rename_i hk
    simp [hk]
  · rename_i hk
    constructor
    · intro h
      rcases Nat.eq_zero_or_pos j with hj | hj
      · exact Or.inr (Or.inr hj)
      · exact Or.inl (Nat.eq_of_mul_eq_mul_right hj (h.trans (Nat.one_mul j).symm))
    · rintro (rfl | rfl | rfl)
      · exact Nat.one_mul j
      · exact absurd rfl hk
      · rfl

/-- The time is right for the rates that are folded to 8 kHz, up to a wrap. -/
theorem Captured.keepsTime_iff {k j : ℕ} (hk : 0 < k) {tech : Tech}
    (h : Captured (160 * (folded k * j)) tech) :
    TimeBase (8000 * k) (160 * k * j) tech ↔ (k = 1 ∨ k = 2 ∨ j = 0) ∧ 20 * j < 2 ^ 32 := by
  have hdiv : 160 * (folded k * j) / 160 = folded k * j := Nat.mul_div_cancel_left _ (by decide)
  have htime : tech.session.timestampMs.toNat = 20 * (folded k * j) % 2 ^ 32 := by
    rw [h.timestamp, hdiv, UInt32.toNat_mul, UInt32.toNat_ofNat']
    exact Nat.mul_mod_mod _ _ _
  rw [TimeBase, frames_due hk, h.media, htime, hdiv, ← folded_mul_eq_iff]
  constructor
  · rintro ⟨hmedia, htime⟩
    rw [hmedia] at htime
    refine ⟨hmedia, ?_⟩
    rw [← htime]
    exact Nat.mod_lt _ (by decide)
  · rintro ⟨hmedia, hlt⟩
    rw [hmedia]
    exact ⟨rfl, Nat.mod_eq_of_lt hlt⟩

/-- From a start on, the wire keeps the time of whole frames of source audio if and only if
the rate is 8 or 16 kHz, or there is no audio, and the timestamp does not wrap. -/
theorem timeBase_iff {printNumber : List UInt8 → List UInt8} {io : StartIo}
    {uuid metadata : Option CStr} {sampling channels : ℤ} {tech : Tech}
    (h : rtwBridgeStart printNumber io uuid sampling channels metadata = some tech)
    (hpos : 0 < sampling) (hch : channels = 1 ∨ channels = 2) {calls : List (Io × List Int16)}
    (hcalls : ∀ call ∈ calls, WholeFrames sampling channels call) :
    TimeBase sampling (sourceFrames channels calls) (readRun tech calls) ↔
      (sampling = 8000 ∨ sampling = 16000 ∨ sourceFrames channels calls = 0) ∧
        20 * (sourceFrames channels calls * 8000 / (sampling.toNat * 160)) < 2 ^ 32 := by
  obtain ⟨hcap, hl, hrate, -⟩ := rtwBridgeStart_captured h hpos (by omega)
  obtain ⟨k, hk, rfl⟩ := rate_multiple hpos hrate
  obtain ⟨j, hlen, hrun⟩ := hcap.run hch hl hcalls
  have hsource : sourceFrames channels calls = 160 * k * j := by
    rw [sourceFrames, hlen]
    exact Nat.mul_div_cancel_left _ (by omega)
  have hone : (8000 : ℤ) * k = 8000 ↔ k = 1 := by omega
  have htwo : (8000 : ℤ) * k = 16000 ↔ k = 2 := by omega
  have hnone : 160 * k * j = 0 ↔ j = 0 := by
    rw [Nat.mul_eq_zero]
    omega
  rw [Nat.zero_add] at hrun
  rw [hsource, hrun.keepsTime_iff hk, frames_due hk, hone, htwo, hnone]

/-- Whether a start at this rate succeeds when nothing fails, and the bridge it gives. -/
def calmStart (sampling channels : ℤ) : Option Tech :=
  rtwBridgeStart id .calm (some (.lit "0")) sampling channels none

theorem stereo16k_starts : (calmStart 16000 2).isSome := by decide +kernel

theorem mono24k_starts : (calmStart 24000 1).isSome := by decide +kernel

/-- One call of silence. -/
def silence (n : ℕ) : List (Io × List Int16) := [(.calm, .replicate n 0)]

theorem silence_whole {sampling channels : ℤ} {n : ℕ}
    (h : (channels * (sampling / 50)).toNat ∣ n) :
    ∀ call ∈ silence n, WholeFrames sampling channels call := by
  rw [silence, List.forall_mem_singleton]
  refine ⟨rfl, fun _ => Env.calm_plentiful, ?_⟩
  rw [List.length_replicate]
  exact h

theorem sourceFrames_silence (channels : ℤ) (n : ℕ) :
    sourceFrames channels (silence n) = n / channels.toNat := by
  simp [sourceFrames, silence]

theorem timeBase_stereo16k :
    TimeBase 16000 (sourceFrames 2 (silence 1280))
        (readRun ((calmStart 16000 2).get stereo16k_starts) (silence 1280)) ↔
      ((16000 : ℤ) = 8000 ∨ (16000 : ℤ) = 16000 ∨ sourceFrames 2 (silence 1280) = 0) ∧
        20 * (sourceFrames 2 (silence 1280) * 8000 / ((16000 : ℤ).toNat * 160)) < 2 ^ 32 :=
  timeBase_iff (Option.some_get stereo16k_starts).symm (by decide) (Or.inr rfl)
    (silence_whole (by decide))

/-- At 24 kHz one source frame of 20 ms becomes three on the wire. -/
theorem mono24k_too_long :
    (∀ call ∈ silence 480, WholeFrames 24000 1 call) ∧
      ¬ TimeBase 24000 (sourceFrames 1 (silence 480))
        (readRun ((calmStart 24000 1).get mono24k_starts) (silence 480)) := by
  have hwhole : ∀ call ∈ silence 480, WholeFrames (8000 * (3 : ℕ)) 1 call :=
    silence_whole (by decide)
  refine ⟨hwhole, ?_⟩
  obtain ⟨hcap, hl, -⟩ := rtwBridgeStart_captured (Option.some_get mono24k_starts).symm
    (by decide) (by decide)
  obtain ⟨j, hlen, hrun⟩ := hcap.run (k := 3) (Or.inl rfl) hl hwhole
  have hsource : sourceFrames 1 (silence 480) = 160 * 3 * j := by
    rw [sourceFrames, hlen]
    exact Nat.mul_div_cancel_left _ (by decide)
  have hj : 160 * 3 * j = 480 := by
    rw [← hsource, sourceFrames_silence]
    rfl
  rw [Nat.zero_add] at hrun
  rw [hsource]
  apply mt (hrun.keepsTime_iff (by decide)).mp
  omega

/-! ### Agent audio -/

/-- The frames of a leg are written one by one. -/
def writeRun (tech : Tech) (frames : List (Io × List Int16)) : Tech :=
  frames.foldl (fun tech frame => (rtwBridgeApplyWriteFrame frame.1 tech frame.2).2) tech

/-- Samples the frames have room for. -/
def writtenSamples (frames : List (Io × List Int16)) : ℕ := (frames.flatMap Prod.snd).length

/-- Bytes the frames ask for, none more than the local buffer holds. -/
def askedBytes : List (Io × List Int16) → ℕ
  | [] => 0
  | frame :: frames => writeWant frame.2.length + askedBytes frames

/-- Writing the frames took as much 8 kHz audio as they last at the given rate. -/
def WriteTimeBase (sampling : ℤ) (tech : Tech) (frames : List (Io × List Int16)) : Prop :=
  (writeRun tech frames).buffered.length + writtenSamples frames * 8000 / sampling.toNat =
    tech.buffered.length

instance (sampling : ℤ) (tech : Tech) (frames : List (Io × List Int16)) :
    Decidable (WriteTimeBase sampling tech frames) := inferInstanceAs (Decidable (_ = _))

theorem writeRun_buffered {tech : Tech} (hopen : tech.cleanupStarted = false)
    {frames : List (Io × List Int16)} (hlock : ∀ frame ∈ frames, frame.1.locked = true) :
    (writeRun tech frames).buffered = tech.buffered.drop (askedBytes frames) := by
  induction frames generalizing tech with
  | nil => rfl
  | cons frame frames ih =>
    rw [List.forall_mem_cons] at hlock
    have hframe := rtwBridgeApplyWriteFrame_snd frame.1 tech frame.2
    obtain ⟨hsame, hbuf, -⟩ := rtwBridgeOnWritePcm16_spec frame.1 tech frame.2.length
    have hone : (rtwBridgeOnWritePcm16 frame.1 tech frame.2.length).2.buffered =
        tech.buffered.drop (writeWant frame.2.length) := by
      rw [hbuf, readRequest, hopen, hlock.1]
      by_cases h0 : frame.2.length = 0
      · simp [h0, writeWant, WRITE_FRAME_MAX]
      · simp [h0, streamOf, Stream.machine]
    have hnext := @ih (rtwBridgeOnWritePcm16 frame.1 tech frame.2.length).2
      (hsame.cleanupStarted.trans hopen) hlock.2
    rw [hone, List.drop_drop] at hnext
    rw [writeRun, List.foldl_cons, hframe]
    exact hnext

/-- At 8 kHz a frame asks for its duration up to the length of the local buffer. -/
theorem askedBytes_eq_iff (frames : List (Io × List Int16)) :
    askedBytes frames = writtenSamples frames ↔
      ∀ frame ∈ frames, frame.2.length ≤ WRITE_FRAME_MAX := by
  have hle : ∀ frames, askedBytes frames ≤ writtenSamples frames := by
    intro frames
    induction frames with
    | nil => exact Nat.le_refl 0
    | cons frame frames ih =>
      rw [writtenSamples] at ih ⊢
      rw [askedBytes, List.flatMap_cons, List.length_append, writeWant]
      split <;> omega
  induction frames with
  | nil => exact iff_of_true rfl (by simp)
  | cons frame frames ih =>
    have hrest := hle frames
    rw [List.forall_mem_cons]
    refine Iff.trans ?_ (and_congr_right' ih)
    simp only [askedBytes, writeWant, writtenSamples, List.flatMap_cons, List.length_append]
      at hrest ⊢
    split <;> omega

/-- Frames written to a bridge with enough buffered take the audio of their duration if and
only if the bytes they ask for are that much. -/
theorem writeTimeBase_iff {tech : Tech} (hopen : tech.cleanupStarted = false)
    (hpos : 0 < tech.sampling)
    (hrate : tech.sampling = 8000 ∨ tech.sampling = 16000 ∨ tech.sampling.tmod 8000 = 0)
    {frames : List (Io × List Int16)} (hlock : ∀ frame ∈ frames, frame.1.locked = true)
    (hwhole : (tech.sampling / 50).toNat ∣ writtenSamples frames)
    (henough : askedBytes frames ≤ tech.buffered.length) :
    WriteTimeBase tech.sampling tech frames ↔
      askedBytes frames * tech.sampling = 8000 * writtenSamples frames := by
  obtain ⟨k, hk, hrate⟩ := rate_multiple hpos hrate
  obtain ⟨j, hj⟩ := hwhole
  rw [hrate, show (8000 * (k : ℤ) / 50).toNat = 160 * k by omega] at hj
  have hdue : writtenSamples frames * 8000 / tech.sampling.toNat = 160 * j := by
    rw [hj, hrate, show (8000 * (k : ℤ)).toNat = 8000 * k by omega,
      show 160 * k * j * 8000 = 160 * j * (8000 * k) by ring]
    exact Nat.mul_div_cancel _ (by omega)
  have hasked : askedBytes frames * tech.sampling = 8000 * writtenSamples frames ↔
      askedBytes frames = 160 * j := by
    rw [hj, hrate]
    constructor
    · intro h
      have hmul : askedBytes frames * (8000 * k) = 160 * j * (8000 * k) := by
        zify
        push_cast at h
        linarith
      exact Nat.eq_of_mul_eq_mul_right (by omega) hmul
    · intro h
      rw [h]
      push_cast
      ring
  rw [WriteTimeBase, writeRun_buffered hopen hlock, List.length_drop, hdue, hasked]
  omega

/-- A bridge started at the given rate with `n` bytes to play. -/
def filledTech (sampling : ℤ) (h : (calmStart sampling 1).isSome) (n : ℕ) : Tech :=
  let tech := (calmStart sampling 1).get h
  { tech with session := { tech.session with
      playout := (rtwPlayoutWrite tech.session.playout (.replicate n 0)).2 } }

theorem filledTech_spec {sampling : ℤ} (hpos : 0 < sampling) (h : (calmStart sampling 1).isSome)
    {n : ℕ} (hn : n ≤ 64 * 1024) :
    (filledTech sampling h n).cleanupStarted = false ∧
      (filledTech sampling h n).sampling = sampling ∧
      (filledTech sampling h n).buffered.length = n := by
  obtain ⟨-, hl, -, hbuf, hcap⟩ := rtwBridgeStart_captured (Option.some_get h).symm hpos (by decide)
  have hfst := write_fst ((calmStart sampling 1).get h).session.playout (.replicate n 0)
  rw [if_pos] at hfst
  · obtain ⟨hbytes, -⟩ := write_accepted _ hfst
    refine ⟨(Bool.or_eq_false_iff.mp hl.stopping).2, hl.sampling, ?_⟩
    change (rtwPlayoutWrite _ _).2.bytes.length = n
    rw [hbytes, List.length_append, List.length_replicate]
    change ((calmStart sampling 1).get h).buffered.length + n = n
    rw [hbuf]
    exact Nat.zero_add n
  · rw [← Playout.length_bytes]
    change ((calmStart sampling 1).get h).buffered.length + _ ≤ _
    rw [hbuf, hcap, List.length_replicate, List.length_nil, Nat.zero_add]
    exact hn

theorem mono8k_starts : (calmStart 8000 1).isSome := by decide +kernel

theorem mono16k_starts : (calmStart 16000 1).isSome := by decide +kernel

theorem silence_asked (n : ℕ) : askedBytes (silence n) = writeWant n := by
  simp [silence, askedBytes]

theorem silence_written (n : ℕ) : writtenSamples (silence n) = n := by
  simp [silence, writtenSamples]

theorem writeTimeBase_mono8k :
    WriteTimeBase (filledTech 8000 mono8k_starts 400).sampling (filledTech 8000 mono8k_starts 400)
        (silence 320) ↔
      askedBytes (silence 320) * (filledTech 8000 mono8k_starts 400).sampling =
        8000 * writtenSamples (silence 320) := by
  obtain ⟨hopen, hrate, hbuf⟩ := filledTech_spec (by decide) mono8k_starts
    (show 400 ≤ 64 * 1024 by decide)
  refine writeTimeBase_iff hopen (by rw [hrate]; decide) (Or.inl hrate) ?_ ?_ ?_
  · exact List.forall_mem_singleton.mpr rfl
  · rw [hrate, silence_written]
    decide
  · rw [hbuf, silence_asked]
    decide

/-- At 16 kHz a frame of 20 ms takes 40 ms of agent audio. -/
theorem mono16k_too_fast :
    askedBytes (silence 320) ≤ (filledTech 16000 mono16k_starts 400).buffered.length ∧
      ¬ WriteTimeBase 16000 (filledTech 16000 mono16k_starts 400) (silence 320) := by
  obtain ⟨hopen, -, hbuf⟩ := filledTech_spec (by decide) mono16k_starts
    (show 400 ≤ 64 * 1024 by decide)
  have hlock : ∀ frame ∈ silence 320, frame.1.locked = true := List.forall_mem_singleton.mpr rfl
  have hrun := writeRun_buffered hopen hlock
  rw [WriteTimeBase, hrun, List.length_drop, hbuf, silence_asked, silence_written]
  decide

end RealtimeWs.Mod
