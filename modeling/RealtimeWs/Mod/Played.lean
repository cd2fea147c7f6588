import RealtimeWs.Mod.Downlink
import RealtimeWs.Mod.SessionCalls

/-! What the call plays while the threads run: the audio of the peer in order, less what each
clear found buffered, whoever handles the messages and whoever takes the frames. -/
namespace RealtimeWs.Mod

open RealtimeWs.Core

/-! ### Calls that leave the buffered audio alone -/

/-- The buffered bytes and the room there is for them. -/
def voice (s : Session) : List UInt8 × ℕ := (s.playout.bytes, s.playout.capacity)

theorem voice_spared : Spared voice := fun _ _ _ _ _ => rfl

/-- Only a message of the peer and a read touch the buffered audio. -/
def touchesVoice : SessionCall → Bool
  | .op (.handlePeerJson _) | .op (.readPlayout _) => true
  | _ => false

theorem call_voice {c : SessionCall} (h : touchesVoice c = false) (env : Env) (s : Session) :
    voice (s.call (env, c)) = voice s := by
  have hharvest : voice (rtwSessionHarvestMarks env s) = voice s := by
    obtain ⟨ms, x, hx, -⟩ := rtwSessionHarvestMarks_spec env s
    rw [hx]
    rfl
  cases c with
  | pause on => rfl
  | op o =>
    cases o with
    | pushPcm16 pcm => exact voice_spared.push env s pcm
    | handlePeerJson text => cases h
    | readPlayout n => cases h
    | popOutbound | peekOutbound | harvestMarks => exact hharvest
    | dropOutboundHead => rfl
    | noteWriteAfterClear n =>
      simp only [Session.call, Session.step]
      unfold rtwSessionNoteWriteAfterClear
      split_ifs <;> rfl
    | stop => exact voice_spared.stop (fun _ _ => rfl) env s
    | rehandshake => exact voice_spared.rehandshake env s

/-! ### One step -/

/-- The call of the downlink that a section of the media bug is. -/
def downlinkCall (io : StepIo) (g : Shared) : Option DownlinkOp :=
  match io.call with
  | .onWrite n => if g.mutex = none then some (.onWritePcm16 ⟨io.ok, io.env, fun _ => true⟩ n) else none
  | .applyWrite pcm =>
    if g.mutex = none then some (.applyWriteFrame ⟨io.ok, io.env, fun _ => true⟩ pcm) else none
  | _ => none

/-- The call of the downlink that a step makes. -/
def Pc.downlinkOp (io : StepIo) (g : Shared) : Pc → Option DownlinkOp
  | .textHandle _ text => if stopping g.tech then none else some (.handlePeerJson (io.env 0) text)
  | .callHandle text => some (.handlePeerJson (io.env 0) text)
  | .idle => downlinkCall io g
  | _ => none

variable (printNumber : List UInt8 → List UInt8)

/-- A step does to the buffered audio what its call of the downlink does. -/
theorem step_voice (t : Thread) (io : StepIo) (g : Shared) (pc : Pc) :
    voice (pc.step printNumber t io g).2.tech.session =
      voice ((pc.downlinkOp io g).elim g.tech (downlink.step g.tech)).session := by
  have hquiet : (∀ c, pc.makes io c → touchesVoice c = false) →
      voice (pc.step printNumber t io g).2.tech.session = voice g.tech.session := by
    intro hmakes
    exact (step_reaches printNumber t io g pc).keeps (P := fun s => voice s = voice g.tech.session)
      (fun s x hx hs => (call_voice (hmakes x.2 hx) x.1 s).trans hs) rfl
  cases pc with
  | textHandle c text =>
    simp only [Pc.step, Pc.downlinkOp]
    split <;> rfl
  | callHandle text => rfl
  | idle =>
    have hmakes : Pc.idle.makes io = io.call.makes := rfl
    cases hcall : io.call with
    | onWrite n | applyWrite pcm =>
      simp only [Pc.step, Pc.downlinkOp, idleStep, downlinkCall, hcall]
      split <;> rfl
    | onRead pcm =>
      simp only [Pc.downlinkOp, downlinkCall, hcall]
      apply hquiet
      rw [hmakes, hcall]
      rintro c ⟨pcm, rfl⟩
      rfl
    | pause on =>
      simp only [Pc.downlinkOp, downlinkCall, hcall]
      apply hquiet
      rw [hmakes, hcall]
      rintro c rfl
      rfl
    | _ =>
      simp only [Pc.downlinkOp, downlinkCall, hcall]
      apply hquiet
      rw [hmakes, hcall]
      rintro c ⟨⟩
  | flush site f =>
    apply hquiet
    rintro c (rfl | rfl) <;> rfl
  | handshake | stopSession =>
    apply hquiet
    rintro c rfl
    rfl
  | _ =>
    apply hquiet
    rintro c ⟨⟩

theorem step_injectMode (t : Thread) (io : StepIo) (g : Shared) (pc : Pc) :
    (pc.step printNumber t io g).2.tech.injectMode = g.tech.injectMode := by
  by_cases hread : pc = .idle ∧ ∃ pcm, io.call = .onRead pcm
  · obtain ⟨rfl, pcm, hcall⟩ := hread
    have hsilent : (mediaCall io g (.onRead pcm)).injectMode = g.tech.injectMode :=
      (congrArg Tech.injectMode (mediaCall_silent io g (.onRead pcm)).rest).trans rfl
    simp only [Pc.step, idleStep, hcall]
    split
    · exact hsilent
    · rfl
  · have hquiet : pc = .idle → ∀ pcm, io.call ≠ .onRead pcm := by
      intro hpc pcm hcall
      exact hread ⟨hpc, pcm, hcall⟩
    exact congrArg Prod.snd (step_held printNumber t io g hquiet)

/-! ### Runs -/

/-- A sample the call plays, or what a message did to the buffered audio. -/
inductive Played
  | sample (x : Int16)
  | entry (e : Stream.Entry UInt8)

def Played.sample? : Played → Option Int16
  | .sample x => some x
  | .entry _ => none

def Played.entry? : Played → Option (Stream.Entry UInt8)
  | .sample _ => none
  | .entry e => some e

def played (tech : Tech) (op : DownlinkOp) : List Played :=
  (downlinkLog.out tech op).map .entry ++ (downlink.out tech op).map .sample

/-- The bridge, with what it plays and what the messages do. -/
def player (printNumber : List UInt8 → List UInt8) :
    Machine BridgeState (Thread × StepIo) Played where
  step := (bridge printNumber).step
  out s e :=
    if s.shared.freed = true ∨ (s.shared.handedOut = false ∧ (s.pc e.1).starting = false) then []
    else ((s.pc e.1).downlinkOp e.2 s.shared).elim [] (played s.shared.tech)

theorem filterMap_played (tech : Tech) (op : DownlinkOp) :
    (played tech op).filterMap Played.sample? = downlink.out tech op ∧
      (played tech op).filterMap Played.entry? = downlinkLog.out tech op := by
  unfold played
  constructor
  · rw [List.filterMap_append, List.filterMap_map, List.filterMap_map]
    have hentries : ∀ es : List (Stream.Entry UInt8),
        es.filterMap (Played.sample? ∘ Played.entry) = [] := by
      intro es
      exact List.filterMap_eq_nil_iff.mpr fun _ _ => rfl
    rw [hentries, List.nil_append]
    exact List.filterMap_some
  · rw [List.filterMap_append, List.filterMap_map, List.filterMap_map]
    have hsamples : ∀ xs : List Int16, xs.filterMap (Played.entry? ∘ Played.sample) = [] := by
      intro xs
      exact List.filterMap_eq_nil_iff.mpr fun _ _ => rfl
    rw [hsamples, List.append_nil]
    exact List.filterMap_some

/-- The stream did `ops` since the bridge was in the state `tech`, and `h` is what came of it. -/
structure Streams (tech : Tech) (ops : List (Stream.Op UInt8)) (u : Tech) (h : List Played) :
    Prop where
  mode : u.injectMode = tech.injectMode
  capacity : u.session.playout.capacity = tech.session.playout.capacity
  buffered : u.buffered = (streamOf tech).run tech.buffered ops
  samples : h.filterMap Played.sample? =
    rtwMulawToPcm16 ((streamOf tech).outputs tech.buffered ops)
  entries : h.filterMap Played.entry? = (journalOf tech).outputs tech.buffered ops

/-- A call of the downlink is what it asks of the stream. -/
theorem Streams.next {tech u v : Tech} {ops : List (Stream.Op UInt8)} {h : List Played}
    (hs : Streams tech ops u h) (hmode : tech.injectMode = .replace) (op : DownlinkOp)
    (hv : v.injectMode = u.injectMode) (hvoice : voice v.session = voice (downlink.step u op).session) :
    Streams tech (ops ++ request u op) v (h ++ played u op) := by
  obtain ⟨hsame, hbuf, hout, hlog⟩ := downlink_step_spec (hs.mode.trans hmode) op
  obtain ⟨hbytes, hcap⟩ := Prod.mk.inj hvoice
  obtain ⟨hsamples, hentries⟩ := filterMap_played u op
  rw [streamOf, hs.capacity] at hbuf hout
  rw [journalOf, hs.capacity] at hlog
  constructor
  · exact hv.trans hs.mode
  · exact (hcap.trans hsame.capacity).trans hs.capacity
  · rw [Machine.run_append, ← hs.buffered]
    exact hbytes.trans hbuf
  · rw [List.filterMap_append, hsamples, hs.samples, hout, Machine.outputs_append, ← hs.buffered,
      rtwMulawToPcm16_append]
    rfl
  · rw [List.filterMap_append, hentries, hs.entries, hlog, Machine.outputs_append]
    exact congrArg (_ ++ (journalOf tech).outputs · _) hs.buffered

/-- In every interleaving the buffered audio is a stream that the calls feed, discard and take from. -/
theorem run_streams {s : BridgeState} (hmode : s.shared.tech.injectMode = .replace)
    (es : List (Thread × StepIo)) :
    ∃ ops, Streams s.shared.tech ops ((bridge printNumber).run s es).shared.tech
      ((player printNumber).outputs s es) := by
  refine emitted_invariant printNumber (m := player printNumber) rfl (fun _ _ => rfl)
    (f := fun io g pc => (pc.downlinkOp io g).elim [] (played g.tech))
    (J := fun u h => ∃ ops, Streams s.shared.tech ops u h) ?_ ⟨[], rfl, rfl, rfl, rfl, rfl⟩ es
  rintro t io g pc h ⟨ops, hops⟩
  have hvoice := step_voice printNumber t io g pc
  have hinject := step_injectMode printNumber t io g pc
  cases hop : pc.downlinkOp io g with
  | none =>
    rw [hop] at hvoice
    obtain ⟨hbytes, hcap⟩ := Prod.mk.inj hvoice
    refine ⟨ops, hinject.trans hops.mode, hcap.trans hops.capacity, hbytes.trans hops.buffered,
      ?_, ?_⟩
    · rw [Option.elim_none, List.append_nil]
      exact hops.samples
    · rw [Option.elim_none, List.append_nil]
      exact hops.entries
  | some op =>
    rw [hop] at hvoice
    exact ⟨_, hops.next hmode op hinject hvoice⟩

/-- In replace mode, in every interleaving: what the call has played, followed by what is
buffered, is what was buffered and then accepted, in order, without what each clear found
buffered. -/
theorem call_plays {tech : Tech} (hmode : tech.injectMode = .replace)
    (es : List (Thread × StepIo)) :
    let h := (player printNumber).outputs (startState tech) es
    (Stream.kept tech.buffered (h.filterMap Played.entry?)).map rtwMulawToPcm16 =
      some (h.filterMap Played.sample? ++ rtwMulawToPcm16
        ((bridge printNumber).run (startState tech) es).shared.tech.buffered) := by
  intro h
  have hstart : (startState tech).shared.tech.injectMode = .replace := hmode
  obtain ⟨ops, hops⟩ := run_streams printNumber hstart es
  have hkept := Stream.taken_append_queued tech.session.playout.capacity ops [] tech.buffered
  rw [hops.samples, hops.buffered, hops.entries, ← rtwMulawToPcm16_append]
  exact congrArg (Option.map rtwMulawToPcm16) hkept

/-- The worker gets four bytes while a caller clears what the call has not played of them. -/
def clearRun : List (Thread × StepIo) :=
  steps 16 .worker ++ [(.worker, { StepIo.calm with poll := .text (mediaText "AQIDBA==") })] ++
    steps 8 .worker ++ [(.caller 0, { StepIo.calm with call := .applyWrite [7] })] ++
      [(.caller 1, { StepIo.calm with call := .clear })] ++ steps 8 (.caller 1) ++ steps 12 .worker

theorem call_plays_clear :
    let h := (player id).outputs (startState demoOpen) clearRun
    (Stream.kept demoOpen.buffered (h.filterMap Played.entry?)).map rtwMulawToPcm16 =
      some (h.filterMap Played.sample? ++ rtwMulawToPcm16
        ((bridge id).run (startState demoOpen) clearRun).shared.tech.buffered) :=
  call_plays id rfl clearRun

end RealtimeWs.Mod
