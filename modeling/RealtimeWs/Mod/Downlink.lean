import RealtimeWs.Core.Marks
import RealtimeWs.Lib.Stream
import RealtimeWs.Mod.Bridge

/-! Agent audio from the messages of the peer to the samples of the two write paths:
the playout buffer is a stream that media messages feed, clears discard and frames take from. -/
namespace RealtimeWs.Mod

open RealtimeWs.Core

inductive DownlinkOp
  | handlePeerJson (env : Env) (json : CStr)
  | onWritePcm16 (io : Io) (maxSamples : ℕ)
  | applyWriteFrame (io : Io) (pcm : List Int16)

/-- The outputs are the samples a write path reports as taken. -/
def downlink : Machine Tech DownlinkOp Int16 where
  step tech
    | .handlePeerJson env json =>
      { tech with session := (rtwSessionHandlePeerJson env tech.session json).2 }
    | .onWritePcm16 io maxSamples => (rtwBridgeOnWritePcm16 io tech maxSamples).2
    | .applyWriteFrame io pcm => (rtwBridgeApplyWriteFrame io tech pcm).2
  out tech
    | .handlePeerJson _ _ => []
    | .onWritePcm16 io maxSamples => (rtwBridgeOnWritePcm16 io tech maxSamples).1
    | .applyWriteFrame io pcm =>
      let r := (rtwBridgeApplyWriteFrame io tech pcm).1
      r.1.take r.2

/-- What a message does to the playout buffer: a media message that is accepted has its
payload buffered, a clear loses what is buffered. -/
def peerEntry (env : Env) (s : Session) (json : CStr) : List (Stream.Entry UInt8) :=
  match s.inboundFor env json with
  | none => []
  | some ev =>
    match ev.type with
    | .media =>
      if (rtwSessionHandlePeerJson env s json).1 = 0 then [.accepted ev.payload] else []
    | .clear => [.discarded s.playout.bytes]
    | _ => []

/-- The same calls, with what the messages do as outputs. -/
def downlinkLog : Machine Tech DownlinkOp (Stream.Entry UInt8) where
  step := downlink.step
  out tech
    | .handlePeerJson env json => peerEntry env tech.session json
    | _ => []

/-! ### The calls as operations on a stream -/

/-- What a read of a frame asks for: nothing when it does not get the mutex. -/
def readRequest (tech : Tech) (io : Io) (nsamples : ℕ) : List (Stream.Op UInt8) :=
  if nsamples = 0 ∨ tech.cleanupStarted then []
  else if io.locked = false then []
  else [.take (writeWant nsamples)]

def request (tech : Tech) : DownlinkOp → List (Stream.Op UInt8)
  | .handlePeerJson env json =>
    match tech.session.inboundFor env json with
    | none => []
    | some ev =>
      match ev.type with
      | .media => [.feed ev.payload]
      | .clear => [.discard]
      | _ => []
  | .onWritePcm16 io maxSamples => readRequest tech io maxSamples
  | .applyWriteFrame io pcm => readRequest tech io pcm.length

/-- What no call changes. -/
structure SameDownlink (s t : Tech) : Prop where
  state : t.session.state = s.session.state
  streamSid : t.session.streamSid = s.session.streamSid
  capacity : t.session.playout.capacity = s.session.playout.capacity
  cleanupStarted : t.cleanupStarted = s.cleanupStarted
  injectMode : t.injectMode = s.injectMode

theorem SameDownlink.refl (s : Tech) : SameDownlink s s := ⟨rfl, rfl, rfl, rfl, rfl⟩

theorem SameDownlink.trans {s t u : Tech} (h : SameDownlink s t) (h' : SameDownlink t u) :
    SameDownlink s u :=
  ⟨h'.1.trans h.1, h'.2.trans h.2, h'.3.trans h.3, h'.4.trans h.4, h'.5.trans h.5⟩

theorem request_congr {s t : Tech} (h : SameDownlink s t) : request t = request s := by
  have hin : ∀ env json, t.session.inboundFor env json = s.session.inboundFor env json := by
    intro env json
    simp only [Session.inboundFor, h.state, h.streamSid]
  funext op
  cases op with
  | handlePeerJson env json => simp only [request, hin]
  | onWritePcm16 io maxSamples | applyWriteFrame io pcm =>
    simp only [request, readRequest, h.cleanupStarted]

/-- The bytes a bridge has buffered for playout. -/
def Tech.buffered (tech : Tech) : List UInt8 := tech.session.playout.bytes

/-- The abstract stream of a bridge and its journal. -/
def streamOf (tech : Tech) : Machine (List UInt8) (Stream.Op UInt8) UInt8 :=
  Stream.machine tech.session.playout.capacity

def journalOf (tech : Tech) : Machine (List UInt8) (Stream.Op UInt8) (Stream.Entry UInt8) :=
  Stream.journal tech.session.playout.capacity

theorem takePlayout_spec (env : Env) (tech : Tech) (want : ℕ) :
    (takePlayout env tech want).1 = rtwMulawToPcm16 (tech.buffered.take want) ∧
      (takePlayout env tech want).2.buffered = tech.buffered.drop want ∧
      SameDownlink tech (takePlayout env tech want).2 := by
  have hread := read_fst tech.session.playout want
  have hbytes := bytes_read tech.session.playout want
  have hcap := capacity_read tech.session.playout want
  by_cases hn : 0 < (rtwSessionReadPlayout tech.session want).1.length
  · have htake : takePlayout env tech want =
        (rtwMulawToPcm16 (rtwPlayoutRead tech.session.playout want).1,
          { tech with session := (rtwSessionReadPlayout tech.session want).2 }) := if_pos hn
    rw [htake, hread]
    exact ⟨rfl, hbytes, rfl, rfl, hcap, rfl, rfl⟩
  · -- nothing was taken, and noting that changes the latency figures only
    have htake : takePlayout env tech want = ([], { tech with
        session := rtwSessionNoteWriteAfterClear env (rtwSessionReadPlayout tech.session want).2
          0 }) := if_neg hn
    have hnil : (rtwPlayoutRead tech.session.playout want).1 = [] :=
      List.length_eq_zero_iff.mp (Nat.eq_zero_of_not_pos hn)
    obtain ⟨-, hsame⟩ := noteWriteAfterClear_frame env
      (rtwSessionReadPlayout tech.session want).2 0
    rw [htake, Tech.buffered, Tech.buffered, hsame.playout, ← hread, hnil]
    refine ⟨rfl, hbytes, hsame.state, hsame.streamSid, ?_, rfl, rfl⟩
    rw [hsame.playout]
    exact hcap

theorem handlePeerJson_streamSid (env : Env) (s : Session) (json : CStr) :
    (rtwSessionHandlePeerJson env s json).2.streamSid = s.streamSid := by
  cases hj : s.inboundFor env json with
  | none => rw [(handlePeerJson_of_none hj).2]
  | some ev =>
    rw [handlePeerJson_of_event hj, handleEvent]
    cases ev.type with
    | media =>
      simp only
      split_ifs <;> rfl
    | clear =>
      obtain ⟨_, _, hx, -⟩ := flushAcks_spec env 0 (rtwPlayoutClear s.playout RTW_MARK_MAX).1
        { s with
          playout := (rtwPlayoutClear s.playout RTW_MARK_MAX).2
          clearEvents := s.clearEvents + 1
          clearArmed := true
          clearStartNs := env.now }
      simp only [hx]
      rfl
    | _ => rfl

/-- A text acts on the buffered bytes as its request does, and is logged so. -/
theorem handlePeerJson_spec (env : Env) (tech : Tech) (json : CStr) :
    SameDownlink tech (downlink.step tech (.handlePeerJson env json)) ∧
      (downlink.step tech (.handlePeerJson env json)).buffered =
        (streamOf tech).run tech.buffered (request tech (.handlePeerJson env json)) ∧
      (streamOf tech).outputs tech.buffered (request tech (.handlePeerJson env json)) = [] ∧
      peerEntry env tech.session json =
        (journalOf tech).outputs tech.buffered (request tech (.handlePeerJson env json)) := by
  have hsid := handlePeerJson_streamSid env tech.session json
  have hstep : downlink.step tech (.handlePeerJson env json) =
      { tech with session := (rtwSessionHandlePeerJson env tech.session json).2 } := rfl
  rw [hstep, request, peerEntry]
  cases hj : tech.session.inboundFor env json with
  | none =>
    rw [(handlePeerJson_of_none hj).2]
    exact ⟨.refl tech, rfl, rfl, rfl⟩
  | some ev =>
    obtain ⟨ms, -, -, hstate, hspec⟩ := handleEvent_spec env tech.session ev
    rw [handlePeerJson_of_event hj] at hsid ⊢
    cases hev : ev.type with
    | media =>
      simp only [hev] at hspec ⊢
      obtain ⟨-, hrc, hplay⟩ := hspec
      have hcap : (handleEvent env tech.session ev).2.playout.capacity =
          tech.session.playout.capacity := by rw [hplay, capacity_write]
      refine ⟨⟨hstate, hsid, hcap, rfl, rfl⟩, ?_⟩
      have hfst := write_fst tech.session.playout ev.payload
      by_cases hfit : tech.session.playout.size + ev.payload.length ≤
          tech.session.playout.capacity
      · rw [if_pos hfit] at hfst
        obtain ⟨hbytes, -⟩ := write_accepted tech.session.playout hfst
        simp [Tech.buffered, streamOf, journalOf, Stream.machine, Stream.journal, hplay, hbytes,
          hrc, hfst, hfit]
      · rw [if_neg hfit] at hfst
        have hrej := write_rejected tech.session.playout
          (hfst.trans_ne (show (-1 : ℤ) ≠ 0 by decide))
        simp [Tech.buffered, streamOf, journalOf, Stream.machine, Stream.journal, hplay, hrej,
          hrc, hfst, hfit]
    | clear =>
      simp only [hev] at hspec ⊢
      obtain ⟨-, -, hplay⟩ := hspec
      have hcap : (handleEvent env tech.session ev).2.playout.capacity =
          tech.session.playout.capacity := by rw [hplay, capacity_clear]
      have hbytes : (handleEvent env tech.session ev).2.playout.bytes = [] := by
        rw [hplay, bytes_clear]
      exact ⟨⟨hstate, hsid, hcap, rfl, rfl⟩, hbytes, rfl, rfl⟩
    | mark =>
      simp only [hev] at hspec ⊢
      obtain ⟨-, -, hplay⟩ := hspec
      have hcap : (handleEvent env tech.session ev).2.playout.capacity =
          tech.session.playout.capacity := by rw [hplay, capacity_addMark]
      have hbytes : (handleEvent env tech.session ev).2.playout.bytes =
          tech.session.playout.bytes := by rw [hplay, bytes_addMark]
      exact ⟨⟨hstate, hsid, hcap, rfl, rfl⟩, hbytes, rfl, rfl⟩
    | _ =>
      simp only [hev] at hspec ⊢
      obtain ⟨-, -, hplay⟩ := hspec
      have hcap := congrArg Playout.capacity hplay
      have hbytes := congrArg Playout.bytes hplay
      exact ⟨⟨hstate, hsid, hcap, rfl, rfl⟩, hbytes, rfl, rfl⟩

/-- A read takes what it asks for from the front. -/
theorem rtwBridgeOnWritePcm16_spec (io : Io) (tech : Tech) (n : ℕ) :
    SameDownlink tech (rtwBridgeOnWritePcm16 io tech n).2 ∧
      (rtwBridgeOnWritePcm16 io tech n).2.buffered =
        (streamOf tech).run tech.buffered (readRequest tech io n) ∧
      (rtwBridgeOnWritePcm16 io tech n).1 =
        rtwMulawToPcm16 ((streamOf tech).outputs tech.buffered (readRequest tech io n)) ∧
      [] = (journalOf tech).outputs tech.buffered (readRequest tech io n) := by
  unfold rtwBridgeOnWritePcm16 readRequest
  split_ifs
  · exact ⟨.refl tech, rfl, rfl, rfl⟩
  · exact ⟨.refl tech, rfl, rfl, rfl⟩
  · obtain ⟨hout, hbuf, hsame⟩ := takePlayout_spec (io.env 0) tech (writeWant n)
    refine ⟨hsame, hbuf, ?_, rfl⟩
    rw [hout]
    simp [streamOf, Stream.machine]

/-- A frame takes what the other write path would have taken, in either mode. -/
theorem rtwBridgeApplyWriteFrame_snd (io : Io) (tech : Tech) (pcm : List Int16) :
    (rtwBridgeApplyWriteFrame io tech pcm).2 = (rtwBridgeOnWritePcm16 io tech pcm.length).2 := by
  unfold rtwBridgeApplyWriteFrame rtwBridgeOnWritePcm16
  split_ifs
  · rfl
  · rfl
  · simp only
    split
    · rfl
    · cases tech.injectMode <;> rfl

/-- In replace mode the frame starts with these samples. -/
theorem rtwBridgeApplyWriteFrame_replace {tech : Tech} (hmode : tech.injectMode = .replace)
    (io : Io) (pcm : List Int16) :
    (rtwBridgeApplyWriteFrame io tech pcm).1.1.take (rtwBridgeApplyWriteFrame io tech pcm).1.2 =
      (rtwBridgeOnWritePcm16 io tech pcm.length).1 := by
  unfold rtwBridgeApplyWriteFrame rtwBridgeOnWritePcm16
  split_ifs with h0 hlock
  · rfl
  · rfl
  · simp only [hmode]
    split_ifs with hnil
    · exact (List.length_eq_zero_iff.mp hnil).symm
    · exact List.take_left

/-- Every call is its request, on the buffered bytes, in what it plays and in the log. -/
theorem downlink_step_spec {tech : Tech} (hmode : tech.injectMode = .replace) (op : DownlinkOp) :
    SameDownlink tech (downlink.step tech op) ∧
      (downlink.step tech op).buffered = (streamOf tech).run tech.buffered (request tech op) ∧
      downlink.out tech op =
        rtwMulawToPcm16 ((streamOf tech).outputs tech.buffered (request tech op)) ∧
      downlinkLog.out tech op = (journalOf tech).outputs tech.buffered (request tech op) := by
  cases op with
  | handlePeerJson env json =>
    obtain ⟨hsame, hbuf, hout, hlog⟩ := handlePeerJson_spec env tech json
    refine ⟨hsame, hbuf, ?_, hlog⟩
    rw [hout]
    rfl
  | onWritePcm16 io maxSamples => exact rtwBridgeOnWritePcm16_spec io tech maxSamples
  | applyWriteFrame io pcm =>
    have hspec := rtwBridgeOnWritePcm16_spec io tech pcm.length
    rw [← rtwBridgeApplyWriteFrame_replace hmode io pcm,
      ← rtwBridgeApplyWriteFrame_snd io tech pcm] at hspec
    exact hspec

/-! ### Runs -/

/-- What the calls ask of the stream. -/
def requests (tech : Tech) (ops : List DownlinkOp) : List (Stream.Op UInt8) :=
  ops.flatMap (request tech)

/-- A run of the bridge is a run of the stream. -/
theorem downlink_refines {tech : Tech} (hmode : tech.injectMode = .replace)
    (ops : List DownlinkOp) :
    SameDownlink tech (downlink.run tech ops) ∧
      (downlink.run tech ops).buffered = (streamOf tech).run tech.buffered (requests tech ops) ∧
      downlink.outputs tech ops =
        rtwMulawToPcm16 ((streamOf tech).outputs tech.buffered (requests tech ops)) ∧
      downlinkLog.outputs tech ops =
        (journalOf tech).outputs tech.buffered (requests tech ops) := by
  have hstep : ∀ t op, SameDownlink tech t → SameDownlink tech (downlink.step t op) ∧
      (downlink.step t op).buffered = (streamOf tech).run t.buffered (request tech op) ∧
      downlink.out t op =
        rtwMulawToPcm16 ((streamOf tech).outputs t.buffered (request tech op)) ∧
      downlinkLog.out t op = (journalOf tech).outputs t.buffered (request tech op) := by
    intro t op ht
    obtain ⟨hsame, hspec⟩ := downlink_step_spec (ht.injectMode.trans hmode) op
    rw [request_congr ht, streamOf, journalOf, ht.capacity] at hspec
    exact ⟨ht.trans hsame, hspec⟩
  have hplay : (downlink.run tech ops).buffered =
        (streamOf tech).run tech.buffered (requests tech ops) ∧
      downlink.outputs tech ops =
        ((streamOf tech).outputs tech.buffered (requests tech ops)).map rtwMulawToLinear :=
    downlink.simulation (streamOf tech)
      (fun t op ht => ⟨(hstep t op ht).1, (hstep t op ht).2.1, (hstep t op ht).2.2.1⟩)
      (SameDownlink.refl tech) ops
  have hlog : (downlinkLog.run tech ops).buffered =
        (journalOf tech).run tech.buffered (requests tech ops) ∧
      downlinkLog.outputs tech ops =
        ((journalOf tech).outputs tech.buffered (requests tech ops)).map id :=
    downlinkLog.simulation (journalOf tech)
      (fun t op ht => ⟨(hstep t op ht).1, (hstep t op ht).2.1,
        (hstep t op ht).2.2.2.trans (List.map_id _).symm⟩)
      (SameDownlink.refl tech) ops
  have hsame : SameDownlink tech (downlink.run tech ops) :=
    downlink.invariant (fun t op _ ht => (hstep t op ht).1) (.refl tech)
      (downlink.along_of_forall (P := fun _ _ => True) (fun _ _ => trivial) tech ops)
  exact ⟨hsame, hplay.1, hplay.2, hlog.2.trans (List.map_id _)⟩

/-- Samples played, and then the bytes still buffered, are the accepted payloads in order
without what each clear found buffered. -/
def PlayedInOrder (tech : Tech) (ops : List DownlinkOp) : Prop :=
  (Stream.kept tech.buffered (downlinkLog.outputs tech ops)).map rtwMulawToPcm16 =
    some (downlink.outputs tech ops ++ rtwMulawToPcm16 (downlink.run tech ops).buffered)

instance (tech : Tech) (ops : List DownlinkOp) : Decidable (PlayedInOrder tech ops) :=
  inferInstanceAs (Decidable (_ = _))

theorem playedInOrder_run {tech : Tech} (hmode : tech.injectMode = .replace) (ops : List DownlinkOp) :
    PlayedInOrder tech ops := by
  obtain ⟨-, hbuf, hout, hlog⟩ := downlink_refines hmode ops
  have hkept := Stream.taken_append_queued tech.session.playout.capacity (requests tech ops) []
    tech.buffered
  rw [PlayedInOrder, hbuf, hout, hlog, ← rtwMulawToPcm16_append]
  exact congrArg (Option.map rtwMulawToPcm16) hkept

/-! ### The samples asked for

A frame asks for as many samples as it has, and a read of it takes at most what a local
buffer holds. -/

/-- What a frame asks for, whatever its length: nothing when it does not get the mutex. -/
def samplesAsked (tech : Tech) (io : Io) (nsamples : ℕ) : List (Stream.Op UInt8) :=
  if nsamples = 0 ∨ tech.cleanupStarted then []
  else if io.locked = false then []
  else [.take nsamples]

def ask (tech : Tech) : DownlinkOp → List (Stream.Op UInt8)
  | .handlePeerJson env json => request tech (.handlePeerJson env json)
  | .onWritePcm16 io maxSamples => samplesAsked tech io maxSamples
  | .applyWriteFrame io pcm => samplesAsked tech io pcm.length

/-- What the calls ask for. -/
def asks (tech : Tech) (ops : List DownlinkOp) : List (Stream.Op UInt8) := ops.flatMap (ask tech)

/-- The frame is no longer than a local buffer, or no more than that is buffered. -/
def FrameFits (tech : Tech) (io : Io) (nsamples : ℕ) : Prop :=
  tech.cleanupStarted = true ∨ io.locked = false ∨ nsamples ≤ WRITE_FRAME_MAX ∨
    tech.buffered.length ≤ WRITE_FRAME_MAX

def ReadFits (tech : Tech) : DownlinkOp → Prop
  | .handlePeerJson _ _ => True
  | .onWritePcm16 io maxSamples => FrameFits tech io maxSamples
  | .applyWriteFrame io pcm => FrameFits tech io pcm.length

instance (tech : Tech) (op : DownlinkOp) : Decidable (ReadFits tech op) :=
  match op with
  | .handlePeerJson _ _ => .isTrue trivial
  | .onWritePcm16 _ _ | .applyWriteFrame _ _ => inferInstanceAs (Decidable (_ ∨ _))

theorem ask_congr {s t : Tech} (h : SameDownlink s t) : ask t = ask s := by
  funext op
  cases op with
  | handlePeerJson env json => exact congrFun (request_congr h) (.handlePeerJson env json)
  | onWritePcm16 io maxSamples | applyWriteFrame io pcm =>
    simp only [ask, samplesAsked, h.cleanupStarted]

/-- The capped read is the read asked for where the frame fits, and only there. -/
theorem readRequest_iff (tech : Tech) (io : Io) (n : ℕ) :
    ((streamOf tech).run tech.buffered (readRequest tech io n) =
        (streamOf tech).run tech.buffered (samplesAsked tech io n) ∧
      rtwMulawToPcm16 ((streamOf tech).outputs tech.buffered (readRequest tech io n)) =
        rtwMulawToPcm16 ((streamOf tech).outputs tech.buffered (samplesAsked tech io n))) ↔
      FrameFits tech io n := by
  unfold readRequest samplesAsked FrameFits
  split_ifs with hnone hlock
  · have hfits : tech.cleanupStarted = true ∨ io.locked = false ∨ n ≤ WRITE_FRAME_MAX ∨
        tech.buffered.length ≤ WRITE_FRAME_MAX := by
      rcases hnone with hzero | hcleanup
      · exact Or.inr (Or.inr (Or.inl (hzero.symm ▸ Nat.zero_le _)))
      · exact Or.inl hcleanup
    exact ⟨fun _ => hfits, fun _ => ⟨rfl, rfl⟩⟩
  · exact ⟨fun _ => Or.inr (Or.inl hlock), fun _ => ⟨rfl, rfl⟩⟩
  · have hmin : writeWant n = min n WRITE_FRAME_MAX := by
      unfold writeWant
      split_ifs <;> omega
    simp only [streamOf, Stream.machine, Machine.run_cons, Machine.run_nil, Machine.outputs_cons,
      Machine.outputs_nil, List.append_nil]
    constructor
    · rintro ⟨-, htaken⟩
      have hlen := congrArg List.length htaken
      rw [rtwMulawToPcm16, rtwMulawToPcm16, List.length_map, List.length_map, List.length_take,
        List.length_take, hmin] at hlen
      refine Or.inr (Or.inr ?_)
      omega
    · intro hfits
      have hsame : min (writeWant n) tech.buffered.length = min n tech.buffered.length := by
        rcases hfits with hcleanup | hfree | hshort | hfew
        · exact absurd (Or.inr hcleanup) hnone
        · exact absurd hfree hlock
        · rw [hmin, Nat.min_eq_left hshort]
        · rw [hmin]
          omega
      rw [List.take_eq_take_iff.mpr hsame, List.drop_eq_drop_iff.mpr hsame]
      exact ⟨rfl, rfl⟩

/-- A call does what it asks for if and only if its frame fits. -/
theorem ask_iff {tech : Tech} (hmode : tech.injectMode = .replace) (op : DownlinkOp) :
    (downlink.step tech op).buffered = (streamOf tech).run tech.buffered (ask tech op) ∧
        downlink.out tech op =
          rtwMulawToPcm16 ((streamOf tech).outputs tech.buffered (ask tech op)) ↔
      ReadFits tech op := by
  obtain ⟨-, hbuf, hout, -⟩ := downlink_step_spec hmode op
  rw [hbuf, hout]
  cases op with
  | handlePeerJson env json => exact ⟨fun _ => trivial, fun _ => ⟨rfl, rfl⟩⟩
  | onWritePcm16 io maxSamples => exact readRequest_iff tech io maxSamples
  | applyWriteFrame io pcm => exact readRequest_iff tech io pcm.length

/-- The samples played and the bytes left are those of a stream that is asked for whole
frames, of any length. -/
def DoesAsAsked (tech : Tech) (ops : List DownlinkOp) : Prop :=
  (downlink.run tech ops).buffered = (streamOf tech).run tech.buffered (asks tech ops) ∧
    downlink.outputs tech ops =
      rtwMulawToPcm16 ((streamOf tech).outputs tech.buffered (asks tech ops))

theorem doesAsAsked_iff {tech : Tech} (hmode : tech.injectMode = .replace)
    (ops : List DownlinkOp) :
    (∀ k, DoesAsAsked tech (ops.take k)) ↔ downlink.Along ReadFits tech ops := by
  apply downlink.simulation_iff (J := SameDownlink tech) (streamOf tech) ?_ ?_ (.refl tech)
  · intro t op ht
    exact ht.trans (downlink_step_spec (ht.injectMode.trans hmode) op).1
  · intro t op ht
    have hiff := ask_iff (ht.injectMode.trans hmode) op
    rw [ask_congr ht, streamOf, ht.capacity] at hiff
    exact hiff

theorem doesAsAsked {tech : Tech} (hmode : tech.injectMode = .replace) {ops : List DownlinkOp}
    (h : downlink.Along ReadFits tech ops) : DoesAsAsked tech ops := by
  have hall := (doesAsAsked_iff hmode ops).mpr h ops.length
  rwa [List.take_length] at hall

/-- The same samples played and the same bytes left. -/
def SameResult (tech : Tech) (ops ops' : List DownlinkOp) : Prop :=
  downlink.outputs tech ops = downlink.outputs tech ops' ∧
    (downlink.run tech ops).buffered = (downlink.run tech ops').buffered

/-- Runs that ask for the same between the messages have the same result. -/
theorem DoesAsAsked.sameResult {tech : Tech} {ops ops' : List DownlinkOp}
    (h : DoesAsAsked tech ops) (h' : DoesAsAsked tech ops')
    (hdemand : Stream.demand (asks tech ops) = Stream.demand (asks tech ops')) :
    SameResult tech ops ops' := by
  obtain ⟨hbuf, hout⟩ := h
  obtain ⟨hbuf', hout'⟩ := h'
  obtain ⟨hrun, houts⟩ := Stream.same_of_demand_eq tech.session.playout.capacity hdemand
    tech.buffered
  constructor
  · rw [hout, hout']
    exact congrArg rtwMulawToPcm16 houts
  · rw [hbuf, hbuf']
    exact hrun

/-- The downlink is a faithful queue along a run. `fifo` is as above, and `cleared` says so of
what comes after a clear, starting from nothing. `asked` and `split` say that frame sizes and
the choice of the write path do not matter, only how much is asked for between the messages;
`paths` says of any frames that only the lengths up to a local buffer matter. -/
structure DownlinkFaithful (tech : Tech) (ops : List DownlinkOp) : Prop where
  fifo : PlayedInOrder tech ops
  cleared : ∀ env json lost,
    peerEntry env (downlink.run tech ops).session json = [.discarded lost] →
      let next := downlink.step (downlink.run tech ops) (.handlePeerJson env json)
      lost = (downlink.run tech ops).buffered ∧ next.buffered = [] ∧
        ∀ later, PlayedInOrder next later
  paths : ∀ ops', Stream.demand (requests tech ops) = Stream.demand (requests tech ops') →
    SameResult tech ops ops'
  asked : ∀ k, DoesAsAsked tech (ops.take k)
  split : ∀ ops', downlink.Along ReadFits tech ops' →
    Stream.demand (asks tech ops) = Stream.demand (asks tech ops') → SameResult tech ops ops'

/-- A discard in the log is a clear, which empties the buffer. -/
theorem peerEntry_discarded {env : Env} {tech : Tech} {json : CStr} {lost : List UInt8}
    (h : peerEntry env tech.session json = [.discarded lost]) :
    lost = tech.buffered ∧
      (downlink.step tech (.handlePeerJson env json)).buffered = [] := by
  obtain ⟨-, hbuf, -⟩ := handlePeerJson_spec env tech json
  rw [hbuf, request]
  unfold peerEntry at h
  cases hj : tech.session.inboundFor env json with
  | none =>
    rw [hj] at h
    cases h
  | some ev =>
    rw [hj] at h
    cases hev : ev.type with
    | clear =>
      simp only [hev] at h ⊢
      cases h
      exact ⟨rfl, rfl⟩
    | media =>
      simp only [hev] at h
      split_ifs at h
      cases h
    | _ =>
      simp only [hev] at h
      cases h

/-- Downlink audio is a faithful queue along a run if and only if no frame asks for more than
a local buffer holds while more than that is buffered. -/
theorem downlink_faithful_iff {tech : Tech} (hmode : tech.injectMode = .replace)
    (ops : List DownlinkOp) :
    DownlinkFaithful tech ops ↔ downlink.Along ReadFits tech ops := by
  constructor
  · intro h
    exact (doesAsAsked_iff hmode ops).mp h.asked
  · intro hfits
    obtain ⟨hsame, hbuf, hout, -⟩ := downlink_refines hmode ops
    constructor
    · exact playedInOrder_run hmode ops
    · intro env json lost hlost
      obtain ⟨hlost, hempty⟩ := peerEntry_discarded hlost
      refine ⟨hlost, hempty, fun later => playedInOrder_run ?_ later⟩
      exact (handlePeerJson_spec env _ json).1.injectMode.trans (hsame.injectMode.trans hmode)
    · intro ops' hdemand
      obtain ⟨-, hbuf', hout', -⟩ := downlink_refines hmode ops'
      obtain ⟨hrun, houts⟩ := Stream.same_of_demand_eq tech.session.playout.capacity hdemand
        tech.buffered
      constructor
      · rw [hout, hout']
        exact congrArg rtwMulawToPcm16 houts
      · rw [hbuf, hbuf']
        exact hrun
    · exact (doesAsAsked_iff hmode ops).mpr hfits
    · intro ops' hfits' hdemand
      exact (doesAsAsked hmode hfits).sameResult (doesAsAsked hmode hfits') hdemand

/-- Four bytes, of which one is played before a clear, a message that does not fit, and
two bytes more. -/
def talk : List DownlinkOp :=
  [.handlePeerJson .calm (mediaText "AQIDBA=="), .applyWriteFrame .calm [7],
    .handlePeerJson .calm clearEvent, .handlePeerJson .calm (mediaText "CQkJCQkJ"),
    .handlePeerJson .calm (mediaText "BQY="), .onWritePcm16 .calm 3]

/-- A bridge in replace mode with five bytes of playout buffer. -/
def smallTech : Tech :=
  openTech .calm (.copy _ demoSid) (.copy _ demoSid) 8000 1 (.boot 64 5 demoSid)

theorem downlink_faithful_talk : DownlinkFaithful smallTech talk :=
  (downlink_faithful_iff rfl talk).mpr (by decide +kernel)

example : downlink.outputs smallTech talk = rtwMulawToPcm16 [1, 5, 6] := by decide +kernel

/-- A bridge in replace mode with `n` bytes of agent audio. -/
def talkingTech (n : ℕ) : Tech :=
  let tech := openTech .calm (.copy _ demoSid) (.copy _ demoSid) 8000 1 (.boot 64 2048 demoSid)
  { tech with session := { tech.session with
      playout := (rtwPlayoutWrite tech.session.playout (.replicate n 255)).2 } }

theorem talkingTech_buffered {n : ℕ} (h : n ≤ 2048) :
    (talkingTech n).buffered = .replicate n 255 := by
  have hfst := write_fst (Session.boot 64 2048 demoSid).playout (.replicate n 255)
  rw [List.length_replicate, if_pos ((Nat.zero_add n).symm ▸ h)] at hfst
  exact (write_accepted _ hfst).1

theorem length_outputs_talkingTech {n : ℕ} (h : n ≤ 2048) (ops : List DownlinkOp) :
    (downlink.outputs (talkingTech n) ops).length =
      ((Stream.machine 2048).outputs (.replicate n 255) (requests (talkingTech n) ops)).length := by
  have hcap : (talkingTech n).session.playout.capacity = 2048 := capacity_write _ _
  have hout := (@downlink_refines (talkingTech n) rfl ops).2.2.1
  rw [streamOf, hcap, talkingTech_buffered h] at hout
  rw [hout, rtwMulawToPcm16, List.length_map]

/-- 1280 samples asked for as one frame are not played as two frames of 640 are: the one frame
takes 640 of them. -/
theorem one_frame_plays_less :
    let whole := [DownlinkOp.onWritePcm16 .calm 1280]
    let halves := [DownlinkOp.onWritePcm16 .calm 640, .onWritePcm16 .calm 640]
    Stream.demand (asks (talkingTech 1280) whole) =
        Stream.demand (asks (talkingTech 1280) halves) ∧
      (downlink.outputs (talkingTech 1280) whole).length = 640 ∧
      (downlink.outputs (talkingTech 1280) halves).length = 1280 ∧
      ¬ DownlinkFaithful (talkingTech 1280) whole := by
  intro whole halves
  have hwhole : (downlink.outputs (talkingTech 1280) whole).length = 640 := by
    have hreq : ∀ n, requests (talkingTech n) whole = [.take 640] := fun _ => rfl
    rw [length_outputs_talkingTech (by decide), hreq]
    simp only [Stream.machine, Machine.outputs_cons, Machine.outputs_nil, List.append_nil,
      List.length_take, List.length_replicate]
    decide
  have hhalves : (downlink.outputs (talkingTech 1280) halves).length = 1280 := by
    have hreq : ∀ n, requests (talkingTech n) halves = [.take 640, .take 640] := fun _ => rfl
    rw [length_outputs_talkingTech (by decide), hreq]
    simp only [Stream.machine, Machine.outputs_cons, Machine.outputs_nil, List.append_nil,
      List.length_append, List.length_take, List.length_drop, List.length_replicate]
    decide
  have hdemand : ∀ n, Stream.demand (asks (talkingTech n) whole) =
      Stream.demand (asks (talkingTech n) halves) := fun _ => rfl
  refine ⟨hdemand 1280, hwhole, hhalves, fun h => ?_⟩
  have hfits : downlink.Along ReadFits (talkingTech 1280) halves :=
    ⟨Or.inr (Or.inr (Or.inl le_rfl)), Or.inr (Or.inr (Or.inl le_rfl)), trivial⟩
  have hsame := congrArg List.length (h.split halves hfits (hdemand 1280)).1
  rw [hwhole, hhalves] at hsame
  exact absurd hsame (by decide)

end RealtimeWs.Mod
