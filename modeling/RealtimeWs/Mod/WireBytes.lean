import RealtimeWs.Mod.Handles

/-! The bytes on each connection: whole frames, and at most one that was cut, as long as
no connection is declared ready again after a cut. -/
namespace RealtimeWs.Mod

open RealtimeWs.Core

/-! ### Streams of frames -/

/-- A frame that `rtw_ws_send_text` builds. -/
def SentFrame (f : List UInt8) : Prop :=
  ∃ key text, text.length < 65536 ∧ f = wireFrame 0x81 (some key) text

/-- Complete frames, then a proper prefix of one, which may be empty. -/
def FrameAligned (bs : List UInt8) : Prop :=
  ∃ (frames : List (List UInt8)) (tail f : List UInt8), bs = frames.flatten ++ tail ∧
    (∀ g ∈ frames, SentFrame g) ∧ SentFrame f ∧ tail <+: f ∧ tail ≠ f

theorem Write.Sound.whole {w : Write} (h : w.Sound) (hcut : ¬ w.cut) :
    w.bytes = [] ∨ SentFrame w.bytes := by
  rcases h.2 with hnil | hlen
  · exact Or.inl hnil
  · by_cases hnil : w.bytes = []
    · exact Or.inl hnil
    · have hframe : w.bytes = w.frame := by
        by_contra hne
        exact hcut ⟨hnil, hne⟩
      exact Or.inr ⟨w.key, w.text, hlen, hframe⟩

/-- Sends that were not cut leave whole frames. -/
theorem whole_frames {ws : List Write} (h : ∀ w ∈ ws, w.Sound ∧ ¬ w.cut) :
    ∃ frames : List (List UInt8), ws.flatMap Write.bytes = frames.flatten ∧
      ∀ g ∈ frames, SentFrame g := by
  induction ws with
  | nil => exact ⟨[], rfl, by intro g hg; cases hg⟩
  | cons w ws ih =>
    rw [List.forall_mem_cons] at h
    obtain ⟨frames, hbytes, hframes⟩ := ih h.2
    rw [List.flatMap_cons, hbytes]
    rcases h.1.1.whole h.1.2 with hnil | hsent
    · rw [hnil]
      exact ⟨frames, rfl, hframes⟩
    · refine ⟨w.bytes :: frames, rfl, ?_⟩
      rw [List.forall_mem_cons]
      exact ⟨hsent, hframes⟩

theorem sentFrame_empty : SentFrame (wireFrame 0x81 (some fun _ => 0) []) :=
  ⟨fun _ => 0, [], by decide, rfl⟩

/-- Of the sends on a connection only the last one was cut. -/
theorem frameAligned_of_sends {ws : List Write} (hsound : ∀ w ∈ ws, w.Sound)
    (hcut : ∀ w ∈ ws.dropLast, ¬ w.cut) : FrameAligned (ws.flatMap Write.bytes) := by
  rcases List.eq_nil_or_concat ws with rfl | ⟨init, w, rfl⟩
  · refine ⟨[], [], _, rfl, ?_, sentFrame_empty, List.nil_prefix, ?_⟩
    · intro g hg
      cases hg
    · decide
  · rw [List.concat_eq_append] at hsound hcut ⊢
    rw [List.dropLast_concat] at hcut
    have hinit : ∀ v ∈ init, v.Sound ∧ ¬ v.cut := by
      intro v hv
      exact ⟨hsound v (List.mem_append_left _ hv), hcut v hv⟩
    obtain ⟨frames, hbytes, hframes⟩ := whole_frames hinit
    have hw := hsound w (List.mem_append_right _ (List.mem_singleton_self w))
    rw [List.flatMap_append, hbytes, List.flatMap_singleton]
    by_cases hwhole : w.cut
    · -- the last frame was cut
      have hlen : w.text.length < 65536 := hw.2.resolve_left hwhole.1
      exact ⟨frames, w.bytes, w.frame, rfl, hframes, ⟨w.key, w.text, hlen, rfl⟩, hw.1, hwhole.2⟩
    · rcases hw.whole hwhole with hnil | hsent
      · refine ⟨frames, [], _, by rw [hnil], hframes, sentFrame_empty, List.nil_prefix, ?_⟩
        decide
      · refine ⟨frames ++ [w.bytes], [], _, ?_, ?_, sentFrame_empty, List.nil_prefix, ?_⟩
        · rw [List.flatten_append, List.flatten_singleton, List.append_nil]
        · intro g hg
          rcases List.mem_append.mp hg with hg | hg
          · exact hframes g hg
          · rw [List.mem_singleton.mp hg]
            exact hsent
        · decide

/-! ### The streams of a run -/

variable (printNumber : List UInt8 → List UInt8)

/-- The sends on connection `c`. -/
def Socket.sendsOn (k : Socket) (c : ℕ) : List Write := k.writes.filter (·.connection = c)

/-- The bytes behind the upgrade request on connection `c`. -/
def Socket.bytesOn (k : Socket) (c : ℕ) : List UInt8 := (k.sendsOn c).flatMap Write.bytes

/-- A send on `c` was cut. -/
def Socket.Torn (k : Socket) (c : ℕ) : Prop := ∃ w ∈ k.writes, w.connection = c ∧ w.cut

instance (k : Socket) (c : ℕ) : Decidable (k.Torn c) := inferInstanceAs (Decidable (∃ w ∈ _, _))

/-- The two places that set `ws_ready`. -/
def Pc.raises : Pc → Bool
  | .setReady | .stopReady => true
  | _ => false

/-- Behind a send that failed, about to clear `ws_ready`. -/
def Pc.failing : Pc → Bool
  | .flush _ .failed => true
  | _ => false

/-- A connection is declared ready only when no send on it was cut. -/
def RaisesWhole (s : BridgeState) (e : Thread × StepIo) : Prop :=
  (s.pc e.1).raises = true → ∀ c ∈ s.shared.socket.ws, ¬ s.shared.socket.Torn c

instance (s : BridgeState) (e : Thread × StepIo) : Decidable (RaisesWhole s e) :=
  inferInstanceAs (Decidable (_ → ∀ c ∈ s.shared.socket.ws, _))

structure Whole (s : BridgeState) : Prop where
  ordinary : Ordinary s
  sound : ∀ w ∈ s.shared.socket.writes, w.Sound
  aligned : ∀ c, ∀ w ∈ (s.shared.socket.sendsOn c).dropLast, ¬ w.cut
  looping : ∀ t, (s.pc t).inLoop = true → ∀ c, s.shared.socket.ws = some c →
    ¬ s.shared.socket.Torn c
  sending : ∀ t, (s.pc t).inLoop = true → ∀ c, (s.pc t).holds? = some c →
    ¬ s.shared.socket.Torn c
  ready : s.shared.socket.ready = true → ∀ c, s.shared.socket.ws = some c →
    s.shared.socket.Torn c → ∃ t, (s.pc t).failing = true

/-- A step appends at most one send, on the client its thread holds in the loop. -/
theorem SocketStep.writes_cases {pc pc' : Pc} {k k' : Socket} (h : SocketStep pc k pc' k') :
    k'.writes = k.writes ∨ ∃ w, k'.writes = k.writes ++ [w] ∧ w.Sound ∧ pc.inLoop = true ∧
      pc.holds? = some w.connection := by
  cases h with
  | sent _ c _ w _ hc hw | failed _ c _ w _ hc hw =>
    exact Or.inr ⟨w, rfl, hw, rfl, congrArg some hc.symm⟩
  | _ => exact Or.inl rfl

/-- A step tears a connection only by a send on it that fails. -/
theorem SocketStep.torn {pc pc' : Pc} {k k' : Socket} (h : SocketStep pc k pc' k') {c : ℕ}
    (hc : k'.Torn c) : k.Torn c ∨ (pc'.failing = true ∧ pc.holds? = some c) := by
  obtain ⟨w, hw, hwc, hcut⟩ := hc
  cases h with
  | sent site d json v _ hd hv hwhole =>
    rcases List.mem_append.mp hw with hw | hw
    · exact Or.inl ⟨w, hw, hwc, hcut⟩
    · rw [List.mem_singleton.mp hw] at hcut
      exact absurd hcut hwhole
  | failed site d json v _ hd hv =>
    rcases List.mem_append.mp hw with hw | hw
    · exact Or.inl ⟨w, hw, hwc, hcut⟩
    · rw [List.mem_singleton.mp hw, hd] at hwc
      exact Or.inr ⟨rfl, congrArg some hwc⟩
  | _ => exact Or.inl ⟨w, hw, hwc, hcut⟩

theorem failing_inLoop {pc : Pc} (h : pc.failing = true) :
    pc.inLoop = false ∧ pc.inSection = true := by
  cases pc with
  | flush site f =>
    cases f with
    | failed => exact ⟨rfl, rfl⟩
    | _ => cases h
  | _ => cases h

theorem Unused.not_torn {s : BridgeState} {c : ℕ} (h : Unused s c) :
    ¬ s.shared.socket.Torn c := by
  rintro ⟨w, hw, hwc, -⟩
  exact h.written w hw hwc

theorem SocketStep.stored {pc pc' : Pc} {k k' : Socket} (h : SocketStep pc k pc' k') {c : ℕ}
    (hws : k'.ws = some c) : k.ws = some c ∨ pc.publishes? = some c := by
  cases h with
  | clear => cases hws
  | publish d => exact Or.inr hws
  | _ => exact Or.inl hws

theorem SocketStep.raised {pc pc' : Pc} {k k' : Socket} (h : SocketStep pc k pc' k')
    (hready : k'.ready = true) : k.ready = true ∨ pc.raises = true := by
  cases h with
  | down => cases hready
  | setReady | stopReady => exact Or.inr rfl
  | _ => exact Or.inl hready

/-- A thread whose send failed clears `ws_ready`, unless it may not run. -/
theorem failing_step (t : Thread) (io : StepIo) (g : Shared) {pc : Pc} (h : pc.failing = true) :
    (threads printNumber).step t io pc g = (pc, g) ∨
      ((threads printNumber).step t io pc g).2.socket.ready = false := by
  simp only [threads]
  split
  · exact Or.inl rfl
  · refine Or.inr ?_
    cases pc with
    | flush site f =>
      cases f with
      | failed => rfl
      | _ => cases h
    | _ => cases h

section
variable {s : BridgeState} {t : Thread} {io : StepIo}
  (hspec : StepSpec t s.shared (s.pc t) ((threads printNumber).step t io (s.pc t) s.shared))
include hspec

/-- A thread that comes to be in the loop finds its clients whole. -/
theorem Whole.entering (h : Whole s)
    (hin : (((bridge printNumber).step s (t, io)).pc t).inLoop = true) {c : ℕ}
    (hc : s.shared.socket.ws = some c ∨ (s.pc t).holds? = some c) : ¬ s.shared.socket.Torn c := by
  rw [Threads.pc_self] at hin
  rcases hspec.inLoop hin with hold | ⟨⟨site, hpc⟩, hready⟩
  · rcases hc with hws | hheld
    · exact h.looping t hold c hws
    · exact h.sending t hold c hheld
  · have hws : s.shared.socket.ws = some c := by
      refine hc.resolve_right fun hheld => ?_
      rw [hpc] at hheld
      cases hheld
    intro htorn
    obtain ⟨v, hv⟩ := h.ready hready c hws htorn
    have hsection : (s.pc t).inSection = true := by
      rw [hpc]
      rfl
    have hvt : v = t := h.ordinary.exclusive.unique (failing_inLoop hv).2 hsection
    rw [hvt, hpc] at hv
    cases hv

/-- What was torn before the step, or nobody is in the loop after it. -/
theorem Whole.torn_before (h : Whole s) {u : Thread}
    (hu : (((bridge printNumber).step s (t, io)).pc u).inLoop = true) {c : ℕ}
    (hc : ((bridge printNumber).step s (t, io)).shared.socket.Torn c) :
    s.shared.socket.Torn c := by
  rcases hspec.socket.torn hc with hold | ⟨hfail, -⟩
  · exact hold
  · have hafter := h.ordinary.step printNumber t io
    have hpc : (((bridge printNumber).step s (t, io)).pc t).failing = true := by
      rw [Threads.pc_self]
      exact hfail
    have hut : u = t := hafter.exclusive.unique (inLoop_inSection hu) (failing_inLoop hpc).2
    rw [hut, (failing_inLoop hpc).1] at hu
    cases hu

theorem Whole.looping_step (h : Whole s) {u : Thread}
    (hu : (((bridge printNumber).step s (t, io)).pc u).inLoop = true) {c : ℕ}
    (hws : ((bridge printNumber).step s (t, io)).shared.socket.ws = some c) :
    ¬ ((bridge printNumber).step s (t, io)).shared.socket.Torn c := by
  intro hc
  have hold := h.torn_before printNumber hspec hu hc
  rcases hspec.socket.stored hws with hbefore | hpub
  · by_cases hut : u = t
    · subst hut
      exact h.entering printNumber hspec hu (Or.inl hbefore) hold
    · rw [Threads.pc_other hut] at hu
      exact h.looping u hu c hbefore hold
  · exact (h.ordinary.published t c hpub).1.not_torn hold

theorem Whole.sending_step (h : Whole s) {u : Thread}
    (hu : (((bridge printNumber).step s (t, io)).pc u).inLoop = true) {c : ℕ}
    (hheld : (((bridge printNumber).step s (t, io)).pc u).holds? = some c) :
    ¬ ((bridge printNumber).step s (t, io)).shared.socket.Torn c := by
  intro hc
  have hold := h.torn_before printNumber hspec hu hc
  by_cases hut : u = t
  · subst hut
    rw [Threads.pc_self] at hheld
    exact h.entering printNumber hspec hu (hspec.holds c hheld).symm hold
  · rw [Threads.pc_other hut] at hu hheld
    exact h.sending u hu c hheld hold

theorem Whole.aligned_step (h : Whole s) {c : ℕ} :
    ∀ w ∈ (((bridge printNumber).step s (t, io)).shared.socket.sendsOn c).dropLast, ¬ w.cut := by
  rw [Socket.sendsOn, Threads.shared_step]
  rcases hspec.socket.writes_cases with hsame | ⟨v, hmore, -, hin, hheld⟩
  · rw [hsame]
    exact h.aligned c
  · rw [hmore, List.filter_append]
    by_cases hvc : v.connection = c
    · -- one more send, after sends that were not cut
      rw [List.filter_singleton, decide_eq_true hvc, cond_true, List.dropLast_concat]
      intro w hw hcut
      obtain ⟨hw, hwc⟩ := List.mem_filter.mp hw
      rw [hvc] at hheld
      exact h.sending t hin c hheld ⟨w, hw, by simpa using hwc, hcut⟩
    · rw [List.filter_singleton, decide_eq_false hvc, cond_false, List.append_nil]
      exact h.aligned c

theorem Whole.sound_step (h : Whole s) :
    ∀ w ∈ ((bridge printNumber).step s (t, io)).shared.socket.writes, w.Sound := by
  rw [Threads.shared_step]
  rcases hspec.socket.writes_cases with hsame | ⟨v, hmore, hv, -⟩
  · rw [hsame]
    exact h.sound
  · rw [hmore]
    intro w hw
    rcases List.mem_append.mp hw with hw | hw
    · exact h.sound w hw
    · rw [List.mem_singleton.mp hw]
      exact hv

/-- A torn connection can only look ready until the thread that tore it has said so. -/
theorem Whole.ready_step (h : Whole s) (hguard : RaisesWhole s (t, io))
    (hready : ((bridge printNumber).step s (t, io)).shared.socket.ready = true) {c : ℕ}
    (hws : ((bridge printNumber).step s (t, io)).shared.socket.ws = some c)
    (hc : ((bridge printNumber).step s (t, io)).shared.socket.Torn c) :
    ∃ u, (((bridge printNumber).step s (t, io)).pc u).failing = true := by
  rcases hspec.socket.torn hc with hold | ⟨hfail, -⟩
  · rcases hspec.socket.stored hws with hbefore | hpub
    · rcases hspec.socket.raised hready with hr | hraises
      · obtain ⟨u, hu⟩ := h.ready hr c hbefore hold
        by_cases hut : u = t
        · -- the thread that failed clears the flag
          subst hut
          rcases failing_step printNumber u io s.shared hu with hstay | hdown
          · refine ⟨u, ?_⟩
            rw [Threads.step_eq_self hstay]
            exact hu
          · rw [Threads.shared_step] at hready
            cases hdown.symm.trans hready
        · refine ⟨u, ?_⟩
          rw [Threads.pc_other hut]
          exact hu
      · exact absurd hold (hguard hraises c hbefore)
    · exact absurd hold (h.ordinary.published t c hpub).1.not_torn
  · refine ⟨t, ?_⟩
    rw [Threads.pc_self]
    exact hfail

end

theorem Whole.step {s : BridgeState} (h : Whole s) {e : Thread × StepIo}
    (hguard : RaisesWhole s e) : Whole ((bridge printNumber).step s e) := by
  obtain ⟨t, io⟩ := e
  rcases threads_step printNumber t io (s.pc t) s.shared with hstay | ⟨-, hspec⟩
  · rw [Threads.step_eq_self hstay]
    exact h
  constructor
  · exact h.ordinary.step printNumber t io
  · exact h.sound_step printNumber hspec
  · intro c
    exact h.aligned_step printNumber hspec
  · intro u hu c
    exact h.looping_step printNumber hspec hu
  · intro u hu c
    exact h.sending_step printNumber hspec hu
  · intro hready c
    exact h.ready_step printNumber hspec hguard hready

theorem Opened.whole {tech : Tech} (h : Opened tech) : Whole (startState tech) := by
  have hnone : ∀ c, ¬ (startState tech).shared.socket.Torn c := by
    rintro c ⟨w, hw, -⟩
    cases hw
  constructor
  · exact h.ordinary
  · intro w hw
    cases hw
  · intro c w hw
    cases hw
  · intro t _ c _
    exact hnone c
  · intro t _ c _
    exact hnone c
  · intro _ c _ hc
    exact absurd hc (hnone c)

/-- In every interleaving that never declares a torn connection ready, the bytes on each
connection are whole frames and at most one that was cut, behind which nothing was sent. -/
theorem frame_aligned {tech : Tech} (h : Opened tech) {es : List (Thread × StepIo)}
    (hguard : (bridge printNumber).Along RaisesWhole (startState tech) es) (c : ℕ) :
    FrameAligned (((bridge printNumber).run (startState tech) es).shared.socket.bytesOn c) ∧
      ∀ w ∈ (((bridge printNumber).run (startState tech) es).shared.socket.sendsOn c).dropLast,
        ¬ w.cut := by
  have hwhole : Whole ((bridge printNumber).run (startState tech) es) :=
    (bridge printNumber).invariant (fun _ _ hg hs => hs.step printNumber hg) h.whole hguard
  refine ⟨frameAligned_of_sends ?_ (hwhole.aligned c), hwhole.aligned c⟩
  intro w hw
  exact hwhole.sound w (List.mem_filter.mp hw).1

/-! ### A stream that is not aligned -/

theorem sentFrame_cons {f : List UInt8} (h : SentFrame f) :
    ∃ b rest, f = 0x81 :: b :: rest ∧ (b = 0x81 → f.length = 7) := by
  obtain ⟨key, text, -, rfl⟩ := h
  have hbody : (wireBody (some key) text).length = 4 + text.length := by
    rw [wireBody, List.length_append, length_xorMask]
    rfl
  by_cases hlen : text.length < 126
  · have hheader : wireHeader 0x81 true text.length = [0x81, 0x80 ||| UInt8.ofNat text.length] :=
      if_pos hlen
    refine ⟨0x80 ||| UInt8.ofNat text.length, wireBody (some key) text, ?_, ?_⟩
    · rw [wireFrame, Option.isSome_some, hheader]
      rfl
    · intro hb
      have hbits := (length_bits true text.length (by omega)).2
      rw [if_pos rfl, hb] at hbits
      have hone : 1 = text.length := hbits
      rw [wireFrame, Option.isSome_some, hheader, List.length_append, hbody, ← hone]
      rfl
  · have hheader : wireHeader 0x81 true text.length = [0x81, 0x80 ||| UInt8.ofNat 126,
        UInt8.ofNat (text.length / 256), UInt8.ofNat text.length] := if_neg hlen
    refine ⟨0x80 ||| UInt8.ofNat 126, UInt8.ofNat (text.length / 256) ::
      UInt8.ofNat text.length :: wireBody (some key) text, ?_, ?_⟩
    · rw [wireFrame, Option.isSome_some, hheader]
      rfl
    · intro hb
      exact absurd hb (by decide)

/-- A second byte `0x81` makes a first frame of seven bytes, and a frame begins behind it. -/
theorem FrameAligned.next {bs : List UInt8} (h : FrameAligned bs) (hone : bs[1]? = some 0x81) :
    bs[7]? = none ∨ bs[7]? = some 0x81 := by
  obtain ⟨frames, tail, f, rfl, hframes, hf, hpre, hne⟩ := h
  have htail : tail[0]? = none ∨ tail[0]? = some 0x81 := by
    obtain ⟨b, rest, rfl, -⟩ := sentFrame_cons hf
    cases tail with
    | nil => exact Or.inl rfl
    | cons a tail =>
      rw [List.cons_prefix_cons] at hpre
      rw [hpre.1]
      exact Or.inr rfl
  cases frames with
  | nil =>
    have hlong : tail.length < f.length := by
      refine Nat.lt_of_le_of_ne hpre.length_le fun hlen => ?_
      exact hne (hpre.eq_of_length hlen)
    obtain ⟨b, rest, rfl, hseven⟩ := sentFrame_cons hf
    have hb : b = 0x81 := by
      obtain ⟨more, hmore⟩ := hpre
      have hone : tail[1]? = some 0x81 := hone
      have hsame : (tail ++ more)[1]? = some 0x81 := by
        rw [List.getElem?_append_left (List.getElem?_eq_some_iff.mp hone).1]
        exact hone
      rw [hmore] at hsame
      exact Option.some.inj hsame
    rw [hseven hb] at hlong
    exact Or.inl (List.getElem?_eq_none (show tail.length ≤ 7 from hlong.le))
  | cons g gs =>
    rw [List.forall_mem_cons] at hframes
    obtain ⟨b, rest, rfl, hseven⟩ := sentFrame_cons hframes.1
    have hb : b = 0x81 := Option.some.inj hone
    have hlen := hseven hb
    rw [List.flatten_cons, List.append_assoc, List.getElem?_append_right hlen.le, hlen,
      Nat.sub_self]
    cases gs with
    | nil => exact htail
    | cons g' gs =>
      obtain ⟨b', rest', rfl, -⟩ := sentFrame_cons (hframes.2 g' List.mem_cons_self)
      exact Or.inr rfl

/-- The first send of the bridge stops after one byte, and then the bridge is stopped. The
worker takes `n` steps in between. -/
def cutRun (n : ℕ) : List (Thread × StepIo) :=
  steps 4 .worker ++
    [(.worker, { StepIo.calm with send := ⟨fun _ => 0, true, [.sent 1, .error]⟩ })] ++
      steps n .worker ++ [(.caller 0, { StepIo.calm with call := .stop })] ++ steps 2 (.caller 0) ++
        steps 6 .worker ++ steps 16 (.caller 0)

/-- `rtw_bridge_stop` declares the torn connection ready and sends whole frames on it. -/
theorem frames_after_cut : Opened demoOpen ∧
    ¬ FrameAligned (((bridge id).run (startState demoOpen) (cutRun 2)).shared.socket.bytesOn 0) := by
  refine ⟨demoOpen_opened, fun h => ?_⟩
  generalize hbytes : ((bridge id).run (startState demoOpen) (cutRun 2)).shared.socket.bytesOn 0 =
    bytes at h
  have hsent : bytes[1]? = some 0x81 ∧ ¬ (bytes[7]? = none ∨ bytes[7]? = some 0x81) := by
    rw [← hbytes]
    decide +kernel
  exact hsent.2 (h.next hsent.1)

/-- The worker has time to reconnect before the stop. -/
theorem frame_aligned_reconnected :
    FrameAligned (((bridge id).run (startState demoOpen) (cutRun 40)).shared.socket.bytesOn 0) ∧
      ∀ w ∈ (((bridge id).run (startState demoOpen) (cutRun 40)).shared.socket.sendsOn 0).dropLast,
        ¬ w.cut :=
  frame_aligned id demoOpen_opened (by decide +kernel) 0

end RealtimeWs.Mod
