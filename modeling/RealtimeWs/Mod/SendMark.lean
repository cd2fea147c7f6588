import RealtimeWs.Mod.LocalText

/-! The result of `rtw_bridge_send_mark` against what became of the mark. The call does not
look at what the session returns, so it reports success for marks that were not stored. -/
namespace RealtimeWs.Mod

open RealtimeWs.Core

/-- The call returns before it touches the session. -/
def Refused (io : Io) (tech : Tech) (name : CStr) : Prop :=
  tech.cleanupStarted = true ∨ validMarkName name = false ∨ io.locked = false

instance (io : Io) (tech : Tech) (name : CStr) : Decidable (Refused io tech name) :=
  inferInstanceAs (Decidable (_ ∨ _ ∨ _))

/-- The session between the two calls the section makes: the text is handled, the queue not
yet flushed. -/
def markHandled (io : Io) (tech : Tech) (name : CStr) : Session :=
  if Refused io tech name then tech.session
  else (rtwSessionHandlePeerJson (io.env 0) tech.session (markMessage tech name)).2

/-- A mark of exactly that name was put at the end of the table. -/
def MarkAppended (io : Io) (tech : Tech) (name : CStr) : Prop :=
  ∃ m : Mark, m.name.toCStr = name ∧
    (markHandled io tech name).playout.marks = tech.session.playout.marks ++ [m]

/-- Success says that the mark was stored, failure that nothing happened. -/
structure SendMarkTrue (io : Io) (tech : Tech) (name : CStr) : Prop where
  success : (rtwBridgeSendMark io tech name).1 = true ↔ MarkAppended io tech name
  failure : (rtwBridgeSendMark io tech name).1 = false →
    (rtwBridgeSendMark io tech name).2.session = tech.session

/-- The session can take one more mark. -/
def TakesMark (io : Io) (tech : Tech) : Prop :=
  tech.session.state = .running ∧ (io.env 0).buffer = true ∧
    tech.session.playout.marks.length < RTW_MARK_MAX

instance (io : Io) (tech : Tech) : Decidable (TakesMark io tech) :=
  inferInstanceAs (Decidable (_ ∧ _ ∧ _))

variable {uuid : Option CStr} {io : Io} {tech : Tech} {name : CStr}

/-- The section, with the session it flushes. -/
theorem rtwBridgeSendMark_eq (io : Io) (tech : Tech) (name : CStr) :
    rtwBridgeSendMark io tech name =
      if Refused io tech name then (false, tech)
      else (true, flushOutbound io.tail { tech with session := markHandled io tech name }) := by
  unfold rtwBridgeSendMark
  by_cases hearly : tech.cleanupStarted = true ∨ validMarkName name = false
  · have hrefused : Refused io tech name := hearly.imp_right Or.inl
    rw [if_pos hearly, if_pos hrefused]
  · rw [if_neg hearly]
    obtain ⟨hcleanup, hvalid⟩ := not_or.mp hearly
    by_cases hlock : io.locked = false
    · have hrefused : Refused io tech name := Or.inr (Or.inr hlock)
      rw [if_pos hlock, if_pos hrefused]
    · have hgoes : ¬ Refused io tech name := by
        unfold Refused
        tauto
      rw [if_neg hlock, if_neg hgoes, markHandled, if_neg hgoes]
      rfl

/-- The text reaches the switch on its type. -/
theorem inboundFor_markMessage (hnamed : Named (startSid uuid) tech)
    (hvalid : validMarkName name = true) {env : Env}
    (hlive : tech.session.state = .running ∧ env.buffer = true) :
    tech.session.inboundFor env (markMessage tech name) = some { InboundEvent.zero with
      type := .mark
      streamSid := tech.session.streamSid
      markName := .copy _ name } := by
  have hparse := rtwParseInbound_markMessage hnamed hvalid PAYLOAD_CAP
  unfold Session.inboundFor
  rw [if_pos hlive, hparse]
  apply Option.filter_some_pos
  exact decide_eq_true (Or.inr rfl)

/-- What the session does with the text of a valid name. -/
theorem handlePeerJson_markMessage (hnamed : Named (startSid uuid) tech)
    (hvalid : validMarkName name = true) (env : Env) :
    (rtwSessionHandlePeerJson env tech.session (markMessage tech name)).2 =
      if tech.session.state = .running ∧ env.buffer = true then
        { tech.session with playout := (rtwPlayoutAddMark tech.session.playout name).2 }
      else tech.session := by
  have hname : (CBuf.copy RTW_MARK_NAME_MAX name).toCStr = name :=
    copy_toCStr_of_length (validMarkName_length hvalid)
  by_cases hlive : tech.session.state = .running ∧ env.buffer = true
  · rw [if_pos hlive, handlePeerJson_of_event (inboundFor_markMessage hnamed hvalid hlive),
      handleEvent]
    dsimp only
    rw [hname]
  · have hnone : tech.session.inboundFor env (markMessage tech name) = none := if_neg hlive
    rw [if_neg hlive, (handlePeerJson_of_none hnone).2]

/-- The mark is stored exactly if the session takes it. -/
theorem markAppended_iff (hnamed : Named (startSid uuid) tech)
    (hgoes : ¬ Refused io tech name) : MarkAppended io tech name ↔ TakesMark io tech := by
  have hvalid : validMarkName name = true := by
    unfold Refused at hgoes
    simpa using (not_or.mp (not_or.mp hgoes).2).1
  have hsame : ∀ m : Mark, tech.session.playout.marks ≠ tech.session.playout.marks ++ [m] := by
    intro m h
    have hlen := congrArg List.length h
    rw [List.length_append, List.length_singleton] at hlen
    omega
  unfold MarkAppended TakesMark
  rw [markHandled, if_neg hgoes, handlePeerJson_markMessage hnamed hvalid]
  by_cases hlive : tech.session.state = .running ∧ (io.env 0).buffer = true
  · rw [if_pos hlive]
    dsimp only
    by_cases hroom : tech.session.playout.marks.length < RTW_MARK_MAX
    · have hadd : (rtwPlayoutAddMark tech.session.playout name).2.marks =
          tech.session.playout.marks ++
            [⟨CBuf.copy RTW_MARK_NAME_LEN name, tech.session.playout.size⟩] := by
        unfold rtwPlayoutAddMark
        rw [dif_neg (Nat.not_le.mpr hroom)]
      rw [hadd]
      refine ⟨fun _ => ⟨hlive.1, hlive.2, hroom⟩, fun _ => ⟨_, ?_, rfl⟩⟩
      exact copy_toCStr_of_length (validMarkName_length hvalid)
    · have hadd : (rtwPlayoutAddMark tech.session.playout name).2 = tech.session.playout := by
        unfold rtwPlayoutAddMark
        rw [dif_pos (Nat.not_lt.mp hroom)]
      rw [hadd]
      constructor
      · rintro ⟨m, -, hm⟩
        exact absurd hm (hsame m)
      · rintro ⟨-, -, h⟩
        exact absurd h hroom
  · rw [if_neg hlive]
    constructor
    · rintro ⟨m, -, hm⟩
      exact absurd hm (hsame m)
    · rintro ⟨hrun, hbuf, -⟩
      exact absurd ⟨hrun, hbuf⟩ hlive

theorem sendMarkTrue_iff (hnamed : Named (startSid uuid) tech) :
    SendMarkTrue io tech name ↔ Refused io tech name ∨ TakesMark io tech := by
  by_cases hrefused : Refused io tech name
  · have hcall : rtwBridgeSendMark io tech name = (false, tech) := by
      rw [rtwBridgeSendMark_eq, if_pos hrefused]
    have hnot : ¬ MarkAppended io tech name := by
      rintro ⟨m, -, hm⟩
      rw [markHandled, if_pos hrefused] at hm
      have hlen := congrArg List.length hm
      rw [List.length_append, List.length_singleton] at hlen
      omega
    refine ⟨fun _ => Or.inl hrefused, fun _ => ⟨?_, ?_⟩⟩
    · rw [hcall]
      exact ⟨fun h => absurd h Bool.false_ne_true, fun h => absurd h hnot⟩
    · rw [hcall]
      exact fun _ => rfl
  · have hcall : (rtwBridgeSendMark io tech name).1 = true := by
      rw [rtwBridgeSendMark_eq, if_neg hrefused]
    rw [or_iff_right hrefused, ← markAppended_iff hnamed hrefused]
    constructor
    · intro h
      exact h.success.mp hcall
    · intro h
      refine ⟨⟨fun _ => h, fun _ => hcall⟩, fun hfalse => ?_⟩
      rw [hcall] at hfalse
      cases hfalse

/-- In every state a bridge reaches, the result of `rtw_bridge_send_mark` tells what became of
the mark exactly if the call is refused or the session can take the mark. -/
theorem send_mark_true_iff {printNumber : List UInt8 → List UInt8} {startIo : StartIo}
    {uuid metadata : Option CStr} {sampling channels : ℤ} {tech₀ : Tech}
    (h : rtwBridgeStart printNumber startIo uuid sampling channels metadata = some tech₀)
    (es : List WorldEvent) (io : Io) (name : CStr) :
    SendMarkTrue io (world.run ⟨tech₀, .loop⟩ es).tech name ↔
      Refused io (world.run ⟨tech₀, .loop⟩ es).tech name ∨
        TakesMark io (world.run ⟨tech₀, .loop⟩ es).tech := by
  have hnamed := (rtwBridgeStart_named h).run es (w := ⟨tech₀, .loop⟩)
  exact sendMarkTrue_iff hnamed

/-- The first mark of a call is reported as it is. -/
theorem send_mark_true_first : SendMarkTrue .calm demoTech (.lit "m") := by
  have htakes : TakesMark .calm demoTech := by decide +kernel
  exact (send_mark_true_iff demoTech_starts [] .calm (.lit "m")).mpr (Or.inr htakes)

/-- Marks set while the socket is down, which nothing takes out of the table. -/
def markRun (n : ℕ) : List WorldEvent :=
  .wsClose :: .replicate n (.sendMark .calm (.lit "m"))

/-- The socket is down and `n` marks wait. -/
structure DownWith (n : ℕ) (w : World) : Prop where
  pc : w.pc = .loop
  cleanup : w.tech.cleanupStarted = false
  ready : w.tech.wsReady = false
  state : w.tech.session.state = .running
  marks : w.tech.session.playout.marks.length = n
  named : Named (startSid (some (.lit "0"))) w.tech

theorem run_markRun {n : ℕ} (h : n ≤ RTW_MARK_MAX) :
    DownWith n (world.run ⟨demoTech, .loop⟩ (markRun n)) := by
  induction n with
  | zero =>
    have hnamed : Named (startSid (some (.lit "0"))) (world.run ⟨demoTech, .loop⟩ (markRun 0)).tech :=
      (rtwBridgeStart_named demoTech_starts).run (markRun 0) (w := ⟨demoTech, .loop⟩)
    refine ⟨?_, ?_, ?_, ?_, ?_, hnamed⟩ <;> decide +kernel
  | succ n ih =>
    have hold := ih (Nat.le_of_succ_le h)
    have hsnoc : markRun (n + 1) = markRun n ++ [.sendMark .calm (.lit "m")] := by
      rw [markRun, List.replicate_succ', markRun, List.cons_append]
    rw [hsnoc, world.run_snoc]
    generalize world.run ⟨demoTech, .loop⟩ (markRun n) = w at hold
    have hvalid : validMarkName (.lit "m") = true := by decide
    have hgoes : ¬ Refused .calm w.tech (.lit "m") := by
      rintro (hr | hr | hr)
      · rw [hold.cleanup] at hr
        cases hr
      · rw [hvalid] at hr
        cases hr
      · cases hr
    obtain ⟨m, -, hm⟩ := (markAppended_iff hold.named hgoes).mpr
      ⟨hold.state, rfl, by rw [hold.marks]; omega⟩
    have hstate : (markHandled .calm w.tech (.lit "m")).state = .running := by
      rw [markHandled, if_neg hgoes, handlePeerJson_markMessage hold.named hvalid]
      split <;> exact hold.state
    have hstep : world.step w (.sendMark .calm (.lit "m")) =
        { w with tech := { w.tech with session := markHandled .calm w.tech (.lit "m") } } := by
      have hcall : (rtwBridgeSendMark .calm w.tech (.lit "m")).2 =
          { w.tech with session := markHandled .calm w.tech (.lit "m") } := by
        rw [rtwBridgeSendMark_eq, if_neg hgoes]
        exact flushOutbound_off (Or.inr hold.ready)
      change (if w.pc = .freed then w else
        { w with tech := (rtwBridgeSendMark .calm w.tech (.lit "m")).2 }) = _
      rw [hold.pc, if_neg (by decide), hcall]
    have hnamed : Named (startSid (some (.lit "0")))
        (world.step w (.sendMark .calm (.lit "m"))).tech := Named.step hold.named _
    rw [hstep] at hnamed ⊢
    refine ⟨hold.pc, hold.cleanup, hold.ready, hstate, ?_, hnamed⟩
    dsimp only
    rw [hm, List.length_append, hold.marks, List.length_singleton]

/-- With a full table of marks the call succeeds and stores nothing. -/
theorem mark_lost_with_success :
    let tech := (world.run ⟨demoTech, .loop⟩ (markRun RTW_MARK_MAX)).tech
    rtwBridgeStart id .calm (some (.lit "0")) 8000 1 none = some demoTech ∧
      (rtwBridgeSendMark .calm tech (.lit "x")).1 = true ∧
        ¬ MarkAppended .calm tech (.lit "x") ∧ ¬ SendMarkTrue .calm tech (.lit "x") := by
  intro tech
  have hfull : DownWith RTW_MARK_MAX (world.run ⟨demoTech, .loop⟩ (markRun RTW_MARK_MAX)) :=
    run_markRun (Nat.le_refl _)
  have hgoes : ¬ Refused .calm tech (.lit "x") := by
    rintro (hr | hr | hr)
    · exact Bool.false_ne_true (hfull.cleanup.symm.trans hr)
    · exact absurd hr (by decide)
    · cases hr
  have hcall : (rtwBridgeSendMark .calm tech (.lit "x")).1 = true := by
    rw [rtwBridgeSendMark_eq, if_neg hgoes]
  have hnot : ¬ MarkAppended .calm tech (.lit "x") := by
    rw [markAppended_iff hfull.named hgoes]
    rintro ⟨-, -, hroom⟩
    exact Nat.ne_of_lt hroom hfull.marks
  exact ⟨demoTech_starts, hcall, hnot, fun h => hnot (h.success.mp hcall)⟩

end RealtimeWs.Mod
