import RealtimeWs.Core.MessageRound
import RealtimeWs.Core.Outbound

/-! Texts of the peer that a session refuses: every reason for it, and that a refused text
leaves the session as it was. -/
namespace RealtimeWs.Core

/-- The reasons to refuse a text, with the code returned for each. -/
inductive Refused (env : Env) (s : Session) (json : CStr) : ℤ → Prop
  | notRunning (hstate : s.state ≠ .running) : Refused env s json (-1)
  | noBuffer (hbuffer : env.buffer = false) : Refused env s json (-1)
  | unparsed (hparse : rtwParseInbound json PAYLOAD_CAP = none) : Refused env s json (-1)
  | foreign (ev : InboundEvent) (hparse : rtwParseInbound json PAYLOAD_CAP = some ev)
      (hsid : ev.streamSid.bytes ≠ [] ∧ ev.streamSid ≠ s.streamSid) : Refused env s json 1
  | overflow (ev : InboundEvent) (hparse : rtwParseInbound json PAYLOAD_CAP = some ev)
      (htype : ev.type = .media)
      (hfull : s.playout.capacity < s.playout.size + ev.payload.length) : Refused env s json (-2)
  | tableFull (ev : InboundEvent) (hparse : rtwParseInbound json PAYLOAD_CAP = some ev)
      (htype : ev.type = .mark) (hfull : RTW_MARK_MAX ≤ s.playout.marks.length) :
      Refused env s json (-1)

variable {env : Env} {s : Session} {json : CStr}

/-- A text that does not reach the switch on the event type. -/
theorem refused_of_none (h : s.inboundFor env json = none) :
    Refused env s json (rtwSessionHandlePeerJson env s json).1 := by
  unfold Session.inboundFor at h
  unfold rtwSessionHandlePeerJson
  by_cases hstate : s.state = .running
  · by_cases hbuffer : env.buffer = false
    · rw [if_neg (not_not.mpr hstate), if_pos hbuffer]
      exact .noBuffer hbuffer
    · have hbuffer' : env.buffer = true := by simpa using hbuffer
      rw [if_pos ⟨hstate, hbuffer'⟩, Option.filter_eq_none_iff] at h
      rw [if_neg (not_not.mpr hstate), if_neg hbuffer]
      cases hparse : rtwParseInbound json PAYLOAD_CAP with
      | none => exact .unparsed hparse
      | some ev =>
        have hsid : ev.streamSid.bytes ≠ [] ∧ ev.streamSid ≠ s.streamSid := by
          simpa only [decide_eq_true_eq, not_or] using h ev hparse
        simp only [if_pos hsid]
        exact .foreign ev hparse hsid
  · rw [if_pos hstate]
    exact .notRunning hstate

theorem parse_of_inboundFor {ev : InboundEvent} (h : s.inboundFor env json = some ev) :
    rtwParseInbound json PAYLOAD_CAP = some ev := by
  unfold Session.inboundFor at h
  split_ifs at h
  exact (Option.filter_eq_some_iff.mp h).1

/-- A clear whose acknowledgements are all queued is not refused. -/
theorem flushAcks_stored {i : ℕ} {names : List (CBuf RTW_MARK_NAME_LEN)} (s : Session)
    (h : ∀ k < names.length, env.enqueue (i + k) = .stored) : (flushAcks env i names s).1 = 0 := by
  induction names generalizing i s with
  | nil => rfl
  | cons name names ih =>
    have hfirst : env.enqueue i = .stored := h 0 (Nat.succ_pos _)
    have hrest : ∀ k < names.length, env.enqueue (i + 1 + k) = .stored := by
      intro k hk
      rw [Nat.add_assoc, Nat.add_comm 1]
      exact h (k + 1) (Nat.succ_lt_succ hk)
    have hack : (enqueueAck (env.enqueue i) s name).1 = 0 := by
      rw [enqueueAck, enqueueJson_eq, offer_fst, if_pos hfirst]
    rw [flushAcks, if_neg (not_not.mpr hack)]
    exact ih _ hrest

/-- An event addressed to the stream is refused when it does not fit, and then whole. -/
theorem handleEvent_refused {ev : InboundEvent}
    (hparse : rtwParseInbound json PAYLOAD_CAP = some ev)
    (hacks : ∀ i < s.playout.marks.length, env.enqueue i = .stored)
    (h : (handleEvent env s ev).1 ≠ 0) :
    Refused env s json (handleEvent env s ev).1 ∧ (handleEvent env s ev).2 = s := by
  unfold handleEvent at h ⊢
  cases htype : ev.type with
  | media =>
    simp only [htype] at h ⊢
    by_cases hrc : (rtwPlayoutWrite s.playout ev.payload).1 = 0
    · rw [if_neg (not_not.mpr hrc)] at h
      exact absurd rfl h
    · rw [if_pos hrc, write_rejected s.playout hrc]
      rw [write_fst, ite_eq_left_iff, Classical.not_imp] at hrc
      exact ⟨.overflow ev hparse htype (Nat.lt_of_not_le hrc.1), rfl⟩
  | mark =>
    simp only [htype] at h ⊢
    by_cases hrc : (rtwPlayoutAddMark s.playout ev.markName.toCStr).1 = 0
    · rw [if_pos hrc] at h
      exact absurd rfl h
    · rw [if_neg hrc, addMark_rejected s.playout hrc]
      rw [addMark_fst, ite_eq_left_iff, Classical.not_imp] at hrc
      exact ⟨.tableFull ev hparse htype (Nat.le_of_not_lt hrc.1), rfl⟩
  | clear =>
    simp only [htype, clear_fst] at h
    have hlen : (s.playout.marks.map Mark.name).length = s.playout.marks.length :=
      List.length_map _
    have hzero := @flushAcks_stored env 0 (s.playout.marks.map Mark.name) { s with
      playout := (rtwPlayoutClear s.playout RTW_MARK_MAX).2
      clearEvents := s.clearEvents + 1
      clearArmed := true
      clearStartNs := env.now } (by
        intro k hk
        rw [Nat.zero_add]
        exact hacks k (hlen ▸ hk))
    exact absurd hzero h
  | _ =>
    simp only [htype] at h
    exact absurd rfl h

/-- Whatever the state and the text: when no allocation for an acknowledgement fails, a text
that is not answered with 0 is refused for one of the reasons above, and nothing changes. -/
theorem rejected_unchanged (hacks : ∀ i < s.playout.marks.length, env.enqueue i = .stored)
    (h : (rtwSessionHandlePeerJson env s json).1 ≠ 0) :
    Refused env s json (rtwSessionHandlePeerJson env s json).1 ∧
      (rtwSessionHandlePeerJson env s json).2 = s := by
  cases hin : s.inboundFor env json with
  | none => exact ⟨refused_of_none hin, (handlePeerJson_of_none hin).2⟩
  | some ev =>
    rw [handlePeerJson_of_event hin] at h ⊢
    exact handleEvent_refused (parse_of_inboundFor hin) hacks h

/-- Nine bytes of audio for a playout buffer of eight. -/
def nineBytes : CStr :=
  (OutMsg.media demoSid (.lit "outbound") 1 0 1 (List.replicate 9 255)).text id

theorem nineBytes_overflow :
    (rtwSessionHandlePeerJson .calm (.boot 64 8 demoSid) nineBytes).1 = -2 := by
  have hparse := rtwParseInbound_media id demoSid 1 (.lit "outbound") 1 0
    (show (List.replicate 9 (255 : UInt8)).length ≤ PAYLOAD_CAP by decide)
  have hrun : (Session.boot 64 8 demoSid).state = .running := rfl
  have hsame : ¬ ((CBuf.copy RTW_SID_MAX demoSid).bytes ≠ [] ∧
      CBuf.copy RTW_SID_MAX demoSid ≠ (Session.boot 64 8 demoSid).streamSid) :=
    fun h => h.2 rfl
  rw [rtwSessionHandlePeerJson, if_neg (not_not.mpr hrun), if_neg (by decide), nineBytes, hparse]
  exact (congrArg Prod.fst (if_neg hsame)).trans rfl

theorem rejected_unchanged_overflow :
    (rtwSessionHandlePeerJson .calm (.boot 64 8 demoSid) nineBytes).2 = .boot 64 8 demoSid :=
  (rejected_unchanged (fun _ _ => rfl) (by rw [nineBytes_overflow]; decide)).2

end RealtimeWs.Core
