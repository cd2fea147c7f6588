import RealtimeWs.Core.CJsonRound
import RealtimeWs.Core.Outbound

/-! Inbound texts that name another stream. A missing, empty or non-string `streamSid`
counts as none, and only what the event's field holds is compared. -/
namespace RealtimeWs.Core

/-- The only member of that name has this value. -/
def OnlyMember (members : List (CStr × Json)) (name : CStr) (value : Json) : Prop :=
  members.filter (fun m => m.1 = name) = [(name, value)]

theorem OnlyMember.getObjectItem {members : List (CStr × Json)} {name : CStr} {value : Json}
    (h : OnlyMember members name value) :
    cJSONGetObjectItemCaseSensitive (.object members) name = some value := by
  have hfind : members.find? (fun m => m.1 = name) = some (name, value) := by
    rw [← List.head?_filter, h]
    rfl
  rw [cJSONGetObjectItemCaseSensitive, hfind]
  rfl

/-- The stream id of a parsed event is what `copy_str` keeps of the member. -/
theorem rtwParseInbound_streamSid {json : CStr} {members : List (CStr × Json)} {payloadCap : ℕ}
    {ev : InboundEvent} (hparse : cJSONParse json = some (.object members))
    (h : rtwParseInbound json payloadCap = some ev) :
    ev.streamSid = copyStr RTW_SID_MAX
      (cJSONGetObjectItemCaseSensitive (.object members) (.lit "streamSid")) := by
  rw [rtwParseInbound, hparse] at h
  dsimp only at h
  split at h
  · cases h
  · split at h
    · -- the media branch sets other fields of the event
      unfold parseMedia at h
      split at h
      · dsimp only at h
        split at h
        · cases h
        · obtain ⟨decoded, -, rfl⟩ := Option.map_eq_some_iff.mp h
          rfl
      · cases h
    · cases h
      rfl
    · cases h
      rfl
    · cases h
      rfl

/-- A value that names another stream as far as the field of the event can hold it. -/
def NamesOther (s : Session) (value : Json) : Prop :=
  ∃ sid, value = .string sid ∧ sid.bytes ≠ [] ∧
    sid.bytes.take (RTW_SID_MAX - 1) ≠ s.streamSid.bytes

theorem namesOther_iff (s : Session) (value : Json) : NamesOther s value ↔
    (copyStr RTW_SID_MAX (some value)).bytes ≠ [] ∧
      copyStr RTW_SID_MAX (some value) ≠ s.streamSid := by
  cases value with
  | string sid =>
    have hcopy : (copyStr RTW_SID_MAX (some (.string sid))).bytes =
        sid.bytes.take (RTW_SID_MAX - 1) := rfl
    have hempty : sid.bytes.take (RTW_SID_MAX - 1) = [] ↔ sid.bytes = [] :=
      List.take_eq_nil_iff.trans (or_iff_right (by decide))
    rw [hcopy, ne_eq, hempty]
    constructor
    · rintro ⟨_, heq, hne, hother⟩
      cases heq
      exact ⟨hne, fun h => hother (congrArg (fun b : CBuf RTW_SID_MAX => b.bytes) h)⟩
    · rintro ⟨hne, hother⟩
      exact ⟨sid, rfl, hne, fun h => hother (CBuf.ext h)⟩
  | _ =>
    constructor
    · rintro ⟨_, h, -⟩
      cases h
    · rintro ⟨h, -⟩
      exact absurd rfl h

theorem flushAcks_fst (env : Env) (i : ℕ) (names : List (CBuf RTW_MARK_NAME_LEN))
    (s : Session) : (flushAcks env i names s).1 = 0 ∨ (flushAcks env i names s).1 = -1 := by
  induction names generalizing i s with
  | nil => exact Or.inl rfl
  | cons name names ih =>
    rw [flushAcks]
    split
    · exact Or.inr rfl
    · exact ih _ _

/-- No event addressed to the stream is answered with 1. -/
theorem handleEvent_ne_one (env : Env) (s : Session) (ev : InboundEvent) :
    (handleEvent env s ev).1 ≠ 1 := by
  have hcodes : ∀ n ∈ [(0 : ℤ), -1, -2], n ≠ 1 := by decide
  apply hcodes
  unfold handleEvent
  cases ev.type with
  | media =>
    dsimp only
    split <;> simp
  | mark =>
    dsimp only
    split <;> simp
  | clear =>
    rcases flushAcks_fst env 0 (rtwPlayoutClear s.playout RTW_MARK_MAX).1 { s with
      playout := (rtwPlayoutClear s.playout RTW_MARK_MAX).2
      clearEvents := s.clearEvents + 1
      clearArmed := true
      clearStartNs := env.now } with h | h <;> simp [h]
  | _ => simp

section

variable {env : Env} {s : Session} {json : CStr} {members : List (CStr × Json)} {value : Json}

/-- The return value 1 is for texts of other streams, and for nothing else. -/
theorem handlePeerJson_other_iff (hrun : s.state = .running) (hbuf : env.buffer = true)
    (hparse : cJSONParse json = some (.object members))
    (hone : OnlyMember members (.lit "streamSid") value) :
    (rtwSessionHandlePeerJson env s json).1 = 1 ↔
      NamesOther s value ∧ (rtwParseInbound json PAYLOAD_CAP).isSome = true := by
  rw [rtwSessionHandlePeerJson, if_neg (not_not.mpr hrun), if_neg (by rw [hbuf]; decide)]
  cases hev : rtwParseInbound json PAYLOAD_CAP with
  | none =>
    constructor
    · intro h
      cases h
    · rintro ⟨-, h⟩
      cases h
  | some ev =>
    have hsid := rtwParseInbound_streamSid hparse hev
    rw [hone.getObjectItem] at hsid
    have hnames := namesOther_iff s value
    rw [← hsid] at hnames
    dsimp only
    rw [hnames]
    split_ifs with hother
    · exact ⟨fun _ => ⟨hother, rfl⟩, fun _ => rfl⟩
    · constructor
      · exact fun h => absurd h (handleEvent_ne_one env s ev)
      · rintro ⟨h, -⟩
        exact absurd h hother

/-- A text whose `streamSid` names another stream changes nothing, whatever it is. -/
theorem other_stream_unchanged (hparse : cJSONParse json = some (.object members))
    (hone : OnlyMember members (.lit "streamSid") value) (hother : NamesOther s value) :
    (rtwSessionHandlePeerJson env s json).2 = s := by
  unfold rtwSessionHandlePeerJson
  split_ifs
  · rfl
  · rfl
  · cases hev : rtwParseInbound json PAYLOAD_CAP with
    | none => rfl
    | some ev =>
      have hsid := rtwParseInbound_streamSid hparse hev
      rw [hone.getObjectItem] at hsid
      rw [namesOther_iff, ← hsid] at hother
      dsimp only
      rw [if_pos hother]

end

/-- A clear with this `streamSid`. -/
def clearFor (sid : Json) : CStr := cJSONPrintUnformatted id
  (.object [(.lit "event", .string (.lit "clear")), (.lit "streamSid", sid)])

theorem clearFor_parse {sid : Json} (h : sid.Within 999) : cJSONParse (clearFor sid) =
    some (.object [(.lit "event", .string (.lit "clear")), (.lit "streamSid", sid)]) := by
  apply cJSONParse_print
  apply Json.Within.object (n := 999)
  rintro m (_ | ⟨_, _ | ⟨_, hm⟩⟩)
  · exact .string _ _
  · exact h
  · cases hm

theorem clearFor_only (sid : Json) : OnlyMember
    [(.lit "event", .string (.lit "clear")), (.lit "streamSid", sid)] (.lit "streamSid") sid := by
  have hevent : CStr.lit "event" ≠ CStr.lit "streamSid" := by decide
  simp [OnlyMember, hevent]

theorem other_stream_unchanged_clear :
    (rtwSessionHandlePeerJson .calm (.boot 64 8 demoSid)
      (clearFor (.string (.lit "MZ1")))).2 = .boot 64 8 demoSid := by
  refine other_stream_unchanged (clearFor_parse (.string _ _)) (clearFor_only _)
    ⟨.lit "MZ1", rfl, ?_, ?_⟩
  · decide +kernel
  · decide +kernel

/-- An empty `streamSid` and one that is not a string are taken for this stream. -/
theorem empty_sid_taken :
    let s := Session.boot 64 8 demoSid
    s.Started ∧ s.state = .running ∧ ∀ sid ∈ [Json.string (.lit ""), .bool true], ∃ members,
      cJSONParse (clearFor sid) = some (.object members) ∧
        OnlyMember members (.lit "streamSid") sid ∧ sid ≠ .string s.streamSid.toCStr ∧
        (rtwSessionHandlePeerJson .calm s (clearFor sid)).2 ≠ s := by
  intro s
  have hclears : ∀ sid ∈ [Json.string (.lit ""), .bool true],
      (rtwSessionHandlePeerJson .calm s (clearFor sid)).2.clearEvents ≠ s.clearEvents := by
    simp only [List.forall_mem_cons]
    refine ⟨?_, ?_, by simp⟩
    · decide +kernel
    · decide +kernel
  have hs := Session.boot_started 64 8 demoSid
  obtain ⟨hrun, -⟩ := hs.spec
  refine ⟨hs, hrun, fun sid hsid => ⟨_, clearFor_parse ?_, clearFor_only sid, ?_, fun h => ?_⟩⟩
  · rcases List.mem_pair.mp hsid with rfl | rfl
    · exact .string _ _
    · exact .bool _ _
  · rcases List.mem_pair.mp hsid with rfl | rfl
    · intro h
      have hsid : (CStr.lit "").bytes = s.streamSid.bytes := by
        injection h with h
        exact congrArg CStr.bytes h
      revert hsid
      decide +kernel
    · intro h
      cases h
  · exact hclears sid hsid (congrArg Session.clearEvents h)

end RealtimeWs.Core
