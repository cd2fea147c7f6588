import RealtimeWs.Core.Numbering

/-! Caller audio in the messages of a session, whatever allocations fail, and what a peer
makes of the messages: it hears the media, each as the frame it was made of, and nothing else. -/
namespace RealtimeWs.Core

/-- The payloads of the media messages that went into the queue. -/
def Session.audio (s : Session) : List (List UInt8) :=
  (s.pushed.filterMap OutMsg.media?).map fun m => m.2.2

theorem SameMedia.audio {s t : Session} (h : SameMedia s t) : t.audio = s.audio := by
  unfold Session.audio
  rw [h.media]

/-! ### What a push adds -/

/-- A frame is queued, or lost with its allocation. -/
theorem pushFrame_audio (o : EnqueueOutcome) (s : Session) {pcm : List Int16} (h : pcm ≠ []) :
    (pushFrame o s pcm).2.audio =
      s.audio ++ if o = .stored then [rtwPcm16ToMulaw pcm] else [] := by
  have hpushed : (pushFrame o s pcm).2.pushed =
      s.pushed ++ if o = .stored then [s.media pcm] else [] := by
    have hqueue : (pushFrame o s pcm).2.outbound = (offer o s.outbound (s.media pcm)).2 := by
      rw [pushFrame_eq o s h]
      split <;> rfl
    unfold Session.pushed
    rw [hqueue]
    exact pushes_offer o s.outbound (s.media pcm)
  unfold Session.audio
  rw [hpushed, List.filterMap_append, List.map_append]
  split <;> rfl

theorem pushFrames_audio (env : Env) (n i : ℕ) {pcm : List Int16} (s : Session)
    (h : RTW_FRAME_MULAW_BYTES * n ≤ pcm.length) :
    ∃ sub, (pushFrames env n i pcm s).2.audio = s.audio ++ sub ∧
      sub.Sublist ((frames n pcm).map rtwPcm16ToMulaw) := by
  induction n generalizing i pcm s with
  | zero => exact ⟨[], (List.append_nil _).symm, List.Sublist.refl _⟩
  | succ n ih =>
    have hne : pcm.take RTW_FRAME_MULAW_BYTES ≠ [] := by
      have hlen := length_of_mem_frames h _ List.mem_cons_self
      intro hnil
      rw [hnil] at hlen
      cases hlen
    have hframe := pushFrame_audio (env.enqueue i) s hne
    unfold pushFrames
    dsimp only
    by_cases hstored : env.enqueue i = .stored
    · rw [if_pos hstored] at hframe
      have hok : (pushFrame (env.enqueue i) s (pcm.take RTW_FRAME_MULAW_BYTES)).1 = 0 := by
        rw [pushFrame_eq _ _ hne, if_pos hstored]
      rw [if_neg (not_not.mpr hok)]
      obtain ⟨sub, haudio, hsub⟩ := @ih (i + 1) (pcm.drop RTW_FRAME_MULAW_BYTES)
        (pushFrame (env.enqueue i) s (pcm.take RTW_FRAME_MULAW_BYTES)).2 (by
          rw [List.length_drop]
          rw [Nat.mul_succ] at h
          omega)
      refine ⟨rtwPcm16ToMulaw (pcm.take RTW_FRAME_MULAW_BYTES) :: sub, ?_, ?_⟩
      · rw [haudio, hframe, List.append_assoc]
        rfl
      · exact hsub.cons_cons _
    · rw [if_neg hstored, List.append_nil] at hframe
      have hfailed : (pushFrame (env.enqueue i) s (pcm.take RTW_FRAME_MULAW_BYTES)).1 ≠ 0 := by
        rw [pushFrame_eq _ _ hne, if_neg hstored]
        simp
      rw [if_pos hfailed]
      exact ⟨[], hframe.trans (List.append_nil _).symm, List.nil_sublist _⟩

/-- Frames are queued in order, some perhaps not. -/
theorem push_audio (env : Env) (s : Session) (pcm : List Int16) :
    ∃ sub, (rtwSessionPushPcm16 env s pcm).2.audio = s.audio ++ sub ∧
      sub.Sublist ((frames (pcm.length / RTW_FRAME_MULAW_BYTES) pcm).map rtwPcm16ToMulaw) := by
  unfold rtwSessionPushPcm16
  split
  · exact ⟨[], (List.append_nil _).symm, List.nil_sublist _⟩
  · exact pushFrames_audio env _ 0 s (Nat.mul_div_le _ _)

theorem Session.Started.audio {s : Session} (h : s.Started) : s.audio = [] := by
  obtain ⟨-, -, -, -, -, -, hpushed, -⟩ := h.spec
  unfold Session.audio Session.pushed
  rw [hpushed]
  rfl

/-! ### The event of a text -/

theorem parseValue_string (fuel depth : ℕ) (s : CStr) (rest : List UInt8) :
    parseValue (fuel + 1) depth (printStringPtr s ++ rest) = some (.string s, rest) := by
  obtain ⟨h1, h2, h3⟩ := literal_not_prefix (c := 34) (by decide)
    (s.bytes.flatMap escapeByte ++ [34] ++ rest)
  have hback := parseString_print s rest
  rw [printStringPtr, List.cons_append, List.cons_append] at hback
  rw [parseValue.eq_def, printStringPtr, List.cons_append, List.cons_append]
  dsimp only
  rw [if_neg h1, if_neg h2, if_neg h3, if_pos rfl, hback]
  rfl

/-- The text of an object up to the comma behind its first member, a string. -/
def firstMember (name event : CStr) (rest : List UInt8) : List UInt8 :=
  123 :: (printStringPtr name ++ 58 :: (printStringPtr event ++ 44 :: rest))

/-- Whatever follows, an object that begins with the member is parsed with it or not at all. -/
theorem parseValue_first (fuel : ℕ) (name event : CStr) (rest : List UInt8) :
    ∀ r ∈ parseValue (fuel + 3) 0 (firstMember name event rest),
      ∃ members, r.1 = .object ((name, .string event) :: members) := by
  intro r hr
  obtain ⟨h1, h2, h3⟩ := literal_not_prefix (c := 123) (by decide)
    (printStringPtr name ++ 58 :: (printStringPtr event ++ 44 :: rest))
  have hskip : ∀ (s : CStr) more, bufferSkipWhitespace (printStringPtr s ++ more) =
      printStringPtr s ++ more := fun s more => bufferSkipWhitespace_cons (by decide) _
  have hhead : (bufferSkipWhitespace (printStringPtr name ++ 58 ::
      (printStringPtr event ++ 44 :: rest))).head? ≠ some 125 := by
    rw [hskip, printStringPtr, List.cons_append, List.cons_append, List.head?_cons]
    decide
  rw [firstMember, parseValue.eq_def] at hr
  dsimp only at hr
  rw [if_neg h1, if_neg h2, if_neg h3, if_neg (by decide), if_neg (by decide),
    if_neg (by decide), if_pos rfl, if_neg (by decide), if_neg hhead, parseMembers, hskip,
    parseString_print] at hr
  dsimp only at hr
  rw [bufferSkipWhitespace_cons (by decide)] at hr
  dsimp only at hr
  rw [if_neg (not_not.mpr rfl), hskip, parseValue_string] at hr
  dsimp only at hr
  rw [bufferSkipWhitespace_cons (by decide)] at hr
  dsimp only at hr
  rw [if_pos rfl] at hr
  obtain ⟨p, hp, rfl⟩ := Option.map_eq_some_iff.mp hr
  obtain ⟨q, -, rfl⟩ := Option.map_eq_some_iff.mp hp
  exact ⟨q.1, rfl⟩

theorem cJSONParse_first {json name event : CStr} {rest : List UInt8}
    (h : json.bytes = firstMember name event rest) :
    ∀ root ∈ cJSONParse json, ∃ members, root = .object ((name, .string event) :: members) := by
  intro root hroot
  have hbom : skipUtf8Bom json.bytes = json.bytes := by
    rw [skipUtf8Bom, if_neg]
    rintro ⟨-, hbom⟩
    rw [h, firstMember, List.take_succ_cons, List.cons.injEq] at hbom
    exact absurd hbom.1 (by decide)
  have hskip : bufferSkipWhitespace json.bytes = json.bytes := by
    rw [h, firstMember]
    exact bufferSkipWhitespace_cons (by decide) _
  have hlen : 1 ≤ json.bytes.length := by
    rw [h, firstMember, List.length_cons]
    exact Nat.le_add_left 1 _
  obtain ⟨fuel, hfuel⟩ : ∃ fuel, 2 * json.bytes.length + 2 = fuel + 3 :=
    ⟨2 * json.bytes.length - 1, by omega⟩
  rw [cJSONParse, hbom, hskip, hfuel, h] at hroot
  obtain ⟨r, hr, rfl⟩ := Option.map_eq_some_iff.mp hroot
  exact parseValue_first fuel name event rest r hr

theorem parseMedia_type {ev ev' : InboundEvent} {media : Option Json} {payloadCap : ℕ}
    (h : ev' ∈ parseMedia ev media payloadCap) : ev'.type = ev.type := by
  unfold parseMedia at h
  cases media with
  | none => cases h
  | some media =>
    cases media with
    | object members =>
      dsimp only at h
      cases hpayload : Json.valuestring?
          (cJSONGetObjectItemCaseSensitive (.object members) (.lit "payload")) with
      | none =>
        rw [hpayload] at h
        cases h
      | some payload =>
        rw [hpayload] at h
        obtain ⟨decoded, -, rfl⟩ := Option.map_eq_some_iff.mp h
        rfl
    | _ => cases h

/-- An event is of the type its text begins with. -/
theorem rtwParseInbound_first {json event : CStr} {rest : List UInt8}
    (h : json.bytes = firstMember (.lit "event") event rest) (payloadCap : ℕ) :
    ∀ ev ∈ rtwParseInbound json payloadCap, ev.type = mapEvent event := by
  intro ev hev
  unfold rtwParseInbound at hev
  cases hroot : cJSONParse json with
  | none =>
    rw [hroot] at hev
    cases hev
  | some root =>
    obtain ⟨members, rfl⟩ := cJSONParse_first h root hroot
    rw [hroot] at hev
    dsimp only at hev
    rw [getObjectItem_self] at hev
    dsimp only [Json.valuestring?] at hev
    cases htype : mapEvent event with
    | media =>
      rw [htype] at hev
      exact parseMedia_type hev
    | _ =>
      rw [htype] at hev
      cases hev
      rfl

/-! ### What a peer hears -/

/-- The payload of a text that is a media message. -/
def heardPayload (payloadCap : ℕ) (text : CStr) : Option (List UInt8) :=
  (rtwParseInbound text payloadCap).bind fun ev =>
    if ev.type = .media then some ev.payload else none

variable (printNumber : List UInt8 → List UInt8)

/-- The name of a message's event. -/
def OutMsg.event : OutMsg → CStr
  | .connected _ => .lit "connected"
  | .start .. => .lit "start"
  | .media .. => .lit "media"
  | .mark .. => .lit "mark"
  | .stop .. => .lit "stop"

/-- Cutting a text at its first zero leaves such a beginning alone. -/
theorem ofBytes_first (name event : CStr) (rest : List UInt8) :
    ∃ kept, (CStr.ofBytes (firstMember name event rest)).bytes = firstMember name event kept := by
  have hsplit : ∀ more, firstMember name event more =
      (123 :: (printStringPtr name ++ 58 :: (printStringPtr event ++ [44]))) ++ more := by
    intro more
    simp [firstMember]
  have hzero : ∀ c ∈ 123 :: (printStringPtr name ++ 58 :: (printStringPtr event ++ [44])),
      decide (c ≠ 0) = true := by
    intro c hc
    refine decide_eq_true ?_
    rintro rfl
    have hname := zero_notMem_printStringPtr name
    have hevent := zero_notMem_printStringPtr event
    simp [hname, hevent] at hc
  refine ⟨rest.takeWhile fun c => decide (c ≠ 0), ?_⟩
  rw [hsplit, hsplit]
  exact List.takeWhile_append_of_pos hzero

/-- Every message begins with its event. -/
theorem text_first (m : OutMsg) :
    ∃ rest, (m.text printNumber).bytes = firstMember (.lit "event") m.event rest := by
  have hfirst : ∃ rest, printValue printNumber m.root =
      firstMember (.lit "event") m.event rest := by
    cases m <;> exact ⟨_, by simp [OutMsg.root, printValue, printMembers]; rfl⟩
  obtain ⟨rest, hrest⟩ := hfirst
  rw [OutMsg.text, cJSONPrintUnformatted, hrest]
  exact ofBytes_first _ _ rest

/-- A peer hears the frames of the media messages, and nothing in the others. -/
theorem heardPayload_text {payloadCap : ℕ} {m : OutMsg}
    (h : ∀ p ∈ m.media?, p.2.2.length ≤ payloadCap) :
    heardPayload payloadCap (m.text printNumber) = m.media?.map fun p => p.2.2 := by
  have hother : mapEvent m.event ≠ .media → m.media? = none →
      heardPayload payloadCap (m.text printNumber) = m.media?.map fun p => p.2.2 := by
    intro hevent hmedia
    obtain ⟨rest, hrest⟩ := text_first printNumber m
    rw [hmedia, heardPayload]
    cases hev : rtwParseInbound (m.text printNumber) payloadCap with
    | none => rfl
    | some ev =>
      have htype := rtwParseInbound_first hrest payloadCap ev hev
      rw [Option.bind_some, if_neg (by rw [htype]; exact hevent)]
      rfl
  cases m with
  | media streamSid track chunk timestampMs seq mulaw =>
    have hparse := rtwParseInbound_media printNumber streamSid seq track chunk timestampMs
      (h _ rfl)
    have htype : (envelopeEvent "media" seq streamSid).type = .media :=
      show mapEvent (.lit "media") = .media by decide
    rw [heardPayload, hparse, Option.bind_some, if_pos htype]
    rfl
  | connected => exact hother (show mapEvent (.lit "connected") ≠ .media by decide) rfl
  | start => exact hother (show mapEvent (.lit "start") ≠ .media by decide) rfl
  | mark => exact hother (show mapEvent (.lit "mark") ≠ .media by decide) rfl
  | stop => exact hother (show mapEvent (.lit "stop") ≠ .media by decide) rfl

end RealtimeWs.Core
