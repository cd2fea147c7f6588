import RealtimeWs.Core.MessageRound
import RealtimeWs.Core.Numbering

/-! The names on the wire: the name in the peer's mark message against the name in the
acknowledgement. Between them the name is kept in fields of 128 bytes. -/
namespace RealtimeWs.Core

open Checkpoint

/-- The string `mark.name` of a text whose event is `mark`. -/
def markNameIn (text : CStr) : Option CStr :=
  match cJSONParse text with
  | none => none
  | some root =>
    if Json.valuestring? (cJSONGetObjectItemCaseSensitive root (.lit "event")) =
        some (.lit "mark") then
      match cJSONGetObjectItemCaseSensitive root (.lit "mark") with
      | some (.object members) =>
        Json.valuestring? (cJSONGetObjectItemCaseSensitive (.object members) (.lit "name"))
      | _ => none
    else none

/-! ### The wire's trace -/

/-- The event with another name. -/
def renamed (name : Option CStr) : Event CStr → Event (Option CStr)
  | .write n => .write n
  | .mark _ => .mark name
  | .gone n => .gone n
  | .ack _ => .ack name

/-- What a call does to the stream, with the marks under the names the peer sent. -/
def Session.peerEvents (s : Session) : Env × SessionOp → List (Event (Option CStr))
  | (env, .handlePeerJson json) =>
    (s.streamEvents (env, .handlePeerJson json)).map (renamed (markNameIn json))
  | x => (s.streamEvents x).map (renamed none)

/-- The acknowledgements a call pushed. -/
def Session.newAckMessages (s : Session) (x : Env × SessionOp) : List OutMsg :=
  ((s.step x).pushed.drop s.pushed.length).filter fun m => m.markName?.isSome

/-- The trace as the peer sees it, acknowledgements under the names in their texts. -/
def echoTrace (printNumber : List UInt8 → List UInt8) :
    Machine Session (Env × SessionOp) (Event (Option CStr)) :=
  markTrace.relabel fun s x => s.peerEvents x ++
    (s.newAckMessages x).map fun m => .ack (markNameIn (m.text printNumber))

/-- One event of the session's trace and of the wire's. -/
inductive SameEvent : Event CStr → Event (Option CStr) → Prop
  | write (n : ℕ) : SameEvent (.write n) (.write n)
  | mark {stored : CStr} {sent : Option CStr}
      (h : ∀ name ∈ sent, stored.bytes = name.bytes.take 127) : SameEvent (.mark stored) (.mark sent)
  | gone (n : ℕ) : SameEvent (.gone n) (.gone n)
  | ack (name : CStr) : SameEvent (.ack name) (.ack (some name))

/-! ### Names in and out -/

/-- The parser keeps the first 127 bytes of the name. -/
theorem rtwParseInbound_markName {json name : CStr} {payloadCap : ℕ} {ev : InboundEvent}
    (h : rtwParseInbound json payloadCap = some ev) (hname : markNameIn json = some name) :
    ev.markName = CBuf.copy RTW_MARK_NAME_MAX name := by
  unfold markNameIn at hname
  unfold rtwParseInbound at h
  cases hparse : cJSONParse json with
  | none =>
    rw [hparse] at hname
    cases hname
  | some root =>
    simp only [hparse] at h hname
    have hevent : Json.valuestring? (cJSONGetObjectItemCaseSensitive root (.lit "event")) =
        some (.lit "mark") := by
      by_contra hother
      rw [if_neg hother] at hname
      cases hname
    have htype : mapEvent (.lit "mark") = .mark := by decide
    rw [if_pos hevent] at hname
    simp only [hevent, htype, Option.some.injEq] at h
    subst h
    dsimp only
    rw [nestedStr]
    cases hmark : cJSONGetObjectItemCaseSensitive root (.lit "mark") with
    | none =>
      rw [hmark] at hname
      cases hname
    | some item =>
      rw [hmark] at hname
      cases item with
      | object members =>
        dsimp only at hname ⊢
        rw [copyStr, hname]
      | _ => cases hname

theorem storedName_bytes {json name : CStr} {payloadCap : ℕ} {ev : InboundEvent}
    (h : rtwParseInbound json payloadCap = some ev) (hname : markNameIn json = some name) :
    ev.storedName.bytes = name.bytes.take 127 := by
  have hcopy : ev.storedName.bytes = (name.bytes.take 127).take 127 := by
    rw [InboundEvent.storedName, rtwParseInbound_markName h hname]
    rfl
  rw [hcopy, List.take_take, Nat.min_self]

/-- An acknowledgement names its mark whole. -/
theorem markNameIn_text (printNumber : List UInt8 → List UInt8) {m : OutMsg} {name : CStr}
    (h : m.markName? = some name) : markNameIn (m.text printNumber) = some name := by
  cases m with
  | mark streamSid name' seq =>
    cases h
    have hwithin : (OutMsg.mark streamSid name seq).root.Within CJSON_NESTING_LIMIT := by
      apply envelope_within
      apply Json.Within.object (n := 998)
      simp only [List.forall_mem_cons]
      exact ⟨.string _ _, by simp⟩
    have hparse : cJSONParse ((OutMsg.mark streamSid name seq).text printNumber) =
        some (envelope "mark" seq streamSid (.object [(.lit "name", .string name)])) :=
      cJSONParse_print printNumber hwithin
    have hevent : cJSONGetObjectItemCaseSensitive
        (envelope "mark" seq streamSid (.object [(.lit "name", .string name)])) (.lit "event") =
          some (.string (.lit "mark")) := getObjectItem_self _ _ _
    have hmark : cJSONGetObjectItemCaseSensitive
        (envelope "mark" seq streamSid (.object [(.lit "name", .string name)])) (.lit "mark") =
          some (.object [(.lit "name", .string name)]) := envelope_part (by decide)
    unfold markNameIn
    rw [hparse]
    dsimp only
    rw [hevent, hmark, Json.valuestring?, if_pos rfl]
    dsimp only
    rw [getObjectItem_self, Json.valuestring?]
  | _ => cases h

/-! ### Step and run -/

theorem forall₂_acks (printNumber : List UInt8 → List UInt8) (ms : List OutMsg) :
    List.Forall₂ SameEvent ((ms.filterMap OutMsg.markName?).map .ack)
      ((ms.filter fun m => m.markName?.isSome).map
        fun m => .ack (markNameIn (m.text printNumber))) := by
  induction ms with
  | nil => exact .nil
  | cons m ms ih =>
    cases hm : m.markName? with
    | none =>
      rw [List.filterMap_cons_none hm, List.filter_cons_of_neg (by simp [hm])]
      exact ih
    | some name =>
      rw [List.filterMap_cons_some hm, List.filter_cons_of_pos (by simp [hm]), List.map_cons,
        List.map_cons, markNameIn_text printNumber hm]
      exact .cons (.ack name) ih

/-- The messages a call pushes, as acknowledgements and as texts. -/
theorem newAcks_messages (s : Session) (x : Env × SessionOp) :
    ∃ ms : List OutMsg, s.newAcks x = ms.filterMap OutMsg.markName? ∧
      s.newAckMessages x = ms.filter fun m => m.markName?.isSome := by
  obtain ⟨env, op⟩ := x
  obtain ⟨ms, y, he, -, hout⟩ := s.step_out env op
  have hqueue : (s.step (env, op)).outbound = op.take y.1 := congrArg Prod.fst hout
  have hpushed : (s.step (env, op)).pushed = s.pushed ++ ms.stored := by
    rw [Session.pushed, hqueue, pushes_take, he.pushes]
    rfl
  refine ⟨ms.stored, ?_, ?_⟩
  · apply Session.newAcks_eq
    change (s.step (env, op)).pushed.filterMap _ = s.pushed.filterMap _ ++ _
    rw [hpushed, List.filterMap_append]
  · rw [Session.newAckMessages, hpushed, List.drop_left]

/-- What an inbound text can mean to the stream. -/
theorem mem_inboundEvents {env : Env} {s : Session} {json : CStr} {e : Event CStr}
    (h : e ∈ s.inboundEvents env json) : (∃ n, e = .write n) ∨ (∃ n, e = .gone n) ∨
      ∃ ev, rtwParseInbound json PAYLOAD_CAP = some ev ∧ e = .mark ev.storedName := by
  unfold Session.inboundEvents at h
  cases hj : s.inboundFor env json with
  | none =>
    rw [hj] at h
    cases h
  | some ev =>
    have hparse : rtwParseInbound json PAYLOAD_CAP = some ev := by
      unfold Session.inboundFor at hj
      split at hj
      · exact (Option.filter_eq_some_iff.mp hj).1
      · cases hj
    cases htype : ev.type with
    | media =>
      simp only [hj, htype] at h
      split at h
      · exact Or.inl ⟨_, List.mem_singleton.mp h⟩
      · cases h
    | mark =>
      simp only [hj, htype] at h
      split at h
      · exact Or.inr (Or.inr ⟨ev, hparse, List.mem_singleton.mp h⟩)
      · cases h
    | clear =>
      simp only [hj, htype] at h
      exact Or.inr (Or.inl ⟨_, List.mem_singleton.mp h⟩)
    | _ =>
      simp only [hj, htype] at h
      cases h

theorem forall₂_peerEvents (s : Session) (x : Env × SessionOp) :
    List.Forall₂ SameEvent (s.streamEvents x) (s.peerEvents x) := by
  obtain ⟨env, op⟩ := x
  cases op with
  | handlePeerJson json =>
    refine List.forall₂_map_right_iff.mpr (List.forall₂_same.mpr fun e he => ?_)
    rcases mem_inboundEvents he with ⟨n, rfl⟩ | ⟨n, rfl⟩ | ⟨ev, hparse, rfl⟩
    · exact .write n
    · exact .gone n
    · exact .mark fun name hname => storedName_bytes hparse hname
  | readPlayout maxLen => exact .cons (.gone _) .nil
  | _ => exact .nil

theorem forall₂_echoTrace (printNumber : List UInt8 → List UInt8) (s : Session)
    (ops : List (Env × SessionOp)) :
    List.Forall₂ SameEvent (markTrace.outputs s ops) ((echoTrace printNumber).outputs s ops) := by
  apply markTrace.forall₂_relabel
  intro s x
  obtain ⟨ms, hacks, hmessages⟩ := newAcks_messages s x
  refine List.rel_append (forall₂_peerEvents s x) ?_
  rw [hacks, hmessages]
  exact forall₂_acks printNumber ms

/-- The event of the session behind an event of the wire. -/
theorem exists_sameEvent {tr : List (Event CStr)} {wire : List (Event (Option CStr))}
    (h : List.Forall₂ SameEvent tr wire) {i : ℕ} {e : Event (Option CStr)}
    (hi : wire[i]? = some e) : ∃ e', tr[i]? = some e' ∧ SameEvent e' e := by
  obtain ⟨hlen, hget⟩ := List.forall₂_iff_get.mp h
  obtain ⟨hlt, rfl⟩ := List.getElem?_eq_some_iff.mp hi
  have hlt' : i < tr.length := hlen ▸ hlt
  exact ⟨tr[i], List.getElem?_eq_getElem hlt', hget i hlt' hlt⟩

theorem exists_sameEvent_wire {tr : List (Event CStr)} {wire : List (Event (Option CStr))}
    (h : List.Forall₂ SameEvent tr wire) {i : ℕ} {e : Event CStr}
    (hi : tr[i]? = some e) : ∃ e', wire[i]? = some e' ∧ SameEvent e e' := by
  obtain ⟨hlen, hget⟩ := List.forall₂_iff_get.mp h
  obtain ⟨hlt, rfl⟩ := List.getElem?_eq_some_iff.mp hi
  have hlt' : i < wire.length := hlen ▸ hlt
  exact ⟨wire[i], List.getElem?_eq_getElem hlt', hget i hlt hlt'⟩

/-- A name and what a field keeps of it are the same if the name fits. -/
theorem stored_eq_iff {stored name : CStr} (h : stored.bytes = name.bytes.take 127) :
    stored = name ↔ name.bytes.length ≤ 127 := by
  constructor
  · rintro rfl
    rw [h]
    exact List.length_take_le 127 _
  · intro hlen
    apply CStr.ext
    rw [h, List.take_of_length_le hlen]

/-- In every run each acknowledgement answers a mark of its own, in the order of the marks,
and names it as the peer did exactly if that name has at most 127 bytes. -/
theorem ack_echoes_iff (printNumber : List UInt8 → List UInt8) {s : Session} (hs : s.Started)
    (ops : List (Env × SessionOp)) : ∃ f, Charges (markTrace.outputs s ops) f ∧
      ∀ i ack, ((echoTrace printNumber).outputs s ops)[i]? = some (.ack ack) →
        ∃ sent, ((echoTrace printNumber).outputs s ops)[f i]? = some (.mark sent) ∧
          ∀ name ∈ sent, (ack = some name ↔ name.bytes.length ≤ 127) := by
  have hsame := forall₂_echoTrace printNumber s ops
  obtain ⟨f, hf⟩ := (hs.tracks ops).disciplined
  refine ⟨f, hf, fun i ack hack => ?_⟩
  obtain ⟨e, he, hev⟩ := exists_sameEvent hsame hack
  cases hev with
  | ack stored =>
    obtain ⟨e', he', hev'⟩ := exists_sameEvent_wire hsame (hf.names i stored he)
    cases hev' with
    | @mark _ sent h =>
      refine ⟨sent, he', fun name hname => ?_⟩
      rw [Option.some_inj]
      exact stored_eq_iff (h name hname)

/-- A peer's mark message under a name of `n` letters, and the harvest that answers it. -/
def namedOps (n : ℕ) : List (Env × SessionOp) :=
  [(.calm, .handlePeerJson ((OutMsg.mark demoSid (.ofBytes (.replicate n 97)) 1).text id)),
    (.calm, .harvestMarks)]

theorem ack_echoes_short : let wire := (echoTrace id).outputs (.boot 4 8 demoSid) (namedOps 3)
    wire = [.mark (some (.lit "aaa")), .ack (some (.lit "aaa"))] ∧
      ∃ f, Charges (markTrace.outputs (.boot 4 8 demoSid) (namedOps 3)) f ∧
        ∃ sent, wire[f 1]? = some (.mark sent) := by
  intro wire
  have hwire : wire = [.mark (some (.lit "aaa")), .ack (some (.lit "aaa"))] := by decide +kernel
  obtain ⟨f, hf, hecho⟩ := ack_echoes_iff id (Session.boot_started 4 8 demoSid) (namedOps 3)
  obtain ⟨sent, hsent, -⟩ := hecho 1 (some (.lit "aaa")) (congrArg (·[1]?) hwire)
  exact ⟨hwire, f, hf, sent, hsent⟩

/-- Every acknowledgement carries the name in the message it answers. -/
def Echoed (wire : List (Event (Option CStr))) (f : ℕ → ℕ) : Prop :=
  ∀ i ack name, wire[i]? = some (.ack ack) → wire[f i]? = some (.mark (some name)) →
    ack = some name

/-- A name of 128 bytes comes back one byte short. -/
theorem long_name_cut :
    let s := Session.boot 4 8 demoSid
    let wire := (echoTrace id).outputs s (namedOps 128)
    s.Started ∧
      wire = [.mark (some (.ofBytes (.replicate 128 97))),
        .ack (some (.ofBytes (.replicate 127 97)))] ∧
      ¬ ∃ f, Charges (markTrace.outputs s (namedOps 128)) f ∧ Echoed wire f := by
  intro s wire
  have hwire : wire = [.mark (some (.ofBytes (.replicate 128 97))),
      .ack (some (.ofBytes (.replicate 127 97)))] := by decide +kernel
  refine ⟨Session.boot_started 4 8 demoSid, hwire, ?_⟩
  rintro ⟨f, hf, hecho⟩
  have hack : wire[1]? = some (.ack (some (.ofBytes (.replicate 127 97)))) :=
    congrArg (·[1]?) hwire
  have hmark : wire[0]? = some (.mark (some (.ofBytes (.replicate 128 97)))) :=
    congrArg (·[0]?) hwire
  obtain ⟨e, he, hev⟩ := exists_sameEvent (forall₂_echoTrace id s (namedOps 128)) hack
  cases hev
  have hfirst : f 1 = 0 := by
    have hearlier := hf.earlier 1 _ he
    omega
  have heq := hecho 1 _ _ hack (hfirst ▸ hmark)
  exact absurd heq (by decide +kernel)

end RealtimeWs.Core
