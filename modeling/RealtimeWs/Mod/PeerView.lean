import RealtimeWs.Mod.InFlight
import RealtimeWs.Mod.WireBytes

/-! What a peer reads on a connection: the texts of the messages that were sent on it. -/
namespace RealtimeWs.Mod

open RealtimeWs.Core

variable (printNumber : List UInt8 → List UInt8)

/-- The text of a message as it is given to `rtw_ws_send_text`. -/
def sentText (json : OutMsg) : List UInt8 := (json.text printNumber).bytes

/-- An attempt to send a message and the bytes it left on its connection. -/
structure Logged (a : Attempt) (w : Write) : Prop where
  connection : w.connection = a.connection
  text : w.text = sentText printNumber a.json
  sound : w.Sound
  sent : a.sent = true ↔ w.bytes = w.frame

/-- Every attempt is logged with its bytes. -/
def WireLogged (g : Shared) : Prop := List.Forall₂ (Logged printNumber) g.tech.wire g.writes

theorem frame_ne_nil (w : Write) : w.frame ≠ [] := by
  unfold Write.frame wireFrame wireHeader
  simp only
  split <;> exact List.cons_ne_nil _ _

theorem sendStep_logged (io : StepIo) (g : Shared) (c : ℕ) (json : OutMsg) :
    ∃ a w, (sendStep printNumber io g c json).2.tech.wire = g.tech.wire ++ [a] ∧
      (sendStep printNumber io g c json).2.writes = g.writes ++ [w] ∧ Logged printNumber a w := by
  refine ⟨_, _, rfl, rfl, rfl, rfl, ?_, ?_⟩
  · obtain ⟨w, hsocket, -, hw, -⟩ := sendStep_spec printNumber io g c json
    have hlog : g.writes ++ [_] = g.writes ++ [w] := congrArg Socket.writes hsocket
    have hone := List.append_cancel_left hlog
    rw [List.cons.injEq] at hone
    rw [hone.1]
    exact hw
  · rw [decide_eq_true_iff]
    by_cases hlen : (json.text printNumber).bytes.length < 65536
    · exact (rtwWsSendText_spec io.send io.client hlen).2
    · rw [rtwWsSendText_long io.send io.client (Nat.le_of_not_lt hlen)]
      constructor
      · intro h
        cases h
      · intro h
        exact absurd h.symm (frame_ne_nil _)

/-- Nothing but a send is logged. -/
theorem wireLogged_step {g : Shared} (h : WireLogged printNumber g) (t : Thread) (io : StepIo)
    (pc : Pc) : WireLogged printNumber (pc.step printNumber t io g).2 := by
  have hsame : ∀ {g' : Shared}, g'.tech.wire = g.tech.wire → g'.writes = g.writes →
      WireLogged printNumber g' := by
    intro g' hwire hwrites
    unfold WireLogged
    rw [hwire, hwrites]
    exact h
  have hlock : ∀ wait inside failed, WireLogged printNumber (lock t io g wait inside failed).2 := by
    intro wait inside failed
    unfold RealtimeWs.Mod.lock
    split_ifs <;> exact h
  cases pc with
  | flush site f =>
    cases f with
    | send c json =>
      cases c with
      | none => exact h
      | some c =>
        obtain ⟨a, w, hwire, hwrites, hlogged⟩ := sendStep_logged printNumber io g c json
        simp only [Pc.step, flushStep]
        cases hr : (sendStep printNumber io g c json).1 with
        | none => exact h
        | some r =>
          change WireLogged printNumber (sendStep printNumber io g c json).2
          unfold WireLogged
          rw [hwire, hwrites]
          exact List.rel_append h (.cons hlogged .nil)
    | ret => cases site <;> exact h
    | _ => exact h
  | textLock | callLock | handshakeLock | stopLock => exact hlock ..
  | idle =>
    simp only [Pc.step, idleStep]
    cases hcall : io.call with
    | clear | stop | closeRequest | sendMark => exact h
    | _ =>
      simp only
      split
      · exact hsame (mediaCall_silent io g _).wire rfl
      · exact h
  | poll c =>
    cases c with
    | none => exact h
    | some c =>
      simp only [Pc.step]
      split <;> exact h
  | begin =>
    simp only [Pc.step]
    rcases reconnectBegin_cases g.tech with hb | ⟨wait, hb⟩
    · rw [hb]
      exact h
    · rw [hb]
      exact h
  | textHandle | handshake | connect | trylock =>
    simp only [Pc.step]
    split <;> exact h
  | close site p => cases p <;> exact h
  | _ => exact h

theorem wireLogged_run {tech : Tech} (h : Opened tech) (es : List (Thread × StepIo)) :
    WireLogged printNumber ((bridge printNumber).run (startState tech) es).shared := by
  refine (bridge printNumber).invariant (P := fun _ _ => True)
    (J := fun s => WireLogged printNumber s.shared) ?_ ?_
    ((bridge printNumber).along_of_forall (fun _ _ => trivial) _ es)
  · intro s e _ hs
    obtain ⟨t, io⟩ := e
    rw [Threads.shared_step]
    simp only [threads]
    split
    · exact hs
    · exact wireLogged_step printNumber hs t io (s.pc t)
  · have hwire : (startState tech).shared.tech.wire = [] := h.wire
    unfold WireLogged
    rw [hwire]
    exact .nil

/-! ### Reading the stream -/

/-- A frame that is not all there is waited for. -/
theorem scanFrame_cut {b0 : UInt8} {key : Option MaskKey} {payload bs : List UInt8}
    (h : payload.length < 65536) (hpre : bs <+: wireFrame b0 key payload)
    (hne : bs ≠ wireFrame b0 key payload) : scanFrame bs = .incomplete := by
  obtain ⟨more, hmore⟩ := hpre
  obtain ⟨n, hscan, hn⟩ := scanFrame_wire b0 key h []
  rw [List.append_nil] at hscan
  by_contra hsome
  have happ := scanFrame_append hsome more
  rw [hmore, hscan] at happ
  have hle := (scanFrame_frame happ.symm).2
  have hmask : (masked key payload).length = payload.length := length_unmask _ _
  have hwhole : bs.length = (wireFrame b0 key payload).length := by
    have hlen := congrArg List.length hmore
    rw [List.length_append] at hlen
    omega
  exact hne ((List.IsPrefix.eq_of_length ⟨more, hmore⟩) hwhole)

/-- The callback that a message sent on the connection makes, if it was sent. -/
def Attempt.heard (a : Attempt) : List WsEvent :=
  if a.sent = true then [.text (sentText printNumber a.json)] else []

/-- A send that was not cut is read as its text, or left nothing to read. -/
theorem drain_write {onClose : Bool} {a : Attempt} {w : Write} (h : Logged printNumber a w)
    (hcut : ¬ w.cut) :
    (frameDecoder true onClose).drain w.bytes = (a.heard printNumber, some []) := by
  unfold Attempt.heard
  by_cases hsent : a.sent = true
  · have hwhole := h.sent.mp hsent
    have hlen : w.text.length < 65536 := by
      refine h.sound.2.resolve_left fun hnil => ?_
      exact frame_ne_nil w (hwhole.symm.trans hnil)
    obtain ⟨hopcode, hevents⟩ : (textFrame w.key w.text hlen).opcode ≠ 0x8 ∧
        (textFrame w.key w.text hlen).events = [.text w.text] := text_frame _ (by decide)
    have hframe : w.bytes = [textFrame w.key w.text hlen].flatMap Frame.bytes := by
      rw [hwhole, List.flatMap_singleton]
      rfl
    have hall : ∀ f ∈ [textFrame w.key w.text hlen], f.opcode ≠ 0x8 := by
      rw [List.forall_mem_singleton]
      exact hopcode
    rw [hframe, drain_frames onClose hall, List.flatMap_singleton, hevents, if_pos hsent, h.text]
  · have hne : w.bytes ≠ w.frame := by
      intro hwhole
      exact hsent (h.sent.mpr hwhole)
    have hnil : w.bytes = [] := by
      by_contra hsome
      exact hcut ⟨hsome, hne⟩
    rw [hnil, if_neg hsent]
    rfl

/-- A send that was cut is waited for. -/
theorem drain_cut {onClose : Bool} {w : Write} (hw : w.Sound) (hcut : w.cut) :
    (frameDecoder true onClose).drain w.bytes = ([], some w.bytes) := by
  have hlen : w.text.length < 65536 := hw.2.resolve_left hcut.1
  apply Decoder.drain_of_wait
  have hscan := scanFrame_cut hlen hw.1 hcut.2
  simp only [frameDecoder, hscan]

/-- Sends of which only the last was cut are read as the texts of those that succeeded. -/
theorem drain_sends {onClose : Bool} {as : List Attempt} {ws : List Write}
    (h : List.Forall₂ (Logged printNumber) as ws) (hcut : ∀ w ∈ ws.dropLast, ¬ w.cut) :
    ∃ rest, (frameDecoder true onClose).drain (ws.flatMap Write.bytes) =
      (as.flatMap (Attempt.heard printNumber), some rest) := by
  induction h with
  | nil => exact ⟨[], rfl⟩
  | @cons a w as ws hlogged hrest ih =>
    by_cases hw : w.cut
    · -- nothing was sent behind it
      have hlast : ws = [] := by
        by_contra hne
        refine hcut w ?_ hw
        rw [List.dropLast_cons_of_ne_nil hne]
        exact List.mem_cons_self
      subst hlast
      cases hrest
      have hunsent : ¬ a.sent = true := by
        intro hsent
        exact hw.2 (hlogged.sent.mp hsent)
      refine ⟨w.bytes, ?_⟩
      rw [List.flatMap_singleton, drain_cut hlogged.sound hw, List.flatMap_singleton,
        Attempt.heard, if_neg hunsent]
    · have htail : ∀ v ∈ ws.dropLast, ¬ v.cut := by
        intro v hv
        apply hcut v
        cases ws with
        | nil => cases hv
        | cons w' ws =>
          rw [List.dropLast_cons_of_ne_nil (List.cons_ne_nil _ _)]
          exact List.mem_cons_of_mem _ hv
      obtain ⟨rest, hdrain⟩ := ih htail
      refine ⟨rest, ?_⟩
      rw [List.flatMap_cons, Decoder.drain_append, drain_write printNumber hlogged hw]
      simp only [Decoder.andThen, List.nil_append, hdrain, List.flatMap_cons]

theorem heard_eq_sentOn (tech : Tech) (c : ℕ) :
    (tech.wire.filter fun a => a.connection = c).flatMap (Attempt.heard printNumber) =
      (tech.sentOn c).map fun json => .text (sentText printNumber json) := by
  unfold Tech.sentOn
  induction tech.wire with
  | nil => rfl
  | cons a wire ih =>
    by_cases hc : a.connection = c
    · rw [List.filter_cons_of_pos (by simp [hc]), List.flatMap_cons, ih]
      cases hsent : a.sent with
      | false =>
        rw [Attempt.heard, hsent, if_neg Bool.false_ne_true, List.nil_append,
          List.filter_cons_of_neg (by simp [hsent])]
      | true =>
        rw [Attempt.heard, hsent, if_pos rfl, List.filter_cons_of_pos (by simp [hsent, hc])]
        rfl
    · rw [List.filter_cons_of_neg (by simp [hc]), List.filter_cons_of_neg (by simp [hc]), ih]

theorem sentOn_sublist_delivered (tech : Tech) (c : ℕ) :
    (tech.sentOn c).Sublist tech.delivered := by
  refine List.Sublist.map _ ?_
  refine List.monotone_filter_right tech.wire fun a ha => ?_
  exact (Bool.and_eq_true_iff.mp ha).1

/-- What was sent on a connection is a part of what was queued. -/
theorem Opened.sentOn_sublist {tech : Tech} (h : Opened tech) (hs : tech.session.Started)
    (es : List (Thread × StepIo)) (c : ℕ) :
    let g := ((bridge printNumber).run (startState tech) es).shared
    (g.tech.sentOn c).Sublist (Fifo.pushes g.tech.session.outbound.history) :=
  (sentOn_sublist_delivered _ c).trans (h.flowing_run printNumber hs es).delivered_sublist

/-- The bytes on a connection decode to the texts sent on it. -/
theorem Opened.feed_sent {tech : Tech} (h : Opened tech) {es : List (Thread × StepIo)}
    (hguard : (bridge printNumber).Along RaisesWhole (startState tech) es) (c : ℕ)
    (onClose : Bool) {segments : List (List UInt8)}
    (hsegments : segments.flatten =
      ((bridge printNumber).run (startState tech) es).shared.socket.bytesOn c) :
    let g := ((bridge printNumber).run (startState tech) es).shared
    ∃ rest, (frameDecoder true onClose).feed [] segments =
      ((g.tech.sentOn c).map fun json => .text (sentText printNumber json), some rest) := by
  intro g
  have hwhole : Whole ((bridge printNumber).run (startState tech) es) :=
    (bridge printNumber).invariant (fun _ _ hg hw => hw.step printNumber hg) h.whole hguard
  have hlogged := wireLogged_run printNumber h es
  have hon : List.Forall₂ (Logged printNumber) (g.tech.wire.filter fun a => a.connection = c)
      (g.socket.sendsOn c) := by
    refine List.rel_filter ?_ hlogged
    intro a w haw
    simp only [haw.connection]
  have hdrained : ∃ rest, (frameDecoder true onClose).drain (g.socket.bytesOn c) = _ :=
    drain_sends printNumber hon (hwhole.aligned c)
  obtain ⟨rest, hdrain⟩ := hdrained
  refine ⟨rest, ?_⟩
  have hwait : (frameDecoder true onClose).next [] = .wait := rfl
  rw [Decoder.feed_nil_eq_drain _ hwait, hsegments]
  exact hdrain.trans (by rw [heard_eq_sentOn])

/-- Whoever decodes the frames on a connection, in whatever pieces they arrive, reads the
texts of the messages sent on it, in order and each once, and they are among the queued ones;
unless a connection was declared ready behind a send that was cut. -/
theorem peer_reads {tech : Tech} (h : Opened tech) (hs : tech.session.Started)
    {es : List (Thread × StepIo)}
    (hguard : (bridge printNumber).Along RaisesWhole (startState tech) es) (c : ℕ)
    (onClose : Bool) (segments : List (List UInt8))
    (hsegments : segments.flatten =
      ((bridge printNumber).run (startState tech) es).shared.socket.bytesOn c) :
    let g := ((bridge printNumber).run (startState tech) es).shared
    (∃ rest, (frameDecoder true onClose).feed [] segments =
      ((g.tech.sentOn c).map fun json => .text (sentText printNumber json), some rest)) ∧
        (g.tech.sentOn c).Sublist (Fifo.pushes g.tech.session.outbound.history) := by
  intro g
  constructor
  · exact h.feed_sent printNumber hguard c onClose hsegments
  · exact h.sentOn_sublist printNumber hs es c

theorem flatten_bytewise (bs : List UInt8) : (bs.map fun b => [b]).flatten = bs := by
  rw [← List.flatMap_def, List.flatMap_singleton']

/-- The first send is cut, and the worker reconnects and sends everything again. -/
theorem peer_reads_reconnected :
    let g := ((bridge id).run (startState demoOpen) (cutRun 40)).shared
    (∃ rest, (frameDecoder true true).feed [] ((g.socket.bytesOn 1).map fun b => [b]) =
      ((g.tech.sentOn 1).map fun json => .text (sentText id json), some rest)) ∧
        (g.tech.sentOn 1).Sublist (Fifo.pushes g.tech.session.outbound.history) :=
  peer_reads id demoOpen_opened (Session.boot_started 256 (64 * 1024) demoSid) (by decide +kernel)
    1 true _ (flatten_bytewise _)

end RealtimeWs.Mod
