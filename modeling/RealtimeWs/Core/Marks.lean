import RealtimeWs.Core.Outbound
import RealtimeWs.Lib.Checkpoint

/-! Marks and their acknowledgements over whole runs of a session: what the peer's
marks are owed, when an acknowledgement is due, and which of them are lost. -/
namespace RealtimeWs.Core

open Checkpoint

/-- Names of the mark acknowledgements pushed on the outbound queue so far. -/
def Session.acksPushed (s : Session) : List CStr :=
  (Fifo.pushes s.outbound.history).filterMap OutMsg.markName?

/-- Stored names of the marks that still wait in the table. -/
def Session.pendingMarks (s : Session) : List CStr := s.playout.marks.map fun m => m.name.toCStr

/-- The name a mark message is stored under. -/
def InboundEvent.storedName (ev : InboundEvent) : CStr :=
  (CBuf.copy RTW_MARK_NAME_LEN ev.markName.toCStr).toCStr

/-- What an inbound text means for the stream of agent audio: accepted media and
marks, and the bytes a clear throws away. -/
def Session.inboundEvents (env : Env) (s : Session) (json : CStr) : List (Event CStr) :=
  match s.inboundFor env json with
  | none => []
  | some ev =>
    match ev.type with
    | .media =>
      if (rtwSessionHandlePeerJson env s json).1 = 0 then [.write ev.payload.length] else []
    | .mark =>
      if (rtwSessionHandlePeerJson env s json).1 = 0 then [.mark ev.storedName] else []
    | .clear => [.gone s.playout.size]
    | _ => []

/-- What a call does to the stream of agent audio, before its acknowledgements. -/
def Session.streamEvents (s : Session) : Env × SessionOp → List (Event CStr)
  | (env, .handlePeerJson json) => s.inboundEvents env json
  | (_, .readPlayout maxLen) => [.gone (rtwSessionReadPlayout s maxLen).1.length]
  | _ => []

/-- The acknowledgements a call pushed. -/
def Session.newAcks (s : Session) (x : Env × SessionOp) : List CStr :=
  (s.step x).acksPushed.drop s.acksPushed.length

/-- The session with the trace of its stream of marks. -/
def markTrace : Machine Session (Env × SessionOp) (Event CStr) where
  step := Session.step
  out s x := s.streamEvents x ++ (s.newAcks x).map .ack

/-! ### Acknowledgements pushed by a call -/

variable {env : Env} {s : Session} {ms : Offers}

/-- The acknowledgements among the offers that were stored. -/
def Offers.acks (ms : Offers) : List CStr := ms.stored.filterMap OutMsg.markName?

theorem reduceOption_names (ms : Offers) :
    ms.names.reduceOption = (ms.map Prod.snd).filterMap OutMsg.markName? := by
  have h : ms.names.reduceOption = (ms.map fun om => om.2.markName?).filterMap id := rfl
  rw [h, List.filterMap_map, List.filterMap_map]
  rfl

theorem acks_sublist (ms : Offers) : ms.acks.Sublist ms.names.reduceOption := by
  rw [reduceOption_names]
  exact (stored_sublist ms).filterMap _

theorem acks_of_plentiful (hf : ms.From env) (henv : env.Plentiful) :
    ms.acks = ms.names.reduceOption := by
  rw [Offers.acks, hf.stored_eq henv, reduceOption_names]

theorem acks_of_no_marks (h : ∀ om ∈ ms, om.2.markName? = none) : ms.acks = [] := by
  refine List.filterMap_eq_nil_iff.mpr fun m hm => ?_
  obtain ⟨om, hom, rfl⟩ := List.mem_map.mp hm
  exact h om (List.mem_of_mem_filter hom)

@[simp] theorem reduceOption_map_some (l : List CStr) : (l.map some).reduceOption = l := by
  induction l with
  | nil => rfl
  | cons a l ih => exact congrArg _ ih

theorem Emits.acksPushed {s t : Session} (h : Emits s.out ms t.out) :
    t.acksPushed = s.acksPushed ++ ms.acks := by
  have hp : Fifo.pushes t.outbound.history = Fifo.pushes s.outbound.history ++ ms.stored := h.pushes
  rw [Session.acksPushed, hp, List.filterMap_append]
  rfl

theorem pushes_take (op : SessionOp) (q : BoundedQueue OutMsg) :
    Fifo.pushes (op.take q).history = Fifo.pushes q.history := by
  cases op with
  | popOutbound =>
    rcases rtwQueuePop_spec q with ⟨-, he⟩ | ⟨b, -, -, hh, -⟩
    · rw [SessionOp.take, he]
    · rw [SessionOp.take, hh, Fifo.pushes_append]
      exact List.append_nil _
  | dropOutboundHead =>
    rcases rtwQueueDropHead_spec q with ⟨-, he⟩ | ⟨b, -, -, hh, -⟩
    · rw [SessionOp.take, he]
    · rw [SessionOp.take, hh, Fifo.pushes_append]
      exact List.append_nil _
  | _ => rfl

/-! ### What a call does to marks -/

/-- The calls that harvest completed marks. -/
def SessionOp.harvests : SessionOp → Bool
  | .popOutbound | .peekOutbound | .harvestMarks => true
  | _ => false

/-- The ways a call can touch the mark table, with the stream events of each. The
offers `ms` are those of the call. -/
inductive MarkEffect (env : Env) (op : SessionOp) (s t : Session) (ms : Offers) :
    List (Event CStr) → Prop
  | quiet (ho : op.harvests = false) (hp : t.playout = s.playout) (ha : ms.acks = []) :
      MarkEffect env op s t ms []
  | wrote (ho : op.harvests = false) (n : ℕ) (hm : t.playout.marks = s.playout.marks)
      (hs : t.playout.size = s.playout.size + n) (ha : ms.acks = []) :
      MarkEffect env op s t ms [.write n]
  | read (ho : op.harvests = false) (n : ℕ) (hn : n ≤ s.playout.size)
      (hs : t.playout.size = s.playout.size - n)
      (hm : t.playout.marks =
        s.playout.marks.map fun m => { m with bytesAfter := m.bytesAfter - n })
      (ha : ms.acks = []) : MarkEffect env op s t ms [.gone n]
  | marked (ho : op.harvests = false) (name : CBuf RTW_MARK_NAME_LEN)
      (hm : t.playout.marks = s.playout.marks ++ [⟨name, s.playout.size⟩])
      (hs : t.playout.size = s.playout.size) (ha : ms.acks = []) :
      MarkEffect env op s t ms [.mark name.toCStr]
  | cleared (ho : op.harvests = false) (hm : t.playout.marks = []) (hs : t.playout.size = 0)
      (ha : ms.acks.Sublist s.pendingMarks) (hok : env.Plentiful → ms.acks = s.pendingMarks) :
      MarkEffect env op s t ms [.gone s.playout.size]
  | harvested (ho : op.harvests = true)
      (hp : t.playout = (rtwPlayoutPopCompletedMarks s.playout HARVEST_MAX).2)
      (ha : ms.acks.Sublist ((completed s.playout.marks).map fun m => m.name.toCStr))
      (hok : env.Plentiful → ms.acks =
        ((completed s.playout.marks).take HARVEST_MAX).map fun m => m.name.toCStr) :
      MarkEffect env op s t ms []

theorem handlePeerJson_effect (env : Env) (s : Session) (json : CStr) :
    ∃ ms, Emits s.out ms (rtwSessionHandlePeerJson env s json).2.out ∧ ms.From env ∧
      MarkEffect env (.handlePeerJson json) s (rtwSessionHandlePeerJson env s json).2 ms
        (s.inboundEvents env json) := by
  unfold Session.inboundEvents
  cases hj : s.inboundFor env json with
  | none =>
    rw [(handlePeerJson_of_none hj).2]
    exact ⟨[], .nil _, .nil, .quiet rfl rfl rfl⟩
  | some ev =>
    obtain ⟨ms, he, hf, -, hev⟩ := handleEvent_spec env s ev
    rw [handlePeerJson_of_event hj]
    refine ⟨ms, he, hf, ?_⟩
    rcases htype : ev.type with _ | _ | _ | _ | _ | _ | _ | _ <;> simp only [htype] at hev ⊢
    case media =>
      obtain ⟨rfl, hr, hp⟩ := hev
      by_cases hw : (rtwPlayoutWrite s.playout ev.payload).1 = 0
      · rw [if_pos (by rw [hr, if_pos hw])]
        refine .wrote rfl _ (by rw [hp, marks_write]) ?_ rfl
        rw [hp, (write_accepted _ hw).2]
      · rw [if_neg (by rw [hr, if_neg hw]; decide)]
        exact .quiet rfl (by rw [hp, write_rejected _ hw]) rfl
    case mark =>
      obtain ⟨rfl, hr, hp⟩ := hev
      by_cases hw : (rtwPlayoutAddMark s.playout ev.markName.toCStr).1 = 0
      · rw [if_pos (hr.trans hw)]
        refine .marked rfl (CBuf.copy RTW_MARK_NAME_LEN ev.markName.toCStr) ?_ ?_ rfl
        · rw [hp, addMark_accepted _ hw, Playout.length_bytes]
        · rw [hp, ← Playout.length_bytes, bytes_addMark, Playout.length_bytes]
      · rw [if_neg (hr ▸ hw)]
        exact .quiet rfl (by rw [hp, addMark_rejected _ hw]) rfl
    case clear =>
      obtain ⟨hn, hok, hp⟩ := hev
      have hmap : (s.playout.marks.map fun m => some m.name.toCStr) = s.pendingMarks.map some := by
        rw [Session.pendingMarks, List.map_map]
        rfl
      rw [hmap] at hn hok
      refine .cleared rfl (by rw [hp, marks_clear]) ?_ ?_ fun henv => ?_
      · rw [hp]
        rfl
      · apply (acks_sublist ms).trans
        rw [← reduceOption_map_some s.pendingMarks]
        exact hn.sublist.filterMap _
      · rw [acks_of_plentiful hf henv, hok henv, reduceOption_map_some]
    all_goals
      obtain ⟨rfl, -, hp⟩ := hev
      exact .quiet rfl hp rfl

theorem harvestMarks_effect (env : Env) (s : Session) :
    ∃ ms, Emits s.out ms (rtwSessionHarvestMarks env s).out ∧
      ∀ (op : SessionOp) (t : Session), op.harvests = true →
        t.playout = (rtwSessionHarvestMarks env s).playout → MarkEffect env op s t ms [] := by
  obtain ⟨ms, x, hx, he, hf, hn⟩ := rtwSessionHarvestMarks_spec env s
  have hmap : ms.names =
      (((completed s.playout.marks).take HARVEST_MAX).map fun m => m.name.toCStr).map some := by
    rw [hn, List.map_map]
    rfl
  rw [hx]
  refine ⟨ms, he, fun op t ho hp => .harvested ho hp ?_ fun henv => ?_⟩
  · apply (acks_sublist ms).trans
    rw [hmap, reduceOption_map_some]
    exact (List.take_sublist _ _).map _
  · rw [acks_of_plentiful hf henv, hmap, reduceOption_map_some]

/-- Every call touches the marks in one of these ways. -/
theorem Session.step_effect (s : Session) (env : Env) (op : SessionOp) :
    ∃ ms, (s.step (env, op)).acksPushed = s.acksPushed ++ ms.acks ∧
      MarkEffect env op s (s.step (env, op)) ms (s.streamEvents (env, op)) := by
  have htake : ∀ (op : SessionOp) (t u : Session), u.outbound = op.take t.outbound →
      u.acksPushed = t.acksPushed := fun op t u hu => by
    rw [acksPushed, hu, pushes_take, acksPushed]
  cases op with
  | handlePeerJson json =>
    obtain ⟨ms, he, -, hm⟩ := handlePeerJson_effect env s json
    exact ⟨ms, he.acksPushed, hm⟩
  | pushPcm16 pcm =>
    obtain ⟨ms, he, -, hn, hs⟩ := rtwSessionPushPcm16_spec env s pcm
    exact ⟨ms, he.acksPushed, .quiet rfl hs.playout (acks_of_no_marks hn)⟩
  | stop =>
    obtain ⟨ms, he, -, hn, hp, -⟩ := rtwSessionStop_spec env s
    exact ⟨ms, he.acksPushed, .quiet rfl hp (acks_of_no_marks hn)⟩
  | rehandshake =>
    obtain ⟨ms, x, hx, he, -, hp, -⟩ := rtwSessionRehandshake_spec env s
    refine ⟨ms, ?_, .quiet rfl ?_ (acks_of_no_marks fun om hom => ?_)⟩
    · rw [step, hx]
      exact he.acksPushed
    · rw [step, hx]
      rfl
    · have hmem := hp.subset (List.mem_map_of_mem hom)
      rcases List.mem_pair.mp hmem with h | h <;> rw [h] <;> rfl
  | popOutbound =>
    obtain ⟨ms, he, hm⟩ := harvestMarks_effect env s
    exact ⟨ms, (htake .popOutbound _ _ rfl).trans he.acksPushed, hm _ _ rfl rfl⟩
  | peekOutbound =>
    obtain ⟨ms, he, hm⟩ := harvestMarks_effect env s
    exact ⟨ms, he.acksPushed, hm _ _ rfl rfl⟩
  | harvestMarks =>
    obtain ⟨ms, he, hm⟩ := harvestMarks_effect env s
    exact ⟨ms, he.acksPushed, hm _ _ rfl rfl⟩
  | dropOutboundHead =>
    exact ⟨[], (htake .dropOutboundHead s _ rfl).trans (List.append_nil _).symm,
      .quiet rfl rfl rfl⟩
  | noteWriteAfterClear n =>
    obtain ⟨ho, hs⟩ := noteWriteAfterClear_frame env s n
    refine ⟨[], ?_, .quiet rfl hs.playout rfl⟩
    rw [acksPushed, show (s.step (env, .noteWriteAfterClear n)).outbound = s.outbound from
      congrArg Prod.fst ho]
    exact (List.append_nil _).symm
  | readPlayout maxLen =>
    refine ⟨[], (List.append_nil _).symm, .read rfl _ ?_ (size_read _ _) (marks_read _ _) rfl⟩
    rw [rtwSessionReadPlayout, length_read]
    exact Nat.min_le_right _ _

theorem Session.newAcks_eq {x : Env × SessionOp} {l : List CStr}
    (h : (s.step x).acksPushed = s.acksPushed ++ l) : s.newAcks x = l := by
  rw [newAcks, h, List.drop_left]

/-! ### No acknowledgement is early, doubled or out of order -/

/-- A waiting mark stands at place `o` of the trace, and waits for the bytes written
before it that have not left yet. -/
def Waits (tr : List (Event CStr)) (o : ℕ) (m : Mark) : Prop :=
  tr[o]? = some (.mark m.name.toCStr) ∧ m.bytesAfter = written (tr.take o) - gone tr

/-- The mark table and the fill of the buffer agree with the trace. -/
def Tracks (tr : List (Event CStr)) (table : List Mark) (size : ℕ) : Prop :=
  written tr = gone tr + size ∧ ∃ os, Open tr os ∧ List.Forall₂ (Waits tr) os table

variable {tr : List (Event CStr)} {table : List Mark} {size : ℕ}

theorem tracks_nil : Tracks [] [] 0 := ⟨rfl, [], open_nil, .nil⟩

theorem Tracks.disciplined (h : Tracks tr table size) : Disciplined tr :=
  let ⟨_, _, ho, _⟩ := h
  ho.disciplined

private theorem Waits.snoc {o : ℕ} {m : Mark} (h : Waits tr o m) (e : Event CStr) :
    Waits (tr ++ [e]) o { m with bytesAfter := m.bytesAfter - gone [e] } := by
  have ho : o < tr.length := (List.getElem?_eq_some_iff.mp h.1).1
  refine ⟨by rw [List.getElem?_append_left ho]; exact h.1, ?_⟩
  rw [List.take_append_of_le_length ho.le, gone_append, ← Nat.sub_sub, ← h.2]

theorem Tracks.write (h : Tracks tr table size) (n : ℕ) :
    Tracks (tr ++ [.write n]) table (size + n) := by
  obtain ⟨hw, os, ho, hm⟩ := h
  refine ⟨?_, os, ho.snoc rfl, hm.imp fun _ _ h => h.snoc _⟩
  rw [written_append, gone_append, hw]
  simp [written, gone, Event.written, Event.left, Nat.add_assoc]

theorem Tracks.gone (h : Tracks tr table size) {n : ℕ} (hn : n ≤ size) :
    Tracks (tr ++ [.gone n]) (table.map fun m => { m with bytesAfter := m.bytesAfter - n })
      (size - n) := by
  obtain ⟨hw, os, ho, hm⟩ := h
  refine ⟨?_, os, ho.snoc rfl, List.forall₂_map_right_iff.mpr (hm.imp fun _ _ h => h.snoc _)⟩
  rw [written_append, gone_append, hw]
  simp [written, Checkpoint.gone, Event.written, Event.left]
  omega

theorem Tracks.mark (h : Tracks tr table size) (name : CBuf RTW_MARK_NAME_LEN) :
    Tracks (tr ++ [.mark name.toCStr]) (table ++ [⟨name, size⟩]) size := by
  obtain ⟨hw, os, ho, hm⟩ := h
  have hg : Checkpoint.gone [(Event.mark name.toCStr : Event CStr)] = 0 := rfl
  refine ⟨?_, _, ho.mark _, List.rel_append (hm.imp fun _ _ h => h.snoc _) (.cons ⟨?_, ?_⟩ .nil)⟩
  · rw [written_append, gone_append, hw]
    rfl
  · exact List.getElem?_concat_length
  · rw [List.take_left, gone_append, hg, hw]
    simp

private theorem Tracks.skip {m : Mark} (h : Tracks tr (m :: table) size) :
    Tracks tr table size := by
  obtain ⟨hw, os, ho, hm⟩ := h
  cases hm with
  | cons _ hm => exact ⟨hw, _, ho.skip (List.sublist_cons_self _ _), hm⟩

private theorem Tracks.ack {m : Mark} (h : Tracks tr (m :: table) size) (h0 : m.bytesAfter = 0) :
    Tracks (tr ++ [.ack m.name.toCStr]) table size := by
  obtain ⟨hw, os, ho, hm⟩ := h
  cases hm with
  | cons hmo hm =>
    have hdue := Nat.sub_eq_zero_iff_le.mp (hmo.2.symm.trans h0)
    refine ⟨?_, _, ho.ack hmo.1 hdue, hm.imp fun _ _ h => h.snoc _⟩
    rw [written_append, gone_append, hw]
    rfl

/-- Marks that wait for nothing leave the table, acknowledged or not. -/
theorem Tracks.acks {done rest : List Mark} {acks : List CStr}
    (h : Tracks tr (done ++ rest) size) (hd : ∀ m ∈ done, m.bytesAfter = 0)
    (ha : acks.Sublist (done.map fun m => m.name.toCStr)) :
    Tracks (tr ++ acks.map .ack) rest size := by
  induction done generalizing tr acks with
  | nil =>
    rw [List.sublist_nil.mp ha, List.map_nil, List.append_nil]
    exact h
  | cons m done ih =>
    have hrest : ∀ k ∈ done, k.bytesAfter = 0 := fun k hk => hd k (by simp [hk])
    cases ha with
    | cons _ ha => exact ih h.skip hrest ha
    | cons_cons _ ha =>
      rw [List.map_cons, ← List.singleton_append, ← List.append_assoc]
      exact ih (h.ack (hd m (by simp))) hrest ha

theorem Tracks.step {s : Session} (h : Tracks tr s.playout.marks s.playout.size)
    (x : Env × SessionOp) :
    Tracks (tr ++ markTrace.out s x) (s.step x).playout.marks (s.step x).playout.size := by
  obtain ⟨ms, hacks, heff⟩ := s.step_effect x.1 x.2
  have hout : markTrace.out s x = s.streamEvents x ++ ms.acks.map .ack := by
    rw [← Session.newAcks_eq hacks]
    rfl
  rw [hout]
  generalize s.streamEvents x = evs at heff ⊢
  cases heff with
  | quiet ho hp ha =>
    rw [ha, hp]
    simpa using h
  | wrote ho n hm hs ha =>
    rw [ha, hm, hs]
    exact h.write n
  | read ho n hn hs hm ha =>
    rw [ha, hm, hs]
    exact h.gone hn
  | marked ho name hm hs ha =>
    rw [ha, hm, hs]
    exact h.mark name
  | cleared ho hm hs ha hok =>
    have hgone := h.gone le_rfl
    rw [Nat.sub_self] at hgone
    rw [hm, hs, ← List.append_assoc]
    -- after the bytes are gone no mark waits for any
    refine Tracks.acks (by rwa [List.append_nil]) ?_ ?_
    · intro m hm
      obtain ⟨k, hk, rfl⟩ := List.mem_map.mp hm
      exact Nat.sub_eq_zero_of_le (s.playout.within k hk)
    · rw [List.map_map]
      exact ha
  | harvested ho hp ha hok =>
    rw [hp, marks_popCompletedMarks, List.nil_append]
    refine Tracks.acks (by rw [s.playout.completed_append]; exact h) ?_ ha
    intro m hm
    simpa using (List.mem_filter.mp hm).2

/-! ### No acknowledgement is lost while harvests fit their buffer -/

/-- A harvest hands out every completed mark it removes. -/
def HarvestFits (s : Session) (x : Env × SessionOp) : Prop :=
  x.2.harvests → (completed s.playout.marks).length ≤ HARVEST_MAX

instance (s : Session) (x : Env × SessionOp) : Decidable (HarvestFits s x) :=
  inferInstanceAs (Decidable (_ → _ ≤ _))

/-- Acknowledged and waiting marks are among the marks known before and the new ones. -/
theorem Session.step_ledger (s : Session) (x : Env × SessionOp) :
    (acks (markTrace.out s x) ++ (s.step x).pendingMarks).Sublist
        (s.pendingMarks ++ marks (markTrace.out s x)) ∧
      (x.1.Plentiful → (HarvestFits s x ↔
        (acks (markTrace.out s x) ++ (s.step x).pendingMarks).length =
          (s.pendingMarks ++ marks (markTrace.out s x)).length)) := by
  obtain ⟨ms, hacks, heff⟩ := s.step_effect x.1 x.2
  have hout : markTrace.out s x = s.streamEvents x ++ ms.acks.map .ack := by
    rw [← Session.newAcks_eq hacks]
    rfl
  rw [hout, acks_append, marks_append, acks_map_ack, marks_map_ack, List.append_nil]
  -- a call that does not harvest keeps the ledger balanced
  have hbal : ∀ {l r : List CStr}, x.2.harvests = false → l = r → l.Sublist r ∧
      (x.1.Plentiful → (HarvestFits s x ↔ l.length = r.length)) := by
    rintro l _ ho rfl
    exact ⟨List.Sublist.refl l, fun _ => ⟨fun _ => rfl, fun _ h => absurd h (by simp [ho])⟩⟩
  generalize s.streamEvents x = evs at heff ⊢
  cases heff with
  | quiet ho hp ha =>
    apply hbal ho
    rw [ha, Session.pendingMarks, hp]
    exact (List.append_nil _).symm
  | wrote ho n hm hs ha =>
    apply hbal ho
    rw [ha, Session.pendingMarks, hm]
    exact (List.append_nil _).symm
  | read ho n hn hs hm ha =>
    apply hbal ho
    rw [ha, Session.pendingMarks, hm, List.map_map]
    exact (List.append_nil _).symm
  | marked ho name hm hs ha =>
    apply hbal ho
    rw [ha, Session.pendingMarks, hm, List.map_append]
    rfl
  | cleared ho hm hs ha hok =>
    have hnil : (s.step x).pendingMarks = [] := by rw [Session.pendingMarks, hm, List.map_nil]
    have hl : acks [Event.gone s.playout.size] ++ ms.acks ++ (s.step x).pendingMarks = ms.acks := by
      rw [hnil, List.append_nil]
      rfl
    have hr : s.pendingMarks ++ marks [Event.gone s.playout.size] = s.pendingMarks :=
      List.append_nil _
    rw [hl, hr]
    exact ⟨ha, fun henv => ⟨fun _ => congrArg _ (hok henv), fun _ h => absurd h (by simp [ho])⟩⟩
  | harvested ho hp ha hok =>
    have hr : s.pendingMarks ++ marks ([] : List (Event CStr)) =
        ((completed s.playout.marks).map fun m => m.name.toCStr) ++ (s.step x).pendingMarks := by
      rw [Session.pendingMarks, Session.pendingMarks, hp, marks_popCompletedMarks,
        ← List.map_append, s.playout.completed_append]
      exact List.append_nil _
    rw [hr]
    refine ⟨List.Sublist.append ha (List.Sublist.refl _), fun henv => ?_⟩
    rw [HarvestFits, hok henv]
    simp only [ho, true_implies, List.length_append, List.length_map, List.length_take]
    have hnil : (acks ([] : List (Event CStr))).length = 0 := rfl
    omega

/-- Marks accepted in a run, marks acknowledged, and marks still waiting. -/
def Balanced (s : Session) (tr : List (Event CStr)) : Prop :=
  (marks tr).Perm (acks tr ++ s.pendingMarks)

theorem Balanced.step_iff {s : Session} {tr : List (Event CStr)} {x : Env × SessionOp}
    (hx : x.1.Plentiful) (h : Balanced s tr) :
    Balanced (s.step x) (tr ++ markTrace.out s x) ↔ HarvestFits s x := by
  obtain ⟨hsub, hlen⟩ := s.step_ledger x
  rw [hlen hx, Balanced, marks_append, acks_append, List.append_assoc]
  constructor
  · intro hperm
    have hnew := hperm.length_eq
    have hold := h.length_eq
    simp only [List.length_append] at hnew hold ⊢
    omega
  · intro heq
    rw [hsub.eq_of_length heq, ← List.append_assoc]
    exact h.append_right _

/-- Over a run without allocation failure every accepted mark is at every moment either
waiting or acknowledged once, exactly when no harvest meets more completed marks than
its buffer holds. -/
theorem marks_balanced_iff_harvests_fit {s : Session} (hs : s.Started)
    {ops : List (Env × SessionOp)} (hops : ∀ x ∈ ops, x.1.Plentiful) :
    (∀ k, Balanced (markTrace.run s (ops.take k)) (markTrace.outputs s (ops.take k))) ↔
      markTrace.Along HarvestFits s ops := by
  obtain ⟨-, -, -, hmarks, -⟩ := hs.spec
  have h0 : Balanced s [] := by
    rw [Balanced, Session.pendingMarks, hmarks]
    exact .refl _
  exact Machine.history_invariant_iff markTrace (fun x hx _ _ h => h.step_iff (hops x hx)) h0

/-- A text that sets a mark. -/
def markText : CStr := .lit "\x7b\"event\":\"mark\",\"mark\":\x7b\"name\":\"m\"\x7d\x7d"

/-- A text that sets a mark of this name, one that carries audio, and one that clears. -/
def namedMark (name : String) : CStr :=
  .lit ("\x7b\"event\":\"mark\",\"mark\":\x7b\"name\":\"" ++ name ++ "\"\x7d\x7d")

def mediaText (payload : String) : CStr :=
  .lit ("\x7b\"event\":\"media\",\"media\":\x7b\"payload\":\"" ++ payload ++ "\"\x7d\x7d")

def clearEvent : CStr := .lit "\x7b\"event\":\"clear\"\x7d"

/-- Four bytes of audio, a mark, two bytes more and a second mark. A first read ends inside
the audio before the first mark and a second one inside the audio behind it; the clear completes
the second mark. -/
def twoMarks : List (Env × SessionOp) :=
  [.handlePeerJson (mediaText "AQIDBA=="), .handlePeerJson (namedMark "a"),
    .handlePeerJson (mediaText "BQY="), .handlePeerJson (namedMark "b"), .readPlayout 3,
    .harvestMarks, .readPlayout 2, .harvestMarks, .handlePeerJson clearEvent].map (.calm, ·)

theorem twoMarks_plentiful : ∀ x ∈ twoMarks, x.1.Plentiful := by
  intro x hx
  obtain ⟨op, -, rfl⟩ := List.mem_map.mp hx
  exact Env.calm_plentiful

theorem marks_balanced_two_marks :
    (marks (markTrace.outputs (.boot 4 8 demoSid) twoMarks)).length = 2 ∧
      ∀ k, Balanced (markTrace.run (.boot 4 8 demoSid) (twoMarks.take k))
        (markTrace.outputs (.boot 4 8 demoSid) (twoMarks.take k)) := by
  constructor
  · decide +kernel
  · apply (marks_balanced_iff_harvests_fit (Session.boot_started 4 8 demoSid)
      twoMarks_plentiful).mpr
    decide +kernel

/-- Nine marks that complete between two harvests: the ninth is neither acknowledged
nor kept. -/
theorem ninth_mark_lost :
    let s := Session.boot 64 8 demoSid
    let ops := List.replicate 9 (Env.calm, SessionOp.handlePeerJson markText) ++
      [(Env.calm, .harvestMarks)]
    s.Started ∧ (∀ x ∈ ops, x.1.Plentiful) ∧
      (marks (markTrace.outputs s ops)).length = 9 ∧
      (acks (markTrace.outputs s ops)).length = 8 ∧
      (markTrace.run s ops).pendingMarks = [] ∧
      ¬ Balanced (markTrace.run s ops) (markTrace.outputs s ops) := by
  intro s ops
  have hm : (marks (markTrace.outputs s ops)).length = 9 := by decide +kernel
  have ha : (acks (markTrace.outputs s ops)).length = 8 := by decide +kernel
  have hp : (markTrace.run s ops).pendingMarks = [] := by decide +kernel
  refine ⟨Session.boot_started _ _ _, by simp [ops, Env.calm_plentiful], hm, ha, hp, ?_⟩
  intro h
  have hlen := h.length_eq
  rw [hp, List.append_nil, hm, ha] at hlen
  omega

/-- The table and the fill agree with the trace after every run of a started session. -/
theorem Session.Started.tracks {s : Session} (hs : s.Started) (ops : List (Env × SessionOp)) :
    Tracks (markTrace.outputs s ops) (markTrace.run s ops).playout.marks
      (markTrace.run s ops).playout.size := by
  obtain ⟨-, -, hbytes, hmarks, -⟩ := hs.spec
  have h0 : Tracks [] s.playout.marks s.playout.size := by
    rw [hmarks, ← s.playout.length_bytes, hbytes]
    exact tracks_nil
  have hrun := markTrace.history_invariant (P := fun _ _ => True)
    (J := fun t tr => Tracks tr t.playout.marks t.playout.size)
    (fun _ x _ _ h => h.step x) h0 (markTrace.along_of_forall (fun _ _ => trivial) s ops)
  rwa [List.nil_append] at hrun

/-- Over every run of a started session, each acknowledgement answers its own accepted
mark, in the order of the marks, and comes only after everything written before the
mark was read or cleared. Allocations may fail anywhere. -/
theorem mark_acks_disciplined {s : Session} (hs : s.Started) (ops : List (Env × SessionOp)) :
    Disciplined (markTrace.outputs s ops) ∧
      (acks (markTrace.outputs s ops)).Sublist (marks (markTrace.outputs s ops)) := by
  obtain ⟨-, -, -, hmarks, -⟩ := hs.spec
  have hledger : (acks [] ++ s.pendingMarks).Sublist (marks ([] : List (Event CStr))) := by
    rw [Session.pendingMarks, hmarks]
    exact List.Sublist.refl []
  have hrun := markTrace.history_invariant (P := fun _ _ => True)
    (J := fun t tr => (acks tr ++ t.pendingMarks).Sublist (marks tr))
    (fun t x tr _ h => by
      have hsub := (t.step_ledger x).1.append_left (acks tr)
      rw [← List.append_assoc, ← List.append_assoc, ← acks_append] at hsub
      rw [marks_append]
      exact hsub.trans (h.append_right _))
    hledger (markTrace.along_of_forall (fun _ _ => trivial) s ops)
  rw [List.nil_append] at hrun
  exact ⟨(hs.tracks ops).disciplined, (List.sublist_append_left _ _).trans hrun⟩

theorem mark_acks_disciplined_two_marks :
    Disciplined (markTrace.outputs (.boot 4 8 demoSid) twoMarks) ∧
      (acks (markTrace.outputs (.boot 4 8 demoSid) twoMarks)).Sublist
        (marks (markTrace.outputs (.boot 4 8 demoSid) twoMarks)) :=
  mark_acks_disciplined (Session.boot_started 4 8 demoSid) twoMarks

example : [7, 8, 9].map (fun k => acks (markTrace.outputs (.boot 4 8 demoSid)
    (twoMarks.take k))) = [[], [.lit "a"], [.lit "a", .lit "b"]] := by
  decide +kernel

end RealtimeWs.Core
