import RealtimeWs.Core.Numbering
import RealtimeWs.Mod.Delivery

/-! What is queued after a session has stopped, and the last message the bridge sends. -/
namespace RealtimeWs.Mod

open RealtimeWs.Core

/-- A harvest finds a completed mark and can store its acknowledgement. -/
def HarvestStores (env : Env) (s : Session) : Prop :=
  ∃ i < ((completed s.playout.marks).take HARVEST_MAX).length, env.enqueue i = .stored

instance (env : Env) (s : Session) : Decidable (HarvestStores env s) :=
  inferInstanceAs (Decidable (∃ _ < _, _))

/-- A call that harvests has nothing to acknowledge. -/
def AcksNothing (s : Session) : Env × SessionCall → Prop
  | (env, .op o) => o.harvests = true → ¬ HarvestStores env s
  | (_, .pause _) => True

/-- The message of a stop. -/
def stopMessage (s : Session) : OutMsg :=
  rtwBuildStop s.streamSid.toCStr (some s.accountSid.toCStr) (some s.callSid.toCStr) s.seq

/-! ### After a stop -/

theorem harvestAcks_pushed (env : Env) (i : ℕ) (names : List (CBuf RTW_MARK_NAME_LEN))
    (s : Session) : ∃ acks, (harvestAcks env i names s).pushed = s.pushed ++ acks ∧
      (acks = [] ↔ ∀ j < names.length, env.enqueue (i + j) ≠ .stored) := by
  induction names generalizing i s with
  | nil => exact ⟨[], (List.append_nil _).symm, by simp⟩
  | cons name names ih =>
    obtain ⟨acks, hacks, hnone⟩ := ih (i + 1) (enqueueAck (env.enqueue i) s name).2
    have hone : (enqueueAck (env.enqueue i) s name).2.pushed = s.pushed ++
        if env.enqueue i = .stored then
          [rtwBuildMark s.streamSid.toCStr name.toCStr s.seq] else [] :=
      pushes_offer (env.enqueue i) s.outbound _
    have hall : (∀ j < names.length + 1, env.enqueue (i + j) ≠ .stored) ↔
        env.enqueue i ≠ .stored ∧ ∀ j < names.length, env.enqueue (i + 1 + j) ≠ .stored := by
      rw [Nat.forall_lt_succ_left]
      simp only [Nat.add_zero, Nat.add_assoc, Nat.add_comm 1]
    rw [harvestAcks, hacks, hone, List.append_assoc, List.length_cons, hall, ← hnone]
    refine ⟨_, rfl, ?_⟩
    rw [List.append_eq_nil_iff]
    split <;> simp [*]

/-- A harvest queues nothing exactly when it has nothing to acknowledge. -/
theorem harvestMarks_pushed (env : Env) (s : Session) :
    (rtwSessionHarvestMarks env s).pushed = s.pushed ↔ ¬ HarvestStores env s := by
  obtain ⟨acks, hacks, hnone⟩ := harvestAcks_pushed env 0
    (rtwPlayoutPopCompletedMarks s.playout HARVEST_MAX).1
    { s with playout := (rtwPlayoutPopCompletedMarks s.playout HARVEST_MAX).2 }
  have hpushed : (rtwSessionHarvestMarks env s).pushed = s.pushed ++ acks := hacks
  rw [popCompletedMarks_fst, List.length_map] at hnone
  rw [hpushed, List.append_right_eq_self, hnone, HarvestStores]
  simp only [Nat.zero_add, not_exists, not_and]

/-- A stopped session stays stopped, and only its harvests queue anything. -/
theorem stopped_step {s : Session} (h : s.state = .stopped) (x : Env × SessionCall) :
    (s.call x).state = .stopped ∧ ((s.call x).pushed = s.pushed ↔ AcksNothing s x) := by
  have hrun : s.state ≠ .running := by
    rw [h]
    decide
  have hsame : ∀ {t : Session} {p : Prop}, t = s → (p ↔ True) →
      t.state = .stopped ∧ (t.pushed = s.pushed ↔ p) := by
    rintro t p rfl hp
    exact ⟨h, iff_of_true rfl (hp.mpr trivial)⟩
  obtain ⟨env, call⟩ := x
  have hstate : (rtwSessionHarvestMarks env s).state = .stopped := by
    obtain ⟨ms, x, hx, -⟩ := rtwSessionHarvestMarks_spec env s
    rw [hx]
    exact h
  have hharvest := harvestMarks_pushed env s
  have hquiet : ∀ {o : SessionOp}, o.harvests = false → (AcksNothing s (env, .op o) ↔ True) := by
    intro o ho
    apply iff_true_intro
    intro htrue
    rw [ho] at htrue
    cases htrue
  have hloud : ∀ {o : SessionOp}, o.harvests = true →
      (AcksNothing s (env, .op o) ↔ ¬ HarvestStores env s) :=
    fun ho => ⟨fun hacks => hacks ho, fun hno _ => hno⟩
  cases call with
  | pause on => exact ⟨h, iff_of_true rfl trivial⟩
  | op o =>
    cases o with
    | handlePeerJson json =>
      refine hsame ?_ (hquiet rfl)
      rw [Session.call, Session.step, rtwSessionHandlePeerJson, if_pos hrun]
    | pushPcm16 pcm =>
      refine hsame ?_ (hquiet rfl)
      rw [Session.call, Session.step, rtwSessionPushPcm16, if_pos (Or.inl hrun)]
    | stop =>
      refine hsame ?_ (hquiet rfl)
      rw [Session.call, Session.step, rtwSessionStop, if_pos (Or.inl h)]
    | rehandshake =>
      refine hsame ?_ (hquiet rfl)
      rw [Session.call, Session.step, rtwSessionRehandshake, if_pos hrun]
    | readPlayout maxLen => exact ⟨h, iff_of_true rfl ((hquiet rfl).mpr trivial)⟩
    | noteWriteAfterClear n =>
      obtain ⟨hout, hframe⟩ := noteWriteAfterClear_frame env s n
      refine ⟨hframe.state.trans h, iff_of_true ?_ ((hquiet rfl).mpr trivial)⟩
      exact congrArg (fun q => Fifo.pushes q.1.history) hout
    | dropOutboundHead =>
      refine ⟨h, iff_of_true ?_ ((hquiet rfl).mpr trivial)⟩
      exact pushes_take .dropOutboundHead s.outbound
    | popOutbound =>
      refine ⟨hstate, ?_⟩
      have htake : (s.call (env, .op .popOutbound)).pushed =
          (rtwSessionHarvestMarks env s).pushed := pushes_take .popOutbound _
      rw [htake, hloud rfl]
      exact hharvest
    | peekOutbound =>
      rw [hloud rfl]
      exact ⟨hstate, hharvest⟩
    | harvestMarks =>
      rw [hloud rfl]
      exact ⟨hstate, hharvest⟩

/-- A stop that succeeds stores its message and leaves the session stopped. -/
theorem rtwSessionStop_stored {env : Env} {s : Session} (h : (rtwSessionStop env s).1 = 0) :
    (rtwSessionStop env s).2 = { s.withOut ((offer .stored s.outbound (stopMessage s)).2, s.seq + 1)
      with state := .stopped } := by
  unfold rtwSessionStop at h ⊢
  split at h
  · cases h
  · rename_i hopen
    rw [if_neg hopen]
    simp only [enqueueJson_eq, offer_fst] at h ⊢
    cases ho : env.enqueue 0 with
    | stored => rfl
    | noJson =>
      rw [ho] at h
      cases h
    | noCopy =>
      rw [ho] at h
      cases h

/-! ### The flush of a stop -/

/-- What is stored is the newest entry of the queue. -/
theorem contents_offer_stored (q : BoundedQueue OutMsg) (m : OutMsg) :
    ∃ old, old <:+ q.contents ∧ (offer .stored q m).2.contents = old ++ [m] := by
  have hpush : q.evicted ++ (offer .stored q m).2.contents = q.contents ++ [m] := contents_push q m
  obtain ⟨old, hold⟩ : ∃ old, q.contents = q.evicted ++ old := by
    unfold BoundedQueue.evicted
    split
    · exact ⟨q.contents.drop 1, (List.take_append_drop 1 _).symm⟩
    · exact ⟨q.contents, rfl⟩
  refine ⟨old, ⟨q.evicted, hold.symm⟩, ?_⟩
  rw [hold, List.append_assoc] at hpush
  exact List.append_cancel_left hpush

/-- A queue of two or more entries is not emptied by an offer. -/
theorem offer_nonempty {o : EnqueueOutcome} {q : BoundedQueue OutMsg} {m : OutMsg}
    (hcap : 2 ≤ q.capacity) (h : q.contents ≠ []) : (offer o q m).2.contents ≠ [] := by
  have hfull : (offer o q m).2.contents = [] → q.size ≤ 1 := by
    intro hnil
    cases o with
    | stored =>
      obtain ⟨old, -, hc⟩ := contents_offer_stored q m
      rw [hc] at hnil
      exact absurd hnil (List.append_ne_nil_of_right_ne_nil old (List.cons_ne_nil m []))
    | noCopy =>
      have hfail : q.evicted ++ (offer .noCopy q m).2.contents = q.contents :=
        contents_push_failed q m
      rw [hnil, List.append_nil, BoundedQueue.evicted] at hfail
      rw [← q.length_contents, ← hfail]
      split
      · exact List.length_take_le _ _
      · exact Nat.zero_le _
    | noJson => exact absurd hnil h
  intro hnil
  have hsize := hfull hnil
  have hlt : q.size < q.capacity := by omega
  have hone : (offer o q m).2.contents = q.contents ++ if o = .stored then [m] else [] :=
    contents_offer_of_lt o m hlt
  rw [hone] at hnil
  exact h (List.append_eq_nil_iff.mp hnil).1

theorem emits_nonempty {x y : BoundedQueue OutMsg × UInt32} {ms : Offers} (h : Emits x ms y)
    (hcap : 2 ≤ x.1.capacity) (hne : x.1.contents ≠ []) : y.1.contents ≠ [] := by
  induction h with
  | nil x => exact hne
  | @number o m q seq ms y _ _ ih | @plain o m q seq ms y _ _ ih =>
    apply ih
    · rw [capacity_offer]
      exact hcap
    · exact offer_nonempty hcap hne

/-- A harvest appends acknowledgements, and what was queued moves up for them. -/
theorem harvestMarks_contents (env : Env) (s : Session) : ∃ moved acks,
    moved ++ (rtwSessionHarvestMarks env s).outbound.contents = s.outbound.contents ++ acks ∧
      (acks = [] ↔ ¬ HarvestStores env s) ∧ (∀ m ∈ acks, m.markName?.isSome = true) ∧
      (2 ≤ s.outbound.capacity → s.outbound.contents ≠ [] →
        (rtwSessionHarvestMarks env s).outbound.contents ≠ []) := by
  obtain ⟨ms, x, hx, he, -, hn⟩ := rtwSessionHarvestMarks_spec env s
  have hcontents : (rtwSessionHarvestMarks env s).outbound.contents = x.1.contents := by rw [hx]; rfl
  have hpushed : (rtwSessionHarvestMarks env s).pushed = s.pushed ++ ms.stored := by
    rw [hx]
    exact he.pushes
  obtain ⟨moved, hmoved⟩ := he.contents
  rw [hcontents]
  refine ⟨moved, ms.stored, hmoved, ?_, ?_, emits_nonempty he⟩
  · rw [← harvestMarks_pushed, hpushed, List.append_right_eq_self]
  · intro m hm
    obtain ⟨om, hom, rfl⟩ := List.mem_map.mp ((stored_sublist ms).subset hm)
    have hname : om.2.markName? ∈ ms.names :=
      List.mem_map_of_mem (f := fun om : EnqueueOutcome × OutMsg => om.2.markName?) hom
    rw [hn] at hname
    obtain ⟨mark, -, hmark⟩ := List.mem_map.mp hname
    rw [← hmark]
    rfl

/-- The messages that the last flush of `rtw_bridge_stop` sends. -/
def sentAtStop (io : Io) (tech : Tech) : List OutMsg :=
  (bridgeStopFinish io tech).delivered.drop tech.delivered.length

/-- The bridge as that flush finds it. -/
def stoppedTech (io : Io) (tech : Tech) : Tech := { tech with
  session := (rtwSessionStop (io.env 0) tech.session).2
  wsReady := tech.ws.isSome || tech.wsReady }

/-- They come from the head of the queue as the stop and its harvest leave it. -/
theorem sentAtStop_spec (io : Io) (tech : Tech) : sentAtStop io tech <+:
      (rtwSessionHarvestMarks (io.env 1)
        (rtwSessionStop (io.env 0) tech.session).2).outbound.contents ∧
    (io.locked = true → tech.ws.isSome = true → (∀ i, io.sends i = true) →
      sentAtStop io tech = (rtwSessionHarvestMarks (io.env 1)
        (rtwSessionStop (io.env 0) tech.session).2).outbound.contents) := by
  by_cases hlocked : io.locked = true
  · have hfinish : (bridgeStopFinish io tech).delivered =
        (flushOutbound io.tail (stoppedTech io tech)).delivered := by
      rw [bridgeStopFinish, if_pos hlocked]
      rfl
    cases hws : tech.ws with
    | none =>
      have hoff : flushOutbound io.tail (stoppedTech io tech) = stoppedTech io tech :=
        flushOutbound_off (Or.inl hws)
      have hnone : sentAtStop io tech = [] := by
        rw [sentAtStop, hfinish, hoff]
        exact List.drop_length
      rw [hnone]
      exact ⟨List.nil_prefix, fun _ h => by cases h⟩
    | some c =>
      have hready : (stoppedTech io tech).wsReady = true := by
        rw [stoppedTech, hws]
        rfl
      obtain ⟨k, hk⟩ : ∃ k, Sent io.tail c 0 k (harvested io.tail (stoppedTech io tech))
        (flushOutbound io.tail (stoppedTech io tech)) := flushOutbound_sent hws hready
      have htake : sentAtStop io tech = (rtwSessionHarvestMarks (io.env 1)
          (rtwSessionStop (io.env 0) tech.session).2).outbound.contents.take k := by
        rw [sentAtStop, hfinish, hk.delivered]
        exact List.drop_left
      rw [htake]
      refine ⟨List.take_prefix k _, fun _ _ hsends => ?_⟩
      apply List.take_of_length_le
      by_contra hlt
      have hstop := hk.stop (Nat.lt_of_not_le hlt)
      have hsend : io.tail.sends (0 + k) = true := hsends _
      rw [hstop] at hsend
      cases hsend
  · have hnone : sentAtStop io tech = [] := by
      rw [sentAtStop, bridgeStopFinish, if_neg hlocked]
      exact List.drop_length
    rw [hnone]
    exact ⟨List.nil_prefix, fun h => absurd h hlocked⟩

/-- Once a session has stopped, nothing more is queued exactly as long as its harvests
find nothing to acknowledge. If that holds for the harvest in the last flush of
`rtw_bridge_stop`, nothing is sent there after the stop message; if every send succeeds
and the queue has room for two messages, the stop message is the last one sent exactly
then. -/
theorem stop_ends_stream_iff {env : Env} {s : Session} (hstop : (rtwSessionStop env s).1 = 0) :
    (∀ after : List (Env × SessionCall),
      (∀ k, (calls.run (rtwSessionStop env s).2 (after.take k)).pushed =
          (rtwSessionStop env s).2.pushed) ↔
        calls.Along AcksNothing (rtwSessionStop env s).2 after) ∧
    ∀ (io : Io) (tech : Tech), io.env 0 = env → tech.session = s →
      (¬ HarvestStores (io.env 1) s → ∃ old, old <:+ s.outbound.contents ∧
        sentAtStop io tech <+: old ++ [stopMessage s]) ∧
      (io.locked = true → tech.ws.isSome = true → (∀ i, io.sends i = true) →
        2 ≤ s.outbound.capacity →
        ((sentAtStop io tech).getLast? = some (stopMessage s) ↔
          ¬ HarvestStores (io.env 1) s)) := by
  have hstored := rtwSessionStop_stored hstop
  constructor
  · intro after
    have hstate : (rtwSessionStop env s).2.state = .stopped := by rw [hstored]
    have hkeeps : ∀ x ∈ after, ∀ (t : Session) (_ : List (List Int16)),
        t.state = .stopped ∧ t.pushed = (rtwSessionStop env s).2.pushed →
          ((calls.step t x).state = .stopped ∧
            (calls.step t x).pushed = (rtwSessionStop env s).2.pushed ↔ AcksNothing t x) := by
      intro x _ t _ ht
      obtain ⟨hnext, hpushed⟩ := stopped_step ht.1 x
      rw [← hpushed, ← ht.2]
      exact ⟨And.right, fun h => ⟨hnext, h⟩⟩
    have hiff := calls.history_invariant_iff (h := [])
      (J := fun t _ => t.state = .stopped ∧ t.pushed = (rtwSessionStop env s).2.pushed)
      (P := AcksNothing) hkeeps ⟨hstate, rfl⟩
    rw [← hiff]
    constructor
    · intro h k
      refine ⟨?_, h k⟩
      exact calls.invariant (P := fun _ _ => True) (J := fun t => t.state = .stopped)
        (fun t x _ ht => (stopped_step ht x).1) hstate (calls.along_of_forall (fun _ _ => trivial) _ _)
    · exact fun h k => (h k).2
  · rintro io tech rfl rfl
    obtain ⟨hhead, hall⟩ := sentAtStop_spec io tech
    obtain ⟨old, hold, hcontents⟩ :=
      contents_offer_stored tech.session.outbound (stopMessage tech.session)
    obtain ⟨moved, acks, hmoved, hnone, hmarks, hne⟩ := harvestMarks_contents (io.env 1)
      (rtwSessionStop (io.env 0) tech.session).2
    have hqueued : (rtwSessionStop (io.env 0) tech.session).2.outbound.contents =
        old ++ [stopMessage tech.session] := by
      rw [hstored]
      exact hcontents
    have hsame : HarvestStores (io.env 1) (rtwSessionStop (io.env 0) tech.session).2 ↔
        HarvestStores (io.env 1) tech.session := by
      rw [hstored]
      exact Iff.rfl
    rw [hqueued] at hmoved hne
    rw [hsame] at hnone
    constructor
    · intro hquiet
      rw [hnone.mpr hquiet, List.append_nil] at hmoved
      have hsuffix : (rtwSessionHarvestMarks (io.env 1)
          (rtwSessionStop (io.env 0) tech.session).2).outbound.contents <:+
            old ++ [stopMessage tech.session] := ⟨moved, hmoved⟩
      rcases List.suffix_concat_iff.mp hsuffix with hnil | ⟨rest, hrest, hsub⟩
      · rw [hnil] at hhead
        exact ⟨old, hold, hhead.trans List.nil_prefix⟩
      · rw [hrest] at hhead
        exact ⟨rest, hsub.trans hold, hhead⟩
    · intro hlocked hws hsends hcap
      have hcap' : 2 ≤ (rtwSessionStop (io.env 0) tech.session).2.outbound.capacity := by
        rw [hstored]
        change 2 ≤ (offer .stored tech.session.outbound _).2.capacity
        rw [capacity_offer]
        exact hcap
      have hlast := List.getLast?_append_of_ne_nil moved (hne hcap' (by simp))
      rw [hmoved] at hlast
      rw [hall hlocked hws hsends, ← hlast, ← hnone]
      constructor
      · intro heq
        by_contra hacks
        rw [List.getLast?_append_of_ne_nil _ hacks] at heq
        have hmark := hmarks _ (List.mem_of_getLast? heq)
        cases hmark
      · intro hnil
        rw [hnil, List.append_nil, List.getLast?_concat]

/-- A bridge on its first connection, after the session calls given. -/
def calledTech (cs : List (Env × SessionCall)) : Tech :=
  openTech .calm (.copy _ demoSid) (.copy _ demoSid) 8000 1 (calls.run (.boot 64 8 demoSid) cs)

theorem stop_ends_stream_quiet :
    (∀ k, (calls.run (rtwSessionStop .calm (calledTech []).session).2
        ([(.calm, .op .popOutbound), (.calm, .op .rehandshake)].take k)).pushed =
      (rtwSessionStop .calm (calledTech []).session).2.pushed) ∧
    (sentAtStop .calm (calledTech [])).getLast? = some (stopMessage (calledTech []).session) := by
  have hstop : (rtwSessionStop .calm (calledTech []).session).1 = 0 := by decide +kernel
  obtain ⟨hafter, hflush⟩ := stop_ends_stream_iff hstop
  obtain ⟨-, hlast⟩ := hflush .calm (calledTech []) rfl rfl
  constructor
  · apply (hafter _).mpr
    refine ⟨?_, ?_, trivial⟩
    · intro _
      decide +kernel
    · intro h
      cases h
  · apply (hlast rfl rfl (fun _ => rfl) (by decide +kernel)).mpr
    decide +kernel

/-- A mark that is complete when the session stops is acknowledged after the stop, both by
a later peek and in the flush of `rtw_bridge_stop`. -/
theorem ack_after_stop :
    let tech := calledTech [(.calm, .op (.handlePeerJson markText))]
    let stopped := (rtwSessionStop .calm tech.session).2
    (Session.boot 64 8 demoSid).Started ∧ (rtwSessionStop .calm tech.session).1 = 0 ∧
      (calls.run stopped [(.calm, .op .peekOutbound)]).pushed ≠ stopped.pushed ∧
      stopMessage tech.session ∈ sentAtStop .calm tech ∧
      (sentAtStop .calm tech).getLast? ≠ some (stopMessage tech.session) := by
  intro tech stopped
  refine ⟨Session.boot_started 64 8 demoSid, ?_, ?_, ?_, ?_⟩
  · decide +kernel
  · decide +kernel
  · decide +kernel
  · decide +kernel

end RealtimeWs.Mod
