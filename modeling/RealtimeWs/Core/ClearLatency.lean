import Mathlib.Algebra.BigOperators.Group.Finset.Basic
import Mathlib.Algebra.Order.BigOperators.Group.List
import Mathlib.Algebra.Ring.Nat
import Mathlib.Data.Fintype.Basic
import RealtimeWs.Core.Numbering
import RealtimeWs.Lib.Stopwatch

/-! The clear-latency figures over whole runs. A clear starts a stopwatch, the first
write that finds nothing to play reads it, and the figures are those of the readings. -/
namespace RealtimeWs.Core

open Stopwatch

/-- A call on an initialised session, the starts included. -/
inductive SessionAct
  | start (streamSid : CStr) (callSid accountSid customParamsJson : Option CStr)
  | call (c : SessionCall)

def Session.act (s : Session) : Env × SessionAct → Session
  | (env, .start streamSid callSid accountSid customParamsJson) =>
    (rtwSessionStart env s streamSid callSid accountSid customParamsJson).2
  | (env, .call c) => s.call (env, c)

/-- The sample a call records, as the session's own fields show it. -/
def Session.recorded (s : Session) (x : Env × SessionAct) : List UInt64 :=
  if (s.act x).clearLatencySamples = s.clearLatencySamples then []
  else [(s.act x).clearLatencyLastUs]

/-- The session with the samples it records. -/
def acting : Machine Session (Env × SessionAct) UInt64 where
  step := Session.act
  out := Session.recorded

/-- The text is a clear message for this stream. -/
def Session.clearedBy (env : Env) (s : Session) (json : CStr) : Prop :=
  ∃ ev, s.inboundFor env json = some ev ∧ ev.type = .clear

instance (env : Env) (s : Session) (json : CStr) : Decidable (s.clearedBy env json) :=
  decidable_of_iff ((s.inboundFor env json).any (fun ev => ev.type = .clear) = true)
    (by simp [Session.clearedBy, Option.any_eq_true])

/-- What a call means to the stopwatch. -/
def Session.moments (s : Session) : Env × SessionAct → List (Moment UInt64)
  | (env, .call (.op (.handlePeerJson json))) =>
    if s.clearedBy env json then [.start env.now] else []
  | (env, .call (.op (.noteWriteAfterClear 0))) => [.read env.now]
  | _ => []

/-- When the clear messages of a run came. -/
def clearTimes (s : Session) (acts : List (Env × SessionAct)) : List UInt64 :=
  starts ((acting.relabel Session.moments).outputs s acts)

/-! ### The figures -/

structure ClearFigures where
  clearEvents : UInt64
  clearArmed : Bool
  clearStartNs : UInt64
  clearLatencyLastUs : UInt64
  clearLatencyMaxUs : UInt64
  clearLatencySumUs : UInt64
  clearLatencySamples : UInt64
  clearLatencyBuckets : Fin RTW_CLEAR_LAT_BUCKETS → UInt64

def Session.clearFigures (s : Session) : ClearFigures where
  clearEvents := s.clearEvents
  clearArmed := s.clearArmed
  clearStartNs := s.clearStartNs
  clearLatencyLastUs := s.clearLatencyLastUs
  clearLatencyMaxUs := s.clearLatencyMaxUs
  clearLatencySumUs := s.clearLatencySumUs
  clearLatencySamples := s.clearLatencySamples
  clearLatencyBuckets := s.clearLatencyBuckets

/-- Whole microseconds between two readings of the clock, as the code takes them. -/
def elapsedUs (startNs now : UInt64) : UInt64 :=
  if startNs ≠ 0 then (now - startNs) / 1000 else 0

/-- What the start of the stopwatch and its reading do to the figures. -/
def figures : Machine ClearFigures (Moment UInt64) UInt64 where
  step f
    | .start now => { f with
        clearEvents := f.clearEvents + 1
        clearArmed := true
        clearStartNs := now }
    | .read now =>
      if f.clearArmed then
        let us := elapsedUs f.clearStartNs now
        { f with
          clearArmed := false
          clearLatencyLastUs := us
          clearLatencyMaxUs := if f.clearLatencyMaxUs < us then us else f.clearLatencyMaxUs
          clearLatencySumUs := f.clearLatencySumUs + us
          clearLatencySamples := f.clearLatencySamples + 1
          clearLatencyBuckets := Function.update f.clearLatencyBuckets (latencyBucket us)
            (f.clearLatencyBuckets (latencyBucket us) + 1) }
      else f
  out f
    | .start _ => []
    | .read now => if f.clearArmed then [elapsedUs f.clearStartNs now] else []

variable {env : Env} {s : Session}

/-! ### Calls that leave the figures alone -/

theorem clearFigures_spared : Spared Session.clearFigures := fun _ _ _ _ _ => rfl

theorem clearFigures_harvestMarks (env : Env) (s : Session) :
    (rtwSessionHarvestMarks env s).clearFigures = s.clearFigures :=
  clearFigures_spared.harvest (fun _ _ => rfl) env s

theorem clearFigures_start (env : Env) (s : Session) (streamSid : CStr)
    (callSid accountSid custom : Option CStr) :
    (rtwSessionStart env s streamSid callSid accountSid custom).2.clearFigures =
      s.clearFigures := by
  unfold rtwSessionStart
  dsimp only
  split
  · rfl
  · split
    · exact clearFigures_spared.handshake env _
    · exact clearFigures_spared.handshake env _

/-! ### Clears and readings -/

theorem clearFigures_handleEvent (env : Env) (s : Session) (ev : InboundEvent) :
    (handleEvent env s ev).2.clearFigures =
      if ev.type = .clear then figures.step s.clearFigures (.start env.now)
      else s.clearFigures := by
  unfold handleEvent
  cases ev.type with
  | media =>
    dsimp only
    split <;> rfl
  | clear =>
    obtain ⟨ms, x, hx, -⟩ := flushAcks_spec env 0 (rtwPlayoutClear s.playout RTW_MARK_MAX).1
      { s with
        playout := (rtwPlayoutClear s.playout RTW_MARK_MAX).2
        clearEvents := s.clearEvents + 1
        clearArmed := true
        clearStartNs := env.now }
    dsimp only
    rw [hx]
    rfl
  | _ => rfl

theorem clearFigures_handlePeerJson (env : Env) (s : Session) (json : CStr) :
    (rtwSessionHandlePeerJson env s json).2.clearFigures =
      if s.clearedBy env json then figures.step s.clearFigures (.start env.now)
      else s.clearFigures := by
  cases hj : s.inboundFor env json with
  | none =>
    have hnot : ¬ s.clearedBy env json := by
      rintro ⟨ev, hev, -⟩
      rw [hj] at hev
      cases hev
    rw [(handlePeerJson_of_none hj).2, if_neg hnot]
  | some ev =>
    have hiff : s.clearedBy env json ↔ ev.type = .clear := by
      constructor
      · rintro ⟨ev', hev, htype⟩
        rw [hj] at hev
        cases hev
        exact htype
      · intro htype
        exact ⟨ev, hj, htype⟩
    rw [handlePeerJson_of_event hj, clearFigures_handleEvent]
    exact if_congr hiff.symm rfl rfl

theorem clearFigures_note (env : Env) (s : Session) (n : ℕ) :
    (rtwSessionNoteWriteAfterClear env s n).clearFigures =
      if n = 0 then figures.step s.clearFigures (.read env.now) else s.clearFigures := by
  unfold rtwSessionNoteWriteAfterClear
  cases harmed : s.clearArmed with
  | false =>
    have hoff : ¬ s.clearFigures.clearArmed = true := by
      intro hon
      exact Bool.false_ne_true (harmed.symm.trans hon)
    have hread : figures.step s.clearFigures (.read env.now) = s.clearFigures := if_neg hoff
    rw [if_pos rfl, hread, ite_self]
  | true =>
    have hread : figures.step s.clearFigures (.read env.now) = _ := if_pos harmed
    rw [if_neg (by decide), hread]
    by_cases hn : n = 0
    · rw [if_neg (not_not.mpr hn), if_pos hn]
      rfl
    · rw [if_pos hn, if_neg hn]

/-- A call changes the figures as its moments do. -/
theorem clearFigures_act (s : Session) (x : Env × SessionAct) :
    (s.act x).clearFigures = figures.run s.clearFigures (s.moments x) := by
  obtain ⟨env, act⟩ := x
  cases act with
  | start streamSid callSid accountSid custom =>
    exact clearFigures_start env s streamSid callSid accountSid custom
  | call c =>
    cases c with
    | pause on => rfl
    | op o =>
      cases o with
      | handlePeerJson json =>
        refine (clearFigures_handlePeerJson env s json).trans ?_
        rw [Session.moments]
        split <;> rfl
      | noteWriteAfterClear n =>
        refine (clearFigures_note env s n).trans ?_
        cases n <;> rfl
      | pushPcm16 pcm => exact clearFigures_spared.push env s pcm
      | popOutbound => exact clearFigures_harvestMarks env s
      | peekOutbound => exact clearFigures_harvestMarks env s
      | harvestMarks => exact clearFigures_harvestMarks env s
      | stop => exact clearFigures_spared.stop (fun _ _ => rfl) env s
      | rehandshake => exact clearFigures_spared.rehandshake env s
      | readPlayout maxLen => rfl
      | dropOutboundHead => rfl

theorem moments_cases (s : Session) (x : Env × SessionAct) :
    s.moments x = [] ∨ s.moments x = [.start x.1.now] ∨ s.moments x = [.read x.1.now] := by
  unfold Session.moments
  split
  · split
    · exact Or.inr (Or.inl rfl)
    · exact Or.inl rfl
  · exact Or.inr (Or.inr rfl)
  · exact Or.inl rfl

/-- A sample is recorded exactly where the count of samples moves. -/
theorem figures_out (f : ClearFigures) (m : Moment UInt64) : figures.out f m =
    if (figures.step f m).clearLatencySamples = f.clearLatencySamples then []
    else [(figures.step f m).clearLatencyLastUs] := by
  cases m with
  | start now => exact (if_pos rfl).symm
  | read now =>
    unfold figures
    dsimp only
    by_cases harmed : f.clearArmed = true
    · have hne : f.clearLatencySamples + 1 ≠ f.clearLatencySamples := by
        intro h
        exact absurd (UInt64.add_eq_left.mp h) (by decide)
      simp only [if_pos harmed]
      exact (if_neg hne).symm
    · simp only [if_neg harmed, if_true]

theorem recorded_eq (s : Session) (x : Env × SessionAct) :
    s.recorded x = figures.outputs s.clearFigures (s.moments x) := by
  have hfig := clearFigures_act s x
  have hsamples : (s.act x).clearLatencySamples =
      (figures.run s.clearFigures (s.moments x)).clearLatencySamples :=
    congrArg ClearFigures.clearLatencySamples hfig
  have hlast : (s.act x).clearLatencyLastUs =
      (figures.run s.clearFigures (s.moments x)).clearLatencyLastUs :=
    congrArg ClearFigures.clearLatencyLastUs hfig
  rw [Session.recorded, hsamples, hlast]
  rcases moments_cases s x with hm | hm | hm
  · rw [hm]
    exact if_pos rfl
  · rw [hm, figures.outputs_cons, figures_out]
    exact (List.append_nil _).symm
  · rw [hm, figures.outputs_cons, figures_out]
    exact (List.append_nil _).symm

/-- Over a run the figures and the recorded samples are those of the run's moments. -/
theorem acting_figures (s : Session) (acts : List (Env × SessionAct)) :
    (acting.run s acts).clearFigures =
        figures.run s.clearFigures ((acting.relabel Session.moments).outputs s acts) ∧
      acting.outputs s acts =
        figures.outputs s.clearFigures ((acting.relabel Session.moments).outputs s acts) :=
  acting.simulation_relabel figures (fun s x => ⟨clearFigures_act s x, recorded_eq s x⟩) s acts

/-! ### The figures against the stopwatch -/

/-- The start that waits for its reading. -/
def ClearFigures.running (f : ClearFigures) : Option UInt64 :=
  if f.clearArmed then some f.clearStartNs else none

theorem figures_watch (f : ClearFigures) (m : Moment UInt64) :
    (figures.step f m).running = (watch elapsedUs).step f.running m ∧
      figures.out f m = (watch elapsedUs).out f.running m := by
  unfold ClearFigures.running
  cases m with
  | start now => exact ⟨rfl, by split <;> rfl⟩
  | read now =>
    unfold figures
    by_cases harmed : f.clearArmed = true
    · simp only [if_pos harmed]
      exact ⟨rfl, rfl⟩
    · simp only [if_neg harmed]
      exact ⟨rfl, rfl⟩

/-- The figures run as the stopwatch does. -/
theorem figures_refine (f : ClearFigures) (ms : List (Moment UInt64)) :
    (figures.run f ms).running = (watch elapsedUs).run f.running ms ∧
      figures.outputs f ms = (watch elapsedUs).outputs f.running ms := by
  induction ms generalizing f with
  | nil => exact ⟨rfl, rfl⟩
  | cons m ms ih =>
    obtain ⟨hrun, hout⟩ := figures_watch f m
    obtain ⟨hruns, houts⟩ := ih (figures.step f m)
    rw [hrun] at hruns houts
    constructor
    · exact hruns
    · rw [Machine.outputs_cons, Machine.outputs_cons, hout, houts]

/-- The figures are those of the samples. -/
structure ClearFigures.Of (f : ClearFigures) (samples : List UInt64) : Prop where
  count : f.clearLatencySamples = UInt64.ofNat samples.length
  sum : f.clearLatencySumUs = UInt64.ofNat (samples.map UInt64.toNat).sum
  le_max : ∀ us ∈ samples, us ≤ f.clearLatencyMaxUs
  max_mem : f.clearLatencyMaxUs ∈ samples ∨ samples = [] ∧ f.clearLatencyMaxUs = 0
  buckets : ∀ j, f.clearLatencyBuckets j =
    UInt64.ofNat ((samples.map latencyBucket).count j)

theorem ClearFigures.Of.step {f : ClearFigures} {samples : List UInt64} (h : f.Of samples)
    (m : Moment UInt64) : (figures.step f m).Of (samples ++ figures.out f m) := by
  cases m with
  | start now =>
    have hout : figures.out f (.start now) = [] := rfl
    rw [hout, List.append_nil]
    exact ⟨h.count, h.sum, h.le_max, h.max_mem, h.buckets⟩
  | read now =>
    unfold figures
    by_cases harmed : f.clearArmed = true
    · simp only [if_pos harmed]
      generalize elapsedUs f.clearStartNs now = us
      refine ⟨?_, ?_, ?_, ?_, ?_⟩
      · simp only [List.length_append, List.length_singleton, h.count]
        exact (UInt64.ofNat_add _ 1).symm
      · simp only [List.map_append, List.sum_append, h.sum, UInt64.ofNat_add]
        simp
      · intro us' hmem
        rcases List.mem_append.mp hmem with hold | hnew
        · have hle := h.le_max us' hold
          dsimp only
          split
          · rename_i hlt
            exact UInt64.le_of_lt (UInt64.lt_of_le_of_lt hle hlt)
          · exact hle
        · rw [List.mem_singleton.mp hnew]
          dsimp only
          split
          · exact UInt64.le_refl us
          · rename_i hlt
            exact UInt64.not_lt.mp hlt
      · left
        dsimp only
        split
        · exact List.mem_append_right _ List.mem_cons_self
        · rename_i hlt
          rcases h.max_mem with hmem | ⟨-, hzero⟩
          · exact List.mem_append_left _ hmem
          · -- nothing exceeds zero, so the first sample is zero as well
            have hus : us = f.clearLatencyMaxUs := by
              rw [hzero] at hlt ⊢
              exact UInt64.le_antisymm (UInt64.not_lt.mp hlt) (UInt64.zero_le)
            rw [← hus]
            exact List.mem_append_right _ List.mem_cons_self
      · intro j
        simp only [List.map_append, List.count_append, List.map_cons, List.map_nil]
        by_cases hj : j = latencyBucket us
        · subst hj
          rw [Function.update_self, h.buckets, List.count_singleton_self, UInt64.ofNat_add]
          rfl
        · rw [Function.update_of_ne hj, h.buckets, List.count_singleton,
            if_neg (by simpa using Ne.symm hj), Nat.add_zero]
    · simp only [if_neg harmed]
      rw [List.append_nil]
      exact h

theorem ClearFigures.Of.run {f : ClearFigures} (h : f.Of []) (ms : List (Moment UInt64)) :
    (figures.run f ms).Of (figures.outputs f ms) := by
  have hrun := figures.history_invariant (P := fun _ _ => True) (J := ClearFigures.Of)
    (fun f m samples _ h => h.step m) h (figures.along_of_forall (fun _ _ => trivial) f ms)
  exact hrun

/-- Every sample falls into one bucket. -/
theorem ClearFigures.Of.sum_buckets {f : ClearFigures} {samples : List UInt64}
    (h : f.Of samples) (hlen : samples.length < 2 ^ 64) :
    ∑ j, (f.clearLatencyBuckets j).toNat = f.clearLatencySamples.toNat := by
  have hbucket : ∀ j, (f.clearLatencyBuckets j).toNat =
      Multiset.count j (samples.map latencyBucket : Multiset (Fin RTW_CLEAR_LAT_BUCKETS)) := by
    intro j
    have hle : (samples.map latencyBucket).count j ≤ samples.length := by
      refine List.count_le_length.trans ?_
      rw [List.length_map]
    rw [h.buckets, UInt64.toNat_ofNat_of_lt' (hle.trans_lt hlen), Multiset.coe_count]
  have hcard : Multiset.card (samples.map latencyBucket :
      Multiset (Fin RTW_CLEAR_LAT_BUCKETS)) = samples.length := by
    rw [Multiset.coe_card, List.length_map]
  rw [Finset.sum_congr rfl fun j _ => hbucket j,
    Multiset.sum_count_eq_card fun j _ => Finset.mem_univ j, hcard, h.count,
    UInt64.toNat_ofNat_of_lt' hlen]

/-- The mean of the samples is at most the largest. -/
theorem ClearFigures.Of.average_le {f : ClearFigures} {samples : List UInt64}
    (h : f.Of samples) (hlen : samples.length < 2 ^ 64)
    (hsum : (samples.map UInt64.toNat).sum < 2 ^ 64) :
    f.clearLatencySumUs / f.clearLatencySamples ≤ f.clearLatencyMaxUs := by
  have htotal : (samples.map UInt64.toNat).sum ≤
      samples.length * f.clearLatencyMaxUs.toNat := by
    have hle : ∀ n ∈ samples.map UInt64.toNat, n ≤ f.clearLatencyMaxUs.toNat := by
      intro n hn
      obtain ⟨us, hus, rfl⟩ := List.mem_map.mp hn
      exact UInt64.le_iff_toNat_le.mp (h.le_max us hus)
    have hcard := List.sum_le_card_nsmul _ _ hle
    rwa [List.length_map, nsmul_eq_mul] at hcard
  rw [UInt64.le_iff_toNat_le, UInt64.toNat_div, h.sum, h.count,
    UInt64.toNat_ofNat_of_lt' hlen, UInt64.toNat_ofNat_of_lt' hsum]
  exact Nat.div_le_of_le_mul htotal

theorem clearEvents_run (f : ClearFigures) (ms : List (Moment UInt64)) :
    (figures.run f ms).clearEvents = f.clearEvents + UInt64.ofNat (starts ms).length := by
  induction ms using List.reverseRecOn with
  | nil => exact (UInt64.add_zero _).symm
  | append_singleton ms m ih =>
    rw [Machine.run_snoc]
    cases m with
    | start now =>
      rw [starts_start, List.length_append, UInt64.ofNat_add, ← UInt64.add_assoc, ← ih]
      rfl
    | read now =>
      rw [starts_read, ← ih]
      unfold figures
      dsimp only
      split <;> rfl

/-- An initialised session has no figures yet. -/
theorem rtwSessionInit_figures {queueOk playoutOk : Bool} {outQueueCap playoutCap : ℕ}
    {s : Session} (h : rtwSessionInit queueOk playoutOk outQueueCap playoutCap = some s) :
    s.clearFigures = ⟨0, false, 0, 0, 0, 0, 0, fun _ => 0⟩ := by
  unfold rtwSessionInit at h
  split at h
  · cases h
  · split at h
    · cases h
    · cases h
      rfl

/-- The clock of a run: positive readings that never go back. -/
structure Clock (acts : List (Env × SessionAct)) : Prop where
  pos : ∀ x ∈ acts, 0 < x.1.now
  mono : acts.Pairwise fun x y => x.1.now ≤ y.1.now

/-- A clear time is the clock of one of the calls. -/
theorem exists_of_mem_clearTimes {s : Session} {acts : List (Env × SessionAct)} {t : UInt64}
    (h : t ∈ clearTimes s acts) : ∃ x ∈ acts, x.1.now = t := by
  unfold clearTimes at h
  induction acts generalizing s with
  | nil => cases h
  | cons x acts ih =>
    rw [Machine.outputs_cons, starts, List.filterMap_append] at h
    rcases List.mem_append.mp h with hnow | hlater
    · refine ⟨x, List.mem_cons_self, ?_⟩
      change t ∈ (s.moments x).filterMap Moment.start? at hnow
      rcases moments_cases s x with hm | hm | hm <;> rw [hm] at hnow
      · cases hnow
      · exact (List.mem_singleton.mp hnow).symm
      · cases hnow
    · obtain ⟨y, hy, hty⟩ := ih hlater
      exact ⟨y, List.mem_cons_of_mem x hy, hty⟩

theorem Clock.le_of_mem_clearTimes {s : Session} {pre post : List (Env × SessionAct)}
    {x : Env × SessionAct} (h : Clock (pre ++ x :: post)) {t : UInt64}
    (ht : t ∈ clearTimes s pre) : 0 < t ∧ t ≤ x.1.now := by
  obtain ⟨y, hy, rfl⟩ := exists_of_mem_clearTimes ht
  obtain ⟨-, -, hlater⟩ := List.pairwise_append.mp h.mono
  exact ⟨h.pos y (List.mem_append_left _ hy), hlater y hy x List.mem_cons_self⟩

theorem toNat_elapsedUs {startNs now : UInt64} (hpos : 0 < startNs) (hle : startNs ≤ now) :
    (elapsedUs startNs now).toNat = (now.toNat - startNs.toNat) / 1000 := by
  rw [elapsedUs, if_pos (UInt64.ne_of_lt hpos).symm, UInt64.toNat_div,
    UInt64.toNat_sub_of_le now startNs hle]
  rfl

/-- A run from a state with no clear pending, as the stopwatch sees it. -/
theorem acting_watch {s₀ : Session} (h₀ : s₀.clearFigures.running = none)
    (acts : List (Env × SessionAct)) :
    (acting.run s₀ acts).clearFigures.running =
        (watch elapsedUs).run none ((acting.relabel Session.moments).outputs s₀ acts) ∧
      acting.outputs s₀ acts =
        (watch elapsedUs).outputs none ((acting.relabel Session.moments).outputs s₀ acts) := by
  obtain ⟨hrun, hout⟩ := acting_figures s₀ acts
  obtain ⟨hrun', hout'⟩ :=
    figures_refine s₀.clearFigures ((acting.relabel Session.moments).outputs s₀ acts)
  rw [h₀] at hrun' hout'
  exact ⟨(congrArg _ hrun).trans hrun', hout.trans hout'⟩

/-- A recorded sample is the time since the latest clear before it. -/
theorem recorded_since {s₀ : Session} (h₀ : s₀.clearFigures.running = none)
    {pre : List (Env × SessionAct)} {x : Env × SessionAct} {us : UInt64}
    (h : us ∈ (acting.run s₀ pre).recorded x) :
    ∃ t₀, (clearTimes s₀ pre).getLast? = some t₀ ∧ us = elapsedUs t₀ x.1.now := by
  rw [recorded_eq] at h
  rcases moments_cases (acting.run s₀ pre) x with hm | hm | hm <;> rw [hm] at h
  · cases h
  · cases h
  · rw [Machine.outputs_cons, Machine.outputs_nil, List.append_nil,
      (figures_watch _ _).2, (acting_watch h₀ pre).1] at h
    obtain ⟨t₀, t, ht, hlast, hus⟩ := mem_reading elapsedUs h
    cases ht
    exact ⟨t₀, hlast, hus⟩

end RealtimeWs.Core
