import RealtimeWs.Core.ClearLatency
import RealtimeWs.Mod.Bridge

/-! The statistics the bridge reports. -/
namespace RealtimeWs.Mod

open RealtimeWs.Core

structure RtwBridgeStats where
  streamSid : CBuf RTW_SID_MAX
  callSid : CBuf RTW_SID_MAX
  wsReady : Bool
  reconnectEnabled : Bool
  reconnectOk : UInt64
  uplinkFrames : UInt64
  downlinkFrames : UInt64
  clearEvents : UInt64
  clearLatencyLastUs : UInt64
  clearLatencyMaxUs : UInt64
  clearLatencyAvgUs : UInt64
  clearLatencySamples : UInt64
  outboundQueue : ℕ
  playoutBytes : ℕ
  recordInjected : Bool
  injectMode : InjectMode

inductive Trap
  | divisionByZero
  deriving DecidableEq, Repr

/-- The division of C, which has no result for a zero divisor. -/
def divide (a b : UInt64) : Except Trap UInt64 :=
  if b = 0 then .error .divisionByZero else .ok (a / b)

/-- `none` is the result `SWITCH_STATUS_FALSE`. -/
def rtwBridgeGetStats (locked : Bool) (tech : Tech) : Except Trap (Option RtwBridgeStats) :=
  if tech.cleanupStarted ∨ locked = false then .ok none
  else do
    -- the memset of the report leaves zero where there is no sample
    let avg ← if tech.session.clearLatencySamples ≠ 0 then
        divide tech.session.clearLatencySumUs tech.session.clearLatencySamples
      else .ok 0
    return some {
      streamSid := tech.streamSid
      callSid := tech.callSid
      wsReady := tech.wsReady
      reconnectEnabled := tech.reconnectEnabled
      reconnectOk := tech.reconnectOk
      uplinkFrames := tech.session.uplinkFrames
      downlinkFrames := tech.session.downlinkFrames
      clearEvents := tech.session.clearEvents
      clearLatencyLastUs := tech.session.clearLatencyLastUs
      clearLatencyMaxUs := tech.session.clearLatencyMaxUs
      clearLatencyAvgUs := avg
      clearLatencySamples := tech.session.clearLatencySamples
      outboundQueue := rtwQueueSize tech.session.outbound
      playoutBytes := rtwPlayoutSize tech.session.playout
      -- set when the call's bridge is started and never changed
      recordInjected := true
      injectMode := tech.injectMode }

/-- The report divides only by a count that is not zero. -/
theorem rtwBridgeGetStats_spec (locked : Bool) (tech : Tech) :
    ∃ r, rtwBridgeGetStats locked tech = .ok r ∧ ∀ out ∈ r,
      out.clearLatencyMaxUs = tech.session.clearLatencyMaxUs ∧
      out.clearLatencyAvgUs =
        tech.session.clearLatencySumUs / tech.session.clearLatencySamples := by
  unfold rtwBridgeGetStats
  split
  · exact ⟨none, rfl, by simp⟩
  · by_cases hzero : tech.session.clearLatencySamples = 0
    · rw [if_neg (not_not.mpr hzero)]
      refine ⟨_, rfl, ?_⟩
      rintro out ⟨⟩
      rw [hzero, UInt64.div_zero]
      exact ⟨rfl, rfl⟩
    · rw [if_pos hzero, divide, if_neg hzero]
      refine ⟨_, rfl, ?_⟩
      rintro out ⟨⟩
      exact ⟨rfl, rfl⟩

/-- Over every run of an initialised session: the buckets hold the samples, no more samples
are taken than clears came, each sample is the time since the latest clear, the largest and
the total are those of the samples, and the reported mean is defined and at most the
largest. -/
theorem clear_latency_consistent {queueOk playoutOk : Bool} {outQueueCap playoutCap : ℕ}
    {s₀ : Session} (hinit : rtwSessionInit queueOk playoutOk outQueueCap playoutCap = some s₀)
    {acts : List (Env × SessionAct)} (hclock : Clock acts)
    (hclears : (clearTimes s₀ acts).length < 2 ^ 64)
    (hsum : ((acting.outputs s₀ acts).map UInt64.toNat).sum < 2 ^ 64) :
    let s := acting.run s₀ acts
    let samples := acting.outputs s₀ acts
    (∑ j, (s.clearLatencyBuckets j).toNat = s.clearLatencySamples.toNat) ∧
      s.clearLatencySamples.toNat = samples.length ∧
      s.clearLatencySamples.toNat + (if s.clearArmed then 1 else 0) ≤ s.clearEvents.toNat ∧
      s.clearEvents.toNat = (clearTimes s₀ acts).length ∧
      (∀ pre x post, acts = pre ++ x :: post → ∀ us ∈ (acting.run s₀ pre).recorded x,
        ∃ t₀, (clearTimes s₀ pre).getLast? = some t₀ ∧
          us.toNat = (x.1.now.toNat - t₀.toNat) / 1000) ∧
      ((∀ us ∈ samples, us ≤ s.clearLatencyMaxUs) ∧
        (s.clearLatencyMaxUs ∈ samples ∨ samples = [] ∧ s.clearLatencyMaxUs = 0)) ∧
      s.clearLatencySumUs.toNat = (samples.map UInt64.toNat).sum ∧
      ∀ tech : Tech, tech.session = s → ∀ locked, ∃ r,
        rtwBridgeGetStats locked tech = .ok r ∧
          ∀ out ∈ r, out.clearLatencyAvgUs ≤ out.clearLatencyMaxUs := by
  intro s samples
  have hfig₀ := rtwSessionInit_figures hinit
  have hrunning₀ : s₀.clearFigures.running = none := by
    rw [hfig₀]
    rfl
  have hof₀ : s₀.clearFigures.Of [] := by
    rw [hfig₀]
    exact ⟨rfl, rfl, by simp, Or.inr ⟨rfl, rfl⟩, fun _ => rfl⟩
  have hof : s.clearFigures.Of samples := by
    obtain ⟨hrun, hout⟩ := acting_figures s₀ acts
    have h := hof₀.run ((acting.relabel Session.moments).outputs s₀ acts)
    rwa [← hrun, ← hout] at h
  have hevents : s.clearEvents = UInt64.ofNat (clearTimes s₀ acts).length := by
    have h := clearEvents_run s₀.clearFigures ((acting.relabel Session.moments).outputs s₀ acts)
    rw [← (acting_figures s₀ acts).1, hfig₀] at h
    exact h.trans (UInt64.zero_add _)
  have hle : samples.length + (if s.clearArmed then 1 else 0) ≤ (clearTimes s₀ acts).length := by
    have h := Stopwatch.length_readings_le elapsedUs
      ((acting.relabel Session.moments).outputs s₀ acts)
    rw [← (acting_watch hrunning₀ acts).1, ← (acting_watch hrunning₀ acts).2] at h
    have harmed : s.clearFigures.running.toList.length = if s.clearArmed then 1 else 0 := by
      unfold ClearFigures.running
      change (if s.clearArmed then some s.clearStartNs else none).toList.length = _
      split <;> rfl
    exact harmed ▸ h
  have hlen : samples.length < 2 ^ 64 := by omega
  have hcount : s.clearLatencySamples.toNat = samples.length := by
    have h : s.clearLatencySamples = UInt64.ofNat samples.length := hof.count
    rw [h, UInt64.toNat_ofNat_of_lt' hlen]
  have hcame : s.clearEvents.toNat = (clearTimes s₀ acts).length := by
    rw [hevents, UInt64.toNat_ofNat_of_lt' hclears]
  refine ⟨hof.sum_buckets hlen, hcount, ?_, hcame, ?_, ⟨hof.le_max, hof.max_mem⟩, ?_, ?_⟩
  · rw [hcount, hcame]
    exact hle
  · rintro pre x post rfl us hus
    obtain ⟨t₀, hlast, hus⟩ := recorded_since hrunning₀ hus
    have hmem : t₀ ∈ clearTimes s₀ pre := List.mem_of_getLast? hlast
    obtain ⟨hpos, hle⟩ := hclock.le_of_mem_clearTimes hmem
    exact ⟨t₀, hlast, hus ▸ toNat_elapsedUs hpos hle⟩
  · have h : s.clearLatencySumUs = UInt64.ofNat (samples.map UInt64.toNat).sum := hof.sum
    rw [h, UInt64.toNat_ofNat_of_lt' hsum]
  · intro tech htech locked
    obtain ⟨r, hr, hout⟩ := rtwBridgeGetStats_spec locked tech
    refine ⟨r, hr, fun out hmem => ?_⟩
    obtain ⟨hmax, havg⟩ := hout out hmem
    rw [hmax, havg, htech]
    exact hof.average_le hlen hsum

/-- A started call, a clear after two microseconds and, seven milliseconds in, a write that
finds nothing to play. -/
def clearedActs : List (Env × SessionAct) :=
  [(⟨1000, true, fun _ => .stored⟩, .start demoSid none none none),
   (⟨2000, true, fun _ => .stored⟩, .call (.op (.handlePeerJson
      (.lit "\x7b\"event\":\"clear\"\x7d")))),
   (⟨7000000, true, fun _ => .stored⟩, .call (.op (.noteWriteAfterClear 0)))]

theorem clear_latency_consistent_once :
    let s₀ := (rtwSessionInit true true 4 8).get (rtwSessionInit_isSome 4 8)
    acting.outputs s₀ clearedActs = [6998] ∧
      (acting.run s₀ clearedActs).clearLatencyMaxUs ∈ acting.outputs s₀ clearedActs := by
  intro s₀
  have hout : acting.outputs s₀ clearedActs = [6998] := by decide +kernel
  have hclears : clearTimes s₀ clearedActs = [2000] := by decide +kernel
  have hclock : Clock clearedActs := by
    constructor
    · decide
    · decide
  have hinit : rtwSessionInit true true 4 8 = some s₀ := (Option.some_get _).symm
  obtain ⟨-, -, -, -, -, ⟨-, hmax⟩, -⟩ := clear_latency_consistent hinit hclock
    (by rw [hclears]; decide) (by rw [hout]; decide)
  refine ⟨hout, hmax.resolve_right ?_⟩
  rintro ⟨hnil, -⟩
  rw [hout] at hnil
  cases hnil

end RealtimeWs.Mod
