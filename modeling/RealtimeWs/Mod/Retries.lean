import RealtimeWs.Mod.Reconnect

/-! The retry policy: when the worker goes on after a failed attempt, and when it does not. -/
namespace RealtimeWs.Mod

open RealtimeWs.Core

variable {a : ℕ} {n : UInt64} {w : World} {h : List RetryEvent}

/-! ### When the worker goes on -/

/-- The bridge with a text taken, as the flush behind it finds it. -/
def handled (io : Io) (tech : Tech) (text : CStr) : Tech :=
  { tech with session := (rtwSessionHandlePeerJson (io.env 0) tech.session text).2 }

/-- The bridge after a rehandshake, as the flush behind it finds it. -/
def rehandshaken (io : Io) (tech : Tech) : Tech :=
  { tech with session := (rtwSessionRehandshake (io.env 0) tech.session).2 }

/-- An attempt succeeds or is at least the tenth, and no send fails between the new
connection and the end of `try_reconnect`. -/
def RetrySafe (w : World) : WorldEvent → Prop
  | .connect ok => w.pc = .opening → ok = true ∨ 10 ≤ w.tech.reconnectAttempts
  | .clear io => w.pc = .ready ∨ w.pc = .done → io.locked = true →
      SendsAll io.tail (handled io w.tech (clearText w.tech))
  | .sendMark io name => w.pc = .ready ∨ w.pc = .done → validMarkName name = true →
      io.locked = true → SendsAll io.tail (handled io w.tech (markMessage w.tech name))
  | .rehandshake io => w.pc = .ready → io.locked = true →
      SendsAll io.tail (rehandshaken io w.tech)
  | _ => True

/-- Attempts go on below the limit, and one that succeeded leaves a ready connection. -/
structure Held (a : ℕ) (w : World) (h : List RetryEvent) : Prop where
  stays : w.pc = .exited → 10 ≤ failed a h
  ready : w.pc = .ready ∨ w.pc = .done → w.tech.wsReady = true

/-- A call that leaves the connection ready exactly when `P` holds. -/
theorem Held.call_iff (hs : Held a w h) {t : Tech} {P : Prop}
    (hP : w.pc = .ready ∨ w.pc = .done → (t.wsReady = true ↔ P)) :
    Held a (if w.pc = .freed then w else { w with tech := t }) h ↔
      (w.pc = .ready ∨ w.pc = .done → P) := by
  split
  · rename_i hpc
    refine iff_of_true hs fun hno => ?_
    rw [hpc] at hno
    rcases hno with hno | hno <;> cases hno
  · constructor
    · intro ht hpc
      exact (hP hpc).mp (ht.ready hpc)
    · intro hp
      exact ⟨hs.stays, fun hpc => (hP hpc).mpr (hp hpc)⟩

theorem Held.call (hs : Held a w h) {t : Tech} (ht : t.wsReady = w.tech.wsReady) :
    Held a (if w.pc = .freed then w else { w with tech := t }) h := by
  refine (hs.call_iff (P := True) fun hpc => ?_).mpr fun _ => trivial
  exact iff_of_true (ht.trans (hs.ready hpc)) trivial

/-- At any other place there is nothing to hold. -/
theorem Held.elsewhere {t : Tech} {pc : WorkerPc} (hexit : pc ≠ .exited) (hready : pc ≠ .ready)
    (hdone : pc ≠ .done) : Held a ⟨t, pc⟩ h := by
  constructor
  · intro hpc
    exact absurd hpc hexit
  · rintro (hpc | hpc)
    · exact absurd hpc hready
    · exact absurd hpc hdone

theorem Working.attached_ready (hw : Working a n w h) (hpc : w.pc = .ready ∨ w.pc = .done) :
    w.tech.ws.isSome = true := by
  rcases hpc with hpc | hpc
  · exact hw.attached (by rw [hpc]; decide) (by rw [hpc]; rfl)
  · exact hw.attached (by rw [hpc]; decide) (by rw [hpc]; rfl)

theorem clear_wsReady_iff (hw : Working a n w h) (hs : Held a w h) (io : Io)
    (hpc : w.pc = .ready ∨ w.pc = .done) : (rtwBridgeClear io w.tech).2.wsReady = true ↔
      (io.locked = true → SendsAll io.tail (handled io w.tech (clearText w.tech))) := by
  have hws := hw.attached_ready hpc
  have hlive : w.tech.cleanupStarted = false := (Bool.or_eq_false_iff.mp hw.live).2
  unfold rtwBridgeClear
  rw [if_neg (by rw [hlive]; decide)]
  split
  · rename_i hlock
    exact iff_of_true (hs.ready hpc) fun hno => absurd (hlock ▸ hno) (by decide)
  · rename_i hlock
    rw [forall_prop_of_true (by simpa using hlock)]
    exact flushOutbound_wsReady_iff hws (hs.ready hpc)

theorem sendMark_wsReady_iff (hw : Working a n w h) (hs : Held a w h) (io : Io) (name : CStr)
    (hpc : w.pc = .ready ∨ w.pc = .done) : (rtwBridgeSendMark io w.tech name).2.wsReady = true ↔
      (validMarkName name = true → io.locked = true →
        SendsAll io.tail (handled io w.tech (markMessage w.tech name))) := by
  have hws := hw.attached_ready hpc
  have hlive : w.tech.cleanupStarted = false := (Bool.or_eq_false_iff.mp hw.live).2
  unfold rtwBridgeSendMark
  by_cases hname : validMarkName name = true
  · rw [if_neg (by simp [hlive, hname]), forall_prop_of_true hname]
    split
    · rename_i hlock
      exact iff_of_true (hs.ready hpc) fun hno => absurd (hlock ▸ hno) (by decide)
    · rename_i hlock
      rw [forall_prop_of_true (by simpa using hlock)]
      exact flushOutbound_wsReady_iff hws (hs.ready hpc)
  · rw [if_pos (Or.inr (by simpa using hname))]
    exact iff_of_true (hs.ready hpc) fun hno => absurd hno hname

theorem handshake_wsReady_iff (hw : Working a n w h) (hs : Held a w h) (io : Io)
    (hpc : w.pc = .ready) : (reconnectHandshake io w.tech).wsReady = true ↔
      (io.locked = true → SendsAll io.tail (rehandshaken io w.tech)) := by
  have hws := hw.attached_ready (Or.inl hpc)
  have hready := hs.ready (Or.inl hpc)
  unfold reconnectHandshake
  split
  · rename_i hgo
    rw [forall_prop_of_true hgo.1]
    exact flushOutbound_wsReady_iff hws hready
  · rename_i hno
    exact iff_of_true hready fun hlock => absurd ⟨hlock, hw.live⟩ hno

theorem Held.connect_iff (hw : Working a n w h) (hs : Held a w h) (ok : Bool) :
    Held a (w.step (.connect ok)) (h ++ retries.out w (.connect ok)) ↔
      RetrySafe w (.connect ok) := by
  rcases hw.connect_cases ok with ⟨hpc, hcount, -, hstep, hout⟩ | ⟨hpc, hstep, hout⟩ <;>
    rw [hstep, hout]
  · cases ok with
    | true =>
      have hon : Held a ⟨reconnectConnect true w.tech, .opened⟩ (h ++ [.outcome true]) :=
        .elsewhere (by decide) (by decide) (by decide)
      exact iff_of_true hon fun _ => Or.inl rfl
    | false =>
      have hfailed : failed a (h ++ [.outcome false]) = failed a h + 1 := by
        rw [failed_append]
        rfl
      constructor
      · intro ht _
        have hten := ht.stays rfl
        rw [hfailed] at hten
        exact Or.inr (by omega)
      · intro hg
        have hten := (hg hpc).resolve_left (by decide)
        constructor
        · intro _
          rw [hfailed]
          omega
        · rintro (hno | hno) <;> cases hno
  · rw [List.append_nil]
    exact iff_of_true hs fun hno => absurd hno hpc

theorem Held.beginReconnect (hw : Working a n w h) (hs : Held a w h) :
    Held a (w.step .beginReconnect) (h ++ retries.out w .beginReconnect) := by
  rcases hw.beginReconnect_cases with ⟨-, -, -, hstep, hout⟩ | ⟨-, hten, hstep, hout⟩ |
    ⟨-, hstep, hout⟩ <;> rw [hstep, hout]
  · exact .elsewhere (by decide) (by decide) (by decide)
  · constructor
    · intro _
      rw [List.append_nil]
      exact hten
    · rintro (hno | hno) <;> cases hno
  · rw [List.append_nil]
    exact hs

/-- The worker's other steps: only the rehandshake can leave the connection unready. -/
theorem Held.workerStep_iff (hw : Working a n w h) (hs : Held a w h) {e : WorldEvent}
    (hbegin : e ≠ .beginReconnect) (hconnect : ∀ ok, e ≠ .connect ok)
    (hcalls : ∀ io, e ≠ .clear io ∧ ∀ name, e ≠ .sendMark io name) :
    Held a (w.workerStep e) h ↔ RetrySafe w e := by
  have hat : ∀ {t : Tech} {pc : WorkerPc} {p : Prop} [Decidable p], pc ≠ .exited → pc ≠ .ready →
      pc ≠ .done → Held a (if p then ⟨t, pc⟩ else w) h := by
    intro t pc p _ hexit hready hdone
    split
    · exact .elsewhere hexit hready hdone
    · exact hs
  cases e with
  | wsText io text =>
    refine iff_of_true ?_ trivial
    simp only [World.workerStep]
    split
    · rename_i hpc
      rw [hpc.1]
      exact .elsewhere (by decide) (by decide) (by decide)
    · exact hs
  | wsClose =>
    refine iff_of_true ?_ trivial
    simp only [World.workerStep]
    split
    · rename_i hpc
      rw [hpc]
      exact .elsewhere (by decide) (by decide) (by decide)
    · exact hs
  | polled => exact iff_of_true (hat (by decide) (by decide) (by decide)) trivial
  | flush io => exact iff_of_true (hat (by decide) (by decide) (by decide)) trivial
  | leave =>
    refine iff_of_true ?_ trivial
    simp only [World.workerStep]
    rw [hw.live, if_neg (by simp)]
    exact hs
  | wake =>
    refine iff_of_true ?_ trivial
    simp only [World.workerStep]
    rw [sleepInterruptibleMs_of_live hw.live hw.enabled]
    exact hat (by decide) (by decide) (by decide)
  | closeOld => exact iff_of_true (hat (by decide) (by decide) (by decide)) trivial
  | check =>
    refine iff_of_true ?_ trivial
    simp only [World.workerStep]
    rw [hw.live]
    split
    · constructor
      · intro hno
        cases hno
      · intro _
        rfl
    · exact hs
  | rehandshake io =>
    simp only [World.workerStep]
    split
    · rename_i hpc
      have hiff := handshake_wsReady_iff hw hs io hpc
      constructor
      · intro ht _
        exact hiff.mp (ht.ready (Or.inr rfl))
      · intro hg
        constructor
        · intro hno
          cases hno
        · intro _
          exact hiff.mpr (hg hpc)
    · rename_i hpc
      exact iff_of_true hs fun hno => absurd hno hpc
  | finish => exact iff_of_true (hat (by decide) (by decide) (by decide)) trivial
  | beginReconnect => exact absurd rfl hbegin
  | connect ok => exact absurd rfl (hconnect ok)
  | clear io => exact absurd rfl (hcalls io).1
  | sendMark io name => exact absurd rfl ((hcalls io).2 name)
  | _ => exact iff_of_true hs trivial

/-- The worker goes on after a step exactly when the step meets its condition. -/
theorem Held.step_iff (hw : Working a n w h) (hs : Held a w h) {e : WorldEvent}
    (he : e.stops = false) :
    Held a (w.step e) (h ++ retries.out w e) ↔ RetrySafe w e := by
  have hquiet : ∀ {u : World}, Held a u h → Held a u (h ++ []) := fun hu => by
    rw [List.append_nil]
    exact hu
  have hwork := fun hbegin hconnect hcalls =>
    hs.workerStep_iff hw (e := e) hbegin hconnect hcalls
  cases e with
  | closeRequest => cases he
  | stopRequest => cases he
  | connect ok => exact hs.connect_iff hw ok
  | beginReconnect => exact iff_of_true (hs.beginReconnect hw) trivial
  | onRead io pcm => exact iff_of_true (hquiet (hs.call (silent_onRead io _ pcm).wsReady)) trivial
  | onWrite io m => exact iff_of_true (hquiet (hs.call (silent_onWrite io _ m).wsReady)) trivial
  | applyWrite io pcm =>
    exact iff_of_true (hquiet (hs.call (silent_applyWrite io _ pcm).wsReady)) trivial
  | pause io on => exact iff_of_true (hquiet (hs.call (silent_pause io _ on).wsReady)) trivial
  | clear io =>
    change Held a _ (h ++ []) ↔ _
    rw [List.append_nil]
    exact hs.call_iff (clear_wsReady_iff hw hs io)
  | sendMark io name =>
    change Held a _ (h ++ []) ↔ _
    rw [List.append_nil]
    exact hs.call_iff (sendMark_wsReady_iff hw hs io name)
  | stopFinish io =>
    refine iff_of_true (hquiet ?_) trivial
    simp only [World.step]
    rw [(Bool.or_eq_false_iff.mp hw.live).2, if_neg (by simp)]
    exact hs
  | _ =>
    change Held a _ (h ++ []) ↔ _
    rw [List.append_nil]
    exact hwork (by simp) (by simp) (by simp)

/-! ### The retry policy over a run -/

/-- What the retry policy asks of a moment of a run that logged `h`, after `a` failures
in a row and `n` reconnects: the waits are right, the worker makes the next attempt and
has not gone below the limit, and an attempt that succeeded leaves the bridge connected
with its counters reset. -/
structure Retries (a : ℕ) (n : UInt64) (w : World) (h : List RetryEvent) : Prop where
  waits : WaitsRight a h
  again : w.pc = .loop → failed a h < 10 → ∀ ok,
    retries.outputs w [.beginReconnect, .wake, .closeOld, .connect ok] =
      [.wait (backoff (failed a h + 1)), .outcome ok]
  stays : w.pc = .exited → 10 ≤ failed a h
  ready : w.pc = .ready ∨ w.pc = .done → w.tech.ws.isSome = true ∧ w.tech.wsReady = true
  back : w.pc = .done → (w.step .finish).pc = .loop ∧
    (w.step .finish).tech.ws.isSome = true ∧ (w.step .finish).tech.wsReady = true ∧
      (w.step .finish).tech.reconnectOk = w.tech.reconnectOk + 1 ∧
        (w.step .finish).tech.reconnectAttempts = 0
  counted : w.pc = .loop → w.tech.reconnectAttempts = failed a h ∧
    w.tech.reconnectOk = n + .ofNat (succeeded h)

theorem Working.again (hw : Working a n w h) (hpc : w.pc = .loop) (hlt : failed a h < 10)
    (ok : Bool) : retries.outputs w [.beginReconnect, .wake, .closeOld, .connect ok] =
      [.wait (backoff (failed a h + 1)), .outcome ok] := by
  have hws := hw.attached (by rw [hpc]; decide) (by rw [hpc]; rfl)
  rcases hw.beginReconnect_cases with ⟨-, -, -, hstep, hout⟩ | ⟨-, hten, -⟩ | ⟨hno, -⟩
  · have hsleep : sleepInterruptibleMs { w.tech with
        wsReady := false, reconnectAttempts := w.tech.reconnectAttempts + 1 } 1 = true :=
      sleepInterruptibleMs_of_live hw.live hw.enabled
    rw [Machine.outputs_cons, hout]
    change _ ++ retries.outputs (w.step .beginReconnect) _ = _
    rw [hstep]
    simp [retries, World.step, World.workerStep, hsleep]
  · omega
  · exact absurd ⟨hpc, hws⟩ hno

/-- What is not already known of a run is that the worker goes on. -/
theorem Working.retries_iff (hw : Working a n w h) : Retries a n w h ↔ Held a w h := by
  constructor
  · intro ht
    exact ⟨ht.stays, fun hpc => (ht.ready hpc).2⟩
  · intro hs
    constructor
    · exact hw.waits
    · exact hw.again
    · exact hs.stays
    · intro hpc
      exact ⟨hw.attached_ready hpc, hs.ready hpc⟩
    · intro hpc
      have hstep : w.step .finish = ⟨reconnectDone w.tech, .loop⟩ := if_pos hpc
      rw [hstep]
      exact ⟨rfl, hw.attached_ready (Or.inr hpc), hs.ready (Or.inr hpc), rfl, rfl⟩
    · intro hpc
      have hoks := hw.oks (by rw [hpc]; rfl)
      rw [hpc] at hoks
      exact ⟨hw.attempts_loop hpc, by simpa [WorkerPc.connected] using hoks⟩

/-- In a run without a stop request the retry policy is met at every moment if and only
if every attempt succeeds, or is the tenth in a row or later, and no send fails before the
new connection is handed back to the loop. -/
theorem worker_retries_iff {tech : Tech} (henabled : tech.reconnectEnabled = true)
    (hlimit : tech.reconnectMax = 10) (hlive : stopping tech = false)
    (hws : tech.ws.isSome = true) (ha : tech.reconnectAttempts = a) {es : List WorldEvent}
    (hes : ∀ e ∈ es, e.stops = false) :
    (∀ k, Retries a tech.reconnectOk (retries.run ⟨tech, .loop⟩ (es.take k))
      (retries.outputs ⟨tech, .loop⟩ (es.take k))) ↔ retries.Along RetrySafe ⟨tech, .loop⟩ es := by
  have hstart : Working a tech.reconnectOk ⟨tech, .loop⟩ [] := by
    constructor
    · exact hlive
    · exact henabled
    · exact hlimit
    · exact trivial
    · exact fun _ _ => hws
    · intro _ _
      rw [ha]
      exact (add_zero _).symm
    · intro hno
      cases hno
    · exact fun _ => rfl
  have hheld : Held a ⟨tech, .loop⟩ [] := .elsewhere (by decide) (by decide) (by decide)
  have hworking : ∀ k, Working a tech.reconnectOk (retries.run ⟨tech, .loop⟩ (es.take k))
      ([] ++ retries.outputs ⟨tech, .loop⟩ (es.take k)) := fun k =>
    retries.history_invariant (fun _ _ _ he hw => hw.step he) hstart
      (retries.along_of_mem (fun e he => hes e (List.mem_of_mem_take he)) _)
  rw [← retries.history_invariant_iff (J := fun w h =>
    Working a tech.reconnectOk w h ∧ Held a w h) (h := []) ?_ ⟨hstart, hheld⟩]
  · refine forall_congr' fun k => ?_
    rw [and_iff_right (hworking k)]
    exact (hworking k).retries_iff
  · rintro e he w h ⟨hw, hs⟩
    have hnext : Working a tech.reconnectOk (retries.step w e) (h ++ retries.out w e) :=
      hw.step (hes e he)
    rw [and_iff_right hnext]
    exact hs.step_iff hw (hes e he)

/-- The worker ends at the first attempt that fails. -/
theorem first_failure_ends_worker :
    ¬ Retries 0 demoTech.reconnectOk
      (retries.run ⟨demoTech, .loop⟩ [.wsClose, .beginReconnect, .wake, .closeOld, .connect false])
      (retries.outputs ⟨demoTech, .loop⟩
        [.wsClose, .beginReconnect, .wake, .closeOld, .connect false]) := by
  intro h
  have hten := h.stays (by decide +kernel)
  revert hten
  decide +kernel

instance : ∀ (w : World) (e : WorldEvent), Decidable (RetrySafe w e)
  | w, .connect ok =>
    inferInstanceAs (Decidable (w.pc = .opening → ok = true ∨ 10 ≤ w.tech.reconnectAttempts))
  | w, .clear io => inferInstanceAs (Decidable (w.pc = .ready ∨ w.pc = .done → io.locked = true →
      SendsAll io.tail (handled io w.tech (clearText w.tech))))
  | w, .sendMark io name => inferInstanceAs (Decidable (w.pc = .ready ∨ w.pc = .done →
      validMarkName name = true → io.locked = true →
        SendsAll io.tail (handled io w.tech (markMessage w.tech name))))
  | w, .rehandshake io => inferInstanceAs (Decidable (w.pc = .ready → io.locked = true →
      SendsAll io.tail (rehandshaken io w.tech)))
  | _, .onRead .. | _, .onWrite .. | _, .applyWrite .. | _, .pause .. | _, .closeRequest
  | _, .stopRequest | _, .stopFinish _ | _, .wsText .. | _, .wsClose | _, .polled | _, .flush _
  | _, .leave | _, .beginReconnect | _, .wake | _, .closeOld | _, .check | _, .finish =>
    .isTrue trivial

theorem worker_retries_quiet : Retries 0 demoTech.reconnectOk
    (retries.run ⟨demoTech, .loop⟩ ((reconnectRun []).take 9))
    (retries.outputs ⟨demoTech, .loop⟩ ((reconnectRun []).take 9)) := by
  have hsafe : retries.Along RetrySafe ⟨demoTech, .loop⟩ (reconnectRun []) := by decide +kernel
  exact (worker_retries_iff (by decide +kernel) (by decide +kernel) (by decide +kernel)
    (by decide +kernel) (by decide +kernel) (by decide +kernel)).mpr hsafe 9

end RealtimeWs.Mod
