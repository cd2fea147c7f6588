import RealtimeWs.Mod.HandshakeRun

/-! Attempts of the worker to reconnect: the log of its waits and outcomes, and the
counters that every run without a stop request keeps in step with it. -/
namespace RealtimeWs.Mod

open RealtimeWs.Core

/-- A wait of `try_reconnect`, or the outcome of its `rtw_ws_connect_ex`. -/
inductive RetryEvent
  | wait (ms : ℕ)
  | outcome (ok : Bool)
  deriving DecidableEq, Repr

/-- The bridge with its waits and attempts for outputs. -/
def retries : Machine World WorldEvent RetryEvent where
  step := World.step
  out w
    | .beginReconnect =>
      if w.pc = .loop ∧ w.tech.ws.isSome then
        match reconnectBegin { w.tech with wsReady := false } with
        | none => []
        | some (ms, _) => [.wait ms]
      else []
    | .connect ok => if w.pc = .opening then [.outcome ok] else []
    | _ => []

/-- Milliseconds before the `k`-th attempt in a row. -/
def backoff (k : ℕ) : ℕ := min (100 * 2 ^ min k 5) 3000

/-- Failures in a row at the end, after `a` of them. -/
def failed : ℕ → List RetryEvent → ℕ
  | a, [] => a
  | a, .wait _ :: h => failed a h
  | a, .outcome ok :: h => failed (if ok then 0 else a + 1) h

def succeeded : List RetryEvent → ℕ
  | [] => 0
  | .outcome true :: h => succeeded h + 1
  | _ :: h => succeeded h

/-- Every wait is the one before the next attempt in a row. -/
def WaitsRight : ℕ → List RetryEvent → Prop
  | _, [] => True
  | a, .wait ms :: h => ms = backoff (a + 1) ∧ WaitsRight a h
  | a, .outcome ok :: h => WaitsRight (if ok then 0 else a + 1) h

theorem failed_append (a : ℕ) (g h : List RetryEvent) :
    failed a (g ++ h) = failed (failed a g) h := by
  induction g generalizing a with
  | nil => rfl
  | cons e g ih =>
    cases e with
    | wait ms => exact ih a
    | outcome ok => exact ih _

theorem succeeded_append (g h : List RetryEvent) :
    succeeded (g ++ h) = succeeded g + succeeded h := by
  induction g with
  | nil => rw [List.nil_append, succeeded, Nat.zero_add]
  | cons e g ih =>
    rcases e with ms | _ | _ <;> simp only [List.cons_append, succeeded, ih]
    omega

theorem waitsRight_append (a : ℕ) (g h : List RetryEvent) :
    WaitsRight a (g ++ h) ↔ WaitsRight a g ∧ WaitsRight (failed a g) h := by
  induction g generalizing a with
  | nil => simp [WaitsRight, failed]
  | cons e g ih =>
    cases e with
    | wait ms => simp only [List.cons_append, WaitsRight, failed, ih, and_assoc]
    | outcome ok => simp only [List.cons_append, WaitsRight, failed, ih]

/-- An attempt below the limit waits by the number of attempts in a row. -/
theorem reconnectBegin_of_lt {tech : Tech} {k : ℕ} (henabled : tech.reconnectEnabled = true)
    (hlive : stopping tech = false) (hmax : tech.reconnectMax = 10)
    (hk : tech.reconnectAttempts = k) (hlt : k < 10) :
    reconnectBegin tech =
      some (backoff (k + 1), { tech with reconnectAttempts := tech.reconnectAttempts + 1 }) := by
  have hshift : (if (5 : ℤ) < k + 1 then 5 else (k : ℤ) + 1).toNat = min (k + 1) 5 := by
    split <;> omega
  unfold reconnectBegin
  rw [if_neg (by simp [henabled, hlive]), if_neg (by omega)]
  simp only [hk, hshift, Nat.shiftLeft_eq]
  congr 2
  rw [backoff]
  split <;> omega

theorem reconnectBegin_of_le {tech : Tech} {k : ℕ} (hmax : tech.reconnectMax = 10)
    (hk : tech.reconnectAttempts = k) (hle : 10 ≤ k) : reconnectBegin tech = none := by
  unfold reconnectBegin
  by_cases hoff : tech.reconnectEnabled = false ∨ stopping tech
  · rw [if_pos hoff]
  · rw [if_neg hoff, if_pos ⟨by omega, by omega⟩]

theorem sleepInterruptibleMs_of_live {tech : Tech} {totalMs : ℕ} (hlive : stopping tech = false)
    (henabled : tech.reconnectEnabled = true) : sleepInterruptibleMs tech totalMs = true := by
  simp [sleepInterruptibleMs, hlive, henabled]

/-! ### What holds in every run without a stop -/

/-- The calls that ask the bridge to stop. -/
def WorldEvent.stops : WorldEvent → Bool
  | .closeRequest | .stopRequest => true
  | _ => false

/-- An attempt was counted and its outcome is not known. -/
def WorkerPc.attempting : WorkerPc → Bool
  | .backoff | .reopen | .opening => true
  | _ => false

/-- An attempt succeeded and is not counted as such. -/
def WorkerPc.connected : WorkerPc → Bool
  | .opened | .ready | .done => true
  | _ => false

def WorkerPc.gone : WorkerPc → Bool
  | .exited | .freed => true
  | _ => false

/-- The counters agree with the log, from `a` failures and `n` reconnects on. -/
structure Working (a : ℕ) (n : UInt64) (w : World) (h : List RetryEvent) : Prop where
  live : stopping w.tech = false
  enabled : w.tech.reconnectEnabled = true
  limit : w.tech.reconnectMax = 10
  waits : WaitsRight a h
  attached : w.pc ≠ .opening → w.pc.gone = false → w.tech.ws.isSome = true
  attempts : w.pc.gone = false → w.pc.connected = false →
    w.tech.reconnectAttempts = failed a h + if w.pc.attempting then 1 else 0
  fresh : w.pc.connected = true → failed a h = 0
  oks : w.pc.gone = false →
    w.tech.reconnectOk + (if w.pc.connected then 1 else 0) = n + .ofNat (succeeded h)

/-- A call of another thread can change the session, and a flush of its the wire. -/
structure Steady (t u : Tech) : Prop where
  rest : u = { t with
    session := u.session
    pcmHold := u.pcmHold
    audioPaused := u.audioPaused
    wsReady := u.wsReady
    wire := u.wire }

theorem Silent.steady {t u : Tech} (h : Silent t u) : Steady t u := by
  constructor
  rw [h.rest]

theorem steady_flush (io : Io) (t : Tech) : Steady t (flushOutbound io t) := by
  constructor
  rw [flushOutbound_rest]

theorem Steady.trans {t u v : Tech} (h : Steady t u) (k : Steady u v) : Steady t v := by
  constructor
  rw [k.rest, h.rest]

theorem steady_handleAndFlush (io : Io) (t : Tech) (text : CStr) :
    Steady t (handleAndFlush io t text) :=
  Steady.trans (silent_session t (state_handlePeerJson _ _ _)).steady (steady_flush _ _)

theorem steady_clear (io : Io) (t : Tech) : Steady t (rtwBridgeClear io t).2 := by
  unfold rtwBridgeClear
  split_ifs
  · exact (Silent.refl t).steady
  · exact (Silent.refl t).steady
  · exact steady_handleAndFlush io t _

theorem steady_sendMark (io : Io) (t : Tech) (name : CStr) :
    Steady t (rtwBridgeSendMark io t name).2 := by
  unfold rtwBridgeSendMark
  split_ifs
  · exact (Silent.refl t).steady
  · exact (Silent.refl t).steady
  · exact steady_handleAndFlush io t _

theorem steady_onWsText (io : Io) (t : Tech) (text : CStr) : Steady t (onWsText io t text) := by
  unfold onWsText
  split_ifs
  · exact (Silent.refl t).steady
  · exact (Silent.refl t).steady
  · exact steady_handleAndFlush io t _

theorem steady_handshake (io : Io) (t : Tech) : Steady t (reconnectHandshake io t) := by
  unfold reconnectHandshake
  split
  · obtain ⟨ms, x, hx, -⟩ := rtwSessionRehandshake_spec (io.env 0) t.session
    rw [hx]
    have hs : Silent t { t with session := t.session.withOut x } := silent_session t rfl
    exact hs.steady.trans (steady_flush _ _)
  · exact (Silent.refl t).steady

variable {a : ℕ} {n : UInt64} {w : World} {h : List RetryEvent}

theorem Working.steady (hw : Working a n w h) {t : Tech} (hs : Steady w.tech t) :
    Working a n { w with tech := t } h := by
  have hr := hs.rest
  constructor
  · rw [hr]
    exact hw.live
  · rw [hr]
    exact hw.enabled
  · rw [hr]
    exact hw.limit
  · exact hw.waits
  · rw [hr]
    exact hw.attached
  · rw [hr]
    exact hw.attempts
  · exact hw.fresh
  · rw [hr]
    exact hw.oks

/-- The worker moves on, and only the connection and its readiness change. -/
theorem Working.move (hw : Working a n w h) {ws : Option ℕ} {wsReady : Bool} {connections : ℕ}
    {pc : WorkerPc} (hgone : w.pc.gone = false)
    (hattached : pc ≠ .opening → pc.gone = false → ws.isSome = true)
    (hkind : pc.gone = true ∨
      (pc.connected = w.pc.connected ∧ pc.attempting = w.pc.attempting)) :
    Working a n ⟨{ w.tech with ws := ws, wsReady := wsReady, connections := connections }, pc⟩ h := by
  constructor
  · exact hw.live
  · exact hw.enabled
  · exact hw.limit
  · exact hw.waits
  · exact hattached
  · intro hpc hback
    obtain ⟨hc, ht⟩ := hkind.resolve_left (by rw [hpc]; decide)
    change w.tech.reconnectAttempts = failed a h + if pc.attempting then 1 else 0
    rw [ht]
    exact hw.attempts hgone (hc ▸ hback)
  · intro hback
    have hpc : pc.gone = false := by cases pc <;> first | rfl | cases hback
    obtain ⟨hc, -⟩ := hkind.resolve_left (by rw [hpc]; decide)
    exact hw.fresh (hc ▸ hback)
  · intro hpc
    obtain ⟨hc, -⟩ := hkind.resolve_left (by rw [hpc]; decide)
    change w.tech.reconnectOk + (if pc.connected then 1 else 0) = _
    rw [hc]
    exact hw.oks hgone

/-- In the loop the attempts in a row are the failures so far. -/
theorem Working.attempts_loop (hw : Working a n w h) (hpc : w.pc = .loop) :
    w.tech.reconnectAttempts = failed a h := by
  have hold := hw.attempts (by rw [hpc]; rfl) (by rw [hpc]; rfl)
  rw [hpc] at hold
  simpa [WorkerPc.attempting] using hold

/-- The head of an attempt: it waits, or the limit is reached, or the worker is elsewhere. -/
theorem Working.beginReconnect_cases (hw : Working a n w h) :
    (w.pc = .loop ∧ w.tech.ws.isSome = true ∧ failed a h < 10 ∧
      w.step .beginReconnect = ⟨{ w.tech with
        wsReady := false
        reconnectAttempts := w.tech.reconnectAttempts + 1 }, .backoff⟩ ∧
      retries.out w .beginReconnect = [.wait (backoff (failed a h + 1))]) ∨
    (w.pc = .loop ∧ 10 ≤ failed a h ∧
      w.step .beginReconnect = ⟨{ w.tech with wsReady := false }, .exited⟩ ∧
      retries.out w .beginReconnect = []) ∨
    (¬(w.pc = .loop ∧ w.tech.ws.isSome = true) ∧
      w.step .beginReconnect = w ∧ retries.out w .beginReconnect = []) := by
  by_cases hpc : w.pc = .loop ∧ w.tech.ws.isSome = true
  · have hk := hw.attempts_loop hpc.1
    have hstep : ∀ r, reconnectBegin { w.tech with wsReady := false } = r →
        w.step .beginReconnect = match r with
          | none => ⟨{ w.tech with wsReady := false }, .exited⟩
          | some (_, tech) => ⟨tech, .backoff⟩ := fun r hr => by
      rw [← hr]
      exact if_pos hpc
    have hout : ∀ r, reconnectBegin { w.tech with wsReady := false } = r →
        retries.out w .beginReconnect = match r with
          | none => []
          | some (ms, _) => [.wait ms] := fun r hr => by
      rw [← hr]
      exact if_pos hpc
    by_cases hlt : failed a h < 10
    · have hbegin : reconnectBegin { w.tech with wsReady := false } = _ :=
        reconnectBegin_of_lt hw.enabled hw.live hw.limit hk hlt
      exact Or.inl ⟨hpc.1, hpc.2, hlt, hstep _ hbegin, hout _ hbegin⟩
    · have hbegin : reconnectBegin { w.tech with wsReady := false } = none :=
        reconnectBegin_of_le hw.limit hk (by omega)
      exact Or.inr (Or.inl ⟨hpc.1, by omega, hstep _ hbegin, hout _ hbegin⟩)
  · exact Or.inr (Or.inr ⟨hpc, if_neg hpc, if_neg hpc⟩)

theorem Working.connect_cases (hw : Working a n w h) (ok : Bool) :
    (w.pc = .opening ∧ w.tech.reconnectAttempts = failed a h + 1 ∧
      w.tech.reconnectOk = n + .ofNat (succeeded h) ∧
      w.step (.connect ok) = ⟨reconnectConnect ok w.tech, if ok then .opened else .exited⟩ ∧
      retries.out w (.connect ok) = [.outcome ok]) ∨
    (w.pc ≠ .opening ∧ w.step (.connect ok) = w ∧ retries.out w (.connect ok) = []) := by
  by_cases hpc : w.pc = .opening
  · have hcount := hw.attempts (by rw [hpc]; rfl) (by rw [hpc]; rfl)
    have hoks := hw.oks (by rw [hpc]; rfl)
    rw [hpc] at hcount hoks
    refine Or.inl ⟨hpc, hcount, ?_, if_pos hpc, if_pos hpc⟩
    simpa [WorkerPc.connected] using hoks
  · exact Or.inr ⟨hpc, if_neg hpc, if_neg hpc⟩

theorem Working.beginReconnect (hw : Working a n w h) :
    Working a n (w.step .beginReconnect) (h ++ retries.out w .beginReconnect) := by
  rcases hw.beginReconnect_cases with ⟨hpc, hws, hlt, hstep, hout⟩ | ⟨hpc, -, hstep, hout⟩ |
    ⟨-, hstep, hout⟩ <;> rw [hstep, hout]
  · have hoks := hw.oks (by rw [hpc]; rfl)
    rw [hpc] at hoks
    have hfailed : failed a (h ++ [.wait (backoff (failed a h + 1))]) = failed a h := by
      rw [failed_append]
      rfl
    have hsucc : succeeded (h ++ [.wait (backoff (failed a h + 1))]) = succeeded h := by
      rw [succeeded_append]
      rfl
    constructor
    · exact hw.live
    · exact hw.enabled
    · exact hw.limit
    · exact (waitsRight_append _ _ _).mpr ⟨hw.waits, rfl, trivial⟩
    · exact fun _ _ => hws
    · intro _ _
      rw [hfailed]
      change w.tech.reconnectAttempts + 1 = failed a h + 1
      rw [hw.attempts_loop hpc]
    · intro hback
      cases hback
    · intro _
      rw [hsucc]
      exact hoks
  · rw [List.append_nil]
    exact hw.move (by rw [hpc]; rfl) (by intro _ hno; cases hno) (Or.inl rfl)
  · rw [List.append_nil]
    exact hw

theorem Working.connect (hw : Working a n w h) (ok : Bool) :
    Working a n (w.step (.connect ok)) (h ++ retries.out w (.connect ok)) := by
  rcases hw.connect_cases ok with ⟨hpc, -, hoks, hstep, hout⟩ | ⟨-, hstep, hout⟩ <;>
    rw [hstep, hout]
  · have hwaits : WaitsRight a (h ++ [.outcome ok]) :=
      (waitsRight_append _ _ _).mpr ⟨hw.waits, trivial⟩
    cases ok with
    | false =>
      constructor
      · exact hw.live
      · exact hw.enabled
      · exact hw.limit
      · exact hwaits
      all_goals intro hno
      · intro hgone
        cases hgone
      all_goals cases hno
    | true =>
      constructor
      · exact hw.live
      · exact hw.enabled
      · exact hw.limit
      · exact hwaits
      · exact fun _ _ => rfl
      · intro _ hno
        cases hno
      · intro _
        rw [failed_append]
        rfl
      · intro _
        rw [succeeded_append]
        change w.tech.reconnectOk + 1 = n + UInt64.ofNat (succeeded h + 1)
        rw [hoks, UInt64.ofNat_add, UInt64.add_assoc]
        rfl
  · rw [List.append_nil]
    exact hw

theorem Working.finish (hw : Working a n w h) (hpc : w.pc = .done) :
    Working a n ⟨reconnectDone w.tech, .loop⟩ h := by
  have hgone : w.pc.gone = false := by rw [hpc]; rfl
  have hoks := hw.oks hgone
  rw [hpc] at hoks
  constructor
  · exact hw.live
  · exact hw.enabled
  · exact hw.limit
  · exact hw.waits
  · exact fun _ _ => hw.attached (by rw [hpc]; decide) hgone
  · intro _ _
    change (0 : ℤ) = failed a h + 0
    rw [hw.fresh (by rw [hpc]; rfl)]
    rfl
  · intro hno
    cases hno
  · intro _
    change w.tech.reconnectOk + 1 + 0 = _
    rw [UInt64.add_zero]
    exact hoks

theorem Working.call (hw : Working a n w h) {t : Tech} (hs : Steady w.tech t) :
    Working a n (if w.pc = .freed then w else { w with tech := t }) h := by
  split
  · exact hw
  · exact hw.steady hs

/-- The steps of the worker between two attempts and after one. -/
theorem Working.workerStep (hw : Working a n w h) {e : WorldEvent}
    (hbegin : e ≠ .beginReconnect) (hconnect : ∀ ok, e ≠ .connect ok) :
    Working a n (w.workerStep e) h := by
  have hon : ∀ {pc : WorkerPc}, w.pc = pc → pc.gone = false → w.pc ≠ .opening →
      w.tech.ws.isSome = true := fun hpc hgone hne => hw.attached hne (hpc ▸ hgone)
  cases e with
  | wsText io text =>
    simp only [World.workerStep]
    split
    · exact hw.steady (steady_onWsText io w.tech text)
    · exact hw
  | wsClose =>
    simp only [World.workerStep]
    split
    · exact hw.steady ⟨rfl⟩
    · exact hw
  | polled =>
    simp only [World.workerStep]
    split
    · rename_i hpc
      have hws := hon hpc.1 rfl (by rw [hpc.1]; decide)
      exact hw.move (by rw [hpc.1]; rfl) (fun _ _ => hws) (Or.inr (by rw [hpc.1]; exact ⟨rfl, rfl⟩))
    · exact hw
  | flush io =>
    simp only [World.workerStep]
    split
    · rename_i hpc
      have hws := hon hpc rfl (by rw [hpc]; decide)
      have hmoved : Working a n { w with pc := .loop } h :=
        hw.move (by rw [hpc]; rfl) (fun _ _ => hws) (Or.inr (by rw [hpc]; exact ⟨rfl, rfl⟩))
      split
      · exact hmoved.steady (steady_flush io w.tech)
      · exact hmoved
    · exact hw
  | leave =>
    simp only [World.workerStep]
    split
    · rename_i hpc
      rw [hw.live] at hpc
      cases hpc.2
    · exact hw
  | wake =>
    simp only [World.workerStep]
    split
    · rename_i hpc
      have hws := hon hpc rfl (by rw [hpc]; decide)
      rw [sleepInterruptibleMs_of_live hw.live hw.enabled]
      exact hw.move (by rw [hpc]; rfl) (fun _ _ => hws) (Or.inr (by rw [hpc]; exact ⟨rfl, rfl⟩))
    · exact hw
  | closeOld =>
    simp only [World.workerStep]
    split
    · rename_i hpc
      exact hw.move (by rw [hpc]; rfl) (fun hno _ => absurd rfl hno)
        (Or.inr (by rw [hpc]; exact ⟨rfl, rfl⟩))
    · exact hw
  | check =>
    by_cases hpc : w.pc = .opened
    · have hws := hon hpc rfl (by rw [hpc]; decide)
      simp only [World.workerStep]
      rw [if_pos hpc, if_neg (by rw [hw.live]; decide)]
      exact hw.move (by rw [hpc]; rfl) (fun _ _ => hws) (Or.inr (by rw [hpc]; exact ⟨rfl, rfl⟩))
    · simp only [World.workerStep]
      rw [if_neg hpc]
      exact hw
  | rehandshake io =>
    simp only [World.workerStep]
    split
    · rename_i hpc
      have hws := hon hpc rfl (by rw [hpc]; decide)
      have hmoved : Working a n { w with pc := .done } h :=
        hw.move (by rw [hpc]; rfl) (fun _ _ => hws) (Or.inr (by rw [hpc]; exact ⟨rfl, rfl⟩))
      exact hmoved.steady (steady_handshake io w.tech)
    · exact hw
  | finish =>
    simp only [World.workerStep]
    split
    · rename_i hpc
      exact hw.finish hpc
    · exact hw
  | beginReconnect => exact absurd rfl hbegin
  | connect ok => exact absurd rfl (hconnect ok)
  | _ => exact hw

/-- Without a stop request every step keeps the counters in step with the log. -/
theorem Working.step (hw : Working a n w h) {e : WorldEvent} (he : e.stops = false) :
    Working a n (w.step e) (h ++ retries.out w e) := by
  have hquiet : ∀ {u : World}, Working a n u h → Working a n u (h ++ []) := fun hu => by
    rw [List.append_nil]
    exact hu
  have hwork := fun hbegin hconnect => hquiet (hw.workerStep (e := e) hbegin hconnect)
  cases e with
  | beginReconnect => exact hw.beginReconnect
  | connect ok => exact hw.connect ok
  | closeRequest => cases he
  | stopRequest => cases he
  | onRead io pcm => exact hquiet (hw.call (silent_onRead io w.tech pcm).steady)
  | onWrite io m => exact hquiet (hw.call (silent_onWrite io w.tech m).steady)
  | applyWrite io pcm => exact hquiet (hw.call (silent_applyWrite io w.tech pcm).steady)
  | clear io => exact hquiet (hw.call (steady_clear io w.tech))
  | sendMark io name => exact hquiet (hw.call (steady_sendMark io w.tech name))
  | pause io on => exact hquiet (hw.call (silent_pause io w.tech on).steady)
  | stopFinish io =>
    apply hquiet
    simp only [World.step]
    split
    · rename_i hpc
      have hlive := hw.live
      rw [stopping, hpc.2, Bool.or_true] at hlive
      cases hlive
    · exact hw
  | _ => exact hwork (by intro hno; cases hno) (by intro _ hno; cases hno)

end RealtimeWs.Mod
