import RealtimeWs.Lib.Progress
import RealtimeWs.Mod.Control
import RealtimeWs.Mod.InFlight

/-! `rtw_bridge_stop` returns: what is left to do for the worker until it exits and for the
stop until it frees the bridge, and whom they wait for. -/
namespace RealtimeWs.Mod

open RealtimeWs.Core

/-! ### What is left to do -/

def FlushPc.remaining : FlushPc → ℕ
  | .readWs => 9
  | .readReady => 8
  | .peek => 7
  | .readArg _ => 6
  | .send .. => 5
  | .drop => 4
  | .failed => 3
  | .ret => 2

def FlushPc.isRet : FlushPc → Bool
  | .ret => true
  | _ => false

/-- The messages a flush can still come to send. -/
def Session.load (s : Session) : ℕ := s.outbound.contents.length + s.playout.marks.length

/-- What is left of a section: calls of the session, then the rounds of its flush. -/
def Pc.left (s : Session) : Pc → ℕ ×ₗ ℕ
  | .stopSession => toLex (4, 0)
  | .stopReadWs => toLex (3, 0)
  | .stopReady => toLex (2, 0)
  | .textHandle .. | .handshake | .callHandle _ => toLex (1, 0)
  | .flush _ f => toLex (0, 10 * Session.load s + f.remaining)
  | .unlock _ => toLex (0, 1)
  | _ => toLex (0, 0)

def ClosePc.remaining : ClosePc → ℕ
  | .read => 4
  | .arg => 3
  | .closing _ => 2
  | .clear => 1

/-- What is left for the worker when the bridge is being stopped, and for the stop itself;
a section counts as one place. -/
def Pc.remaining : Pc → ℕ
  | .exited => 0
  | .loop | .checkLoop => 1
  | .usleep | .count | .flush .loop _ | .unlock .loop | .unlock .start => 2
  | .trylock | .handshake | .flush .handshake _ | .unlock .handshake => 3
  | .handshakeLock => 4
  | .setReady => 5
  | .close .new p => p.remaining
  | .checkStop => 6
  | .readNew => 7
  | .publish _ => 8
  | .connect => 9
  | .close .old p => 9 + p.remaining
  | .backoff => 14
  | .begin => 15
  | .pollFailed | .rereadReady => 16
  | .rereadWs | .poll _ | .textCheck .. => 17
  | .pollArg | .textHandle .. | .flush (.wsText _) _ | .unlock (.wsText _) => 18
  | .readReady | .textLock .. => 19
  | .readWs => 20
  -- `rtw_bridge_stop`
  | .free => 1
  | .stopClearReady => 5
  | .close .stop p => 5 + p.remaining
  | .flush .stop _ | .unlock .stop | .stopSession | .stopReadWs | .stopReady => 10
  | .stopLock => 11
  | .stopJoin => 12
  | _ => 0

/-- Places at which a thread waits for the mutex. -/
def Pc.waits : Pc → Bool
  | .textLock .. | .handshakeLock | .callLock _ | .stopLock => true
  | _ => false

variable (printNumber : List UInt8 → List UInt8)

/-- A step inside a call that has not returned yet: `rtw_ws_poll` with another text or
close frame, or `rtw_ws_send_text`. -/
def Pc.spins (io : StepIo) : Pc → Bool
  | .poll (some _) => match io.poll with
    | .text _ | .closed => true
    | _ => false
  | .textCheck .. => true
  | .flush _ (.send (some _) json) =>
    (rtwWsSendText io.send io.client (json.text printNumber).bytes).1.isNone
  | _ => false

/-! ### Sections -/

theorem load_harvest (env : Env) (s : Session) :
    Session.load (rtwSessionHarvestMarks env s) ≤ Session.load s := by
  obtain ⟨ms, x, hx, he, -, hn⟩ := rtwSessionHarvestMarks_spec env s
  obtain ⟨ev, hev⟩ := he.contents
  have hqueue := congrArg List.length hev
  have hstored := (stored_sublist ms).length_le
  have hnames := congrArg List.length hn
  have htake : ((completed s.playout.marks).take HARVEST_MAX).length ≤
      (completed s.playout.marks).length := List.length_take_le' _ _
  have hmarks := congrArg List.length s.playout.completed_append
  rw [hx]
  unfold Session.load
  change x.1.contents.length +
    (rtwPlayoutPopCompletedMarks s.playout HARVEST_MAX).2.marks.length ≤ _
  rw [marks_popCompletedMarks]
  simp only [List.length_append, List.length_map, Offers.names, Session.out] at *
  omega

theorem load_drop {s : Session} (h : s.outbound.contents ≠ []) :
    Session.load (rtwSessionDropOutboundHead s).2 + 1 = Session.load s := by
  rcases rtwQueueDropHead_spec s.outbound with ⟨hempty, -⟩ | ⟨b, -, hcontents, -⟩
  · exact absurd hempty h
  · have hlen := congrArg List.length hcontents
    unfold Session.load
    change (rtwQueueDropHead s.outbound).2.contents.length + s.playout.marks.length + 1 = _
    rw [hlen, List.length_cons]
    omega

/-- Every step of a flush brings it nearer to its end. -/
theorem flushStep_remaining (io : StepIo) (g : Shared) (site : FlushSite) {f : FlushPc}
    (hret : f.isRet = false) (hspin : (Pc.flush site f).spins printNumber io = false)
    (hdrop : (Pc.flush site f).dropping = true → g.tech.session.outbound.contents ≠ []) :
    10 * Session.load (flushStep printNumber io g f).2.tech.session +
        (flushStep printNumber io g f).1.remaining <
      10 * Session.load g.tech.session + f.remaining := by
  cases f with
  | readWs =>
    simp only [flushStep]
    split <;> simp only [FlushPc.remaining] <;> omega
  | readReady =>
    simp only [flushStep]
    split <;> simp only [FlushPc.remaining] <;> omega
  | peek =>
    have hload : Session.load (rtwSessionPeekOutbound (io.env 0) g.tech.session).2 ≤
        Session.load g.tech.session := load_harvest (io.env 0) g.tech.session
    simp only [flushStep, Shared.withTech]
    cases (rtwSessionPeekOutbound (io.env 0) g.tech.session).1 with
    | none =>
      simp only [FlushPc.remaining]
      omega
    | some json =>
      simp only [FlushPc.remaining]
      omega
  | readArg json =>
    simp only [flushStep, FlushPc.remaining]
    omega
  | send c json =>
    cases c with
    | none =>
      simp only [flushStep, FlushPc.remaining]
      omega
    | some c =>
      have hsome : (sendStep printNumber io g c json).1.isNone = false := hspin
      simp only [flushStep]
      cases hr : (sendStep printNumber io g c json).1 with
      | none =>
        rw [hr] at hsome
        cases hsome
      | some r =>
        simp only [sendStep]
        split <;> simp only [FlushPc.remaining] <;> omega
  | failed =>
    simp only [flushStep, FlushPc.remaining, Shared.withTech]
    omega
  | drop =>
    have hload := load_drop (hdrop rfl)
    simp only [flushStep, FlushPc.remaining, Shared.withTech]
    omega
  | ret => cases hret

/-- A thread in a section goes on to the end of it. -/
theorem left_step (t : Thread) (io : StepIo) {g : Shared} {pc : Pc} (hin : pc.inSection = true)
    (hstart : pc.starting = false) (hspin : pc.spins printNumber io = false)
    (hdrop : pc.dropping = true → g.tech.session.outbound.contents ≠ []) :
    (pc.step printNumber t io g).1.inSection = false ∨
      (pc.step printNumber t io g).1.left (pc.step printNumber t io g).2.tech.session <
        pc.left g.tech.session := by
  have hflush : ∀ {site : FlushSite} {f : FlushPc}, pc = .flush site f → f.isRet = false →
      Pc.left (flushStep printNumber io g f).2.tech.session
        (.flush site (flushStep printNumber io g f).1) < pc.left g.tech.session := by
    rintro site f rfl hret
    exact Prod.Lex.toLex_lt_toLex.mpr
      (Or.inr ⟨rfl, flushStep_remaining printNumber io g site hret hspin hdrop⟩)
  -- between calls of the session
  have hcall : ∀ {pc' : Pc} {s' : Session}, (ofLex (pc'.left s')).1 < (ofLex (pc.left s')).1 →
      (ofLex (pc.left s')).1 = (ofLex (pc.left g.tech.session)).1 →
        pc'.inSection = false ∨ pc'.left s' < pc.left g.tech.session := by
    intro pc' s' h hsame
    rw [hsame] at h
    exact Or.inr (Prod.Lex.toLex_lt_toLex.mpr (Or.inl h))
  cases pc with
  | flush site f =>
    cases f with
    | ret =>
      have hunlock : 1 < 10 * Session.load g.tech.session + FlushPc.remaining .ret := by
        simp only [FlushPc.remaining]
        omega
      cases site with
      | start => cases hstart
      | _ => exact Or.inr (Prod.Lex.toLex_lt_toLex.mpr (Or.inr ⟨rfl, hunlock⟩))
    | _ => exact Or.inr (hflush rfl rfl)
  | unlock site => cases site <;> exact Or.inl rfl
  | textHandle c text =>
    simp only [Pc.step]
    split
    · exact hcall Nat.zero_lt_one rfl
    · exact hcall Nat.zero_lt_one rfl
  | handshake =>
    simp only [Pc.step]
    split
    · exact hcall Nat.zero_lt_one rfl
    · exact hcall Nat.zero_lt_one rfl
  | callHandle text => exact hcall Nat.zero_lt_one rfl
  | stopSession => exact hcall (Nat.lt_succ_self 3) rfl
  | stopReadWs =>
    simp only [Pc.step]
    split
    · exact hcall (Nat.zero_lt_succ 2) rfl
    · exact hcall (Nat.lt_succ_self 2) rfl
  | stopReady => exact hcall (Nat.zero_lt_succ 1) rfl
  | _ => cases hin

/-! ### The worker on its way out, and the stop -/

/-- How a step of the worker, or of a stop that has joined it, gets on. -/
inductive GetsOn (pc : Pc) (io : StepIo) (g : Shared) (r : Pc × Shared) : Prop
  | nearer (h : r.1.remaining < pc.remaining)
  | within (h : r.1.remaining = pc.remaining) (hin : pc.inSection = true)
      (hin' : r.1.inSection = true)
  | waiting (hpc : pc.waits = true) (hmutex : g.mutex ≠ none) (h : r = (pc, g))
  | spinning (hspin : pc.spins printNumber io = true) (h : r.1.remaining = pc.remaining)
      (hpc : pc.inSection = false ∧ pc.waits = false ∧ r.1.waits = false)
      (hshared : r.2.control = g.control ∧ r.2.tech.session = g.tech.session)

/-- The form in which a step shows it by computing. -/
theorem GetsOn.near {pc : Pc} {io : StepIo} {g : Shared} {r : Pc × Shared}
    (h : Nat.blt r.1.remaining pc.remaining = true) : GetsOn printNumber pc io g r :=
  .nearer (Nat.le_of_ble_eq_true h)

theorem GetsOn.lock (t : Thread) (io : StepIo) (g : Shared) {pc inside failed : Pc}
    (hpc : pc.waits = true) (hin : Nat.blt inside.remaining pc.remaining = true)
    (hfailed : Nat.blt failed.remaining pc.remaining = true) :
    GetsOn printNumber pc io g (lock t io g pc inside failed) := by
  unfold RealtimeWs.Mod.lock
  split
  · exact .near printNumber hfailed
  · split
    · exact .near printNumber hin
    · rename_i hmutex
      exact .waiting hpc hmutex rfl

/-- Once the bridge is being stopped the worker gets nearer to its exit with every step, and
the stop behind its join nearer to the end, unless they wait or are inside a call. -/
theorem getsOn (t : Thread) (io : StepIo) {g : Shared} {pc : Pc}
    (hcleanup : g.tech.cleanupStarted = true)
    (hrole : pc.ofWorker = true ∨ (pc.requested = true ∧ g.workerDone = true))
    (hstart : pc.starting = false) (hends : pc.ends = false) :
    GetsOn printNumber pc io g (pc.step printNumber t io g) := by
  have hstopping : stopping g.tech = true := by
    rw [stopping, hcleanup, Bool.or_true]
  have hno : pc.ofWorker = false → pc.requested = false → False := by
    intro hworker hrequested
    rcases hrole with h | ⟨h, -⟩
    · cases hworker.symm.trans h
    · cases hrequested.symm.trans h
  cases pc with
  | flush site f =>
    cases f with
    | ret =>
      cases site with
      | start => cases hstart
      | _ => exact .within rfl rfl rfl
    | _ => exact .within (by cases site <;> rfl) rfl rfl
  | unlock site =>
    cases site with
    | call => exact (hno rfl rfl).elim
    | _ => exact .near printNumber rfl
  | close site p =>
    cases p with
    | read =>
      simp only [Pc.step, closeStep]
      split
      · cases site <;> exact .near printNumber rfl
      · cases site <;> exact .near printNumber rfl
    | _ => cases site <;> exact .near printNumber rfl
  -- the worker finds that it is to stop
  | loop | checkLoop | checkStop =>
    simp only [Pc.step, hstopping, if_true]
    exact .near printNumber rfl
  | begin =>
    have hquit : reconnectBegin g.tech = none := if_pos (Or.inr hstopping)
    simp only [Pc.step, hquit]
    exact .near printNumber rfl
  | backoff =>
    have hquit : sleepInterruptibleMs g.tech 1 = false := by
      simp [sleepInterruptibleMs, hstopping]
    simp only [Pc.step, hquit, Bool.false_eq_true, if_false]
    exact .near printNumber rfl
  | textHandle c text =>
    simp only [Pc.step, hstopping, if_true]
    exact .within rfl rfl rfl
  | handshake =>
    simp only [Pc.step, hstopping, if_true]
    exact .within rfl rfl rfl
  -- the poll may go on
  | poll c =>
    cases c with
    | none => exact .near printNumber rfl
    | some c =>
      simp only [Pc.step]
      cases hpoll : io.poll with
      | text text =>
        refine .spinning ?_ rfl ⟨rfl, rfl, rfl⟩ ⟨rfl, rfl⟩
        simp only [Pc.spins, hpoll]
      | closed =>
        refine .spinning ?_ rfl ⟨rfl, rfl, rfl⟩ ⟨rfl, rfl⟩
        simp only [Pc.spins, hpoll]
      | done => exact .near printNumber rfl
      | failed => exact .near printNumber rfl
  | textCheck c text =>
    simp only [Pc.step, hstopping, if_true]
    exact .spinning rfl rfl ⟨rfl, rfl, rfl⟩ ⟨rfl, rfl⟩
  -- the mutex
  | textLock c text => exact .lock printNumber t io g rfl rfl rfl
  | handshakeLock => exact .lock printNumber t io g rfl rfl rfl
  | stopLock => exact .lock printNumber t io g rfl rfl rfl
  -- the stop
  | stopJoin =>
    have hdone : g.workerDone = true := by
      rcases hrole with h | ⟨-, h⟩
      · cases h
      · exact h
    simp only [Pc.step, hdone, if_true]
    exact .near printNumber rfl
  | stopSession => exact .within rfl rfl rfl
  | stopReadWs =>
    simp only [Pc.step]
    split <;> exact .within rfl rfl rfl
  | stopReady => exact .within rfl rfl rfl
  | exited | free => cases hends
  | idle | callCheck | callLock | callHandle | stopCheck | stopRequest =>
    exact (hno rfl rfl).elim
  | _ =>
    simp only [Pc.step]
    first
    | exact .near printNumber rfl
    | split <;> exact .near printNumber rfl

/-! ### Whom the stop waits for -/

/-- What is left of the section under way. -/
def ownerLeft (s : BridgeState) : ℕ ×ₗ ℕ :=
  match s.shared.mutex with
  | none => toLex (0, 0)
  | some u => (s.pc u).left s.shared.tech.session

/-- The number of callers that may still lock the mutex. -/
noncomputable def lockers (s : BridgeState) : ℕ := {t | (s.pc t).mayLock = true}.ncard

/-- What is left for `main`, the callers that can get in its way, and their section. -/
noncomputable def stopRank (main : Thread) (s : BridgeState) : ℕ ×ₗ ℕ ×ₗ ℕ ×ₗ ℕ :=
  toLex ((s.pc main).remaining, toLex (lockers s, ownerLeft s))

/-- Whoever has to act for `main` to get on: the owner of the mutex it waits for, or itself. -/
def responsible (main : Thread) (s : BridgeState) : Thread :=
  if (s.pc main).waits = true then s.shared.mutex.getD main else main

theorem left_pos {pc : Pc} (h : pc.inSection = true) (s : Session) :
    toLex (0, 0) < pc.left s := by
  have hfirst : ∀ n m : ℕ, (toLex (0, 0) : ℕ ×ₗ ℕ) < toLex (n + 1, m) := by
    intro n m
    exact Prod.Lex.toLex_lt_toLex.mpr (Or.inl (Nat.succ_pos n))
  have hsecond : ∀ n : ℕ, (toLex (0, 0) : ℕ ×ₗ ℕ) < toLex (0, n + 1) := by
    intro n
    exact Prod.Lex.toLex_lt_toLex.mpr (Or.inr ⟨rfl, Nat.succ_pos n⟩)
  cases pc with
  | flush site f => cases f <;> exact hsecond _
  | unlock site => exact hsecond 0
  | textHandle | handshake | callHandle | stopSession | stopReadWs | stopReady => exact hfirst _ 0
  | _ => cases h

/-- A send that does not return changes nothing. -/
theorem spins_stay {pc : Pc} (t : Thread) (io : StepIo) (g : Shared) (hin : pc.inSection = true)
    (hspin : pc.spins printNumber io = true) : pc.step printNumber t io g = (pc, g) := by
  cases pc with
  | flush site f =>
    cases f with
    | send c json =>
      cases c with
      | none => cases hspin
      | some c =>
        have hnone : (sendStep printNumber io g c json).1 = none := Option.isNone_iff_eq_none.mp hspin
        simp only [Pc.step, flushStep, hnone]
    | _ => cases hspin
  | unlock | textHandle | handshake | callHandle | stopSession | stopReadWs | stopReady =>
    cases hspin
  | _ => cases hin

theorem waits_inSection {pc : Pc} (h : pc.waits = true) : pc.inSection = false := by
  cases pc <;> first | rfl | cases h

theorem lockers_finite {s : BridgeState} (h : Halting s) :
    {u | (s.pc u).mayLock = true}.Finite := by
  refine h.finite.subset fun u hu => ?_
  have hu : (s.pc u).mayLock = true := hu
  change (s.pc u).isIdle = false
  generalize s.pc u = pc at hu
  cases pc <;> first | rfl | cases hu

section
variable {s : BridgeState} {t : Thread} {io : StepIo}
  (hcleanup : s.shared.tech.cleanupStarted = true)
  (hstep : ControlStep t (s.pc t) s.shared.control (((bridge printNumber).step s (t, io)).pc t)
    ((bridge printNumber).step s (t, io)).shared.control)
include hcleanup hstep

theorem lockers_subset : {u | (((bridge printNumber).step s (t, io)).pc u).mayLock = true} ⊆
    {u | (s.pc u).mayLock = true} := by
  intro u hu
  have hu : (((bridge printNumber).step s (t, io)).pc u).mayLock = true := hu
  change (s.pc u).mayLock = true
  by_cases hut : u = t
  · subst hut
    exact hstep.mayLock hcleanup hu
  · rw [Threads.pc_other hut] at hu
    exact hu

theorem lockers_le (h : Halting s) : lockers ((bridge printNumber).step s (t, io)) ≤ lockers s :=
  Set.ncard_le_ncard (lockers_subset printNumber hcleanup hstep) (lockers_finite h)

theorem lockers_lt (h : Halting s) (hbefore : (s.pc t).mayLock = true)
    (hafter : (((bridge printNumber).step s (t, io)).pc t).mayLock = false) :
    lockers ((bridge printNumber).step s (t, io)) < lockers s := by
  refine Set.ncard_lt_ncard ⟨lockers_subset printNumber hcleanup hstep, fun hsub => ?_⟩
    (lockers_finite h)
  have hmem : (((bridge printNumber).step s (t, io)).pc t).mayLock = true := hsub hbefore
  cases hafter.symm.trans hmem

end

theorem Halting.shared {s : BridgeState} (h : Halting s)
    (hcleanup : s.shared.tech.cleanupStarted = true) : s.shared.handedOut = true := by
  by_contra hno
  cases (h.unshared (Bool.eq_false_iff.mpr hno)).2.symm.trans hcleanup

theorem Halting.owner {s : BridgeState} (h : Halting s) {t : Thread}
    (hcleanup : s.shared.tech.cleanupStarted = true) (hin : (s.pc t).inSection = true) :
    s.shared.mutex = some t := by
  have howner := h.ordinary.exclusive t hin
  unfold Shared.owner at howner
  rw [h.shared hcleanup, if_pos rfl] at howner
  exact howner

theorem Halting.not_starting {s : BridgeState} (h : Halting s)
    (hcleanup : s.shared.tech.cleanupStarted = true) (t : Thread) :
    (s.pc t).starting = false := by
  rw [Bool.eq_false_iff]
  intro hstart
  cases (h.unshared (h.starting t hstart)).2.symm.trans hcleanup

/-- A step in one direction of `stopRank`, or one that the responsible thread does not make. -/
def RankStep (main : Thread) (s s' : BridgeState) (t : Thread) (io : StepIo) : Prop :=
  stopRank main s' < stopRank main s ∨ (stopRank main s' = stopRank main s ∧
    responsible main s' = responsible main s ∧
      ¬ (t = responsible main s ∧ (s.pc t).spins printNumber io = false))

theorem RankStep.nearer {main : Thread} {s s' : BridgeState} {t : Thread} {io : StepIo}
    (h : (s'.pc main).remaining < (s.pc main).remaining) : RankStep printNumber main s s' t io :=
  Or.inl (Prod.Lex.toLex_lt_toLex.mpr (Or.inl h))

theorem RankStep.fewer {main : Thread} {s s' : BridgeState} {t : Thread} {io : StepIo}
    (hpc : (s'.pc main).remaining = (s.pc main).remaining) (h : lockers s' < lockers s) :
    RankStep printNumber main s s' t io :=
  Or.inl (Prod.Lex.toLex_lt_toLex.mpr (Or.inr ⟨hpc, Prod.Lex.toLex_lt_toLex.mpr (Or.inl h)⟩))

theorem RankStep.owner {main : Thread} {s s' : BridgeState} {t : Thread} {io : StepIo}
    (hpc : (s'.pc main).remaining = (s.pc main).remaining) (hlockers : lockers s' ≤ lockers s)
    (h : ownerLeft s' < ownerLeft s) : RankStep printNumber main s s' t io := by
  rcases hlockers.lt_or_eq with hlt | heq
  · exact .fewer printNumber hpc hlt
  · exact Or.inl (Prod.Lex.toLex_lt_toLex.mpr
      (Or.inr ⟨hpc, Prod.Lex.toLex_lt_toLex.mpr (Or.inr ⟨heq, h⟩)⟩))

/-- Nothing that the rank looks at changes, and the thread is not the responsible one. -/
theorem RankStep.level {main : Thread} {s s' : BridgeState} {t : Thread} {io : StepIo}
    (hpc : (s'.pc main).remaining = (s.pc main).remaining) (hlockers : lockers s' ≤ lockers s)
    (howner : ownerLeft s' = ownerLeft s) (hactor : responsible main s' = responsible main s)
    (hidle : ¬ (t = responsible main s ∧ (s.pc t).spins printNumber io = false)) :
    RankStep printNumber main s s' t io := by
  rcases hlockers.lt_or_eq with hlt | heq
  · exact .fewer printNumber hpc hlt
  · refine Or.inr ⟨?_, hactor, hidle⟩
    unfold stopRank
    rw [hpc, heq, howner]

theorem RankStep.stay {main : Thread} {s s' : BridgeState} {t : Thread} {io : StepIo}
    (h : s' = s) (hidle : ¬ (t = responsible main s ∧ (s.pc t).spins printNumber io = false)) :
    RankStep printNumber main s s' t io := by
  rw [h]
  exact Or.inr ⟨rfl, rfl, hidle⟩

theorem ownerLeft_none {s : BridgeState} (h : s.shared.mutex = none) :
    ownerLeft s = toLex (0, 0) := by
  rw [ownerLeft, h]

theorem ownerLeft_some {s : BridgeState} {u : Thread} (h : s.shared.mutex = some u) :
    ownerLeft s = (s.pc u).left s.shared.tech.session := by
  rw [ownerLeft, h]

/-- The owner of the mutex goes on to the end of its section. -/
theorem Halting.owner_step {s : BridgeState} (h : Halting s) (hflow : Flowing s) {main t : Thread}
    {io : StepIo} (hcleanup : s.shared.tech.cleanupStarted = true)
    (hrun : (threads printNumber).step t io (s.pc t) s.shared =
      (s.pc t).step printNumber t io s.shared)
    (hstep : ControlStep t (s.pc t) s.shared.control (((bridge printNumber).step s (t, io)).pc t)
      ((bridge printNumber).step s (t, io)).shared.control)
    (hin : (s.pc t).inSection = true)
    (hmain : (((bridge printNumber).step s (t, io)).pc main).remaining = (s.pc main).remaining) :
    RankStep printNumber main s ((bridge printNumber).step s (t, io)) t io := by
  have hafter := h.step printNumber (t, io)
  have hmutex := h.owner hcleanup hin
  have hlockers := lockers_le printNumber hcleanup hstep h
  cases hspin : (s.pc t).spins printNumber io with
  | true =>
    refine .stay printNumber (Threads.step_eq_self ?_) ?_
    · rw [hrun]
      exact spins_stay printNumber t io s.shared hin hspin
    · intro hacts
      cases hspin.symm.trans hacts.2
  | false =>
    have hdrop : (s.pc t).dropping = true → s.shared.tech.session.outbound.contents ≠ [] := by
      intro hd hempty
      obtain ⟨json, hhead, -⟩ := hflow.sent t hd
      rw [hempty] at hhead
      cases hhead
    refine .owner printNumber hmain hlockers ?_
    rw [ownerLeft_some hmutex]
    rcases left_step printNumber t io hin (h.not_starting hcleanup t) hspin hdrop with hout | hlt
    · -- it unlocks
      have hout' : (((bridge printNumber).step s (t, io)).pc t).inSection = false := by
        rw [Threads.pc_self, hrun]
        exact hout
      rcases hstep.leaves hin hout' with hnone | hstart
      · rw [ownerLeft_none hnone]
        exact left_pos hin _
      · cases (h.not_starting hcleanup t).symm.trans hstart
    · cases hnow : ((bridge printNumber).step s (t, io)).shared.mutex with
      | none =>
        rw [ownerLeft_none hnow]
        exact left_pos hin _
      | some u =>
        have hut : u = t := by
          rcases hstep.mutex_cases with hsame | ⟨hfree, -⟩ | ⟨hnone, -⟩
          · exact Option.some.inj (hnow.symm.trans (hsame.trans hmutex))
          · cases hmutex.symm.trans hfree
          · cases hnone.symm.trans hnow
        rw [ownerLeft_some hnow, hut, Threads.pc_self, Threads.shared_step, hrun]
        exact hlt

/-- A step of a thread that owns no mutex, and for which nobody waits. -/
theorem Halting.other_step {s : BridgeState} (h : Halting s) {main t : Thread} {io : StepIo}
    (hcleanup : s.shared.tech.cleanupStarted = true) (hne : main ≠ t)
    (hworker : main ≠ .worker → s.shared.workerDone = true)
    (hstep : ControlStep t (s.pc t) s.shared.control (((bridge printNumber).step s (t, io)).pc t)
      ((bridge printNumber).step s (t, io)).shared.control)
    (hout : (s.pc t).inSection = false) :
    RankStep printNumber main s ((bridge printNumber).step s (t, io)) t io := by
  have hpc : ((bridge printNumber).step s (t, io)).pc main = s.pc main := Threads.pc_other hne
  have hmain : (((bridge printNumber).step s (t, io)).pc main).remaining =
      (s.pc main).remaining := by rw [hpc]
  have hlockers := lockers_le printNumber hcleanup hstep h
  rcases hstep.mutex_cases with hsame | ⟨hfree, htaken, -⟩ | ⟨-, hin, -⟩
  · have hsame : ((bridge printNumber).step s (t, io)).shared.mutex = s.shared.mutex := hsame
    have hactor : responsible main ((bridge printNumber).step s (t, io)) = responsible main s := by
      unfold responsible
      rw [hpc, hsame]
    cases hmutex : s.shared.mutex with
    | none =>
      refine .level printNumber hmain hlockers ?_ hactor ?_
      · rw [ownerLeft_none hmutex, ownerLeft_none (hsame.trans hmutex)]
      · intro hacts
        have hresp : responsible main s = main := by
          unfold responsible
          rw [hmutex, Option.getD_none, ite_self]
        exact hne (hresp.symm.trans hacts.1.symm)
    | some u =>
      have hu := h.holder u hmutex
      have hut : u ≠ t := by
        rintro rfl
        cases hout.symm.trans hu
      obtain ⟨-, hsession, -⟩ := h.ordinary.undisturbed printNumber hu hut io
      refine .level printNumber hmain hlockers ?_ hactor ?_
      · rw [ownerLeft_some hmutex, ownerLeft_some (hsame.trans hmutex), hsession,
          Threads.pc_other hut]
      · intro hacts
        unfold responsible at hacts
        rw [hmutex, Option.getD_some] at hacts
        split at hacts
        · exact hut hacts.1.symm
        · exact hne hacts.1.symm
  · -- it locks the mutex, and is one of those that may
    obtain ⟨hlocks, hlocked, hends⟩ := hstep.takes hfree htaken
    refine .fewer printNumber hmain (lockers_lt printNumber hcleanup hstep h ?_ hlocked)
    refine hlocks.resolve_right fun hrole => ?_
    have ht : t = .worker := of_decide_eq_true ((h.ordinary.role t).symm.trans hrole)
    have hgone : s.pc t = .exited := by
      rw [ht]
      refine h.gone (hworker fun hw => ?_)
      exact hne (hw.trans ht.symm)
    rw [hgone] at hends
    cases hends
  · cases hout.symm.trans hin

/-- A step of the worker on its way out, or of the stop behind its join. -/
theorem Halting.main_step {s : BridgeState} (h : Halting s) (hflow : Flowing s) {t : Thread}
    {io : StepIo} (hcleanup : s.shared.tech.cleanupStarted = true)
    (hrole : (s.pc t).ofWorker = true ∨
      ((s.pc t).requested = true ∧ s.shared.workerDone = true))
    (hends : (s.pc t).ends = false)
    (hrun : (threads printNumber).step t io (s.pc t) s.shared =
      (s.pc t).step printNumber t io s.shared)
    (hstep : ControlStep t (s.pc t) s.shared.control (((bridge printNumber).step s (t, io)).pc t)
      ((bridge printNumber).step s (t, io)).shared.control) :
    RankStep printNumber t s ((bridge printNumber).step s (t, io)) t io := by
  have hpc : ((bridge printNumber).step s (t, io)).pc t =
      ((s.pc t).step printNumber t io s.shared).1 := by
    rw [Threads.pc_self, hrun]
  have hshared : ((bridge printNumber).step s (t, io)).shared =
      ((s.pc t).step printNumber t io s.shared).2 := by
    rw [Threads.shared_step, hrun]
  have hlockers := lockers_le printNumber hcleanup hstep h
  cases getsOn printNumber t io hcleanup hrole (h.not_starting hcleanup t) hends with
  | nearer hlt =>
    apply RankStep.nearer
    rw [hpc]
    exact hlt
  | within hsame hin hin' =>
    refine h.owner_step printNumber hflow hcleanup hrun hstep hin ?_
    rw [hpc]
    exact hsame
  | waiting hwaits hmutex hstays =>
    refine .stay printNumber (Threads.step_eq_self (hrun.trans hstays)) ?_
    intro hacts
    obtain ⟨u, hu⟩ := Option.ne_none_iff_exists'.mp hmutex
    unfold responsible at hacts
    rw [if_pos hwaits, hu, Option.getD_some] at hacts
    have hin := h.holder u hu
    rw [← hacts.1] at hin
    cases (waits_inSection hwaits).symm.trans hin
  | spinning hspin hsame hout hquiet =>
    have hmutex : ((bridge printNumber).step s (t, io)).shared.mutex = s.shared.mutex := by
      rw [hshared]
      exact congrArg Control.mutex hquiet.1
    refine .level printNumber (by rw [hpc, hsame]) hlockers ?_ ?_ ?_
    · cases hnow : s.shared.mutex with
      | none => rw [ownerLeft_none hnow, ownerLeft_none (hmutex.trans hnow)]
      | some u =>
        have hut : u ≠ t := by
          rintro rfl
          cases hout.1.symm.trans (h.holder u hnow)
        rw [ownerLeft_some hnow, ownerLeft_some (hmutex.trans hnow), Threads.pc_other hut, hshared,
          hquiet.2]
    · unfold responsible
      rw [hpc, if_neg (by rw [hout.2.2]; exact Bool.false_ne_true),
        if_neg (by rw [hout.2.1]; exact Bool.false_ne_true)]
    · intro hacts
      cases hspin.symm.trans hacts.2

/-- Every step brings the worker nearer to its exit, or the stop behind its join to its end,
or is not a step of the thread that has to act. -/
theorem Halting.rank_step {s : BridgeState} (h : Halting s) (hflow : Flowing s) {main : Thread}
    (hfreed : s.shared.freed = false) (hcleanup : s.shared.tech.cleanupStarted = true)
    (hrole : (s.pc main).ofWorker = true ∨
      ((s.pc main).requested = true ∧ s.shared.workerDone = true))
    (t : Thread) (io : StepIo) :
    (t = main ∧ (s.pc t).ends = true) ∨
      RankStep printNumber main s ((bridge printNumber).step s (t, io)) t io := by
  have hhanded := h.shared hcleanup
  have hrun := threads_run printNumber t io hfreed (Or.inl hhanded)
  have hstep := control_run printNumber t io hfreed (Or.inl hhanded)
  by_cases ht : main = t
  · subst ht
    cases hends : (s.pc main).ends with
    | true => exact Or.inl ⟨rfl, rfl⟩
    | false => exact Or.inr (h.main_step printNumber hflow hcleanup hrole hends hrun hstep)
  · refine Or.inr ?_
    have hworker : main ≠ .worker → s.shared.workerDone = true := by
      intro hw
      refine (hrole.resolve_left fun hno => ?_).2
      exact hw (of_decide_eq_true ((h.ordinary.role main).symm.trans hno))
    cases hin : (s.pc t).inSection with
    | true =>
      refine h.owner_step printNumber hflow hcleanup hrun hstep hin ?_
      rw [Threads.pc_other ht]
    | false => exact h.other_step printNumber hcleanup ht hworker hstep hin

/-! ### Infinite runs -/

/-- The moments of a run that begins with the start of the bridge. -/
abbrev moments (tech : Tech) (sched : ℕ → Thread × StepIo) : ℕ → BridgeState :=
  (bridge printNumber).states (startState tech) sched

/-- Thread `t` acts at moment `k`, and not within a call that goes on. -/
def Acts (tech : Tech) (sched : ℕ → Thread × StepIo) (t : Thread) (k : ℕ) : Prop :=
  (sched k).1 = t ∧
    ((moments printNumber tech sched k).pc t).spins printNumber (sched k).2 = false

/-- The bridge lives, and `t` is in a call to it or is the worker and has not gone yet. -/
def OnItsWay (s : BridgeState) (t : Thread) : Prop :=
  s.shared.freed = false ∧ (s.pc t).isIdle = false ∧ (t = .worker → s.shared.workerDone = false)

/-- A thread that stays on its way acts again, and what it calls returns: `rtw_ws_poll` does
not bring texts for ever, and `rtw_ws_send_text` comes back. -/
def Fair (tech : Tech) (sched : ℕ → Thread × StepIo) : Prop :=
  ∀ t k, (∀ j ≥ k, OnItsWay (moments printNumber tech sched j) t) →
    ∃ k' ≥ k, Acts printNumber tech sched t k'

theorem not_ofWorker_of_ofStop {pc : Pc} (h : pc.ofStop = true) : pc.ofWorker = false := by
  cases pc with
  | flush site f | unlock site => cases site <;> first | rfl | cases h
  | close site p => cases site <;> first | rfl | cases h
  | _ => first | rfl | cases h

theorem Halting.not_worker {s : BridgeState} (h : Halting s) {t : Thread}
    (hstop : (s.pc t).ofStop = true) : t ≠ .worker := by
  have hrole := h.ordinary.role t
  rw [not_ofWorker_of_ofStop hstop] at hrole
  exact of_decide_eq_false hrole.symm

theorem not_idle_of_ofStop {pc : Pc} (h : pc.ofStop = true) : pc.isIdle = false := by
  cases pc <;> first | rfl | cases h

theorem not_idle_of_ofWorker {pc : Pc} (h : pc.ofWorker = true) : pc.isIdle = false := by
  cases pc <;> first | rfl | cases h

theorem not_idle_of_inSection {pc : Pc} (h : pc.inSection = true) : pc.isIdle = false := by
  cases pc <;> first | rfl | cases h

theorem Halting.stop_onItsWay {s : BridgeState} (h : Halting s) {t : Thread}
    (hfreed : s.shared.freed = false) (hstop : (s.pc t).ofStop = true) : OnItsWay s t :=
  ⟨hfreed, not_idle_of_ofStop hstop, fun ht => absurd ht (h.not_worker hstop)⟩

/-- Whoever has to act for a thread that is on its way is on its way too. -/
theorem Halting.responsible_onItsWay {s : BridgeState} (h : Halting s) {main : Thread}
    (hmain : OnItsWay s main) : OnItsWay s (responsible main s) := by
  unfold responsible
  split_ifs
  · cases hmutex : s.shared.mutex with
    | none => exact hmain
    | some u =>
      have hin := h.holder u hmutex
      refine ⟨hmain.1, not_idle_of_inSection hin, fun hu => ?_⟩
      rw [Option.getD_some] at hu
      rw [Bool.eq_false_iff]
      intro hdone
      have hgone := h.gone hdone
      rw [← hu] at hgone
      rw [hgone] at hin
      cases hin
  · exact hmain

/-- What is left of `rtw_bridge_stop` up to its request. -/
def Pc.toRequest : Pc → ℕ
  | .stopCheck => 2
  | .stopRequest => 1
  | _ => 0

section
variable {tech : Tech} (h : Opened tech) (hs : tech.session.Started)
  {sched : ℕ → Thread × StepIo} (hfair : Fair printNumber tech sched)

theorem Opened.halting_moments (h : Opened tech) (sched : ℕ → Thread × StepIo) (k : ℕ) :
    Halting (moments printNumber tech sched k) :=
  (bridge printNumber).states_invariant (fun _ e hh => hh.step printNumber e) h.halting sched k

theorem Opened.flowing_moments (h : Opened tech) (hs : tech.session.Started)
    (sched : ℕ → Thread × StepIo) (k : ℕ) : Flowing (moments printNumber tech sched k) :=
  (bridge printNumber).states_invariant (fun _ e hf => hf.step printNumber e) (h.flowing hs) sched k

/-- The stop is not undone. -/
theorem cleanup_stays {k₀ k : ℕ} (hk : k₀ ≤ k)
    (hcleanup : (moments printNumber tech sched k₀).shared.tech.cleanupStarted = true) :
    (moments printNumber tech sched k).shared.tech.cleanupStarted = true := by
  refine (bridge printNumber).states_stable (J := fun s => s.shared.tech.cleanupStarted = true)
    (fun j hj => ?_) hk hcleanup
  rw [Machine.states]
  rcases step_control printNumber (s := moments printNumber tech sched j) (sched j).1 (sched j).2
    with hstay | ⟨-, hstep⟩
  · rw [hstay]
    exact hj
  · exact hstep.cleanup hj

theorem workerDone_stays {k₀ k : ℕ} (hk : k₀ ≤ k)
    (hdone : (moments printNumber tech sched k₀).shared.workerDone = true) :
    (moments printNumber tech sched k).shared.workerDone = true := by
  refine (bridge printNumber).states_stable (J := fun s => s.shared.workerDone = true)
    (fun j hj => ?_) hk hdone
  rw [Machine.states]
  rcases step_control printNumber (s := moments printNumber tech sched j) (sched j).1 (sched j).2
    with hstay | ⟨-, hstep⟩
  · rw [hstay]
    exact hj
  · exact hstep.workerDone hj

/-- A stop that was requested is under way until the bridge is freed. -/
theorem requested_stays {k₀ k : ℕ} (hk : k₀ ≤ k) {t : Thread}
    (hrequested : ((moments printNumber tech sched k₀).pc t).requested = true) :
    ((moments printNumber tech sched k).pc t).requested = true ∨
      (moments printNumber tech sched k).shared.freed = true := by
  refine (bridge printNumber).states_stable
    (J := fun s => (s.pc t).requested = true ∨ s.shared.freed = true)
    (fun j hj => ?_) hk (Or.inl hrequested)
  rw [Machine.states]
  rcases step_control printNumber (s := moments printNumber tech sched j) (sched j).1 (sched j).2
    with hstay | ⟨-, hstep⟩
  · rw [hstay]
    exact hj
  · rcases hj with hj | hj
    · by_cases ht : t = (sched j).1
      · rw [ht] at hj ⊢
        exact hstep.goes_on hj
      · left
        rw [Threads.pc_other ht]
        exact hj
    · exact Or.inr (hstep.freed hj)

/-- The bridge is freed by a stop, which returns with it. -/
theorem freed_by {k₀ k : ℕ} (hk : k₀ ≤ k)
    (hlive : (moments printNumber tech sched k₀).shared.freed = false)
    (hfreed : (moments printNumber tech sched k).shared.freed = true) :
    ∃ j ≥ k₀, j < k ∧ (moments printNumber tech sched (j + 1)).shared.freed = true ∧
      (moments printNumber tech sched j).pc (sched j).1 = .free ∧
      (moments printNumber tech sched (j + 1)).pc (sched j).1 = .idle := by
  induction k, hk using Nat.le_induction with
  | base => cases hlive.symm.trans hfreed
  | succ k hk ih =>
    cases hbefore : (moments printNumber tech sched k).shared.freed with
    | true =>
      obtain ⟨j, hj, hlt, hlast⟩ := ih hbefore
      exact ⟨j, hj, hlt.trans (Nat.lt_succ_self k), hlast⟩
    | false =>
      refine ⟨k, hk, Nat.lt_succ_self k, hfreed, ?_⟩
      rcases step_control printNumber (s := moments printNumber tech sched k) (sched k).1
        (sched k).2 with hstay | ⟨-, hstep⟩
      · have hsame : moments printNumber tech sched (k + 1) = moments printNumber tech sched k :=
          hstay
        rw [hsame] at hfreed
        cases hbefore.symm.trans hfreed
      · rcases hstep.newly_freed hfreed with hk | hlast
        · cases hbefore.symm.trans hk
        · exact hlast

/-- The rank of `main` falls or stays as it is, unless `main` makes its last step. -/
theorem rank_moment (h : Opened tech) (hs : tech.session.Started) {k : ℕ} {main : Thread}
    (hfreed : (moments printNumber tech sched k).shared.freed = false)
    (hcleanup : (moments printNumber tech sched k).shared.tech.cleanupStarted = true)
    (hrole : ((moments printNumber tech sched k).pc main).ofWorker = true ∨
      (((moments printNumber tech sched k).pc main).requested = true ∧
        (moments printNumber tech sched k).shared.workerDone = true)) :
    ((moments printNumber tech sched k).pc main = .exited ∧
        (moments printNumber tech sched (k + 1)).shared.workerDone = true) ∨
      ((moments printNumber tech sched k).pc main = .free ∧
        (moments printNumber tech sched (k + 1)).shared.freed = true) ∨
      stopRank main (moments printNumber tech sched (k + 1)) <
        stopRank main (moments printNumber tech sched k) ∨
      (stopRank main (moments printNumber tech sched (k + 1)) =
          stopRank main (moments printNumber tech sched k) ∧
        responsible main (moments printNumber tech sched (k + 1)) =
          responsible main (moments printNumber tech sched k) ∧
        ¬ Acts printNumber tech sched (responsible main (moments printNumber tech sched k)) k) := by
  have hhalting := h.halting_moments printNumber sched k
  rcases hhalting.rank_step printNumber (h.flowing_moments printNumber hs sched k) hfreed hcleanup
    hrole (sched k).1 (sched k).2 with ⟨ht, hends⟩ | hlt | ⟨hsame, hactor, hidle⟩
  · have hstep := control_run printNumber (sched k).1 (sched k).2 hfreed
      (Or.inl (hhalting.shared hcleanup))
    rcases hstep.last hends with ⟨hpc, hdone⟩ | ⟨hpc, hgone⟩
    · rw [ht] at hpc
      exact Or.inl ⟨hpc, hdone⟩
    · rw [ht] at hpc
      exact Or.inr (Or.inl ⟨hpc, hgone⟩)
  · exact Or.inr (Or.inr (Or.inl hlt))
  · refine Or.inr (Or.inr (Or.inr ⟨hsame, hactor, ?_⟩))
    intro hacts
    refine hidle ⟨hacts.1, ?_⟩
    rw [hacts.1]
    exact hacts.2

include h hfair

/-- A call of `rtw_bridge_stop` comes to its request, if no other one has. -/
theorem stop_requests {k₀ : ℕ} {t : Thread}
    (hstop : ((moments printNumber tech sched k₀).pc t).ofStop = true) :
    ∃ k ≥ k₀, (moments printNumber tech sched k).shared.tech.cleanupStarted = true := by
  by_contra hnever
  have hlive : ∀ k ≥ k₀, (moments printNumber tech sched k).shared.tech.cleanupStarted = false := by
    intro k hk
    rw [Bool.eq_false_iff]
    intro hyes
    exact hnever ⟨k, hk, hyes⟩
  -- one step of the call
  have hown : ∀ k ≥ k₀, ((moments printNumber tech sched k).pc t).ofStop = true →
      (sched k).1 = t → ((moments printNumber tech sched (k + 1)).pc t).ofStop = true ∧
        ((moments printNumber tech sched (k + 1)).pc t).toRequest <
          ((moments printNumber tech sched k).pc t).toRequest := by
    intro k hk hpc ht
    have hhalting := h.halting_moments printNumber sched k
    have hfreed : (moments printNumber tech sched k).shared.freed = false := by
      rw [Bool.eq_false_iff]
      intro hyes
      cases (hlive k hk).symm.trans (hhalting.freed hyes).2
    have hrun := threads_run printNumber t (sched k).2 hfreed (Or.inl (hhalting.stopping t hpc))
    have hcheck : (moments printNumber tech sched k).pc t = .stopCheck ∨
        (moments printNumber tech sched k).pc t = .stopRequest := by
      have hno : ((moments printNumber tech sched k).pc t).requested ≠ true := by
        intro hyes
        cases (hlive k hk).symm.trans (hhalting.requested t hyes)
      generalize (moments printNumber tech sched k).pc t = pc at hpc hno
      cases pc with
      | stopCheck => exact Or.inl rfl
      | stopRequest => exact Or.inr rfl
      | _ => exact absurd hpc hno
    have hstep : moments printNumber tech sched (k + 1) =
        (bridge printNumber).step (moments printNumber tech sched k) (t, (sched k).2) := by
      rw [← ht]
      rfl
    rcases hcheck with hcheck | hcheck
    · have hnext : (moments printNumber tech sched (k + 1)).pc t = .stopRequest := by
        rw [hstep, Threads.pc_self, hrun, hcheck]
        simp only [Pc.step, hlive k hk, Bool.false_eq_true, if_false]
      rw [hnext, hcheck]
      exact ⟨rfl, Nat.one_lt_two⟩
    · -- the request
      have hnext : (moments printNumber tech sched (k + 1)).shared.tech.cleanupStarted = true := by
        rw [hstep, Threads.shared_step, hrun, hcheck]
        rfl
      cases (hlive (k + 1) (hk.trans (Nat.le_succ k))).symm.trans hnext
  have hother : ∀ k, (sched k).1 ≠ t →
      (moments printNumber tech sched (k + 1)).pc t = (moments printNumber tech sched k).pc t := by
    intro k ht
    exact Threads.pc_other (Ne.symm ht)
  have hstays : ∀ k ≥ k₀, ((moments printNumber tech sched k).pc t).ofStop = true := by
    intro k hk
    induction k, hk using Nat.le_induction with
    | base => exact hstop
    | succ k hk ih =>
      by_cases ht : (sched k).1 = t
      · exact (hown k hk ih ht).1
      · rw [hother k ht]
        exact ih
  apply hnever
  refine eventually_of_rank (moments printNumber tech sched)
    (fun s => s.shared.tech.cleanupStarted = true) (fun s => (s.pc t).toRequest) (fun _ => t) hfair
    (fun k hk hnot => ?_) fun k hk _ => ?_
  · have hhalting := h.halting_moments printNumber sched k
    refine hhalting.stop_onItsWay ?_ (hstays k hk)
    rw [Bool.eq_false_iff]
    intro hyes
    exact hnot (hhalting.freed hyes).2
  by_cases ht : (sched k).1 = t
  · exact Or.inr (Or.inl (hown k hk (hstays k hk) ht).2)
  · refine Or.inr (Or.inr ⟨?_, rfl, ?_⟩)
    · exact congrArg Pc.toRequest (hother k ht)
    · intro hacts
      exact ht hacts.1

include hs

/-- Once the stop is requested the worker leaves its loop. -/
theorem worker_exits {k₀ : ℕ}
    (hcleanup : (moments printNumber tech sched k₀).shared.tech.cleanupStarted = true) :
    ∃ k ≥ k₀, (moments printNumber tech sched k).shared.workerDone = true := by
  have hlive : ∀ k, ¬ (moments printNumber tech sched k).shared.workerDone = true →
      (moments printNumber tech sched k).shared.freed = false := by
    intro k hnot
    rw [Bool.eq_false_iff]
    intro hyes
    exact hnot ((h.halting_moments printNumber sched k).freed hyes).1
  have hworker : ∀ k, ((moments printNumber tech sched k).pc .worker).ofWorker = true := fun k =>
    (h.halting_moments printNumber sched k).ordinary.role .worker
  refine eventually_of_rank (moments printNumber tech sched) (fun s => s.shared.workerDone = true)
    (stopRank .worker) (responsible .worker) hfair (fun k _ hnot => ?_) fun k hk hnot => ?_
  · refine (h.halting_moments printNumber sched k).responsible_onItsWay ⟨hlive k hnot, ?_, ?_⟩
    · exact not_idle_of_ofWorker (hworker k)
    · exact fun _ => Bool.eq_false_iff.mpr hnot
  · rcases rank_moment printNumber h hs (hlive k hnot) (cleanup_stays printNumber hk hcleanup)
      (Or.inl (hworker k)) with ⟨-, hdone⟩ | ⟨hpc, -⟩ | hrank
    · exact Or.inl hdone
    · have hrole := hworker k
      rw [hpc] at hrole
      cases hrole
    · exact Or.inr hrank

/-- Once the stop is requested the bridge is freed. -/
theorem bridge_freed {k₀ : ℕ}
    (hcleanup : (moments printNumber tech sched k₀).shared.tech.cleanupStarted = true) :
    ∃ k ≥ k₀, (moments printNumber tech sched k).shared.freed = true := by
  obtain ⟨k₁, hk₁, hdone⟩ := worker_exits printNumber h hs hfair hcleanup
  have hcleanup₁ := cleanup_stays printNumber hk₁ hcleanup
  rcases (h.halting_moments printNumber sched k₁).stopper hcleanup₁ with hfreed | ⟨u, hu⟩
  · exact ⟨k₁, hk₁, hfreed⟩
  · have hend : ∃ k ≥ k₁, (moments printNumber tech sched k).shared.freed = true := by
      refine eventually_of_rank (moments printNumber tech sched) (fun s => s.shared.freed = true)
        (stopRank u) (responsible u) hfair (fun j hj hnot => ?_) fun j hj hnot => ?_
      · have hhalting := h.halting_moments printNumber sched j
        have hrequested := (requested_stays printNumber hj hu).resolve_right hnot
        exact hhalting.responsible_onItsWay
          (hhalting.stop_onItsWay (Bool.eq_false_iff.mpr hnot) (requested_ofStop hrequested))
      · have hrequested := (requested_stays printNumber hj hu).resolve_right hnot
        rcases rank_moment printNumber h hs (Bool.eq_false_iff.mpr hnot)
          (cleanup_stays printNumber hj hcleanup₁)
          (Or.inr ⟨hrequested, workerDone_stays printNumber hj hdone⟩) with
            ⟨hpc, -⟩ | ⟨-, hfreed⟩ | hrank
        · rw [hpc] at hrequested
          cases hrequested
        · exact Or.inl hfreed
        · exact Or.inr hrank
    obtain ⟨k, hk, hfreed⟩ := hend
    exact ⟨k, hk₁.trans hk, hfreed⟩

/-- A call of `rtw_bridge_stop` ends with the bridge freed, after the worker has left its
loop, in every run in which the threads that are under way go on and what they call returns.
Unless another thread is in `rtw_bridge_stop` meanwhile, the call itself has then returned. -/
theorem stop_returns {k : ℕ} {t : Thread}
    (hstop : ((moments printNumber tech sched k).pc t).ofStop = true) :
    ∃ k' ≥ k, (moments printNumber tech sched k').shared.freed = true ∧
      (moments printNumber tech sched k').pc .worker = .exited ∧
      ((moments printNumber tech sched k).shared.freed = false →
        (∀ j ≥ k, j < k' → ∀ u ≠ t, ((moments printNumber tech sched j).pc u).ofStop = false) →
          (moments printNumber tech sched k').pc t = .idle) := by
  have hgone : ∀ k', (moments printNumber tech sched k').shared.freed = true →
      (moments printNumber tech sched k').pc .worker = .exited := by
    intro k' hfreed
    have hhalting := h.halting_moments printNumber sched k'
    exact hhalting.gone (hhalting.freed hfreed).1
  cases hnow : (moments printNumber tech sched k).shared.freed with
  | true => exact ⟨k, le_rfl, hnow, hgone k hnow, fun hlive => absurd hlive (by decide)⟩
  | false =>
    obtain ⟨k₁, hk₁, hcleanup⟩ := stop_requests printNumber h hfair hstop
    obtain ⟨k₂, hk₂, hfreed⟩ := bridge_freed printNumber h hs hfair hcleanup
    obtain ⟨j, hj, -, hlast, hpc, hidle⟩ := freed_by printNumber (hk₁.trans hk₂) hnow hfreed
    refine ⟨j + 1, hj.trans (Nat.le_succ j), hlast, hgone _ hlast, fun _ halone => ?_⟩
    have ht : (sched j).1 = t := by
      by_contra hne
      have hother := halone j hj (Nat.lt_succ_self j) (sched j).1 hne
      rw [hpc] at hother
      cases hother
    rw [← ht]
    exact hidle

end

/-! ### A fair run -/

/-- Sends that take what they are given or fail, and a call of `rtw_bridge_stop`. -/
def stopIo : StepIo :=
  { StepIo.calm with send := ⟨fun _ => 0, true, [.sent 65536, .error]⟩, call := .stop }

def nthThread : ℕ → Thread
  | 0 => .worker
  | i + 1 => .caller i

/-- The bridge starts and a caller sets out to stop it; then every thread acts in turn. -/
def stopSched (k : ℕ) : Thread × StepIo :=
  ((List.replicate 16 (Thread.worker, stopIo) ++ [(.caller 0, stopIo)])[k]?).getD
    (nthThread k.unpair.1, stopIo)

theorem stopSched_io (k : ℕ) : (stopSched k).2 = stopIo := by
  unfold stopSched
  cases hk : (List.replicate 16 (Thread.worker, stopIo) ++ [(.caller 0, stopIo)])[k]? with
  | none => rfl
  | some e =>
    have he := List.mem_of_getElem? hk
    rcases List.mem_append.mp he with he | he
    · rw [List.eq_of_mem_replicate he]
      rfl
    · rw [List.mem_singleton.mp he]
      rfl

def Pc.checksText : Pc → Bool
  | .textCheck .. => true
  | _ => false

theorem checksText_step (t : Thread) (g : Shared) {pc : Pc} (h : pc.checksText = false) :
    (pc.step printNumber t stopIo g).1.checksText = false := by
  have hlock : ∀ {wait inside failed : Pc}, wait.checksText = false → inside.checksText = false →
      failed.checksText = false →
        (lock t stopIo g wait inside failed).1.checksText = false := by
    intro wait inside failed hwait hinside hfailed
    unfold RealtimeWs.Mod.lock
    split_ifs
    · exact hfailed
    · exact hinside
    · exact hwait
  cases pc with
  | flush site f =>
    cases f with
    | ret => cases site <;> rfl
    | _ => rfl
  | unlock site => cases site <;> rfl
  | close site p =>
    cases p with
    | read =>
      simp only [Pc.step, closeStep]
      split
      · cases site <;> rfl
      · rfl
    | clear => cases site <;> rfl
    | _ => rfl
  | poll c => cases c <;> rfl
  | textLock | callLock | handshakeLock | stopLock => exact hlock rfl rfl rfl
  | begin =>
    simp only [Pc.step]
    rcases reconnectBegin_cases g.tech with hb | ⟨wait, hb⟩
    · rw [hb]
      rfl
    · rw [hb]
      rfl
  | textCheck => cases h
  | _ =>
    simp only [Pc.step]
    first
    | rfl
    | split <;> rfl

/-- A send never waits for ever here, and a poll brings nothing. -/
theorem spins_stopIo {pc : Pc} (h : pc.checksText = false) :
    pc.spins printNumber stopIo = false := by
  have hsend : ∀ text, (rtwWsSendText stopIo.send stopIo.client text).1.isNone = false := by
    intro text
    have hwrite : ∀ buf, (ioWriteAll [.sent 65536, .error] buf).1.isNone = false := by
      intro buf
      cases buf with
      | nil => rfl
      | cons b bs =>
        simp only [ioWriteAll]
        cases (b :: bs).drop 65536 <;> rfl
    unfold rtwWsSendText
    cases sendHeader text.length with
    | none => rfl
    | some hdr => exact hwrite _
  cases pc with
  | flush site f =>
    cases f with
    | send c json =>
      cases c with
      | none => rfl
      | some c => exact hsend _
    | _ => rfl
  | poll c => cases c <;> rfl
  | textCheck => cases h
  | _ => rfl

theorem checksText_bridge {s : BridgeState} (h : ∀ u, (s.pc u).checksText = false) (t u : Thread) :
    (((bridge printNumber).step s (t, stopIo)).pc u).checksText = false := by
  revert u
  refine Threads.forall_pc_step (P := fun _ (pc : Pc) => pc.checksText = false) ?_ fun u _ => h u
  simp only [threads]
  split
  · exact h t
  · exact checksText_step printNumber t s.shared (h t)

theorem stopSched_fair (tech : Tech) : Fair printNumber tech stopSched := by
  have hquiet : ∀ k t, ((moments printNumber tech stopSched k).pc t).checksText = false := by
    intro k
    induction k with
    | zero =>
      intro t
      rcases startState_pc tech t with ht | ht
      · exact (congrArg Pc.checksText ht).trans rfl
      · exact (congrArg Pc.checksText ht).trans rfl
    | succ k ih =>
      intro t
      have he : stopSched k = ((stopSched k).1, stopIo) := Prod.ext rfl (stopSched_io k)
      rw [moments, Machine.states, he]
      exact checksText_bridge printNumber ih _ t
  intro t k _
  obtain ⟨i, hi⟩ : ∃ i, nthThread i = t := by
    cases t with
    | worker => exact ⟨0, rfl⟩
    | caller i => exact ⟨i + 1, rfl⟩
  have hlate := Nat.right_le_pair i (max k 17)
  refine ⟨Nat.pair i (max k 17), (le_max_left k 17).trans hlate, ?_, ?_⟩
  · have hpast : (List.replicate 16 (Thread.worker, stopIo) ++
        [(Thread.caller 0, stopIo)])[Nat.pair i (max k 17)]? = none := by
      apply List.getElem?_eq_none
      exact (le_max_right k 17).trans hlate
    unfold stopSched
    rw [hpast, Option.getD_none, Nat.unpair_pair]
    exact hi
  · rw [stopSched_io]
    exact spins_stopIo printNumber (hquiet _ t)

theorem stop_returns_fair :
    ∃ k' ≥ 17, (moments id demoOpen stopSched k').shared.freed = true ∧
      (moments id demoOpen stopSched k').pc .worker = .exited ∧
      ((moments id demoOpen stopSched 17).shared.freed = false →
        (∀ j ≥ 17, j < k' → ∀ u ≠ .caller 0,
            ((moments id demoOpen stopSched j).pc u).ofStop = false) →
          (moments id demoOpen stopSched k').pc (.caller 0) = .idle) := by
  have hstop : ((moments id demoOpen stopSched 17).pc (.caller 0)).ofStop = true := by
    decide +kernel
  exact stop_returns id demoOpen_opened (Session.boot_started 256 (64 * 1024) demoSid)
    (stopSched_fair id demoOpen) hstop

end RealtimeWs.Mod
