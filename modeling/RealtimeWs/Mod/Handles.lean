import RealtimeWs.Mod.Threads

/-! Clients and their use by the threads: which interleavings close a client that another
thread is still sending on. -/
namespace RealtimeWs.Mod

open RealtimeWs.Core

/-- The whole bridge between two steps. -/
abbrev BridgeState := Threads.State Thread Pc Shared

variable (printNumber : List UInt8 → List UInt8)

/-- Every interleaving of the worker and the callers. -/
abbrev bridge : Machine BridgeState (Thread × StepIo) Empty := (threads printNumber).machine

/-! ### What holds in every run -/

/-- Nobody has had client `c` yet. -/
structure Unused (s : BridgeState) (c : ℕ) : Prop where
  current : s.shared.socket.ws ≠ some c
  held : ∀ t, (s.pc t).holds? ≠ some c
  closed : c ∉ s.shared.socket.closed
  written : ∀ w ∈ s.shared.socket.writes, w.connection ≠ c

/-- One thread in a section, the worker at its own places, and a client that is not
stored yet is new. -/
structure Ordinary (s : BridgeState) : Prop where
  exclusive : Threads.Exclusive Shared.owner Pc.inSection s
  role : ∀ t, (s.pc t).ofWorker = decide (t = .worker)
  fresh : ∀ c, s.shared.socket.connections ≤ c → Unused s c
  published : ∀ t c, (s.pc t).publishes? = some c →
    Unused s c ∧ c < s.shared.socket.connections

/-- A client that nobody has stays so unless the step stores it. -/
theorem SocketStep.unused {pc pc' : Pc} {k k' : Socket} (h : SocketStep pc k pc' k') {c : ℕ}
    (hws : k.ws ≠ some c) (hheld : pc.holds? ≠ some c) (hpub : pc.publishes? ≠ some c)
    (hclosed : c ∉ k.closed) (hwritten : ∀ w ∈ k.writes, w.connection ≠ c) :
    k'.ws ≠ some c ∧ c ∉ k'.closed ∧ ∀ w ∈ k'.writes, w.connection ≠ c := by
  cases h with
  | same | down | setReady | stopReady | connect => exact ⟨hws, hclosed, hwritten⟩
  | sent _ d _ w _ hd | failed _ d _ w _ hd =>
    refine ⟨hws, hclosed, ?_⟩
    intro v hv
    rcases List.mem_append.mp hv with hv | hv
    · exact hwritten v hv
    · rw [List.mem_singleton.mp hv, hd]
      intro hdc
      exact hheld (congrArg some hdc)
  | close _ d =>
    refine ⟨hws, ?_, hwritten⟩
    intro hc
    rcases List.mem_append.mp hc with hc | hc
    · exact hheld (Option.mem_toList.mp hc)
    · exact hclosed hc
  | clear =>
    refine ⟨?_, hclosed, hwritten⟩
    intro hnone
    cases hnone
  | publish d => exact ⟨hpub, hclosed, hwritten⟩

theorem Unused.step {s : BridgeState} {c : ℕ} (h : Unused s c) {t : Thread} {io : StepIo}
    (hpub : (s.pc t).publishes? ≠ some c)
    (hspec : StepSpec t s.shared (s.pc t) ((threads printNumber).step t io (s.pc t) s.shared)) :
    Unused ((bridge printNumber).step s (t, io)) c := by
  obtain ⟨hws, hclosed, hwritten⟩ :=
    hspec.socket.unused h.current (h.held t) hpub h.closed h.written
  refine ⟨hws, ?_, hclosed, hwritten⟩
  refine Threads.forall_pc_step (P := fun _ (pc : Pc) => pc.holds? ≠ some c) ?_ fun u _ => h.held u
  intro hheld
  rcases hspec.holds c hheld with hc | hc
  · exact h.held t hc
  · exact h.current hc

theorem SocketStep.connections_le {pc pc' : Pc} {k k' : Socket} (h : SocketStep pc k pc' k') :
    k.connections ≤ k'.connections := by
  cases h with
  | connect => exact Nat.le_succ _
  | _ => exact le_rfl

theorem publishes_ofWorker {pc : Pc} {c : ℕ} (h : pc.publishes? = some c) :
    pc.ofWorker = true := by
  cases pc with
  | publish => rfl
  | _ => cases h

/-- Only the worker has a new client to store. -/
theorem Ordinary.publisher {s : BridgeState} (h : Ordinary s) {t : Thread} {c : ℕ}
    (hp : (s.pc t).publishes? = some c) : t = .worker :=
  of_decide_eq_true ((h.role t).symm.trans (publishes_ofWorker hp))

theorem Ordinary.step {s : BridgeState} (h : Ordinary s) (t : Thread) (io : StepIo) :
    Ordinary ((bridge printNumber).step s (t, io)) := by
  rcases threads_step printNumber t io (s.pc t) s.shared with hstay | ⟨-, hspec⟩
  · rw [Threads.step_eq_self hstay]
    exact h
  have hmono := hspec.socket.connections_le
  constructor
  · exact h.exclusive.step (threads_guards printNumber) t io
  · exact Threads.forall_pc_step (P := fun u (pc : Pc) => pc.ofWorker = decide (u = .worker))
      (hspec.ofWorker.trans (h.role t)) fun u _ => h.role u
  · intro c hc
    have hold := hmono.trans hc
    refine (h.fresh c hold).step printNumber ?_ hspec
    intro hpub
    exact absurd (h.published t c hpub).2 (Nat.not_lt_of_le hold)
  · intro u c hu
    by_cases hut : u = t
    · -- a connection that has just been opened
      subst hut
      rw [Threads.pc_self] at hu
      obtain ⟨hconnect, rfl, hnext⟩ := hspec.publishes c hu
      constructor
      · refine (h.fresh _ le_rfl).step printNumber ?_ hspec
        rw [hconnect]
        intro hnone
        cases hnone
      · rw [Threads.shared_step]
        exact (Nat.lt_succ_self _).trans_eq hnext.symm
    · rw [Threads.pc_other hut] at hu
      obtain ⟨hunused, hlt⟩ := h.published u c hu
      refine ⟨hunused.step printNumber ?_ hspec, hlt.trans_le hmono⟩
      intro hpub
      exact hut ((h.publisher hu).trans (h.publisher hpub).symm)

theorem startState_pc (tech : Tech) (t : Thread) :
    (startState tech).pc t = .flush .start .readWs ∨ (startState tech).pc t = .idle :=
  ite_eq_or_eq ..

theorem Ordinary.start {tech : Tech} (hws : ∀ c, tech.ws = some c → c < tech.connections) :
    Ordinary (startState tech) := by
  have hpc := startState_pc tech
  constructor
  · exact startState_exclusive tech
  · intro t
    by_cases hw : t = .worker
    · subst hw
      rfl
    · have hidle : (startState tech).pc t = .idle := if_neg hw
      rw [hidle, decide_eq_false hw]
      rfl
  · intro c hc
    constructor
    · intro hcur
      exact absurd (hws c hcur) (Nat.not_lt_of_le hc)
    · intro t
      rcases hpc t with h | h
      · rw [h]
        intro hheld
        cases hheld
      · rw [h]
        intro hheld
        cases hheld
    · exact List.not_mem_nil
    · intro w hw
      cases hw
  · intro t c hp
    rcases hpc t with h | h
    · rw [h] at hp
      cases hp
    · rw [h] at hp
      cases hp

/-! ### Clients that are closed -/

/-- The client a thread is about to send on. -/
def Pc.sends? : Pc → Option ℕ
  | .flush _ (.send c _) => c
  | _ => none

/-- The client a thread is about to close. -/
def Pc.closes? : Pc → Option ℕ
  | .close _ (.closing c) => c
  | _ => none

/-- No thread is about to send on a closed client, and none is about to close a client
while another thread is in the flush loop. -/
def ClientsSafe (s : BridgeState) : Prop :=
  (∀ t c, (s.pc t).sends? = some c → c ∉ s.shared.closed) ∧
    ∀ t c, (s.pc t).closes? = some c → ∀ u, u ≠ t → (s.pc u).inLoop = false

def Pc.isBackoff : Pc → Bool
  | .backoff => true
  | _ => false

def Pc.isIdle : Pc → Bool
  | .idle => true
  | _ => false

def Call.isStop : Call → Bool
  | .stop => true
  | _ => false

/-- The worker ends its backoff only when no thread is in the flush loop. Runs are those of
the worker and of the calls other than `rtw_bridge_stop`. -/
def WakesAlone (s : BridgeState) (e : Thread × StepIo) : Prop :=
  ((s.pc e.1).isBackoff = true → sleepInterruptibleMs s.shared.tech 1 = true →
    ∀ u ∈ s.shared.mutex, (s.pc u).inLoop = false) ∧
  ((s.pc e.1).isIdle = true → e.2.call.isStop = false)

instance (s : BridgeState) (e : Thread × StepIo) : Decidable (WakesAlone s e) :=
  inferInstanceAs (Decidable (_ ∧ _))

theorem inLoop_inSection {pc : Pc} (h : pc.inLoop = true) : pc.inSection = true := by
  cases pc with
  | flush => rfl
  | _ => cases h

theorem reopening_down {pc : Pc} (h : pc.reopening = true) : pc.down = true := by
  cases pc <;> first | rfl | exact h

theorem reopening_inLoop {pc : Pc} (h : pc.reopening = true) : pc.inLoop = false := by
  cases pc <;> first | rfl | cases h

/-- A client is held to be sent on in the loop, or to be closed. -/
theorem holds_cases {pc : Pc} {c : ℕ} (h : pc.holds? = some c) :
    pc.inLoop = true ∨ ∃ site, pc = .close site (.closing (some c)) := by
  cases pc with
  | flush site f =>
    cases f with
    | send => exact Or.inl rfl
    | _ => cases h
  | close site p =>
    cases p with
    | closing d => exact Or.inr ⟨site, by rw [show d = some c from h]⟩
    | _ => cases h
  | _ => cases h

/-- A thread comes to the places of `rtw_bridge_stop` by calling it. -/
theorem step_ofStop {t : Thread} {io : StepIo} {g : Shared} {pc : Pc}
    (h : (pc.step printNumber t io g).1.ofStop = true) :
    pc.ofStop = true ∨ (pc = .idle ∧ io.call.isStop = true) := by
  have hstop : ∀ {pc : Pc}, pc.ofStop = true → pc.ofWorker = false := by
    intro pc hp
    cases pc with
    | flush site | unlock site | close site => cases site <;> first | rfl | cases hp
    | _ => first | rfl | cases hp
  have hrole := (step_spec printNumber t io g pc).ofWorker.symm.trans (hstop h)
  cases pc with
  | flush site f =>
    cases site with
    | stop => exact Or.inl rfl
    | call =>
      cases f <;> cases h
    | _ => cases hrole
  | unlock site =>
    cases site <;> first | exact Or.inl rfl | cases h
  | close site p =>
    cases site <;> first | exact Or.inl rfl | cases hrole
  | idle =>
    refine Or.inr ⟨rfl, ?_⟩
    simp only [Pc.step, idleStep] at h
    cases hcall : io.call with
    | stop => rfl
    | sendMark name =>
      simp only [hcall] at h
      split at h <;> cases h
    | _ =>
      rw [hcall] at h
      cases h
  | callCheck text =>
    simp only [Pc.step] at h
    split at h <;> cases h
  | callLock text =>
    simp only [Pc.step, lock] at h
    split at h
    · cases h
    · split at h <;> cases h
  | callHandle text => cases h
  | _ => first | exact Or.inl rfl | cases hrole

/-- What a run keeps when the worker always wakes up alone. -/
structure Safe (s : BridgeState) : Prop where
  ordinary : Ordinary s
  noStop : ∀ t, (s.pc t).ofStop = false
  down : (s.pc .worker).down = true → s.shared.socket.ready = false
  alone : (s.pc .worker).reopening = true → ∀ u, (s.pc u).inLoop = false
  closed : ∀ c, s.shared.socket.ws = some c → c ∈ s.shared.socket.closed →
    ∃ site, s.pc .worker = .close site .clear
  held : ∀ t c, (s.pc t).holds? = some c → c ∉ s.shared.socket.closed

/-- Only the worker closes clients, inside `try_reconnect`. -/
theorem Safe.closer {s : BridgeState} (h : Safe s) {t : Thread} {site : CloseSite} {p : ClosePc}
    (hpc : s.pc t = .close site p) : t = .worker ∧ (s.pc .worker).reopening = true := by
  have hstop := h.noStop t
  have hrole := h.ordinary.role t
  rw [hpc] at hstop hrole
  cases site with
  | stop => cases hstop
  | _ =>
    have ht : t = .worker := of_decide_eq_true hrole.symm
    subst ht
    rw [hpc]
    exact ⟨rfl, rfl⟩

theorem Safe.clientsSafe {s : BridgeState} (h : Safe s) : ClientsSafe s := by
  constructor
  · intro t c hsend
    apply h.held t c
    cases hpc : s.pc t with
    | flush site f =>
      rw [hpc] at hsend
      cases f with
      | send => exact hsend
      | _ => cases hsend
    | _ =>
      rw [hpc] at hsend
      cases hsend
  · intro t c hclose u _
    cases hpc : s.pc t with
    | close site p => exact h.alone (h.closer hpc).2 u
    | _ =>
      rw [hpc] at hclose
      cases hclose

/-- Only the worker declares a connection ready. -/
theorem Safe.ready_step {s : BridgeState} (h : Safe s) {t : Thread} {pc' : Pc} {k' : Socket}
    (hstep : SocketStep (s.pc t) s.shared.socket pc' k') (hready : k'.ready = true) :
    s.shared.socket.ready = true ∨ (t = .worker ∧ pc' = .handshakeLock) := by
  have hstop := h.noStop t
  have hrole := h.ordinary.role t
  generalize s.pc t = pc at hstep hstop hrole
  cases hstep with
  | down => cases hready
  | setReady => exact Or.inr ⟨of_decide_eq_true hrole.symm, rfl⟩
  | stopReady => cases hstop
  | _ => exact Or.inl hready

/-- How the stored client can be a closed one. -/
theorem SocketStep.stored_closed {pc pc' : Pc} {k k' : Socket} (h : SocketStep pc k pc' k')
    {c : ℕ} (hws : k'.ws = some c) (hc : c ∈ k'.closed) : (k.ws = some c ∧ c ∈ k.closed) ∨
      (∃ site, pc' = .close site .clear ∧ ∃ d, pc = .close site (.closing d)) ∨
        (pc.publishes? = some c ∧ c ∈ k.closed) := by
  cases h with
  | close site d => exact Or.inr (Or.inl ⟨site, rfl, d, rfl⟩)
  | clear => cases hws
  | publish d => exact Or.inr (Or.inr ⟨hws, hc⟩)
  | _ => exact Or.inl ⟨hws, hc⟩

theorem SocketStep.newly_closed {pc pc' : Pc} {k k' : Socket} (h : SocketStep pc k pc' k')
    {c : ℕ} (hc : c ∈ k'.closed) : c ∈ k.closed ∨
      ∃ site, pc = .close site (.closing (some c)) ∧ pc' = .close site .clear := by
  cases h with
  | close site d =>
    rcases List.mem_append.mp hc with hc | hc
    · rw [Option.mem_toList.mp hc]
      exact Or.inr ⟨site, rfl, rfl⟩
    · exact Or.inl hc
  | _ => exact Or.inl hc

/-- Behind `tech->ws = NULL` no client is held. -/
theorem holds_clear (t : Thread) (io : StepIo) (g : Shared) (site : CloseSite) :
    ((threads printNumber).step t io (.close site .clear) g).1.holds? = none := by
  simp only [threads]
  split
  · rfl
  · cases site <;> rfl

theorem Safe.noStop_step {s : BridgeState} (h : Safe s) {t : Thread} {io : StepIo}
    (hguard : WakesAlone s (t, io)) :
    ∀ u, (((bridge printNumber).step s (t, io)).pc u).ofStop = false := by
  refine Threads.forall_pc_step (P := fun _ (pc : Pc) => pc.ofStop = false) ?_ fun u _ => h.noStop u
  rw [Bool.eq_false_iff]
  intro hstop
  simp only [threads] at hstop
  split at hstop
  · cases (h.noStop t).symm.trans hstop
  · rcases step_ofStop printNumber hstop with hold | ⟨hpc, hcall⟩
    · cases (h.noStop t).symm.trans hold
    · have hno := hguard.2 (by rw [hpc]; rfl)
      cases hno.symm.trans hcall

section
variable {s : BridgeState} {t : Thread} {io : StepIo}
  (hspec : StepSpec t s.shared (s.pc t) ((threads printNumber).step t io (s.pc t) s.shared))
include hspec

theorem Safe.down_step (h : Safe s) :
    (((bridge printNumber).step s (t, io)).pc .worker).down = true →
      ((bridge printNumber).step s (t, io)).shared.socket.ready = false := by
  intro hdown
  by_contra hready
  rcases h.ready_step hspec.socket (Bool.eq_true_of_not_eq_false hready) with hold | ⟨rfl, hpc⟩
  · by_cases ht : t = .worker
    · subst ht
      rw [Threads.pc_self] at hdown
      rcases hspec.down hdown with hd | hd
      · cases (h.down hd).symm.trans hold
      · exact hready hd
    · rw [Threads.pc_other (Ne.symm ht)] at hdown
      cases (h.down hdown).symm.trans hold
  · rw [Threads.pc_self, hpc] at hdown
    cases hdown

theorem Safe.alone_step (h : Safe s) (hguard : WakesAlone s (t, io)) :
    (((bridge printNumber).step s (t, io)).pc .worker).reopening = true →
      ∀ u, (((bridge printNumber).step s (t, io)).pc u).inLoop = false := by
  intro hre
  by_cases ht : t = .worker
  · subst ht
    rw [Threads.pc_self] at hre
    refine Threads.forall_pc_step (P := fun _ (pc : Pc) => pc.inLoop = false)
      (reopening_inLoop hre) fun u hu => ?_
    rcases hspec.reopening hre with hold | hpc
    · exact h.alone hold u
    · have hsleep : sleepInterruptibleMs s.shared.tech 1 = true := by
        by_contra hno
        rw [hpc] at hre
        simp only [threads, Pc.step, if_neg hno] at hre
        split at hre <;> cases hre
      by_contra hin
      have hloop : (s.pc u).inLoop = true := Bool.eq_true_of_not_eq_false hin
      have howner := h.ordinary.exclusive u (inLoop_inSection hloop)
      unfold Shared.owner at howner
      split at howner
      · exact hin (hguard.1 (by rw [hpc]; rfl) hsleep u howner)
      · exact hu (Option.some.inj howner).symm
  · rw [Threads.pc_other (Ne.symm ht)] at hre
    refine Threads.forall_pc_step (P := fun _ (pc : Pc) => pc.inLoop = false) ?_
      fun u _ => h.alone hre u
    rw [Bool.eq_false_iff]
    intro hin
    rcases hspec.inLoop hin with hold | ⟨-, hready⟩
    · cases (h.alone hre t).symm.trans hold
    · cases (h.down (reopening_down hre)).symm.trans hready

/-- Between `rtw_ws_close` and the write of NULL a closed client is still stored. -/
theorem Safe.closed_step (h : Safe s) {c : ℕ}
    (hws : ((bridge printNumber).step s (t, io)).shared.socket.ws = some c)
    (hc : c ∈ ((bridge printNumber).step s (t, io)).shared.socket.closed) :
    ∃ site, ((bridge printNumber).step s (t, io)).pc .worker = .close site .clear := by
  by_cases hclear : ∃ site, s.pc t = .close site .clear
  · obtain ⟨site, hpc⟩ := hclear
    by_cases hrun : s.shared.freed = true ∨ (s.shared.handedOut = false ∧
        (s.pc t).starting = false)
    · have hstay : (threads printNumber).step t io (s.pc t) s.shared = (s.pc t, s.shared) :=
        if_pos hrun
      rw [Threads.step_eq_self hstay] at hws hc ⊢
      exact h.closed c hws hc
    · have hnone : (threads printNumber).step t io (s.pc t) s.shared =
          (s.pc t).step printNumber t io s.shared := if_neg hrun
      rw [Threads.shared_step, hnone, hpc] at hws
      cases hws
  · have hold : s.shared.socket.ws = some c → c ∈ s.shared.socket.closed →
        ∃ site, ((bridge printNumber).step s (t, io)).pc .worker = .close site .clear := by
      intro hws hc
      obtain ⟨site, hworker⟩ := h.closed c hws hc
      refine ⟨site, ?_⟩
      rw [Threads.pc_other, hworker]
      rintro rfl
      exact hclear ⟨site, hworker⟩
    rcases hspec.socket.stored_closed hws hc with ⟨hws, hc⟩ | ⟨site, hclear, d, hpc⟩ | ⟨hpub, hc⟩
    · exact hold hws hc
    · obtain ⟨rfl, -⟩ := h.closer hpc
      refine ⟨site, ?_⟩
      rw [Threads.pc_self]
      exact hclear
    · exact absurd hc (h.ordinary.published t c hpub).1.closed

theorem Safe.held_step (h : Safe s) (hguard : WakesAlone s (t, io)) {u : Thread} {c : ℕ}
    (hu : (((bridge printNumber).step s (t, io)).pc u).holds? = some c) :
    c ∉ ((bridge printNumber).step s (t, io)).shared.socket.closed := by
  intro hc
  rw [Threads.shared_step] at hc
  by_cases hut : u = t
  · subst hut
    have hstop := h.noStop_step printNumber hguard u
    rw [Threads.pc_self] at hu hstop
    rcases hspec.socket.newly_closed hc with hc | ⟨site, -, hclear⟩
    · rcases hspec.holds c hu with hold | hws
      · exact h.held u c hold hc
      · -- `ws` still holds a closed client, so no thread can be in the loop to read it
        obtain ⟨site, hworker⟩ := h.closed c hws hc
        have hre := (h.closer hworker).2
        rcases holds_cases hu with hin | ⟨site', hpc⟩
        · rcases hspec.inLoop hin with hold | ⟨-, hready⟩
          · cases (h.alone hre u).symm.trans hold
          · cases (h.down (reopening_down hre)).symm.trans hready
        · have hrole := hspec.ofWorker.trans (h.ordinary.role u)
          rw [hpc] at hrole hstop
          have huw : u = .worker := by
            cases site' with
            | stop => cases hstop
            | _ => exact of_decide_eq_true hrole.symm
          rw [huw, hworker, holds_clear] at hu
          cases hu
    · rw [hclear] at hu
      cases hu
  · rw [Threads.pc_other hut] at hu
    rcases hspec.socket.newly_closed hc with hc | ⟨site, hpc, -⟩
    · exact h.held u c hu hc
    · obtain ⟨rfl, hre⟩ := h.closer hpc
      rcases holds_cases hu with hin | ⟨site', hpc'⟩
      · cases (h.alone hre u).symm.trans hin
      · exact hut (h.closer hpc').1

end

theorem Safe.step {s : BridgeState} (h : Safe s) {e : Thread × StepIo} (hguard : WakesAlone s e) :
    Safe ((bridge printNumber).step s e) := by
  obtain ⟨t, io⟩ := e
  rcases threads_step printNumber t io (s.pc t) s.shared with hstay | ⟨-, hspec⟩
  · rw [Threads.step_eq_self hstay]
    exact h
  constructor
  · exact h.ordinary.step printNumber t io
  · exact h.noStop_step printNumber hguard
  · exact h.down_step printNumber hspec
  · exact h.alone_step printNumber hspec hguard
  · intro c
    exact h.closed_step printNumber hspec
  · intro u c
    exact h.held_step printNumber hspec hguard

/-- A bridge whose first connection is open, before `rtw_bridge_start` flushes. -/
def Opened (tech : Tech) : Prop :=
  ∃ io streamSid callSid sampling channels session,
    tech = openTech io streamSid callSid sampling channels session

theorem Opened.ordinary {tech : Tech} (h : Opened tech) : Ordinary (startState tech) := by
  obtain ⟨io, streamSid, callSid, sampling, channels, session, rfl⟩ := h
  refine .start fun c hc => ?_
  cases hc
  exact Nat.zero_lt_one

theorem Opened.safe {tech : Tech} (h : Opened tech) : Safe (startState tech) := by
  constructor
  · exact h.ordinary
  · intro t
    rcases startState_pc tech t with hpc | hpc <;> rw [hpc] <;> rfl
  · intro hd
    cases hd
  · intro hre
    cases hre
  · intro c _ hc
    cases hc
  · intro t c hheld
    rcases startState_pc tech t with hpc | hpc <;> rw [hpc] at hheld <;> cases hheld

/-- In every interleaving in which the worker ends each backoff with no thread in the flush
loop, nobody is about to send on a closed client or to close one that is in use. -/
theorem clients_safe {tech : Tech} (h : Opened tech) {es : List (Thread × StepIo)}
    (hguard : (bridge printNumber).Along WakesAlone (startState tech) es) :
    ClientsSafe ((bridge printNumber).run (startState tech) es) := by
  have hsafe : Safe ((bridge printNumber).run (startState tech) es) :=
    (bridge printNumber).invariant (fun _ _ hg hs => hs.step printNumber hg) h.safe hguard
  exact hsafe.clientsSafe

/-- A bridge with room in its queue and its handshake in it. -/
def demoOpen : Tech :=
  openTech .calm (.copy _ demoSid) (.copy _ demoSid) 8000 1 (Session.boot 256 (64 * 1024) demoSid)

theorem demoOpen_opened : Opened demoOpen := ⟨_, _, _, _, _, _, rfl⟩

/-- Nothing fails, every send takes all its bytes and every poll finds nothing. -/
def StepIo.calm : StepIo :=
  ⟨true, fun _ => .calm, freshClient, ⟨fun _ => 0, true, [.sent 65536]⟩, .done, .clear⟩

def steps (n : ℕ) (t : Thread) : List (Thread × StepIo) := .replicate n (t, .calm)

/-- The bridge starts and polls; then the connection is lost. -/
def lostRun (callers : List (Thread × StepIo)) : List (Thread × StepIo) :=
  steps 16 .worker ++ callers ++ [(.worker, { StepIo.calm with poll := .failed })]

/-- `rtw_bridge_send_mark` is about to send its acknowledgement when the worker closes the
client, 200 ms later. -/
theorem send_after_close : Opened demoOpen ∧ ¬ ClientsSafe ((bridge id).run (startState demoOpen)
    (lostRun ((.caller 0, { StepIo.calm with call := .sendMark (.lit "m") }) ::
      steps 7 (.caller 0)) ++ steps 6 .worker)) := by
  refine ⟨demoOpen_opened, fun h => ?_⟩
  generalize hrun : (bridge id).run (startState demoOpen) (lostRun
    ((.caller 0, { StepIo.calm with call := .sendMark (.lit "m") }) :: steps 7 (.caller 0)) ++
      steps 6 .worker) = s at h
  have hstuck : (s.pc (.caller 0)).sends? = some 0 ∧ 0 ∈ s.shared.closed := by
    rw [← hrun]
    decide +kernel
  exact h.1 (.caller 0) 0 hstuck.1 hstuck.2

/-- The worker reconnects with no caller in the way. -/
theorem clients_safe_quiet :
    ClientsSafe ((bridge id).run (startState demoOpen) (lostRun [] ++ steps 30 .worker)) :=
  clients_safe id demoOpen_opened (by decide +kernel)

end RealtimeWs.Mod
