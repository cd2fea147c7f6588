import Mathlib.Data.Set.Card
import RealtimeWs.Mod.Handles

/-! The mutex, the join and the stop: what a step of a thread does to what the threads wait
for, and what that makes of every run. -/
namespace RealtimeWs.Mod

open RealtimeWs.Core

/-- What the threads wait for. -/
structure Control where
  mutex : Option Thread
  handedOut : Bool
  workerDone : Bool
  freed : Bool
  cleanup : Bool

def Shared.control (g : Shared) : Control :=
  ⟨g.mutex, g.handedOut, g.workerDone, g.freed, g.tech.cleanupStarted⟩

/-- Places of `rtw_bridge_stop` behind its request. -/
def Pc.requested : Pc → Bool
  | .stopCheck | .stopRequest => false
  | pc => pc.ofStop

/-- Places of `rtw_bridge_stop` behind its join. -/
def Pc.joined : Pc → Bool
  | .stopJoin => false
  | pc => pc.requested

/-- Places of a caller that may still lock the mutex once the bridge is being stopped. -/
def Pc.mayLock : Pc → Bool
  | .callLock _ | .stopRequest | .stopJoin | .stopLock => true
  | _ => false

/-- Places whose step does more than go on. -/
def Pc.ends : Pc → Bool
  | .exited | .free => true
  | _ => false

/-- A step from `pc` to `pc'` that stays on its side of the mutex. -/
structure Pc.Follows (pc : Pc) (k : Control) (pc' : Pc) : Prop where
  inSection : pc'.inSection = pc.inSection
  requested : pc'.requested = pc.requested
  joined : pc'.joined = true → pc.joined = true ∨ k.workerDone = true
  mayLock : pc'.mayLock = true → pc.mayLock = true ∨ k.cleanup = false
  starting : pc'.starting = pc.starting
  ends : pc.ends = false

/-- The effects a step of thread `t` can have on what the threads wait for. -/
inductive ControlStep (t : Thread) : Pc → Control → Pc → Control → Prop
  | move {pc k pc'} (h : pc.Follows k pc') : ControlStep t pc k pc' k
  | take {pc k pc'} (hfree : k.mutex = none) (hout : pc.inSection = false)
      (hin : pc'.inSection = true) (hrequested : pc'.requested = pc.requested)
      (hjoined : pc'.joined = pc.joined) (hlocks : pc.mayLock = true ∨ pc.ofWorker = true)
      (hlocked : pc'.mayLock = false) (hstarting : pc'.starting = pc.starting)
      (hends : pc.ends = false) :
      ControlStep t pc k pc' { k with mutex := some t }
  | release (site k) : ControlStep t (.unlock site) k (unlockReturn site) { k with mutex := none }
  | handOut (k) : ControlStep t (.flush .start .ret) k .loop { k with handedOut := true }
  | request (k) : ControlStep t .stopRequest k .stopJoin { k with cleanup := true }
  | gone (k) : ControlStep t .exited k .exited { k with workerDone := true }
  | free (k) : ControlStep t .free k .idle { k with freed := true }

theorem ControlStep.stay {t : Thread} {pc : Pc} {k : Control} (hends : pc.ends = false) :
    ControlStep t pc k pc k :=
  .move ⟨rfl, rfl, Or.inl, Or.inl, rfl, hends⟩

/-- Locking from `wait`, which is one of the four places that do so. -/
theorem ControlStep.lock (t : Thread) (io : StepIo) (g : Shared) {wait inside failed : Pc}
    (hwait : wait.inSection = false ∧ wait.ends = false)
    (hlocks : wait.mayLock = true ∨ wait.ofWorker = true)
    (hinside : inside.inSection = true ∧ inside.mayLock = false ∧ inside.starting = wait.starting)
    (hrequested : inside.requested = wait.requested) (hjoined : inside.joined = wait.joined)
    (hfailed : wait.Follows g.control failed) :
    ControlStep t wait g.control (lock t io g wait inside failed).1
      (lock t io g wait inside failed).2.control := by
  unfold RealtimeWs.Mod.lock
  split
  · exact .move hfailed
  · split
    · rename_i hfree
      exact .take hfree hwait.1 hinside.1 hrequested hjoined hlocks hinside.2.1 hinside.2.2 hwait.2
    · exact .stay hwait.2

/-- The calls of the media bug and of `pause` touch nothing that anybody waits for. -/
theorem mediaCall_control (io : StepIo) (g : Shared) (call : Call) :
    (if g.mutex = none then g.withTech (mediaCall io g call) else g).control = g.control := by
  split
  · have hrest := (mediaCall_silent io g call).rest
    unfold Shared.control Shared.withTech
    rw [hrest]
  · rfl

variable (printNumber : List UInt8 → List UInt8)

/-- What a step does to what the threads wait for, at every place of the program. -/
theorem control_step (t : Thread) (io : StepIo) (g : Shared) (pc : Pc) :
    ControlStep t pc g.control (pc.step printNumber t io g).1
      (pc.step printNumber t io g).2.control := by
  have hmove : ∀ {pc' : Pc} {g' : Shared}, g'.control = g.control → pc'.inSection = pc.inSection →
      pc'.requested = pc.requested → pc'.joined = pc.joined → pc'.mayLock = false →
        pc'.starting = pc.starting → pc.ends = false →
          ControlStep t pc g.control pc' g'.control := by
    intro pc' g' hcontrol hsection hrequested hjoined hlock hstarting hends
    rw [hcontrol]
    refine .move ⟨hsection, hrequested, ?_, ?_, hstarting, hends⟩
    · intro h
      exact Or.inl (hjoined.symm.trans h)
    · intro h
      cases hlock.symm.trans h
  have hlock : ∀ {inside failed : Pc}, pc.inSection = false → pc.ends = false →
      pc.mayLock = true ∨ pc.ofWorker = true → inside.inSection = true → inside.mayLock = false →
        failed.inSection = false → failed.mayLock = false → inside.requested = pc.requested →
          failed.requested = pc.requested → inside.joined = pc.joined →
            failed.joined = pc.joined → inside.starting = pc.starting →
              failed.starting = pc.starting → ControlStep t pc g.control
                (lock t io g pc inside failed).1 (lock t io g pc inside failed).2.control := by
    intro inside failed hout hends hlocks hin hinside hfailed hfail hreq hreq' hjoin hjoin'
      hstart hstart'
    refine .lock t io g ⟨hout, hends⟩ hlocks ⟨hin, hinside, hstart⟩ hreq hjoin
      ⟨hfailed.trans hout.symm, hreq', ?_, ?_, hstart', hends⟩
    · intro h
      exact Or.inl (hjoin'.symm.trans h)
    · intro h
      cases hfail.symm.trans h
  cases pc with
  | flush site f =>
    cases f with
    | ret =>
      cases site with
      | start => exact .handOut _
      | _ => exact hmove rfl rfl rfl rfl rfl rfl rfl
    | send c json =>
      cases c with
      | none => cases site <;> exact hmove rfl rfl rfl rfl rfl rfl rfl
      | some c =>
        simp only [Pc.step, flushStep]
        cases (sendStep printNumber io g c json).1 with
        | none => cases site <;> exact hmove rfl rfl rfl rfl rfl rfl rfl
        | some r => cases site <;> exact hmove rfl rfl rfl rfl rfl rfl rfl
    | _ => cases site <;> exact hmove rfl rfl rfl rfl rfl rfl rfl
  | unlock site => exact .release site _
  | close site p =>
    cases p with
    | read =>
      simp only [Pc.step, closeStep]
      split
      · cases site <;> exact hmove rfl rfl rfl rfl rfl rfl rfl
      · cases site <;> exact hmove rfl rfl rfl rfl rfl rfl rfl
    | _ => cases site <;> exact hmove rfl rfl rfl rfl rfl rfl rfl
  | poll c =>
    cases c with
    | none => exact hmove rfl rfl rfl rfl rfl rfl rfl
    | some c =>
      simp only [Pc.step]
      split <;> exact hmove rfl rfl rfl rfl rfl rfl rfl
  | begin =>
    simp only [Pc.step]
    rcases reconnectBegin_cases g.tech with hb | ⟨wait, hb⟩
    · rw [hb]
      exact hmove rfl rfl rfl rfl rfl rfl rfl
    · rw [hb]
      exact hmove rfl rfl rfl rfl rfl rfl rfl
  -- the mutex
  | textLock c text =>
    exact hlock rfl rfl (Or.inr rfl) rfl rfl rfl rfl rfl rfl rfl rfl rfl rfl
  | handshakeLock =>
    exact hlock rfl rfl (Or.inr rfl) rfl rfl rfl rfl rfl rfl rfl rfl rfl rfl
  | callLock text =>
    exact hlock rfl rfl (Or.inl rfl) rfl rfl rfl rfl rfl rfl rfl rfl rfl rfl
  | stopLock =>
    exact hlock rfl rfl (Or.inl rfl) rfl rfl rfl rfl rfl rfl rfl rfl rfl rfl
  | trylock =>
    simp only [Pc.step]
    split
    · rename_i hfree
      exact .take hfree.2 rfl rfl rfl rfl (Or.inr rfl) rfl rfl rfl
    · exact hmove rfl rfl rfl rfl rfl rfl rfl
  -- the calls of the channel API
  | idle =>
    simp only [Pc.step, idleStep]
    cases io.call with
    | clear | stop | closeRequest => exact hmove rfl rfl rfl rfl rfl rfl rfl
    | sendMark name =>
      simp only
      split
      · exact hmove rfl rfl rfl rfl rfl rfl rfl
      · exact hmove rfl rfl rfl rfl rfl rfl rfl
    | _ => exact hmove (mediaCall_control io g _) rfl rfl rfl rfl rfl rfl
  | callCheck text =>
    simp only [Pc.step]
    split
    · exact hmove rfl rfl rfl rfl rfl rfl rfl
    · rename_i hlive
      exact .move ⟨rfl, rfl, Or.inl, fun _ => Or.inr (Bool.eq_false_iff.mpr hlive), rfl, rfl⟩
  | stopCheck =>
    simp only [Pc.step]
    split
    · exact hmove rfl rfl rfl rfl rfl rfl rfl
    · rename_i hlive
      exact .move ⟨rfl, rfl, Or.inl, fun _ => Or.inr (Bool.eq_false_iff.mpr hlive), rfl, rfl⟩
  | stopRequest => exact .request _
  | stopJoin =>
    simp only [Pc.step]
    split
    · rename_i hdone
      exact .move ⟨rfl, rfl, fun _ => Or.inr hdone, Or.inl, rfl, rfl⟩
    · exact .stay rfl
  | exited => exact .gone _
  | free => exact .free _
  | _ =>
    simp only [Pc.step]
    first
    | exact hmove rfl rfl rfl rfl rfl rfl rfl
    | split <;> exact hmove rfl rfl rfl rfl rfl rfl rfl

/-! ### What holds in every run -/

/-- Whoever owns the mutex is in a section, a stop that was requested is under way until the
bridge is freed, and behind its join the worker has gone. -/
structure Halting (s : BridgeState) : Prop where
  ordinary : Ordinary s
  holder : ∀ t, s.shared.mutex = some t → (s.pc t).inSection = true
  unshared : s.shared.handedOut = false →
    s.shared.mutex = none ∧ s.shared.tech.cleanupStarted = false
  requested : ∀ t, (s.pc t).requested = true → s.shared.tech.cleanupStarted = true
  stopper : s.shared.tech.cleanupStarted = true →
    s.shared.freed = true ∨ ∃ t, (s.pc t).requested = true
  joined : ∀ t, (s.pc t).joined = true → s.shared.workerDone = true
  gone : s.shared.workerDone = true → s.pc .worker = .exited
  starting : ∀ t, (s.pc t).starting = true → s.shared.handedOut = false
  stopping : ∀ t, (s.pc t).ofStop = true → s.shared.handedOut = true
  freed : s.shared.freed = true →
    s.shared.workerDone = true ∧ s.shared.tech.cleanupStarted = true
  finite : {t | (s.pc t).isIdle = false}.Finite

section
variable {t : Thread} {pc pc' : Pc} {k k' : Control} (h : ControlStep t pc k pc' k')
include h

theorem ControlStep.cleanup (hk : k.cleanup = true) : k'.cleanup = true := by
  cases h <;> first | exact hk | rfl

theorem ControlStep.workerDone (hk : k.workerDone = true) : k'.workerDone = true := by
  cases h <;> first | exact hk | rfl

theorem ControlStep.freed (hk : k.freed = true) : k'.freed = true := by
  cases h <;> first | exact hk | rfl

theorem ControlStep.handedOut (hk : k'.handedOut = false) : k.handedOut = false := by
  cases h <;> first | exact hk | cases hk

/-- A stop under way goes on until it has freed the bridge. -/
theorem ControlStep.goes_on (hpc : pc.requested = true) :
    pc'.requested = true ∨ k'.freed = true := by
  cases h with
  | move h => exact Or.inl (h.requested.trans hpc)
  | take _ _ _ hrequested => exact Or.inl (hrequested.trans hpc)
  | release site =>
    cases site with
    | stop => exact Or.inl rfl
    | _ => cases hpc
  | free => exact Or.inr rfl
  | _ => cases hpc

theorem ControlStep.is_requested (hpc' : pc'.requested = true) :
    pc.requested = true ∨ k'.cleanup = true := by
  cases h with
  | move h => exact Or.inl (h.requested.symm.trans hpc')
  | take _ _ _ hrequested => exact Or.inl (hrequested.symm.trans hpc')
  | release site =>
    cases site with
    | stop => exact Or.inl rfl
    | _ => cases hpc'
  | request => exact Or.inr rfl
  | _ => cases hpc'

theorem ControlStep.is_joined (hpc' : pc'.joined = true) :
    pc.joined = true ∨ k.workerDone = true := by
  cases h with
  | move h => exact h.joined hpc'
  | take _ _ _ _ hjoined => exact Or.inl (hjoined.symm.trans hpc')
  | release site =>
    cases site with
    | stop => exact Or.inl rfl
    | _ => cases hpc'
  | _ => cases hpc'

theorem ControlStep.is_starting (hpc' : pc'.starting = true) :
    pc.starting = true ∧ k'.handedOut = k.handedOut := by
  cases h with
  | move h => exact ⟨h.starting.symm.trans hpc', rfl⟩
  | take _ _ _ _ _ _ _ hstarting => exact ⟨hstarting.symm.trans hpc', rfl⟩
  | release site => cases site <;> cases hpc'
  | _ => cases hpc'

/-- The thread that starts the bridge does not stop it. -/
theorem ControlStep.not_stopping (hpc : pc.starting = true) : pc'.ofStop = false := by
  have hflush : ∀ {pc : Pc}, pc.starting = true → pc.ofStop = false := by
    intro pc hpc
    cases pc with
    | flush site => cases site <;> first | rfl | cases hpc
    | _ => cases hpc
  cases h with
  | move h => exact hflush (h.starting.trans hpc)
  | take _ hout =>
    cases pc with
    | flush => cases hout
    | _ => cases hpc
  | handOut => rfl
  | _ => cases hpc

/-- The mutex stays as it is, or its owner changes by the thread that acts. -/
theorem ControlStep.mutex_cases : k'.mutex = k.mutex ∨
    (k.mutex = none ∧ k'.mutex = some t ∧ pc.inSection = false ∧ pc'.inSection = true) ∨
      (k'.mutex = none ∧ pc.inSection = true ∧ pc'.inSection = false) := by
  cases h with
  | take hfree hout hin => exact Or.inr (Or.inl ⟨hfree, rfl, hout, hin⟩)
  | release site => exact Or.inr (Or.inr ⟨rfl, rfl, by cases site <;> rfl⟩)
  | _ => exact Or.inl rfl

/-- Only a caller on its way to the mutex and the worker lock it. -/
theorem ControlStep.takes (hfree : k.mutex = none) (htaken : k'.mutex = some t) :
    (pc.mayLock = true ∨ pc.ofWorker = true) ∧ pc'.mayLock = false ∧ pc.ends = false := by
  cases h with
  | take _ _ _ _ _ hlocks hlocked _ hends => exact ⟨hlocks, hlocked, hends⟩
  | release => cases htaken
  | _ => cases hfree.symm.trans htaken

/-- Once the bridge is being stopped nobody else sets out for the mutex. -/
theorem ControlStep.mayLock (hk : k.cleanup = true) (hpc' : pc'.mayLock = true) :
    pc.mayLock = true := by
  cases h with
  | move h => exact (h.mayLock hpc').resolve_right fun hno => by cases hno.symm.trans hk
  | take _ _ _ _ _ _ hlocked => cases hlocked.symm.trans hpc'
  | release site => cases site <;> cases hpc'
  | request => rfl
  | _ => cases hpc'

/-- A thread that leaves its section unlocks, or hands the bridge out. -/
theorem ControlStep.leaves (hin : pc.inSection = true) (hout : pc'.inSection = false) :
    k'.mutex = none ∨ pc.starting = true := by
  cases h with
  | move h =>
    rw [h.inSection, hin] at hout
    cases hout
  | take _ hno => cases hno.symm.trans hin
  | release => exact Or.inl rfl
  | handOut => exact Or.inr rfl
  | _ => cases hin

theorem ControlStep.exited (hpc : pc = .exited) : pc' = .exited := by
  cases h with
  | move h =>
    rw [hpc] at h
    cases h.ends
  | take _ _ _ _ _ _ _ _ hends =>
    rw [hpc] at hends
    cases hends
  | gone => rfl
  | _ => cases hpc

theorem ControlStep.newly_done (hk : k'.workerDone = true) :
    k.workerDone = true ∨ (pc = .exited ∧ pc' = .exited) := by
  cases h with
  | gone => exact Or.inr ⟨rfl, rfl⟩
  | _ => exact Or.inl hk

/-- The last step of the worker, and the last one of the stop. -/
theorem ControlStep.last (hpc : pc.ends = true) :
    (pc = .exited ∧ k'.workerDone = true) ∨ (pc = .free ∧ k'.freed = true) := by
  cases h with
  | move h => cases h.ends.symm.trans hpc
  | take _ _ _ _ _ _ _ _ hends => cases hends.symm.trans hpc
  | gone => exact Or.inl ⟨rfl, rfl⟩
  | free => exact Or.inr ⟨rfl, rfl⟩
  | _ => cases hpc

theorem ControlStep.newly_freed (hk : k'.freed = true) :
    k.freed = true ∨ (pc = .free ∧ pc' = .idle) := by
  cases h with
  | free => exact Or.inr ⟨rfl, rfl⟩
  | _ => exact Or.inl hk

theorem ControlStep.newly_cleaned (hk : k'.cleanup = true) :
    k.cleanup = true ∨ pc'.requested = true := by
  cases h with
  | request => exact Or.inr rfl
  | _ => exact Or.inl hk

end

/-- A thread that may run makes its step. -/
theorem threads_run {s : BridgeState} (t : Thread) (io : StepIo) (hfreed : s.shared.freed = false)
    (hrun : s.shared.handedOut = true ∨ (s.pc t).starting = true) :
    (threads printNumber).step t io (s.pc t) s.shared =
      (s.pc t).step printNumber t io s.shared := by
  refine if_neg ?_
  rintro (hno | ⟨hhanded, hstarting⟩)
  · cases hfreed.symm.trans hno
  · rcases hrun with h | h
    · cases hhanded.symm.trans h
    · cases hstarting.symm.trans h

theorem control_run {s : BridgeState} (t : Thread) (io : StepIo) (hfreed : s.shared.freed = false)
    (hrun : s.shared.handedOut = true ∨ (s.pc t).starting = true) :
    ControlStep t (s.pc t) s.shared.control (((bridge printNumber).step s (t, io)).pc t)
      ((bridge printNumber).step s (t, io)).shared.control := by
  rw [Threads.pc_self, Threads.shared_step, threads_run printNumber t io hfreed hrun]
  exact control_step printNumber t io s.shared (s.pc t)

/-- A thread makes its step or may not run. -/
theorem step_control {s : BridgeState} (t : Thread) (io : StepIo) :
    (bridge printNumber).step s (t, io) = s ∨
      ((s.shared.handedOut = true ∨ (s.pc t).starting = true) ∧
        ControlStep t (s.pc t) s.shared.control (((bridge printNumber).step s (t, io)).pc t)
          ((bridge printNumber).step s (t, io)).shared.control) := by
  by_cases hrun : s.shared.freed = true ∨ (s.shared.handedOut = false ∧ (s.pc t).starting = false)
  · exact Or.inl (Threads.step_eq_self (if_pos hrun))
  · obtain ⟨hfreed, hno⟩ := not_or.mp hrun
    have hrun : s.shared.handedOut = true ∨ (s.pc t).starting = true := by
      by_contra hneither
      obtain ⟨hhanded, hstart⟩ := not_or.mp hneither
      exact hno ⟨Bool.eq_false_iff.mpr hhanded, Bool.eq_false_iff.mpr hstart⟩
    exact Or.inr ⟨hrun, control_run printNumber t io (Bool.eq_false_iff.mpr hfreed) hrun⟩

theorem requested_ofStop {pc : Pc} (h : pc.requested = true) : pc.ofStop = true := by
  cases pc <;> first | exact h | cases h

theorem starting_inSection {pc : Pc} (h : pc.starting = true) : pc.inSection = true := by
  cases pc with
  | flush => rfl
  | _ => cases h

theorem Halting.step {s : BridgeState} (h : Halting s) (e : Thread × StepIo) :
    Halting ((bridge printNumber).step s e) := by
  obtain ⟨t, io⟩ := e
  have hordinary := h.ordinary.step printNumber t io
  have hother : ∀ u, u ≠ t → ((bridge printNumber).step s (t, io)).pc u = s.pc u := by
    intro u hu
    exact Threads.pc_other hu
  rcases step_control printNumber (s := s) t io with hstay | ⟨hrun, hstep⟩
  · rw [hstay]
    exact h
  generalize (bridge printNumber).step s (t, io) = s' at hordinary hother hstep ⊢
  constructor
  · exact hordinary
  · intro u hu
    rcases hstep.mutex_cases with hsame | ⟨-, htaken, -, hin⟩ | ⟨hnone, -⟩
    · have hold : s.shared.mutex = some u := hsame.symm.trans hu
      by_cases hut : u = t
      · subst hut
        by_contra hout
        rcases hstep.leaves (h.holder u hold) (Bool.eq_false_iff.mpr hout) with hnone | hstarting
        · cases hnone.symm.trans hu
        · cases (h.unshared (h.starting u hstarting)).1.symm.trans hold
      · rw [hother u hut]
        exact h.holder u hold
    · have hut : t = u := Option.some.inj (htaken.symm.trans hu)
      rw [← hut]
      exact hin
    · cases hnone.symm.trans hu
  · intro hhanded
    have hold := hstep.handedOut hhanded
    have hstarting := hrun.resolve_left fun hyes => by cases hold.symm.trans hyes
    obtain ⟨hmutex, hcleanup⟩ := h.unshared hold
    have hin := starting_inSection hstarting
    constructor
    · rcases hstep.mutex_cases with hsame | ⟨-, -, hout, -⟩ | ⟨hnone, -⟩
      · exact hsame.trans hmutex
      · cases hout.symm.trans hin
      · exact hnone
    · rw [Bool.eq_false_iff]
      intro hyes
      rcases hstep.newly_cleaned hyes with hk | hrequested
      · cases hcleanup.symm.trans hk
      · cases (hstep.not_stopping hstarting).symm.trans (requested_ofStop hrequested)
  · intro u hu
    by_cases hut : u = t
    · subst hut
      rcases hstep.is_requested hu with hold | hnew
      · exact hstep.cleanup (h.requested u hold)
      · exact hnew
    · rw [hother u hut] at hu
      exact hstep.cleanup (h.requested u hu)
  · intro hcleanup
    rcases hstep.newly_cleaned hcleanup with hk | hnew
    · rcases h.stopper hk with hfreed | ⟨u, hu⟩
      · exact Or.inl (hstep.freed hfreed)
      · by_cases hut : u = t
        · subst hut
          rcases hstep.goes_on hu with hon | hfreed
          · exact Or.inr ⟨u, hon⟩
          · exact Or.inl hfreed
        · refine Or.inr ⟨u, ?_⟩
          rw [hother u hut]
          exact hu
    · exact Or.inr ⟨t, hnew⟩
  · intro u hu
    by_cases hut : u = t
    · subst hut
      rcases hstep.is_joined hu with hold | hdone
      · exact hstep.workerDone (h.joined u hold)
      · exact hstep.workerDone hdone
    · rw [hother u hut] at hu
      exact hstep.workerDone (h.joined u hu)
  · intro hdone
    by_cases ht : t = .worker
    · subst ht
      rcases hstep.newly_done hdone with hk | ⟨-, hpc⟩
      · exact hstep.exited (h.gone hk)
      · exact hpc
    · rcases hstep.newly_done hdone with hk | ⟨hpc, -⟩
      · rw [hother .worker (Ne.symm ht)]
        exact h.gone hk
      · -- only the worker gets there
        have hrole := h.ordinary.role t
        rw [hpc, decide_eq_false ht] at hrole
        cases hrole
  · intro u hu
    by_cases hut : u = t
    · subst hut
      obtain ⟨hold, hsame⟩ := hstep.is_starting hu
      exact hsame.trans (h.starting u hold)
    · rw [hother u hut] at hu
      cases hhanded : s'.shared.handedOut with
      | false => rfl
      | true =>
        -- the thread that starts the bridge is the only one that runs
        have hold := h.starting u hu
        have hstarting := hrun.resolve_left fun hyes => by cases hold.symm.trans hyes
        have hsame := h.ordinary.exclusive.unique (starting_inSection hu)
          (starting_inSection hstarting)
        exact absurd hsame hut
  · intro u hu
    by_cases hut : u = t
    · subst hut
      rcases hrun with hhanded | hstarting
      · by_contra hno
        cases (hstep.handedOut (Bool.eq_false_iff.mpr hno)).symm.trans hhanded
      · cases (hstep.not_stopping hstarting).symm.trans hu
    · rw [hother u hut] at hu
      by_contra hno
      cases (hstep.handedOut (Bool.eq_false_iff.mpr hno)).symm.trans (h.stopping u hu)
  · intro hfreed
    rcases hstep.newly_freed hfreed with hk | ⟨hpc, -⟩
    · exact ⟨hstep.workerDone (h.freed hk).1, hstep.cleanup (h.freed hk).2⟩
    · have hjoined : (s.pc t).joined = true := by
        rw [hpc]
        rfl
      have hrequested : (s.pc t).requested = true := by
        rw [hpc]
        rfl
      exact ⟨hstep.workerDone (h.joined t hjoined), hstep.cleanup (h.requested t hrequested)⟩
  · refine (h.finite.insert t).subset fun u hu => ?_
    by_cases hut : u = t
    · exact Or.inl hut
    · refine Or.inr ?_
      have hu : (s'.pc u).isIdle = false := hu
      rw [hother u hut] at hu
      exact hu

theorem Opened.halting {tech : Tech} (h : Opened tech) : Halting (startState tech) := by
  have hpc := startState_pc tech
  have hcleanup : tech.cleanupStarted = false := by
    obtain ⟨io, streamSid, callSid, sampling, channels, session, rfl⟩ := h
    rfl
  constructor
  · exact h.ordinary
  · intro t ht
    cases ht
  · intro _
    exact ⟨rfl, hcleanup⟩
  · intro t ht
    rcases hpc t with hp | hp <;> rw [hp] at ht <;> cases ht
  · intro hyes
    cases hcleanup.symm.trans hyes
  · intro t ht
    rcases hpc t with hp | hp <;> rw [hp] at ht <;> cases ht
  · intro hyes
    cases hyes
  · intro t _
    rfl
  · intro t ht
    rcases hpc t with hp | hp <;> rw [hp] at ht <;> cases ht
  · intro hfreed
    cases hfreed
  · refine (Set.finite_singleton Thread.worker).subset fun t ht => ?_
    by_contra hne
    have hidle : (startState tech).pc t = .idle := if_neg hne
    have ht : ((startState tech).pc t).isIdle = false := ht
    rw [hidle] at ht
    cases ht

end RealtimeWs.Mod
