import RealtimeWs.Core.Vocabulary
import RealtimeWs.Mod.InFlight

/-! The threads touch the session only through its calls. In every interleaving the session
is as some sequence of whole calls leaves it, so what every call keeps holds throughout. -/
namespace RealtimeWs.Mod

open RealtimeWs.Core

/-- Calls of the kind `K` take the session from one state to the other. -/
def Reaches (K : SessionCall → Prop) (s t : Session) : Prop :=
  ∃ cs : List (Env × SessionCall), (∀ x ∈ cs, K x.2) ∧ calls.run s cs = t

/-- Calls that a section of the media bug or of `pause` makes. -/
def Call.makes : Call → SessionCall → Prop
  | .onRead _, c => ∃ pcm, c = .op (.pushPcm16 pcm)
  | .onWrite _, c | .applyWrite _, c =>
    (∃ n, c = .op (.readPlayout n)) ∨ c = .op (.noteWriteAfterClear 0)
  | .pause on, c => c = .pause on
  | _, _ => False

/-- Calls that a thread makes at a place of its program. -/
def Pc.makes (io : StepIo) : Pc → SessionCall → Prop
  | .flush .., c => c = .op .peekOutbound ∨ c = .op .dropOutboundHead
  | .textHandle .., c | .callHandle _, c => ∃ text, c = .op (.handlePeerJson text)
  | .handshake, c => c = .op .rehandshake
  | .stopSession, c => c = .op .stop
  | .idle, c => io.call.makes c
  | _, _ => False

section

variable {K : SessionCall → Prop}

theorem Reaches.refl (s : Session) : Reaches K s s := by
  refine ⟨[], ?_, rfl⟩
  rintro x ⟨⟩

theorem Reaches.call (s : Session) (env : Env) {c : SessionCall} (hc : K c) :
    Reaches K s (s.call (env, c)) :=
  ⟨[(env, c)], List.forall_mem_singleton.mpr hc, rfl⟩

theorem Reaches.trans {s t u : Session} (h : Reaches K s t) (k : Reaches K t u) :
    Reaches K s u := by
  obtain ⟨cs, hcs, rfl⟩ := h
  obtain ⟨ds, hds, rfl⟩ := k
  exact ⟨cs ++ ds, List.forall_mem_append.mpr ⟨hcs, hds⟩, calls.run_append s cs ds⟩

/-- What such calls keep. -/
theorem Reaches.keeps {P : Session → Prop} {s t : Session} (h : Reaches K s t)
    (hcall : ∀ s x, K x.2 → P s → P (s.call x)) (hs : P s) : P t := by
  obtain ⟨cs, hcs, rfl⟩ := h
  exact calls.invariant (fun s x hx hs => hcall s x hx hs) hs (calls.along_of_mem hcs s)

end

/-! ### One step -/

theorem holdSample_reaches (env : Env) (t : Tech) (sample : Int16) :
    Reaches (fun c => ∃ pcm, c = .op (.pushPcm16 pcm)) t.session
      (holdSample env t sample).session := by
  unfold holdSample
  split
  · exact .call t.session env (c := .op (.pushPcm16 ((heldWith t sample).take 160))) ⟨_, rfl⟩
  · exact .refl t.session

theorem holdSamples_reaches (io : Io) (i : ℕ) (samples : List Int16) (t : Tech) :
    Reaches (fun c => ∃ pcm, c = .op (.pushPcm16 pcm)) t.session
      (holdSamples io i samples t).session := by
  induction samples generalizing i t with
  | nil => exact .refl t.session
  | cons sample samples ih =>
    exact (holdSample_reaches (io.env i) t sample).trans (ih (i + 1) _)

/-- Reading, and noting an empty read. -/
theorem takePlayout_reaches (env : Env) (t : Tech) (want : ℕ) :
    Reaches (fun c => (∃ n, c = .op (.readPlayout n)) ∨ c = .op (.noteWriteAfterClear 0))
      t.session (takePlayout env t want).2.session := by
  have hread : Reaches (fun c => (∃ n, c = .op (.readPlayout n)) ∨
      c = .op (.noteWriteAfterClear 0)) t.session
        (t.session.call (env, .op (.readPlayout want))) :=
    .call t.session env (Or.inl ⟨want, rfl⟩)
  unfold takePlayout
  dsimp only
  split
  · exact hread
  · exact hread.trans (.call _ env (c := .op (.noteWriteAfterClear 0)) (Or.inr rfl))

theorem onRead_reaches (io : Io) (t : Tech) (pcm : List Int16) :
    Reaches (fun c => ∃ pcm, c = .op (.pushPcm16 pcm)) t.session
      (rtwBridgeOnReadPcm16 io t pcm).session := by
  unfold rtwBridgeOnReadPcm16
  split_ifs
  · exact .refl _
  · exact .refl _
  · exact holdSamples_reaches _ 0 _ t
  · exact holdSamples_reaches _ 0 _ t

theorem mediaCall_reaches (io : StepIo) (g : Shared) (call : Call) :
    Reaches call.makes g.tech.session (mediaCall io g call).session := by
  cases call with
  | onRead pcm => exact onRead_reaches _ g.tech pcm
  | onWrite n =>
    simp only [mediaCall]
    unfold rtwBridgeOnWritePcm16
    split_ifs
    · exact .refl _
    · exact .refl _
    · exact takePlayout_reaches _ g.tech _
  | applyWrite pcm =>
    have htake := takePlayout_reaches (io.env 0) g.tech (writeWant pcm.length)
    simp only [mediaCall]
    unfold rtwBridgeApplyWriteFrame
    split_ifs
    · exact .refl _
    · exact .refl _
    · dsimp only
      split
      · exact htake
      · cases g.tech.injectMode <;> exact htake
  | pause on =>
    simp only [mediaCall]
    unfold rtwBridgePause
    split_ifs
    · exact .refl _
    · exact .refl _
    · exact .call g.tech.session (io.env 0) (c := .pause on) rfl
  | _ => exact .refl _

section

variable (printNumber : List UInt8 → List UInt8)

theorem flushStep_reaches (io : StepIo) (g : Shared) (f : FlushPc) :
    Reaches (fun c => c = .op .peekOutbound ∨ c = .op .dropOutboundHead) g.tech.session
      (flushStep printNumber io g f).2.tech.session := by
  cases f with
  | peek => exact .call g.tech.session (io.env 0) (c := .op .peekOutbound) (Or.inl rfl)
  | drop => exact .call g.tech.session (io.env 0) (c := .op .dropOutboundHead) (Or.inr rfl)
  | send c json =>
    cases c with
    | none => exact .refl _
    | some c =>
      simp only [flushStep]
      cases (sendStep printNumber io g c json).1 with
      | none => exact .refl _
      | some r => exact .refl _
  | _ => exact .refl _

theorem lock_reaches {K : SessionCall → Prop} (t : Thread) (io : StepIo) (g : Shared)
    (wait inside failed : Pc) :
    Reaches K g.tech.session (lock t io g wait inside failed).2.tech.session := by
  unfold lock
  split_ifs <;> exact .refl _

/-- A step of a thread makes calls of its place on the session, or leaves it alone. -/
theorem step_reaches (t : Thread) (io : StepIo) (g : Shared) (pc : Pc) :
    Reaches (pc.makes io) g.tech.session (pc.step printNumber t io g).2.tech.session := by
  cases pc with
  | flush site f =>
    cases f with
    | ret => cases site <;> exact .refl _
    | _ => exact flushStep_reaches printNumber io g _
  | idle =>
    have hmedia : ∀ call, io.call = call → Reaches (Pc.idle.makes io) g.tech.session
        (if g.mutex = none then g.withTech (mediaCall io g call) else g).tech.session := by
      rintro call rfl
      split
      · exact mediaCall_reaches io g io.call
      · exact .refl _
    simp only [Pc.step]
    unfold idleStep
    cases hcall : io.call with
    | clear | stop | closeRequest | sendMark => exact .refl _
    | onRead pcm => exact hmedia (.onRead pcm) hcall
    | onWrite n => exact hmedia (.onWrite n) hcall
    | applyWrite pcm => exact hmedia (.applyWrite pcm) hcall
    | pause on => exact hmedia (.pause on) hcall
  | textLock | callLock | handshakeLock | stopLock => exact lock_reaches ..
  | textHandle c text =>
    simp only [Pc.step]
    split
    · exact .refl _
    · exact .call g.tech.session (io.env 0) (c := .op (.handlePeerJson text)) ⟨text, rfl⟩
  | callHandle text =>
    exact .call g.tech.session (io.env 0) (c := .op (.handlePeerJson text)) ⟨text, rfl⟩
  | handshake =>
    simp only [Pc.step]
    split
    · exact .refl _
    · exact .call g.tech.session (io.env 0) (c := .op .rehandshake) rfl
  | stopSession => exact .call g.tech.session (io.env 0) (c := .op .stop) rfl
  | close site p => cases p <;> exact .refl _
  | poll c =>
    cases c with
    | none => exact .refl _
    | some c =>
      simp only [Pc.step]
      split <;> exact .refl _
  | begin =>
    simp only [Pc.step]
    rcases reconnectBegin_cases g.tech with hb | ⟨wait, hb⟩
    · rw [hb]
      exact .refl _
    · rw [hb]
      exact .refl _
  | trylock | connect =>
    simp only [Pc.step]
    split <;> exact .refl _
  | _ => exact .refl _

end

/-! ### What no call of the session is about -/

/-- The samples that wait for a full frame, and the way of injection. -/
def Tech.held (tech : Tech) : List Int16 × InjectMode := (tech.pcmHold, tech.injectMode)

theorem takePlayout_held (env : Env) (t : Tech) (want : ℕ) :
    (takePlayout env t want).2.held = t.held := by
  unfold takePlayout
  dsimp only
  split <;> rfl

theorem mediaCall_held (io : StepIo) (g : Shared) {call : Call} (h : ∀ pcm, call ≠ .onRead pcm) :
    (mediaCall io g call).held = g.tech.held := by
  cases call with
  | onRead pcm => exact absurd rfl (h pcm)
  | onWrite n =>
    simp only [mediaCall, rtwBridgeOnWritePcm16]
    split_ifs
    · rfl
    · rfl
    · exact takePlayout_held _ _ _
  | applyWrite pcm =>
    simp only [mediaCall, rtwBridgeApplyWriteFrame]
    split_ifs
    · rfl
    · rfl
    · exact takePlayout_held _ _ _
    · cases g.tech.injectMode <;> exact takePlayout_held _ _ _
  | pause on =>
    simp only [mediaCall, rtwBridgePause]
    split_ifs <;> rfl
  | _ => rfl

section

variable (printNumber : List UInt8 → List UInt8)

/-- Nothing but a call with audio touches them. -/
theorem step_held (t : Thread) (io : StepIo) (g : Shared) {pc : Pc}
    (h : pc = .idle → ∀ pcm, io.call ≠ .onRead pcm) :
    (pc.step printNumber t io g).2.tech.held = g.tech.held := by
  have hlock : ∀ wait inside failed, (lock t io g wait inside failed).2.tech.held =
      g.tech.held := by
    intro wait inside failed
    unfold RealtimeWs.Mod.lock
    split_ifs <;> rfl
  cases pc with
  | flush site f =>
    cases f with
    | send c json =>
      cases c with
      | none => rfl
      | some c =>
        simp only [Pc.step, flushStep]
        cases (sendStep printNumber io g c json).1 with
        | none => rfl
        | some r => rfl
    | ret => cases site <;> rfl
    | _ => rfl
  | textLock | callLock | handshakeLock | stopLock => exact hlock ..
  | idle =>
    have hcall := h rfl
    simp only [Pc.step, idleStep]
    split
    · rfl
    · rfl
    · rfl
    · rfl
    · split
      · exact mediaCall_held io g hcall
      · rfl
  | poll c =>
    cases c with
    | none => rfl
    | some c =>
      simp only [Pc.step]
      split <;> rfl
  | begin =>
    simp only [Pc.step]
    rcases reconnectBegin_cases g.tech with hb | ⟨wait, hb⟩
    · rw [hb]
    · rw [hb]
      rfl
  | textHandle | handshake | connect | trylock =>
    simp only [Pc.step]
    split <;> rfl
  | close site p => cases p <;> rfl
  | _ => rfl

end

variable (printNumber : List UInt8 → List UInt8)

/-! ### Runs -/

/-- What every step keeps of the bridge and of what the steps have emitted, by their places. -/
theorem emitted_invariant {ο : Type} {m : Machine BridgeState (Thread × StepIo) ο}
    {f : StepIo → Shared → Pc → List ο} (hm : m.step = (bridge printNumber).step)
    (hout : ∀ s e, m.out s e =
      if s.shared.freed = true ∨ (s.shared.handedOut = false ∧ (s.pc e.1).starting = false) then []
      else f e.2 s.shared (s.pc e.1))
    {J : Tech → List ο → Prop} (hstep : ∀ t io g pc h, J g.tech h →
      J (pc.step printNumber t io g).2.tech (h ++ f io g pc))
    {s : BridgeState} (hs : J s.shared.tech []) (es : List (Thread × StepIo)) :
    J ((bridge printNumber).run s es).shared.tech (m.outputs s es) := by
  have hrun : m.run s es = (bridge printNumber).run s es := by
    unfold Machine.run
    rw [hm]
  rw [← hrun]
  refine m.history_invariant (P := fun _ _ => True) (J := fun u h => J u.shared.tech h) ?_
    (h := []) hs (m.along_of_forall (fun _ _ => trivial) s es)
  rintro u ⟨t, io⟩ h - hu
  rw [hout, hm, Threads.shared_step]
  simp only [threads]
  split
  · rw [List.append_nil]
    exact hu
  · exact hstep t io u.shared (u.pc t) h hu

end RealtimeWs.Mod
