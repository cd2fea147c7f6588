import RealtimeWs.Mod.World

/-! The order of messages on each connection: a handshake comes first as long as the
queue that survives a reconnect does not get in front of it. -/
namespace RealtimeWs.Mod

open RealtimeWs.Core

def isConnected : OutMsg → Bool
  | .connected _ => true
  | _ => false

def isStart : OutMsg → Bool
  | .start .. => true
  | _ => false

/-- The first message is `connected`, the second is `start`, as far as they are there. -/
def HandshakeFirst (l : List OutMsg) : Prop :=
  (∀ a ∈ l[0]?, isConnected a) ∧ ∀ a ∈ l[1]?, isStart a

instance (l : List OutMsg) : Decidable (HandshakeFirst l) := inferInstanceAs (Decidable (_ ∧ _))

theorem handshakeFirst_nil : HandshakeFirst [] := by
  constructor <;> intro a ha <;> cases ha

theorem handshakeFirst_cons_cons {a b : OutMsg} (ha : isConnected a) (hb : isStart b)
    (l : List OutMsg) : HandshakeFirst (a :: b :: l) := by
  constructor
  · intro x hx
    cases hx
    exact ha
  · intro x hx
    cases hx
    exact hb

theorem HandshakeFirst.prefix {l m : List OutMsg} (h : HandshakeFirst (l ++ m)) :
    HandshakeFirst l := by
  rcases l with _ | ⟨a, _ | ⟨b, l⟩⟩
  · exact handshakeFirst_nil
  · refine ⟨h.1, ?_⟩
    intro x hx
    cases hx
  · exact h

theorem HandshakeFirst.append {l : List OutMsg} (h : HandshakeFirst l) (hl : 2 ≤ l.length)
    (m : List OutMsg) : HandshakeFirst (l ++ m) := by
  rcases l with _ | ⟨a, _ | ⟨b, l⟩⟩
  · cases hl
  · exact absurd hl (by simp)
  · exact h

/-! ### What a flush sends on its connection -/

theorem Sent.sentOn {io : Io} {c i k : ℕ} {tech u : Tech} (h : Sent io c i k tech u) (d : ℕ) :
    u.sentOn d = tech.sentOn d ++
      if d = c then tech.session.outbound.contents.take k else [] := by
  rw [Tech.sentOn, h.wire, List.append_assoc, List.filter_append, List.map_append]
  congr 1
  have hfilter : ∀ l : List Attempt, l.filter (fun a => a.sent && a.connection == d) =
      (l.filter Attempt.sent).filter fun a => a.connection == d := fun l => by
    rw [List.filter_filter]
    exact List.filter_congr fun a _ => Bool.and_comm _ _
  rw [hfilter, delivered_attempts]
  generalize tech.session.outbound.contents.take k = l
  split
  · rename_i hd
    rw [List.filter_eq_self.mpr (by simp [hd]), List.map_map]
    exact List.map_id _
  · rename_i hd
    rw [List.filter_eq_nil_iff.mpr (by simp [Ne.symm hd])]
    rfl

/-- With `l` queued, everything sent and to be sent on `c` starts with a handshake. -/
def Primed (tech : Tech) (c : ℕ) (l : List OutMsg) : Prop :=
  HandshakeFirst (tech.sentOn c ++ l) ∧ 2 ≤ (tech.sentOn c ++ l).length

theorem Primed.extend {tech : Tech} {c : ℕ} {l : List OutMsg} (h : Primed tech c l)
    (m : List OutMsg) : Primed tech c (l ++ m) := by
  rw [Primed, ← List.append_assoc]
  refine ⟨h.1.append h.2 m, ?_⟩
  rw [List.length_append]
  exact h.2.trans (Nat.le_add_right _ _)

/-- Both messages of the handshake were sent on `c`. -/
def Shaken (tech : Tech) (c : ℕ) : Prop := 2 ≤ (tech.sentOn c).length

theorem Shaken.primed {tech : Tech} {c : ℕ} (h : Shaken tech c)
    (hf : HandshakeFirst (tech.sentOn c)) (l : List OutMsg) : Primed tech c l := by
  refine ⟨hf.append h l, ?_⟩
  rw [List.length_append]
  exact Nat.le_trans h (Nat.le_add_right _ _)

/-! ### The invariant -/

/-- The points of `try_reconnect` before the new connection is declared ready. -/
def WorkerPc.down : WorkerPc → Bool
  | .backoff | .reopen | .opening | .opened => true
  | _ => false

/-- Connections are numbered as they open, and each carries its handshake first. -/
structure Ordered (tech : Tech) : Prop where
  fresh : ∀ a ∈ tech.wire, a.connection < tech.connections
  current : ∀ c, tech.ws = some c → c < tech.connections
  first : ∀ c, HandshakeFirst (tech.sentOn c)

/-- A ready connection has its handshake except between `ws_ready = 1` and the
rehandshake, or when the bridge stopped there. -/
structure Inv (w : World) : Prop where
  ordered : Ordered w.tech
  shaken : w.tech.wsReady = true → stopping w.tech = false ∨ w.pc = .sending →
    ∀ c, w.tech.ws = some c → (w.pc = .ready ∧ w.tech.sentOn c = []) ∨ Shaken w.tech c
  down : w.pc.down = true → w.tech.wsReady = false
  opened : w.pc = .opened → ∀ c, w.tech.ws = some c → w.tech.sentOn c = []
  running : w.pc ≠ .freed → w.tech.session.state = .running

theorem sentOn_eq {t u : Tech} (h : u.wire = t.wire) (c : ℕ) : u.sentOn c = t.sentOn c := by
  rw [Tech.sentOn, h, Tech.sentOn]

/-- A connection that was never opened carried nothing. -/
theorem Ordered.unopened {tech : Tech} (h : Ordered tech) {c : ℕ} (hc : tech.connections ≤ c) :
    tech.sentOn c = [] := by
  rw [Tech.sentOn, List.filter_eq_nil_iff.mpr, List.map_nil]
  intro a ha hsent
  have hlt := h.fresh a ha
  have heq : a.connection = c := by simpa using (Bool.and_eq_true_iff.mp hsent).2
  omega

theorem Ordered.congr {t u : Tech} (h : Ordered t) (hw : u.wire = t.wire)
    (hn : t.connections ≤ u.connections) (hc : ∀ c, u.ws = some c → c < u.connections) :
    Ordered u := by
  refine ⟨fun a ha => ?_, hc, fun c => ?_⟩
  · rw [hw] at ha
    exact (h.fresh a ha).trans_le hn
  · rw [sentOn_eq hw]
    exact h.first c

/-- A flush is harmless when what it finds queued goes well with what was sent before. -/
theorem Ordered.flush {tech : Tech} (h : Ordered tech) {io : Io}
    (hpre : tech.wsReady = true → ∀ c, tech.ws = some c →
      Primed tech c (harvested io tech).session.outbound.contents ∨
        (harvested io tech).session.outbound.contents = []) :
    Ordered (flushOutbound io tech) := by
  by_cases hoff : tech.ws = none ∨ tech.wsReady = false
  · rw [flushOutbound_off hoff]
    exact h
  obtain ⟨hws, hready⟩ := not_or.mp hoff
  obtain ⟨c, hc⟩ := Option.ne_none_iff_exists'.mp hws
  have hready : tech.wsReady = true := by simpa using hready
  obtain ⟨k, hk⟩ : ∃ k, Sent io c 0 k (harvested io tech) (flushOutbound io tech) :=
    flushOutbound_sent hc hready
  constructor
  · intro a ha
    rw [hk.connections]
    rw [hk.wire, List.append_assoc, List.mem_append] at ha
    rcases ha with ha | ha
    · exact h.fresh a ha
    · have hac : a.connection = c := by
        rcases List.mem_append.mp ha with ha | ha <;> obtain ⟨m, -, rfl⟩ := List.mem_map.mp ha <;> rfl
      exact hac ▸ h.current c hc
  · rw [hk.ws, hk.connections]
    exact h.current
  · intro d
    have hsent : (flushOutbound io tech).sentOn d = tech.sentOn d ++
        if d = c then (harvested io tech).session.outbound.contents.take k else [] := hk.sentOn d
    rw [hsent]
    split
    · rename_i hd
      rcases hpre hready c hc with hpre | hpre
      · have hall := hd ▸ hpre.1
        rw [← List.take_append_drop k (harvested io tech).session.outbound.contents,
          ← List.append_assoc] at hall
        exact hall.prefix
      · rw [hpre, List.take_nil, List.append_nil]
        exact h.first d
    · rw [List.append_nil]
      exact h.first d

/-- A connection that is still ready after a flush has sent all that was queued. -/
theorem flush_ready {io : Io} {tech : Tech} {c : ℕ}
    (hready : (flushOutbound io tech).wsReady = true) (hc : (flushOutbound io tech).ws = some c) :
    tech.wsReady = true ∧ tech.ws = some c ∧ (flushOutbound io tech).sentOn c =
      tech.sentOn c ++ (harvested io tech).session.outbound.contents := by
  by_cases hoff : tech.ws = none ∨ tech.wsReady = false
  · rw [flushOutbound_off hoff] at hready hc
    simp [hready, hc] at hoff
  obtain ⟨hws, hr⟩ := not_or.mp hoff
  obtain ⟨d, hd⟩ := Option.ne_none_iff_exists'.mp hws
  obtain ⟨k, hk⟩ : ∃ k, Sent io d 0 k (harvested io tech) (flushOutbound io tech) :=
    flushOutbound_sent hd (by simpa using hr)
  have hdc : c = d := Option.some.inj (hc.symm.trans (hk.ws.trans hd))
  have hall : k = (harvested io tech).session.outbound.contents.length := by
    rw [hk.wsReady] at hready
    exact of_decide_eq_true (Bool.and_eq_true_iff.mp hready).2
  refine ⟨by simpa using hr, hdc ▸ hd, ?_⟩
  rw [hk.sentOn c, if_pos hdc, hall, List.take_length]
  rfl

theorem state_flush (io : Io) (tech : Tech) :
    (flushOutbound io tech).session.state = tech.session.state := by
  by_cases hoff : tech.ws = none ∨ tech.wsReady = false
  · rw [flushOutbound_off hoff]
  obtain ⟨hws, hr⟩ := not_or.mp hoff
  obtain ⟨c, hc⟩ := Option.ne_none_iff_exists'.mp hws
  obtain ⟨k, hk⟩ : ∃ k, Sent io c 0 k (harvested io tech) (flushOutbound io tech) :=
    flushOutbound_sent hc (by simpa using hr)
  obtain ⟨ms, x, hx, -⟩ := rtwSessionHarvestMarks_spec (io.env 0) tech.session
  rw [hk.session, harvested, hx]
  rfl

theorem stopping_flush (io : Io) (tech : Tech) :
    stopping (flushOutbound io tech) = stopping tech := by
  rw [flushOutbound_rest]
  rfl

theorem Inv.silent {w : World} (h : Inv w) {t : Tech} (hs : Silent w.tech t) :
    Inv { w with tech := t } := by
  have hsent := sentOn_eq hs.wire
  constructor
  · refine h.ordered.congr hs.wire hs.connections.ge fun c hc => ?_
    exact (h.ordered.current c (hs.ws ▸ hc)).trans_eq hs.connections.symm
  · intro hready hstop c hc
    have hold := h.shaken (hs.wsReady ▸ hready) (hstop.imp_left (hs.stopping ▸ ·)) c (hs.ws ▸ hc)
    rw [Shaken, ← hsent c] at hold
    exact hold
  · intro hd
    exact hs.wsReady.trans (h.down hd)
  · intro hp c hc
    exact (hsent c).trans (h.opened hp c (hs.ws ▸ hc))
  · intro hp
    exact hs.state.trans (h.running hp)

/-- A connection still ready after a flush that found it primed has its handshake. -/
theorem flush_shaken {io : Io} {tech : Tech} {c : ℕ}
    (hready : (flushOutbound io tech).wsReady = true) (hc : (flushOutbound io tech).ws = some c)
    (hpre : Primed tech c (harvested io tech).session.outbound.contents) :
    Shaken (flushOutbound io tech) c := by
  obtain ⟨-, -, hsent⟩ := flush_ready hready hc
  rw [Shaken, hsent]
  exact hpre.2

theorem Inv.flush {w : World} (h : Inv w) {io : Io}
    (hpre : w.tech.wsReady = true → ∀ c, w.tech.ws = some c →
      Primed w.tech c (harvested io w.tech).session.outbound.contents ∨
        (harvested io w.tech).session.outbound.contents = []) :
    Inv { w with tech := flushOutbound io w.tech } := by
  constructor
  · exact h.ordered.flush hpre
  · intro hready hstop c hc
    obtain ⟨hr, hws, hsent⟩ := flush_ready hready hc
    have hstop : stopping w.tech = false ∨ w.pc = .sending := by
      rw [← stopping_flush io w.tech]
      exact hstop
    rcases hpre hr c hws with hpre | hpre
    · exact Or.inr (flush_shaken hready hc hpre)
    · rw [hpre, List.append_nil] at hsent
      rw [Shaken]
      change (w.pc = .ready ∧ (flushOutbound io w.tech).sentOn c = []) ∨
        2 ≤ ((flushOutbound io w.tech).sentOn c).length
      rw [hsent]
      exact h.shaken hr hstop c hws
  · intro hd
    have hr := h.down hd
    change (flushOutbound io w.tech).wsReady = false
    rw [flushOutbound_off (Or.inr hr)]
    exact hr
  · intro hp
    have hr := h.down (by rw [hp]; rfl)
    change ∀ c, (flushOutbound io w.tech).ws = some c → (flushOutbound io w.tech).sentOn c = []
    rw [flushOutbound_off (Or.inr hr)]
    exact h.opened hp
  · intro hp
    exact (state_flush io w.tech).trans (h.running hp)

/-- A step that leaves no ready connection. -/
theorem Inv.off {w : World} (h : Inv w) {t : Tech} {pc : WorkerPc} (hw : t.wire = w.tech.wire)
    (hn : w.tech.connections ≤ t.connections) (hcur : ∀ c, t.ws = some c → c < t.connections)
    (hoff : t.wsReady = false) (hopen : pc = .opened → ∀ c, t.ws = some c → w.tech.sentOn c = [])
    (hrun : t.session.state = .running) : Inv ⟨t, pc⟩ := by
  constructor
  · exact h.ordered.congr hw hn hcur
  · intro hready
    change t.wsReady = true at hready
    rw [hoff] at hready
    cases hready
  · intro _
    exact hoff
  · intro hp c hc
    exact (sentOn_eq hw c).trans (hopen hp c hc)
  · intro _
    exact hrun

/-- The worker moves on and leaves everything else as it is. -/
theorem Inv.goto {w : World} (h : Inv w) {pc : WorkerPc} (hfrom : w.pc ≠ .ready)
    (hlive : w.pc ≠ .freed) (hdown : pc.down = false)
    (hsend : pc = .sending → stopping w.tech = false) : Inv { w with pc := pc } := by
  constructor
  · exact h.ordered
  · intro hready hstop c hc
    have hstop : stopping w.tech = false ∨ w.pc = .sending := Or.inl (hstop.elim id hsend)
    rcases h.shaken hready hstop c hc with ⟨hp, -⟩ | hs
    · exact absurd hp hfrom
    · exact Or.inr hs
  · intro hd
    change pc.down = true at hd
    rw [hdown] at hd
    cases hd
  · intro hp
    change pc = .opened at hp
    rw [hp] at hdown
    cases hdown
  · intro _
    exact h.running hlive

/-! ### When the queue gets in front of a handshake -/

/-- Acknowledgements that a text and the flush behind it queue, at most. -/
def acksDue (env : Env) (s : Session) (text : CStr) : ℕ :=
  match s.inboundFor env text with
  | none => min HARVEST_MAX (completed s.playout.marks).length
  | some ev =>
    match ev.type with
    | .clear => s.playout.marks.length
    | .mark =>
      if s.playout.marks.length < RTW_MARK_MAX ∧ s.playout.size = 0 then
        min HARVEST_MAX ((completed s.playout.marks).length + 1)
      else min HARVEST_MAX (completed s.playout.marks).length
    | _ => min HARVEST_MAX (completed s.playout.marks).length

theorem harvestMarks_offers (env : Env) (s : Session) :
    ∃ ms : Offers, Emits s.out ms (rtwSessionHarvestMarks env s).out ∧
      ms.length = min HARVEST_MAX (completed s.playout.marks).length := by
  obtain ⟨ms, x, hx, he, -, hn⟩ := rtwSessionHarvestMarks_spec env s
  have hlen := congrArg List.length hn
  rw [Offers.names, List.length_map, List.length_map, List.length_take] at hlen
  rw [hx]
  exact ⟨ms, he, hlen⟩

theorem completed_addMark (p : Playout) (name : CStr) :
    (completed (rtwPlayoutAddMark p name).2.marks).length =
      (completed p.marks).length + if p.marks.length < RTW_MARK_MAX ∧ p.size = 0 then 1 else 0 := by
  by_cases hfull : p.marks.length < RTW_MARK_MAX
  · have hok : (rtwPlayoutAddMark p name).1 = 0 := by rw [addMark_fst, if_pos hfull]
    rw [addMark_accepted p hok, p.length_bytes]
    by_cases h0 : p.size = 0
    · simp [completed, hfull, h0]
    · simp [completed, hfull, h0]
  · have hno : (rtwPlayoutAddMark p name).1 ≠ 0 := by
      rw [addMark_fst, if_neg hfull]
      decide
    rw [addMark_rejected p hno, if_neg (fun h => hfull h.1)]
    rfl

theorem handle_harvest_offers (env env' : Env) (s : Session) (text : CStr) :
    ∃ ms : Offers, Emits s.out ms
        (rtwSessionHarvestMarks env' (rtwSessionHandlePeerJson env s text).2).out ∧
      ms.length ≤ acksDue env s text := by
  unfold acksDue
  cases hj : s.inboundFor env text with
  | none =>
    obtain ⟨ms, he, hlen⟩ := harvestMarks_offers env' s
    rw [(handlePeerJson_of_none hj).2]
    exact ⟨ms, he, hlen.le⟩
  | some ev =>
    rw [handlePeerJson_of_event hj]
    obtain ⟨ms, he, -, -, hev⟩ := handleEvent_spec env s ev
    obtain ⟨ns, hh, hlen⟩ := harvestMarks_offers env' (handleEvent env s ev).2
    refine ⟨ms ++ ns, he.trans hh, ?_⟩
    rw [List.length_append, hlen]
    rcases htype : ev.type with _ | _ | _ | _ | _ | _ | _ | _ <;> simp only [htype] at hev ⊢
    case media =>
      rw [hev.1, hev.2.2, marks_write, List.length_nil, Nat.zero_add]
    case mark =>
      rw [hev.1, hev.2.2, completed_addMark, List.length_nil, Nat.zero_add]
      split <;> simp
    case clear =>
      have hle := hev.1.length_le
      rw [Offers.names, List.length_map, List.length_map] at hle
      have hnone : (completed (handleEvent env s ev).2.playout.marks).length = 0 := by
        rw [hev.2.2, marks_clear]
        rfl
      omega
    all_goals rw [hev.1, hev.2.2, List.length_nil, Nat.zero_add]

/-- Connection `c` has its handshake, or what is queued begins with the missing part of
it and there is room for `r` more messages. -/
def Backlog (tech : Tech) (c r : ℕ) : Prop :=
  Shaken tech c ∨ (Primed tech c tech.session.outbound.contents ∧
    tech.session.outbound.contents.length + r ≤ tech.session.outbound.capacity)

/-- A text is taken and the queue flushed on a connection that has its handshake, or
finds the handshake queued, or finds nothing to send. -/
def GapSafe (w : World) (io : Io) (text : CStr) : Prop :=
  io.locked = true → w.tech.wsReady = true → ∀ c, w.tech.ws = some c →
    Backlog w.tech c (acksDue (io.env 0) w.tech.session text) ∨
      (w.tech.session.outbound.contents = [] ∧ acksDue (io.env 0) w.tech.session text = 0)

/-- The rehandshake happens, both its messages are stored, and the queue it is put
behind is empty or begins with a handshake itself. -/
def RehandshakeSafe (w : World) (io : Io) : Prop :=
  w.tech.wsReady = true → stopping w.tech = false → ∀ c, w.tech.ws = some c →
    Shaken w.tech c ∨
      (io.locked = true ∧ (io.env 0).enqueue 0 = .stored ∧ (io.env 0).enqueue 1 = .stored ∧
        (w.tech.session.outbound.contents = [] ∨
          Primed w.tech c w.tech.session.outbound.contents) ∧
        w.tech.session.outbound.contents.length + 2 +
          min HARVEST_MAX (completed w.tech.session.playout.marks).length ≤
            w.tech.session.outbound.capacity)

/-- The last flush does not send `stop` on a connection without a handshake. -/
def StopSafe (w : World) (io : Io) : Prop :=
  io.locked = true → ∀ c, w.tech.ws = some c →
    Backlog w.tech c (1 + min HARVEST_MAX (completed w.tech.session.playout.marks).length)

/-- The condition on each step of a run. -/
def Guarded (w : World) : WorldEvent → Prop
  | .clear io => w.tech.cleanupStarted = false → GapSafe w io (clearText w.tech)
  | .sendMark io name => w.tech.cleanupStarted = false → GapSafe w io (markMessage w.tech name)
  | .rehandshake io => w.pc = .ready → RehandshakeSafe w io
  | .stopFinish io => w.pc = .exited → StopSafe w io
  | _ => True

instance (tech : Tech) (c : ℕ) : Decidable (Shaken tech c) := inferInstanceAs (Decidable (_ ≤ _))

instance (tech : Tech) (c : ℕ) (l : List OutMsg) : Decidable (Primed tech c l) :=
  inferInstanceAs (Decidable (_ ∧ _))

instance (tech : Tech) (c r : ℕ) : Decidable (Backlog tech c r) :=
  inferInstanceAs (Decidable (_ ∨ _))

instance (w : World) (io : Io) (text : CStr) : Decidable (GapSafe w io text) :=
  inferInstanceAs (Decidable (_ → _ → ∀ c ∈ w.tech.ws, _))

instance (w : World) (io : Io) : Decidable (RehandshakeSafe w io) :=
  inferInstanceAs (Decidable (_ → _ → ∀ c ∈ w.tech.ws, _))

instance (w : World) (io : Io) : Decidable (StopSafe w io) :=
  inferInstanceAs (Decidable (_ → ∀ c ∈ w.tech.ws, _))

instance : ∀ (w : World) (e : WorldEvent), Decidable (Guarded w e)
  | w, .clear io => inferInstanceAs (Decidable (_ → GapSafe w io (clearText w.tech)))
  | w, .sendMark io name =>
    inferInstanceAs (Decidable (_ → GapSafe w io (markMessage w.tech name)))
  | w, .rehandshake io => inferInstanceAs (Decidable (_ → RehandshakeSafe w io))
  | w, .stopFinish io => inferInstanceAs (Decidable (_ → StopSafe w io))
  | _, .onRead .. | _, .onWrite .. | _, .applyWrite .. | _, .pause .. | _, .closeRequest
  | _, .stopRequest | _, .wsText .. | _, .wsClose | _, .polled | _, .flush _ | _, .leave
  | _, .beginReconnect | _, .wake | _, .closeOld | _, .connect _ | _, .check | _, .finish =>
    .isTrue trivial

end RealtimeWs.Mod
