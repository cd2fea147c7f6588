import RealtimeWs.Mod.Bridge

/-! Delivery over all connections: what a flush sends, and where every message that
was ever queued is. -/
namespace RealtimeWs.Mod

open RealtimeWs.Core

/-! ### One flush -/

/-- A table without completed marks is left alone by a harvest. -/
theorem popCompletedMarks_idle {p : Playout} (h : completed p.marks = []) :
    rtwPlayoutPopCompletedMarks p HARVEST_MAX = ([], p) := by
  have hfst : (rtwPlayoutPopCompletedMarks p HARVEST_MAX).1 = [] := by
    rw [popCompletedMarks_fst, h]
    rfl
  have hmarks : (rtwPlayoutPopCompletedMarks p HARVEST_MAX).2.marks = p.marks := by
    have happ := p.completed_append
    rw [h, List.nil_append] at happ
    rw [marks_popCompletedMarks, happ]
  apply Prod.ext hfst
  cases p
  simp only [rtwPlayoutPopCompletedMarks] at hmarks ⊢
  congr

theorem harvestMarks_idle {env : Env} {s : Session} (h : completed s.playout.marks = []) :
    rtwSessionHarvestMarks env s = s := by
  rw [rtwSessionHarvestMarks, popCompletedMarks_idle h]
  rfl

/-- One harvest leaves no completed mark behind. -/
theorem completed_harvestMarks (env : Env) (s : Session) :
    completed (rtwSessionHarvestMarks env s).playout.marks = [] := by
  obtain ⟨ms, x, hx, -⟩ := rtwSessionHarvestMarks_spec env s
  rw [hx]
  change completed (rtwPlayoutPopCompletedMarks s.playout HARVEST_MAX).2.marks = []
  rw [marks_popCompletedMarks, completed, uncompleted, List.filter_filter]
  exact List.filter_eq_nil_iff.mpr fun m _ => by simp

/-- `k` messages at the head of the queue were sent on `c`; a failed send stops there. -/
structure Sent (io : Io) (c i k : ℕ) (tech u : Tech) : Prop where
  le : k ≤ tech.session.outbound.contents.length
  sends : ∀ j < k, io.sends (i + j) = true
  stop : k < tech.session.outbound.contents.length → io.sends (i + k) = false
  contents : u.session.outbound.contents = tech.session.outbound.contents.drop k
  history : u.session.outbound.history =
    tech.session.outbound.history ++ (tech.session.outbound.contents.take k).map .drop
  drops : u.session.outbound.drops = tech.session.outbound.drops
  capacity : u.session.outbound.capacity = tech.session.outbound.capacity
  session : u.session = { tech.session with outbound := u.session.outbound }
  wire : u.wire = tech.wire ++ (tech.session.outbound.contents.take k).map (⟨c, ·, true⟩) ++
    ((tech.session.outbound.contents.drop k).head?.toList.map (⟨c, ·, false⟩))
  wsReady : u.wsReady = (tech.wsReady && decide (k = tech.session.outbound.contents.length))
  rest : u = { tech with session := u.session, wsReady := u.wsReady, wire := u.wire }

theorem Sent.ws {io : Io} {c i k : ℕ} {tech u : Tech} (h : Sent io c i k tech u) :
    u.ws = tech.ws := by rw [h.rest]

theorem Sent.connections {io : Io} {c i k : ℕ} {tech u : Tech} (h : Sent io c i k tech u) :
    u.connections = tech.connections := by rw [h.rest]

/-- One more message sent in front of a flush. -/
private theorem Sent.cons {io : Io} {c i k : ℕ} {tech u : Tech} {m : OutMsg}
    (h : Sent io c (i + 1) k { tech with
      session := (rtwSessionDropOutboundHead tech.session).2
      wire := tech.wire ++ [⟨c, m, true⟩] } u)
    (hc : tech.session.outbound.contents =
      m :: (rtwQueueDropHead tech.session.outbound).2.contents)
    (hh : (rtwQueueDropHead tech.session.outbound).2.history =
      tech.session.outbound.history ++ [.drop m])
    (hd : (rtwQueueDropHead tech.session.outbound).2.drops = tech.session.outbound.drops)
    (hcap : (rtwQueueDropHead tech.session.outbound).2.capacity = tech.session.outbound.capacity)
    (hsend : io.sends i = true) : Sent io c i (k + 1) tech u := by
  have hlen := congrArg List.length hc
  rw [List.length_cons] at hlen
  constructor
  · rw [hlen]
    exact Nat.succ_le_succ h.le
  · intro j hj
    cases j with
    | zero => exact hsend
    | succ j =>
      rw [show i + (j + 1) = i + 1 + j by omega]
      exact h.sends j (by omega)
  · intro hlt
    rw [show i + (k + 1) = i + 1 + k by omega]
    exact h.stop (by rw [hlen] at hlt; exact Nat.lt_of_succ_lt_succ hlt)
  · rw [h.contents, hc]
    rfl
  · rw [h.history, hc]
    change (rtwQueueDropHead tech.session.outbound).2.history ++ _ = _
    rw [hh, List.append_assoc]
    rfl
  · exact h.drops.trans hd
  · exact h.capacity.trans hcap
  · exact h.session
  · rw [h.wire, hc]
    simp [rtwSessionDropOutboundHead]
  · rw [h.wsReady, hlen]
    simp [rtwSessionDropOutboundHead]
  · exact h.rest

theorem flushLoop_sent (io : Io) (c fuel i : ℕ) (tech : Tech)
    (hidle : completed tech.session.playout.marks = [])
    (hfuel : tech.session.outbound.contents.length < fuel) :
    ∃ k, Sent io c i k tech (flushLoop io c fuel i tech) := by
  induction fuel generalizing i tech with
  | zero => omega
  | succ fuel ih =>
    have hpeek : rtwSessionPeekOutbound (io.env i) tech.session =
        (tech.session.outbound.contents.head?, tech.session) := by
      rw [rtwSessionPeekOutbound, harvestMarks_idle hidle, rtwQueuePeek_eq_head?]
    rcases rtwQueueDropHead_spec tech.session.outbound with ⟨hnil, -⟩ |
      ⟨m, -, hc, hh, hd, hcap⟩
    · -- the queue is empty
      refine ⟨0, ?_⟩
      have hres : flushLoop io c (fuel + 1) i tech = tech := by
        rw [flushLoop, hpeek, hnil]
        rfl
      rw [hres]
      constructor <;> simp [hnil]
    · by_cases hsend : io.sends i = true
      · have hres : flushLoop io c (fuel + 1) i tech = flushLoop io c fuel (i + 1) { tech with
            session := (rtwSessionDropOutboundHead tech.session).2
            wire := tech.wire ++ [⟨c, m, true⟩] } := by
          rw [flushLoop, hpeek, hc]
          simp only [List.head?_cons, hsend]
          rfl
        obtain ⟨k, hk⟩ := ih (i + 1) { tech with
            session := (rtwSessionDropOutboundHead tech.session).2
            wire := tech.wire ++ [⟨c, m, true⟩] } hidle (by
          have hlen := congrArg List.length hc
          rw [List.length_cons] at hlen
          rw [hlen] at hfuel
          exact Nat.lt_of_succ_lt_succ hfuel)
        rw [hres]
        exact ⟨k + 1, hk.cons hc hh hd hcap hsend⟩
      · -- the send fails and the message stays at the head
        have hres : flushLoop io c (fuel + 1) i tech =
            { tech with wsReady := false, wire := tech.wire ++ [⟨c, m, false⟩] } := by
          rw [flushLoop, hpeek, hc]
          simp only [List.head?_cons, hsend]
          rfl
        rw [hres]
        refine ⟨0, ?_⟩
        constructor <;> simp [hc, hsend]

/-- The session a flush of a ready connection works on: its marks are harvested. -/
def harvested (io : Io) (tech : Tech) : Tech :=
  { tech with session := rtwSessionHarvestMarks (io.env 0) tech.session }

/-- A flush sends from the head of the queue until it is empty or a send fails. -/
theorem flushOutbound_sent {io : Io} {tech : Tech} {c : ℕ} (hws : tech.ws = some c)
    (hready : tech.wsReady = true) :
    ∃ k, Sent io c 0 k (harvested io tech) (flushOutbound io tech) := by
  have hpeek : rtwSessionPeekOutbound (io.env 0) (harvested io tech).session =
      rtwSessionPeekOutbound (io.env 0) tech.session := by
    simp only [rtwSessionPeekOutbound, harvested,
      harvestMarks_idle (completed_harvestMarks (io.env 0) tech.session)]
  have hres : flushOutbound io tech = flushLoop io c
      (rtwQueueSize tech.session.outbound + HARVEST_MAX + 1) 0 (harvested io tech) := by
    have hloop : flushOutbound io tech =
        flushLoop io c (rtwQueueSize tech.session.outbound + HARVEST_MAX + 1) 0 tech := by
      rw [flushOutbound, hws]
      exact if_pos hready
    rw [hloop, flushLoop, flushLoop, hpeek]
    rfl
  obtain ⟨ms, x, hx, he, -, hn⟩ := rtwSessionHarvestMarks_spec (io.env 0) tech.session
  have hnew : (harvested io tech).session.outbound.contents.length ≤
      tech.session.outbound.size + HARVEST_MAX := by
    obtain ⟨ev, hev⟩ := he.contents
    have hlen := congrArg List.length hev
    have hstored := (stored_sublist ms).length_le
    have hnames := congrArg List.length hn
    have htake : ((completed tech.session.playout.marks).take HARVEST_MAX).length ≤ HARVEST_MAX :=
      List.length_take_le _ _
    have hsize := tech.session.outbound.length_contents
    simp only [List.length_append, List.length_map, Offers.names] at hlen hstored hnames
    rw [harvested, hx]
    change x.1.contents.length ≤ _
    change ev.length + x.1.contents.length = tech.session.outbound.contents.length + _ at hlen
    omega
  rw [hres]
  exact flushLoop_sent io c _ 0 _ (completed_harvestMarks _ _) (by
    rw [rtwQueueSize]
    exact Nat.lt_succ_of_le hnew)

theorem flushOutbound_off {io : Io} {tech : Tech} (h : tech.ws = none ∨ tech.wsReady = false) :
    flushOutbound io tech = tech := by
  unfold flushOutbound
  rcases h with h | h
  · rw [h]
  · cases tech.ws with
    | none => rfl
    | some c => simp [h]

theorem flushOutbound_rest (io : Io) (tech : Tech) : flushOutbound io tech = { tech with
    session := (flushOutbound io tech).session
    wsReady := (flushOutbound io tech).wsReady
    wire := (flushOutbound io tech).wire } := by
  by_cases hoff : tech.ws = none ∨ tech.wsReady = false
  · rw [flushOutbound_off hoff]
  obtain ⟨hws, hready⟩ := not_or.mp hoff
  obtain ⟨c, hc⟩ := Option.ne_none_iff_exists'.mp hws
  obtain ⟨k, hk⟩ : ∃ k, Sent io c 0 k (harvested io tech) (flushOutbound io tech) :=
    flushOutbound_sent hc (by simpa using hready)
  exact hk.rest

/-- The flush of a start finds no mark to acknowledge. -/
theorem harvested_openTech {io : StartIo} {streamSid callSid : CBuf RTW_SID_MAX}
    {sampling channels : ℤ} {session : Session} (hs : session.Started) :
    harvested io.flush (openTech io streamSid callSid sampling channels session) =
      openTech io streamSid callSid sampling channels session := by
  obtain ⟨-, -, -, hmarks, -⟩ := hs.spec
  have hnone : completed session.playout.marks = [] := by
    rw [hmarks]
    rfl
  rw [harvested, openTech, harvestMarks_idle hnone]

theorem flushOutbound_openTech {io : StartIo} {streamSid callSid : CBuf RTW_SID_MAX}
    {sampling channels : ℤ} {session : Session} (hs : session.Started) :
    ∃ k, Sent io.flush 0 0 k (openTech io streamSid callSid sampling channels session)
      (flushOutbound io.flush (openTech io streamSid callSid sampling channels session)) := by
  obtain ⟨k, hk⟩ : ∃ k, Sent io.flush 0 0 k
      (harvested io.flush (openTech io streamSid callSid sampling channels session))
      (flushOutbound io.flush (openTech io streamSid callSid sampling channels session)) :=
    flushOutbound_sent rfl rfl
  rw [harvested_openTech hs] at hk
  exact ⟨k, hk⟩

/-- Every message that a flush finds queued is sent. -/
def SendsAll (io : Io) (tech : Tech) : Prop :=
  ∀ j < (harvested io tech).session.outbound.contents.length, io.sends j = true

instance (io : Io) (tech : Tech) : Decidable (SendsAll io tech) :=
  inferInstanceAs (Decidable (∀ j < _, _))

/-- A connection stays ready through a flush exactly when nothing fails to be sent. -/
theorem flushOutbound_wsReady_iff {io : Io} {tech : Tech} (hws : tech.ws.isSome = true)
    (hready : tech.wsReady = true) :
    (flushOutbound io tech).wsReady = true ↔ SendsAll io tech := by
  obtain ⟨c, hc⟩ := Option.isSome_iff_exists.mp hws
  obtain ⟨k, hk⟩ : ∃ k, Sent io c 0 k (harvested io tech) (flushOutbound io tech) :=
    flushOutbound_sent hc hready
  have hrest : (harvested io tech).wsReady = true := hready
  rw [hk.wsReady, hrest, Bool.true_and, decide_eq_true_iff]
  constructor
  · intro hall j hj
    have hsend := hk.sends j (hall ▸ hj)
    rwa [Nat.zero_add] at hsend
  · intro hall
    by_contra hne
    have hlt := Nat.lt_of_le_of_ne hk.le hne
    have hstop := hk.stop hlt
    rw [Nat.zero_add, hall k hlt] at hstop
    cases hstop

/-! ### Runs of queueing, flushing and reconnecting -/

/-- The calls that take a message off the queue themselves; the bridge makes neither. -/
def takesMessage : SessionOp → Bool
  | .popOutbound | .dropOutboundHead => true
  | _ => false

/-- What happens under the mutex between two flushes, on any connection or none. -/
inductive DeliveryOp
  | session (env : Env) (op : SessionOp) (keeps : takesMessage op = false)
  | flush (io : Io)
  | link (ws : Option ℕ) (wsReady : Bool)

def delivery : Machine Tech DeliveryOp Attempt where
  step tech
    | .session env op _ => { tech with session := tech.session.step (env, op) }
    | .flush io => flushOutbound io tech
    | .link ws wsReady => { tech with ws := ws, wsReady := wsReady }
  out tech
    | .flush io => (flushOutbound io tech).wire.drop tech.wire.length
    | _ => []

/-- The messages sent successfully so far, over all connections. -/
def Tech.delivered (tech : Tech) : List OutMsg := (tech.wire.filter Attempt.sent).map Attempt.json

/-- What has been sent is what was dropped from the head of the queue. -/
structure Delivered (tech : Tech) : Prop where
  lawful : tech.session.outbound.Lawful
  numbered : Numbered tech.session.out
  wire : tech.delivered = Fifo.removedBy .dropped tech.session.outbound.history
  unpopped : Fifo.removedBy .popped tech.session.outbound.history = []

theorem Delivered.emits {tech : Tech} {s : Session} {ms : Offers} (h : Delivered tech)
    (he : Emits tech.session.out ms s.out) : Delivered { tech with session := s } := by
  refine ⟨he.lawful h.lawful, he.numbered h.numbered, ?_, ?_⟩
  · exact h.wire.trans (he.removedBy (by decide)).symm
  · exact (he.removedBy (by decide)).trans h.unpopped

theorem delivered_attempts (c : ℕ) (sent : List OutMsg) (failed : Option OutMsg) :
    ((sent.map fun m => (⟨c, m, true⟩ : Attempt)) ++
      failed.toList.map fun m => (⟨c, m, false⟩ : Attempt)).filter Attempt.sent =
        sent.map fun m => (⟨c, m, true⟩ : Attempt) := by
  have hfailed : (failed.toList.map fun m => (⟨c, m, false⟩ : Attempt)).filter Attempt.sent = [] :=
    List.filter_eq_nil_iff.mpr fun a ha => by
      obtain ⟨m, -, rfl⟩ := List.mem_map.mp ha
      simp
  have hsent : (sent.map fun m => (⟨c, m, true⟩ : Attempt)).filter Attempt.sent =
      sent.map fun m => (⟨c, m, true⟩ : Attempt) :=
    List.filter_eq_self.mpr fun a ha => by
      obtain ⟨m, -, rfl⟩ := List.mem_map.mp ha
      rfl
  rw [List.filter_append, hsent, hfailed, List.append_nil]

theorem Sent.delivered {io : Io} {c i k : ℕ} {tech u : Tech} (h : Sent io c i k tech u) :
    u.delivered = tech.delivered ++ tech.session.outbound.contents.take k := by
  rw [Tech.delivered, h.wire, List.append_assoc, List.filter_append, delivered_attempts,
    List.map_append, List.map_map]
  exact congrArg _ (List.map_id _)

theorem Delivered.advance {io : Io} {c i k : ℕ} {tech u : Tech} (h : Delivered tech)
    (hs : Sent io c i k tech u) : Delivered u := by
  have hseq : u.session.seq = tech.session.seq := by rw [hs.session]
  constructor
  · constructor
    · rw [hs.history, hs.contents]
      exact Fifo.Conserved.drops (by rw [List.take_append_drop]; exact h.lawful.conserved)
    · rw [hs.drops, h.lawful.drops_eq, hs.history, Fifo.removedBy_append, Fifo.removedBy_drops]
      simp
  · obtain ⟨n, hn, hx⟩ := h.numbered
    refine ⟨n, ?_, hseq.trans hx⟩
    change (Fifo.offers u.session.outbound.history).filterMap _ = _
    rw [hs.history, Fifo.offers_append, Fifo.offers_drops, List.append_nil]
    exact hn
  · rw [hs.delivered, h.wire, hs.history, Fifo.removedBy_append, Fifo.removedBy_drops, if_pos rfl]
  · rw [hs.history, Fifo.removedBy_append, Fifo.removedBy_drops, h.unpopped]
    rfl

theorem Delivered.flush {tech : Tech} (h : Delivered tech) (io : Io) :
    Delivered (flushOutbound io tech) := by
  by_cases hoff : tech.ws = none ∨ tech.wsReady = false
  · rw [flushOutbound_off hoff]
    exact h
  · obtain ⟨hws, hready⟩ := not_or.mp hoff
    obtain ⟨c, hc⟩ := Option.ne_none_iff_exists'.mp hws
    obtain ⟨ms, x, hx, he, -⟩ := rtwSessionHarvestMarks_spec (io.env 0) tech.session
    have hh : Delivered (harvested io tech) := h.emits (by rw [hx]; exact he)
    obtain ⟨k, hk⟩ := flushOutbound_sent hc (by simpa using hready)
    exact hh.advance hk

theorem Delivered.step {tech : Tech} (h : Delivered tech) (op : DeliveryOp) :
    Delivered (delivery.step tech op) := by
  cases op with
  | session env op keeps =>
    obtain ⟨ms, x, he, -, hout⟩ := tech.session.step_out env op
    have htake : op.take x.1 = x.1 := by
      cases op with
      | popOutbound => cases keeps
      | dropOutboundHead => cases keeps
      | _ => rfl
    rw [htake] at hout
    exact h.emits (hout.symm ▸ he : Emits tech.session.out ms (tech.session.step (env, op)).out)
  | flush io => exact h.flush io
  | link ws wsReady => exact ⟨h.lawful, h.numbered, h.wire, h.unpopped⟩

theorem Delivered.start {tech : Tech} (hs : tech.session.Started) (hw : tech.wire = []) :
    Delivered tech := by
  obtain ⟨-, -, -, -, hlaw, hnum, -, -, hleft⟩ := hs.spec
  refine ⟨hlaw, hnum, ?_, hleft _ (by decide)⟩
  rw [Tech.delivered, hw, hleft _ (by decide)]
  rfl

/-- Numbers from one on increase as long as they do not wrap. -/
theorem numbers_increase {n : ℕ} (hn : n < 2 ^ 32) :
    ((List.range n).map fun i => UInt32.ofNat (i + 1)).Pairwise (· < ·) := by
  rw [List.pairwise_map]
  refine List.pairwise_lt_range.imp_of_mem fun {i j} hi hj hij => ?_
  have hi := List.mem_range.mp hi
  have hj := List.mem_range.mp hj
  have hsize : UInt32.size = 2 ^ 32 := rfl
  rw [UInt32.lt_iff_toNat_lt, UInt32.toNat_ofNat_of_lt' (by omega),
    UInt32.toNat_ofNat_of_lt' (by omega)]
  omega

/-- A flush sends the head of the queue each time, and a failed send leaves it there: the
messages logged as sent are those whose send succeeded, and the first send that fails ends the
flush. -/
def FlushesHead (io : Io) (tech : Tech) : Prop :=
  ∃ (c : ℕ) (sent : List OutMsg) (failed : Option OutMsg),
    (flushOutbound io tech).wire =
        tech.wire ++ sent.map (⟨c, ·, true⟩) ++ failed.toList.map (⟨c, ·, false⟩) ∧
      (∀ j < sent.length, io.sends j = true) ∧
      ∀ m ∈ failed, io.sends sent.length = false ∧
        (flushOutbound io tech).session.outbound.contents.head? = some m

theorem flushesHead (io : Io) (tech : Tech) : FlushesHead io tech := by
  by_cases hoff : tech.ws = none ∨ tech.wsReady = false
  · exact ⟨0, [], none, by simp [flushOutbound_off hoff], by simp, by simp⟩
  · obtain ⟨hws, hready⟩ := not_or.mp hoff
    obtain ⟨c, hc⟩ := Option.ne_none_iff_exists'.mp hws
    obtain ⟨k, hk⟩ := flushOutbound_sent hc (by simpa using hready)
    have hlen : ((harvested io tech).session.outbound.contents.take k).length = k :=
      List.length_take_of_le hk.le
    refine ⟨c, _, _, hk.wire, ?_, ?_⟩
    · intro j hj
      have hsend := hk.sends j (hlen ▸ hj)
      rwa [Nat.zero_add] at hsend
    · intro m hm
      have hlt : k < (harvested io tech).session.outbound.contents.length := by
        by_contra hall
        rw [List.drop_eq_nil_of_le (Nat.le_of_not_lt hall)] at hm
        cases hm
      have hstop := hk.stop hlt
      rw [Nat.zero_add] at hstop
      rw [hlen, hk.contents]
      exact ⟨hstop, hm⟩

/-- In every run from a started session each message pushed is sent once, evicted and
counted, or still queued; the wire carries what was dropped from the head, in push
order, and its sequence numbers increase while fewer than 2^32 were given out. -/
theorem delivery_conserved {tech : Tech} (hs : tech.session.Started) (hw : tech.wire = [])
    (ops : List DeliveryOp) :
    let t := delivery.run tech ops
    let h := t.session.outbound.history
    Fifo.Conserved h t.session.outbound.contents ∧
      Fifo.removedBy .popped h = [] ∧
      t.delivered = Fifo.removedBy .dropped h ∧
      t.session.outbound.drops = UInt64.ofNat (Fifo.removedBy .evicted h).length ∧
      t.delivered.Sublist (Fifo.pushes h) ∧
      (((Fifo.offers h).filterMap OutMsg.seq?).length < 2 ^ 32 →
        (t.delivered.filterMap OutMsg.seq?).Pairwise (· < ·)) ∧
      ∀ io, FlushesHead io t := by
  intro t h
  have hrun : Delivered t :=
    delivery.invariant (P := fun _ _ => True) (fun _ op _ h => h.step op) (.start hs hw)
      (delivery.along_of_forall (fun _ _ => trivial) tech ops)
  have hsub : t.delivered.Sublist (Fifo.pushes h) := by
    rw [hrun.wire]
    exact hrun.lawful.conserved.removedBy_sublist .dropped
  refine ⟨hrun.lawful.conserved, hrun.unpopped, hrun.wire, hrun.lawful.drops_eq, hsub, ?_,
    fun io => flushesHead io t⟩
  intro hfew
  obtain ⟨n, hn, -⟩ := hrun.numbered
  have hlt : n < 2 ^ 32 := by
    rw [show (Fifo.offers h).filterMap OutMsg.seq? = _ from hn] at hfew
    simpa using hfew
  have hseqs := (hsub.trans (Fifo.pushes_sublist_offers h)).filterMap OutMsg.seq?
  rw [show (Fifo.offers h).filterMap OutMsg.seq? = _ from hn] at hseqs
  exact (numbers_increase hlt).sublist hseqs

/-- A bridge whose queue holds one message. -/
def narrowTech : Tech :=
  openTech .calm (.copy _ demoSid) (.copy _ demoSid) 8000 1 (.boot 1 64 demoSid)

theorem delivery_conserved_narrow :
    let t := delivery.run narrowTech
      [.session .calm .rehandshake rfl, .flush .calm, .link none false,
        .session .calm .rehandshake rfl, .link (some 1) true, .flush .calm]
    let h := t.session.outbound.history
    Fifo.Conserved h t.session.outbound.contents ∧
      Fifo.removedBy .popped h = [] ∧
      t.delivered = Fifo.removedBy .dropped h ∧
      t.session.outbound.drops = UInt64.ofNat (Fifo.removedBy .evicted h).length ∧
      t.delivered.Sublist (Fifo.pushes h) ∧
      (((Fifo.offers h).filterMap OutMsg.seq?).length < 2 ^ 32 →
        (t.delivered.filterMap OutMsg.seq?).Pairwise (· < ·)) ∧
      ∀ io, FlushesHead io t := by
  have hs : narrowTech.session.Started := Session.boot_started 1 64 demoSid
  exact delivery_conserved hs rfl _

end RealtimeWs.Mod
