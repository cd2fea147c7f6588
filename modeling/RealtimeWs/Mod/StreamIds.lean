import RealtimeWs.Mod.Downlink
import RealtimeWs.Mod.World

/-! The stream id of a bridge: how it is made from the uuid of the call, and that nothing
the bridge does afterwards changes it. -/
namespace RealtimeWs.Mod

open RealtimeWs.Core

/-! ### Making the id -/

/-- The loop of `hex_compact`, with what it has written so far. -/
def hexLoop (outCap want : ℕ) : List UInt8 → List UInt8 → List UInt8
  | out, [] => out
  | out, c :: uuid =>
    if out.length + 1 < outCap ∧ out.length < want then
      hexLoop outCap want (if isxdigit c then out ++ [tolower c] else out) uuid
    else out

theorem hexLoop_eq (outCap want : ℕ) (out uuid : List UInt8)
    (h : out.length ≤ min want (outCap - 1)) :
    hexLoop outCap want out uuid =
      out ++ ((uuid.filter isxdigit).take (min want (outCap - 1) - out.length)).map tolower := by
  induction uuid generalizing out with
  | nil => rw [hexLoop, List.filter_nil, List.take_nil, List.map_nil, List.append_nil]
  | cons c uuid ih =>
    rw [hexLoop]
    by_cases hroom : out.length + 1 < outCap ∧ out.length < want
    · rw [if_pos hroom]
      by_cases hhex : isxdigit c = true
      · have hlen : (out ++ [tolower c]).length = out.length + 1 := by
          rw [List.length_append, List.length_singleton]
        have hleft : min want (outCap - 1) - out.length =
            min want (outCap - 1) - (out.length + 1) + 1 := by omega
        rw [if_pos hhex, ih _ (by omega), List.filter_cons_of_pos hhex, hlen, hleft,
          List.take_succ_cons, List.map_cons, List.append_assoc]
        rfl
      · rw [if_neg hhex, ih out h, List.filter_cons_of_neg hhex]
    · -- the buffer is full
      have hfull : min want (outCap - 1) - out.length = 0 := by omega
      rw [if_neg hroom, hfull, List.take_zero, List.map_nil, List.append_nil]

/-- What the loop writes, filled up with zeros. -/
theorem hexCompact_loop (uuid : Option CStr) (outCap want : ℕ) :
    hexCompact uuid outCap want =
      hexLoop outCap want [] ((uuid.map fun u => u.bytes).getD []) ++
        .replicate (min want (outCap - 1) -
          (hexLoop outCap want [] ((uuid.map fun u => u.bytes).getD [])).length) 48 := by
  rw [hexLoop_eq _ _ _ _ (Nat.zero_le _)]
  cases uuid with
  | none => simp [hexCompact]
  | some u => rfl

/-- The stream id `rtw_bridge_start` makes from the uuid of the call. -/
def startSid (uuid : Option CStr) : CBuf RTW_SID_MAX :=
  makeStreamSid (some (CBuf.copy RTW_SID_MAX (uuid.getD (.lit "unknown"))).toCStr)

/-- The hexadecimal digits among the first 63 bytes of the uuid, in lower case. -/
def foldedDigits (uuid : Option CStr) : List UInt8 :=
  (((uuid.getD (.lit "unknown")).bytes.take 63).filter isxdigit).map tolower

/-- A call without a uuid has none. -/
example : foldedDigits none = [] := by decide

/-- `[0-9a-f]` -/
def lowerHex (c : UInt8) : Prop :=
  (48 ≤ c.toNat ∧ c.toNat ≤ 57) ∨ (97 ≤ c.toNat ∧ c.toNat ≤ 102)

theorem lowerHex_tolower {c : UInt8} (h : isxdigit c = true) : lowerHex (tolower c) := by
  have hranges : (48 ≤ c.toNat ∧ c.toNat ≤ 57) ∨ (65 ≤ c.toNat ∧ c.toNat ≤ 70) ∨
      (97 ≤ c.toNat ∧ c.toNat ≤ 102) := by
    simpa [isxdigit, isDigit, or_assoc] using h
  unfold tolower lowerHex
  by_cases hupper : 65 ≤ c.toNat ∧ c.toNat ≤ 90
  · have hadd : (c + 32).toNat = c.toNat + 32 := by
      rw [UInt8.toNat_add]
      exact Nat.mod_eq_of_lt (by have : (32 : UInt8).toNat = 32 := rfl; omega)
    rw [if_pos hupper, hadd]
    omega
  · rw [if_neg hupper]
    omega

theorem lowerHex_foldedDigits (uuid : Option CStr) (i : ℕ) :
    lowerHex ((foldedDigits uuid).getD i 48) := by
  by_cases hi : i < (foldedDigits uuid).length
  · rw [List.getD_eq_getElem _ _ hi]
    obtain ⟨c, hc, hlower⟩ := List.mem_map.mp (List.getElem_mem hi)
    rw [← hlower]
    exact lowerHex_tolower (List.mem_filter.mp hc).2
  · rw [List.getD_eq_default _ _ (Nat.not_lt.mp hi)]
    exact Or.inl (by decide)

/-- Position by position: the digits, and zeros behind them. -/
theorem hexCompact_digits (uuid : Option CStr) :
    hexCompact (some (CBuf.copy RTW_SID_MAX (uuid.getD (.lit "unknown"))).toCStr) 33 32 =
      (List.range 32).map fun i => (foldedDigits uuid).getD i 48 := by
  have hcut : (CBuf.copy RTW_SID_MAX (uuid.getD (.lit "unknown"))).bytes =
      (uuid.getD (.lit "unknown")).bytes.take 63 := rfl
  have hfilled : hexCompact (some (CBuf.copy RTW_SID_MAX (uuid.getD (.lit "unknown"))).toCStr)
      33 32 = (foldedDigits uuid).take 32 ++
        .replicate (32 - ((foldedDigits uuid).take 32).length) 48 := by
    unfold hexCompact foldedDigits
    dsimp only
    rw [hcut, List.map_take]
    rfl
  rw [hfilled]
  apply List.ext_getElem
  · rw [List.length_append, List.length_replicate, List.length_take, List.length_map,
      List.length_range]
    omega
  · intro i h₁ h₂
    rw [List.length_map, List.length_range] at h₂
    rw [List.getElem_map, List.getElem_range]
    by_cases hi : i < (foldedDigits uuid).length
    · have hleft : i < ((foldedDigits uuid).take 32).length := by
        rw [List.length_take]
        omega
      rw [List.getElem_append_left hleft, List.getElem_take,
        List.getD_eq_getElem _ _ hi]
    · have hright : ((foldedDigits uuid).take 32).length ≤ i := by
        rw [List.length_take]
        omega
      rw [List.getElem_append_right hright, List.getElem_replicate,
        List.getD_eq_default _ _ (Nat.not_lt.mp hi)]

/-- `MZ` and 32 digits. -/
theorem startSid_bytes (uuid : Option CStr) : (startSid uuid).bytes =
    ascii "MZ" ++ (List.range 32).map fun i => (foldedDigits uuid).getD i 48 := by
  have hnul : 0 ∉ ascii "MZ" ++ (List.range 32).map fun i => (foldedDigits uuid).getD i 48 := by
    intro hmem
    rcases List.mem_append.mp hmem with hmem | hmem
    · revert hmem
      decide
    · obtain ⟨i, -, hi⟩ := List.mem_map.mp hmem
      have hlower := lowerHex_foldedDigits uuid i
      rw [hi] at hlower
      revert hlower
      unfold lowerHex
      decide
  have hbytes : (CStr.ofBytes (ascii "MZ" ++
      (List.range 32).map fun i => (foldedDigits uuid).getD i 48)).bytes = _ :=
    CStr.ofBytes_of_noNul hnul
  unfold startSid makeStreamSid
  rw [hexCompact_digits, CBuf.copy_bytes, hbytes]
  rw [hbytes, List.length_append, List.length_map, List.length_range]
  decide

/-- The id is that of every uuid with the same first 32 digits. -/
theorem startSid_eq_iff (uuid uuid' : Option CStr) : startSid uuid = startSid uuid' ↔
    ∀ i < 32, (foldedDigits uuid).getD i 48 = (foldedDigits uuid').getD i 48 := by
  have hbytes : startSid uuid = startSid uuid' ↔ (startSid uuid).bytes = (startSid uuid').bytes :=
    ⟨fun h => by rw [h], CBuf.ext⟩
  rw [hbytes, startSid_bytes, startSid_bytes, List.append_cancel_left_eq, List.map_inj_left]
  simp only [List.mem_range]

/-! ### Keeping the id -/

/-- The bridge and its session carry this id. -/
structure Named (sid : CBuf RTW_SID_MAX) (tech : Tech) : Prop where
  own : tech.streamSid = sid
  session : tech.session.streamSid = sid

variable {sid : CBuf RTW_SID_MAX}

theorem Named.withSession {tech : Tech} (h : Named sid tech) {s : Session}
    (hs : s.streamSid = tech.session.streamSid) : Named sid { tech with session := s } :=
  ⟨h.own, hs.trans h.session⟩

theorem streamSid_spared : Spared Session.streamSid := fun _ _ _ _ _ => rfl

theorem streamSid_harvestMarks (env : Env) (s : Session) :
    (rtwSessionHarvestMarks env s).streamSid = s.streamSid :=
  streamSid_spared.harvest (fun _ _ => rfl) env s

theorem Named.flushOutbound {tech : Tech} (h : Named sid tech) (io : Io) :
    Named sid (flushOutbound io tech) := by
  by_cases hoff : tech.ws = none ∨ tech.wsReady = false
  · rwa [flushOutbound_off hoff]
  · obtain ⟨hws, hready⟩ := not_or.mp hoff
    obtain ⟨c, hc⟩ := Option.ne_none_iff_exists'.mp hws
    obtain ⟨k, hk⟩ : ∃ k, Sent io c 0 k (harvested io tech) (Mod.flushOutbound io tech) :=
      flushOutbound_sent hc (by simpa using hready)
    constructor
    · rw [flushOutbound_rest]
      exact h.own
    · rw [hk.session]
      exact (streamSid_harvestMarks (io.env 0) tech.session).trans h.session

theorem Named.handleAndFlush {tech : Tech} (h : Named sid tech) (io : Io) (text : CStr) :
    Named sid (handleAndFlush io tech text) := by
  have hsid := handlePeerJson_streamSid (io.env 0) tech.session text
  exact (h.withSession hsid).flushOutbound io.tail

theorem Named.silent {t u : Tech} (h : Named sid t) (hrest : Silent t u)
    (hs : u.session.streamSid = t.session.streamSid) : Named sid u := by
  constructor
  · rw [hrest.rest]
    exact h.own
  · exact hs.trans h.session

theorem streamSid_holdSamples (io : Io) (i : ℕ) (samples : List Int16) (t : Tech) :
    (holdSamples io i samples t).session.streamSid = t.session.streamSid := by
  induction samples generalizing i t with
  | nil => rfl
  | cons sample samples ih =>
    refine (ih (i + 1) _).trans ?_
    unfold holdSample
    split
    · obtain ⟨ms, -, -, -, hsame⟩ :=
        rtwSessionPushPcm16_spec (io.env i) t.session ((heldWith t sample).take 160)
      exact hsame.streamSid
    · rfl

theorem Named.onRead {tech : Tech} (h : Named sid tech) (io : Io) (pcm : List Int16) :
    Named sid (rtwBridgeOnReadPcm16 io tech pcm) := by
  refine h.silent (silent_onRead io tech pcm) ?_
  unfold rtwBridgeOnReadPcm16
  split_ifs
  · rfl
  · rfl
  · exact streamSid_holdSamples io 0 _ tech
  · exact streamSid_holdSamples io 0 _ tech

theorem Named.onWrite {tech : Tech} (h : Named sid tech) (io : Io) (n : ℕ) :
    Named sid (rtwBridgeOnWritePcm16 io tech n).2 := by
  refine h.silent (silent_onWrite io tech n) ?_
  unfold rtwBridgeOnWritePcm16
  split_ifs
  · rfl
  · rfl
  · exact (takePlayout_spec (io.env 0) tech _).2.2.streamSid

theorem Named.applyWrite {tech : Tech} (h : Named sid tech) (io : Io) (pcm : List Int16) :
    Named sid (rtwBridgeApplyWriteFrame io tech pcm).2 := by
  refine h.silent (silent_applyWrite io tech pcm) ?_
  have htake := (takePlayout_spec (io.env 0) tech (writeWant pcm.length)).2.2.streamSid
  unfold rtwBridgeApplyWriteFrame
  split_ifs
  · rfl
  · rfl
  · simp only
    split
    · exact htake
    · cases tech.injectMode <;> exact htake

theorem Named.clear {tech : Tech} (h : Named sid tech) (io : Io) :
    Named sid (rtwBridgeClear io tech).2 := by
  unfold rtwBridgeClear
  split_ifs
  · exact h
  · exact h
  · exact h.handleAndFlush io _

theorem Named.sendMark {tech : Tech} (h : Named sid tech) (io : Io) (name : CStr) :
    Named sid (rtwBridgeSendMark io tech name).2 := by
  unfold rtwBridgeSendMark
  split_ifs
  · exact h
  · exact h
  · exact h.handleAndFlush io _

theorem Named.stopFinish {tech : Tech} (h : Named sid tech) (io : Io) :
    Named sid (bridgeStopFinish io tech) := by
  have hflush : ∀ t : Tech, Named sid t → ∀ ws ready, Named sid { t with ws, wsReady := ready } :=
    fun _ ht _ _ => ⟨ht.own, ht.session⟩
  unfold bridgeStopFinish
  dsimp only
  split
  · have hstopped : Named sid { tech with
        session := (rtwSessionStop (io.env 0) tech.session).2
        wsReady := tech.ws.isSome || tech.wsReady } :=
      ⟨h.own, (streamSid_spared.stop (fun _ _ => rfl) (io.env 0) tech.session).trans h.session⟩
    exact hflush _ (hstopped.flushOutbound io.tail) _ _
  · exact hflush _ h _ _

/-- Every step of the bridge keeps the id. -/
theorem Named.step {w : World} (h : Named sid w.tech) (e : WorldEvent) :
    Named sid (w.step e).tech := by
  have hsame : ∀ t : Tech, t.streamSid = w.tech.streamSid →
      t.session.streamSid = w.tech.session.streamSid → Named sid t :=
    fun t hown hs => ⟨hown.trans h.own, hs.trans h.session⟩
  cases e with
  | onRead io pcm =>
    simp only [World.step]
    split
    · exact h
    · exact h.onRead io pcm
  | onWrite io n =>
    simp only [World.step]
    split
    · exact h
    · exact h.onWrite io n
  | applyWrite io pcm =>
    simp only [World.step]
    split
    · exact h
    · exact h.applyWrite io pcm
  | clear io =>
    simp only [World.step]
    split
    · exact h
    · exact h.clear io
  | sendMark io name =>
    simp only [World.step]
    split
    · exact h
    · exact h.sendMark io name
  | pause io on =>
    simp only [World.step]
    split
    · exact h
    · refine h.silent (silent_pause io w.tech on) ?_
      unfold rtwBridgePause
      split_ifs <;> rfl
  | closeRequest =>
    simp only [World.step]
    split
    · exact h
    · exact hsame _ rfl rfl
  | stopRequest =>
    simp only [World.step]
    split
    · exact h
    · exact hsame _ rfl rfl
  | stopFinish io =>
    simp only [World.step]
    split
    · exact h.stopFinish io
    · exact h
  | wsText io text =>
    simp only [World.step, World.workerStep]
    split
    · unfold onWsText
      dsimp only
      split_ifs
      · exact h
      · exact h
      · exact h.handleAndFlush io text
    · exact h
  | wsClose =>
    simp only [World.step, World.workerStep]
    split
    · exact hsame _ rfl rfl
    · exact h
  | flush io =>
    simp only [World.step, World.workerStep]
    split
    · split
      · exact h.flushOutbound io
      · exact h
    · exact h
  | beginReconnect =>
    simp only [World.step, World.workerStep]
    split
    · have hdown : Named sid { w.tech with wsReady := false } := hsame _ rfl rfl
      rcases reconnectBegin_cases { w.tech with wsReady := false } with hnone | ⟨wait, hsome⟩
      · rw [hnone]
        exact hdown
      · rw [hsome]
        exact ⟨hdown.own, hdown.session⟩
    · exact h
  | check =>
    simp only [World.step, World.workerStep]
    split
    · split
      · exact hsame _ rfl rfl
      · exact hsame _ rfl rfl
    · exact h
  | connect ok =>
    simp only [World.step, World.workerStep]
    split
    · cases ok <;> exact hsame _ rfl rfl
    · exact h
  | rehandshake io =>
    simp only [World.step, World.workerStep]
    split
    · unfold reconnectHandshake
      dsimp only
      split
      · have hsid := streamSid_spared.rehandshake (io.env 0) w.tech.session
        exact (h.withSession hsid).flushOutbound io.tail
      · exact h
    · exact h
  | polled | leave | wake | closeOld | finish =>
    simp only [World.step, World.workerStep]
    split
    · exact hsame _ rfl rfl
    · exact h

theorem Named.run {w : World} (h : Named sid w.tech) (es : List WorldEvent) :
    Named sid (world.run w es).tech :=
  world.invariant (P := fun _ _ => True) (J := fun w => Named sid w.tech)
    (fun _ e _ h => h.step e) h (world.along_of_forall (fun _ _ => trivial) w es)

/-- A bridge starts under the id of its call's uuid. -/
theorem rtwBridgeStart_named {printNumber : List UInt8 → List UInt8} {io : StartIo}
    {uuid metadata : Option CStr} {sampling channels : ℤ} {tech : Tech}
    (h : rtwBridgeStart printNumber io uuid sampling channels metadata = some tech) :
    Named (startSid uuid) tech := by
  unfold rtwBridgeStart at h
  by_cases hrate : sampling ≠ 8000 ∧ sampling ≠ 16000 ∧ sampling.tmod 8000 ≠ 0
  · rw [if_pos hrate] at h
    cases h
  rw [if_neg hrate] at h
  cases hinit : rtwSessionInit io.queueOk io.playoutOk 256 (64 * 1024) with
  | none =>
    simp only [hinit] at h
    cases h
  | some s₀ =>
    simp only [hinit] at h
    split_ifs at h with hstart
    have hsid : ∀ callSid accountSid custom,
        (rtwSessionStart io.start s₀ (startSid uuid).toCStr callSid accountSid custom).2.streamSid =
          startSid uuid := by
      intro callSid accountSid custom
      unfold rtwSessionStart
      dsimp only
      split
      · exact CBuf.copy_toCStr _
      · split
        · exact (streamSid_spared.handshake _ _).trans (CBuf.copy_toCStr _)
        · exact (streamSid_spared.handshake _ _).trans (CBuf.copy_toCStr _)
    cases h
    refine Named.flushOutbound ?_ io.flush
    exact ⟨rfl, hsid _ _ _⟩

end RealtimeWs.Mod
