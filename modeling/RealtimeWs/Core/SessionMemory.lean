import RealtimeWs.Core.QueueMemory

/-! The memory of a session: its queue, its playout buffer and its custom parameters, and what
its calls take and give back on the way. `allocs i` is what the builder of the `i`-th message is
granted beside its text. -/
namespace RealtimeWs.Core

open Ledger

structure SessionMem where
  customParams : Option Pointer
  outbound : QueueMem
  buf : Pointer

def SessionMem.owned (m : SessionMem) : Multiset Pointer :=
  held m.customParams + m.outbound.owned + {m.buf}

/-- The memory of the session `s`. -/
structure SessionMem.Mirrors (m : SessionMem) (s : Session) : Prop where
  customParams : m.customParams.isSome = s.customParams.isSome
  outbound : m.outbound.Mirrors s.outbound

/-- The text of the message is built. -/
def EnqueueOutcome.builds : EnqueueOutcome → Bool
  | .noJson => false
  | _ => true

/-- What a builder is granted beside its text: the first `made` of what it makes in front of the
items, if it ends without a text. The rest are requests of `rtw_build_start`, which looks at none
of them: the items `start` and `tracks`, the string in `tracks`, the parse of the custom parameters
and the key they are added under. -/
structure BuildAllocs where
  made : ℕ
  start : Bool
  tracks : Bool
  inbound : Bool
  parse : Bool
  key : Bool

def BuildAllocs.plenty : BuildAllocs := ⟨0, true, true, true, true, true⟩

/-- Whatever is made for the message has a place in it. -/
def BuildAllocs.attaches (b : BuildAllocs) : Bool := b.start && b.tracks && b.key

namespace Mem

/-! ### Messages -/

/-- The end of every builder: `cJSON_PrintUnformatted`, then `cJSON_Delete`. -/
def printTree (o : EnqueueOutcome) (trees : List Pointer) : Heap (Option Pointer) := do
  let out ← acquire o.builds .block
  releaseAll trees
  return out

/-- A builder whose tree is all it allocates. -/
def buildTree (o : EnqueueOutcome) (b : BuildAllocs) : Heap (Option Pointer) := do
  match ← acquire (o.builds || 0 < b.made) .tree with
  | none => return none
  | some root => printTree o [root]

def rtwBuildConnected (o : EnqueueOutcome) (b : BuildAllocs) : Heap (Option Pointer) :=
  buildTree o b

def rtwBuildMark (o : EnqueueOutcome) (b : BuildAllocs) : Heap (Option Pointer) :=
  buildTree o b

def rtwBuildStop (o : EnqueueOutcome) (b : BuildAllocs) : Heap (Option Pointer) :=
  buildTree o b

/-- The custom parameters are parsed into a tree of their own, which joins the message if it
is an object. `trees` is what the message consists of so far. -/
def addCustomParameters (o : EnqueueOutcome) (b : BuildAllocs) (customParams : Option CStr)
    (trees : List Pointer) : Heap (Option Pointer) := do
  match customParams.filter fun c => c.bytes ≠ [] with
  | none => printTree o trees
  | some text =>
    match ← acquire ((cJSONParse text).isSome && b.parse) .tree with
    | none => printTree o trees
    | some custom =>
      match cJSONParse text with
      | some (.object _) =>
        -- without `start` or the key the tree is added nowhere, and nobody deletes it
        if b.start && b.key then printTree o (custom :: trees) else printTree o trees
      | _ => do
        release custom
        printTree o trees

/-- An item that is refused is left out of the message, which is printed all the same. -/
def rtwBuildStart (o : EnqueueOutcome) (b : BuildAllocs) (customParams : Option CStr) :
    Heap (Option Pointer) := do
  match ← acquire (o.builds || 0 < b.made) .tree with
  | none => return none
  | some root => do
    let inbound ← acquire b.inbound .tree
    -- without `tracks` the string is added nowhere, and nobody deletes it
    if b.start && b.tracks then addCustomParameters o b customParams (inbound.toList ++ [root])
    else addCustomParameters o b customParams [root]

/-- `encodes` is whether the payload has a base64 text. -/
def rtwBuildMedia (o : EnqueueOutcome) (b : BuildAllocs) (encodes : Bool) :
    Heap (Option Pointer) := do
  match ← acquire (o.builds || 0 < b.made) .block with
  | none => return none
  | some b64 =>
    if encodes = false then do
      release b64
      return none
    else
      match ← acquire (o.builds || 1 < b.made) .tree with
      | none => do
        release b64
        return none
      | some root => do
        use b64
        release b64
        printTree o [root]

def enqueueJson (o : EnqueueOutcome) (json : Option Pointer) (m : SessionMem) :
    Heap (ℤ × SessionMem) := do
  match json with
  | none => return (-1, m)
  | some json =>
    use json
    let r ← rtwQueuePush (o = .stored) m.outbound
    release json
    return (r.1, { m with outbound := r.2 })

/-! ### Start and end -/

def rtwPlayoutInit (mallocOk : Bool) (capacityBytes : ℕ) : Heap (Option Pointer) :=
  if 0 < capacityBytes then acquire mallocOk .block else return none

def rtwPlayoutDestroy (buf : Pointer) : Heap Unit := release buf

def rtwSessionInit (queueOk playoutOk : Bool) (outQueueCap playoutCap : ℕ) :
    Heap (Option SessionMem) := do
  match ← rtwQueueInit queueOk (if outQueueCap ≠ 0 then outQueueCap else 64) with
  | none => return none
  | some outbound =>
    match ← rtwPlayoutInit playoutOk (if playoutCap ≠ 0 then playoutCap else 8 * 8000) with
    | none => do
      rtwQueueDestroy outbound
      return none
    | some buf => return some ⟨none, outbound, buf⟩

def rtwSessionDestroy (m : SessionMem) : Heap Unit := do
  release? m.customParams
  rtwQueueDestroy m.outbound
  rtwPlayoutDestroy m.buf

def enqueueHandshake (env : Env) (allocs : ℕ → BuildAllocs) (customParams : Option CStr)
    (m : SessionMem) : Heap (ℤ × SessionMem) := do
  let connected ← rtwBuildConnected (env.enqueue 0) (allocs 0)
  let r ← enqueueJson (env.enqueue 0) connected m
  if r.1 ≠ 0 then return (-1, r.2)
  else do
    let start ← rtwBuildStart (env.enqueue 1) (allocs 1) customParams
    let r ← enqueueJson (env.enqueue 1) start r.2
    return (if r.1 ≠ 0 then -1 else 0, r.2)

/-- The copy of the custom parameters takes the place of an older one. -/
def rtwSessionStart (env : Env) (allocs : ℕ → BuildAllocs) (m : SessionMem)
    (customParamsJson : Option CStr) : Heap (ℤ × SessionMem) := do
  release? m.customParams
  match customParamsJson.filter fun c => c.bytes ≠ [] with
  | none => enqueueHandshake env allocs none { m with customParams := none }
  | some custom =>
    match ← acquire env.buffer .block with
    | none => return (-1, { m with customParams := none })
    | some copy => enqueueHandshake env allocs (some custom) { m with customParams := some copy }

def rtwSessionStop (env : Env) (allocs : ℕ → BuildAllocs) (s : Session) (m : SessionMem) :
    Heap (ℤ × SessionMem) :=
  if s.state = .stopped ∨ s.state = .idle then return (-1, m)
  else do
    let stop ← rtwBuildStop (env.enqueue 0) (allocs 0)
    let r ← enqueueJson (env.enqueue 0) stop m
    return (if r.1 ≠ 0 then -1 else 0, r.2)

def rtwSessionRehandshake (env : Env) (allocs : ℕ → BuildAllocs) (s : Session) (m : SessionMem) :
    Heap (ℤ × SessionMem) :=
  if s.state ≠ .running then return (-1, m) else enqueueHandshake env allocs s.customParams m

/-! ### Audio, events and marks -/

def pushFrames (env : Env) (allocs : ℕ → BuildAllocs) :
    ℕ → ℕ → List Int16 → SessionMem → Heap SessionMem
  | 0, _, _, m => return m
  | n + 1, i, pcm, m => do
    let mulaw := rtwPcm16ToMulaw (pcm.take RTW_FRAME_MULAW_BYTES)
    let json ← rtwBuildMedia (env.enqueue i) (allocs i)
      (rtwBase64Encode mulaw (rtwBase64EncodedLen mulaw.length) ≠ [])
    let r ← enqueueJson (env.enqueue i) json m
    if r.1 ≠ 0 then return r.2
    else pushFrames env allocs n (i + 1) (pcm.drop RTW_FRAME_MULAW_BYTES) r.2

def rtwSessionPushPcm16 (env : Env) (allocs : ℕ → BuildAllocs) (s : Session) (pcm : List Int16)
    (m : SessionMem) : Heap SessionMem :=
  if s.state ≠ .running ∨ s.paused then return m
  else pushFrames env allocs (pcm.length / RTW_FRAME_MULAW_BYTES) 0 pcm m

/-- Every way out of the function behind the parse deletes the tree. -/
def rtwParseInbound (json : CStr) (payload : Pointer) (payloadCap : ℕ) :
    Heap (Option InboundEvent) := do
  match ← acquire (cJSONParse json).isSome .tree with
  | none => return none
  | some root => do
    use payload
    release root
    return Core.rtwParseInbound json payloadCap

/-- Acknowledgements of a clear, `n` of them. -/
def flushAcks (env : Env) (allocs : ℕ → BuildAllocs) : ℕ → ℕ → SessionMem → Heap SessionMem
  | _, 0, m => return m
  | i, n + 1, m => do
    let ack ← rtwBuildMark (env.enqueue i) (allocs i)
    let r ← enqueueJson (env.enqueue i) ack m
    if r.1 ≠ 0 then return r.2 else flushAcks env allocs (i + 1) n r.2

/-- Acknowledgements of a harvest, `n` of them. -/
def harvestAcks (env : Env) (allocs : ℕ → BuildAllocs) : ℕ → ℕ → SessionMem → Heap SessionMem
  | _, 0, m => return m
  | i, n + 1, m => do
    let ack ← rtwBuildMark (env.enqueue i) (allocs i)
    let r ← enqueueJson (env.enqueue i) ack m
    harvestAcks env allocs (i + 1) n r.2

def handleEvent (env : Env) (allocs : ℕ → BuildAllocs) (s : Session) (ev : InboundEvent)
    (payload : Pointer) (m : SessionMem) : Heap SessionMem := do
  match ev.type with
  | .media => do
    use payload
    use m.buf
    return m
  | .clear => flushAcks env allocs 0 (rtwPlayoutClear s.playout RTW_MARK_MAX).1.length m
  | _ => return m

def rtwSessionHandlePeerJson (env : Env) (allocs : ℕ → BuildAllocs) (s : Session) (json : CStr)
    (m : SessionMem) : Heap SessionMem :=
  if s.state ≠ .running then return m
  else do
    match ← acquire env.buffer .block with
    | none => return m
    | some payload =>
      match ← rtwParseInbound json payload PAYLOAD_CAP with
      | none => do
        release payload
        return m
      | some ev =>
        if ev.streamSid.bytes ≠ [] ∧ ev.streamSid ≠ s.streamSid then do
          release payload
          return m
        else do
          let m ← handleEvent env allocs s ev payload m
          release payload
          return m

def rtwSessionHarvestMarks (env : Env) (allocs : ℕ → BuildAllocs) (s : Session) (m : SessionMem) :
    Heap SessionMem :=
  harvestAcks env allocs 0 (rtwPlayoutPopCompletedMarks s.playout HARVEST_MAX).1.length m

def rtwSessionPeekOutbound (env : Env) (allocs : ℕ → BuildAllocs) (s : Session) (m : SessionMem) :
    Heap (Option Pointer × SessionMem) := do
  let m ← rtwSessionHarvestMarks env allocs s m
  let head ← rtwQueuePeek m.outbound
  return (head, m)

def rtwSessionDropOutboundHead (m : SessionMem) : Heap (ℤ × SessionMem) := do
  let r ← rtwQueueDropHead m.outbound
  return (r.1, { m with outbound := r.2 })

def rtwSessionReadPlayout (m : SessionMem) : Heap Unit := use m.buf

end Mem

variable {L : Pointer → Prop}

theorem BuildAllocs.attaches_iff (b : BuildAllocs) :
    b.attaches = true ↔ b.start = true ∧ b.tracks = true ∧ b.key = true := by
  unfold BuildAllocs.attaches
  rw [Bool.and_eq_true, Bool.and_eq_true, and_assoc]

/-- A message that lacks a place for something it made may lose trees. -/
def MayLose (L : Pointer → Prop) (attaches : Bool) : Prop :=
  attaches = false → ∀ p : Pointer, p.kind = .tree → L p

theorem SessionMem.Mirrors.of_eq {m : SessionMem} {s s' : Session} (h : m.Mirrors s)
    (hcustom : s'.customParams = s.customParams) (hqueue : s'.outbound = s.outbound) :
    m.Mirrors s' := by
  constructor
  · rw [hcustom]
    exact h.customParams
  · rw [hqueue]
    exact h.outbound

theorem buf_mem_owned (m : SessionMem) : m.buf ∈ m.owned :=
  Multiset.mem_add.mpr (Or.inr (Multiset.mem_singleton_self _))

theorem outbound_le_owned {m : SessionMem} {p : Pointer} (h : p ∈ m.outbound.owned) :
    p ∈ m.owned :=
  Multiset.mem_add.mpr (Or.inl (Multiset.mem_add.mpr (Or.inr h)))

/-! ### Messages -/

theorem printTree_accounts (o : EnqueueOutcome) (trees : List Pointer) :
    Accounts L (trees : Multiset Pointer) (Mem.printTree o trees)
      (fun r => r.isSome = o.builds) held := by
  unfold Mem.printTree
  refine (Accounts.acquire o.builds Resource.block).bind (zero_add _).symm fun out hout => ?_
  exact Accounts.releaseAll_bind (add_comm _ _) (Accounts.pure hout rfl)

private theorem builds_of_refused {o : EnqueueOutcome} {b : Bool} (h : (o.builds || b) = false) :
    o.builds = false := (Bool.or_eq_false_iff.mp h).1

theorem buildTree_accounts (o : EnqueueOutcome) (b : BuildAllocs) :
    Accounts L 0 (Mem.buildTree o b) (fun r => r.isSome = o.builds) held := by
  unfold Mem.buildTree
  refine Accounts.acquire_bind (fun hno => ?_) fun _ root => ?_
  · exact Accounts.pure (builds_of_refused hno).symm rfl
  · exact (printTree_accounts o [root]).of_eq (add_zero _)

theorem addCustomParameters_accounts (o : EnqueueOutcome) {b : BuildAllocs}
    (hL : MayLose L b.attaches) (customParams : Option CStr) (trees : List Pointer) :
    Accounts L (trees : Multiset Pointer) (Mem.addCustomParameters o b customParams trees)
      (fun r => r.isSome = o.builds) held := by
  unfold Mem.addCustomParameters
  cases customParams.filter fun c => c.bytes ≠ [] with
  | none => exact printTree_accounts o trees
  | some text =>
    refine (Accounts.acquire_kind ((cJSONParse text).isSome && b.parse) Resource.tree).bind
      (zero_add _).symm fun custom hcustom => ?_
    cases custom with
    | none => exact (printTree_accounts o trees).of_eq (zero_add _)
    | some custom =>
      have hdelete : Accounts L ({custom} + (trees : Multiset Pointer)) (do
          release custom
          Mem.printTree o trees) (fun r => r.isSome = o.builds) held :=
        Accounts.release_bind rfl (printTree_accounts o trees)
      rw [held_some]
      cases cJSONParse text with
      | none => exact hdelete
      | some json =>
        cases json with
        | object members =>
          dsimp only
          split_ifs with hplace
          · exact (printTree_accounts o (custom :: trees)).of_eq (Multiset.singleton_add _ _)
          · refine (printTree_accounts o trees).lose fun p hp => ?_
            rw [Multiset.mem_singleton.mp hp]
            refine hL (Bool.eq_false_iff.mpr fun hall => hplace ?_) custom (hcustom.2 custom rfl)
            obtain ⟨hstart, -, hkey⟩ := b.attaches_iff.mp hall
            rw [hstart, hkey]
            rfl
        | _ => exact hdelete

theorem rtwBuildStart_accounts (o : EnqueueOutcome) {b : BuildAllocs} (hL : MayLose L b.attaches)
    (customParams : Option CStr) :
    Accounts L 0 (Mem.rtwBuildStart o b customParams) (fun r => r.isSome = o.builds) held := by
  unfold Mem.rtwBuildStart
  refine Accounts.acquire_bind (fun hno => ?_) fun _ root => ?_
  · exact Accounts.pure (builds_of_refused hno).symm rfl
  refine (Accounts.acquire_kind b.inbound Resource.tree).bind (R := {root}) ?_
    fun inbound hinbound => ?_
  · abel
  split_ifs with hplace
  · refine (addCustomParameters_accounts o hL customParams (inbound.toList ++ [root])).of_eq ?_
    rw [← Multiset.coe_add]
    rfl
  · refine Accounts.lose (addCustomParameters_accounts o hL customParams [root]) fun p hp => ?_
    have hp : p ∈ inbound := by simpa [held] using hp
    refine hL (Bool.eq_false_iff.mpr fun hall => hplace ?_) p (hinbound.2 p hp)
    obtain ⟨hstart, htracks, -⟩ := b.attaches_iff.mp hall
    rw [hstart, htracks]
    rfl

/-- A `start` item that is refused: the text is there, and beside it the two trees that were to
go into the item. -/
example : (Mem.rtwBuildStart .stored { BuildAllocs.plenty with start := false }
    (some (.lit "\x7b\x7d")) .empty).2.live = {⟨.tree, 1⟩, ⟨.tree, 2⟩, ⟨.block, 3⟩} := by
  decide +kernel

theorem rtwBuildMedia_accounts (o : EnqueueOutcome) (b : BuildAllocs) (encodes : Bool) :
    Accounts L 0 (Mem.rtwBuildMedia o b encodes) (fun r => r.isSome = (o.builds && encodes))
      held := by
  unfold Mem.rtwBuildMedia
  refine Accounts.acquire_bind (fun hno => ?_) fun _ b64 => ?_
  · rw [builds_of_refused hno]
    exact Accounts.pure rfl rfl
  cases encodes with
  | false =>
    refine Accounts.release_bind rfl (Accounts.pure ?_ rfl)
    rw [Bool.and_false]
    rfl
  | true =>
    rw [Bool.and_true]
    refine Accounts.acquire_bind (fun hno => ?_) fun _ root => ?_
    · exact Accounts.release_bind rfl (Accounts.pure (builds_of_refused hno).symm rfl)
    · refine Accounts.use_bind (by simp) (Accounts.release_bind (R := {root}) ?_ ?_)
      · abel
      · exact printTree_accounts o [root]

variable {m : SessionMem} {s : Session} {o : EnqueueOutcome} {text : Option OutMsg}

/-- What `enqueue_json` is given it frees, whatever becomes of the message. -/
theorem enqueueJson_accounts (h : m.Mirrors s) {json : Option Pointer}
    (hjson : json.isSome = (o.builds && text.isSome)) :
    Accounts L (held json + m.owned) (Mem.enqueueJson o json m)
      (fun r => r.1 = (enqueueJson o s text).1 ∧ r.2.Mirrors (enqueueJson o s text).2)
      (fun r => r.2.owned) := by
  unfold Mem.enqueueJson
  cases json with
  | none =>
    refine Accounts.pure ?_ (zero_add _).symm
    cases text with
    | none => exact ⟨rfl, h⟩
    | some a =>
      cases o with
      | noJson => exact ⟨rfl, h.customParams, h.outbound.size, h.outbound.capacity⟩
      | _ => cases hjson
  | some p =>
    cases text with
    | none =>
      rw [Option.isSome_none, Bool.and_false] at hjson
      cases hjson
    | some a =>
      have hdata : enqueueJson o s (some a) =
          ((rtwQueuePush (decide (o = .stored)) s.outbound a).1,
            { s with outbound := (rtwQueuePush (decide (o = .stored)) s.outbound a).2 }) := by
        cases o with
        | noJson => cases hjson
        | _ => rfl
      refine Accounts.use_bind (by simp) ?_
      refine (rtwQueuePush_accounts h.outbound (decide (o = .stored)) a).bind
        (R := {p} + held m.customParams + {m.buf}) ?_ fun r hr => ?_
      · rw [held_some, SessionMem.owned]
        abel
      refine Accounts.release_bind
        (R := held m.customParams + r.2.owned + {m.buf}) ?_ (Accounts.pure ?_ rfl)
      · abel
      · rw [hdata]
        exact ⟨hr.1, h.customParams, hr.2⟩

/-- A message is built and queued, and the function goes on. -/
theorem queued_accounts {β : Type} (text : Option OutMsg) {build : Heap (Option Pointer)}
    {f : ℤ × SessionMem → Heap β} {ψ : β → Prop} {S : β → Multiset Pointer}
    (hbuild : Accounts L 0 build (fun r => r.isSome = (o.builds && text.isSome)) held)
    (h : m.Mirrors s)
    (hf : ∀ r, r.1 = (enqueueJson o s text).1 → r.2.Mirrors (enqueueJson o s text).2 →
      Accounts L r.2.owned (f r) ψ S) :
    Accounts L m.owned (build >>= fun json => Mem.enqueueJson o json m >>= f) ψ S := by
  refine hbuild.bind (zero_add _).symm fun json hjson => ?_
  refine (enqueueJson_accounts h hjson).bind (add_zero _).symm fun r hr => ?_
  exact (hf r hr.1 hr.2).of_eq (add_zero _)

/-- The builders of messages that have a text. -/
theorem builds_message {build : Heap (Option Pointer)} (a : OutMsg)
    (h : Accounts L 0 build (fun r => r.isSome = o.builds) held) :
    Accounts L 0 build (fun r => r.isSome = (o.builds && (some a).isSome)) held :=
  h.weaken (fun r hr => by rw [hr, Option.isSome_some, Bool.and_true]) fun _ _ => rfl

/-! ### Start and end -/

theorem rtwPlayoutInit_accounts (ok : Bool) (capacity : ℕ) :
    Accounts L 0 (Mem.rtwPlayoutInit ok capacity)
      (fun r => r.isSome = (rtwPlayoutInit ok capacity).isSome) held := by
  unfold Mem.rtwPlayoutInit rtwPlayoutInit
  by_cases h : 0 < capacity
  · rw [if_pos h, dif_pos h]
    refine (Accounts.acquire ok Resource.block).weaken (fun r hr => ?_) fun _ _ => rfl
    rw [hr]
    cases ok <;> rfl
  · rw [if_neg h, dif_neg h]
    exact Accounts.pure rfl rfl

/-- A session is initialised whole, or nothing of it is left. -/
theorem rtwSessionInit_accounts (queueOk playoutOk : Bool) (queueCap playoutCap : ℕ) :
    Accounts L 0 (Mem.rtwSessionInit queueOk playoutOk queueCap playoutCap)
      (fun r => r.isSome = (rtwSessionInit queueOk playoutOk queueCap playoutCap).isSome ∧
        ∀ m ∈ r, ∀ s ∈ rtwSessionInit queueOk playoutOk queueCap playoutCap, m.Mirrors s)
      (fun r => r.elim 0 SessionMem.owned) := by
  unfold Mem.rtwSessionInit rtwSessionInit
  generalize (if queueCap ≠ 0 then queueCap else 64) = cap
  generalize (if playoutCap ≠ 0 then playoutCap else 8 * 8000) = bytes
  refine (rtwQueueInit_accounts queueOk cap).bind (add_zero _).symm fun r hr => ?_
  obtain ⟨hsome, hempty⟩ := hr
  cases r with
  | none =>
    rw [eq_none_of_isSome hsome]
    exact Accounts.pure ⟨rfl, by simp⟩ rfl
  | some outbound =>
    obtain ⟨q, hq⟩ := Option.isSome_iff_exists.mp hsome.symm
    obtain ⟨hcap, hnil, -, -⟩ := rtwQueueInit_spec hq
    rw [hq]
    dsimp only [Option.elim_some]
    refine (rtwPlayoutInit_accounts playoutOk bytes).bind (R := outbound.owned) (by abel)
      fun buf hbuf => ?_
    cases buf with
    | none =>
      rw [eq_none_of_isSome hbuf]
      refine (rtwQueueDestroy_accounts outbound).bind (R := 0) (by simp) fun _ _ => ?_
      exact Accounts.pure ⟨rfl, by simp⟩ rfl
    | some buf =>
      obtain ⟨p, hp⟩ := Option.isSome_iff_exists.mp hbuf.symm
      obtain ⟨hsize, hcapacity⟩ := hempty outbound rfl
      rw [hp]
      refine Accounts.pure ⟨rfl, ?_⟩ ?_
      · rintro m ⟨⟩ s ⟨⟩
        refine ⟨rfl, ?_, ?_⟩
        · exact hsize.trans ((BoundedQueue.contents_eq_nil_iff q).mp hnil).symm
        · exact hcapacity.trans hcap.symm
      · change 0 + outbound.owned + {buf} = {buf} + outbound.owned
        abel

theorem rtwSessionDestroy_accounts (m : SessionMem) :
    Accounts L m.owned (Mem.rtwSessionDestroy m) (fun _ => True) (fun _ => 0) := by
  unfold Mem.rtwSessionDestroy Mem.rtwPlayoutDestroy
  refine Accounts.release?_bind (R := m.outbound.owned + {m.buf}) ?_ ?_
  · rw [SessionMem.owned, add_assoc]
  · refine (rtwQueueDestroy_accounts m.outbound).bind rfl fun _ _ => ?_
    exact (Accounts.release m.buf).of_eq (zero_add _)

theorem enqueueHandshake_accounts (env : Env) {allocs : ℕ → BuildAllocs}
    (hL : MayLose L (allocs 1).attaches) {custom : Option CStr} (h : m.Mirrors s)
    (hcustom : s.customParams = custom) :
    Accounts L m.owned (Mem.enqueueHandshake env allocs custom m)
      (fun r => r.1 = (enqueueHandshake env s).1 ∧ r.2.Mirrors (enqueueHandshake env s).2)
      (fun r => r.2.owned) := by
  subst hcustom
  unfold Mem.enqueueHandshake enqueueHandshake
  refine queued_accounts (some (rtwBuildConnected (some (.lit "1.0.0"))))
    (builds_message _ (buildTree_accounts _ _)) h fun r hrc hm => ?_
  dsimp only
  rw [← hrc]
  by_cases hfailed : r.1 ≠ 0
  · rw [if_pos hfailed, if_pos hfailed]
    exact Accounts.pure ⟨rfl, hm⟩ rfl
  rw [if_neg hfailed, if_neg hfailed]
  have hnext : r.2.Mirrors { (enqueueJson (env.enqueue 0) s
      (some (rtwBuildConnected (some (.lit "1.0.0"))))).2 with seq := s.seq + 1 } :=
    hm.of_eq rfl rfl
  refine queued_accounts _ (builds_message (rtwBuildStart s.streamSid.toCStr
    (some s.accountSid.toCStr) (some s.callSid.toCStr) s.customParams s.seq)
      (rtwBuildStart_accounts _ hL _)) hnext fun r hrc hm => ?_
  rw [← hrc]
  split_ifs
  · exact Accounts.pure ⟨rfl, hm⟩ rfl
  · exact Accounts.pure ⟨rfl, hm⟩ rfl

private theorem enqueueHandshake_rc (env : Env) (s : Session) :
    (enqueueHandshake env s).1 = -1 ∨ (enqueueHandshake env s).1 = 0 := by
  unfold enqueueHandshake
  dsimp only
  split_ifs
  · exact Or.inl rfl
  · exact Or.inl rfl
  · exact Or.inr rfl

/-- The end of a start that has its custom parameters. -/
private theorem started_accounts (env : Env) {allocs : ℕ → BuildAllocs}
    (hL : MayLose L (allocs 1).attaches) {custom : Option CStr}
    {d : ℤ × Session} (h : m.Mirrors s) (hcustom : s.customParams = custom)
    (hd : d = if (enqueueHandshake env s).1 ≠ 0 then (-1, (enqueueHandshake env s).2)
      else (0, { (enqueueHandshake env s).2 with state := .running })) :
    Accounts L m.owned (Mem.enqueueHandshake env allocs custom m)
      (fun r => r.1 = d.1 ∧ r.2.Mirrors d.2) (fun r => r.2.owned) := by
  refine (enqueueHandshake_accounts env hL h hcustom).weaken (fun r hr => ?_) fun _ _ => rfl
  rw [hd, hr.1]
  split_ifs with hfailed
  · exact ⟨(enqueueHandshake_rc env s).resolve_right hfailed, hr.2⟩
  · exact ⟨not_not.mp hfailed, hr.2.of_eq rfl rfl⟩

private theorem rtwSessionStart_no_copy {env : Env} {s : Session} {streamSid : CStr}
    {callSid accountSid customParamsJson : Option CStr}
    (h : (customParamsJson.filter fun c => c.bytes ≠ []).isSome ∧ env.buffer = false) :
    ∃ s', rtwSessionStart env s streamSid callSid accountSid customParamsJson = (-1, s') ∧
      s'.customParams = none ∧ s'.outbound = s.outbound := by
  unfold rtwSessionStart
  dsimp only
  rw [if_pos h]
  exact ⟨_, rfl, rfl, rfl⟩

private theorem rtwSessionStart_handshake {env : Env} {s : Session} {streamSid : CStr}
    {callSid accountSid customParamsJson : Option CStr}
    (h : ¬((customParamsJson.filter fun c => c.bytes ≠ []).isSome ∧ env.buffer = false)) :
    ∃ s', s'.customParams = (customParamsJson.filter fun c => c.bytes ≠ []) ∧
      s'.outbound = s.outbound ∧
      rtwSessionStart env s streamSid callSid accountSid customParamsJson =
        if (enqueueHandshake env s').1 ≠ 0 then (-1, (enqueueHandshake env s').2)
        else (0, { (enqueueHandshake env s').2 with state := .running }) := by
  unfold rtwSessionStart
  dsimp only
  rw [if_neg h]
  refine ⟨_, ?_, ?_, rfl⟩
  · rfl
  · rfl

/-- Starting frees an older copy of the parameters and keeps the new one. -/
theorem rtwSessionStart_accounts (env : Env) {allocs : ℕ → BuildAllocs}
    (hL : MayLose L (allocs 1).attaches) (h : m.Mirrors s) (streamSid : CStr)
    (callSid accountSid customParamsJson : Option CStr) :
    Accounts L m.owned (Mem.rtwSessionStart env allocs m customParamsJson)
      (fun r => r.1 = (rtwSessionStart env s streamSid callSid accountSid customParamsJson).1 ∧
        r.2.Mirrors (rtwSessionStart env s streamSid callSid accountSid customParamsJson).2)
      (fun r => r.2.owned) := by
  have hrest : m.owned = held m.customParams + (m.outbound.owned + {m.buf}) := by
    rw [SessionMem.owned, add_assoc]
  have hnone : m.outbound.owned + {m.buf} =
      ({ m with customParams := none } : SessionMem).owned := by
    rw [SessionMem.owned, held_none, zero_add]
  unfold Mem.rtwSessionStart
  refine Accounts.release?_bind hrest ?_
  cases hcustom : customParamsJson.filter fun c => c.bytes ≠ [] with
  | none =>
    obtain ⟨s', hparams, hqueue, hdata⟩ := @rtwSessionStart_handshake env s streamSid callSid
      accountSid customParamsJson (by rw [hcustom]; simp)
    rw [hcustom] at hparams
    refine (started_accounts env hL (m := { m with customParams := none }) ⟨?_, ?_⟩ hparams
      hdata).of_eq hnone
    · rw [hparams]
      rfl
    · rw [hqueue]
      exact h.outbound
  | some custom =>
    dsimp only
    refine Accounts.acquire_bind (fun hno => ?_) fun hyes copy => ?_
    · obtain ⟨s', hdata, hparams, hqueue⟩ := @rtwSessionStart_no_copy env s streamSid callSid
        accountSid customParamsJson ⟨by rw [hcustom]; rfl, hno⟩
      rw [hdata]
      refine Accounts.pure ⟨rfl, ?_, ?_⟩ hnone.symm
      · rw [hparams]
        rfl
      · rw [hqueue]
        exact h.outbound
    · obtain ⟨s', hparams, hqueue, hdata⟩ := @rtwSessionStart_handshake env s streamSid callSid
        accountSid customParamsJson (by rw [hyes]; simp)
      rw [hcustom] at hparams
      refine (started_accounts env hL (m := { m with customParams := some copy }) ⟨?_, ?_⟩
        hparams hdata).of_eq ?_
      · rw [hparams]
        rfl
      · rw [hqueue]
        exact h.outbound
      · rw [SessionMem.owned, held_some, add_assoc]

theorem rtwSessionStop_accounts (env : Env) (allocs : ℕ → BuildAllocs) (h : m.Mirrors s) :
    Accounts L m.owned (Mem.rtwSessionStop env allocs s m)
      (fun r => r.1 = (rtwSessionStop env s).1 ∧ r.2.Mirrors (rtwSessionStop env s).2)
      (fun r => r.2.owned) := by
  unfold Mem.rtwSessionStop rtwSessionStop
  by_cases hstate : s.state = .stopped ∨ s.state = .idle
  · rw [if_pos hstate, if_pos hstate]
    exact Accounts.pure ⟨rfl, h⟩ rfl
  rw [if_neg hstate, if_neg hstate]
  have hstopping : m.Mirrors { s with state := .stopping, seq := s.seq + 1 } := h.of_eq rfl rfl
  refine queued_accounts _ (builds_message (rtwBuildStop s.streamSid.toCStr
    (some s.accountSid.toCStr) (some s.callSid.toCStr) s.seq) (buildTree_accounts _ _)) hstopping
      fun r hrc hm => ?_
  dsimp only
  rw [← hrc]
  split_ifs
  · exact Accounts.pure ⟨rfl, hm⟩ rfl
  · exact Accounts.pure ⟨rfl, hm.of_eq rfl rfl⟩ rfl

theorem rtwSessionRehandshake_accounts (env : Env) {allocs : ℕ → BuildAllocs}
    (hL : MayLose L (allocs 1).attaches) (h : m.Mirrors s) :
    Accounts L m.owned (Mem.rtwSessionRehandshake env allocs s m)
      (fun r => r.1 = (rtwSessionRehandshake env s).1 ∧
        r.2.Mirrors (rtwSessionRehandshake env s).2)
      (fun r => r.2.owned) := by
  unfold Mem.rtwSessionRehandshake rtwSessionRehandshake
  by_cases hstate : s.state ≠ .running
  · rw [if_pos hstate, if_pos hstate]
    exact Accounts.pure ⟨rfl, h⟩ rfl
  · rw [if_neg hstate, if_neg hstate]
    exact enqueueHandshake_accounts env hL h rfl

/-! ### Audio, events and marks -/

theorem pushFrames_accounts (env : Env) (allocs : ℕ → BuildAllocs) (n i : ℕ) (pcm : List Int16)
    (h : m.Mirrors s) :
    Accounts L m.owned (Mem.pushFrames env allocs n i pcm m)
      (fun m' => m'.Mirrors (pushFrames env n i pcm s).2) SessionMem.owned := by
  induction n generalizing i pcm m s with
  | zero => exact Accounts.pure h rfl
  | succ n ih =>
    unfold Mem.pushFrames pushFrames pushFrame
    have hseq : m.Mirrors { s with seq := s.seq + 1 } := h.of_eq rfl rfl
    refine queued_accounts (rtwBuildMedia s.streamSid.toCStr (some (.lit "inbound"))
      s.chunk s.timestampMs s.seq (rtwPcm16ToMulaw (pcm.take RTW_FRAME_MULAW_BYTES)))
        ((rtwBuildMedia_accounts _ _ _).weaken (fun r hr => ?_) fun _ _ => rfl) hseq
          fun r hrc hm => ?_
    · rw [hr]
      unfold rtwBuildMedia
      split_ifs with hnil
      · rw [decide_eq_false (not_not.mpr hnil)]
        rfl
      · rw [decide_eq_true hnil]
        rfl
    · dsimp only
      rw [← hrc]
      by_cases hfailed : r.1 ≠ 0
      · simp only [if_pos hfailed, ne_eq, Int.reduceNeg, neg_eq_zero, one_ne_zero,
          not_false_eq_true, if_true]
        exact Accounts.pure hm rfl
      · simp only [if_neg hfailed, ne_eq, not_true_eq_false, if_false]
        exact ih _ _ (hm.of_eq rfl rfl)

theorem rtwSessionPushPcm16_accounts (env : Env) (allocs : ℕ → BuildAllocs) (pcm : List Int16)
    (h : m.Mirrors s) :
    Accounts L m.owned (Mem.rtwSessionPushPcm16 env allocs s pcm m)
      (fun m' => m'.Mirrors (rtwSessionPushPcm16 env s pcm).2) SessionMem.owned := by
  unfold Mem.rtwSessionPushPcm16 rtwSessionPushPcm16
  by_cases hstate : s.state ≠ .running ∨ s.paused
  · rw [if_pos hstate, if_pos hstate]
    exact Accounts.pure h rfl
  · rw [if_neg hstate, if_neg hstate]
    exact pushFrames_accounts env allocs _ _ pcm h

theorem flushAcks_accounts (env : Env) (allocs : ℕ → BuildAllocs) (i : ℕ)
    (names : List (CBuf RTW_MARK_NAME_LEN)) (h : m.Mirrors s) :
    Accounts L m.owned (Mem.flushAcks env allocs i names.length m)
      (fun m' => m'.Mirrors (flushAcks env i names s).2) SessionMem.owned := by
  induction names generalizing i m s with
  | nil => exact Accounts.pure h rfl
  | cons name names ih =>
    rw [List.length_cons]
    unfold Mem.flushAcks flushAcks enqueueAck
    have hseq : m.Mirrors { s with seq := s.seq + 1 } := h.of_eq rfl rfl
    refine queued_accounts _ (builds_message (rtwBuildMark s.streamSid.toCStr name.toCStr s.seq)
      (buildTree_accounts _ _)) hseq fun r hrc hm => ?_
    dsimp only
    rw [← hrc]
    by_cases hfailed : r.1 ≠ 0
    · rw [if_pos hfailed, if_pos hfailed]
      exact Accounts.pure hm rfl
    · rw [if_neg hfailed, if_neg hfailed]
      exact ih _ hm

theorem harvestAcks_accounts (env : Env) (allocs : ℕ → BuildAllocs) (i : ℕ)
    (names : List (CBuf RTW_MARK_NAME_LEN)) (h : m.Mirrors s) :
    Accounts L m.owned (Mem.harvestAcks env allocs i names.length m)
      (fun m' => m'.Mirrors (harvestAcks env i names s)) SessionMem.owned := by
  induction names generalizing i m s with
  | nil => exact Accounts.pure h rfl
  | cons name names ih =>
    rw [List.length_cons]
    unfold Mem.harvestAcks harvestAcks enqueueAck
    have hseq : m.Mirrors { s with seq := s.seq + 1 } := h.of_eq rfl rfl
    refine queued_accounts _ (builds_message (rtwBuildMark s.streamSid.toCStr name.toCStr s.seq)
      (buildTree_accounts _ _)) hseq fun r _ hm => ?_
    exact ih _ hm

theorem rtwParseInbound_accounts (json : CStr) (payload : Pointer) (cap : ℕ) :
    Accounts L {payload} (Mem.rtwParseInbound json payload cap)
      (fun r => r = rtwParseInbound json cap) (fun _ => {payload}) := by
  unfold Mem.rtwParseInbound
  refine Accounts.acquire_bind (fun hno => ?_) fun _ root => ?_
  · have hnone : rtwParseInbound json cap = none := by
      unfold rtwParseInbound
      rw [Option.not_isSome_iff_eq_none.mp (Bool.eq_false_iff.mp hno)]
    rw [hnone]
    exact Accounts.pure rfl rfl
  · exact Accounts.use_bind (by simp) (Accounts.release_bind rfl (Accounts.pure rfl rfl))

theorem handleEvent_accounts (env : Env) (allocs : ℕ → BuildAllocs) (ev : InboundEvent)
    (payload : Pointer) (h : m.Mirrors s) :
    Accounts L ({payload} + m.owned) (Mem.handleEvent env allocs s ev payload m)
      (fun m' => m'.Mirrors (handleEvent env s ev).2) (fun m' => {payload} + m'.owned) := by
  unfold Mem.handleEvent handleEvent
  cases ev.type with
  | media =>
    refine Accounts.use_bind (by simp) (Accounts.use_bind ?_ (Accounts.pure ?_ rfl))
    · exact Multiset.mem_add.mpr (Or.inr (buf_mem_owned m))
    · dsimp only
      split_ifs
      · exact h.of_eq rfl rfl
      · exact h.of_eq rfl rfl
  | clear =>
    have hplayout : m.Mirrors { s with
        playout := (rtwPlayoutClear s.playout RTW_MARK_MAX).2
        clearEvents := s.clearEvents + 1
        clearArmed := true
        clearStartNs := env.now } := h.of_eq rfl rfl
    rw [add_comm]
    refine ((flushAcks_accounts env allocs 0 _ hplayout).frame {payload}).weaken
      (fun _ hm => hm) fun _ _ => add_comm _ _
  | mark => exact Accounts.pure (h.of_eq rfl rfl) rfl
  | _ => exact Accounts.pure h rfl

/-- The payload buffer is freed on every way out. -/
theorem rtwSessionHandlePeerJson_accounts (env : Env) (allocs : ℕ → BuildAllocs) (json : CStr)
    (h : m.Mirrors s) :
    Accounts L m.owned (Mem.rtwSessionHandlePeerJson env allocs s json m)
      (fun m' => m'.Mirrors (rtwSessionHandlePeerJson env s json).2) SessionMem.owned := by
  unfold Mem.rtwSessionHandlePeerJson rtwSessionHandlePeerJson
  by_cases hstate : s.state ≠ .running
  · rw [if_pos hstate, if_pos hstate]
    exact Accounts.pure h rfl
  rw [if_neg hstate, if_neg hstate]
  refine Accounts.acquire_bind (fun hno => ?_) fun hyes payload => ?_
  · rw [if_pos hno]
    exact Accounts.pure h rfl
  rw [if_neg (by rw [hyes]; simp)]
  refine (rtwParseInbound_accounts json payload PAYLOAD_CAP).bind rfl fun ev hev => ?_
  rw [← hev]
  cases ev with
  | none => exact Accounts.release_bind rfl (Accounts.pure h rfl)
  | some ev =>
    dsimp only
    by_cases hother : ev.streamSid.bytes ≠ [] ∧ ev.streamSid ≠ s.streamSid
    · rw [if_pos hother, if_pos hother]
      exact Accounts.release_bind rfl (Accounts.pure h rfl)
    · rw [if_neg hother, if_neg hother]
      refine (handleEvent_accounts env allocs ev payload h).bind (add_zero _).symm fun m' hm => ?_
      exact Accounts.release_bind (add_zero _) (Accounts.pure hm rfl)

theorem rtwSessionHarvestMarks_accounts (env : Env) (allocs : ℕ → BuildAllocs) (h : m.Mirrors s) :
    Accounts L m.owned (Mem.rtwSessionHarvestMarks env allocs s m)
      (fun m' => m'.Mirrors (rtwSessionHarvestMarks env s)) SessionMem.owned :=
  harvestAcks_accounts env allocs 0 _ (h.of_eq rfl rfl)

/-- A peek harvests, and points into the queue if there is a message. -/
theorem rtwSessionPeekOutbound_accounts (env : Env) (allocs : ℕ → BuildAllocs) (h : m.Mirrors s) :
    Accounts L m.owned (Mem.rtwSessionPeekOutbound env allocs s m)
      (fun r => r.1.isSome = (rtwSessionPeekOutbound env s).1.isSome ∧
        (∀ p ∈ r.1, p ∈ r.2.outbound.owned) ∧ r.2.Mirrors (rtwSessionPeekOutbound env s).2)
      (fun r => r.2.owned) := by
  unfold Mem.rtwSessionPeekOutbound rtwSessionPeekOutbound
  refine (rtwSessionHarvestMarks_accounts env allocs h).bind (add_zero _).symm fun m' hm => ?_
  refine (rtwQueuePeek_accounts hm.outbound).bind (R := held m'.customParams + {m'.buf}) ?_
    fun head hhead => Accounts.pure ⟨hhead.1, hhead.2, hm⟩ ?_
  · rw [SessionMem.owned]
    abel
  · rw [SessionMem.owned]
    abel

theorem rtwSessionDropOutboundHead_accounts (h : m.Mirrors s) :
    Accounts L m.owned (Mem.rtwSessionDropOutboundHead m)
      (fun r => r.1 = (rtwSessionDropOutboundHead s).1 ∧
        r.2.Mirrors (rtwSessionDropOutboundHead s).2) (fun r => r.2.owned) := by
  unfold Mem.rtwSessionDropOutboundHead rtwSessionDropOutboundHead
  refine (rtwQueueDropHead_accounts h.outbound).bind (R := held m.customParams + {m.buf}) ?_
    fun r hr => Accounts.pure ⟨hr.1, h.customParams, hr.2⟩ ?_
  · rw [SessionMem.owned]
    abel
  · rw [SessionMem.owned]
    abel

end RealtimeWs.Core
