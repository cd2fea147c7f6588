import RealtimeWs.Core.ClientMemory
import RealtimeWs.Core.SessionMemory
import RealtimeWs.Mod.Sendable
import RealtimeWs.Mod.SplitMetadata

/-! The memory of a bridge, and `rtw_bridge_start`: it takes eight things one after another,
may fail at each, and then gives back what it has. -/
namespace RealtimeWs.Mod

open RealtimeWs.Core Ledger

/-- `rtw_tech_t`: what its pointers own, and the texts behind two of them. -/
structure TechMem where
  block : Pointer
  mutex : Pointer
  extraHeaders : Option Pointer
  peerCustomParams : Option Pointer
  session : SessionMem
  ws : Option ClientMem
  worker : Option Pointer
  wsUri : CStr
  headers : Option CStr

def TechMem.client (m : TechMem) : Multiset Pointer := m.ws.elim 0 ClientMem.owned

def TechMem.owned (m : TechMem) : Multiset Pointer :=
  m.session.owned + m.client + held m.worker + held m.extraHeaders + held m.peerCustomParams +
    {m.mutex} + {m.block}

/-- The memory of the bridge `t`. -/
structure TechMem.Mirrors (m : TechMem) (t : Tech) : Prop where
  session : m.session.Mirrors t.session
  ws : m.ws.isSome = t.ws.isSome

/-- What a section that flushes meets beside its `Io`: what the builder of the `j`-th message
of the `i`-th call is granted beside its text, and, for the `i`-th send, whether the key comes
from a file and whether a send that fails had a frame. -/
structure MemIo where
  allocs : ℕ → ℕ → BuildAllocs
  urandom : ℕ → Bool
  frame : ℕ → Bool

/-- The outcomes of the calls that follow the first one of a section. -/
def MemIo.tail (mio : MemIo) : MemIo := { mio with allocs := fun i => mio.allocs (i + 1) }

namespace Mem

/-! ### Flushing -/

/-- The loop of `flush_outbound`; `s` is the session of the bridge. -/
def flushLoop (io : Io) (mio : MemIo) (c : ClientMem) :
    ℕ → ℕ → Session → SessionMem → Heap SessionMem
  | 0, _, _, m => return m
  | fuel + 1, i, s, m => do
    let r ← Core.Mem.rtwSessionPeekOutbound (io.env i) (mio.allocs i) s m
    match r.1 with
    | none => return r.2
    | some json => do
      Core.Mem.rtwWsSendText (mio.urandom i) (io.sends i || mio.frame i) c json
      if io.sends i then do
        let d ← Core.Mem.rtwSessionDropOutboundHead r.2
        flushLoop io mio c fuel (i + 1)
          (rtwSessionDropOutboundHead (rtwSessionPeekOutbound (io.env i) s).2).2 d.2
      else return r.2

def flushOutbound (io : Io) (mio : MemIo) (t : Tech) (m : TechMem) : Heap TechMem :=
  match m.ws with
  | none => return m
  | some c =>
    if t.wsReady then do
      let session ← flushLoop io mio c (rtwQueueSize t.session.outbound + HARVEST_MAX + 1) 0
        t.session m.session
      return { m with session := session }
    else return m

/-! ### The start metadata -/

/-- `realloc`, which allocates when there is nothing to grow. -/
def regrow (ok : Bool) : Option Pointer → Heap (Option Pointer)
  | none => acquire ok .block
  | some hdr => exchange ok hdr

/-- The loop over `ws_headers`; on failure the block is freed. -/
def growHeaders (grow : ℕ → Bool) :
    ℕ → List (CStr × Json) → Option Pointer → Heap (Option (Option Pointer))
  | _, [], hdr => return some hdr
  | i, item :: items, hdr =>
    match Json.valuestring? (some item.2) with
    | none => growHeaders grow i items hdr
    | some _ => do
      match ← regrow (grow i) hdr with
      | none => do
        release? hdr
        return none
      | some nbuf => growHeaders grow (i + 1) items (some nbuf)

/-- Metadata that is no object is copied for the peer as it is. -/
def copyMetadata (strdup : Bool) : Heap (Option (Option Pointer × Option Pointer)) := do
  match ← acquire strdup .block with
  | none => return none
  | some params => return some (none, some params)

/-- The end of `split_metadata`, with the header block built. -/
def printParams (print : Bool) (members : List (CStr × Json)) (root : Pointer)
    (hdr : Option Pointer) : Heap (Option (Option Pointer × Option Pointer)) := do
  let params ← acquire (decide (members ≠ []) && print) .block
  release root
  return some (hdr, params)

/-- `split_metadata` of an object. -/
def splitObject (io : SplitAllocs) (members : List (CStr × Json)) (root : Pointer) :
    Heap (Option (Option Pointer × Option Pointer)) := do
  let auth := authValue members
  let line ← acquire (auth.isSome && io.line) .block
  if auth.isSome ∧ line = none then do
    release root
    return none
  else do
    let headers := wsHeaders (stripMember isText (.lit "authorization") members)
    match ← growHeaders io.grow 0 (headers.getD []) line with
    | none => do
      release root
      return none
    | some hdr => printParams io.print (peerMembers members) root hdr

def splitMetadata (io : SplitAllocs) (metadata : Option CStr) :
    Heap (Option (Option Pointer × Option Pointer)) :=
  match metadata.filter fun m => m.bytes ≠ [] with
  | none => return some (none, none)
  | some metadata => do
    match ← acquire (cJSONParse metadata).isSome .tree with
    | none => copyMetadata io.strdup
    | some root =>
      match cJSONParse metadata with
      | some (.object members) => splitObject io members root
      | _ => do
        release root
        copyMetadata io.strdup

end Mem

variable {L : Pointer → Prop}

/-! ### What a flush accounts for -/

theorem flushLoop_accounts (io : Io) (mio : MemIo) {c : ClientMem} {k : ℕ} (fuel i : ℕ)
    {t : Tech} {m : SessionMem} (h : m.Mirrors t.session) :
    Accounts L (m.owned + c.owned) (Mem.flushLoop io mio c fuel i t.session m)
      (fun m' => m'.Mirrors (flushLoop io k fuel i t).session)
      (fun m' => m'.owned + c.owned) := by
  induction fuel generalizing i t m with
  | zero => exact Accounts.pure h rfl
  | succ fuel ih =>
    unfold Mem.flushLoop flushLoop
    refine (rtwSessionPeekOutbound_accounts (io.env i) (mio.allocs i) h).bind rfl fun r hr => ?_
    obtain ⟨hsome, htext, hm⟩ := hr
    obtain ⟨head, m'⟩ := r
    dsimp only at hsome htext hm ⊢
    cases head with
    | none =>
      rw [eq_none_of_isSome hsome]
      exact Accounts.pure hm rfl
    | some text =>
      obtain ⟨json, hjson⟩ := Option.isSome_iff_exists.mp hsome.symm
      have hmem : text ∈ m'.owned + c.owned :=
        Multiset.mem_add.mpr (Or.inl (outbound_le_owned (htext text rfl)))
      rw [hjson]
      refine (rtwWsSendText_accounts _ _ (Multiset.le_add_left _ _) hmem).bind (add_zero _).symm
        fun _ _ => ?_
      rw [add_zero]
      cases io.sends i with
      | false => exact Accounts.pure hm rfl
      | true =>
        refine (rtwSessionDropOutboundHead_accounts hm).bind rfl fun d hd => ?_
        exact ih (i + 1) (t := { t with
          session := (rtwSessionDropOutboundHead (rtwSessionPeekOutbound (io.env i) t.session).2).2
          wire := t.wire ++ [⟨k, json, true⟩] }) hd.2

/-- Only the session's memory may be different. -/
def TechMem.SameBut (m m' : TechMem) : Prop := m' = { m with session := m'.session }

/-- A flush touches no memory but the session's. -/
theorem flushOutbound_accounts (io : Io) (mio : MemIo) {t : Tech} {m : TechMem}
    (h : m.Mirrors t) :
    Accounts L m.owned (Mem.flushOutbound io mio t m)
      (fun m' => m'.Mirrors (flushOutbound io t) ∧ m.SameBut m') TechMem.owned := by
  have hws := h.ws
  have hkeep : (flushOutbound io t).ws = t.ws := by rw [flushOutbound_rest]
  unfold Mem.flushOutbound
  cases hm : m.ws with
  | none =>
    rw [hm] at hws
    rw [flushOutbound_off (Or.inl (eq_none_of_isSome hws))]
    exact Accounts.pure ⟨h, rfl⟩ rfl
  | some c =>
    rw [hm] at hws
    obtain ⟨k, hk⟩ := Option.isSome_iff_exists.mp hws.symm
    dsimp only
    cases hready : t.wsReady with
    | false =>
      rw [flushOutbound_off (Or.inr hready)]
      exact Accounts.pure ⟨h, rfl⟩ rfl
    | true =>
      have hloop : flushOutbound io t =
          flushLoop io k (rtwQueueSize t.session.outbound + HARVEST_MAX + 1) 0 t := by
        rw [flushOutbound, hk]
        exact if_pos hready
      rw [hloop] at hkeep ⊢
      refine (flushLoop_accounts io mio (k := k) _ 0 h.session).bind
        (R := held m.worker + held m.extraHeaders + held m.peerCustomParams + {m.mutex} +
          {m.block}) ?_ fun session hsession => Accounts.pure ⟨⟨hsession, ?_⟩, ?_⟩ ?_
      · simp only [TechMem.owned, TechMem.client, hm, Option.elim_some]
        abel
      · rw [hkeep, hk]
        rfl
      · unfold TechMem.SameBut
        rw [hm]
      · simp only [TechMem.owned, TechMem.client, Option.elim_some]
        abel

/-! ### What the split accounts for -/

theorem regrow_accounts (ok : Bool) (hdr : Option Pointer) :
    Accounts L (held hdr) (Mem.regrow ok hdr) (fun o => o.isSome = ok)
      (fun o => o.elim (held hdr) fun h => {h}) := by
  cases hdr with
  | none =>
    refine (Accounts.acquire ok Resource.block).weaken (fun _ h => h) fun o _ => ?_
    cases o <;> rfl
  | some hdr =>
    refine (Accounts.exchange ok hdr).weaken (fun _ h => h) fun o _ => ?_
    cases o <;> rfl

theorem growHeaders_accounts (grow : ℕ → Bool) (i : ℕ) (items : List (CStr × Json))
    {hdr : Option Pointer} {text : List UInt8} (h : hdr.isSome = decide (text ≠ [])) :
    Accounts L (held hdr) (Mem.growHeaders grow i items hdr)
      (fun r => r.isSome = (appendHeaders grow i items text).isSome ∧
        ∀ p ∈ r, ∀ out ∈ appendHeaders grow i items text, p.isSome = decide (out ≠ []))
      (fun r => r.elim 0 held) := by
  induction items generalizing i hdr text with
  | nil =>
    refine Accounts.pure ⟨rfl, ?_⟩ rfl
    rintro p ⟨⟩ out ⟨⟩
    exact h
  | cons item items ih =>
    obtain ⟨key, item⟩ := item
    unfold Mem.growHeaders appendHeaders
    cases Json.valuestring? (some item) with
    | none => exact ih i h
    | some val =>
      dsimp only
      refine (regrow_accounts (grow i) hdr).bind (add_zero _).symm fun r hr => ?_
      rw [← hr]
      cases r with
      | none =>
        refine Accounts.release?_bind rfl (Accounts.pure ⟨rfl, ?_⟩ rfl)
        rintro p ⟨⟩
      | some nbuf =>
        refine (ih (i + 1) ?_).of_eq (add_zero _)
        have hlong : 0 < (key.bytes ++ ascii ": " ++ val.bytes ++ ascii "\r\n").length := by
          have hcolon : (ascii ": ").length = 2 := rfl
          simp only [List.length_append, hcolon]
          omega
        refine (decide_eq_true ?_).symm
        refine List.append_ne_nil_of_right_ne_nil _ (List.ne_nil_of_length_pos ?_)
        rw [snprintf, List.length_take]
        omega

/-- What the split returns: `none` for -1. -/
def Splits (r : Option (Option Pointer × Option Pointer)) (d : SplitResult) : Prop :=
  r.isSome = decide (d.rc = 0) ∧
    ∀ p ∈ r, p.1.isSome = d.extraHeaders.isSome ∧ p.2.isSome = d.peerParams.isSome

/-- What the two outputs of the split own. -/
def splitOwned (r : Option (Option Pointer × Option Pointer)) : Multiset Pointer :=
  r.elim 0 fun p => held p.1 + held p.2

theorem copyMetadata_accounts (strdup : Bool) (metadata : CStr) :
    Accounts L 0 (Mem.copyMetadata strdup)
      (fun r => Splits r (if strdup then ⟨0, none, some (.raw metadata)⟩ else ⟨-1, none, none⟩))
      splitOwned := by
  unfold Mem.copyMetadata
  refine Accounts.acquire_bind (fun hno => ?_) fun hyes params => ?_
  · rw [hno]
    refine Accounts.pure ⟨rfl, ?_⟩ rfl
    rintro p ⟨⟩
  · rw [hyes]
    refine Accounts.pure ⟨rfl, ?_⟩ ?_
    · rintro p ⟨⟩
      exact ⟨rfl, rfl⟩
    · exact add_comm _ _

theorem printParams_accounts (print : Bool) (members : List (CStr × Json)) (root : Pointer)
    {hdr : Option Pointer} {text : List UInt8} (h : hdr.isSome = decide (text ≠ [])) :
    Accounts L (held hdr + {root}) (Mem.printParams print members root hdr)
      (fun r => Splits r ⟨0, if text ≠ [] then some (.ofBytes text) else none,
        if members ≠ [] ∧ print then some (.object members) else none⟩) splitOwned := by
  unfold Mem.printParams
  refine (Accounts.acquire (decide (members ≠ []) && print) Resource.block).bind
    (zero_add _).symm fun params hparams => ?_
  refine Accounts.release_bind (R := held hdr + held params) (by abel)
    (Accounts.pure ⟨rfl, ?_⟩ rfl)
  rintro p ⟨⟩
  constructor
  · rw [h]
    by_cases htext : text = [] <;> simp [htext]
  · rw [hparams]
    by_cases hmembers : members = [] <;> cases print <;> simp [hmembers]

private theorem authorization_ne_nil (v : CStr) : snprintf (v.bytes.length + 32)
    (ascii "Authorization: " ++ v.bytes ++ ascii "\r\n") ≠ [] := by
  have hname : (ascii "Authorization: ").length = 15 := by decide
  refine List.ne_nil_of_length_pos ?_
  rw [snprintf, List.length_take, List.length_append, List.length_append, hname]
  omega

private theorem splits_failed : Splits none ⟨-1, none, none⟩ := by
  refine ⟨rfl, ?_⟩
  rintro p ⟨⟩

theorem splitObject_accounts (io : SplitAllocs) {metadata : CStr} {members : List (CStr × Json)}
    (hparse : cJSONParse metadata = some (.object members)) (root : Pointer) :
    Accounts L {root} (Mem.splitObject io members root)
      (fun r => Splits r (splitMetadataAlloc io (some metadata))) splitOwned := by
  have hheaders : wsHeaders (stripMember isText (.lit "authorization") members) =
      wsHeaders members := by
    rw [wsHeaders, getObjectItem_strip (by decide)]
    rfl
  unfold Mem.splitObject
  rw [splitMetadataAlloc_object hparse, hheaders]
  refine (Accounts.acquire ((authValue members).isSome && io.line) Resource.block).bind
    (zero_add _).symm fun line hline => ?_
  by_cases hfailed : (authValue members).isSome = true ∧ line = none
  · obtain ⟨hauth, rfl⟩ := hfailed
    have hno : io.line = false := by
      rw [hauth, Bool.true_and] at hline
      exact hline.symm
    rw [if_pos ⟨hauth, rfl⟩, if_pos ⟨hauth, hno⟩]
    exact Accounts.release_bind (add_comm _ _) (Accounts.pure splits_failed rfl)
  · have hgranted : ¬((authValue members).isSome = true ∧ io.line = false) := by
      rintro ⟨hauth, hno⟩
      rw [hno, Bool.and_false] at hline
      exact hfailed ⟨hauth, Option.not_isSome_iff_eq_none.mp (hline ▸ Bool.false_ne_true)⟩
    have htext : line.isSome = decide (authLine members ≠ []) := by
      rw [hline, authLine]
      cases hauth : authValue members with
      | none => rfl
      | some v =>
        rw [hauth] at hgranted
        rw [decide_eq_true (authorization_ne_nil v), Option.isSome_some, Bool.true_and]
        exact Bool.not_eq_false _ ▸ fun hno => hgranted ⟨rfl, hno⟩
    rw [if_neg hfailed, if_neg hgranted]
    refine (growHeaders_accounts io.grow 0 _ htext).bind rfl fun r hr => ?_
    obtain ⟨hsome, hlong⟩ := hr
    cases r with
    | none =>
      rw [eq_none_of_isSome hsome]
      exact Accounts.release_bind (add_comm _ _) (Accounts.pure splits_failed rfl)
    | some hdr =>
      obtain ⟨out, hout⟩ := Option.isSome_iff_exists.mp hsome.symm
      rw [hout]
      exact printParams_accounts io.print _ root (hlong hdr rfl out hout)

/-- Metadata that is no object goes to the peer as it is. -/
theorem splitMetadataAlloc_raw {io : SplitAllocs} {metadata : CStr} (hne : metadata.bytes ≠ [])
    (hno : ∀ members, cJSONParse metadata ≠ some (.object members)) :
    splitMetadataAlloc io (some metadata) =
      if io.strdup then ⟨0, none, some (.raw metadata)⟩ else ⟨-1, none, none⟩ := by
  have hfilter : (some metadata).filter (fun m : CStr => m.bytes ≠ []) = some metadata := by
    simp [hne]
  unfold splitMetadataAlloc
  rw [hfilter]
  dsimp only
  split
  · rename_i members hparse
    exact absurd hparse (hno members)
  · rfl

/-- The split keeps the two texts it returns, and nothing when it fails. -/
theorem splitMetadata_accounts (io : SplitAllocs) (metadata : Option CStr) :
    Accounts L 0 (Mem.splitMetadata io metadata)
      (fun r => Splits r (splitMetadataAlloc io metadata)) splitOwned := by
  cases metadata with
  | none =>
    refine Accounts.pure ⟨rfl, ?_⟩ rfl
    rintro p ⟨⟩
    exact ⟨rfl, rfl⟩
  | some metadata =>
    by_cases hne : metadata.bytes = []
    · have hfilter : (some metadata).filter (fun m : CStr => m.bytes ≠ []) = none := by
        simp [hne]
      unfold Mem.splitMetadata splitMetadataAlloc
      rw [hfilter]
      refine Accounts.pure ⟨rfl, ?_⟩ rfl
      rintro p ⟨⟩
      exact ⟨rfl, rfl⟩
    have hfilter : (some metadata).filter (fun m : CStr => m.bytes ≠ []) = some metadata := by
      simp [hne]
    unfold Mem.splitMetadata
    rw [hfilter]
    refine Accounts.acquire_bind (fun hno => ?_) fun hyes root => ?_
    · have hnone : cJSONParse metadata = none :=
        Option.not_isSome_iff_eq_none.mp (Bool.eq_false_iff.mp hno)
      rw [splitMetadataAlloc_raw hne (by rw [hnone]; simp)]
      exact copyMetadata_accounts io.strdup metadata
    · rw [add_zero]
      cases hparse : cJSONParse metadata with
      | none =>
        rw [hparse] at hyes
        cases hyes
      | some json =>
        cases json with
        | object members => exact splitObject_accounts io hparse root
        | _ =>
          rw [splitMetadataAlloc_raw hne (by rw [hparse]; simp)]
          exact Accounts.release_bind (add_zero _).symm (copyMetadata_accounts io.strdup metadata)

/-! ### Starting -/

/-- What `rtw_bridge_start` meets: the outcomes of its model, with those of its own allocations,
of the split, of the connection and of `pthread_create`. -/
structure StartMemIo where
  start : StartIo
  calloc : Bool
  mutex : Bool
  split : SplitAllocs
  allocs : ℕ → BuildAllocs
  net : ConnectIo
  flush : MemIo
  thread : Bool

section

variable (printNumber : List UInt8 → List UInt8) (openssl : Bool) (io : StartMemIo) (wsUri : CStr)
variable (uuid : Option CStr) (sampling channels : ℤ) (metadata : Option CStr)

/-- The split of the start metadata. -/
def StartMemIo.params (io : StartMemIo) (metadata : Option CStr) : SplitResult :=
  splitMetadataAlloc io.split (keptMetadata metadata)

/-- The connection opens. -/
def StartMemIo.connects : Bool := io.net.opens openssl wsUri (io.params metadata).extraHeaders

theorem max_uri_pos : Fact (0 < RTW_MAX_WS_URI) := ⟨by decide⟩

/-- The bridge's copy of the URI. -/
def keptUri : CStr := (@CBuf.copy RTW_MAX_WS_URI max_uri_pos wsUri).toCStr

/-- The session identifier that the two stream identifiers are made of. -/
def sessionId : CStr := (CBuf.copy RTW_SID_MAX (uuid.getD (.lit "unknown"))).toCStr

/-- The session's start, as `rtw_bridge_start` calls it. -/
def startSession (session : Session) : ℤ × Session :=
  rtwSessionStart io.start.start session (makeStreamSid (some (sessionId uuid))).toCStr
    (some (makeCallSid (some (sessionId uuid))).toCStr)
    (some (.lit "ACmodrealtimews0000000000000000000"))
    ((io.params metadata).peerParams.map (PeerParams.text printNumber))

/-- `rtw_bridge_start` with everything that can fail in it. -/
def bridgeStarts : Option Tech :=
  if sampling ≠ 8000 ∧ sampling ≠ 16000 ∧ sampling.tmod 8000 ≠ 0 then none
  else if io.calloc = false then none
  else if io.mutex = false then none
  else if (io.params metadata).rc ≠ 0 then none
  else match rtwSessionInit io.start.queueOk io.start.playoutOk 256 (64 * 1024) with
    | none => none
    | some session =>
      let r := startSession printNumber io uuid metadata session
      if r.1 ≠ 0 then none
      else if io.connects openssl wsUri metadata = false then none
      else if io.thread = false then none
      else some (flushOutbound io.start.flush (openTech io.start
        (makeStreamSid (some (sessionId uuid))) (makeCallSid (some (sessionId uuid)))
        sampling channels r.2))

/-- The requests whose refusal a start looks at. A refused print of the peer's parameters, an item
of a message, a frame or one of several addresses does not end it. -/
structure Granted : Prop where
  rate : sampling = 8000 ∨ sampling = 16000 ∨ sampling.tmod 8000 = 0
  calloc : io.calloc = true
  mutex : io.mutex = true
  split : (io.params metadata).rc = 0
  queue : io.start.queueOk = true
  playout : io.start.playoutOk = true
  copy : (((io.params metadata).peerParams.map (PeerParams.text printNumber)).filter
    fun c => c.bytes ≠ []).isSome = true → io.start.start.buffer = true
  connected : io.start.start.enqueue 0 = .stored
  greeted : io.start.start.enqueue 1 = .stored
  connects : io.connects openssl wsUri metadata = true
  thread : io.thread = true

namespace Mem

def techFreeMeta (extraHeaders peerCustomParams : Option Pointer) : Heap Unit := do
  release? extraHeaders
  release? peerCustomParams

/-- The common end of every failure behind the split, and of `rtw_bridge_stop`. -/
def freeShell (block mutex : Pointer) (extraHeaders peerCustomParams : Option Pointer) :
    Heap Unit := do
  techFreeMeta extraHeaders peerCustomParams
  release mutex
  release block

def closeWs : Option ClientMem → Heap Unit
  | none => return ()
  | some c => Core.Mem.rtwWsClose c

/-- `rtw_bridge_start` from the connection on. -/
def openBridge (t : Tech) (m : TechMem) : Heap (Option TechMem) := do
  match ← Core.Mem.rtwWsConnectEx io.net openssl wsUri m.headers with
  | none => do
    Core.Mem.rtwSessionDestroy m.session
    freeShell m.block m.mutex m.extraHeaders m.peerCustomParams
    return none
  | some ws => do
    let m ← flushOutbound io.start.flush io.flush t { m with ws := some ws }
    match ← acquire io.thread .thread with
    | none => do
      closeWs m.ws
      Core.Mem.rtwSessionDestroy m.session
      freeShell m.block m.mutex m.extraHeaders m.peerCustomParams
      return none
    | some worker => return some { m with worker := some worker }

/-- `rtw_bridge_start` from the session on, for the session and its memory. -/
def openSession (block mutex : Pointer) (extraHeaders peerCustomParams : Option Pointer) :
    Heap (Option TechMem) := do
  match ← Core.Mem.rtwSessionInit io.start.queueOk io.start.playoutOk 256 (64 * 1024),
    rtwSessionInit io.start.queueOk io.start.playoutOk 256 (64 * 1024) with
  | some m, some s => do
    let r ← Core.Mem.rtwSessionStart io.start.start io.allocs m
      ((io.params metadata).peerParams.map (PeerParams.text printNumber))
    if r.1 ≠ 0 then do
      Core.Mem.rtwSessionDestroy r.2
      freeShell block mutex extraHeaders peerCustomParams
      return none
    else
      openBridge openssl io wsUri (openTech io.start (makeStreamSid (some (sessionId uuid)))
        (makeCallSid (some (sessionId uuid))) sampling channels
        (startSession printNumber io uuid metadata s).2)
        ⟨block, mutex, extraHeaders, peerCustomParams, r.2, none, none, keptUri wsUri,
          (io.params metadata).extraHeaders⟩
  | _, _ => do
    freeShell block mutex extraHeaders peerCustomParams
    return none

def rtwBridgeStart : Heap (Option TechMem) :=
  if sampling ≠ 8000 ∧ sampling ≠ 16000 ∧ sampling.tmod 8000 ≠ 0 then return none
  else do
    match ← acquire io.calloc .block with
    | none => return none
    | some block =>
      match ← acquire io.mutex .mutex with
      | none => do
        release block
        return none
      | some mutex =>
        match ← splitMetadata io.split (keptMetadata metadata) with
        | none => do
          release mutex
          release block
          return none
        | some p =>
          openSession printNumber openssl io wsUri uuid sampling channels metadata block mutex
            p.1 p.2

end Mem

end

theorem freeShell_accounts {block mutex : Pointer} {extraHeaders peerCustomParams : Option Pointer} :
    Accounts L (held extraHeaders + held peerCustomParams + {mutex} + {block})
      (Mem.freeShell block mutex extraHeaders peerCustomParams) (fun _ => True) (fun _ => 0) := by
  have hmeta : Accounts L (held extraHeaders + held peerCustomParams)
      (Mem.techFreeMeta extraHeaders peerCustomParams) (fun _ => True) (fun _ => 0) :=
    Accounts.release?_bind rfl (Accounts.release? peerCustomParams)
  unfold Mem.freeShell
  refine hmeta.bind (R := {mutex} + {block}) (by abel) fun _ _ => ?_
  rw [zero_add]
  exact Accounts.release_bind rfl (Accounts.release block)

theorem closeWs_accounts (ws : Option ClientMem) :
    Accounts L (ws.elim 0 ClientMem.owned) (Mem.closeWs ws) (fun _ => True) (fun _ => 0) := by
  cases ws with
  | none => exact Accounts.pure trivial rfl
  | some c => exact rtwWsClose_accounts c

section

variable {printNumber : List UInt8 → List UInt8} {openssl : Bool} {io : StartMemIo} {wsUri : CStr}
variable {uuid : Option CStr} {sampling channels : ℤ} {metadata : Option CStr}

theorem openBridge_accounts {t : Tech} {m : TechMem} (hsession : m.session.Mirrors t.session)
    (ht : t.ws.isSome = true) (hws : m.ws = none) (hworker : m.worker = none) :
    Accounts L m.owned (Mem.openBridge openssl io wsUri t m)
      (fun r => r.isSome = (io.net.opens openssl wsUri m.headers && io.thread) ∧
        ∀ m' ∈ r, m'.Mirrors (flushOutbound io.start.flush t) ∧ m'.worker.isSome)
      (fun r => r.elim 0 TechMem.owned) := by
  have hshell : m.owned = m.session.owned +
      (held m.extraHeaders + held m.peerCustomParams + {m.mutex} + {m.block}) := by
    simp only [TechMem.owned, TechMem.client, hws, hworker, held_none, Option.elim_none]
    abel
  unfold Mem.openBridge
  refine (rtwWsConnectEx_accounts io.net openssl wsUri m.headers).bind (zero_add _).symm
    fun ws hopens => ?_
  rw [← hopens]
  cases ws with
  | none =>
    refine (rtwSessionDestroy_accounts m.session).bind ((zero_add _).trans hshell) fun _ _ => ?_
    rw [zero_add]
    refine freeShell_accounts.bind (add_zero _).symm fun _ _ => Accounts.pure ⟨rfl, ?_⟩ rfl
    rintro m' ⟨⟩
  | some ws =>
    refine (flushOutbound_accounts io.start.flush io.flush (m := { m with ws := some ws })
      ⟨hsession, ht.symm⟩).bind (R := 0) ?_ fun m' hm => ?_
    · rw [hshell]
      simp only [TechMem.owned, TechMem.client, hworker, held_none, Option.elim_some]
      abel
    obtain ⟨hmirrors, hsame⟩ := hm
    have hnone : m'.worker = none := by
      rw [hsame]
      exact hworker
    rw [add_zero]
    refine Accounts.acquire_bind (fun hno => ?_) fun hyes worker => ?_
    · rw [hno]
      refine (closeWs_accounts m'.ws).bind (R := m'.session.owned +
        (held m'.extraHeaders + held m'.peerCustomParams + {m'.mutex} + {m'.block})) ?_
          fun _ _ => ?_
      · simp only [TechMem.owned, TechMem.client, hnone, held_none]
        abel
      refine (rtwSessionDestroy_accounts m'.session).bind (zero_add _) fun _ _ => ?_
      rw [zero_add]
      refine freeShell_accounts.bind (add_zero _).symm fun _ _ => Accounts.pure ⟨rfl, ?_⟩ rfl
      rintro m ⟨⟩
    · rw [hyes]
      refine Accounts.pure ⟨rfl, ?_⟩ ?_
      · rintro m ⟨⟩
        exact ⟨⟨hmirrors.session, hmirrors.ws⟩, rfl⟩
      · simp only [Option.elim_some, TechMem.owned, TechMem.client, hnone, held_none, held_some]
        abel

/-- A start that returned a bridge is the start of the model, and so is its failure. -/
def Starts (r : Option TechMem) (o : Option Tech) : Prop :=
  r.isSome = o.isSome ∧ ∀ m ∈ r, ∀ t ∈ o, m.Mirrors t ∧ m.worker.isSome

theorem starts_none : Starts none none := by
  refine ⟨rfl, ?_⟩
  rintro m ⟨⟩

theorem openSession_accounts (hL : MayLose L (io.allocs 1).attaches) (block mutex : Pointer)
    (extraHeaders peerCustomParams : Option Pointer) :
    Accounts L (held extraHeaders + held peerCustomParams + {mutex} + {block})
      (Mem.openSession printNumber openssl io wsUri uuid sampling channels metadata block mutex
        extraHeaders peerCustomParams)
      (fun r => Starts r
        (match rtwSessionInit io.start.queueOk io.start.playoutOk 256 (64 * 1024) with
        | none => none
        | some session =>
          let r := startSession printNumber io uuid metadata session
          if r.1 ≠ 0 then none
          else if io.connects openssl wsUri metadata = false then none
          else if io.thread = false then none
          else some (flushOutbound io.start.flush (openTech io.start
            (makeStreamSid (some (sessionId uuid))) (makeCallSid (some (sessionId uuid)))
            sampling channels r.2))))
      (fun r => r.elim 0 TechMem.owned) := by
  unfold Mem.openSession
  refine (rtwSessionInit_accounts io.start.queueOk io.start.playoutOk 256 (64 * 1024)).bind
    (zero_add _).symm fun session hsession => ?_
  obtain ⟨hsome, hmirrors⟩ := hsession
  cases session with
  | none =>
    rw [eq_none_of_isSome hsome]
    refine freeShell_accounts.bind (R := 0) ?_ fun _ _ => Accounts.pure starts_none rfl
    rw [Option.elim_none, zero_add, add_zero]
  | some m =>
    obtain ⟨s, hs⟩ := Option.isSome_iff_exists.mp hsome.symm
    rw [hs] at hmirrors ⊢
    dsimp only [Option.elim_some]
    refine (rtwSessionStart_accounts io.start.start hL (hmirrors m rfl s rfl)
      (makeStreamSid (some (sessionId uuid))).toCStr
      (some (makeCallSid (some (sessionId uuid))).toCStr)
      (some (.lit "ACmodrealtimews0000000000000000000"))
      ((io.params metadata).peerParams.map (PeerParams.text printNumber))).bind rfl fun r hr => ?_
    rw [← startSession] at hr
    rw [← hr.1]
    by_cases hfailed : r.1 ≠ 0
    · rw [if_pos hfailed, if_pos hfailed]
      refine (rtwSessionDestroy_accounts r.2).bind rfl fun _ _ => ?_
      rw [zero_add]
      exact freeShell_accounts.bind (add_zero _).symm fun _ _ => Accounts.pure starts_none rfl
    · rw [if_neg hfailed, if_neg hfailed]
      refine ((openBridge_accounts hr.2 rfl rfl rfl).weaken (fun b hb => ?_) fun _ _ => rfl).of_eq
        ?_
      · obtain ⟨hsome, hbridge⟩ := hb
        change b.isSome = (io.connects openssl wsUri metadata && io.thread) at hsome
        refine ⟨?_, ?_⟩
        · rw [hsome]
          cases io.connects openssl wsUri metadata <;> cases io.thread <;> rfl
        · intro m hm t ht
          have hok : (io.connects openssl wsUri metadata && io.thread) = true := by
            rw [← hsome]
            exact Option.isSome_of_mem hm
          obtain ⟨hconnects, hthread⟩ := Bool.and_eq_true_iff.mp hok
          rw [if_neg (by rw [hconnects]; simp), if_neg (by rw [hthread]; simp)] at ht
          rw [← Option.some.inj ht]
          exact hbridge m hm
      · simp only [TechMem.owned, TechMem.client, held_none, Option.elim_none]
        abel

end

/-- `rtw_bridge_start` takes everything a bridge owns, or nothing. -/
theorem rtwBridgeStart_accounts (printNumber : List UInt8 → List UInt8) (openssl : Bool)
    {io : StartMemIo} (hL : MayLose L (io.allocs 1).attaches) (wsUri : CStr) (uuid : Option CStr)
    (sampling channels : ℤ) (metadata : Option CStr) :
    Accounts L 0 (Mem.rtwBridgeStart printNumber openssl io wsUri uuid sampling channels metadata)
      (fun r => Starts r
        (bridgeStarts printNumber openssl io wsUri uuid sampling channels metadata))
      (fun r => r.elim 0 TechMem.owned) := by
  unfold Mem.rtwBridgeStart bridgeStarts
  by_cases hrate : sampling ≠ 8000 ∧ sampling ≠ 16000 ∧ sampling.tmod 8000 ≠ 0
  · rw [if_pos hrate, if_pos hrate]
    exact Accounts.pure starts_none rfl
  rw [if_neg hrate, if_neg hrate]
  refine Accounts.acquire_bind (fun hno => ?_) fun hcalloc block => ?_
  · rw [if_pos hno]
    exact Accounts.pure starts_none rfl
  rw [if_neg (by rw [hcalloc]; simp)]
  refine Accounts.acquire_bind (fun hno => ?_) fun hmutex mutex => ?_
  · rw [if_pos hno]
    exact Accounts.release_bind rfl (Accounts.pure starts_none rfl)
  rw [if_neg (by rw [hmutex]; simp)]
  refine (splitMetadata_accounts io.split (keptMetadata metadata)).bind (zero_add _).symm
    fun p hp => ?_
  obtain ⟨hrc, -⟩ := hp
  cases p with
  | none =>
    have hfailed : (io.params metadata).rc ≠ 0 := of_decide_eq_false hrc.symm
    rw [if_pos hfailed]
    refine Accounts.release_bind (R := {block}) ?_ ?_
    · rw [splitOwned, Option.elim_none]
      abel
    · exact Accounts.release_bind (add_zero _).symm (Accounts.pure starts_none rfl)
  | some p =>
    have hok : ¬(io.params metadata).rc ≠ 0 := not_not.mpr (of_decide_eq_true hrc.symm)
    rw [if_neg hok]
    refine (openSession_accounts hL block mutex p.1 p.2).of_eq ?_
    rw [splitOwned, Option.elim_some]
    abel

/-- A call that returns -1 has failed. -/
private theorem failed_rc : (-1 : ℤ) ≠ 0 := by decide

theorem enqueueJson_rc_iff (o : EnqueueOutcome) (s : Session) (m : OutMsg) :
    (enqueueJson o s (some m)).1 = 0 ↔ o = .stored := by
  cases o with
  | stored => exact ⟨fun _ => rfl, fun _ => rfl⟩
  | noJson | noCopy =>
    exact ⟨fun h => absurd h failed_rc, fun h => absurd h (by decide)⟩

theorem enqueueHandshake_rc_iff (env : Env) (s : Session) :
    (enqueueHandshake env s).1 = 0 ↔ env.enqueue 0 = .stored ∧ env.enqueue 1 = .stored := by
  have hconnected := enqueueJson_rc_iff (env.enqueue 0) s
    (rtwBuildConnected (some (.lit "1.0.0")))
  have hstart := enqueueJson_rc_iff (env.enqueue 1)
  unfold enqueueHandshake
  dsimp only
  split_ifs with hfailed hrefused
  · exact ⟨fun h => absurd h failed_rc, fun h => absurd (hconnected.mpr h.1) hfailed⟩
  · exact ⟨fun h => absurd h failed_rc, fun h => absurd ((hstart _ _).mpr h.2) hrefused⟩
  · exact ⟨fun _ => ⟨hconnected.mp (not_not.mp hfailed), (hstart _ _).mp (not_not.mp hrefused)⟩,
      fun _ => rfl⟩

section

variable {printNumber : List UInt8 → List UInt8} {openssl : Bool} {io : StartMemIo} {wsUri : CStr}
variable {uuid : Option CStr} {sampling channels : ℤ} {metadata : Option CStr}

theorem startSession_rc_iff (session : Session) :
    (startSession printNumber io uuid metadata session).1 = 0 ↔
      ((((io.params metadata).peerParams.map (PeerParams.text printNumber)).filter
        fun c => c.bytes ≠ []).isSome = true → io.start.start.buffer = true) ∧
      io.start.start.enqueue 0 = .stored ∧ io.start.start.enqueue 1 = .stored := by
  unfold startSession rtwSessionStart
  dsimp only
  split_ifs with hcopy hfailed
  · refine ⟨fun h => absurd h failed_rc, fun h => ?_⟩
    exact absurd ((h.1 hcopy.1).symm.trans hcopy.2) (by decide)
  · exact ⟨fun h => absurd h failed_rc,
      fun h => absurd ((enqueueHandshake_rc_iff _ _).mpr h.2) hfailed⟩
  · refine ⟨fun _ => ⟨fun hsome => ?_, (enqueueHandshake_rc_iff _ _).mp (not_not.mp hfailed)⟩,
      fun _ => rfl⟩
    rw [← Bool.not_eq_false]
    exact fun hno => hcopy ⟨hsome, hno⟩

/-- One check on the way of a start. -/
theorem isSome_guard {α : Type} {c : Prop} [Decidable c] {o : Option α} :
    (if c then none else o).isSome = true ↔ ¬c ∧ o.isSome = true := by
  by_cases hc : c
  · rw [if_pos hc]
    exact ⟨fun h => absurd h Bool.false_ne_true, fun h => absurd hc h.1⟩
  · rw [if_neg hc]
    exact ⟨fun h => ⟨hc, h⟩, fun h => h.2⟩

/-- A start returns a bridge exactly when everything it looks at is granted. -/
theorem bridgeStarts_isSome_iff :
    (bridgeStarts printNumber openssl io wsUri uuid sampling channels metadata).isSome = true ↔
      Granted printNumber openssl io wsUri sampling metadata := by
  have hinit : (rtwSessionInit io.start.queueOk io.start.playoutOk 256 (64 * 1024)).isSome =
      (io.start.queueOk && io.start.playoutOk) := by
    cases io.start.queueOk <;> cases io.start.playoutOk <;> rfl
  unfold bridgeStarts
  rw [isSome_guard, isSome_guard, isSome_guard, isSome_guard]
  constructor
  · rintro ⟨hrate, hcalloc, hmutex, hsplit, h⟩
    cases hsession : rtwSessionInit io.start.queueOk io.start.playoutOk 256 (64 * 1024) with
    | none =>
      rw [hsession] at h
      cases h
    | some session =>
      rw [hsession] at h hinit
      dsimp only at h
      rw [isSome_guard, isSome_guard, isSome_guard] at h
      obtain ⟨hstarts, hconnects, hthread, -⟩ := h
      obtain ⟨hqueue, hplayout⟩ := Bool.and_eq_true_iff.mp hinit.symm
      obtain ⟨hcopy, hconnected, hgreeted⟩ := (startSession_rc_iff session).mp (not_not.mp hstarts)
      exact ⟨by omega, Bool.eq_true_of_not_eq_false hcalloc, Bool.eq_true_of_not_eq_false hmutex,
        not_not.mp hsplit, hqueue, hplayout, hcopy, hconnected, hgreeted,
        Bool.eq_true_of_not_eq_false hconnects, Bool.eq_true_of_not_eq_false hthread⟩
  · intro h
    have hrate := h.rate
    rw [h.queue, h.playout, Bool.and_self] at hinit
    obtain ⟨session, hsession⟩ := Option.isSome_iff_exists.mp hinit
    have hstarts : (startSession printNumber io uuid metadata session).1 = 0 :=
      (startSession_rc_iff session).mpr ⟨h.copy, h.connected, h.greeted⟩
    refine ⟨by omega, Bool.not_eq_false _ ▸ h.calloc, Bool.not_eq_false _ ▸ h.mutex,
      not_not.mpr h.split, ?_⟩
    rw [h.queue, h.playout, hsession]
    dsimp only
    rw [isSome_guard, isSome_guard, isSome_guard]
    exact ⟨not_not.mpr hstarts, Bool.not_eq_false _ ▸ h.connects, Bool.not_eq_false _ ▸ h.thread,
      rfl⟩

end

/-- Whatever fails on the way, a start is done for all it took: it commits no fault, returns a
bridge just when the model does, which is when everything it looks at is granted, and leaves
beside what was there what that bridge owns. Trees are lost only where the `start` message has no
place for one, because an item it goes into was refused. -/
theorem start_takes_all_or_nothing (printNumber : List UInt8 → List UInt8) (openssl : Bool)
    (io : StartMemIo) (wsUri : CStr) (uuid : Option CStr) (sampling channels : ℤ)
    (metadata : Option CStr) {s : Ledger Resource} (hok : s.faulted = false) :
    let r := Mem.rtwBridgeStart printNumber openssl io wsUri uuid sampling channels metadata s
    r.2.faulted = false ∧
      Starts r.1 (bridgeStarts printNumber openssl io wsUri uuid sampling channels metadata) ∧
      (r.1.isSome = true ↔ Granted printNumber openssl io wsUri sampling metadata) ∧
      ∃ lost, r.2.live = r.1.elim 0 TechMem.owned + lost + s.live ∧
        (∀ p ∈ lost, p.kind = .tree) ∧ ((io.allocs 1).attaches = true → lost = 0) := by
  intro r
  have hL : MayLose (fun p => p.kind = .tree ∧ (io.allocs 1).attaches = false)
      (io.allocs 1).attaches := fun hno _ htree => ⟨htree, hno⟩
  obtain ⟨hsound, hstarts, lost, hlost, hlive⟩ := rtwBridgeStart_accounts printNumber openssl hL
    wsUri uuid sampling channels metadata s s.live hok (zero_add s.live).symm
  refine ⟨hsound, hstarts, ?_, lost, hlive, fun p hp => (hlost p hp).1, fun hall => ?_⟩
  · rw [hstarts.1]
    exact bridgeStarts_isSome_iff
  · refine Multiset.eq_zero_of_forall_notMem fun p hp => ?_
    cases hall.symm.trans (hlost p hp).2

theorem bridgeStarts_threadless {printNumber : List UInt8 → List UInt8} {openssl : Bool}
    {io : StartMemIo} (hthread : io.thread = false) {wsUri : CStr} {uuid : Option CStr}
    {sampling channels : ℤ} {metadata : Option CStr} :
    bridgeStarts printNumber openssl io wsUri uuid sampling channels metadata = none := by
  unfold bridgeStarts
  cases rtwSessionInit io.start.queueOk io.start.playoutOk 256 (64 * 1024) with
  | none => simp only [ite_self]
  | some session => simp only [hthread, if_true, ite_self]

/-- Everything is granted but the thread of the worker, the last thing a start asks for. -/
def threadless : StartMemIo where
  start := ⟨false, false, true, true, .calm, true, .calm⟩
  calloc := true
  mutex := true
  split := .plenty
  allocs _ := .plenty
  net := ⟨true, [⟨true, true⟩], true, true, true, true, true, true, true, true, true⟩
  flush := ⟨fun _ _ => .plenty, fun _ => true, fun _ => true⟩
  thread := false

/-- With no thread to be had, everything that was taken before is given back. -/
theorem start_without_thread :
    let r := Mem.rtwBridgeStart id true threadless (.lit "ws://host/media") none 8000 1 none .empty
    r.1 = none ∧ r.2.faulted = false ∧ r.2.live = 0 := by
  have hnone : bridgeStarts id true threadless (.lit "ws://host/media") none 8000 1 none = none :=
    bridgeStarts_threadless rfl
  obtain ⟨hok, hstarts, -, lost, hlive, -, hnothing⟩ := start_takes_all_or_nothing id true
    threadless (.lit "ws://host/media") none 8000 1 none (s := .empty) rfl
  rw [hnone] at hstarts
  have hr := eq_none_of_isSome hstarts.1.symm
  rw [hr, hnothing rfl] at hlive
  exact ⟨hr, hok, hlive⟩

/-! ### The start of the model -/

theorem splitMetadataAlloc_plenty (metadata : Option CStr) :
    (splitMetadataAlloc .plenty metadata).rc = 0 := by
  cases metadata with
  | none => rfl
  | some metadata =>
    by_cases hne : metadata.bytes = []
    · have hfilter : (some metadata).filter (fun m : CStr => m.bytes ≠ []) = none := by
        simp [hne]
      unfold splitMetadataAlloc
      rw [hfilter]
    by_cases hobject : ∃ members, cJSONParse metadata = some (.object members)
    · obtain ⟨members, hparse⟩ := hobject
      rw [splitMetadataAlloc_object hparse, if_neg (by simp [SplitAllocs.plenty])]
      simp only [SplitAllocs.plenty, appendHeaders_plenty]
    · rw [splitMetadataAlloc_raw hne (not_exists.mp hobject)]
      rfl

/-- Where only what the model of `rtw_bridge_start` lets fail can fail, this is that model. -/
theorem bridgeStarts_eq (printNumber : List UInt8 → List UInt8) (openssl : Bool) {io : StartMemIo}
    (hcalloc : io.calloc = true) (hmutex : io.mutex = true) (hthread : io.thread = true)
    (hsplit : io.split = .plenty) (wsUri : CStr) (uuid : Option CStr) (sampling channels : ℤ)
    (metadata : Option CStr) :
    bridgeStarts printNumber openssl io wsUri uuid sampling channels metadata =
      rtwBridgeStart printNumber
        { io.start with connect := io.connects openssl wsUri metadata } uuid sampling channels
          metadata := by
  have hrc : ¬(io.params metadata).rc ≠ 0 := by
    rw [StartMemIo.params, hsplit]
    exact not_not.mpr (splitMetadataAlloc_plenty _)
  have hparams : (io.params metadata).peerParams.map (PeerParams.text printNumber) =
      (splitMetadata printNumber (keptMetadata metadata)).2 := by
    rw [StartMemIo.params, hsplit, splitMetadata_eq]
  rw [rtwBridgeStart_eq]
  unfold bridgeStarts rtwBridgeOpen startSession sessionId
  by_cases hrate : sampling ≠ 8000 ∧ sampling ≠ 16000 ∧ sampling.tmod 8000 ≠ 0
  · rw [if_pos hrate, if_pos hrate]
    rfl
  rw [if_neg hrate, if_neg hrate, if_neg (by rw [hcalloc]; simp), if_neg (by rw [hmutex]; simp),
    if_neg hrc, hparams]
  dsimp only
  cases rtwSessionInit io.start.queueOk io.start.playoutOk 256 (64 * 1024) with
  | none => rfl
  | some session =>
    dsimp only
    rw [if_neg (show ¬io.thread = false by rw [hthread]; simp)]
    split_ifs <;> rfl

end RealtimeWs.Mod
