import RealtimeWs.Core.QueueMemory
import RealtimeWs.Core.Url

/-! What a connection holds: its socket, its TLS objects and its buffers. Opening one takes
them one after another and may fail at each. -/
namespace RealtimeWs.Core

open Ledger

/-- `rtw_ws_client_t` -/
structure ClientMem where
  block : Pointer
  fd : Pointer
  extraHeaders : Option Pointer
  rx : Pointer
  sslCtx : Option Pointer
  ssl : Option Pointer

def ClientMem.owned (c : ClientMem) : Multiset Pointer :=
  held c.ssl + held c.sslCtx + {c.fd} + held c.extraHeaders + {c.rx} + {c.block}

/-- One address that `getaddrinfo` found: a socket is made for it, and it accepts. -/
structure Address where
  socket : Bool
  connect : Bool

/-- What opening a connection meets. -/
structure ConnectIo where
  resolved : Bool
  addresses : List Address
  calloc : Bool
  strdup : Bool
  rx : Bool
  sslCtx : Bool
  ssl : Bool
  sslConnect : Bool
  request : Bool
  written : Bool
  upgraded : Bool

def ConnectIo.tls (io : ConnectIo) : Bool := io.sslCtx && io.ssl && io.sslConnect

def ConnectIo.handshake (io : ConnectIo) : Bool := io.request && io.written && io.upgraded

/-- The header block is copied unless it is empty. -/
def wantsHeaders (extraHeaders : Option CStr) : Bool := (extraHeaders.filter (·.bytes ≠ [])).isSome

local instance hostRoom : Fact (0 < HOST_MAX) := ⟨by decide⟩

local instance pathRoom : Fact (0 < URL_PATH_MAX) := ⟨by decide⟩

/-- The `use_tls` of an address that `parse_url` accepts. -/
def urlTls (openssl : Bool) (url : CStr) : Option Bool :=
  (parseUrl HOST_MAX URL_PATH_MAX openssl url).map fun u => u.useTls

/-- A connection opens. -/
def ConnectIo.opens (io : ConnectIo) (openssl : Bool) (url : CStr) (extraHeaders : Option CStr) :
    Bool :=
  match urlTls openssl url with
  | none => false
  | some useTls =>
    io.resolved && (io.addresses.any fun a => a.socket && a.connect) && io.calloc &&
      (!wantsHeaders extraHeaders || io.strdup) && io.rx && (!useTls || io.tls) && io.handshake

namespace Mem

/-- The loop over the addresses: every socket but the one that connects is closed again. -/
def openSocket : List Address → Heap (Option Pointer)
  | [] => return none
  | a :: as => do
    match ← acquire a.socket .socket with
    | none => openSocket as
    | some fd =>
      if a.connect then return some fd
      else do
        release fd
        openSocket as

/-- A failed set-up leaves what it made to the caller. -/
def tlsSetup (io : ConnectIo) (c : ClientMem) : Heap (Bool × ClientMem) := do
  match ← acquire io.sslCtx .sslCtx with
  | none => return (false, c)
  | some ctx =>
    match ← acquire io.ssl .ssl with
    | none => return (false, { c with sslCtx := some ctx })
    | some ssl => do
      use c.fd
      return (io.sslConnect, { c with sslCtx := some ctx, ssl := some ssl })

def httpHandshake (io : ConnectIo) (c : ClientMem) : Heap Bool := do
  match ← acquire io.request .block with
  | none => return false
  | some req => do
    use c.fd
    release req
    if io.written = false then return false
    else do
      use c.fd
      return io.upgraded

def rtwWsClose (c : ClientMem) : Heap Unit := do
  use c.block
  release? c.ssl
  release? c.sslCtx
  release c.fd
  release? c.extraHeaders
  release c.rx
  release c.block

def tlsIfUsed (io : ConnectIo) (useTls : Bool) (c : ClientMem) : Heap (Bool × ClientMem) :=
  if useTls then tlsSetup io c else return (true, c)

def copyHeaders (io : ConnectIo) (extraHeaders : Option CStr) : Heap (Option Pointer) :=
  if wantsHeaders extraHeaders then acquire io.strdup .block else return none

/-- The end of `rtw_ws_connect_ex`, with the client complete but for TLS. -/
def shakeHands (io : ConnectIo) (useTls : Bool) (c : ClientMem) : Heap (Option ClientMem) := do
  let r ← tlsIfUsed io useTls c
  if r.1 = false then do
    rtwWsClose r.2
    return none
  else do
    let upgraded ← httpHandshake io r.2
    if upgraded = false then do
      rtwWsClose r.2
      return none
    else return some r.2

/-- `rtw_ws_connect_ex` from the socket on. -/
def makeClient (io : ConnectIo) (useTls : Bool) (extraHeaders : Option CStr) (fd : Pointer) :
    Heap (Option ClientMem) := do
  match ← acquire io.calloc .block with
  | none => do
    release fd
    return none
  | some block =>
    let extra ← copyHeaders io extraHeaders
    if wantsHeaders extraHeaders ∧ extra = none then do
      release fd
      release block
      return none
    else
      match ← acquire io.rx .block with
      | none => do
        release fd
        release? extra
        release block
        return none
      | some rx => shakeHands io useTls ⟨block, fd, extra, rx, none, none⟩

def rtwWsConnectEx (io : ConnectIo) (openssl : Bool) (url : CStr) (extraHeaders : Option CStr) :
    Heap (Option ClientMem) :=
  match urlTls openssl url with
  | none => return none
  | some useTls => do
    match ← acquire io.resolved .addrinfo with
    | none => return none
    | some res => do
      let fd ← openSocket io.addresses
      release res
      match fd with
      | none => return none
      | some fd => makeClient io useTls extraHeaders fd

/-- `/dev/urandom` is opened for the key, if it is there. -/
def maskKey (urandom : Bool) : Heap Unit := do
  match ← acquire urandom .file with
  | none => return ()
  | some f => release f

/-- `text` is read into a frame that is freed when it is written. -/
def rtwWsSendText (urandom frame : Bool) (c : ClientMem) (text : Pointer) : Heap Unit := do
  use c.block
  maskKey urandom
  match ← acquire frame .block with
  | none => return ()
  | some frame => do
    use text
    use c.fd
    release frame

/-- `grow` is whether `realloc` finds room; without it the buffer is large enough. -/
def ensureRxCap (grow : Option Bool) (c : ClientMem) : Heap ClientMem := do
  use c.block
  match grow with
  | none => return c
  | some ok =>
    let rx ← exchange ok c.rx
    return { c with rx := rx.getD c.rx }

end Mem

variable {L : Pointer → Prop}

theorem block_mem_owned (c : ClientMem) : c.block ∈ c.owned :=
  Multiset.mem_add.mpr (Or.inr (Multiset.mem_singleton_self _))

theorem fd_mem_owned (c : ClientMem) : c.fd ∈ c.owned := by
  unfold ClientMem.owned
  simp

theorem rtwWsClose_accounts (c : ClientMem) :
    Accounts L c.owned (Mem.rtwWsClose c) (fun _ => True) (fun _ => 0) := by
  unfold Mem.rtwWsClose
  refine Accounts.use_bind (block_mem_owned c) ?_
  unfold ClientMem.owned
  refine Accounts.release?_bind
    (R := held c.sslCtx + {c.fd} + held c.extraHeaders + {c.rx} + {c.block}) (by abel) ?_
  refine Accounts.release?_bind (R := {c.fd} + held c.extraHeaders + {c.rx} + {c.block})
    (by abel) ?_
  refine Accounts.release_bind (R := held c.extraHeaders + {c.rx} + {c.block}) (by abel) ?_
  refine Accounts.release?_bind (R := {c.rx} + {c.block}) (by abel) ?_
  exact Accounts.release_bind rfl (Accounts.release c.block)

/-- Of the sockets that were made, the connected one is left. -/
theorem openSocket_accounts (addresses : List Address) :
    Accounts L 0 (Mem.openSocket addresses)
      (fun r => r.isSome = addresses.any fun a => a.socket && a.connect) held := by
  induction addresses with
  | nil => exact Accounts.pure rfl rfl
  | cons a as ih =>
    unfold Mem.openSocket
    rw [List.any_cons]
    refine Accounts.acquire_bind (fun hno => ?_) fun hyes fd => ?_
    · rw [hno, Bool.false_and, Bool.false_or]
      exact ih
    · rw [hyes, Bool.true_and]
      cases a.connect with
      | true => exact Accounts.pure rfl (add_zero _).symm
      | false => exact Accounts.release_bind rfl ih

theorem tlsSetup_accounts (io : ConnectIo) {c : ClientMem} (h : c.sslCtx = none ∧ c.ssl = none) :
    Accounts L c.owned (Mem.tlsSetup io c) (fun r => r.1 = io.tls) (fun r => r.2.owned) := by
  obtain ⟨hctx, hssl⟩ := h
  unfold Mem.tlsSetup ConnectIo.tls
  refine Accounts.acquire_bind (fun hno => ?_) fun hctxOk ctx => ?_
  · rw [hno]
    exact Accounts.pure rfl rfl
  rw [hctxOk]
  refine Accounts.acquire_bind (fun hno => ?_) fun hsslOk ssl => ?_
  · rw [hno]
    refine Accounts.pure rfl ?_
    simp only [ClientMem.owned, hctx, hssl, held_none, held_some]
    abel
  · rw [hsslOk]
    refine Accounts.use_bind (by simp [fd_mem_owned]) (Accounts.pure rfl ?_)
    simp only [ClientMem.owned, hctx, hssl, held_none, held_some]
    abel

theorem httpHandshake_accounts (io : ConnectIo) (c : ClientMem) :
    Accounts L c.owned (Mem.httpHandshake io c) (fun r => r = io.handshake) (fun _ => c.owned) := by
  unfold Mem.httpHandshake ConnectIo.handshake
  refine Accounts.acquire_bind (fun hno => ?_) fun hyes req => ?_
  · rw [hno]
    exact Accounts.pure rfl rfl
  rw [hyes]
  refine Accounts.use_bind (by simp [fd_mem_owned]) (Accounts.release_bind rfl ?_)
  cases io.written with
  | false => exact Accounts.pure rfl rfl
  | true => exact Accounts.use_bind (fd_mem_owned c) (Accounts.pure rfl rfl)

theorem shakeHands_accounts (io : ConnectIo) (useTls : Bool) {c : ClientMem}
    (h : c.sslCtx = none ∧ c.ssl = none) :
    Accounts L c.owned (Mem.shakeHands io useTls c)
      (fun r => r.isSome = ((!useTls || io.tls) && io.handshake))
      (fun r => r.elim 0 ClientMem.owned) := by
  have hsetup : Accounts L c.owned (Mem.tlsIfUsed io useTls c)
      (fun r => r.1 = (!useTls || io.tls)) (fun r => r.2.owned) := by
    unfold Mem.tlsIfUsed
    cases useTls with
    | true => exact tlsSetup_accounts io h
    | false => exact Accounts.pure rfl rfl
  have hclose : ∀ (c : ClientMem) {ok : Bool}, ok = false →
      Accounts L c.owned (do
        Mem.rtwWsClose c
        return none) (fun r => r.isSome = ok) (fun r => r.elim 0 ClientMem.owned) := by
    intro c ok hok
    refine (rtwWsClose_accounts c).bind (add_zero _).symm fun _ _ => ?_
    exact Accounts.pure hok.symm rfl
  unfold Mem.shakeHands
  refine hsetup.bind (add_zero _).symm fun r hr => ?_
  rw [← hr, add_zero]
  obtain ⟨ok, c'⟩ := r
  cases ok with
  | false => exact hclose c' rfl
  | true =>
    refine (httpHandshake_accounts io c').bind (add_zero _).symm fun upgraded hup => ?_
    rw [← hup, add_zero]
    cases upgraded with
    | false => exact hclose c' rfl
    | true => exact Accounts.pure rfl rfl

/-- From the socket on, a client is made of everything or of nothing. -/
theorem makeClient_accounts (io : ConnectIo) (useTls : Bool) (extraHeaders : Option CStr)
    (fd : Pointer) :
    Accounts L {fd} (Mem.makeClient io useTls extraHeaders fd)
      (fun r => r.isSome = (io.calloc && (!wantsHeaders extraHeaders || io.strdup) && io.rx &&
        (!useTls || io.tls) && io.handshake)) (fun r => r.elim 0 ClientMem.owned) := by
  unfold Mem.makeClient
  refine Accounts.acquire_bind (fun hno => ?_) fun hyes block => ?_
  · rw [hno]
    exact Accounts.release_bind (add_zero _).symm (Accounts.pure rfl rfl)
  rw [hyes]
  have hcopy : Accounts L 0 (Mem.copyHeaders io extraHeaders)
      (fun o => o.isSome = (wantsHeaders extraHeaders && io.strdup)) held := by
    unfold Mem.copyHeaders
    cases wantsHeaders extraHeaders with
    | true => exact Accounts.acquire io.strdup Resource.block
    | false => exact Accounts.pure rfl rfl
  refine hcopy.bind (zero_add _).symm fun extra hextra => ?_
  by_cases hfailed : wantsHeaders extraHeaders = true ∧ extra = none
  · obtain ⟨hwants, rfl⟩ := hfailed
    rw [hwants, Bool.true_and] at hextra
    rw [hwants, ← hextra, if_pos ⟨rfl, rfl⟩]
    refine Accounts.release_bind (R := {block}) ?_ ?_
    · rw [held_none]
      abel
    · exact Accounts.release_bind (add_zero _).symm (Accounts.pure rfl rfl)
  · have hok : (!wantsHeaders extraHeaders || io.strdup) = true := by
      cases hwants : wantsHeaders extraHeaders with
      | false => rfl
      | true =>
        rw [hwants, Bool.true_and] at hextra
        rw [Bool.not_true, Bool.false_or, ← hextra]
        exact Option.isSome_iff_ne_none.mpr fun hnone => hfailed ⟨hwants, hnone⟩
    rw [hok, if_neg hfailed]
    refine Accounts.acquire_bind (fun hno => ?_) fun hrx rx => ?_
    · rw [hno]
      refine Accounts.release_bind (R := held extra + {block}) (by abel) ?_
      refine Accounts.release?_bind rfl ?_
      exact Accounts.release_bind (add_zero _).symm (Accounts.pure rfl rfl)
    · rw [hrx]
      refine (shakeHands_accounts io useTls ⟨rfl, rfl⟩).of_eq ?_
      simp only [ClientMem.owned, held_none]
      abel

/-- `rtw_ws_connect_ex` returns a connection that owns all it took, or keeps nothing. -/
theorem rtwWsConnectEx_accounts (io : ConnectIo) (openssl : Bool) (url : CStr)
    (extraHeaders : Option CStr) :
    Accounts L 0 (Mem.rtwWsConnectEx io openssl url extraHeaders)
      (fun r => r.isSome = io.opens openssl url extraHeaders)
      (fun r => r.elim 0 ClientMem.owned) := by
  unfold Mem.rtwWsConnectEx ConnectIo.opens
  cases urlTls openssl url with
  | none => exact Accounts.pure rfl rfl
  | some useTls =>
    dsimp only
    refine Accounts.acquire_bind (fun hno => ?_) fun hyes res => ?_
    · rw [hno]
      exact Accounts.pure rfl rfl
    rw [hyes]
    refine (openSocket_accounts io.addresses).bind (zero_add _).symm fun fd hfd => ?_
    rw [← hfd]
    refine Accounts.release_bind (R := held fd) (by abel) ?_
    cases fd with
    | none => exact Accounts.pure rfl rfl
    | some fd => exact makeClient_accounts io useTls extraHeaders fd

theorem maskKey_accounts (urandom : Bool) :
    Accounts L 0 (Mem.maskKey urandom) (fun _ => True) (fun _ => 0) := by
  unfold Mem.maskKey
  refine Accounts.acquire_bind (fun _ => Accounts.pure trivial rfl) fun _ f => ?_
  exact (Accounts.release f).of_eq (add_zero _)

/-- Sending reads the client and the text and keeps nothing. -/
theorem rtwWsSendText_accounts (urandom frame : Bool) {c : ClientMem} {text : Pointer}
    {P : Multiset Pointer} (hc : c.owned ≤ P) (htext : text ∈ P) :
    Accounts L P (Mem.rtwWsSendText urandom frame c text) (fun _ => True) (fun _ => P) := by
  have hblock := Multiset.mem_of_le hc (block_mem_owned c)
  have hfd := Multiset.mem_of_le hc (fd_mem_owned c)
  unfold Mem.rtwWsSendText
  refine Accounts.use_bind hblock ?_
  refine (maskKey_accounts urandom).bind (zero_add _).symm fun _ _ => ?_
  rw [zero_add]
  refine Accounts.acquire_bind (fun _ => Accounts.pure trivial rfl) fun _ frame => ?_
  refine Accounts.use_bind (Multiset.mem_add.mpr (Or.inr htext)) ?_
  refine Accounts.use_bind (Multiset.mem_add.mpr (Or.inr hfd)) ?_
  exact ((Accounts.release frame).frame P).weaken (fun _ h => h) fun _ _ => (zero_add _).symm

theorem ensureRxCap_accounts (grow : Option Bool) (c : ClientMem) :
    Accounts L c.owned (Mem.ensureRxCap grow c) (fun _ => True) ClientMem.owned := by
  unfold Mem.ensureRxCap
  refine Accounts.use_bind (block_mem_owned c) ?_
  cases grow with
  | none => exact Accounts.pure trivial rfl
  | some ok =>
    unfold ClientMem.owned
    refine (Accounts.exchange ok c.rx).bind
      (R := held c.ssl + held c.sslCtx + {c.fd} + held c.extraHeaders + {c.block}) (by abel)
        fun rx _ => Accounts.pure trivial (by abel)

end RealtimeWs.Core
