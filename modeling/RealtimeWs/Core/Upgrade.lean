import Mathlib.Data.List.Infix
import Mathlib.Data.Nat.Find
import RealtimeWs.Core.CString
import RealtimeWs.Core.WsClient
import RealtimeWs.Lib.Machine

/-! The answer to the upgrade request and what follows it on the same connection: the handshake
reads into a buffer of its own, and what it reads behind the answer is lost. -/
namespace RealtimeWs.Core

/-! ### Reading -/

/-- `io_read`: what one read returns, and what is left in the socket. The peer's bytes wait in
segments, a read does not go beyond the first; nothing is returned when the connection is lost. -/
def ioRead (room : ℕ) : List (List UInt8) → List UInt8 × List (List UInt8)
  | [] => ([], [])
  | seg :: segs =>
    if seg.length ≤ room then (seg, segs) else (seg.take room, seg.drop room :: segs)

theorem ioRead_conserved (room : ℕ) (sock : List (List UInt8)) :
    (ioRead room sock).1 ++ (ioRead room sock).2.flatten = sock.flatten := by
  cases sock with
  | nil => rfl
  | cons seg segs =>
    rw [ioRead]
    split
    · rfl
    · rw [List.flatten_cons, ← List.append_assoc, List.take_append_drop, List.flatten_cons]

/-! ### The handshake -/

/-- Size of the buffer for the answer, its terminating NUL included. -/
def RESPONSE_MAX : ℕ := 2048

/-- `strstr(buf, needle)` on the bytes in front of the first NUL. -/
def strstr (buf needle : List UInt8) : Bool := decide (needle <:+: (CStr.ofBytes buf).bytes)

def headEnd : List UInt8 := ascii "\r\n\r\n"

/-- Loop of `http_handshake` over the reads: the buffer and the socket after it. Every read
brings a byte at least, so the size of the buffer is fuel enough. -/
def responseLoop : ℕ → List UInt8 → List (List UInt8) → Option (List UInt8 × List (List UInt8))
  | 0, buf, sock => some (buf, sock)
  | fuel + 1, buf, sock =>
    if buf.length < RESPONSE_MAX - 1 then
      let r := ioRead (RESPONSE_MAX - 1 - buf.length) sock
      if r.1 = [] then none
      else if strstr (buf ++ r.1) headEnd then some (buf ++ r.1, r.2)
      else responseLoop fuel (buf ++ r.1) r.2
    else some (buf, sock)

/-- `http_handshake`, whose request is sent or not: the socket after a success. -/
def httpHandshake (sent : Bool) (sock : List (List UInt8)) : Option (List (List UInt8)) :=
  if sent = false then none
  else match responseLoop (RESPONSE_MAX - 1) [] sock with
    | none => none
    | some (buf, sock) => if strstr buf (ascii "101") then some sock else none

/-! ### Polling -/

/-- A client with the socket it reads from. -/
structure Link where
  client : WsClient
  sock : List (List UInt8)

/-- What a poll meets, the bytes apart. -/
structure LinkIo where
  ready : ℤ
  reallocOk : Bool
  mallocOk : ℕ → Bool

/-- The client when a poll gets as far as reading. -/
def WsClient.reads? (io : LinkIo) (c : WsClient) : Option WsClient :=
  if c.fd < 0 ∨ c.closed then none
  else if io.ready ≤ 0 then none
  else
    let r := ensureRxCap io.reallocOk c (c.rx.length + 8192)
    if r.1 then some r.2 else none

/-- The bytes a poll reads, and what is left in the socket. -/
def Link.read (l : Link) (io : LinkIo) : List UInt8 × List (List UInt8) :=
  match l.client.reads? io with
  | none => ([], l.sock)
  | some c => ioRead (c.rxCap - c.rx.length) l.sock

/-- Polls on a connection; the outputs are the bytes that are presented to `process_frames`. -/
def link : Machine Link LinkIo UInt8 where
  step l io :=
    ⟨(rtwWsPoll ⟨io.ready, io.reallocOk, (l.read io).1, io.mallocOk⟩ l.client).2, (l.read io).2⟩
  out l io := (l.read io).1

/-- What is presented and what is left is what was there. -/
theorem link_conserved (l : Link) (ios : List LinkIo) :
    link.outputs l ios ++ (link.run l ios).sock.flatten = l.sock.flatten := by
  induction ios generalizing l with
  | nil => rfl
  | cons io ios ih =>
    have hread : (l.read io).1 ++ (l.read io).2.flatten = l.sock.flatten := by
      unfold Link.read
      split
      · rfl
      · exact ioRead_conserved _ _
    rw [Machine.outputs_cons, Machine.run_cons, List.append_assoc, ih]
    exact hread

theorem nothing_fits (cap : ℕ) : ([] : List UInt8).length ≤ cap := Nat.zero_le cap

/-- The client `rtw_ws_connect_ex` returns. -/
def connectedClient (fd : ℤ) (onText onClose : Bool) : WsClient :=
  ⟨fd, onText, onClose, [], 65536, false, nothing_fits 65536⟩

/-- After a handshake that succeeds, all that is presented and all that still waits in the
socket, at every moment of every run of polls, is `rest`. -/
def NothingLost (segs : List (List UInt8)) (rest : List UInt8) : Prop :=
  ∀ sock, httpHandshake true segs = some sock → ∀ fd onText onClose ios,
    let l := ⟨connectedClient fd onText onClose, sock⟩
    link.outputs l ios ++ (link.run l ios).sock.flatten = rest

theorem nothingLost_iff_left {segs : List (List UInt8)} {rest : List UInt8} :
    NothingLost segs rest ↔ ∀ sock, httpHandshake true segs = some sock → sock.flatten = rest := by
  constructor
  · exact fun h sock hsock => h sock hsock 0 false false []
  · intro h sock hsock fd onText onClose ios
    exact (link_conserved _ ios).trans (h sock hsock)

/-- A 101 response that ends at its first empty line and fits the buffer. -/
structure Response101 (head : List UInt8) : Prop where
  status : ∃ version, 0 ∉ version ∧ ascii "HTTP/" ++ version ++ ascii " 101" <+: head
  ends : headEnd <:+ head
  first : ∀ p, p <+: head → p ≠ head → ¬ headEnd <:+: p
  short : head.length < RESPONSE_MAX - 1

/-! ### Strings in the buffer -/

theorem strstr_of_starts {p buf needle : List UInt8} (hp : p <+: buf) (hnul : 0 ∉ p)
    (h : needle <:+: p) : strstr buf needle = true := by
  obtain ⟨t, rfl⟩ := hp
  have hcopy : (CStr.ofBytes (p ++ t)).bytes = p ++ (CStr.ofBytes t).bytes := by
    apply List.takeWhile_append_of_pos
    intro b hb
    exact decide_eq_true fun h0 => hnul (h0 ▸ hb)
  rw [strstr, decide_eq_true_iff, hcopy]
  exact h.trans (List.infix_append' [] p _)

theorem strstr_eq_false {buf needle : List UInt8}
    (h : ¬ needle <:+: (CStr.ofBytes buf).bytes) : strstr buf needle = false :=
  decide_eq_false h

variable {head rest : List UInt8}

/-- The status code is found once the response is there. -/
theorem Response101.code (h : Response101 head) {buf : List UInt8} (hbuf : head <+: buf) :
    strstr buf (ascii "101") = true := by
  obtain ⟨version, hversion, hstatus⟩ := h.status
  have hnone : 0 ∉ ascii "HTTP/" ∧ 0 ∉ ascii " 101" := by decide
  have hcode : ascii " 101" = ascii " " ++ ascii "101" := by decide
  have hnul : 0 ∉ ascii "HTTP/" ++ version ++ ascii " 101" := by
    rw [List.mem_append, List.mem_append, not_or, not_or]
    exact ⟨⟨hnone.1, hversion⟩, hnone.2⟩
  apply strstr_of_starts (hstatus.trans hbuf) hnul
  refine ⟨ascii "HTTP/" ++ version ++ ascii " ", [], ?_⟩
  rw [hcode, List.append_nil, List.append_assoc]

/-- Without a NUL the empty line is found exactly when the whole response is there. -/
theorem Response101.found (h : Response101 head) (hnul : 0 ∉ head) {buf : List UInt8}
    (hbuf : head <+: buf) : strstr buf headEnd = true :=
  strstr_of_starts hbuf hnul h.ends.isInfix

theorem Response101.not_found (h : Response101 head) {buf : List UInt8} (hbuf : buf <+: head)
    (hne : buf ≠ head) : strstr buf headEnd = false := by
  apply strstr_eq_false
  intro hfound
  exact h.first buf hbuf hne (hfound.trans (List.takeWhile_prefix _).isInfix)

/-- Behind a NUL the empty line is never found. -/
theorem Response101.never_found (h : Response101 head) (hnul : 0 ∈ head) {buf : List UInt8}
    (hbuf : buf <+: head ++ rest) : strstr buf headEnd = false := by
  have hnone : 0 ∉ (CStr.ofBytes head).bytes := (CStr.ofBytes head).noNul
  have hne : (CStr.ofBytes head).bytes ≠ head := fun heq => (heq ▸ hnone) hnul
  rcases List.prefix_or_prefix_of_prefix hbuf (List.prefix_append head rest) with hpart | ⟨t, rfl⟩
  · by_cases heq : buf = head
    · subst heq
      exact strstr_eq_false (h.first _ (List.takeWhile_prefix _) hne)
    · exact h.not_found hpart heq
  · have hcut : (CStr.ofBytes (head ++ t)).bytes = (CStr.ofBytes head).bytes := by
      apply List.takeWhile_append.trans
      apply if_neg
      exact fun hlen => hne ((List.takeWhile_prefix _).eq_of_length hlen)
    apply strstr_eq_false
    rw [hcut]
    exact h.first _ (List.takeWhile_prefix _) hne

/-! ### What the loop examines -/

/-- Text of the answer when the loop stops without losing the connection: everything up to the
first end of a segment behind which an empty line is visible, or as much as the buffer holds. -/
structure Examined (segs : List (List UInt8)) (text : List UInt8) : Prop where
  cut : ∃ k, text = (segs.take k).flatten.take (RESPONSE_MAX - 1)
  stops : text.length = RESPONSE_MAX - 1 ∨ strstr text headEnd = true
  first : ∀ k, (segs.take k).flatten.length < text.length →
    strstr (segs.take k).flatten headEnd = false

/-- The same behind the bytes `buf`. -/
structure ExaminedFrom (buf : List UInt8) (sock : List (List UInt8)) (text : List UInt8) :
    Prop where
  cut : ∃ k, text = (buf ++ (sock.take k).flatten).take (RESPONSE_MAX - 1)
  stops : text.length = RESPONSE_MAX - 1 ∨ strstr text headEnd = true
  first : ∀ k, (buf ++ (sock.take k).flatten).length < text.length →
    strstr (buf ++ (sock.take k).flatten) headEnd = false

theorem examinedFrom_nil {segs : List (List UInt8)} {text : List UInt8} :
    ExaminedFrom [] segs text ↔ Examined segs text :=
  ⟨fun h => ⟨h.cut, h.stops, h.first⟩, fun h => ⟨h.cut, h.stops, h.first⟩⟩

variable {buf text : List UInt8} {sock : List (List UInt8)}

/-- A full buffer is the text. -/
theorem examinedFrom_full (hbuf : buf.length = RESPONSE_MAX - 1) :
    ExaminedFrom buf sock text ↔ text = buf := by
  have htake : ∀ t : List UInt8, (buf ++ t).take (RESPONSE_MAX - 1) = buf := fun t =>
    List.take_left' hbuf
  constructor
  · rintro ⟨⟨k, rfl⟩, -, -⟩
    exact htake _
  · rintro rfl
    refine ⟨⟨0, (htake _).symm⟩, Or.inl hbuf, ?_⟩
    intro k hk
    rw [List.length_append] at hk
    omega

/-- Nothing is examined before the first read. -/
theorem ExaminedFrom.ne_buf (h : ExaminedFrom buf sock text) (hbuf : buf.length < RESPONSE_MAX - 1)
    (hnot : strstr buf headEnd = false) : text ≠ buf := by
  rintro rfl
  rcases h.stops with hlen | hfound
  · omega
  · rw [hnot] at hfound
    cases hfound

theorem ExaminedFrom.reads (h : ExaminedFrom buf sock text) (hbuf : buf.length < RESPONSE_MAX - 1)
    (hnot : strstr buf headEnd = false) :
    ∃ k, text = (buf ++ (sock.take (k + 1)).flatten).take (RESPONSE_MAX - 1) := by
  obtain ⟨k, hk⟩ := h.cut
  cases k with
  | succ k => exact ⟨k, hk⟩
  | zero =>
    rw [List.take_zero, List.flatten_nil, List.append_nil, List.take_of_length_le hbuf.le] at hk
    exact absurd hk (h.ne_buf hbuf hnot)

/-- The text when the next segment completes it. -/
theorem examinedFrom_done {seg : List UInt8} {segs : List (List UInt8)}
    (hbuf : buf.length < RESPONSE_MAX - 1) (hnot : strstr buf headEnd = false)
    (hdone : RESPONSE_MAX - 1 ≤ (buf ++ seg).length ∨ strstr (buf ++ seg) headEnd = true) :
    ExaminedFrom buf (seg :: segs) text ↔ text = (buf ++ seg).take (RESPONSE_MAX - 1) := by
  constructor
  · intro h
    obtain ⟨k, hk⟩ := h.reads hbuf hnot
    rw [List.take_succ_cons, List.flatten_cons, ← List.append_assoc] at hk
    rcases Nat.lt_or_ge (buf ++ seg).length (RESPONSE_MAX - 1) with hshort | hlong
    · have hfound := hdone.resolve_left (Nat.not_le_of_lt hshort)
      have hnomore : ¬ (buf ++ seg).length < text.length := by
        intro hmore
        have hfirst := h.first 1 (by simpa using hmore)
        simp only [List.take_succ_cons, List.take_zero, List.flatten_cons, List.flatten_nil,
          List.append_nil, hfound] at hfirst
        cases hfirst
      have hsplit : text = (buf ++ seg) ++
          (segs.take k).flatten.take (RESPONSE_MAX - 1 - (buf ++ seg).length) := by
        rw [hk, List.take_append, List.take_of_length_le hshort.le]
      have hnil : (segs.take k).flatten.take (RESPONSE_MAX - 1 - (buf ++ seg).length) = [] := by
        have hlen := congrArg List.length hsplit
        rw [List.length_append] at hlen
        apply List.eq_nil_of_length_eq_zero
        omega
      rw [List.take_of_length_le hshort.le, hsplit, hnil, List.append_nil]
    · rw [hk, List.take_append_of_le_length hlong]
  · rintro rfl
    have hle : ((buf ++ seg).take (RESPONSE_MAX - 1)).length ≤ (buf ++ seg).length :=
      List.length_take_le' _ _
    refine ⟨⟨1, by simp⟩, ?_, ?_⟩
    · rcases Nat.lt_or_ge (buf ++ seg).length (RESPONSE_MAX - 1) with hshort | hlong
      · right
        rw [List.take_of_length_le hshort.le]
        exact hdone.resolve_left (Nat.not_le_of_lt hshort)
      · left
        rw [List.length_take]
        exact Nat.min_eq_left hlong
    · intro k hk
      cases k with
      | zero =>
        rw [List.take_zero, List.flatten_nil, List.append_nil]
        exact hnot
      | succ k =>
        rw [List.take_succ_cons, List.flatten_cons, ← List.append_assoc, List.length_append] at hk
        omega

/-- The text when the loop reads on. -/
theorem examinedFrom_cons {seg : List UInt8} {segs : List (List UInt8)}
    (hbuf : buf.length < RESPONSE_MAX - 1) (hnot : strstr buf headEnd = false) :
    ExaminedFrom buf (seg :: segs) text ↔ ExaminedFrom (buf ++ seg) segs text := by
  constructor
  · intro h
    obtain ⟨k, hk⟩ := h.reads hbuf hnot
    refine ⟨⟨k, ?_⟩, h.stops, ?_⟩
    · rw [hk, List.take_succ_cons, List.flatten_cons, List.append_assoc]
    · intro k hk
      have hfirst := h.first (k + 1)
      rw [List.take_succ_cons, List.flatten_cons, ← List.append_assoc] at hfirst
      exact hfirst hk
  · rintro ⟨⟨k, hk⟩, hstops, hfirst⟩
    refine ⟨⟨k + 1, ?_⟩, hstops, ?_⟩
    · rw [hk, List.take_succ_cons, List.flatten_cons, List.append_assoc]
    · intro k hk
      cases k with
      | zero =>
        rw [List.take_zero, List.flatten_nil, List.append_nil]
        exact hnot
      | succ k =>
        rw [List.take_succ_cons, List.flatten_cons, ← List.append_assoc] at hk ⊢
        exact hfirst k hk

/-! ### The loop -/

/-- A round that meets a segment reads something. -/
theorem ioRead_ne_nil {room : ℕ} {seg : List UInt8} (hroom : 0 < room) (hseg : seg ≠ [])
    (segs : List (List UInt8)) : (ioRead room (seg :: segs)).1 ≠ [] := by
  rw [ioRead]
  split
  · exact hseg
  · intro hnil
    have hlen := congrArg List.length hnil
    have hpos := List.length_pos_iff.mpr hseg
    rw [List.length_take, List.length_nil] at hlen
    omega

theorem responseLoop_full (fuel : ℕ) (hbuf : buf.length = RESPONSE_MAX - 1) :
    responseLoop fuel buf sock = some (buf, sock) := by
  cases fuel with
  | zero => rfl
  | succ fuel => rw [responseLoop, if_neg (by omega)]

theorem exists_some_iff {read : List UInt8} {left : List (List UInt8)} :
    (∃ l, some (read, left) = some (text, l)) ↔ text = read := by
  constructor
  · rintro ⟨l, ⟨⟩⟩
    rfl
  · rintro rfl
    exact ⟨left, rfl⟩

/-- The loop ends with the text it examines. -/
theorem responseLoop_from {fuel : ℕ} (hfuel : RESPONSE_MAX - 1 ≤ buf.length + fuel)
    (hbuf : buf.length ≤ RESPONSE_MAX - 1) (hsock : ∀ seg ∈ sock, seg ≠ [])
    (hnot : buf.length < RESPONSE_MAX - 1 → strstr buf headEnd = false) :
    (∃ left, responseLoop fuel buf sock = some (text, left)) ↔ ExaminedFrom buf sock text := by
  induction fuel generalizing buf sock with
  | zero =>
    have hfull : buf.length = RESPONSE_MAX - 1 := by omega
    rw [responseLoop_full 0 hfull, exists_some_iff, examinedFrom_full hfull]
  | succ fuel ih =>
    by_cases hroom : buf.length < RESPONSE_MAX - 1
    · have hnot := hnot hroom
      rw [responseLoop, if_pos hroom]
      cases sock with
      | nil =>
        apply iff_of_false
        · rintro ⟨left, ⟨⟩⟩
        · intro h
          obtain ⟨k, hk⟩ := h.reads hroom hnot
          rw [List.take_nil, List.flatten_nil, List.append_nil,
            List.take_of_length_le hroom.le] at hk
          exact h.ne_buf hroom hnot hk
      | cons seg segs =>
        obtain ⟨hseg, hsegs⟩ := List.forall_mem_cons.mp hsock
        have hpos := List.length_pos_iff.mpr hseg
        by_cases hfit : seg.length ≤ RESPONSE_MAX - 1 - buf.length
        · have hread : ioRead (RESPONSE_MAX - 1 - buf.length) (seg :: segs) = (seg, segs) :=
            if_pos hfit
          have hle : (buf ++ seg).length ≤ RESPONSE_MAX - 1 := by
            rw [List.length_append]
            omega
          have hmore : RESPONSE_MAX - 1 ≤ (buf ++ seg).length + fuel := by
            rw [List.length_append]
            omega
          simp only [hread, if_neg hseg]
          by_cases hfound : strstr (buf ++ seg) headEnd = true
          · rw [if_pos hfound, exists_some_iff, examinedFrom_done hroom hnot (Or.inr hfound),
              List.take_of_length_le hle]
          · rw [if_neg hfound, examinedFrom_cons hroom hnot]
            exact ih hmore hle hsegs fun _ => Bool.eq_false_of_not_eq_true hfound
        · -- the segment fills the buffer
          have hread : ioRead (RESPONSE_MAX - 1 - buf.length) (seg :: segs) =
              (seg.take (RESPONSE_MAX - 1 - buf.length),
                seg.drop (RESPONSE_MAX - 1 - buf.length) :: segs) := if_neg hfit
          have hlong : RESPONSE_MAX - 1 ≤ (buf ++ seg).length := by
            rw [List.length_append]
            omega
          have hnext : buf ++ seg.take (RESPONSE_MAX - 1 - buf.length) =
              (buf ++ seg).take (RESPONSE_MAX - 1) := by
            rw [List.take_append, List.take_of_length_le hroom.le]
          have hfull : ((buf ++ seg).take (RESPONSE_MAX - 1)).length = RESPONSE_MAX - 1 := by
            rw [List.length_take]
            exact Nat.min_eq_left hlong
          have hsome := ioRead_ne_nil (Nat.sub_pos_of_lt hroom) hseg segs
          rw [hread] at hsome
          simp only [hread, if_neg hsome, hnext, responseLoop_full fuel hfull, ite_self]
          rw [exists_some_iff, examinedFrom_done hroom hnot (Or.inl hlong)]
    · have hfull : buf.length = RESPONSE_MAX - 1 := by omega
      rw [responseLoop_full _ hfull, exists_some_iff, examinedFrom_full hfull]

variable {segs : List (List UInt8)}

theorem responseLoop_examined (hsegs : ∀ seg ∈ segs, seg ≠ []) (text : List UInt8) :
    (∃ left, responseLoop (RESPONSE_MAX - 1) [] segs = some (text, left)) ↔
      Examined segs text := by
  have hempty : strstr [] headEnd = false := by decide
  rw [← examinedFrom_nil]
  exact responseLoop_from (Nat.zero_add _).ge (Nat.zero_le _) hsegs fun _ => hempty

/-- What the loop has read and what it leaves is what was there. -/
theorem responseLoop_conserved {fuel : ℕ} {left : List (List UInt8)}
    (h : responseLoop fuel buf sock = some (text, left)) :
    text ++ left.flatten = buf ++ sock.flatten := by
  induction fuel generalizing buf sock with
  | zero =>
    cases h
    rfl
  | succ fuel ih =>
    have hread := ioRead_conserved (RESPONSE_MAX - 1 - buf.length) sock
    rw [← hread, ← List.append_assoc]
    unfold responseLoop at h
    dsimp only at h
    split_ifs at h with hroom hnil hfound
    · cases h
      rfl
    · exact ih h
    · cases h
      rw [List.append_assoc, hread]

theorem prefix_of_flatten_take (segs : List (List UInt8)) (k : ℕ) :
    (segs.take k).flatten <+: segs.flatten :=
  ⟨(segs.drop k).flatten, by rw [← List.flatten_append, List.take_append_drop]⟩

/-- The loop ends when an empty line is visible in what arrives or the buffer is filled. -/
theorem examined_exists (h : RESPONSE_MAX - 1 ≤ segs.flatten.length ∨
    strstr segs.flatten headEnd = true) : ∃ text, Examined segs text := by
  have hsome : ∃ k, RESPONSE_MAX - 1 ≤ (segs.take k).flatten.length ∨
      strstr (segs.take k).flatten headEnd = true := ⟨segs.length, by rwa [List.take_length]⟩
  refine ⟨(segs.take (Nat.find hsome)).flatten.take (RESPONSE_MAX - 1), ⟨_, rfl⟩, ?_, ?_⟩
  · rcases Nat.lt_or_ge (segs.take (Nat.find hsome)).flatten.length (RESPONSE_MAX - 1)
      with hshort | hlong
    · right
      rw [List.take_of_length_le hshort.le]
      exact (Nat.find_spec hsome).resolve_left (Nat.not_le_of_lt hshort)
    · left
      rw [List.length_take]
      exact Nat.min_eq_left hlong
  · intro j hj
    have hj : (segs.take j).flatten.length < (segs.take (Nat.find hsome)).flatten.length :=
      hj.trans_le (List.length_take_le' _ _)
    have hlt : j < Nat.find hsome := by
      by_contra hge
      have hsub := prefix_of_flatten_take (segs.take j) (Nat.find hsome)
      rw [List.take_take, Nat.min_eq_left (Nat.le_of_not_lt hge)] at hsub
      have hle := hsub.length_le
      omega
    have hnot := Nat.find_min hsome hlt
    exact Bool.eq_false_of_not_eq_true fun hfound => hnot (Or.inr hfound)

theorem Examined.received (h : Examined segs text) : text <+: segs.flatten := by
  obtain ⟨k, rfl⟩ := h.cut
  exact (List.take_prefix _ _).trans (prefix_of_flatten_take segs k)

theorem infix_of_strstr {buf needle : List UInt8} (h : strstr buf needle = true) :
    needle <:+: (CStr.ofBytes buf).bytes := of_decide_eq_true h

/-- The head of a response: it ends at its first empty line, within the buffer. -/
structure ResponseHead (head : List UInt8) : Prop where
  ends : headEnd <:+ head
  first : ∀ p, p <+: head → p ≠ head → ¬ headEnd <:+: p
  fits : head.length ≤ RESPONSE_MAX - 1

theorem Response101.responseHead (h : Response101 head) : ResponseHead head :=
  ⟨h.ends, h.first, h.short.le⟩

/-- No empty line ends in front of the end of the head. -/
theorem ResponseHead.within (h : ResponseHead head) {stream p : List UInt8}
    (hpre : head <+: stream) (hp : p <+: stream) (hfound : headEnd <:+: p) : head <+: p := by
  rcases List.prefix_or_prefix_of_prefix hp hpre with hpart | hwhole
  · by_cases heq : p = head
    · rw [heq]
    · exact absurd hfound (h.first p hpart heq)
  · exact hwhole

/-- The head is part of the text. -/
theorem Examined.covers (h : Examined segs text) (hpre : head <+: segs.flatten)
    (hhead : ResponseHead head) : head <+: text := by
  rcases h.stops with hfull | hfound
  · apply List.prefix_of_prefix_length_le hpre h.received
    rw [hfull]
    exact hhead.fits
  · apply hhead.within hpre h.received
    exact (infix_of_strstr hfound).trans (List.takeWhile_prefix _).isInfix

/-! ### The bytes behind the response -/

theorem httpHandshake_some {segs sock : List (List UInt8)} {buf : List UInt8}
    (hloop : responseLoop (RESPONSE_MAX - 1) [] segs = some (buf, sock))
    (hcode : strstr buf (ascii "101") = true) : httpHandshake true segs = some sock := by
  rw [httpHandshake, if_neg (by decide), hloop]
  exact if_pos hcode

/-- The handshake accepts if and only if `101` stands somewhere in the text it examines. -/
theorem httpHandshake_isSome_iff (hsegs : ∀ seg ∈ segs, seg ≠ []) :
    (httpHandshake true segs).isSome = true ↔
      ∃ text, Examined segs text ∧ strstr text (ascii "101") = true := by
  have hloop := responseLoop_examined hsegs
  rw [httpHandshake, if_neg (by decide)]
  cases hresult : responseLoop (RESPONSE_MAX - 1) [] segs with
  | none =>
    apply iff_of_false Bool.false_ne_true
    rintro ⟨text, htext, -⟩
    obtain ⟨left, hleft⟩ := (hloop text).mpr htext
    rw [hresult] at hleft
    cases hleft
  | some result =>
    obtain ⟨read, left⟩ := result
    have hread := (hloop read).mp ⟨left, hresult⟩
    constructor
    · intro h
      refine ⟨read, hread, ?_⟩
      by_contra hcode
      simp only [if_neg hcode] at h
      cases h
    · rintro ⟨text, htext, hcode⟩
      obtain ⟨left', hleft⟩ := (hloop text).mpr htext
      rw [hresult] at hleft
      cases hleft
      simp only [if_pos hcode]
      rfl

section

variable (h : Response101 head) (hsegs : ∀ seg ∈ segs, seg ≠ [])
  (hall : segs.flatten = head ++ rest)
include h hsegs hall

theorem nothingLost_plain (hnul : 0 ∉ head) :
    NothingLost segs rest ↔ ∃ k, (segs.take k).flatten = head := by
  have hpre : head <+: segs.flatten := ⟨rest, hall.symm⟩
  have hshort := h.short
  have hend : strstr head headEnd = true := h.found hnul List.prefix_rfl
  obtain ⟨text, htext⟩ := examined_exists (Or.inr (h.found hnul hpre))
  obtain ⟨sock, hloop⟩ := (responseLoop_examined hsegs text).mpr htext
  have hcover := htext.covers hpre h.responseHead
  have hsplit : text ++ sock.flatten = head ++ rest := (responseLoop_conserved hloop).trans hall
  have hcut : text = head ↔ ∃ k, (segs.take k).flatten = head := by
    constructor
    · intro heq
      obtain ⟨k, hk⟩ := htext.cut
      refine ⟨k, ?_⟩
      have hlen := congrArg List.length hk
      rw [heq, List.length_take] at hlen
      rw [heq, List.take_of_length_le (by omega)] at hk
      exact hk.symm
    · rintro ⟨k, rfl⟩
      -- the loop would have stopped at the end of that segment
      by_contra hne
      have hlt := Nat.lt_of_le_of_ne hcover.length_le fun hlen =>
        hne (hcover.eq_of_length hlen).symm
      rw [htext.first k hlt] at hend
      cases hend
  have hsome := httpHandshake_some hloop (h.code hcover)
  rw [nothingLost_iff_left, ← hcut]
  constructor
  · intro hleft
    have hrest := hleft sock hsome
    rw [hrest] at hsplit
    exact List.append_cancel_right hsplit
  · rintro rfl sock' hsock'
    rw [hsome] at hsock'
    cases hsock'
    exact List.append_cancel_left hsplit

theorem nothingLost_nul (hnul : 0 ∈ head) :
    NothingLost segs rest ↔ (head ++ rest).length < RESPONSE_MAX - 1 := by
  have hshort := h.short
  have hfull : ∀ text, Examined segs text → text.length = RESPONSE_MAX - 1 := by
    intro text htext
    have hpre := htext.received
    rw [hall] at hpre
    apply htext.stops.resolve_right
    rw [h.never_found hnul hpre]
    exact Bool.false_ne_true
  rw [nothingLost_iff_left]
  constructor
  · intro hleft
    by_contra hlong
    rw [← hall] at hlong
    obtain ⟨text, htext⟩ := examined_exists (Or.inl (Nat.le_of_not_lt hlong))
    obtain ⟨sock, hloop⟩ := (responseLoop_examined hsegs text).mpr htext
    have hcover := htext.covers ⟨rest, hall.symm⟩ h.responseHead
    have hsplit := (responseLoop_conserved hloop).trans hall
    have hrest := hleft sock (httpHandshake_some hloop (h.code hcover))
    rw [hrest] at hsplit
    have hlen := hfull text htext
    rw [List.append_cancel_right hsplit] at hlen
    omega
  · intro hless sock hsock
    obtain ⟨text, htext, -⟩ := (httpHandshake_isSome_iff hsegs).mp
      (Option.isSome_iff_exists.mpr ⟨sock, hsock⟩)
    have hle := htext.received.length_le
    rw [hfull text htext, hall] at hle
    omega

/-- Nothing is lost if and only if a segment ends with the response, or the response has a NUL
in it and the connection ends before the buffer is full. -/
theorem nothingLost_iff : NothingLost segs rest ↔
    (0 ∉ head ∧ ∃ k, (segs.take k).flatten = head) ∨
      (0 ∈ head ∧ (head ++ rest).length < RESPONSE_MAX - 1) := by
  by_cases hnul : 0 ∈ head
  · rw [or_iff_right (fun hno => hno.1 hnul), and_iff_right hnul]
    exact nothingLost_nul h hsegs hall hnul
  · rw [or_iff_left (fun hyes => hnul hyes.1), and_iff_right hnul]
    exact nothingLost_plain h hsegs hall hnul

end

/-- A response without any header lines. -/
def bareResponse : List UInt8 := ascii "HTTP/1.1 101 \r\n\r\n"

theorem bareResponse_ok : Response101 bareResponse := by
  constructor
  · exact ⟨ascii "1.1", by decide, by decide⟩
  · decide
  · -- one line feed is missing in everything shorter
    intro p hp hne hfound
    have hshort : p <+: bareResponse.dropLast := by
      apply List.prefix_of_prefix_length_le hp (List.dropLast_prefix _)
      rw [List.length_dropLast]
      have hlt := Nat.lt_of_le_of_ne hp.length_le fun hlen => hne (hp.eq_of_length hlen)
      omega
    have hfeeds : headEnd.count 10 ≤ bareResponse.dropLast.count 10 :=
      (hfound.sublist.trans hshort.sublist).count_le 10
    exact absurd hfeeds (by decide)
  · decide

theorem nothingLost_twoSegments : NothingLost [bareResponse, [0x81, 0]] [0x81, 0] :=
  (nothingLost_iff bareResponse_ok (by decide) rfl).mpr (Or.inl ⟨by decide, 1, rfl⟩)

/-- A frame that comes in one segment with the response is lost. -/
theorem frame_lost : ¬ NothingLost [bareResponse ++ [0x81, 0]] [0x81, 0] := by
  rw [nothingLost_plain bareResponse_ok (by decide) rfl (by decide)]
  rintro ⟨k, hk⟩
  have hlen := congrArg List.length hk
  cases k with
  | zero => exact absurd hlen (by decide)
  | succ k =>
    rw [List.take_succ_cons, List.take_nil] at hlen
    exact absurd hlen (by decide)

end RealtimeWs.Core
