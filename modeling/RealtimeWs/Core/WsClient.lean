import Mathlib.Data.Nat.Bitwise
import RealtimeWs.Lib.Decoder

/-! The receiving side of the WebSocket client: the frames in the receive buffer and
the poll that fills it. Callbacks are recorded in the order they are made. -/
namespace RealtimeWs.Core

/-- The four mask bytes of a frame. -/
def MaskKey : Type := Fin 4 → UInt8

/-- `b[j] ^= mask[j % 4]`, the first byte being the `j`-th. -/
def xorMask (key : MaskKey) : ℕ → List UInt8 → List UInt8
  | _, [] => []
  | j, b :: bs => (b ^^^ key (Fin.ofNat 4 j)) :: xorMask key (j + 1) bs

@[simp] theorem length_xorMask (key : MaskKey) (j : ℕ) (bs : List UInt8) :
    (xorMask key j bs).length = bs.length := by
  induction bs generalizing j with
  | nil => rfl
  | cons b bs ih => rw [xorMask, List.length_cons, ih, List.length_cons]

/-- Masking twice with one key gives back the bytes. -/
theorem xorMask_xorMask (key : MaskKey) (j : ℕ) (bs : List UInt8) :
    xorMask key j (xorMask key j bs) = bs := by
  induction bs generalizing j with
  | nil => rfl
  | cons b bs ih =>
    rw [xorMask, xorMask, ih, UInt8.xor_assoc, UInt8.xor_self, UInt8.xor_zero]

/-- A call of one of the two callbacks. -/
inductive WsEvent
  | text (bytes : List UInt8)
  | close (code : ℤ)
  deriving DecidableEq, Repr

/-- `rx` is the used part of the receive buffer. The flags tell which callbacks are set. -/
structure WsClient where
  fd : ℤ
  onText : Bool
  onClose : Bool
  rx : List UInt8
  rxCap : ℕ
  closed : Bool
  rx_le : rx.length ≤ rxCap

/-! ### One frame -/

/-- What the loop finds at the front of the buffer: too few bytes, a length it does not
support, or a frame with its header length, its mask and its payload as received. -/
inductive Scan
  | incomplete
  | unsupported
  | frame (opcode : UInt8) (hdr : ℕ) (key : Option MaskKey) (payload : List UInt8)

def scanPayload (opcode : UInt8) (hdr plen : ℕ) (key : Option MaskKey) (rx : List UInt8) : Scan :=
  if rx.length < hdr + plen then .incomplete
  else .frame opcode hdr key ((rx.drop hdr).take plen)

/-- `memcpy(mask, rx + hdr, 4)`. -/
def maskAt (rx : List UInt8) (hdr : ℕ) : MaskKey := fun i => rx.getD (hdr + i) 0

def scanMask (opcode : UInt8) (masked : Bool) (hdr plen : ℕ) (rx : List UInt8) : Scan :=
  if masked then
    if rx.length < hdr + 4 then .incomplete
    else scanPayload opcode (hdr + 4) plen (some (maskAt rx hdr)) rx
  else scanPayload opcode hdr plen none rx

def scanFrame : List UInt8 → Scan
  | b0 :: b1 :: body =>
    let opcode := b0 &&& 0x0F
    let masked := (b1 &&& 0x80) != 0
    let plen := (b1 &&& 0x7F).toNat
    if plen = 126 then
      match body with
      | l0 :: l1 :: _ =>
        scanMask opcode masked 4 ((l0.toNat <<< 8) ||| l1.toNat) (b0 :: b1 :: body)
      | _ => .incomplete
    else if plen = 127 then .unsupported
    else scanMask opcode masked 2 plen (b0 :: b1 :: body)
  | _ => .incomplete

theorem scanPayload_append {opcode : UInt8} {hdr plen : ℕ} {key : Option MaskKey}
    {rx : List UInt8} (h : scanPayload opcode hdr plen key rx ≠ .incomplete) (more : List UInt8) :
    scanPayload opcode hdr plen key (rx ++ more) = scanPayload opcode hdr plen key rx := by
  unfold scanPayload at h ⊢
  by_cases hlen : rx.length < hdr + plen
  · rw [if_pos hlen] at h
    exact absurd rfl h
  · have hlong : ¬ (rx ++ more).length < hdr + plen := by
      rw [List.length_append]
      omega
    have hdrop : ((rx ++ more).drop hdr).take plen = (rx.drop hdr).take plen := by
      rw [List.drop_append_of_le_length (by omega), List.take_append_of_le_length]
      rw [List.length_drop]
      omega
    rw [if_neg hlen, if_neg hlong, hdrop]

theorem maskAt_append {rx : List UInt8} {hdr : ℕ} (h : hdr + 4 ≤ rx.length) (more : List UInt8) :
    maskAt (rx ++ more) hdr = maskAt rx hdr := by
  funext i
  have hi : hdr + i < rx.length := by omega
  rw [maskAt, maskAt, List.getD_append _ _ _ _ hi]

theorem scanMask_append {opcode : UInt8} {masked : Bool} {hdr plen : ℕ} {rx : List UInt8}
    (h : scanMask opcode masked hdr plen rx ≠ .incomplete) (more : List UInt8) :
    scanMask opcode masked hdr plen (rx ++ more) = scanMask opcode masked hdr plen rx := by
  unfold scanMask at h ⊢
  cases masked with
  | false => exact scanPayload_append h more
  | true =>
    simp only [if_true] at h ⊢
    by_cases hlen : rx.length < hdr + 4
    · rw [if_pos hlen] at h
      exact absurd rfl h
    · have hlong : ¬ (rx ++ more).length < hdr + 4 := by
        rw [List.length_append]
        omega
      rw [if_neg hlen] at h
      rw [if_neg hlen, if_neg hlong, maskAt_append (by omega)]
      exact scanPayload_append h more

/-- Bytes that arrive later do not change what was found, unless it was too little. -/
theorem scanFrame_append {rx : List UInt8} (h : scanFrame rx ≠ .incomplete) (more : List UInt8) :
    scanFrame (rx ++ more) = scanFrame rx := by
  rcases rx with _ | ⟨b0, _ | ⟨b1, body⟩⟩
  · exact absurd rfl h
  · exact absurd rfl h
  · have happ : (b0 :: b1 :: body) ++ more = b0 :: b1 :: (body ++ more) := rfl
    rw [happ]
    unfold scanFrame at h ⊢
    by_cases h126 : (b1 &&& 0x7F).toNat = 126
    · simp only [if_pos h126] at h ⊢
      rcases body with _ | ⟨l0, _ | ⟨l1, body⟩⟩
      · exact absurd rfl h
      · exact absurd rfl h
      · exact scanMask_append h more
    · simp only [if_neg h126] at h ⊢
      by_cases h127 : (b1 &&& 0x7F).toNat = 127
      · simp only [if_pos h127]
      · simp only [if_neg h127] at h ⊢
        exact scanMask_append h more

theorem scanPayload_frame {opcode op : UInt8} {hdr plen n : ℕ} {key k : Option MaskKey}
    {rx payload : List UInt8} (h : scanPayload opcode hdr plen key rx = .frame op n k payload) :
    n = hdr ∧ n + payload.length ≤ rx.length := by
  unfold scanPayload at h
  split_ifs at h with hlen
  cases h
  refine ⟨rfl, ?_⟩
  rw [List.length_take, List.length_drop]
  omega

theorem scanMask_frame {opcode op : UInt8} {masked : Bool} {hdr plen n : ℕ} {k : Option MaskKey}
    {rx payload : List UInt8} (h : scanMask opcode masked hdr plen rx = .frame op n k payload) :
    hdr ≤ n ∧ n + payload.length ≤ rx.length := by
  unfold scanMask at h
  split_ifs at h
  · obtain ⟨hn, hle⟩ := scanPayload_frame h
    exact ⟨by omega, hle⟩
  · obtain ⟨hn, hle⟩ := scanPayload_frame h
    exact ⟨hn.ge, hle⟩

/-- A frame has at least two bytes and is all there. -/
theorem scanFrame_frame {op : UInt8} {n : ℕ} {k : Option MaskKey} {rx payload : List UInt8}
    (h : scanFrame rx = .frame op n k payload) : 2 ≤ n ∧ n + payload.length ≤ rx.length := by
  rcases rx with _ | ⟨b0, _ | ⟨b1, body⟩⟩
  · cases h
  · cases h
  · unfold scanFrame at h
    by_cases h126 : (b1 &&& 0x7F).toNat = 126
    · simp only [if_pos h126] at h
      rcases body with _ | ⟨l0, _ | ⟨l1, body⟩⟩
      · cases h
      · cases h
      · obtain ⟨hn, hle⟩ := scanMask_frame h
        exact ⟨by omega, hle⟩
    · simp only [if_neg h126] at h
      by_cases h127 : (b1 &&& 0x7F).toNat = 127
      · simp only [if_pos h127] at h
        cases h
      · simp only [if_neg h127] at h
        exact scanMask_frame h

/-! ### The loop over the buffer -/

def unmask (key : Option MaskKey) (payload : List UInt8) : List UInt8 :=
  match key with
  | none => payload
  | some key => xorMask key 0 payload

@[simp] theorem length_unmask (key : Option MaskKey) (payload : List UInt8) :
    (unmask key payload).length = payload.length := by
  cases key with
  | none => rfl
  | some key => exact length_xorMask key 0 payload

/-- How the loop ends. -/
structure FrameRun where
  rc : ℤ
  events : List WsEvent
  rx : List UInt8
  closed : Bool

/-- Loop of `process_frames`, the next frame being the `i`-th of the call. Every round
takes a whole frame off the buffer, so its length is fuel enough. -/
def framesLoop (onText onClose : Bool) (mallocOk : ℕ → Bool) : ℕ → ℕ → List UInt8 → FrameRun
  | 0, _, rx => ⟨0, [], rx, false⟩
  | fuel + 1, i, rx =>
    match scanFrame rx with
    | .incomplete => ⟨0, [], rx, false⟩
    | .unsupported => ⟨-1, [], rx, false⟩
    | .frame opcode hdr key raw =>
      let payload := unmask key raw
      let rest := framesLoop onText onClose mallocOk fuel (i + 1) (rx.drop (hdr + raw.length))
      if opcode = 0x1 then
        { rest with events := (if mallocOk i && onText then [.text payload] else []) ++ rest.events }
      else if opcode = 0x8 then
        -- the frame stays in the buffer, with its payload unmasked
        ⟨-1, if onClose then [.close 1000] else [],
          rx.take hdr ++ payload ++ rx.drop (hdr + raw.length), true⟩
      else rest

theorem length_framesLoop_le (onText onClose : Bool) (mallocOk : ℕ → Bool) (fuel i : ℕ)
    (rx : List UInt8) : (framesLoop onText onClose mallocOk fuel i rx).rx.length ≤ rx.length := by
  induction fuel generalizing i rx with
  | zero => exact le_rfl
  | succ fuel ih =>
    rw [framesLoop]
    cases hscan : scanFrame rx with
    | incomplete => exact le_rfl
    | unsupported => exact le_rfl
    | frame opcode hdr key raw =>
      obtain ⟨-, hle⟩ := scanFrame_frame hscan
      have hrest := ih (i + 1) (rx.drop (hdr + raw.length))
      rw [List.length_drop] at hrest
      by_cases htext : opcode = 0x1
      · simp only [if_pos htext]
        omega
      · by_cases hclose : opcode = 0x8
        · simp only [if_neg htext, if_pos hclose]
          rw [List.length_append, List.length_append, List.length_take, List.length_drop,
            length_unmask]
          omega
        · simp only [if_neg htext, if_neg hclose]
          omega

def processFrames (mallocOk : ℕ → Bool) (c : WsClient) : (ℤ × List WsEvent) × WsClient :=
  let r := framesLoop c.onText c.onClose mallocOk (c.rx.length + 1) 0 c.rx
  ((r.rc, r.events), { c with
    rx := r.rx
    closed := c.closed || r.closed
    rx_le := (length_framesLoop_le ..).trans c.rx_le })

/-! ### Polling -/

/-- `rx_cap` grows to `need`, if memory is there. -/
def ensureRxCap (reallocOk : Bool) (c : WsClient) (need : ℕ) : Bool × WsClient :=
  if h : need ≤ c.rxCap then (true, c)
  else if reallocOk then
    (true, { c with rxCap := need, rx_le := c.rx_le.trans (Nat.le_of_not_le h) })
  else (false, c)

/-- What one poll meets: the result of `poll`, whether `realloc` and the copies of texts
succeed, and the bytes of the read, none when the connection is lost. -/
structure PollIo where
  ready : ℤ
  reallocOk : Bool
  read : List UInt8
  mallocOk : ℕ → Bool

/-- A read returns at most the bytes it has room for. -/
def WsClient.receive (c : WsClient) (bytes : List UInt8) : WsClient :=
  { c with
    rx := c.rx ++ bytes.take (c.rxCap - c.rx.length)
    rx_le := by
      have := c.rx_le
      rw [List.length_append, List.length_take]
      omega }

def rtwWsPoll (io : PollIo) (c : WsClient) : (ℤ × List WsEvent) × WsClient :=
  if c.fd < 0 ∨ c.closed then ((-1, []), c)
  else if io.ready < 0 then ((-1, []), c)
  else if io.ready = 0 then ((0, []), c)
  else
    let r := ensureRxCap io.reallocOk c (c.rx.length + 8192)
    if r.1 = false then ((-1, []), r.2)
    else if io.read = [] then
      ((-1, if c.onClose then [.close 1006] else []), { r.2 with closed := true })
    else processFrames io.mallocOk (r.2.receive io.read)

/-- One poll after the other, up to the first that returns -1. -/
def pollRun : List PollIo → WsClient → (ℤ × List WsEvent) × WsClient
  | [], c => ((0, []), c)
  | io :: ios, c =>
    let r := rtwWsPoll io c
    if r.1.1 = -1 then r
    else (((pollRun ios r.2).1.1, r.1.2 ++ (pollRun ios r.2).1.2), (pollRun ios r.2).2)

/-! ### Segmentation -/

/-- The frames of a stream, each taken when it is all there. -/
def frameDecoder (onText onClose : Bool) : Decoder UInt8 WsEvent where
  next rx :=
    match scanFrame rx with
    | .incomplete => .wait
    | .unsupported => .stop []
    | .frame opcode hdr key raw =>
      if opcode = 0x1 then
        .message (hdr + raw.length) (if onText then [.text (unmask key raw)] else [])
      else if opcode = 0x8 then .stop (if onClose then [.close 1000] else [])
      else .message (hdr + raw.length) []
  progress := by
    intro rx n out h
    cases hscan : scanFrame rx with
    | incomplete =>
      rw [hscan] at h
      cases h
    | unsupported =>
      rw [hscan] at h
      cases h
    | frame opcode hdr key raw =>
      obtain ⟨htwo, hle⟩ := scanFrame_frame hscan
      rw [hscan] at h
      simp only at h
      split_ifs at h
      all_goals
        cases h
        exact ⟨by omega, hle⟩
  stop_append := by
    intro rx out more h
    have hne : scanFrame rx ≠ .incomplete := by
      intro hscan
      rw [hscan] at h
      cases h
    rw [scanFrame_append hne]
    exact h
  message_append := by
    intro rx n out more h
    have hne : scanFrame rx ≠ .incomplete := by
      intro hscan
      rw [hscan] at h
      cases h
    rw [scanFrame_append hne]
    exact h

/-- A call ends as the decoder does: with the same events, and with the input left to it
unless it gave up. -/
def Yields (r : (ℤ × List WsEvent) × WsClient) (o : List WsEvent × Option (List UInt8)) : Prop :=
  r.1.2 = o.1 ∧
    match o.2 with
    | none => r.1.1 = -1
    | some rest => r.1.1 = 0 ∧ r.2.rx = rest

theorem framesLoop_eq {onText onClose : Bool} {mallocOk : ℕ → Bool}
    (hmalloc : ∀ i, mallocOk i = true) (fuel i : ℕ) (rx : List UInt8) :
    (framesLoop onText onClose mallocOk fuel i rx).events =
        ((frameDecoder onText onClose).drainLoop fuel rx).1 ∧
      match ((frameDecoder onText onClose).drainLoop fuel rx).2 with
      | none => (framesLoop onText onClose mallocOk fuel i rx).rc = -1
      | some rest => (framesLoop onText onClose mallocOk fuel i rx).rc = 0 ∧
          (framesLoop onText onClose mallocOk fuel i rx).rx = rest ∧
          (framesLoop onText onClose mallocOk fuel i rx).closed = false := by
  induction fuel generalizing i rx with
  | zero => exact ⟨rfl, rfl, rfl, rfl⟩
  | succ fuel ih =>
    rw [framesLoop, Decoder.drainLoop]
    cases hscan : scanFrame rx with
    | incomplete =>
      simp only [frameDecoder, hscan]
      exact ⟨trivial, trivial, trivial, trivial⟩
    | unsupported =>
      simp only [frameDecoder, hscan]
      exact ⟨trivial, trivial⟩
    | frame opcode hdr key raw =>
      obtain ⟨hevents, hrest⟩ := ih (i + 1) (rx.drop (hdr + raw.length))
      by_cases htext : opcode = 0x1
      · have hnext : (frameDecoder onText onClose).next rx = .message (hdr + raw.length)
            (if onText then [.text (unmask key raw)] else []) := by
          simp only [frameDecoder, hscan, if_pos htext]
        simp only [hnext, if_pos htext, hmalloc, Bool.true_and, hevents]
        exact ⟨trivial, hrest⟩
      · by_cases hclose : opcode = 0x8
        · have hnext : (frameDecoder onText onClose).next rx =
              .stop (if onClose then [.close 1000] else []) := by
            simp only [frameDecoder, hscan, if_neg htext, if_pos hclose]
          simp only [hnext, if_neg htext, if_pos hclose]
          exact ⟨trivial, trivial⟩
        · have hnext : (frameDecoder onText onClose).next rx = .message (hdr + raw.length) [] := by
            simp only [frameDecoder, hscan, if_neg htext, if_neg hclose]
          simp only [hnext, if_neg htext, if_neg hclose, List.nil_append]
          exact ⟨hevents, hrest⟩

theorem processFrames_yields {mallocOk : ℕ → Bool} (hmalloc : ∀ i, mallocOk i = true)
    (c : WsClient) :
    Yields (processFrames mallocOk c) ((frameDecoder c.onText c.onClose).drain c.rx) ∧
      (((processFrames mallocOk c).1.1 = 0) → (processFrames mallocOk c).2.closed = c.closed) := by
  obtain ⟨hevents, hrest⟩ := @framesLoop_eq c.onText c.onClose mallocOk hmalloc
    (c.rx.length + 1) 0 c.rx
  rw [← Decoder.drain] at hevents hrest
  cases hdrain : ((frameDecoder c.onText c.onClose).drain c.rx).2 with
  | none =>
    rw [hdrain] at hrest
    have hrc : (processFrames mallocOk c).1.1 = -1 := hrest
    refine ⟨⟨hevents, ?_⟩, ?_⟩
    · rw [hdrain]
      exact hrc
    · intro h
      rw [hrc] at h
      cases h
  | some rest =>
    rw [hdrain] at hrest
    obtain ⟨hrc, hrx, hclosed⟩ := hrest
    refine ⟨⟨hevents, ?_⟩, ?_⟩
    · rw [hdrain]
      exact ⟨hrc, hrx⟩
    · intro _
      have hor : (processFrames mallocOk c).2.closed =
          (c.closed || (framesLoop c.onText c.onClose mallocOk (c.rx.length + 1) 0 c.rx).closed) :=
        rfl
      rw [hor, hclosed, Bool.or_false]

/-- A poll that times out or reads at least one byte, with no failing allocation. -/
structure PollIo.Sound (io : PollIo) : Prop where
  ready : 0 ≤ io.ready
  reallocOk : io.reallocOk = true
  mallocOk : ∀ i, io.mallocOk i = true
  nonempty : io.ready ≠ 0 → io.read ≠ []

/-- No read that is made returns more than it has room for. -/
def Fits : List PollIo → WsClient → Prop
  | [], _ => True
  | io :: ios, c =>
    (io.ready ≠ 0 → c.rx.length + io.read.length ≤ max c.rxCap (c.rx.length + 8192)) ∧
      ((rtwWsPoll io c).1.1 ≠ -1 → Fits ios (rtwWsPoll io c).2)

/-- The pieces read from the socket. -/
def pieces (ios : List PollIo) : List (List UInt8) :=
  (ios.filter fun io => io.ready ≠ 0).map PollIo.read

/-- An open connection with the given callbacks. -/
structure WsClient.Open (onText onClose : Bool) (c : WsClient) : Prop where
  fd : 0 ≤ c.fd
  closed : c.closed = false
  onText : c.onText = onText
  onClose : c.onClose = onClose

theorem ensureRxCap_ok (c : WsClient) (need : ℕ) :
    (ensureRxCap true c need).1 = true ∧
      (ensureRxCap true c need).2.rxCap = max c.rxCap need ∧
      (ensureRxCap true c need).2.rx = c.rx ∧ (ensureRxCap true c need).2.fd = c.fd ∧
      (ensureRxCap true c need).2.closed = c.closed ∧
      (ensureRxCap true c need).2.onText = c.onText ∧
      (ensureRxCap true c need).2.onClose = c.onClose := by
  unfold ensureRxCap
  by_cases h : need ≤ c.rxCap
  · rw [dif_pos h]
    exact ⟨rfl, (max_eq_left h).symm, rfl, rfl, rfl, rfl, rfl⟩
  · rw [dif_neg h, if_pos rfl]
    exact ⟨rfl, (max_eq_right (Nat.le_of_not_le h)).symm, rfl, rfl, rfl, rfl, rfl⟩

/-- A poll that times out does nothing; one that reads a piece drains the buffer with it. -/
theorem rtwWsPoll_spec {onText onClose : Bool} {c : WsClient} (hc : c.Open onText onClose)
    {io : PollIo} (h : io.Sound)
    (hfits : io.ready ≠ 0 → c.rx.length + io.read.length ≤ max c.rxCap (c.rx.length + 8192)) :
    (io.ready = 0 → rtwWsPoll io c = ((0, []), c)) ∧
      (io.ready ≠ 0 →
        Yields (rtwWsPoll io c) ((frameDecoder onText onClose).drain (c.rx ++ io.read)) ∧
          ((rtwWsPoll io c).1.1 = 0 → (rtwWsPoll io c).2.Open onText onClose)) := by
  obtain ⟨hready, hrealloc, hmalloc, hne⟩ := h
  obtain ⟨hfd, hclosed, hon, hcl⟩ := hc
  have hopen : ¬ (c.fd < 0 ∨ c.closed = true) := by
    rw [hclosed]
    simpa using hfd
  constructor
  · intro h0
    rw [rtwWsPoll, if_neg hopen, if_neg (by omega), if_pos h0]
  · intro h0
    obtain ⟨hok, hcap, hrx, hfd', hclosed', hon', hcl'⟩ := ensureRxCap_ok c (c.rx.length + 8192)
    have hpoll : rtwWsPoll io c = processFrames io.mallocOk
        ((ensureRxCap true c (c.rx.length + 8192)).2.receive io.read) := by
      rw [rtwWsPoll, if_neg hopen, if_neg (by omega), if_neg h0, hrealloc]
      simp only [hok, Bool.true_eq_false, if_false, if_neg (hne h0)]
    generalize (ensureRxCap true c (c.rx.length + 8192)).2 = d at *
    have hgot : (d.receive io.read).rx = c.rx ++ io.read := by
      have hroom := hfits h0
      change d.rx ++ io.read.take (d.rxCap - d.rx.length) = _
      rw [hrx, hcap, List.take_of_length_le (by omega)]
    obtain ⟨hyields, hstays⟩ := processFrames_yields hmalloc (d.receive io.read)
    rw [hgot] at hyields
    have hflags : frameDecoder (d.receive io.read).onText (d.receive io.read).onClose =
        frameDecoder onText onClose := by
      change frameDecoder d.onText d.onClose = _
      rw [hon', hcl', hon, hcl]
    rw [hflags] at hyields
    rw [hpoll]
    refine ⟨hyields, fun h0 => ⟨?_, ?_, ?_, ?_⟩⟩
    · change 0 ≤ d.fd
      rw [hfd']
      exact hfd
    · exact (hstays h0).trans (hclosed'.trans hclosed)
    · exact hon'.trans hon
    · exact hcl'.trans hcl

/-- A run of polls ends as the decoder does when it is fed the pieces. -/
theorem pollRun_yields {onText onClose : Bool} {ios : List PollIo} {c : WsClient}
    (hc : c.Open onText onClose) (h : ∀ io ∈ ios, io.Sound) (hfits : Fits ios c) :
    Yields (pollRun ios c) ((frameDecoder onText onClose).feed c.rx (pieces ios)) := by
  induction ios generalizing c with
  | nil => exact ⟨rfl, rfl, rfl⟩
  | cons io ios ih =>
    rw [List.forall_mem_cons] at h
    obtain ⟨hio, hrest⟩ := hfits
    obtain ⟨htimeout, hread⟩ := rtwWsPoll_spec hc h.1 hio
    by_cases h0 : io.ready = 0
    · have hpieces : pieces (io :: ios) = pieces ios := by
        rw [pieces, List.filter_cons_of_neg (by simpa using h0), pieces]
      rw [htimeout h0] at hrest
      have hrun : pollRun (io :: ios) c = pollRun ios c := by
        rw [pollRun, htimeout h0]
        rfl
      rw [hpieces, hrun]
      exact ih hc h.2 (hrest (show (0 : ℤ) ≠ -1 by decide))
    · have hpieces : pieces (io :: ios) = io.read :: pieces ios := by
        rw [pieces, List.filter_cons_of_pos (by simpa using h0), pieces, List.map_cons]
      obtain ⟨⟨hevents, hout⟩, hopen⟩ := hread h0
      rw [hpieces, Decoder.feed, pollRun, Decoder.andThen]
      cases hdrain : ((frameDecoder onText onClose).drain (c.rx ++ io.read)).2 with
      | none =>
        rw [hdrain] at hout
        simp only [hout, if_true]
        exact ⟨hevents, hout⟩
      | some rest =>
        rw [hdrain] at hout
        obtain ⟨hrc, hrx⟩ := hout
        have hne : (rtwWsPoll io c).1.1 ≠ -1 := by
          rw [hrc]
          decide
        obtain ⟨hevents', hout'⟩ := ih (hopen hrc) h.2 (hrest hne)
        rw [hrx] at hevents' hout'
        simp only [if_neg hne]
        refine ⟨?_, hout'⟩
        simp only [hevents, hevents']

/-- Two runs make the same callbacks and end alike: with -1, or with the same tail. -/
structure SameOutcome (r r' : (ℤ × List WsEvent) × WsClient) : Prop where
  rc : r.1.1 = r'.1.1
  events : r.1.2 = r'.1.2
  tail : r.1.1 ≠ -1 → r.2.rx = r'.2.rx

theorem Yields.same {r r' : (ℤ × List WsEvent) × WsClient}
    {o : List WsEvent × Option (List UInt8)} (h : Yields r o) (h' : Yields r' o) :
    SameOutcome r r' := by
  obtain ⟨hevents, hout⟩ := h
  obtain ⟨hevents', hout'⟩ := h'
  cases ho : o.2 with
  | none =>
    rw [ho] at hout hout'
    exact ⟨hout.trans hout'.symm, hevents.trans hevents'.symm, fun hne => absurd hout hne⟩
  | some rest =>
    rw [ho] at hout hout'
    exact ⟨hout.1.trans hout'.1.symm, hevents.trans hevents'.symm,
      fun _ => hout.2.trans hout'.2.symm⟩

theorem pieces_nonempty {ios : List PollIo} (h : ∀ io ∈ ios, io.Sound) :
    ∀ piece ∈ pieces ios, piece ≠ [] := by
  intro piece hpiece
  obtain ⟨io, hio, rfl⟩ := List.mem_map.mp hpiece
  obtain ⟨hmem, hready⟩ := List.mem_filter.mp hio
  exact (h io hmem).nonempty (by simpa using hready)

/-- What a connection makes of a byte stream does not depend on how it is cut. -/
theorem segmentation_independent {onText onClose : Bool} {c : WsClient}
    (hc : c.Open onText onClose) {ios ios' : List PollIo} (h : ∀ io ∈ ios, io.Sound)
    (h' : ∀ io ∈ ios', io.Sound) (hfits : Fits ios c) (hfits' : Fits ios' c)
    (hstream : (pieces ios).flatten = (pieces ios').flatten) :
    SameOutcome (pollRun ios c) (pollRun ios' c) := by
  have hrun := pollRun_yields hc h hfits
  have hrun' := pollRun_yields hc h' hfits'
  have hfeed : (frameDecoder onText onClose).feed c.rx (pieces ios) =
      (frameDecoder onText onClose).feed c.rx (pieces ios') :=
    Decoder.feed_congr _ (pieces_nonempty h) (pieces_nonempty h') hstream
  rw [← hfeed] at hrun'
  exact hrun.same hrun'

/-- A poll that reads these bytes. -/
def reading (bytes : List UInt8) : PollIo := ⟨1, true, bytes, fun _ => true⟩

theorem reading_sound {cut : List (List UInt8)} (h : ∀ piece ∈ cut, piece ≠ []) :
    ∀ io ∈ cut.map reading, io.Sound := by
  rw [List.forall_mem_map]
  intro piece hpiece
  exact ⟨show (0 : ℤ) ≤ 1 by decide, rfl, fun _ => rfl, fun _ => h piece hpiece⟩

/-- A client right after the upgrade. -/
def freshClient : WsClient := ⟨3, true, true, [], 65536, false, Nat.zero_le _⟩

/-- A text, a ping, the first half of a masked text, and a close. -/
def demoStream : List UInt8 :=
  [0x81, 2, 72, 105, 0x89, 0, 0x01, 0x81, 1, 2, 3, 4, 64, 0x88, 0]

theorem fits_of_short {ios : List PollIo} {c : WsClient}
    (h : ∀ io ∈ ios, io.read.length ≤ 8192) : Fits ios c := by
  induction ios generalizing c with
  | nil => trivial
  | cons io ios ih =>
    rw [List.forall_mem_cons] at h
    refine ⟨fun _ => ?_, fun _ => ih h.2⟩
    have hone := h.1
    omega

theorem segmentation_independent_demo :
    SameOutcome (pollRun ([demoStream].map reading) freshClient)
      (pollRun ((demoStream.map fun b => [b]).map reading) freshClient) := by
  have hopen : freshClient.Open true true := ⟨by decide, rfl, rfl, rfl⟩
  have hone : ∀ piece ∈ [demoStream], piece ≠ [] := by decide
  have hbytes : ∀ piece ∈ demoStream.map fun b => [b], piece ≠ [] := by decide
  refine segmentation_independent hopen (reading_sound hone) (reading_sound hbytes)
    (fits_of_short ?_) (fits_of_short ?_) ?_
  · decide
  · decide
  · decide

example : (pollRun ((demoStream.map fun b => [b]).map reading) freshClient).1 =
    (-1, [.text [72, 105], .text [65], .close 1000]) := by decide

end RealtimeWs.Core
