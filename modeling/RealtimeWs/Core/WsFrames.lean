import RealtimeWs.Core.WsClient

/-! The sending side of the WebSocket client, and the frames of a peer: what is written
reads back, and what becomes of messages sent in fragments. -/
namespace RealtimeWs.Core

/-! ### Sending -/

/-- One return of `send`: bytes taken, an interruption, or an error. With TLS the
interruptions are the two `SSL_ERROR_WANT` codes. -/
inductive SendResult
  | sent (n : ℕ)
  | again
  | error
  deriving DecidableEq, Repr

/-- `io_write_all` up to its first `send` that has not returned: the return value, if
there is one, and the bytes written. A `send` takes at most what it is given. -/
def ioWriteAll : List SendResult → List UInt8 → Option ℤ × List UInt8
  | _, [] => (some 0, [])
  | [], _ :: _ => (none, [])
  | .sent n :: results, b :: bs =>
    if n = 0 then (some (-1), [])
    else
      let r := ioWriteAll results ((b :: bs).drop n)
      (r.1, (b :: bs).take n ++ r.2)
  | .again :: results, b :: bs => ioWriteAll results (b :: bs)
  | .error :: _, _ :: _ => (some (-1), [])

/-- What one call of `rtw_ws_send_text` meets. -/
structure SendIo where
  key : MaskKey
  mallocOk : Bool
  results : List SendResult

def keyBytes (key : MaskKey) : List UInt8 := List.ofFn (show Fin 4 → UInt8 from key)

/-- The header, or none for a text that is too long. -/
def sendHeader (len : ℕ) : Option (List UInt8) :=
  if len < 126 then some [0x81, UInt8.ofNat (0x80 ||| len)]
  else if len < 65536 then
    some [0x81, 0x80 ||| 126, UInt8.ofNat ((len >>> 8) &&& 0xFF), UInt8.ofNat (len &&& 0xFF)]
  else none

/-- The return value and the bytes written. -/
def rtwWsSendText (io : SendIo) (c : WsClient) (text : List UInt8) : Option ℤ × List UInt8 :=
  if c.fd < 0 then (some (-1), [])
  else match sendHeader text.length with
    | none => (some (-1), [])
    | some hdr =>
      if io.mallocOk = false then (some (-1), [])
      else ioWriteAll io.results (hdr ++ keyBytes io.key ++ xorMask io.key 0 text)

/-- Only a prefix is ever written, and all of it when the call returns 0. -/
theorem ioWriteAll_spec (results : List SendResult) (buf : List UInt8) :
    (ioWriteAll results buf).2 <+: buf ∧
      ((ioWriteAll results buf).1 = some 0 ↔ (ioWriteAll results buf).2 = buf) := by
  induction results generalizing buf with
  | nil =>
    cases buf with
    | nil => exact ⟨List.prefix_rfl, by simp [ioWriteAll]⟩
    | cons b bs => exact ⟨List.nil_prefix, by simp [ioWriteAll]⟩
  | cons result results ih =>
    cases buf with
    | nil =>
      rw [ioWriteAll]
      exact ⟨List.prefix_rfl, by simp⟩
    | cons b bs =>
      cases result with
      | again =>
        rw [ioWriteAll]
        exact ih (b :: bs)
      | error =>
        rw [ioWriteAll]
        exact ⟨List.nil_prefix, by simp⟩
      | sent n =>
        rw [ioWriteAll]
        by_cases hn : n = 0
        · rw [if_pos hn]
          exact ⟨List.nil_prefix, by simp⟩
        · rw [if_neg hn]
          obtain ⟨hpre, hall⟩ := ih ((b :: bs).drop n)
          have hsplit := List.take_append_drop n (b :: bs)
          constructor
          · obtain ⟨tail, htail⟩ := hpre
            refine ⟨tail, ?_⟩
            rw [List.append_assoc, htail, hsplit]
          · simp only [hall]
            constructor
            · intro h
              rw [h, hsplit]
            · intro h
              exact List.append_cancel_left (h.trans hsplit.symm)

/-! ### Frames on the wire -/

/-- The bytes after the length: the key, if there is one, and the payload under it. -/
def wireBody (key : Option MaskKey) (payload : List UInt8) : List UInt8 :=
  match key with
  | none => payload
  | some key => keyBytes key ++ xorMask key 0 payload

/-- The first two bytes and the extended length. -/
def wireHeader (b0 : UInt8) (masked : Bool) (len : ℕ) : List UInt8 :=
  let maskBit : UInt8 := if masked then 0x80 else 0
  if len < 126 then [b0, maskBit ||| UInt8.ofNat len]
  else [b0, maskBit ||| UInt8.ofNat 126, UInt8.ofNat (len / 256), UInt8.ofNat len]

/-- A frame as the protocol lays it out, for payloads below 2^16 bytes. -/
def wireFrame (b0 : UInt8) (key : Option MaskKey) (payload : List UInt8) : List UInt8 :=
  wireHeader b0 key.isSome payload.length ++ wireBody key payload

/-- The header sent for a short text is that of a masked text frame. -/
theorem sendHeader_eq {len : ℕ} (h : len < 65536) :
    sendHeader len = some (wireHeader 0x81 true len) := by
  unfold sendHeader wireHeader
  by_cases hlen : len < 126
  · rw [if_pos hlen, if_pos hlen, UInt8.ofNat_or]
    rfl
  · have hhigh : UInt8.ofNat ((len >>> 8) &&& 0xFF) = UInt8.ofNat (len / 256) := by
      rw [UInt8.ofNat_and, Nat.shiftRight_eq_div_pow]
      exact UInt8.and_neg_one
    have hlow : UInt8.ofNat (len &&& 0xFF) = UInt8.ofNat len := by
      rw [UInt8.ofNat_and]
      exact UInt8.and_neg_one
    rw [if_neg hlen, if_pos h, if_neg hlen, hhigh, hlow]
    rfl

theorem maskAt_keyBytes (key : MaskKey) (hdr rest : List UInt8) :
    maskAt (hdr ++ (keyBytes key ++ rest)) hdr.length = key := by
  funext i
  rw [maskAt, List.getD_append_right _ _ _ _ (Nat.le_add_right _ _), Nat.add_sub_cancel_left]
  have hi : i = 0 ∨ i = 1 ∨ i = 2 ∨ i = 3 := by omega
  rcases hi with rfl | rfl | rfl | rfl
  · rfl
  · rfl
  · rfl
  · rfl

/-- What the decoder sees of a payload before it removes the mask. -/
def masked (key : Option MaskKey) (payload : List UInt8) : List UInt8 := unmask key payload

theorem unmask_masked (key : Option MaskKey) (payload : List UInt8) :
    unmask key (masked key payload) = payload := by
  cases key with
  | none => rfl
  | some key => exact xorMask_xorMask key 0 payload

theorem scanPayload_wire (opcode : UInt8) (key : Option MaskKey) (hdr raw rest : List UInt8) :
    scanPayload opcode hdr.length raw.length key (hdr ++ (raw ++ rest)) =
      .frame opcode hdr.length key raw := by
  have hlen : ¬ (hdr ++ (raw ++ rest)).length < hdr.length + raw.length := by
    rw [List.length_append, List.length_append]
    omega
  rw [scanPayload, if_neg hlen, List.drop_left, List.take_left]

theorem scanMask_wire (opcode : UInt8) (key : Option MaskKey) (hdr payload rest : List UInt8) :
    ∃ n, scanMask opcode key.isSome hdr.length payload.length
        (hdr ++ (wireBody key payload ++ rest)) = .frame opcode n key (masked key payload) ∧
      n + payload.length = (hdr ++ wireBody key payload).length := by
  cases key with
  | none =>
    refine ⟨hdr.length, ?_, (List.length_append ..).symm⟩
    exact scanPayload_wire opcode none hdr payload rest
  | some key =>
    have hbytes : hdr ++ (wireBody (some key) payload ++ rest) =
        (hdr ++ keyBytes key) ++ (xorMask key 0 payload ++ rest) := by
      rw [wireBody, List.append_assoc, List.append_assoc]
    have hkey : maskAt (hdr ++ (wireBody (some key) payload ++ rest)) hdr.length = key := by
      rw [wireBody, List.append_assoc]
      exact maskAt_keyBytes key hdr _
    have hfour : (hdr ++ keyBytes key).length = hdr.length + 4 := List.length_append
    have hlong : ¬ (hdr ++ (wireBody (some key) payload ++ rest)).length < hdr.length + 4 := by
      rw [hbytes, List.length_append, hfour]
      omega
    have hscan := scanPayload_wire opcode (some key) (hdr ++ keyBytes key)
      (xorMask key 0 payload) rest
    rw [hfour, length_xorMask, ← hbytes] at hscan
    refine ⟨hdr.length + 4, ?_, ?_⟩
    · have hsome : (some key).isSome = true := rfl
      rw [scanMask, if_pos hsome, if_neg hlong, hkey]
      exact hscan
    · rw [wireBody, ← List.append_assoc, List.length_append, hfour, length_xorMask]

/-- The bits of the second byte. -/
theorem length_bits (mask : Bool) : ∀ n < 128,
    ((((if mask then 0x80 else 0) ||| UInt8.ofNat n) &&& 0x80 : UInt8) != 0) = mask ∧
      (((if mask then 0x80 else 0) ||| UInt8.ofNat n) &&& 0x7F : UInt8).toNat = n := by
  cases mask with
  | false => decide
  | true => decide

theorem extended_length {len : ℕ} (h : len < 65536) :
    ((UInt8.ofNat (len / 256)).toNat <<< 8) ||| (UInt8.ofNat len).toNat = len := by
  have hlow : (UInt8.ofNat len).toNat < 2 ^ 8 := UInt8.toNat_lt _
  rw [← Nat.shiftLeft_add_eq_or_of_lt hlow, Nat.shiftLeft_eq, UInt8.toNat_ofNat',
    UInt8.toNat_ofNat']
  omega

/-- A whole frame at the front of the buffer is found with its payload, still masked. -/
theorem scanFrame_wire (b0 : UInt8) (key : Option MaskKey) {payload : List UInt8}
    (h : payload.length < 65536) (rest : List UInt8) :
    ∃ n, scanFrame (wireFrame b0 key payload ++ rest) =
        .frame (b0 &&& 0x0F) n key (masked key payload) ∧
      n + payload.length = (wireFrame b0 key payload).length := by
  have hmask := scanMask_wire (b0 &&& 0x0F) key (wireHeader b0 key.isSome payload.length) payload
    rest
  rw [← List.append_assoc, ← wireFrame] at hmask
  obtain ⟨n, hscan, hn⟩ := hmask
  refine ⟨n, ?_, hn⟩
  rw [← hscan, wireFrame, wireHeader]
  by_cases hlen : payload.length < 126
  · obtain ⟨hbit, hplen⟩ := length_bits key.isSome payload.length (by omega)
    simp only [if_pos hlen, List.cons_append, List.nil_append, scanFrame, hbit, hplen]
    rw [if_neg (by omega), if_neg (by omega)]
    rfl
  · obtain ⟨hbit, hplen⟩ := length_bits key.isSome 126 (by decide)
    simp only [if_neg hlen, List.cons_append, List.nil_append, scanFrame, hbit, hplen,
      extended_length h]
    rfl

/-- A frame of a peer. -/
structure Frame where
  b0 : UInt8
  key : Option MaskKey
  payload : List UInt8
  short : payload.length < 65536

def Frame.bytes (f : Frame) : List UInt8 := wireFrame f.b0 f.key f.payload

/-- The low four bits of the first byte. -/
def Frame.opcode (f : Frame) : UInt8 := f.b0 &&& 0x0F

/-- The callbacks a frame makes, unless it closes the connection. -/
def Frame.events (f : Frame) : List WsEvent :=
  if f.opcode = 0x1 then [.text f.payload] else []

/-- Mask and payload of a frame. -/
structure Payload where
  key : Option MaskKey
  bytes : List UInt8
  short : bytes.length < 65536

def Payload.frame (p : Payload) (b0 : UInt8) : Frame := ⟨b0, p.key, p.bytes, p.short⟩

/-- A frame that is neither text nor close makes no callback. -/
theorem quiet_frame (p : Payload) {b0 : UInt8} (htext : b0 &&& 0x0F ≠ 0x1)
    (hclose : b0 &&& 0x0F ≠ 0x8) : (p.frame b0).opcode ≠ 0x8 ∧ (p.frame b0).events = [] :=
  ⟨hclose, if_neg htext⟩

theorem text_frame (p : Payload) {b0 : UInt8} (htext : b0 &&& 0x0F = 0x1) :
    (p.frame b0).opcode ≠ 0x8 ∧ (p.frame b0).events = [.text p.bytes] := by
  constructor
  · change b0 &&& 0x0F ≠ 0x8
    rw [htext]
    decide
  · exact if_pos htext

/-- Frames that do not close the connection are all taken, with one text for each text frame. -/
theorem drain_frames (onClose : Bool) {fs : List Frame} (h : ∀ f ∈ fs, f.opcode ≠ 0x8) :
    (frameDecoder true onClose).drain (fs.flatMap Frame.bytes) =
      (fs.flatMap Frame.events, some []) := by
  induction fs with
  | nil => rfl
  | cons f fs ih =>
    rw [List.forall_mem_cons] at h
    obtain ⟨n, hscan, hn⟩ := scanFrame_wire f.b0 f.key f.short (fs.flatMap Frame.bytes)
    have hraw : (masked f.key f.payload).length = f.payload.length := length_unmask _ _
    have hnext : (frameDecoder true onClose).next (f.bytes ++ fs.flatMap Frame.bytes) =
        .message f.bytes.length f.events := by
      have hclose : ¬ f.b0 &&& 0x0F = 0x8 := h.1
      by_cases htext : f.b0 &&& 0x0F = 0x1
      · have hevents : f.events = [.text f.payload] := if_pos htext
        simp only [frameDecoder, Frame.bytes, hscan, hraw, unmask_masked, hn, if_true, hevents,
          if_pos htext]
      · have hevents : f.events = [] := if_neg htext
        simp only [frameDecoder, Frame.bytes, hscan, hraw, hn, if_neg hclose, hevents,
          if_neg htext]
    rw [List.flatMap_cons, Decoder.drain_of_message _ hnext, List.drop_left, ih h.2,
      List.flatMap_cons]

/-- The frame a text is sent in. -/
def textFrame (key : MaskKey) (text : List UInt8) (h : text.length < 65536) : Frame :=
  (⟨some key, text, h⟩ : Payload).frame 0x81

/-- A call that returns 0 has written one frame; one that does not return 0 has written a
proper prefix of it. -/
theorem rtwWsSendText_spec (io : SendIo) (c : WsClient) {text : List UInt8}
    (h : text.length < 65536) :
    (rtwWsSendText io c text).2 <+: (textFrame io.key text h).bytes ∧
      ((rtwWsSendText io c text).1 = some 0 ↔
        (rtwWsSendText io c text).2 = (textFrame io.key text h).bytes) := by
  have hframe : wireHeader 0x81 true text.length ++ keyBytes io.key ++ xorMask io.key 0 text =
      (textFrame io.key text h).bytes := List.append_assoc ..
  have hne : (textFrame io.key text h).bytes ≠ [] := by
    rw [← hframe, wireHeader]
    split <;> exact List.cons_ne_nil _ _
  have hnone : ([] : List UInt8) <+: (textFrame io.key text h).bytes ∧
      ((some (-1) : Option ℤ) = some 0 ↔ [] = (textFrame io.key text h).bytes) :=
    ⟨List.nil_prefix, by simp [hne.symm]⟩
  unfold rtwWsSendText
  by_cases hfd : c.fd < 0
  · rw [if_pos hfd]
    exact hnone
  · rw [if_neg hfd, sendHeader_eq h]
    by_cases hmalloc : io.mallocOk = false
    · simp only [if_pos hmalloc]
      exact hnone
    · simp only [if_neg hmalloc, hframe]
      exact ioWriteAll_spec io.results _

/-- A text of 2^16 bytes or more is refused before anything is written. -/
theorem rtwWsSendText_long (io : SendIo) (c : WsClient) {text : List UInt8}
    (h : 65536 ≤ text.length) : rtwWsSendText io c text = (some (-1), []) := by
  have hnone : sendHeader text.length = none := by
    rw [sendHeader, if_neg (by omega), if_neg (by omega)]
  rw [rtwWsSendText, hnone]
  split <;> rfl

/-! ### Frames sent, frames received -/

/-- A fresh client that gets whole frames, in any pieces, makes their callbacks and keeps
nothing. -/
theorem pollRun_frames {onClose : Bool} {c : WsClient} (hc : c.Open true onClose)
    (hempty : c.rx = []) {fs : List Frame} (hfs : ∀ f ∈ fs, f.opcode ≠ 0x8) {ios : List PollIo}
    (h : ∀ io ∈ ios, io.Sound) (hfits : Fits ios c)
    (hstream : (pieces ios).flatten = fs.flatMap Frame.bytes) :
    (pollRun ios c).1 = (0, fs.flatMap Frame.events) ∧ (pollRun ios c).2.rx = [] := by
  have hrun := pollRun_yields hc h hfits
  have hwait : (frameDecoder true onClose).next [] = .wait := rfl
  rw [hempty, Decoder.feed_nil_eq_drain _ hwait, hstream, drain_frames onClose hfs] at hrun
  obtain ⟨hevents, hrc, hrx⟩ := hrun
  exact ⟨Prod.ext hrc hevents, hrx⟩

/-- Texts below 2^16 bytes that were sent arrive in order, each once and whole, however the
stream is cut; longer texts are refused. -/
theorem texts_arrive {onClose : Bool} {peer : WsClient} (hpeer : peer.Open true onClose)
    (hempty : peer.rx = []) {c : WsClient} {sends : List (SendIo × List UInt8)}
    (hshort : ∀ s ∈ sends, s.2.length < 65536)
    (hok : ∀ s ∈ sends, (rtwWsSendText s.1 c s.2).1 = some 0) {ios : List PollIo}
    (h : ∀ io ∈ ios, io.Sound) (hfits : Fits ios peer)
    (hstream : (pieces ios).flatten = sends.flatMap fun s => (rtwWsSendText s.1 c s.2).2) :
    (pollRun ios peer).1 = (0, sends.map fun s => .text s.2) ∧ (pollRun ios peer).2.rx = [] ∧
      ∀ (io : SendIo) (text : List UInt8), 65536 ≤ text.length →
        rtwWsSendText io c text = (some (-1), []) := by
  have hframes : ∃ fs : List Frame, (∀ f ∈ fs, f.opcode ≠ 0x8) ∧
      (sends.flatMap fun s => (rtwWsSendText s.1 c s.2).2) = fs.flatMap Frame.bytes ∧
      fs.flatMap Frame.events = sends.map fun s => .text s.2 := by
    clear hstream
    induction sends with
    | nil => exact ⟨[], by simp, rfl, rfl⟩
    | cons s sends ih =>
      rw [List.forall_mem_cons] at hshort hok
      obtain ⟨fs, hfs, hbytes, hevents⟩ := ih hshort.2 hok.2
      obtain ⟨-, hwhole⟩ := rtwWsSendText_spec s.1 c hshort.1
      obtain ⟨hopcode, htext⟩ : (textFrame s.1.key s.2 hshort.1).opcode ≠ 0x8 ∧
          (textFrame s.1.key s.2 hshort.1).events = [.text s.2] := text_frame _ (by decide)
      refine ⟨textFrame s.1.key s.2 hshort.1 :: fs, ?_, ?_, ?_⟩
      · rw [List.forall_mem_cons]
        exact ⟨hopcode, hfs⟩
      · rw [List.flatMap_cons, List.flatMap_cons, hwhole.mp hok.1, hbytes]
      · rw [List.flatMap_cons, List.map_cons, hevents, htext]
        rfl
  obtain ⟨fs, hfs, hbytes, hevents⟩ := hframes
  obtain ⟨hrun, hrx⟩ := pollRun_frames hpeer hempty hfs h hfits (hstream.trans hbytes)
  rw [hevents] at hrun
  exact ⟨hrun, hrx, fun io text hlong => rtwWsSendText_long io c hlong⟩

def demoKey : MaskKey := fun i => UInt8.ofNat (0x12 + i)

/-- A send in two parts with an interruption in between. -/
def demoSend : SendIo := ⟨demoKey, true, [.sent 3, .again, .sent 100]⟩

def demoTexts : List (SendIo × List UInt8) := [(demoSend, [72, 105]), (demoSend, [])]

theorem texts_arrive_demo :
    (pollRun (((demoTexts.flatMap fun s => (rtwWsSendText s.1 freshClient s.2).2).map
        fun b => [b]).map reading) freshClient).1 = (0, demoTexts.map fun s => .text s.2) := by
  have hopen : freshClient.Open true true := ⟨by decide, rfl, rfl, rfl⟩
  have hok : ∀ s ∈ demoTexts, (rtwWsSendText s.1 freshClient s.2).1 = some 0 := by decide
  refine (texts_arrive hopen rfl ?_ hok (reading_sound ?_) (fits_of_short ?_) ?_).1
  · decide
  · decide
  · decide
  · decide

/-! ### Messages in fragments -/

/-- A ping or a pong. -/
structure Control where
  pong : Bool
  payload : Payload

def Control.frame (f : Control) : Frame := f.payload.frame (if f.pong then 0x8A else 0x89)

/-- A text message: control frames in front of it, its first fragment, and the
continuation fragments, each after the control frames in front of it. -/
structure TextMessage where
  before : List Control
  first : Payload
  rest : List (List Control × Payload)

/-- Continuation frames, the last of them with FIN. -/
def continuation : List (List Control × Payload) → List Frame
  | [] => []
  | [r] => r.1.map Control.frame ++ [r.2.frame 0x80]
  | r :: r' :: rs => r.1.map Control.frame ++ r.2.frame 0x00 :: continuation (r' :: rs)

def TextMessage.frames (m : TextMessage) : List Frame :=
  m.before.map Control.frame ++
    m.first.frame (if m.rest = [] then 0x81 else 0x01) :: continuation m.rest

/-- The payload of the continuation frames. -/
def TextMessage.continued (m : TextMessage) : List UInt8 := m.rest.flatMap fun r => r.2.bytes

def TextMessage.text (m : TextMessage) : List UInt8 := m.first.bytes ++ m.continued

theorem control_frame (c : Control) : c.frame.opcode ≠ 0x8 ∧ c.frame.events = [] := by
  rw [Control.frame]
  split
  · exact quiet_frame c.payload (by decide) (by decide)
  · exact quiet_frame c.payload (by decide) (by decide)

theorem control_events (cs : List Control) :
    (∀ f ∈ cs.map Control.frame, f.opcode ≠ 0x8) ∧
      (cs.map Control.frame).flatMap Frame.events = [] := by
  rw [List.forall_mem_map, List.flatMap_map]
  exact ⟨fun c _ => (control_frame c).1,
    List.flatMap_eq_nil_iff.mpr fun c _ => (control_frame c).2⟩

/-- Continuation frames make no callback. -/
theorem continuation_events (rest : List (List Control × Payload)) :
    (∀ f ∈ continuation rest, f.opcode ≠ 0x8) ∧
      (continuation rest).flatMap Frame.events = [] := by
  fun_induction continuation rest with
  | case1 => exact ⟨by simp, rfl⟩
  | case2 r =>
    obtain ⟨hopcode, hevents⟩ := control_events r.1
    obtain ⟨hlast, hquiet⟩ := quiet_frame r.2 (show (0x80 &&& 0x0F : UInt8) ≠ 0x1 by decide)
      (by decide)
    rw [List.forall_mem_append, List.forall_mem_singleton, List.flatMap_append, hevents,
      List.flatMap_singleton, hquiet]
    exact ⟨⟨hopcode, hlast⟩, rfl⟩
  | case3 r r' rs ih =>
    obtain ⟨hopcode, hevents⟩ := control_events r.1
    obtain ⟨hmore, hquiet⟩ := quiet_frame r.2 (show (0x00 &&& 0x0F : UInt8) ≠ 0x1 by decide)
      (by decide)
    rw [List.forall_mem_append, List.forall_mem_cons, List.flatMap_append, List.flatMap_cons,
      hevents, hquiet, ih.2]
    exact ⟨⟨hopcode, hmore, ih.1⟩, rfl⟩

/-- Of a message only its first fragment is delivered. -/
theorem message_events (m : TextMessage) :
    (∀ f ∈ m.frames, f.opcode ≠ 0x8) ∧ m.frames.flatMap Frame.events = [.text m.first.bytes] := by
  obtain ⟨hbefore, hnone⟩ := control_events m.before
  obtain ⟨hrest, hnone'⟩ := continuation_events m.rest
  have hfirst : (m.first.frame (if m.rest = [] then 0x81 else 0x01)).opcode ≠ 0x8 ∧
      (m.first.frame (if m.rest = [] then 0x81 else 0x01)).events = [.text m.first.bytes] := by
    split
    · exact text_frame m.first (by decide)
    · exact text_frame m.first (by decide)
  rw [TextMessage.frames, List.forall_mem_append, List.forall_mem_cons, List.flatMap_append,
    List.flatMap_cons, hnone, hnone', hfirst.2]
  exact ⟨⟨hbefore, hfirst.1, hrest⟩, rfl⟩

theorem messages_events (ms : List TextMessage) (after : List Control) :
    (∀ f ∈ ms.flatMap TextMessage.frames ++ after.map Control.frame, f.opcode ≠ 0x8) ∧
      (ms.flatMap TextMessage.frames ++ after.map Control.frame).flatMap Frame.events =
        ms.map fun m => .text m.first.bytes := by
  obtain ⟨hafter, hnone⟩ := control_events after
  rw [List.forall_mem_append, List.flatMap_append, hnone, List.append_nil]
  induction ms with
  | nil => exact ⟨⟨by simp, hafter⟩, rfl⟩
  | cons m ms ih =>
    obtain ⟨hm, hevents⟩ := message_events m
    rw [List.flatMap_cons, List.forall_mem_append, List.flatMap_append, hevents, ih.2,
      List.map_cons]
    exact ⟨⟨⟨hm, ih.1.1⟩, hafter⟩, rfl⟩

/-- Every message is delivered once, in order and whole, if and only if no continuation
fragment carries any bytes. -/
theorem messages_reassembled_iff {onClose : Bool} {c : WsClient} (hc : c.Open true onClose)
    (hempty : c.rx = []) (ms : List TextMessage) (after : List Control) {ios : List PollIo}
    (h : ∀ io ∈ ios, io.Sound) (hfits : Fits ios c)
    (hstream : (pieces ios).flatten =
      (ms.flatMap TextMessage.frames ++ after.map Control.frame).flatMap Frame.bytes) :
    (pollRun ios c).1.2 = (ms.map fun m => .text m.text) ↔ ∀ m ∈ ms, m.continued = [] := by
  obtain ⟨hopcode, hevents⟩ := messages_events ms after
  obtain ⟨hrun, -⟩ := pollRun_frames hc hempty hopcode h hfits hstream
  rw [hrun, hevents]
  clear hstream hopcode hevents hrun
  induction ms with
  | nil => simp
  | cons m ms ih =>
    rw [List.map_cons, List.map_cons, List.cons.injEq, ih, List.forall_mem_cons]
    refine and_congr_left fun _ => ?_
    rw [WsEvent.text.injEq, TextMessage.text]
    exact List.self_eq_append_right

/-- An unmasked payload of a few bytes. -/
def plainPayload (bytes : List UInt8) (h : bytes.length < 65536) : Payload := ⟨none, bytes, h⟩

/-- A message in one frame, after a ping. -/
def wholeMessage : TextMessage :=
  ⟨[⟨false, plainPayload [] (by decide)⟩], plainPayload [72, 105] (by decide), []⟩

/-- The same text in two fragments. -/
def splitMessage : TextMessage :=
  ⟨[], plainPayload [72] (by decide), [([], plainPayload [105] (by decide))]⟩

/-- A stream of messages read byte by byte. -/
def bytewise (ms : List TextMessage) : List PollIo :=
  (((ms.flatMap TextMessage.frames).flatMap Frame.bytes).map fun b => [b]).map reading

theorem messages_reassembled_whole :
    (pollRun (bytewise [wholeMessage]) freshClient).1.2 =
        ([wholeMessage].map fun m => .text m.text) ↔
      ∀ m ∈ [wholeMessage], m.continued = [] := by
  have hopen : freshClient.Open true true := ⟨by decide, rfl, rfl, rfl⟩
  refine messages_reassembled_iff hopen rfl [wholeMessage] [] (reading_sound ?_)
    (fits_of_short ?_) ?_
  · decide
  · decide
  · decide

/-- The second fragment is lost. -/
theorem split_message_cut :
    (pollRun (bytewise [splitMessage]) freshClient).1.2 ≠
      ([splitMessage].map fun m => .text m.text) := by
  decide

end RealtimeWs.Core
