import Mathlib.Data.List.Infix
import RealtimeWs.Core.Upgrade
import RealtimeWs.Core.WsFrames

/-! The receive buffer under its own accesses: the loop over the frames as it reads, unmasks and
moves bytes, none standing for an access outside the used part or a length that underflows. -/
namespace RealtimeWs.Core

/-! ### Accesses -/

/-- `memcpy(mask, rx + hdr, 4)`. -/
def maskRead (rx : List UInt8) (hdr : ℕ) : Option MaskKey :=
  if hdr + 4 ≤ rx.length then some (maskAt rx hdr) else none

/-- `memcpy(text, payload, plen)`. -/
def payloadRead (rx : List UInt8) (hdr plen : ℕ) : Option (List UInt8) :=
  if hdr + plen ≤ rx.length then some ((rx.drop hdr).take plen) else none

theorem maskIndex_lt (j : ℕ) : j % 4 < 4 := Nat.mod_lt j (Nat.succ_pos 3)

/-- `payload[j] ^= mask[j % 4]` for `n` bytes from the `j`-th on. -/
def unmaskLoop (mask : MaskKey) (hdr : ℕ) : ℕ → ℕ → List UInt8 → Option (List UInt8)
  | 0, _, rx => some rx
  | n + 1, j, rx =>
    match rx[hdr + j]? with
    | none => none
    | some b => unmaskLoop mask hdr n (j + 1) (rx.set (hdr + j) (b ^^^ mask ⟨j % 4, maskIndex_lt j⟩))

/-- The payload under its mask, if there is one, in place. -/
def unmaskInPlace (mask : Option MaskKey) (hdr plen : ℕ) (rx : List UInt8) :
    Option (List UInt8) :=
  match mask with
  | none => some rx
  | some mask => unmaskLoop mask hdr plen 0 rx

/-- `memmove(rx, rx + n, rx_len - n)` and `rx_len -= n`. -/
def moveDown (rx : List UInt8) (n : ℕ) : Option (List UInt8) :=
  if n ≤ rx.length then some (rx.drop n) else none

/-! ### The loop -/

/-- How one round of the loop ends: the function returns, or the loop goes on. -/
inductive Round
  | returns (r : FrameRun)
  | goesOn (events : List WsEvent) (rx : List UInt8)

/-- What a round needs besides the bytes. -/
structure Callbacks where
  onText : Bool
  onClose : Bool
  mallocOk : Bool

/-- The copy of a text and its callback. -/
def textEvents (cb : Callbacks) (hdr plen : ℕ) (rx : List UInt8) : Option (List WsEvent) := do
  if cb.mallocOk then
    let text ← payloadRead rx hdr plen
    return if cb.onText then [.text text] else []
  else return []

def payloadRound (cb : Callbacks) (opcode : UInt8) (hdr plen : ℕ) (mask : Option MaskKey)
    (rx : List UInt8) : Option Round := do
  if rx.length < hdr + plen then return .returns ⟨0, [], rx, false⟩
  else
    let rx ← unmaskInPlace mask hdr plen rx
    if opcode = 0x1 then
      let events ← textEvents cb hdr plen rx
      return .goesOn events (← moveDown rx (hdr + plen))
    else if opcode = 0x8 then
      return .returns ⟨-1, if cb.onClose then [.close 1000] else [], rx, true⟩
    else return .goesOn [] (← moveDown rx (hdr + plen))

def maskRound (cb : Callbacks) (opcode : UInt8) (masked : Bool) (hdr plen : ℕ)
    (rx : List UInt8) : Option Round := do
  if masked then
    if rx.length < hdr + 4 then return .returns ⟨0, [], rx, false⟩
    else
      let mask ← maskRead rx hdr
      payloadRound cb opcode (hdr + 4) plen (some mask) rx
  else payloadRound cb opcode hdr plen none rx

def frameRound (cb : Callbacks) (rx : List UInt8) : Option Round := do
  let b0 ← rx[0]?
  let b1 ← rx[1]?
  let opcode := b0 &&& 0x0F
  let masked := (b1 &&& 0x80) != 0
  let plen := (b1 &&& 0x7F).toNat
  if plen = 126 then
    if rx.length < 4 then return .returns ⟨0, [], rx, false⟩
    else
      let l0 ← rx[2]?
      let l1 ← rx[3]?
      maskRound cb opcode masked 4 ((l0.toNat <<< 8) ||| l1.toNat) rx
  else if plen = 127 then return .returns ⟨-1, [], rx, false⟩
  else maskRound cb opcode masked 2 plen rx

/-- Loop of `process_frames`; none also when the rounds run out. -/
def roundsLoop (onText onClose : Bool) (mallocOk : ℕ → Bool) :
    ℕ → ℕ → List UInt8 → Option FrameRun
  | 0, _, _ => none
  | rounds + 1, i, rx =>
    if 2 ≤ rx.length then do
      match ← frameRound ⟨onText, onClose, mallocOk i⟩ rx with
      | .returns r => return r
      | .goesOn events rx =>
        let r ← roundsLoop onText onClose mallocOk rounds (i + 1) rx
        return { r with events := events ++ r.events }
    else return ⟨0, [], rx, false⟩

/-! ### No access fails -/

theorem unmaskLoop_eq {mask : MaskKey} {hdr n j : ℕ} {rx : List UInt8}
    (h : hdr + j + n ≤ rx.length) :
    unmaskLoop mask hdr n j rx = some (rx.take (hdr + j) ++
      xorMask mask j ((rx.drop (hdr + j)).take n) ++ rx.drop (hdr + j + n)) := by
  induction n generalizing j rx with
  | zero =>
    rw [unmaskLoop, List.take_zero, xorMask, List.append_nil, Nat.add_zero, List.take_append_drop]
  | succ n ih =>
    have hlt : hdr + j < rx.length := by omega
    have hdrop : rx.drop (hdr + j) = rx[hdr + j] :: rx.drop (hdr + j + 1) :=
      List.drop_eq_getElem_cons hlt
    have hmasked : ∀ bs, xorMask mask j (rx[hdr + j] :: bs) =
        (rx[hdr + j] ^^^ mask ⟨j % 4, maskIndex_lt j⟩) :: xorMask mask (j + 1) bs := fun _ => rfl
    generalize hb : rx[hdr + j] ^^^ mask ⟨j % 4, maskIndex_lt j⟩ = b at hmasked
    have hset : rx.set (hdr + j) b = (rx.take (hdr + j) ++ [b]) ++ rx.drop (hdr + j + 1) := by
      rw [List.set_eq_take_append_cons_drop, if_pos hlt, List.append_assoc, List.singleton_append]
    have hfront : (rx.take (hdr + j) ++ [b]).length = hdr + (j + 1) := by
      rw [List.length_append, List.length_take, List.length_singleton]
      omega
    have hrest : ((rx.take (hdr + j) ++ [b]) ++ rx.drop (hdr + j + 1)).drop (hdr + (j + 1) + n) =
        rx.drop (hdr + j + (n + 1)) := by
      rw [← List.drop_drop, List.drop_left' hfront, List.drop_drop]
      congr 1
      omega
    have hlong : hdr + (j + 1) + n ≤ (rx.set (hdr + j) b).length := by
      rw [List.length_set]
      omega
    rw [unmaskLoop, List.getElem?_eq_getElem hlt]
    simp only [hb]
    rw [ih hlong, hset, hrest, List.take_left' hfront, List.drop_left' hfront, hdrop,
      List.take_succ_cons, hmasked, List.append_assoc (rx.take (hdr + j)) [b],
      List.singleton_append]

/-- What a round makes of the frame at the front of the buffer. -/
def Scan.round (cb : Callbacks) (rx : List UInt8) : Scan → Round
  | .incomplete => .returns ⟨0, [], rx, false⟩
  | .unsupported => .returns ⟨-1, [], rx, false⟩
  | .frame opcode hdr key raw =>
    if opcode = 0x1 then
      .goesOn (if cb.mallocOk && cb.onText then [.text (unmask key raw)] else [])
        (rx.drop (hdr + raw.length))
    else if opcode = 0x8 then
      .returns ⟨-1, if cb.onClose then [.close 1000] else [],
        rx.take hdr ++ unmask key raw ++ rx.drop (hdr + raw.length), true⟩
    else .goesOn [] (rx.drop (hdr + raw.length))

theorem payloadRound_eq (cb : Callbacks) (opcode : UInt8) (hdr plen : ℕ) (key : Option MaskKey)
    (rx : List UInt8) : payloadRound cb opcode hdr plen key rx =
      some ((scanPayload opcode hdr plen key rx).round cb rx) := by
  unfold payloadRound scanPayload
  by_cases hlen : rx.length < hdr + plen
  · rw [if_pos hlen, if_pos hlen]
    rfl
  · rw [if_neg hlen, if_neg hlen]
    have hraw : ((rx.drop hdr).take plen).length = plen := by
      rw [List.length_take, List.length_drop]
      omega
    generalize hraw' : (rx.drop hdr).take plen = raw at hraw ⊢
    -- the buffer with the payload unmasked in place
    obtain ⟨plain, hplain⟩ : ∃ plain, plain = rx.take hdr ++ unmask key raw ++
        rx.drop (hdr + plen) := ⟨_, rfl⟩
    have hloop : unmaskInPlace key hdr plen rx = some plain := by
      cases key with
      | none =>
        simp only [unmaskInPlace, hplain, unmask, ← hraw']
        rw [List.append_assoc, ← List.drop_drop, List.take_append_drop, List.take_append_drop]
      | some mask =>
        have hfits : hdr + 0 + plen ≤ rx.length := by omega
        simp only [unmaskInPlace, hplain, unmask, ← hraw']
        exact unmaskLoop_eq hfits
    have hfront : (rx.take hdr).length = hdr := by
      rw [List.length_take]
      omega
    have hboth : (rx.take hdr ++ unmask key raw).length = hdr + plen := by
      rw [List.length_append, hfront, length_unmask, hraw]
    have hdrop : plain.drop (hdr + plen) = rx.drop (hdr + plen) := by
      rw [hplain, List.drop_left' hboth]
    have hmove : moveDown plain (hdr + plen) = some (rx.drop (hdr + plen)) := by
      rw [moveDown, if_pos, hdrop]
      rw [hplain, List.length_append, hboth]
      exact Nat.le_add_right _ _
    have hread : payloadRead plain hdr plen = some (unmask key raw) := by
      rw [payloadRead, if_pos]
      · rw [hplain, List.append_assoc, List.drop_left' hfront, List.take_left']
        rw [length_unmask, hraw]
      · rw [hplain, List.length_append, hboth]
        exact Nat.le_add_right _ _
    simp only [hloop, Scan.round, hraw, Option.bind_eq_bind, Option.bind_some, textEvents, hread,
      hmove]
    by_cases htext : opcode = 0x1
    · simp only [if_pos htext]
      cases cb.mallocOk <;> rfl
    · by_cases hclose : opcode = 0x8
      · simp only [if_neg htext, if_pos hclose, ← hplain]
        rfl
      · simp only [if_neg htext, if_neg hclose]
        rfl

theorem maskRound_eq (cb : Callbacks) (opcode : UInt8) (masked : Bool) (hdr plen : ℕ)
    (rx : List UInt8) : maskRound cb opcode masked hdr plen rx =
      some ((scanMask opcode masked hdr plen rx).round cb rx) := by
  unfold maskRound scanMask
  cases masked with
  | false => exact payloadRound_eq cb opcode hdr plen none rx
  | true =>
    simp only [if_true]
    by_cases hlen : rx.length < hdr + 4
    · rw [if_pos hlen, if_pos hlen]
      rfl
    · have hread : maskRead rx hdr = some (maskAt rx hdr) := if_pos (Nat.le_of_not_lt hlen)
      rw [if_neg hlen, if_neg hlen, hread]
      exact payloadRound_eq cb opcode (hdr + 4) plen (some (maskAt rx hdr)) rx

/-- A round on two bytes or more makes no access outside the used part. -/
theorem frameRound_eq (cb : Callbacks) {rx : List UInt8} (h : 2 ≤ rx.length) :
    frameRound cb rx = some ((scanFrame rx).round cb rx) := by
  rcases rx with _ | ⟨b0, _ | ⟨b1, body⟩⟩
  · exact absurd h (Nat.not_succ_le_zero 1)
  · exact absurd h (Nat.not_succ_le_self 1)
  · have hfirst : (b0 :: b1 :: body)[0]? = some b0 ∧ (b0 :: b1 :: body)[1]? = some b1 :=
      ⟨rfl, rfl⟩
    unfold frameRound scanFrame
    simp only [hfirst, Option.bind_eq_bind, Option.bind_some]
    by_cases h126 : (b1 &&& 0x7F).toNat = 126
    · simp only [if_pos h126]
      rcases body with _ | ⟨l0, _ | ⟨l1, body⟩⟩
      · rfl
      · rfl
      · exact maskRound_eq cb _ _ 4 _ _
    · simp only [if_neg h126]
      by_cases h127 : (b1 &&& 0x7F).toNat = 127
      · simp only [if_pos h127]
        rfl
      · simp only [if_neg h127]
        exact maskRound_eq cb _ _ 2 _ _

theorem frameRound_short {cb : Callbacks} {rx : List UInt8} (h : rx.length < 2) :
    frameRound cb rx = none := by
  rcases rx with _ | ⟨b0, _ | ⟨b1, body⟩⟩
  · rfl
  · rfl
  · simp only [List.length_cons] at h
    omega

/-- A round after which the loop goes on has taken two bytes at least. -/
theorem frameRound_progress {cb : Callbacks} {rx rest : List UInt8} {events : List WsEvent}
    (h : frameRound cb rx = some (.goesOn events rest)) : rest.length + 2 ≤ rx.length := by
  by_cases htwo : 2 ≤ rx.length
  · rw [frameRound_eq cb htwo] at h
    have hround := Option.some.inj h
    cases hscan : scanFrame rx with
    | incomplete =>
      rw [hscan] at hround
      cases hround
    | unsupported =>
      rw [hscan] at hround
      cases hround
    | frame opcode hdr key raw =>
      obtain ⟨hhdr, hle⟩ := scanFrame_frame hscan
      have hrest : rest = rx.drop (hdr + raw.length) := by
        rw [hscan, Scan.round] at hround
        split_ifs at hround
        all_goals
          cases hround
          rfl
      rw [hrest, List.length_drop]
      omega
  · rw [frameRound_short (Nat.lt_of_not_le htwo)] at h
    cases h

/-- The rounds make no access outside the used part, and there are enough of them. -/
theorem roundsLoop_eq (onText onClose : Bool) (mallocOk : ℕ → Bool) {rounds i : ℕ}
    {rx : List UInt8} (h : rx.length < rounds) :
    roundsLoop onText onClose mallocOk rounds i rx =
      some (framesLoop onText onClose mallocOk rounds i rx) := by
  induction rounds generalizing i rx with
  | zero => exact absurd h (Nat.not_lt_zero _)
  | succ rounds ih =>
    rw [roundsLoop, framesLoop]
    by_cases htwo : 2 ≤ rx.length
    · rw [if_pos htwo, frameRound_eq _ htwo]
      cases hscan : scanFrame rx with
      | incomplete => rfl
      | unsupported => rfl
      | frame opcode hdr key raw =>
        obtain ⟨hhdr, hle⟩ := scanFrame_frame hscan
        have hrest : (rx.drop (hdr + raw.length)).length < rounds := by
          rw [List.length_drop]
          omega
        simp only [Scan.round, Option.bind_eq_bind, Option.bind_some]
        by_cases htext : opcode = 0x1
        · simp only [if_pos htext, ih hrest, Option.bind_some]
          rfl
        · by_cases hclose : opcode = 0x8
          · simp only [if_neg htext, if_pos hclose]
            rfl
          · simp only [if_neg htext, if_neg hclose, ih hrest, Option.bind_some]
            rfl
    · rcases rx with _ | ⟨b0, _ | ⟨b1, body⟩⟩
      · rfl
      · rfl
      · exact absurd (Nat.le_add_left 2 body.length) htwo

/-! ### What is left over -/

/-- A frame of any length the client supports, whichever way its length is written. -/
structure AnyFrame where
  b0 : UInt8
  masked : Bool
  long : Bool
  len : ℕ
  len_lt : len < if long then 65536 else 126
  /-- The key, if there is one, and the payload. -/
  body : List UInt8
  length_body : body.length = (if masked then 4 else 0) + len

/-- The bytes in front of the key. -/
def anyHeader (b0 : UInt8) (masked long : Bool) (len : ℕ) : List UInt8 :=
  let maskBit : UInt8 := if masked then 0x80 else 0
  if long then [b0, maskBit ||| 126, UInt8.ofNat (len / 256), UInt8.ofNat len]
  else [b0, maskBit ||| UInt8.ofNat len]

def AnyFrame.bytes (f : AnyFrame) : List UInt8 := anyHeader f.b0 f.masked f.long f.len ++ f.body

theorem length_anyHeader (b0 : UInt8) (masked long : Bool) (len : ℕ) :
    (anyHeader b0 masked long len).length = if long then 4 else 2 := by
  unfold anyHeader
  cases long <;> rfl

theorem AnyFrame.length_bytes_le (f : AnyFrame) : f.bytes.length ≤ 65543 := by
  have hlen := f.len_lt
  have hbody := f.length_body
  rw [AnyFrame.bytes, List.length_append, length_anyHeader, hbody]
  split_ifs at hlen ⊢ <;> omega

/-- Not yet a whole frame. -/
def Partial (rx : List UInt8) : Prop := ∃ f : AnyFrame, rx <+: f.bytes ∧ rx ≠ f.bytes

theorem Partial.length_le {rx : List UInt8} (h : Partial rx) : rx.length ≤ 65542 := by
  obtain ⟨f, hpre, hne⟩ := h
  have hlt : rx.length < f.bytes.length := by
    apply Nat.lt_of_le_of_ne hpre.length_le
    exact fun hlen => hne (hpre.eq_of_length hlen)
  have hle := f.length_bytes_le
  omega

/-- A header without all of its body. -/
theorem partial_header (b0 : UInt8) (masked long : Bool) (len : ℕ)
    (hlen : len < if long then 65536 else 126) {tail : List UInt8}
    (h : tail.length < (if masked then 4 else 0) + len) :
    Partial (anyHeader b0 masked long len ++ tail) := by
  generalize hneed : (if masked then 4 else 0) + len = need at h
  have hbody : (tail ++ List.replicate (need - tail.length) 0).length = need := by
    rw [List.length_append, List.length_replicate]
    omega
  refine ⟨⟨b0, masked, long, len, hlen, _, hbody.trans hneed.symm⟩, ?_, ?_⟩
  · rw [AnyFrame.bytes, ← List.append_assoc]
    exact List.prefix_append _ _
  · intro heq
    have hsame : tail.length = (tail ++ List.replicate (need - tail.length) 0).length :=
      congrArg List.length (List.append_cancel_left heq)
    omega

/-- A header that is not all there. -/
theorem partial_of_header (b0 : UInt8) (masked long : Bool) (len : ℕ)
    (hlen : len < if long then 65536 else 126) {rx : List UInt8}
    (hpre : rx <+: anyHeader b0 masked long len) (hne : rx ≠ anyHeader b0 masked long len) :
    Partial rx := by
  have hlt : rx.length < (anyHeader b0 masked long len).length := by
    apply Nat.lt_of_le_of_ne hpre.length_le
    exact fun hsame => hne (hpre.eq_of_length hsame)
  refine ⟨⟨b0, masked, long, len, hlen, List.replicate ((if masked then 4 else 0) + len) 0,
    List.length_replicate⟩, hpre.trans (List.prefix_append _ _), ?_⟩
  intro heq
  have hle : (anyHeader b0 masked long len).length ≤ rx.length := by
    rw [heq, AnyFrame.bytes, List.length_append]
    exact Nat.le_add_right _ _
  omega

theorem scanMask_incomplete {opcode : UInt8} {masked : Bool} {hdr plen : ℕ} {rx : List UInt8}
    (h : scanMask opcode masked hdr plen rx = .incomplete) :
    rx.length < hdr + ((if masked then 4 else 0) + plen) := by
  unfold scanMask scanPayload at h
  cases masked with
  | false =>
    simp only [Bool.false_eq_true, if_false] at h ⊢
    split_ifs at h
    omega
  | true =>
    simp only [if_true] at h ⊢
    split_ifs at h
    · omega
    · omega

/-- A byte as its highest bit and the others. -/
theorem secondByte_split (b1 : UInt8) : ∃ masked : Bool, ∃ n < 128,
    b1 = (if masked then 0x80 else 0) ||| UInt8.ofNat n := by
  have hlt : b1.toNat < 256 := UInt8.toNat_lt b1
  by_cases h : b1.toNat < 128
  · exact ⟨false, b1.toNat, h, by simp⟩
  · refine ⟨true, b1.toNat - 128, by omega, ?_⟩
    have hsmall : b1.toNat - 128 < 2 ^ 7 := by omega
    have hsum := Nat.two_pow_add_eq_or_of_lt hsmall 1
    have hbit : (0x80 : UInt8).toNat = 2 ^ 7 * 1 := rfl
    apply UInt8.toNat_inj.mp
    rw [if_pos rfl, UInt8.toNat_or, UInt8.toNat_ofNat', Nat.mod_eq_of_lt (by omega), hbit, ← hsum]
    omega

/-- Two length bytes are the extended length of some header. -/
theorem anyHeader_long (b0 : UInt8) (masked : Bool) (l0 l1 : UInt8) :
    (l0.toNat <<< 8) ||| l1.toNat < 65536 ∧
      anyHeader b0 masked true ((l0.toNat <<< 8) ||| l1.toNat) =
        [b0, (if masked then 0x80 else 0) ||| UInt8.ofNat 126, l0, l1] := by
  have hlo : l0.toNat < 2 ^ 8 := UInt8.toNat_lt l0
  have hhi : l1.toNat < 2 ^ 8 := UInt8.toNat_lt l1
  rw [← Nat.shiftLeft_add_eq_or_of_lt hhi, Nat.shiftLeft_eq]
  have hdiv : (l0.toNat * 2 ^ 8 + l1.toNat) / 256 = l0.toNat := by omega
  have hmod : UInt8.ofNat (l0.toNat * 2 ^ 8 + l1.toNat) = l1 := by
    apply UInt8.toNat_inj.mp
    rw [UInt8.toNat_ofNat']
    omega
  constructor
  · omega
  · simp only [anyHeader, if_true, hdiv, hmod, UInt8.ofNat_toNat]
    rfl

/-- What the loop waits on is not yet a whole frame. -/
theorem partial_of_incomplete {rx : List UInt8} (h : scanFrame rx = .incomplete) :
    Partial rx := by
  rcases rx with _ | ⟨b0, _ | ⟨b1, body⟩⟩
  · exact partial_of_header 0 false false 0 (by decide)
      List.nil_prefix (by decide)
  · refine partial_of_header b0 false false 0 (by decide)
      (by simp [anyHeader]) (by simp [anyHeader])
  · obtain ⟨masked, n, hn, rfl⟩ := secondByte_split b1
    obtain ⟨hmask, hlen⟩ := length_bits masked n hn
    unfold scanFrame at h
    simp only [hmask, hlen] at h
    by_cases h126 : n = 126
    · subst h126
      rw [if_pos rfl] at h
      rcases body with _ | ⟨l0, _ | ⟨l1, body⟩⟩
      · obtain ⟨hlt, hheader⟩ := anyHeader_long b0 masked 0 0
        apply partial_of_header b0 masked true _ hlt
        · rw [hheader]
          exact ⟨[0, 0], rfl⟩
        · rw [hheader]
          simp
      · obtain ⟨hlt, hheader⟩ := anyHeader_long b0 masked l0 0
        apply partial_of_header b0 masked true _ hlt
        · rw [hheader]
          exact ⟨[0], rfl⟩
        · rw [hheader]
          simp
      · obtain ⟨hlt, hheader⟩ := anyHeader_long b0 masked l0 l1
        have hshort := scanMask_incomplete h
        simp only [List.length_cons] at hshort
        have hincomplete := partial_header b0 masked true _ hlt (show body.length < _ by omega)
        rw [hheader] at hincomplete
        exact hincomplete
    · rw [if_neg h126] at h
      by_cases h127 : n = 127
      · rw [if_pos h127] at h
        cases h
      · rw [if_neg h127] at h
        have hshort := scanMask_incomplete h
        simp only [List.length_cons] at hshort
        have hheader := partial_header b0 masked false n (by simp; omega)
          (show body.length < _ by omega)
        exact hheader

/-- The loop fails, or it is left with a part of one frame. -/
theorem framesLoop_partial (onText onClose : Bool) (mallocOk : ℕ → Bool) {fuel i : ℕ}
    {rx : List UInt8} (hfuel : rx.length < fuel) :
    (framesLoop onText onClose mallocOk fuel i rx).rc = -1 ∨
      ((framesLoop onText onClose mallocOk fuel i rx).rc = 0 ∧
        Partial (framesLoop onText onClose mallocOk fuel i rx).rx) := by
  induction fuel generalizing i rx with
  | zero => exact absurd hfuel (Nat.not_lt_zero _)
  | succ fuel ih =>
    rw [framesLoop]
    cases hscan : scanFrame rx with
    | incomplete => exact Or.inr ⟨rfl, partial_of_incomplete hscan⟩
    | unsupported => exact Or.inl rfl
    | frame opcode hdr key raw =>
      obtain ⟨hhdr, hle⟩ := scanFrame_frame hscan
      have hrest : (rx.drop (hdr + raw.length)).length < fuel := by
        rw [List.length_drop]
        omega
      by_cases htext : opcode = 0x1
      · simp only [if_pos htext]
        exact ih hrest
      · by_cases hclose : opcode = 0x8
        · simp only [if_neg htext, if_pos hclose]
          exact Or.inl trivial
        · simp only [if_neg htext, if_neg hclose]
          exact ih hrest

/-! ### The buffer over whole connections -/

/-- `process_frames` by its accesses. -/
def processRounds (mallocOk : ℕ → Bool) (c : WsClient) : Option FrameRun :=
  roundsLoop c.onText c.onClose mallocOk (c.rx.length + 1) 0 c.rx

/-- What bounds the buffer between two polls. -/
structure Bounded (c : WsClient) : Prop where
  rx_le : c.rx.length ≤ 65542
  rxCap_le : c.rxCap ≤ 73734

theorem ensureRxCap_le {c : WsClient} (h : Bounded c) (reallocOk : Bool) :
    (ensureRxCap reallocOk c (c.rx.length + 8192)).2.rxCap ≤ 73734 := by
  have hrx := h.rx_le
  have hcap := h.rxCap_le
  unfold ensureRxCap
  split_ifs
  · exact hcap
  · change c.rx.length + 8192 ≤ 73734
    omega
  · exact hcap

theorem processFrames_incomplete (mallocOk : ℕ → Bool) (c : WsClient) :
    (processFrames mallocOk c).1.1 = -1 ∨
      ((processFrames mallocOk c).1.1 = 0 ∧ Partial (processFrames mallocOk c).2.rx) :=
  framesLoop_partial _ _ _ (Nat.lt_succ_self _)

theorem rtwWsPoll_bounded {c : WsClient} (h : Bounded c) (io : PollIo) :
    (rtwWsPoll io c).2.rxCap ≤ 73734 ∧
      ((rtwWsPoll io c).1.1 ≠ -1 → Bounded (rtwWsPoll io c).2) := by
  have hcap := ensureRxCap_le h io.reallocOk
  unfold rtwWsPoll
  by_cases hend : c.fd < 0 ∨ c.closed
  · rw [if_pos hend]
    exact ⟨h.rxCap_le, fun hrc => absurd rfl hrc⟩
  rw [if_neg hend]
  by_cases herr : io.ready < 0
  · rw [if_pos herr]
    exact ⟨h.rxCap_le, fun hrc => absurd rfl hrc⟩
  rw [if_neg herr]
  by_cases hidle : io.ready = 0
  · rw [if_pos hidle]
    exact ⟨h.rxCap_le, fun _ => h⟩
  rw [if_neg hidle]
  simp only
  by_cases hfull : (ensureRxCap io.reallocOk c (c.rx.length + 8192)).1 = false
  · rw [if_pos hfull]
    exact ⟨hcap, fun hrc => absurd rfl hrc⟩
  rw [if_neg hfull]
  by_cases hlost : io.read = []
  · rw [if_pos hlost]
    exact ⟨hcap, fun hrc => absurd rfl hrc⟩
  rw [if_neg hlost]
  generalize hc : (ensureRxCap io.reallocOk c (c.rx.length + 8192)).2.receive io.read = c'
  have hsame : c'.rxCap ≤ 73734 := by
    rw [← hc]
    exact hcap
  have hkeep : (processFrames io.mallocOk c').2.rxCap ≤ 73734 := hsame
  refine ⟨hkeep, ?_⟩
  intro hrc
  obtain ⟨-, hincomplete⟩ := (processFrames_incomplete io.mallocOk c').resolve_left hrc
  exact ⟨hincomplete.length_le, hkeep⟩

/-- A run of polls up to the first that fails. -/
theorem pollRun_bounded {c : WsClient} (h : Bounded c) (ios : List PollIo) :
    (pollRun ios c).2.rxCap ≤ 73734 ∧ ((pollRun ios c).1.1 ≠ -1 → Bounded (pollRun ios c).2) := by
  induction ios generalizing c with
  | nil => exact ⟨h.rxCap_le, fun _ => h⟩
  | cons io ios ih =>
    obtain ⟨hcap, hnext⟩ := rtwWsPoll_bounded h io
    rw [pollRun]
    by_cases hrc : (rtwWsPoll io c).1.1 = -1
    · rw [if_pos hrc]
      exact ⟨hcap, fun hok => absurd hrc hok⟩
    · rw [if_neg hrc]
      exact ih (hnext hrc)

/-- The receive buffer under every peer: no access of the loop fails, a round that goes on takes
two bytes, what a successful call leaves is not yet a whole frame, and over every run of polls
on a connection, up to the first that fails, the buffer keeps its bounds. Polls behind a failed
one are outside the runs: a frame refused for its length 127 stays in the buffer, and further
polls would read behind it and make `rx` grow beyond 73734. -/
theorem receive_buffer_safe :
    (∀ mallocOk c, ∃ r, processRounds mallocOk c = some r ∧
      (processFrames mallocOk c).1 = (r.rc, r.events) ∧ (processFrames mallocOk c).2.rx = r.rx) ∧
    (∀ cb rx events rest, frameRound cb rx = some (.goesOn events rest) →
      rest.length + 2 ≤ rx.length) ∧
    (∀ mallocOk c, (processFrames mallocOk c).1.1 = 0 →
      Partial (processFrames mallocOk c).2.rx) ∧
    ∀ fd onText onClose ios,
      let r := pollRun ios (connectedClient fd onText onClose)
      (r.1.1 ≠ -1 → r.2.rx.length ≤ 65542) ∧ r.2.rx.length ≤ r.2.rxCap ∧ r.2.rxCap ≤ 73734 := by
  refine ⟨?_, ?_, ?_, ?_⟩
  · intro mallocOk c
    exact ⟨_, roundsLoop_eq _ _ _ (Nat.lt_succ_self _), rfl, rfl⟩
  · intro cb rx events rest
    exact frameRound_progress
  · intro mallocOk c hrc
    rcases processFrames_incomplete mallocOk c with hneg | ⟨-, hincomplete⟩
    · rw [hrc] at hneg
      cases hneg
    · exact hincomplete
  · intro fd onText onClose ios
    have hstart : Bounded (connectedClient fd onText onClose) :=
      ⟨Nat.zero_le _, show 65536 ≤ 73734 by decide⟩
    obtain ⟨hcap, hnext⟩ := pollRun_bounded hstart ios
    exact ⟨fun hrc => (hnext hrc).rx_le, (pollRun ios _).2.rx_le, hcap⟩

end RealtimeWs.Core
