import Mathlib.Algebra.Ring.Int.Defs
import Mathlib.Algebra.Ring.Nat
import RealtimeWs.Core.CString

/-! Base64 encoder and decoder. Lengths are `size_t`; only the decoder's
capacity test can wrap, so only it is reduced modulo 2^64. -/
namespace RealtimeWs.Core

def kEnc : List UInt8 :=
  ascii "ABCDEFGHIJKLMNOPQRSTUVWXYZabcdefghijklmnopqrstuvwxyz0123456789+/"

def decVal (c : UInt8) : Option ℕ :=
  if 65 ≤ c.toNat ∧ c.toNat ≤ 90 then some (c.toNat - 65)
  else if 97 ≤ c.toNat ∧ c.toNat ≤ 122 then some (c.toNat - 97 + 26)
  else if 48 ≤ c.toNat ∧ c.toNat ≤ 57 then some (c.toNat - 48 + 52)
  else if c = 43 then some 62
  else if c = 47 then some 63
  else none

def rtwBase64EncodedLen (inLen : ℕ) : ℕ := 4 * ((inLen + 2) / 3) + 1

/-- `kEnc[n & 63]`. -/
def encChar (n : ℕ) : UInt8 := kEnc.getD (n &&& 63) 0

def encodeLoop : List UInt8 → List UInt8
  | a :: b :: c :: rest =>
    let n := (a.toNat <<< 16) ||| (b.toNat <<< 8) ||| c.toNat
    encChar (n >>> 18) :: encChar (n >>> 12) :: encChar (n >>> 6) :: encChar n :: encodeLoop rest
  | [a, b] =>
    let n := (a.toNat <<< 16) ||| (b.toNat <<< 8)
    [encChar (n >>> 18), encChar (n >>> 12), encChar (n >>> 6), 61]
  | [a] =>
    let n := a.toNat <<< 16
    [encChar (n >>> 18), encChar (n >>> 12), 61, 61]
  | [] => []

/-- The characters written before the NUL; their number is the return value. -/
def rtwBase64Encode (inp : List UInt8) (outCap : ℕ) : List UInt8 :=
  if outCap < rtwBase64EncodedLen inp.length then [] else encodeLoop inp

/-- Inner loop of the decoder: values and padding of one quad, and the rest of the input. -/
def readQuad : List UInt8 → List ℕ → ℕ → Option (List ℕ × ℕ × List UInt8)
  | [], val, pad => some (val, pad, [])
  | c :: rest, val, pad =>
    if val.length = 4 then some (val, pad, c :: rest)
    else if c = 32 ∨ c = 10 ∨ c = 13 ∨ c = 9 then readQuad rest val pad
    else if c = 61 then readQuad rest (val ++ [0]) (pad + 1)
    else match decVal c with
      | none => none
      | some d => readQuad rest (val ++ [d]) pad

/-- The bytes one quad stores. -/
def quadBytes (val : List ℕ) (pad : ℕ) : List UInt8 :=
  let n := (val.getD 0 0 <<< 18) ||| (val.getD 1 0 <<< 12) ||| (val.getD 2 0 <<< 6) ||| val.getD 3 0
  [UInt8.ofNat (n >>> 16)] ++ (if pad < 2 then [UInt8.ofNat (n >>> 8)] else []) ++
    (if pad < 1 then [UInt8.ofNat n] else [])

/-- Outer loop of the decoder. Every round consumes a character, so the input
length is fuel enough. -/
def decodeLoop (outCap : ℕ) : ℕ → List UInt8 → List UInt8 → Option (List UInt8)
  | 0, _, out => some out
  | _ + 1, [], out => some out
  | fuel + 1, c :: rest, out =>
    match readQuad (c :: rest) [] 0 with
    | none => none
    | some (val, pad, inp) =>
      if val.length = 0 then some out
      else if val.length ≠ 4 then none
      -- `o + (size_t)(3 - pad)` in `size_t` arithmetic
      else if (out.length + ((3 - (pad : ℤ)) % 2 ^ 64).toNat) % 2 ^ 64 > outCap then none
      else decodeLoop outCap fuel inp (out ++ quadBytes val pad)

/-- `none` is `(size_t)-1`; otherwise the bytes written, whose number is the return value. -/
def rtwBase64Decode (inp : List UInt8) (outCap : ℕ) : Option (List UInt8) :=
  decodeLoop outCap inp.length inp []

/-! ### Decoding what was encoded -/

/-- Every character of the alphabet stands for its index and is no white space. -/
private theorem kEnc_table : ∀ d < 64, decVal (kEnc.getD d 0) = some d ∧
    kEnc.getD d 0 ∉ [32, 10, 13, 9, 61, 0] := by
  decide +kernel

theorem encChar_spec (n : ℕ) : decVal (encChar n) = some (n % 64) ∧
    encChar n ∉ [32, 10, 13, 9, 61, 0] := by
  have hmod : n &&& 63 = n % 64 := Nat.and_two_pow_sub_one_eq_mod n 6
  rw [encChar, hmod]
  exact kEnc_table (n % 64) (Nat.mod_lt n (by decide))

theorem readQuad_encChar (n : ℕ) (rest : List UInt8) {val : List ℕ} (hval : val.length ≠ 4)
    (pad : ℕ) : readQuad (encChar n :: rest) val pad = readQuad rest (val ++ [n % 64]) pad := by
  obtain ⟨hdec, hmem⟩ := encChar_spec n
  simp only [List.mem_cons, not_or] at hmem
  rw [readQuad, if_neg hval, if_neg (by simp [hmem]), if_neg hmem.2.2.2.2.1, hdec]

theorem readQuad_pad (rest : List UInt8) {val : List ℕ} (hval : val.length ≠ 4) (pad : ℕ) :
    readQuad (61 :: rest) val pad = readQuad rest (val ++ [0]) (pad + 1) := by
  rw [readQuad, if_neg hval, if_neg (by decide), if_pos rfl]

theorem readQuad_full (rest : List UInt8) {val : List ℕ} (hval : val.length = 4) (pad : ℕ) :
    readQuad rest val pad = some (val, pad, rest) := by
  cases rest with
  | nil => rfl
  | cons c rest => rw [readQuad, if_pos hval]

/-- Disjoint groups of bits are added. -/
private theorem shift_or (a : ℕ) {b i : ℕ} (h : b < 2 ^ i) : a <<< i ||| b = a * 2 ^ i + b := by
  rw [← Nat.shiftLeft_add_eq_or_of_lt h, Nat.shiftLeft_eq]

private theorem word_eq (a b c : UInt8) :
    (a.toNat <<< 16) ||| (b.toNat <<< 8) ||| c.toNat =
      a.toNat * 65536 + b.toNat * 256 + c.toNat := by
  have hb := b.toNat_lt
  have hc := c.toNat_lt
  rw [Nat.or_assoc, shift_or b.toNat (by omega), shift_or a.toNat (by omega)]
  omega

/-- The four sextets of a 24-bit word. -/
private theorem quad_eq {n : ℕ} (h : n < 2 ^ 24) :
    ((n >>> 18 % 64) <<< 18) ||| ((n >>> 12 % 64) <<< 12) ||| ((n >>> 6 % 64) <<< 6) |||
      n % 64 = n := by
  simp only [Nat.shiftRight_eq_div_pow]
  rw [Nat.or_assoc, Nat.or_assoc, shift_or (n / 2 ^ 6 % 64) (by omega),
    shift_or (n / 2 ^ 12 % 64) (by omega), shift_or (n / 2 ^ 18 % 64) (by omega)]
  omega

private theorem byte_of {n : ℕ} {a : UInt8} (h : n % 256 = a.toNat) : UInt8.ofNat n = a := by
  apply UInt8.toNat.inj
  rw [UInt8.toNat_ofNat']
  exact h

/-- The values of the four characters that stand for a 24-bit word. -/
def sextets (n : ℕ) : List ℕ := [n >>> 18 % 64, n >>> 12 % 64, n >>> 6 % 64, n % 64]

theorem quadBytes_sextets {n : ℕ} (pad : ℕ) {a b c : UInt8}
    (hn : n = a.toNat * 65536 + b.toNat * 256 + c.toNat) :
    quadBytes (sextets n) pad =
      [a] ++ (if pad < 2 then [b] else []) ++ (if pad < 1 then [c] else []) := by
  have ha := a.toNat_lt
  have hb := b.toNat_lt
  have hc := c.toNat_lt
  have hquad := quad_eq (n := n) (by omega)
  simp only [quadBytes, sextets, List.getD_cons_zero, List.getD_cons_succ, hquad]
  simp only [Nat.shiftRight_eq_div_pow]
  rw [byte_of (a := a) (by omega), byte_of (a := b) (by omega), byte_of (a := c) (by omega)]

/-- A quad without padding. -/
theorem readQuad_four (n : ℕ) (rest : List UInt8) :
    readQuad (encChar (n >>> 18) :: encChar (n >>> 12) :: encChar (n >>> 6) :: encChar n :: rest)
      [] 0 = some (sextets n, 0, rest) := by
  rw [readQuad_encChar _ _ (by simp), readQuad_encChar _ _ (by simp),
    readQuad_encChar _ _ (by simp), readQuad_encChar _ _ (by simp), readQuad_full _ (by simp)]
  rfl

/-- A quad whose last value is padding, which reads as zero. -/
theorem readQuad_three {n : ℕ} (hn : n % 64 = 0) (rest : List UInt8) :
    readQuad (encChar (n >>> 18) :: encChar (n >>> 12) :: encChar (n >>> 6) :: 61 :: rest)
      [] 0 = some (sextets n, 1, rest) := by
  rw [readQuad_encChar _ _ (by simp), readQuad_encChar _ _ (by simp),
    readQuad_encChar _ _ (by simp), readQuad_pad _ (by simp), readQuad_full _ (by simp), sextets, hn]
  rfl

theorem readQuad_two {n : ℕ} (hn : n % 64 = 0) (hn' : n >>> 6 % 64 = 0) (rest : List UInt8) :
    readQuad (encChar (n >>> 18) :: encChar (n >>> 12) :: 61 :: 61 :: rest)
      [] 0 = some (sextets n, 2, rest) := by
  rw [readQuad_encChar _ _ (by simp), readQuad_encChar _ _ (by simp), readQuad_pad _ (by simp),
    readQuad_pad _ (by simp), readQuad_full _ (by simp), sextets, hn, hn']
  rfl

theorem length_encodeLoop (inp : List UInt8) :
    (encodeLoop inp).length = 4 * ((inp.length + 2) / 3) := by
  induction inp using encodeLoop.induct with
  | case1 a b c rest ih =>
    rw [encodeLoop]
    simp only [List.length_cons, ih]
    omega
  | case2 a b => simp [encodeLoop]
  | case3 a => simp [encodeLoop]
  | case4 => simp [encodeLoop]

/-- One quad of the decoder, when it fits. -/
theorem decodeLoop_quad {cap fuel pad : ℕ} {inp rest out : List UInt8} {val : List ℕ}
    (hne : inp ≠ []) (hread : readQuad inp [] 0 = some (val, pad, rest)) (hval : val.length = 4)
    (hpad : pad ≤ 2) (hcap : out.length + (3 - pad) ≤ cap) :
    decodeLoop cap (fuel + 1) inp out = decodeLoop cap fuel rest (out ++ quadBytes val pad) := by
  obtain ⟨c, inp, rfl⟩ := List.exists_cons_of_ne_nil hne
  have hlen : ((3 - (pad : ℤ)) % 2 ^ 64).toNat = 3 - pad := by omega
  have hfit : ¬(out.length + ((3 - (pad : ℤ)) % 2 ^ 64).toNat) % 2 ^ 64 > cap := by
    rw [hlen]
    have hle := Nat.mod_le (out.length + (3 - pad)) (2 ^ 64)
    omega
  rw [decodeLoop, hread]
  simp only [hval]
  rw [if_neg (by decide), if_neg (by decide), if_neg hfit]

theorem decodeLoop_nil (cap fuel : ℕ) (out : List UInt8) :
    decodeLoop cap fuel [] out = some out := by
  cases fuel <;> rfl

theorem decodeLoop_encodeLoop {cap : ℕ} (inp : List UInt8) (out : List UInt8) (fuel : ℕ)
    (hfuel : inp.length ≤ fuel) (hcap : out.length + inp.length ≤ cap) :
    decodeLoop cap fuel (encodeLoop inp) out = some (out ++ inp) := by
  induction inp using encodeLoop.induct generalizing out fuel with
  | case1 a b c rest ih =>
    simp only [List.length_cons] at hfuel hcap
    obtain ⟨fuel, rfl⟩ : ∃ n, fuel = n + 1 := ⟨fuel - 1, by omega⟩
    rw [encodeLoop, decodeLoop_quad (by simp) (readQuad_four _ _) rfl (by omega) (by omega),
      quadBytes_sextets 0 (word_eq a b c), ih _ _ (by omega) (by simp; omega)]
    simp
  | case2 a b =>
    simp only [List.length_cons, List.length_nil] at hfuel hcap
    obtain ⟨fuel, rfl⟩ : ∃ n, fuel = n + 1 := ⟨fuel - 1, by omega⟩
    have hword : (a.toNat <<< 16) ||| (b.toNat <<< 8) =
        a.toNat * 65536 + b.toNat * 256 + (0 : UInt8).toNat := by
      simpa using word_eq a b 0
    have hpad : ((a.toNat <<< 16) ||| (b.toNat <<< 8)) % 64 = 0 := by
      rw [hword, UInt8.toNat_zero]
      omega
    rw [encodeLoop, decodeLoop_quad (by simp) (readQuad_three hpad []) rfl (by omega) (by omega),
      quadBytes_sextets 1 hword, decodeLoop_nil]
    rfl
  | case3 a =>
    simp only [List.length_cons, List.length_nil] at hfuel hcap
    obtain ⟨fuel, rfl⟩ : ∃ n, fuel = n + 1 := ⟨fuel - 1, by omega⟩
    have hword : a.toNat <<< 16 =
        a.toNat * 65536 + (0 : UInt8).toNat * 256 + (0 : UInt8).toNat := by
      simpa using word_eq a 0 0
    have hpad : (a.toNat <<< 16) % 64 = 0 := by
      rw [hword, UInt8.toNat_zero]
      omega
    have hpad' : (a.toNat <<< 16) >>> 6 % 64 = 0 := by
      rw [hword, UInt8.toNat_zero, Nat.shiftRight_eq_div_pow]
      omega
    rw [encodeLoop, decodeLoop_quad (by simp) (readQuad_two hpad hpad' []) rfl (by omega) (by omega),
      quadBytes_sextets 2 hword, decodeLoop_nil]
    rfl
  | case4 =>
    rw [encodeLoop, decodeLoop_nil, List.append_nil]

/-- A buffer encoded with the length the encoder asks for decodes to itself. -/
theorem rtwBase64Decode_encode {inp : List UInt8} {cap : ℕ} (h : inp.length ≤ cap) :
    rtwBase64Decode (rtwBase64Encode inp (rtwBase64EncodedLen inp.length)) cap = some inp := by
  rw [rtwBase64Encode, if_neg (lt_irrefl _), rtwBase64Decode, length_encodeLoop]
  exact decodeLoop_encodeLoop inp [] _ (by omega) (by simpa using h)

/-- No character of an encoding is NUL. -/
theorem zero_notMem_encodeLoop (inp : List UInt8) : 0 ∉ encodeLoop inp := by
  have hchar : ∀ n, (0 : UInt8) ≠ encChar n := by
    intro n h0
    have hmem := (encChar_spec n).2
    rw [← h0] at hmem
    exact hmem (by decide)
  induction inp using encodeLoop.induct with
  | case1 a b c rest ih => simp [encodeLoop, hchar, ih]
  | case2 a b => simp [encodeLoop, hchar]
  | case3 a => simp [encodeLoop, hchar]
  | case4 => simp [encodeLoop]

example : rtwBase64Encode [0x00, 0x01, 0xff, 0x7e, 0x20] 64 = ascii "AAH/fiA=" := by decide
example : rtwBase64Decode (ascii "AAH/\nfi A=") 64 = some [0x00, 0x01, 0xff, 0x7e, 0x20] := by decide

end RealtimeWs.Core
