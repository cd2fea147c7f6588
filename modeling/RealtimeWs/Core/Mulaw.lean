import Mathlib.Data.Int.Bitwise

/-! G.711 µ-law encoding and decoding. A C `int` intermediate is an integer;
only the assignments to `int16_t` and `uint8_t` wrap. -/
namespace RealtimeWs.Core

def BIAS : ℤ := 0x84
def CLIP : ℤ := 32635

/-- The 256-entry table of the encoder, run by run. -/
def expLut : List ℕ :=
  .replicate 2 0 ++ .replicate 2 1 ++ .replicate 4 2 ++ .replicate 8 3 ++ .replicate 16 4 ++
    .replicate 32 5 ++ .replicate 64 6 ++ .replicate 128 7

def rtwLinearToMulaw (sample : Int16) : UInt8 :=
  let sign := Int.land (sample.toInt >>> 8) 0x80
  let sample := if sign ≠ 0 then Int16.ofInt (-sample.toInt) else sample
  let sample := if sample.toInt > CLIP then Int16.ofInt CLIP else sample
  let sample := Int16.ofInt (sample.toInt + BIAS)
  let exponent := expLut.getD (Int.land (sample.toInt >>> 7) 0xFF).toNat 0
  let mantissa := Int.land (sample.toInt >>> (exponent + 3)) 0x0F
  UInt8.ofInt (Int.lnot (Int.lor (Int.lor sign ((exponent : ℤ) <<< 4)) mantissa))

def rtwMulawToLinear (mulaw : UInt8) : Int16 :=
  let mulaw := UInt8.ofInt (Int.lnot mulaw.toNat)
  let sign := Int.land mulaw.toNat 0x80
  let exponent := Int.land ((mulaw.toNat : ℤ) >>> 4) 0x07
  let mantissa := Int.land mulaw.toNat 0x0F
  let sample := ((mantissa <<< 3) + BIAS) <<< exponent.toNat
  let sample := sample - BIAS
  Int16.ofInt (if sign ≠ 0 then -sample else sample)

def rtwPcm16ToMulaw (pcm : List Int16) : List UInt8 := pcm.map rtwLinearToMulaw

def rtwMulawToPcm16 (mulaw : List UInt8) : List Int16 := mulaw.map rtwMulawToLinear

@[simp] theorem length_rtwPcm16ToMulaw (pcm : List Int16) :
    (rtwPcm16ToMulaw pcm).length = pcm.length := List.length_map _

@[simp] theorem length_rtwMulawToPcm16 (mulaw : List UInt8) :
    (rtwMulawToPcm16 mulaw).length = mulaw.length := List.length_map _

@[simp] theorem rtwMulawToPcm16_append (a b : List UInt8) :
    rtwMulawToPcm16 (a ++ b) = rtwMulawToPcm16 a ++ rtwMulawToPcm16 b := List.map_append

-- silence encodes to 0xFF
example : rtwLinearToMulaw 0 = 0xFF := by decide
-- the magnitude of INT16_MIN does not fit in int16_t
example : rtwMulawToLinear (rtwLinearToMulaw (-32768)) = 0 := by decide +kernel

end RealtimeWs.Core
