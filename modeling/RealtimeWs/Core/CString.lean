import Mathlib.Data.List.TakeWhile
import Mathlib.Logic.Basic

/-! C strings and fixed `char` arrays. The terminating NUL is left out of the
bytes, and no other byte is NUL. -/
namespace RealtimeWs.Core

/-- The bytes of an ASCII literal. -/
def ascii (s : String) : List UInt8 := s.toList.map fun c => UInt8.ofNat c.toNat

structure CStr where
  bytes : List UInt8
  noNul : 0 ∉ bytes
  deriving DecidableEq

/-- A C string read from memory ends at the first NUL. -/
def CStr.ofBytes (b : List UInt8) : CStr :=
  ⟨b.takeWhile (· ≠ 0), fun h => by simpa using List.mem_takeWhile_imp h⟩

def CStr.lit (s : String) : CStr := CStr.ofBytes (ascii s)

/-- A string held in `char buf[cap]`. -/
structure CBuf (cap : ℕ) extends CStr where
  fits : bytes.length < cap
  deriving DecidableEq

instance factSuccPos (n : ℕ) : Fact (0 < n + 1) := ⟨Nat.succ_pos n⟩

/-- `snprintf(dst, cap, "%s", src)`. -/
def CBuf.copy (cap : ℕ) [Fact (0 < cap)] (src : CStr) : CBuf cap where
  bytes := src.bytes.take (cap - 1)
  noNul h := src.noNul (List.mem_of_mem_take h)
  fits := by
    have := Fact.out (p := 0 < cap)
    rw [List.length_take]
    omega

/-- A zeroed array. -/
def CBuf.empty (cap : ℕ) [Fact (0 < cap)] : CBuf cap := ⟨⟨[], by simp⟩, Fact.out⟩

@[ext] theorem CStr.ext {a b : CStr} (h : a.bytes = b.bytes) : a = b := by
  cases a; cases b; cases h; rfl

theorem CBuf.ext {cap : ℕ} {a b : CBuf cap} (h : a.bytes = b.bytes) : a = b := by
  obtain ⟨⟨ab, an⟩, af⟩ := a
  obtain ⟨⟨bb, bn⟩, bf⟩ := b
  cases h
  rfl

theorem CStr.ofBytes_of_noNul {b : List UInt8} (h : 0 ∉ b) : (CStr.ofBytes b).bytes = b := by
  rw [CStr.ofBytes, List.takeWhile_eq_self_iff]
  intro x hx
  have : x ≠ 0 := fun h0 => h (h0 ▸ hx)
  simpa using this

@[simp] theorem CStr.ofBytes_bytes (s : CStr) : CStr.ofBytes s.bytes = s :=
  CStr.ext (CStr.ofBytes_of_noNul s.noNul)

/-- A string that fits is copied whole. -/
theorem CBuf.copy_bytes {cap : ℕ} [Fact (0 < cap)] {s : CStr} (h : s.bytes.length < cap) :
    (CBuf.copy cap s).bytes = s.bytes := by
  have := Fact.out (p := 0 < cap)
  exact List.take_of_length_le (by omega)

@[simp] theorem CBuf.copy_toCStr {cap : ℕ} [Fact (0 < cap)] (b : CBuf cap) :
    CBuf.copy cap b.toCStr = b := CBuf.ext (CBuf.copy_bytes b.fits)

end RealtimeWs.Core
