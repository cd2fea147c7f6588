import RealtimeWs.Core.CJson
import RealtimeWs.Core.Upgrade

/-! When the handshake accepts: a response whose status code really is 101. -/
namespace RealtimeWs.Core

variable {segs : List (List UInt8)} {head text : List UInt8}

/-- A status line with the code 101. -/
def Status101 (head : List UInt8) : Prop :=
  ∃ major minor behind, isDigit major = true ∧ isDigit minor = true ∧
    (behind = 32 ∨ behind = 13) ∧
    ascii "HTTP/" ++ [major, 46, minor] ++ ascii " 101" ++ [behind] <+: head

/-- The bytes of the peer begin with a whole head whose status code is 101. -/
def RealUpgrade (stream head : List UInt8) : Prop :=
  head <+: stream ∧ ResponseHead head ∧ Status101 head

theorem Status101.code (h : Status101 head) (hpre : head <+: text) :
    strstr text (ascii "101") = true := by
  obtain ⟨major, minor, behind, hmajor, hminor, hbehind, hline⟩ := h
  have hdigit : ∀ c : UInt8, isDigit c = true → 0 ≠ c := by
    rintro c hc rfl
    revert hc
    decide
  have hnul : 0 ∉ ascii "HTTP/" ++ [major, 46, minor] ++ ascii " 101" ++ [behind] := by
    have hlit : 0 ∉ ascii "HTTP/" ∧ 0 ∉ ascii " 101" := by decide
    have hend : 0 ≠ behind := by
      rcases hbehind with rfl | rfl <;> decide
    simp [hlit.1, hlit.2, hdigit major hmajor, hdigit minor hminor, hend]
  apply strstr_of_starts (hline.trans hpre) hnul
  have hcode : ascii " 101" = [32] ++ ascii "101" := by decide
  refine ⟨ascii "HTTP/" ++ [major, 46, minor] ++ [32], [behind], ?_⟩
  rw [hcode]
  simp only [List.append_assoc]

/-- A real 101 is accepted unless a NUL hides its end from the loop. -/
theorem accepted_iff_of_real (hsegs : ∀ seg ∈ segs, seg ≠ [])
    (hreal : RealUpgrade segs.flatten head) : (httpHandshake true segs).isSome = true ↔
      0 ∉ head ∨ RESPONSE_MAX - 1 ≤ segs.flatten.length := by
  obtain ⟨hpre, hhead, hstatus⟩ := hreal
  rw [httpHandshake_isSome_iff hsegs]
  constructor
  · rintro ⟨text, htext, -⟩
    rcases htext.stops with hfull | hfound
    · right
      rw [← hfull]
      exact htext.received.length_le
    · left
      have hshown : (CStr.ofBytes text).bytes <+: segs.flatten :=
        (List.takeWhile_prefix _).trans htext.received
      have hcover := hhead.within hpre hshown (infix_of_strstr hfound)
      exact fun hmem => (CStr.ofBytes text).noNul (hcover.subset hmem)
  · intro h
    have hends : RESPONSE_MAX - 1 ≤ segs.flatten.length ∨
        strstr segs.flatten headEnd = true := by
      rcases h with hnul | hlong
      · exact Or.inr (strstr_of_starts hpre hnul hhead.ends.isInfix)
      · exact Or.inl hlong
    obtain ⟨text, htext⟩ := examined_exists hends
    exact ⟨text, htext, hstatus.code (htext.covers hpre hhead)⟩

/-- The handshake accepts exactly the real 101 responses if and only if such a head comes and no
NUL hides its end, or none comes and `101` stands nowhere in the text that is examined. -/
theorem accepts_real_iff (hsegs : ∀ seg ∈ segs, seg ≠ []) :
    ((httpHandshake true segs).isSome = true ↔ ∃ head, RealUpgrade segs.flatten head) ↔
      (∃ head, RealUpgrade segs.flatten head ∧
        (0 ∉ head ∨ RESPONSE_MAX - 1 ≤ segs.flatten.length)) ∨
      ((¬ ∃ head, RealUpgrade segs.flatten head) ∧
        ∀ text, Examined segs text → strstr text (ascii "101") = false) := by
  by_cases hreal : ∃ head, RealUpgrade segs.flatten head
  · rw [iff_true_right hreal, or_iff_left (fun h => h.1 hreal)]
    constructor
    · intro haccept
      obtain ⟨head, hhead⟩ := hreal
      exact ⟨head, hhead, (accepted_iff_of_real hsegs hhead).mp haccept⟩
    · rintro ⟨head, hhead, hvisible⟩
      exact (accepted_iff_of_real hsegs hhead).mpr hvisible
  · have hleft : ¬ ∃ head, RealUpgrade segs.flatten head ∧
        (0 ∉ head ∨ RESPONSE_MAX - 1 ≤ segs.flatten.length) := by
      rintro ⟨head, hhead, -⟩
      exact hreal ⟨head, hhead⟩
    rw [iff_false_right hreal, or_iff_right hleft, and_iff_right hreal,
      httpHandshake_isSome_iff hsegs]
    constructor
    · intro hnone text htext
      exact Bool.eq_false_of_not_eq_true fun hcode => hnone ⟨text, htext, hcode⟩
    · rintro hnone ⟨text, htext, hcode⟩
      rw [hnone text htext] at hcode
      cases hcode

theorem bareResponse_real : RealUpgrade [bareResponse].flatten bareResponse := by
  have hline : ascii "HTTP/" ++ [49, 46, 49] ++ ascii " 101" ++ [32] <+: bareResponse := by decide
  refine ⟨⟨[], rfl⟩, ⟨bareResponse_ok.ends, bareResponse_ok.first, by decide⟩, ?_⟩
  exact ⟨49, 49, 32, by decide, by decide, Or.inl rfl, hline⟩

theorem accepts_real_bare :
    (httpHandshake true [bareResponse]).isSome = true ↔
      ∃ head, RealUpgrade [bareResponse].flatten head :=
  (accepts_real_iff (by decide)).mpr (Or.inl ⟨_, bareResponse_real, Or.inl (by decide)⟩)

/-- Another status code, with `101` in a header line. -/
def notFound : List UInt8 := ascii "HTTP/1.1 404 \r\nX: 101\r\n\r\n"

theorem notFound_accepted : (httpHandshake true [notFound]).isSome = true ∧
    ¬ ∃ head, RealUpgrade [notFound].flatten head := by
  constructor
  · rw [httpHandshake_isSome_iff (by decide)]
    have hfound : strstr notFound headEnd = true := by decide
    refine ⟨notFound, ⟨⟨1, by decide⟩, Or.inr hfound, ?_⟩, by decide⟩
    intro k hk
    cases k with
    | zero => decide
    | succ k => exact absurd hk (by simp)
  · rintro ⟨head, hpre, -, major, minor, behind, -, -, -, hline⟩
    have hcode : (notFound.drop 9).take 3 = ascii "101" := by
      obtain ⟨rest, hrest⟩ := hline.trans hpre
      have hflat : [notFound].flatten = notFound := List.append_nil _
      rw [← hflat, ← hrest]
      rfl
    exact absurd hcode (by decide)

end RealtimeWs.Core
