import RealtimeWs.Mod.Downlink

/-! Frames written by `rtw_bridge_apply_write_frame`, sample by sample, in both modes. -/
namespace RealtimeWs.Mod

open RealtimeWs.Core

/-- The nearest 16-bit value. -/
def saturated (v : ℤ) : ℤ := max (-32768) (min 32767 v)

theorem clampS16_toInt (v : ℤ) : (clampS16 v).toInt = saturated v := by
  unfold clampS16 saturated
  split_ifs with hhigh hlow
  · rw [min_eq_left hhigh.le]
    rfl
  · rw [min_eq_right (by omega), max_eq_left hlow.le]
    rfl
  · rw [min_eq_right (by omega), max_eq_right (by omega)]
    exact Int16.toInt_ofInt_of_le (by omega) (by omega)

theorem length_mixSamples (pcm agent : List Int16) : (mixSamples pcm agent).length = pcm.length := by
  fun_induction mixSamples pcm agent with
  | case1 x pcm a agent ih => rw [List.length_cons, ih, List.length_cons]
  | case2 => rfl

theorem mixSamples_below {pcm agent : List Int16} {j : ℕ} {x a : Int16} (hx : pcm[j]? = some x)
    (ha : agent[j]? = some a) : (mixSamples pcm agent)[j]? = some (clampS16 (x.toInt + a.toInt)) := by
  induction pcm generalizing agent j with
  | nil => cases hx
  | cons y pcm ih =>
    cases agent with
    | nil => cases ha
    | cons b agent =>
      cases j with
      | zero =>
        cases hx
        cases ha
        rfl
      | succ j => exact ih hx ha

theorem mixSamples_above {pcm agent : List Int16} {j : ℕ} (h : agent.length ≤ j) :
    (mixSamples pcm agent)[j]? = pcm[j]? := by
  induction pcm generalizing agent j with
  | nil => rfl
  | cons y pcm ih =>
    cases agent with
    | nil => rfl
    | cons b agent =>
      cases j with
      | zero => cases h
      | succ j => exact ih (Nat.le_of_succ_le_succ h)

/-- The samples a frame can take. -/
def available (tech : Tech) (pcm : List Int16) : ℕ := min pcm.length tech.session.playout.size

/-- The frame takes all it can and is filled with it: with silence behind it in replace mode,
with what was there in mix mode. -/
structure FillsFrame (io : Io) (tech : Tech) (pcm : List Int16) : Prop where
  taken : (rtwBridgeApplyWriteFrame io tech pcm).1.2 = available tech pcm
  consumed : (rtwBridgeApplyWriteFrame io tech pcm).2.buffered =
    tech.buffered.drop (available tech pcm)
  length : (rtwBridgeApplyWriteFrame io tech pcm).1.1.length = pcm.length
  unchanged : available tech pcm = 0 → (rtwBridgeApplyWriteFrame io tech pcm).1.1 = pcm
  replaced : tech.injectMode = .replace → 0 < available tech pcm →
    (∀ j < available tech pcm, (rtwBridgeApplyWriteFrame io tech pcm).1.1[j]? =
      (tech.buffered[j]?).map rtwMulawToLinear) ∧
    ∀ j, available tech pcm ≤ j → j < pcm.length →
      (rtwBridgeApplyWriteFrame io tech pcm).1.1[j]? = some 0
  mixed : tech.injectMode = .mix → 0 < available tech pcm →
    (∀ j < available tech pcm, ∀ x b, pcm[j]? = some x → tech.buffered[j]? = some b →
      ∃ y, (rtwBridgeApplyWriteFrame io tech pcm).1.1[j]? = some y ∧
        y.toInt = saturated (x.toInt + (rtwMulawToLinear b).toInt)) ∧
    ∀ j, available tech pcm ≤ j → (rtwBridgeApplyWriteFrame io tech pcm).1.1[j]? = pcm[j]?

variable {io : Io} {tech : Tech} {pcm : List Int16}

theorem length_buffered (tech : Tech) : tech.buffered.length = tech.session.playout.size :=
  tech.session.playout.length_bytes

/-- With a mutex and no cleanup, a frame takes what one local buffer can hold. -/
theorem applyWriteFrame_eq (hlock : io.locked = true) (hpos : 0 < pcm.length)
    (hopen : tech.cleanupStarted = false) :
    let agent := rtwMulawToPcm16 (tech.buffered.take (writeWant pcm.length))
    (rtwBridgeApplyWriteFrame io tech pcm).1 =
        (if agent.length = 0 then pcm else match tech.injectMode with
          | .mix => mixSamples pcm agent
          | .replace => agent ++ .replicate (pcm.length - agent.length) 0, agent.length) ∧
      (rtwBridgeApplyWriteFrame io tech pcm).2.buffered =
        tech.buffered.drop (writeWant pcm.length) := by
  intro agent
  obtain ⟨hout, hbuf, -⟩ := takePlayout_spec (io.env 0) tech (writeWant pcm.length)
  have hgo : ¬ (pcm.length = 0 ∨ tech.cleanupStarted) := by
    rw [hopen]
    simpa using List.length_pos_iff.mp hpos
  simp only [rtwBridgeApplyWriteFrame, if_neg hgo, hlock, Bool.true_eq_false, if_false, hout]
  by_cases hnil : agent.length = 0
  · rw [if_pos hnil, if_pos hnil, hnil]
    exact ⟨rfl, hbuf⟩
  · rw [if_neg hnil, if_neg hnil]
    cases tech.injectMode <;> exact ⟨rfl, hbuf⟩

/-- Below the size of the local buffers a frame takes all that is available. -/
theorem take_writeWant (h : available tech pcm ≤ WRITE_FRAME_MAX) :
    tech.buffered.take (writeWant pcm.length) = tech.buffered.take (available tech pcm) ∧
      tech.buffered.drop (writeWant pcm.length) = tech.buffered.drop (available tech pcm) := by
  have hsame : min (writeWant pcm.length) tech.buffered.length =
      min (available tech pcm) tech.buffered.length := by
    rw [length_buffered]
    unfold writeWant available at *
    split_ifs <;> omega
  exact ⟨List.take_eq_take_iff.mpr hsame, List.drop_eq_drop_iff.mpr hsame⟩

theorem fillsFrame (hlock : io.locked = true) (hpos : 0 < pcm.length)
    (hopen : tech.cleanupStarted = false) (hfit : available tech pcm ≤ WRITE_FRAME_MAX) :
    FillsFrame io tech pcm := by
  obtain ⟨hframe, hbuf⟩ := applyWriteFrame_eq hlock hpos hopen
  obtain ⟨htake, hdrop⟩ := take_writeWant hfit
  have hlen : (rtwMulawToPcm16 (tech.buffered.take (available tech pcm))).length =
      available tech pcm := by
    rw [rtwMulawToPcm16, List.length_map, List.length_take, length_buffered]
    exact Nat.min_eq_left (Nat.min_le_right _ _)
  have hle : available tech pcm ≤ pcm.length := Nat.min_le_left _ _
  have hagent : ∀ j < available tech pcm,
      (rtwMulawToPcm16 (tech.buffered.take (available tech pcm)))[j]? =
        (tech.buffered[j]?).map rtwMulawToLinear := by
    intro j hj
    rw [rtwMulawToPcm16, List.getElem?_map, List.getElem?_take_of_lt hj]
  rw [htake] at hframe
  rw [hdrop] at hbuf
  generalize rtwMulawToPcm16 (tech.buffered.take (available tech pcm)) = agent at *
  constructor
  · rw [hframe]
    exact hlen
  · exact hbuf
  · rw [hframe]
    dsimp only
    split_ifs
    · rfl
    · cases tech.injectMode with
      | mix => exact length_mixSamples pcm agent
      | replace =>
        simp only [List.length_append, List.length_replicate]
        omega
  · intro hzero
    rw [hframe, if_pos (hlen.trans hzero)]
  · intro hmode htaken
    rw [hframe, if_neg (by omega), hmode]
    constructor
    · intro j hj
      rw [← hagent j hj]
      exact List.getElem?_append_left (hlen.symm ▸ hj)
    · intro j hj hlt
      rw [List.getElem?_append_right (hlen.symm ▸ hj), List.getElem?_replicate,
        if_pos (by omega)]
  · intro hmode htaken
    rw [hframe, if_neg (by omega), hmode]
    constructor
    · intro j hj x b hx hb
      refine ⟨_, mixSamples_below hx (a := rtwMulawToLinear b) ?_, clampS16_toInt _⟩
      rw [hagent j hj, hb]
      rfl
    · intro j hj
      exact mixSamples_above (hlen.symm ▸ hj)

/-- A frame is filled as it should if and only if nothing is buffered, or cleanup has not
started and no more is available than a local buffer holds. -/
theorem fillsFrame_iff (hlock : io.locked = true) (hpos : 0 < pcm.length) :
    FillsFrame io tech pcm ↔ tech.session.playout.size = 0 ∨
      (tech.cleanupStarted = false ∧ available tech pcm ≤ WRITE_FRAME_MAX) := by
  have hmin : available tech pcm = min pcm.length tech.session.playout.size := rfl
  constructor
  · intro h
    have htaken := h.taken
    cases hopen : tech.cleanupStarted with
    | true =>
      have hkept : rtwBridgeApplyWriteFrame io tech pcm = ((pcm, 0), tech) := if_pos (Or.inr hopen)
      rw [hkept] at htaken
      change 0 = available tech pcm at htaken
      exact Or.inl (by omega)
    | false =>
      refine Or.inr ⟨rfl, ?_⟩
      rw [(applyWriteFrame_eq hlock hpos hopen).1, rtwMulawToPcm16, List.length_map,
        List.length_take, length_buffered] at htaken
      unfold writeWant at htaken
      split_ifs at htaken <;> omega
  · intro h
    cases hopen : tech.cleanupStarted with
    | true =>
      have hzero : available tech pcm = 0 := by
        rcases h with hsize | ⟨hno, -⟩
        · omega
        · exact absurd (hopen.symm.trans hno) (by decide)
      have hkept : rtwBridgeApplyWriteFrame io tech pcm = ((pcm, 0), tech) := if_pos (Or.inr hopen)
      have hnone : ¬ 0 < available tech pcm := by omega
      constructor
      · rw [hkept, hzero]
      · rw [hkept, hzero]
        rfl
      · rw [hkept]
      · rw [hkept]
        exact fun _ => rfl
      · exact fun _ hpos => absurd hpos hnone
      · exact fun _ hpos => absurd hpos hnone
    | false =>
      apply fillsFrame hlock hpos hopen
      rcases h with hsize | ⟨-, hfit⟩
      · omega
      · exact hfit

/-- Before cleanup a frame is filled with all the audio there is, up to what a local buffer
holds; after cleanup has started nothing is taken. -/
theorem injection_fills (hlock : io.locked = true) (hpos : 0 < pcm.length) :
    (tech.cleanupStarted = false → available tech pcm ≤ WRITE_FRAME_MAX →
      FillsFrame io tech pcm) ∧
    (tech.cleanupStarted = true → rtwBridgeApplyWriteFrame io tech pcm = ((pcm, 0), tech)) := by
  constructor
  · exact fillsFrame hlock hpos
  · intro hcleanup
    exact if_pos (Or.inr hcleanup)

/-- A bridge in replace mode with `n` bytes of agent audio. -/
def fedTech (n : ℕ) : Tech :=
  let tech := openTech .calm (.copy _ demoSid) (.copy _ demoSid) 8000 1 (.boot 64 1024 demoSid)
  { tech with session := { tech.session with
      playout := (rtwPlayoutWrite tech.session.playout (.replicate n 255)).2 } }

theorem fedTech_size {n : ℕ} (h : n ≤ 1024) : (fedTech n).session.playout.size = n := by
  have hfst := write_fst (Session.boot 64 1024 demoSid).playout (.replicate n 255)
  rw [List.length_replicate, if_pos ((Nat.zero_add n).symm ▸ h)] at hfst
  have hsize := (write_accepted _ hfst).2
  rw [List.length_replicate] at hsize
  exact hsize.trans (Nat.zero_add n)

theorem injection_fills_part :
    FillsFrame .calm (fedTech 100) (.replicate 160 7) := by
  have hsize := fedTech_size (show 100 ≤ 1024 by decide)
  have hlen : (List.replicate 160 (7 : Int16)).length = 160 := List.length_replicate
  apply (injection_fills rfl (by rw [hlen]; decide)).1 rfl
  rw [available, hsize, hlen]
  decide

/-- After cleanup has started nothing is injected, and of a frame of 641 samples the last is
silent though audio for it is there. -/
theorem frames_not_filled :
    ¬ FillsFrame .calm (bridgeStopRequest (fedTech 1)) [7] ∧
      ¬ FillsFrame .calm (fedTech 641) (.replicate 641 7) := by
  have hone := fedTech_size (show 1 ≤ 1024 by decide)
  have hlong := fedTech_size (show 641 ≤ 1024 by decide)
  have hlen : (List.replicate 641 (7 : Int16)).length = 641 := List.length_replicate
  constructor
  · rw [fillsFrame_iff rfl (by decide)]
    rintro (hzero | ⟨hopen, -⟩)
    · exact absurd (hone.symm.trans hzero) Nat.one_ne_zero
    · cases hopen
  · rw [fillsFrame_iff rfl (by rw [hlen]; decide), available, hlong, hlen]
    decide

end RealtimeWs.Mod
