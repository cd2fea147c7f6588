import Mathlib.Data.List.SplitLengths
import RealtimeWs.Lib.Packer
import RealtimeWs.Mod.TimeBase
import RealtimeWs.Mod.World

/-! Caller audio cut into calls: the blocks handed to the session depend on the samples alone,
and the samples on how the sample frames of each call pair off. -/
namespace RealtimeWs.Mod

open RealtimeWs.Core

/-! ### What a call hands on -/

/-- What one sample makes of the held ones: a full buffer refuses it, 160 of them are handed to
the session. -/
def sampleEvents (tech : Tech) (sample : Int16) : List (Packer.Event Int16) :=
  (if tech.pcmHold.length < PCM_HOLD_LEN then [] else [.refused sample]) ++
    if 160 ≤ (heldWith tech sample).length then [.block ((heldWith tech sample).take 160)] else []

/-- The events of the loop over the samples, the first of them the `i`-th of the call. -/
def samplesEvents (io : Io) : ℕ → List Int16 → Tech → List (Packer.Event Int16)
  | _, [], _ => []
  | i, sample :: samples, tech =>
    sampleEvents tech sample ++
      samplesEvents io (i + 1) samples (holdSample (io.env i) tech sample)

/-- Calls with caller audio that get the mutex. -/
def reader : Machine Tech (Io × List Int16) (Packer.Event Int16) where
  step tech call := rtwBridgeOnReadPcm16 { call.1 with locked := true } tech call.2
  out tech call :=
    if stopping tech ∨ tech.audioPaused then []
    else if 2 ≤ tech.channels then
      samplesEvents call.1 0 (stereoSamples tech.sampling call.2) tech
    else samplesEvents call.1 0 (monoSamples tech.sampling call.2) tech

/-- The held samples alone. -/
def packer : Machine (List Int16) Int16 (Packer.Event Int16) := Packer.machine 160 PCM_HOLD_LEN

theorem pcmHold_holdSample (env : Env) (tech : Tech) (sample : Int16) :
    (holdSample env tech sample).pcmHold = packer.step tech.pcmHold sample := by
  unfold holdSample
  split
  · rename_i hfull
    exact (if_pos hfull).symm
  · rename_i hpart
    exact (if_neg hpart).symm

theorem pcmHold_holdSamples (io : Io) (i : ℕ) (samples : List Int16) (tech : Tech) :
    (holdSamples io i samples tech).pcmHold = packer.run tech.pcmHold samples := by
  induction samples generalizing i tech with
  | nil => rfl
  | cons sample samples ih => rw [holdSamples, ih, pcmHold_holdSample, Machine.run_cons]

theorem samplesEvents_eq (io : Io) (i : ℕ) (samples : List Int16) (tech : Tech) :
    samplesEvents io i samples tech = packer.outputs tech.pcmHold samples := by
  induction samples generalizing i tech with
  | nil => rfl
  | cons sample samples ih =>
    rw [samplesEvents, ih, pcmHold_holdSample, Machine.outputs_cons]
    rfl

/-! ### The samples of a call -/

/-- The left channel of whole stereo frames. -/
def lefts : List Int16 → List Int16
  | [] => []
  | [_] => []
  | a :: _ :: pcm => a :: lefts pcm

/-- The channel a call listens to. -/
def heard (channels : ℤ) (pcm : List Int16) : List Int16 := if 2 ≤ channels then lefts pcm else pcm

theorem stereoSamples_eq (sampling : ℤ) (pcm : List Int16) :
    stereoSamples sampling pcm = monoSamples sampling (lefts pcm) := by
  fun_induction stereoSamples sampling pcm with
  | case1 a _ b r pcm h ih => rw [lefts, lefts, monoSamples, if_pos h, ih]
  | case2 a l b r pcm h ih =>
    have htail : lefts (b :: r :: pcm) = b :: lefts pcm := rfl
    have hall : lefts (a :: l :: b :: r :: pcm) = a :: b :: lefts pcm := rfl
    rw [ih, hall, htail, monoSamples, if_neg h]
  | case3 a | case4 a => rfl
  | case5 pcm h1 h2 h3 =>
    rcases pcm with - | ⟨a, - | ⟨b, - | ⟨c, - | ⟨d, pcm⟩⟩⟩⟩
    · rfl
    · rfl
    · exact absurd rfl (h3 a b)
    · exact absurd rfl (h2 a b c)
    · exact absurd rfl (h1 a b c d pcm)

/-- A bridge that listens hands on what the buffer makes of the samples of each call. -/
theorem reader_run {sampling channels : ℤ} {tech : Tech} (h : Listening sampling channels tech)
    (calls : List (Io × List Int16)) :
    (reader.run tech calls).pcmHold = packer.run tech.pcmHold
        (calls.flatMap fun call => monoSamples sampling (heard channels call.2)) ∧
      reader.outputs tech calls = packer.outputs tech.pcmHold
        (calls.flatMap fun call => monoSamples sampling (heard channels call.2)) := by
  have hstep : ∀ (tech : Tech) (call : Io × List Int16), Listening sampling channels tech →
      Listening sampling channels (reader.step tech call) ∧
      (reader.step tech call).pcmHold =
        packer.run tech.pcmHold (monoSamples sampling (heard channels call.2)) ∧
      reader.out tech call =
        (packer.outputs tech.pcmHold (monoSamples sampling (heard channels call.2))).map id := by
    intro tech call hl
    have hgo : ¬ (stopping tech ∨ tech.audioPaused) := by simp [hl.stopping, hl.audioPaused]
    have hread : ∃ i, reader.step tech call = holdSamples { call.1 with locked := true } i
          (monoSamples sampling (heard channels call.2)) tech ∧
        reader.out tech call = samplesEvents call.1 i
          (monoSamples sampling (heard channels call.2)) tech := by
      refine ⟨0, ?_⟩
      simp only [reader, rtwBridgeOnReadPcm16, if_neg hgo, Bool.true_eq_false, if_false,
        hl.channels, hl.sampling, heard, stereoSamples_eq]
      split <;> exact ⟨rfl, rfl⟩
    obtain ⟨i, hnext, hout⟩ := hread
    obtain ⟨session, hold, hrest⟩ := holdSamples_rest { call.1 with locked := true } i
      (monoSamples sampling (heard channels call.2)) tech
    refine ⟨?_, ?_, ?_⟩
    · rw [hnext, hrest]
      exact ⟨hl.sampling, hl.channels, hl.audioPaused, hl.stopping⟩
    · rw [hnext, pcmHold_holdSamples]
    · rw [hout, samplesEvents_eq, List.map_id]
  obtain ⟨hrun, houts⟩ := reader.simulation packer hstep h calls
  exact ⟨hrun, houts.trans (List.map_id _)⟩

/-! ### The held samples of a running bridge -/

theorem pcmHold_flushOutbound (io : Io) (tech : Tech) :
    (flushOutbound io tech).pcmHold = tech.pcmHold := by rw [flushOutbound_rest]

theorem pcmHold_onRead (io : Io) (tech : Tech) (pcm : List Int16) :
    (rtwBridgeOnReadPcm16 io tech pcm).pcmHold = tech.pcmHold ∨
      ∃ samples, (rtwBridgeOnReadPcm16 io tech pcm).pcmHold = packer.run tech.pcmHold samples := by
  unfold rtwBridgeOnReadPcm16
  split_ifs
  · exact Or.inl rfl
  · exact Or.inl rfl
  · exact Or.inr ⟨_, pcmHold_holdSamples io 0 _ tech⟩
  · exact Or.inr ⟨_, pcmHold_holdSamples io 0 _ tech⟩

theorem pcmHold_takePlayout (env : Env) (tech : Tech) (want : ℕ) :
    (takePlayout env tech want).2.pcmHold = tech.pcmHold := by
  simp only [takePlayout]
  split <;> rfl

/-- Calls with caller audio apart, nothing touches the held samples. -/
theorem pcmHold_step (w : World) (e : WorldEvent) (h : ∀ io pcm, e ≠ .onRead io pcm) :
    (w.step e).tech.pcmHold = w.tech.pcmHold := by
  cases e with
  | onRead io pcm => exact absurd rfl (h io pcm)
  | onWrite io n =>
    simp only [World.step, rtwBridgeOnWritePcm16]
    split_ifs <;> first | rfl | exact pcmHold_takePlayout _ _ _
  | applyWrite io pcm =>
    simp only [World.step, rtwBridgeApplyWriteFrame]
    split_ifs <;> try first | rfl | exact pcmHold_takePlayout _ _ _
    split <;> exact pcmHold_takePlayout _ _ _
  | clear io =>
    simp only [World.step, rtwBridgeClear, handleAndFlush]
    split_ifs <;> first | rfl | exact pcmHold_flushOutbound _ _
  | sendMark io name =>
    simp only [World.step, rtwBridgeSendMark, handleAndFlush]
    split_ifs <;> first | rfl | exact pcmHold_flushOutbound _ _
  | pause io on =>
    simp only [World.step, rtwBridgePause]
    split_ifs <;> rfl
  | stopFinish io =>
    simp only [World.step, bridgeStopFinish]
    split_ifs <;> first | rfl | exact pcmHold_flushOutbound _ _
  | wsText io text =>
    simp only [World.step, World.workerStep, onWsText, handleAndFlush]
    split_ifs <;> first | rfl | exact pcmHold_flushOutbound _ _
  | flush io =>
    simp only [World.step, World.workerStep]
    split_ifs <;> first | rfl | exact pcmHold_flushOutbound _ _
  | rehandshake io =>
    simp only [World.step, World.workerStep, reconnectHandshake]
    split_ifs <;> first | rfl | exact pcmHold_flushOutbound _ _
  | beginReconnect =>
    simp only [World.step, World.workerStep]
    split
    · rcases reconnectBegin_cases { w.tech with wsReady := false } with hnone | ⟨wait, hsome⟩
      · rw [hnone]
      · rw [hsome]
    · rfl
  | connect ok =>
    simp only [World.step, World.workerStep, reconnectConnect]
    split_ifs <;> rfl
  | closeRequest | stopRequest | wsClose | polled | leave | wake | closeOld | check | finish =>
    simp only [World.step, World.workerStep]
    split_ifs <;> rfl

/-- Fewer than 160 samples are held between the steps of every run. -/
theorem pcmHold_run {w : World} (h : w.tech.pcmHold.length < 160) (es : List WorldEvent) :
    (world.run w es).tech.pcmHold.length < 160 := by
  have hstep : ∀ (w : World) (e : WorldEvent), True → w.tech.pcmHold.length < 160 →
      (world.step w e).tech.pcmHold.length < 160 := by
    intro w e _ h
    by_cases hread : ∃ io pcm, e = .onRead io pcm
    · obtain ⟨io, pcm, rfl⟩ := hread
      change (if w.pc = .freed then w
        else { w with tech := rtwBridgeOnReadPcm16 io w.tech pcm }).tech.pcmHold.length < 160
      split
      · exact h
      · rcases pcmHold_onRead io w.tech pcm with hsame | ⟨samples, hrun⟩
        · exact hsame ▸ h
        · exact hrun ▸ Packer.run_small h samples
    · have hother : ∀ io pcm, e ≠ .onRead io pcm := fun io pcm he => hread ⟨io, pcm, he⟩
      exact (pcmHold_step w e hother).symm ▸ h
  exact world.invariant hstep h (world.along_of_forall (fun _ _ => trivial) w es)

/-! ### Pairing off -/

/-- `n` sample frames two by two, an odd last one alone. -/
def partners : ℕ → List ℕ
  | 0 => []
  | 1 => [1]
  | n + 2 => 2 :: partners n

/-- How the sample frames of a cut into calls of these lengths pair off. -/
def pairing (ns : List ℕ) : List ℕ := ns.flatMap partners

/-- The sample of a pair or of a single frame. -/
def mean : List Int16 → Int16
  | [] => 0
  | [a] => a
  | a :: b :: _ => average a b

/-- The samples of a pairing. -/
def fold (ps : List ℕ) (xs : List Int16) : List Int16 := (ps.splitLengths xs).map mean

@[simp] theorem fold_cons (p : ℕ) (ps : List ℕ) (xs : List Int16) :
    fold (p :: ps) xs = mean (xs.take p) :: fold ps (xs.drop p) := by
  rw [fold, List.splitLengths_cons, List.map_cons, fold]

theorem sum_partners (n : ℕ) : (partners n).sum = n := by
  fun_induction partners n with
  | case1 | case2 => rfl
  | case3 n ih =>
    rw [List.sum_cons, ih]
    exact Nat.add_comm 2 n

theorem sum_pairing (ns : List ℕ) : (pairing ns).sum = ns.sum := by
  induction ns with
  | nil => rfl
  | cons n ns ih =>
    have hcons : pairing (n :: ns) = partners n ++ pairing ns := rfl
    rw [hcons, List.sum_append, List.sum_cons, sum_partners, ih]

theorem mem_partners {n : ℕ} : ∀ p ∈ partners n, p = 1 ∨ p = 2 := by
  fun_induction partners n with
  | case1 => nofun
  | case2 => exact fun p hp => Or.inl (List.mem_singleton.mp hp)
  | case3 n ih =>
    intro p hp
    rcases List.mem_cons.mp hp with rfl | hp
    · exact Or.inr rfl
    · exact ih p hp

theorem mem_pairing {ns : List ℕ} : ∀ p ∈ pairing ns, p = 1 ∨ p = 2 := by
  intro p hp
  obtain ⟨n, -, hp⟩ := List.mem_flatMap.mp hp
  exact mem_partners p hp

theorem fold_append (ps qs : List ℕ) (xs : List Int16) :
    fold (ps ++ qs) xs = fold ps xs ++ fold qs (xs.drop ps.sum) := by
  induction ps generalizing xs with
  | nil => rfl
  | cons p ps ih =>
    rw [List.cons_append, fold_cons, fold_cons, ih, List.drop_drop, List.sum_cons,
      List.cons_append]

theorem fold_take {ps : List ℕ} {n : ℕ} (h : ps.sum ≤ n) (xs : List Int16) :
    fold ps (xs.take n) = fold ps xs := by
  induction ps generalizing n xs with
  | nil => rfl
  | cons p ps ih =>
    rw [List.sum_cons] at h
    have htail : fold ps ((xs.drop p).take (n - p)) = fold ps (xs.drop p) :=
      ih (Nat.le_sub_of_add_le' h) (xs.drop p)
    rw [fold_cons, fold_cons, List.take_take, List.drop_take, htail,
      Nat.min_eq_left (Nat.le_of_add_right_le h)]

theorem monoSamples_8000 (xs : List Int16) : monoSamples 8000 xs = xs := by
  fun_induction monoSamples 8000 xs with
  | case1 | case2 => rfl
  | case3 a b xs h ih => exact absurd h (by decide)
  | case4 a b xs h ih => rw [ih]

/-- The samples of one call at 16 kHz. -/
theorem monoSamples_16000 (xs : List Int16) :
    monoSamples 16000 xs = fold (partners xs.length) xs := by
  fun_induction monoSamples 16000 xs with
  | case1 | case2 => rfl
  | case3 a b xs h ih =>
    have hpair : partners (a :: b :: xs).length = 2 :: partners xs.length := rfl
    rw [ih, hpair, fold_cons]
    rfl
  | case4 a b xs h ih => exact absurd rfl h

/-- The samples of all calls of a cut at 16 kHz. -/
theorem flatMap_monoSamples {ns : List ℕ} {xs : List Int16} (h : ns.sum ≤ xs.length) :
    (ns.splitLengths xs).flatMap (monoSamples 16000) = fold (pairing ns) xs := by
  induction ns generalizing xs with
  | nil => rfl
  | cons n ns ih =>
    rw [List.sum_cons] at h
    have hcons : pairing (n :: ns) = partners n ++ pairing ns := rfl
    have hlen : (xs.take n).length = n := by
      rw [List.length_take]
      omega
    have hrest : ns.sum ≤ (xs.drop n).length := by
      rw [List.length_drop]
      omega
    rw [List.splitLengths_cons, List.flatMap_cons, monoSamples_16000, hlen, ih hrest, hcons,
      fold_append, sum_partners, fold_take (sum_partners n).le]

/-- Two pairings of the same frames that differ give different samples to some audio: silence
but for the second frame of the first pair the other does not have. -/
theorem exists_fold_ne {ps qs : List ℕ} (hps : ∀ p ∈ ps, p = 1 ∨ p = 2)
    (hqs : ∀ q ∈ qs, q = 1 ∨ q = 2) (hsum : ps.sum = qs.sum) (hne : ps ≠ qs) :
    ∃ xs, xs.length = ps.sum ∧ fold ps xs ≠ fold qs xs := by
  induction ps generalizing qs with
  | nil =>
    cases qs with
    | nil => exact absurd rfl hne
    | cons q qs =>
      have hq := hqs q List.mem_cons_self
      rw [List.sum_nil, List.sum_cons] at hsum
      omega
  | cons p ps ih =>
    cases qs with
    | nil =>
      have hp := hps p List.mem_cons_self
      rw [List.sum_nil, List.sum_cons] at hsum
      omega
    | cons q qs =>
      rw [List.sum_cons, List.sum_cons] at hsum
      have hp := hps p List.mem_cons_self
      have hq := hqs q List.mem_cons_self
      by_cases hpq : p = q
      · subst hpq
        obtain ⟨xs, hlen, hxs⟩ := ih (fun r hr => hps r (List.mem_cons_of_mem p hr))
          (fun r hr => hqs r (List.mem_cons_of_mem p hr)) (Nat.add_left_cancel hsum)
          (fun h => hne (congrArg (p :: ·) h))
        have hdrop : (List.replicate p (0 : Int16) ++ xs).drop p = xs :=
          List.drop_left' List.length_replicate
        refine ⟨.replicate p 0 ++ xs, ?_, ?_⟩
        · rw [List.length_append, List.length_replicate, hlen, List.sum_cons]
        · intro hsame
          rw [fold_cons, fold_cons, List.cons.injEq, hdrop] at hsame
          exact hxs hsame.2
      · refine ⟨0 :: 2 :: .replicate (p + ps.sum - 2) 0, ?_, ?_⟩
        · rw [List.length_cons, List.length_cons, List.length_replicate, List.sum_cons]
          omega
        · intro hsame
          rw [fold_cons, fold_cons, List.cons.injEq] at hsame
          have hhead := hsame.1
          rcases hp with rfl | rfl <;> rcases hq with rfl | rfl
          · exact hpq rfl
          · exact absurd hhead (show (0 : Int16) ≠ average 0 2 by decide)
          · exact absurd hhead (show average 0 2 ≠ (0 : Int16) by decide)
          · exact hpq rfl

/-! ### Cuts of source audio -/

theorem lefts_take (n : ℕ) (pcm : List Int16) : lefts (pcm.take (2 * n)) = (lefts pcm).take n := by
  induction n generalizing pcm with
  | zero => rfl
  | succ n ih =>
    match pcm with
    | [] | [_] => rfl
    | a :: l :: pcm => exact congrArg (a :: ·) (ih pcm)

theorem lefts_drop (n : ℕ) (pcm : List Int16) : lefts (pcm.drop (2 * n)) = (lefts pcm).drop n := by
  induction n generalizing pcm with
  | zero => rfl
  | succ n ih =>
    match pcm with
    | [] => rfl
    | [_] => exact (congrArg lefts (List.drop_eq_nil_of_le (by simp; omega))).trans List.drop_nil.symm
    | a :: l :: pcm => exact ih pcm

theorem length_lefts (pcm : List Int16) : (lefts pcm).length = pcm.length / 2 := by
  fun_induction lefts pcm with
  | case1 => rfl
  | case2 a => exact (Nat.div_eq_of_lt Nat.one_lt_two).symm
  | case3 a l pcm ih =>
    rw [List.length_cons, ih]
    simp only [List.length_cons]
    omega

/-- Calls that bring the audio in pieces of these numbers of sample frames. -/
def Cut (channels : ℤ) (ns : List ℕ) (pcm : List Int16) (calls : List (Io × List Int16)) : Prop :=
  calls.map Prod.snd = (ns.map (channels.toNat * ·)).splitLengths pcm

section

variable {channels : ℤ} (hch : channels = 1 ∨ channels = 2)
include hch

theorem length_heard {n : ℕ} {pcm : List Int16} (h : pcm.length = channels.toNat * n) :
    (heard channels pcm).length = n := by
  rcases hch with rfl | rfl
  · rw [heard, if_neg (by decide), h]
    exact Nat.one_mul n
  · rw [heard, if_pos (by decide), length_lefts, h]
    exact Nat.mul_div_cancel_left n (by decide)

theorem map_heard_splitLengths (ns : List ℕ) (pcm : List Int16) :
    ((ns.map (channels.toNat * ·)).splitLengths pcm).map (heard channels) =
      ns.splitLengths (heard channels pcm) := by
  induction ns generalizing pcm with
  | nil => rfl
  | cons n ns ih =>
    have hpiece : heard channels (pcm.take (channels.toNat * n)) = (heard channels pcm).take n ∧
        heard channels (pcm.drop (channels.toNat * n)) = (heard channels pcm).drop n := by
      rcases hch with rfl | rfl
      · have hone : (1 : ℤ).toNat * n = n := Nat.one_mul n
        rw [hone]
        exact ⟨rfl, rfl⟩
      · exact ⟨lefts_take n pcm, lefts_drop n pcm⟩
    rw [List.map_cons, List.splitLengths_cons, List.map_cons, List.splitLengths_cons, ih, hpiece.1,
      hpiece.2]

/-- Every sequence is what is heard of some audio. -/
theorem exists_heard (xs : List Int16) :
    ∃ pcm, pcm.length = channels.toNat * xs.length ∧ heard channels pcm = xs := by
  rcases hch with rfl | rfl
  · exact ⟨xs, (Nat.one_mul xs.length).symm, rfl⟩
  · induction xs with
    | nil => exact ⟨[], rfl, rfl⟩
    | cons x xs ih =>
      obtain ⟨pcm, hlen, hheard⟩ := ih
      refine ⟨x :: 0 :: pcm, ?_, congrArg (x :: ·) hheard⟩
      rw [List.length_cons, List.length_cons, hlen, List.length_cons]
      exact (Nat.mul_succ 2 xs.length).symm

theorem Cut.samples {ns : List ℕ} {pcm : List Int16} {calls : List (Io × List Int16)}
    (h : Cut channels ns pcm calls) (sampling : ℤ) :
    (calls.flatMap fun call => monoSamples sampling (heard channels call.2)) =
      (ns.splitLengths (heard channels pcm)).flatMap (monoSamples sampling) := by
  rw [← map_heard_splitLengths hch, ← h, List.map_map, List.flatMap_map]
  rfl

end

/-- Both runs hand the same blocks to the session and end with the same samples held; neither
refuses a sample, and fewer than 160 are held between calls. -/
structure PackedAlike (tech : Tech) (calls calls' : List (Io × List Int16)) : Prop where
  blocks : reader.outputs tech calls = reader.outputs tech calls'
  hold : (reader.run tech calls).pcmHold = (reader.run tech calls').pcmHold
  whole : ∀ e ∈ reader.outputs tech calls ++ reader.outputs tech calls',
    ∃ block, e = .block block ∧ block.length = 160
  bounded : ∀ k, (reader.run tech (calls.take k)).pcmHold.length < 160 ∧
    (reader.run tech (calls'.take k)).pcmHold.length < 160

/-- On all audio, the two ways of cutting it are packed alike. -/
def CutIndependent (sampling channels : ℤ) (ns ms : List ℕ) : Prop :=
  ∀ tech, Listening sampling channels tech → tech.pcmHold.length < 160 →
    ∀ pcm, pcm.length = channels.toNat * ns.sum → ∀ calls calls', Cut channels ns pcm calls →
      Cut channels ms pcm calls' → PackedAlike tech calls calls'

theorem packedAlike_iff {sampling channels : ℤ} {tech : Tech}
    (h : Listening sampling channels tech) (hhold : tech.pcmHold.length < 160)
    (calls calls' : List (Io × List Int16)) : PackedAlike tech calls calls' ↔
      (calls.flatMap fun call => monoSamples sampling (heard channels call.2)) =
        calls'.flatMap fun call => monoSamples sampling (heard channels call.2) := by
  obtain ⟨hrun, hout⟩ := reader_run h calls
  obtain ⟨hrun', hout'⟩ := reader_run h calls'
  constructor
  · intro halike
    have hblocks := halike.blocks
    have hends := halike.hold
    rw [hout, hout'] at hblocks
    rw [hrun, hrun'] at hends
    exact Packer.items_eq_of_same (by decide) hhold hblocks hends
  · intro hsame
    constructor
    · rw [hout, hout', hsame]
    · rw [hrun, hrun', hsame]
    · intro e he
      rw [hout, hout', hsame, List.mem_append, or_self] at he
      exact Packer.outputs_block (by decide) hhold _ e he
    · intro k
      rw [(reader_run h (calls.take k)).1, (reader_run h (calls'.take k)).1]
      exact ⟨Packer.run_small hhold _, Packer.run_small hhold _⟩

/-- A bridge that has just opened its connection. -/
def opened (sampling channels : ℤ) : Tech :=
  openTech .calm (.copy _ demoSid) (.copy _ demoSid) sampling channels (.boot 256 (64 * 1024) demoSid)

theorem opened_listening {sampling channels : ℤ} (hrate : 0 < sampling) (hch : 0 < channels) :
    Listening sampling channels (opened sampling channels) :=
  ⟨if_pos hrate, if_pos hch, rfl, rfl⟩

/-- The calls of a cut, when nothing fails in them. -/
def calmCalls (channels : ℤ) (ns : List ℕ) (pcm : List Int16) : List (Io × List Int16) :=
  ((ns.map (channels.toNat * ·)).splitLengths pcm).map (Io.calm, ·)

theorem calmCalls_cut (channels : ℤ) (ns : List ℕ) (pcm : List Int16) :
    Cut channels ns pcm (calmCalls channels ns pcm) := by
  rw [Cut, calmCalls, List.map_map]
  exact List.map_id _

/-- At 8 kHz no cut matters; at 16 kHz two cuts are packed alike if and only if they pair off
the same sample frames. -/
theorem cutIndependent_iff {sampling channels : ℤ} (hrate : sampling = 8000 ∨ sampling = 16000)
    (hch : channels = 1 ∨ channels = 2) {ns ms : List ℕ} (hsum : ns.sum = ms.sum) :
    CutIndependent sampling channels ns ms ↔ sampling = 8000 ∨ pairing ns = pairing ms := by
  constructor
  · intro h
    rcases hrate with rfl | rfl
    · exact Or.inl rfl
    · right
      by_contra hne
      have hpairs : (pairing ns).sum = (pairing ms).sum := by rw [sum_pairing, sum_pairing, hsum]
      obtain ⟨xs, hlen, hxs⟩ := exists_fold_ne mem_pairing mem_pairing hpairs hne
      obtain ⟨pcm, hpcm, rfl⟩ := exists_heard hch xs
      rw [sum_pairing] at hlen
      rw [hlen] at hpcm
      have hl : Listening 16000 channels (opened 16000 channels) :=
        opened_listening (by decide) (by omega)
      have hcut := calmCalls_cut channels ns pcm
      have hcut' := calmCalls_cut channels ms pcm
      have hempty : (opened 16000 channels).pcmHold.length < 160 := Nat.zero_lt_succ 159
      have hsame := (packedAlike_iff hl hempty _ _).mp (h _ hl hempty pcm hpcm _ _ hcut hcut')
      rw [hcut.samples hch, hcut'.samples hch, flatMap_monoSamples hlen.ge,
        flatMap_monoSamples (hsum ▸ hlen.ge)] at hsame
      exact hxs hsame
  · intro h tech hl hhold pcm hpcm calls calls' hcut hcut'
    have hlen := length_heard hch hpcm
    apply (packedAlike_iff hl hhold calls calls').mpr
    rw [hcut.samples hch, hcut'.samples hch]
    have hwhole : sampling = 8000 ∨ sampling = 16000 ∧ pairing ns = pairing ms := by
      rcases hrate with hrate | hrate
      · exact Or.inl hrate
      · exact h.imp_right fun h => ⟨hrate, h⟩
    rcases hwhole with rfl | ⟨rfl, hpairs⟩
    · have hid : monoSamples 8000 = id := funext monoSamples_8000
      rw [hid, List.flatMap_id, List.flatMap_id, List.flatten_splitLengths _ _ hlen.le,
        List.flatten_splitLengths _ _ (hsum ▸ hlen.le)]
    · rw [flatMap_monoSamples hlen.ge, flatMap_monoSamples (hsum ▸ hlen.ge), hpairs]

/-- Stereo at 16 kHz, cut into two and three frames or into four and one. -/
theorem cutIndependent_stereo16k : CutIndependent 16000 2 [2, 3] [4, 1] :=
  have hsum : [2, 3].sum = [4, 1].sum := rfl
  (cutIndependent_iff (Or.inr rfl) (Or.inr rfl) hsum).mpr (Or.inr rfl)

/-- Two samples in one call are averaged, in two calls they are not. -/
theorem odd_pieces_differ : ¬ CutIndependent 16000 1 [1, 1] [2] := by
  intro h
  have hl : Listening 16000 1 (opened 16000 1) := opened_listening (by decide) (by decide)
  have halike := h _ hl (by decide) [0, 2] rfl [(.calm, [0]), (.calm, [2])] [(.calm, [0, 2])] rfl rfl
  have hapart : (reader.run (opened 16000 1) [(.calm, [0]), (.calm, [2])]).pcmHold = [0, 2] := rfl
  have hpair : (reader.run (opened 16000 1) [(.calm, [0, 2])]).pcmHold = [1] := rfl
  have hhold := halike.hold
  rw [hapart, hpair] at hhold
  exact absurd hhold (by decide)

end RealtimeWs.Mod
