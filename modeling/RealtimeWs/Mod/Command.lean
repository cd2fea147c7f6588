import Mathlib.Data.List.DropRight
import RealtimeWs.Core.Url
import RealtimeWs.Mod.StartMemory

/-! The command line of the API. A request that is written as the usage text has it reaches its
function with the arguments it was written with, the metadata byte for byte. -/
namespace RealtimeWs.Mod

open RealtimeWs.Core

/-! ### Taking a command apart -/

/-- `switch_separate_string` of the stub build: at most `n` words, and the buffer with a NUL
behind each. -/
def switchSeparateString (delim : UInt8) : ℕ → List UInt8 → List (List UInt8) × List UInt8
  | 0, p => ([], p)
  | n + 1, p => match strchr p delim with
    | none => ([p], p)
    | some (word, rest) =>
      let r := switchSeparateString delim n rest
      (word :: r.1, word ++ 0 :: r.2)

/-- What is in front of the text of the metadata, and that text. -/
def extractMetadataJson (cmd : CStr) : Option (List UInt8 × List UInt8) :=
  (strchr cmd.bytes 123).map fun r => (r.1, 123 :: r.2)

/-- `argv` and `metadata`. The blanks in front of the metadata are cut off; without any, the
metadata stays in the buffer that is separated. -/
def arguments (separate : List UInt8 → List (List UInt8) × List UInt8) (cmd : CStr) :
    List CStr × Option CStr :=
  match extractMetadataJson cmd with
  | none => ((separate cmd.bytes).1.map .ofBytes, none)
  | some (front, metadata) =>
    if front.getLast? = some 32 then
      ((separate (front.rdropWhile fun c => c = 32)).1.map .ofBytes, some (.ofBytes metadata))
    else
      let r := separate cmd.bytes
      (r.1.map .ofBytes, some (.ofBytes (r.2.drop front.length)))

/-! ### The function of a request -/

/-- What `start_capture` is called with. -/
structure CaptureArgs where
  wsUri : CBuf RTW_MAX_WS_URI
  writeStream : Bool
  stereo : Bool
  sampling : ℤ
  metadata : Option CStr
  deriving DecidableEq

inductive ApiCall
  | stop
  | pause (on : Bool)
  | clear
  | sendMark (name : CStr)
  | status
  | start (args : CaptureArgs)
  deriving DecidableEq

inductive ApiError
  | usage | oom | session | mixType | sampleRate | wsUri | subcommand | failed
  deriving DecidableEq

/-- What is written to the stream. -/
def ApiError.replies : ApiError → List String
  | .usage => ["-USAGE: <uuid> [start|stop|pause|resume|clear|send_mark|status] [ws-url] " ++
      "[mono|mixed|stereo] [8k|16k] [\x7bmetadata-json\x7d]\n"]
  | .oom => ["-ERR oom\n"]
  | .session => ["-ERR cannot locate session\n"]
  | .mixType => ["-ERR invalid mix type\n"]
  | .sampleRate => ["-ERR invalid sample rate\n", "-ERR Operation Failed\n"]
  | .wsUri => ["-ERR invalid ws uri (need ws:// or wss:// with OpenSSL build)\n",
      "-ERR Operation Failed\n"]
  | .subcommand => ["-ERR unknown subcommand\n", "-ERR Operation Failed\n"]
  | .failed => ["-ERR Operation Failed\n"]

/-- Whatever is refused is answered, and no answer can be taken for success. -/
theorem replies_refuse (e : ApiError) :
    e.replies ≠ [] ∧ ∀ reply ∈ e.replies, reply.toList.head? = some '-' := by
  cases e <;> decide +kernel

/-- Whether the mix writes the stream and whether it is stereo. -/
def mixFlags (mix : CStr) : Option (Bool × Bool) :=
  if mix = .lit "mixed" then some (true, false)
  else if mix = .lit "stereo" then some (true, true)
  else if mix = .lit "mono" then some (false, false)
  else none

def samplingOf : Option CStr → ℤ
  | none => 8000
  | some word =>
    if word = .lit "16k" ∨ word = .lit "16000" then 16000
    else if word = .lit "8k" ∨ word = .lit "8000" then 8000
    else atoi word.bytes

section

variable (openssl : Bool)

/-- The branch of `start`, up to the call. -/
def startCommand (argv : List CStr) (metadata : Option CStr) : Except ApiError ApiCall :=
  match argv with
  | _ :: _ :: uri :: mix :: rate =>
    match mixFlags mix with
    | none => .error .mixType
    | some (writeStream, stereo) =>
      if (samplingOf rate.head?).tmod 8000 ≠ 0 then .error .sampleRate
      else match @rtwValidateWsUri openssl RTW_MAX_WS_URI max_uri_pos (some uri) with
        | none => .error .wsUri
        | some wsUri => .ok (.start ⟨wsUri, writeStream, stereo, samplingOf rate.head?, metadata⟩)
  | _ => .error .usage

def subcommand (sub : CStr) (argv : List CStr) (metadata : Option CStr) :
    Except ApiError ApiCall :=
  if caseInsensitiveEq sub (.lit "stop") then .ok .stop
  else if caseInsensitiveEq sub (.lit "pause") ∨ caseInsensitiveEq sub (.lit "resume") then
    .ok (.pause (caseInsensitiveEq sub (.lit "pause")))
  else if caseInsensitiveEq sub (.lit "clear") then .ok .clear
  else if caseInsensitiveEq sub (.lit "send_mark") then
    match argv with
    | _ :: _ :: name :: _ => .ok (.sendMark name)
    | _ => .error .failed
  else if caseInsensitiveEq sub (.lit "status") then .ok .status
  else if caseInsensitiveEq sub (.lit "start") then startCommand openssl argv metadata
  else .error .subcommand

/-- `uuid_realtime_ws_function`, up to the call it makes on the session it located. -/
def uuidRealtimeWsFunction {σ : Type} (separate : List UInt8 → List (List UInt8) × List UInt8)
    (strdup : Bool) (locate : CStr → Option σ) (cmd : Option CStr) :
    Except ApiError (σ × ApiCall) :=
  match cmd with
  | none => .error .usage
  | some cmd =>
    if cmd.bytes = [] then .error .usage
    else if strdup = false then .error .oom
    else
      let a := arguments separate cmd
      match a.1 with
      | uuid :: sub :: _ => match locate uuid with
        | none => .error .session
        | some session => (subcommand openssl sub a.1 a.2).map fun call => (session, call)
      | _ => .error .usage

end

/-! ### Words -/

/-- A blank, the quotes, the backslash and the opening brace. -/
def isSpecial (c : UInt8) : Bool := [32, 34, 39, 92, 123].contains c

/-- A word that no separator takes for anything else. -/
def PlainWord (word : List UInt8) : Prop := word ≠ [] ∧ word.any isSpecial = false

instance (word : List UInt8) : Decidable (PlainWord word) := inferInstanceAs (Decidable (_ ∧ _))

/-- What is asked of `switch_separate_string` with a blank and room for six: plain words with
one blank between them are the words. -/
def Separates (separate : List UInt8 → List (List UInt8) × List UInt8) : Prop :=
  ∀ words : List (List UInt8), words ≠ [] → words.length ≤ 6 → (∀ w ∈ words, PlainWord w) →
    (separate ([32].intercalate words)).1 = words

theorem PlainWord.notMem {word : List UInt8} (h : PlainWord word) {c : UInt8}
    (hc : isSpecial c = true) : c ∉ word := by
  intro hmem
  have hany := List.any_eq_false.mp h.2 c hmem
  exact hany hc

theorem intercalate_cons_cons (sep a b : List UInt8) (words : List (List UInt8)) :
    sep.intercalate (a :: b :: words) = a ++ (sep ++ sep.intercalate (b :: words)) := by
  simp [List.intercalate]

theorem intercalate_singleton (sep a : List UInt8) : sep.intercalate [a] = a := by
  simp [List.intercalate]

/-- The stub separates at each blank. -/
theorem switchSeparateString_words {n : ℕ} {words : List (List UInt8)} (hne : words ≠ [])
    (hlen : words.length ≤ n) (h : ∀ w ∈ words, 32 ∉ w) :
    (switchSeparateString 32 n ([32].intercalate words)).1 = words := by
  induction words generalizing n with
  | nil => exact absurd rfl hne
  | cons a words ih =>
    rw [List.forall_mem_cons] at h
    cases n with
    | zero => cases hlen
    | succ n =>
      cases words with
      | nil =>
        rw [intercalate_singleton, switchSeparateString, strchr_eq_none.mpr h.1]
      | cons b words =>
        have htail := ih (List.cons_ne_nil b words) (Nat.le_of_succ_le_succ hlen) h.2
        rw [intercalate_cons_cons, List.singleton_append, switchSeparateString,
          strchr_append h.1]
        exact congrArg (a :: ·) htail

theorem switchSeparateString_separates : Separates (switchSeparateString 32 6) := by
  intro words hne hlen hplain
  apply switchSeparateString_words hne hlen
  intro w hw
  exact (hplain w hw).notMem (by decide)

theorem notMem_intercalate {c : UInt8} {words : List (List UInt8)} (hc : c ≠ 32)
    (h : ∀ w ∈ words, c ∉ w) : c ∉ ([32] : List UInt8).intercalate words := by
  induction words with
  | nil => simp [List.intercalate]
  | cons a words ih =>
    rw [List.forall_mem_cons] at h
    cases words with
    | nil =>
      rw [intercalate_singleton]
      exact h.1
    | cons b words =>
      rw [intercalate_cons_cons, List.mem_append, List.singleton_append, List.mem_cons]
      rintro (hmem | hmem | hmem)
      · exact h.1 hmem
      · exact hc hmem
      · exact ih h.2 hmem

/-- Blanks behind the words are cut off, and only they. -/
theorem rdropWhile_words {words : List (List UInt8)} (h : ∀ w ∈ words, PlainWord w) (n : ℕ) :
    (([32] : List UInt8).intercalate words ++ List.replicate n 32).rdropWhile (fun c => c = 32) =
      [32].intercalate words := by
  induction n with
  | zero =>
    rw [List.replicate_zero, List.append_nil, List.rdropWhile_eq_self_iff]
    induction words with
    | nil => simp [List.intercalate]
    | cons a words ih =>
      rw [List.forall_mem_cons] at h
      cases words with
      | nil =>
        rw [intercalate_singleton]
        intro hne
        rw [decide_eq_true_iff]
        intro hlast
        exact h.1.notMem (by decide) (hlast ▸ List.getLast_mem hne)
      | cons b words =>
        rw [intercalate_cons_cons]
        intro hne
        have hrest : ([32] : List UInt8).intercalate (b :: words) ≠ [] := by
          intro hnil
          have hb := (h.2 b List.mem_cons_self).1
          cases words with
          | nil => exact hb (by rwa [intercalate_singleton] at hnil)
          | cons c words =>
            rw [intercalate_cons_cons] at hnil
            exact hb (List.append_eq_nil_iff.mp hnil).1
        rw [List.getLast_append_of_ne_nil _ (by simp), List.getLast_append_of_ne_nil _ hrest]
        exact ih h.2 hrest
  | succ n ih =>
    rw [List.replicate_succ', ← List.append_assoc, List.rdropWhile_concat_pos _ _ _ (by simp)]
    exact ih

/-! ### Requests -/

inductive MixType
  | mono | mixed | stereo

def MixType.word : MixType → CStr
  | .mono => .lit "mono"
  | .mixed => .lit "mixed"
  | .stereo => .lit "stereo"

/-- What an operator asks of a session. -/
inductive Request
  | stop
  | pause
  | resume
  | clear
  | sendMark (name : CStr)
  | status
  | start (wsUri : CStr) (mix : MixType) (rate : Option CStr)

/-- The words of a request, behind the uuid. -/
def Request.words : Request → List CStr
  | .stop => [.lit "stop"]
  | .pause => [.lit "pause"]
  | .resume => [.lit "resume"]
  | .clear => [.lit "clear"]
  | .sendMark name => [.lit "send_mark", name]
  | .status => [.lit "status"]
  | .start wsUri mix rate => .lit "start" :: wsUri :: mix.word :: rate.toList

/-- The call a request stands for. -/
def Request.call (metadata : Option CStr) : Request → ApiCall
  | .stop => .stop
  | .pause => .pause true
  | .resume => .pause false
  | .clear => .clear
  | .sendMark name => .sendMark name
  | .status => .status
  | .start wsUri mix rate => .start
    { wsUri := @CBuf.copy RTW_MAX_WS_URI max_uri_pos wsUri
      writeStream := mix.word ≠ .lit "mono"
      stereo := mix.word = .lit "stereo"
      sampling := samplingOf rate
      metadata := metadata }

/-- An address and a rate that the module takes. -/
def Request.Accepted (openssl : Bool) : Request → Prop
  | .start wsUri _ rate =>
    (ascii "ws://" <+: wsUri.bytes ∨ (ascii "wss://" <+: wsUri.bytes ∧ openssl = true)) ∧
      wsUri.bytes.length < RTW_MAX_WS_URI ∧ 8000 ∣ samplingOf rate
  | _ => True

/-- The uuid and the words of a request with a blank between them. -/
def requestText (uuid : CStr) (r : Request) : List UInt8 :=
  ([32] : List UInt8).intercalate ((uuid :: r.words).map CStr.bytes)

/-- The command line of a request; metadata stands behind one or more blanks. -/
def commandLine (uuid : CStr) (r : Request) : Option (ℕ × CStr) → CStr
  | none => .ofBytes (requestText uuid r)
  | some (blanks, metadata) =>
    .ofBytes (requestText uuid r ++ List.replicate (blanks + 1) 32 ++ metadata.bytes)

theorem words_length (r : Request) : r.words.length ≤ 4 := by
  cases r with
  | start wsUri mix rate =>
    have hrate : rate.toList.length ≤ 1 := by cases rate <;> simp
    simp only [Request.words, List.length_cons]
    omega
  | _ => simp [Request.words]

theorem bytes_ofBytes (words : List CStr) : (words.map CStr.bytes).map CStr.ofBytes = words := by
  rw [List.map_map]
  exact (List.map_congr_left fun w _ => CStr.ofBytes_bytes w).trans (List.map_id words)

section

variable {uuid : CStr} {r : Request}

theorem zero_notMem_requestText : 0 ∉ requestText uuid r := by
  apply notMem_intercalate (by decide)
  rw [List.forall_mem_map]
  intro w _
  exact w.noNul

/-- A command line is taken apart into the words and the metadata. -/
theorem arguments_commandLine {separate : List UInt8 → List (List UInt8) × List UInt8}
    (hsep : Separates separate) (hplain : ∀ w ∈ uuid :: r.words, PlainWord w.bytes)
    {metadata : Option (ℕ × CStr)} (hmeta : ∀ m ∈ metadata, m.2.bytes.head? = some 123) :
    arguments separate (commandLine uuid r metadata) =
      (uuid :: r.words, metadata.map Prod.snd) := by
  have hwords : ∀ w ∈ (uuid :: r.words).map CStr.bytes, PlainWord w := by
    rw [List.forall_mem_map]
    exact hplain
  have hlen : ((uuid :: r.words).map CStr.bytes).length ≤ 6 := by
    rw [List.length_map, List.length_cons]
    have := words_length r
    omega
  have hseparated : (separate (requestText uuid r)).1 = (uuid :: r.words).map CStr.bytes :=
    hsep _ (by simp) hlen hwords
  have hbrace : (123 : UInt8) ∉ requestText uuid r := by
    apply notMem_intercalate (by decide)
    intro w hw
    exact (hwords w hw).notMem (by decide)
  cases metadata with
  | none =>
    have hbytes : (commandLine uuid r none).bytes = requestText uuid r :=
      CStr.ofBytes_of_noNul zero_notMem_requestText
    rw [arguments, extractMetadataJson, hbytes, strchr_eq_none.mpr hbrace]
    simp only [Option.map_none, hseparated, bytes_ofBytes]
  | some m =>
    obtain ⟨blanks, metadata⟩ := m
    obtain ⟨rest, hrest⟩ : ∃ rest, metadata.bytes = 123 :: rest := by
      have hhead := hmeta _ rfl
      cases hm : metadata.bytes with
      | nil =>
        rw [hm] at hhead
        cases hhead
      | cons c rest =>
        rw [hm, List.head?_cons, Option.some.injEq] at hhead
        exact ⟨rest, by rw [hhead]⟩
    have hbytes : (commandLine uuid r (some (blanks, metadata))).bytes =
        (requestText uuid r ++ List.replicate (blanks + 1) 32) ++ 123 :: rest := by
      rw [← hrest]
      apply CStr.ofBytes_of_noNul
      simp [zero_notMem_requestText, metadata.noNul]
    have hfront : (123 : UInt8) ∉ requestText uuid r ++ List.replicate (blanks + 1) 32 := by
      simp [hbrace]
    have hlast : (requestText uuid r ++ List.replicate (blanks + 1) 32).getLast? = some 32 := by
      rw [List.replicate_succ', ← List.append_assoc, List.getLast?_concat]
    have hcut : (requestText uuid r ++ List.replicate (blanks + 1) 32).rdropWhile
        (fun c => c = 32) = requestText uuid r := rdropWhile_words hwords _
    rw [arguments, extractMetadataJson, hbytes, strchr_append hfront]
    simp only [Option.map_some, if_pos hlast, hcut, hseparated, bytes_ofBytes, ← hrest,
      CStr.ofBytes_bytes]

end

theorem ofBytes_cons_ne_nil {c : UInt8} (h : c ≠ 0) (rest : List UInt8) :
    (CStr.ofBytes (c :: rest)).bytes ≠ [] := by
  simp [CStr.ofBytes, h]

theorem commandLine_ne_nil {uuid : CStr} {r : Request} (h : uuid.bytes ≠ [])
    (metadata : Option (ℕ × CStr)) : (commandLine uuid r metadata).bytes ≠ [] := by
  obtain ⟨c, cs, hc⟩ := List.exists_cons_of_ne_nil h
  have hzero : c ≠ 0 := by
    rintro rfl
    exact uuid.noNul (hc ▸ List.mem_cons_self)
  obtain ⟨line, hline⟩ : ∃ line, requestText uuid r = c :: line := by
    obtain ⟨sub, rest, hwords⟩ : ∃ sub rest, r.words = sub :: rest := by
      cases r <;> exact ⟨_, _, rfl⟩
    rw [requestText, hwords, List.map_cons, List.map_cons, intercalate_cons_cons, hc]
    exact ⟨_, rfl⟩
  cases metadata with
  | none =>
    rw [commandLine, hline]
    exact ofBytes_cons_ne_nil hzero _
  | some m =>
    rw [commandLine, hline]
    exact ofBytes_cons_ne_nil hzero _

/-! ### Dispatch -/

theorem mixFlags_word (mix : MixType) : mixFlags mix.word =
    some (decide (mix.word ≠ .lit "mono"), decide (mix.word = .lit "stereo")) := by
  cases mix <;> decide

variable {openssl : Bool}

theorem startCommand_request {uuid sub wsUri : CStr} {mix : MixType} {rate metadata : Option CStr}
    (h : (Request.start wsUri mix rate).Accepted openssl) :
    startCommand openssl (uuid :: sub :: wsUri :: mix.word :: rate.toList) metadata =
      .ok ((Request.start wsUri mix rate).call metadata) := by
  obtain ⟨hscheme, hlen, hrate⟩ := h
  have hhead : rate.toList.head? = rate := by cases rate <;> rfl
  have hmod : ¬ (samplingOf rate).tmod 8000 ≠ 0 := not_not.mpr (Int.tmod_eq_zero_of_dvd hrate)
  have huri : @rtwValidateWsUri openssl RTW_MAX_WS_URI max_uri_pos (some wsUri) =
      some (@CBuf.copy RTW_MAX_WS_URI max_uri_pos wsUri) := by
    rw [rtwValidateWsUri, if_neg (by decide), if_pos hscheme, if_neg (Nat.not_le_of_lt hlen)]
  simp only [startCommand, mixFlags_word, hhead, if_neg hmod, huri]
  rfl

theorem subcommand_request (uuid : CStr) (metadata : Option CStr) {r : Request}
    (h : r.Accepted openssl) : ∃ sub rest, r.words = sub :: rest ∧
      subcommand openssl sub (uuid :: r.words) metadata = .ok (r.call metadata) := by
  cases r with
  | start wsUri mix rate =>
    refine ⟨_, _, rfl, ?_⟩
    have hstart : startCommand openssl (uuid :: .lit "start" :: wsUri :: mix.word :: rate.toList)
        metadata = .ok ((Request.start wsUri mix rate).call metadata) := startCommand_request h
    exact hstart
  | _ => exact ⟨_, _, rfl, rfl⟩

/-- A request reaches its function on the session it names, with its arguments; the metadata
may hold blanks, quotes and braces. -/
theorem command_round_trip {separate : List UInt8 → List (List UInt8) × List UInt8}
    (hsep : Separates separate) {σ : Type} {locate : CStr → Option σ} {uuid : CStr} {session : σ}
    (hlocate : locate uuid = some session) {r : Request} (hr : r.Accepted openssl)
    (hplain : ∀ w ∈ uuid :: r.words, PlainWord w.bytes) {metadata : Option (ℕ × CStr)}
    (hmeta : ∀ m ∈ metadata, m.2.bytes.head? = some 123) :
    uuidRealtimeWsFunction openssl separate true locate (some (commandLine uuid r metadata)) =
      .ok (session, r.call (metadata.map Prod.snd)) := by
  have hargs := arguments_commandLine hsep hplain hmeta
  obtain ⟨sub, rest, hwords, hcall⟩ := subcommand_request uuid (metadata.map Prod.snd) hr
  have hne : (commandLine uuid r metadata).bytes ≠ [] :=
    commandLine_ne_nil (hplain uuid List.mem_cons_self).1 metadata
  rw [hwords] at hargs hcall
  unfold uuidRealtimeWsFunction
  dsimp only
  rw [if_neg hne, if_neg Bool.true_eq_false.mp, hargs]
  simp only [hlocate, hcall]
  rfl

def demoRequest : Request := .start (.lit "ws://127.0.0.1:9000/x") .stereo (some (.lit "16k"))

def demoMetadata : CStr := .lit "\x7b\"app\": \x7b\"n\": 1\x7d\x7d"

def demoLocate (uuid : CStr) : Option ℕ := if uuid = .lit "8a2f" then some 0 else none

/-- A start with metadata that holds blanks and braces. -/
theorem command_round_trip_start :
    uuidRealtimeWsFunction false (switchSeparateString 32 6) true demoLocate
      (some (commandLine (.lit "8a2f") demoRequest (some (2, demoMetadata)))) =
        .ok (0, demoRequest.call (some demoMetadata)) := by
  have hr : demoRequest.Accepted false := ⟨Or.inl (by decide), by decide, by decide⟩
  have hplain : ∀ w ∈ .lit "8a2f" :: demoRequest.words, PlainWord w.bytes := by decide
  have hmeta : ∀ m ∈ some (2, demoMetadata), m.2.bytes.head? = some 123 := by decide
  have hlocate : demoLocate (.lit "8a2f") = some 0 := by decide
  exact command_round_trip switchSeparateString_separates hlocate hr hplain hmeta

end RealtimeWs.Mod
