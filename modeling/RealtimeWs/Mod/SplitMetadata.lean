import RealtimeWs.Core.MessageRound
import RealtimeWs.Mod.Metadata

/-! The start metadata split with every allocation that can fail: what is left for the
peer, and the block of handshake headers. -/
namespace RealtimeWs.Mod

open RealtimeWs.Core

/-- The allocations of `split_metadata`: the copy of metadata that is no object, the
authorization line, the `i`-th growth of the header block and the printed object. -/
structure SplitAllocs where
  strdup : Bool
  line : Bool
  grow : ℕ → Bool
  print : Bool

/-- What `peer_params_out` is set to: the metadata itself or a printed object. -/
inductive PeerParams
  | raw (metadata : CStr)
  | object (members : List (CStr × Json))
  deriving DecidableEq

structure SplitResult where
  rc : ℤ
  extraHeaders : Option CStr
  peerParams : Option PeerParams

/-- `snprintf` of this text into `size` bytes: what is in front of the terminating NUL. -/
def snprintf (size : ℕ) (text : List UInt8) : List UInt8 := text.take (size - 1)

/-- The loop over `ws_headers`, the next growth being the `i`-th. -/
def appendHeaders (grow : ℕ → Bool) : ℕ → List (CStr × Json) → List UInt8 → Option (List UInt8)
  | _, [], hdr => some hdr
  | i, (key, item) :: items, hdr =>
    match Json.valuestring? (some item) with
    | none => appendHeaders grow i items hdr
    | some val =>
      if grow i = false then none
      else
        let need := hdr.length + key.bytes.length + val.bytes.length + 8
        appendHeaders grow (i + 1) items (hdr ++ snprintf (need - hdr.length)
          (key.bytes ++ ascii ": " ++ val.bytes ++ ascii "\r\n"))

/-- The value of `authorization`, if it is a string and not empty. -/
def authValue (members : List (CStr × Json)) : Option CStr :=
  (Json.valuestring? (cJSONGetObjectItemCaseSensitive (.object members)
    (.lit "authorization"))).filter fun v => v.bytes ≠ []

/-- The members of `ws_headers`, if it is an object. -/
def wsHeaders (members : List (CStr × Json)) : Option (List (CStr × Json)) :=
  Json.members? (cJSONGetObjectItemCaseSensitive (.object members) (.lit "ws_headers"))

def splitMetadataAlloc (io : SplitAllocs) (metadata : Option CStr) : SplitResult :=
  match metadata.filter fun m => m.bytes ≠ [] with
  | none => ⟨0, none, none⟩
  | some metadata =>
    match cJSONParse metadata with
    | some (.object members) =>
      let auth := authValue members
      if auth.isSome ∧ io.line = false then ⟨-1, none, none⟩
      else
        let hdr := match auth with
          | none => []
          | some v => snprintf (v.bytes.length + 32)
              (ascii "Authorization: " ++ v.bytes ++ ascii "\r\n")
        let members := if auth.isSome then
            cJSONDeleteItemFromObject members (.lit "authorization")
          else members
        let headers := wsHeaders members
        match appendHeaders io.grow 0 (headers.getD []) hdr with
        | none => ⟨-1, none, none⟩
        | some hdr =>
          let members := if headers.isSome then
              cJSONDeleteItemFromObject members (.lit "ws_headers")
            else members
          ⟨0, if hdr ≠ [] then some (.ofBytes hdr) else none,
            if members ≠ [] ∧ io.print then some (.object members) else none⟩
    | _ => if io.strdup then ⟨0, none, some (.raw metadata)⟩ else ⟨-1, none, none⟩

/-! ### The header block -/

/-- The line of one member of `ws_headers`. -/
def headerText (member : CStr × Json) : Option (List UInt8) :=
  (Json.valuestring? (some member.2)).map fun val => member.1.bytes ++ ascii ": " ++ val.bytes

def crlf : List UInt8 := [13, 10]

/-- The buffer is grown enough for every line. -/
theorem appendHeaders_eq {grow : ℕ → Bool} {i : ℕ} {items : List (CStr × Json)}
    {hdr out : List UInt8} (h : appendHeaders grow i items hdr = some out) :
    out = hdr ++ (items.filterMap headerText).flatMap (· ++ crlf) := by
  induction items generalizing i hdr with
  | nil =>
    cases h
    exact (List.append_nil _).symm
  | cons item items ih =>
    obtain ⟨key, item⟩ := item
    rw [appendHeaders] at h
    cases hval : Json.valuestring? (some item) with
    | none =>
      have hnone : headerText (key, item) = none := congrArg (Option.map _) hval
      rw [hval] at h
      rw [List.filterMap_cons_none hnone]
      exact ih h
    | some val =>
      have hsome : headerText (key, item) = some (key.bytes ++ ascii ": " ++ val.bytes) :=
        congrArg (Option.map _) hval
      rw [hval] at h
      dsimp only at h
      split_ifs at h
      have hfits : snprintf (hdr.length + key.bytes.length + val.bytes.length + 8 - hdr.length)
          (key.bytes ++ ascii ": " ++ val.bytes ++ ascii "\r\n") =
            key.bytes ++ ascii ": " ++ val.bytes ++ crlf := by
        apply List.take_of_length_le
        have hcolon : (ascii ": ").length = 2 := rfl
        have hend : (ascii "\r\n").length = 2 := rfl
        simp only [List.length_append, hcolon, hend]
        omega
      rw [hfits] at h
      rw [List.filterMap_cons_some hsome, List.flatMap_cons, ← List.append_assoc]
      exact ih h

/-! ### The members left for the peer -/

/-- A string item that is not empty. -/
def isText : Json → Bool
  | .string s => s.bytes ≠ []
  | _ => false

def isObject : Json → Bool
  | .object _ => true
  | _ => false

/-- One of the two deletions: the lookup is exact, the deletion ignores case. -/
def stripMember (test : Json → Bool) (name : CStr) (members : List (CStr × Json)) :
    List (CStr × Json) :=
  if (cJSONGetObjectItemCaseSensitive (.object members) name).any test then
    cJSONDeleteItemFromObject members name
  else members

def peerMembers (members : List (CStr × Json)) : List (CStr × Json) :=
  stripMember isObject (.lit "ws_headers") (stripMember isText (.lit "authorization") members)

theorem authValue_isSome (members : List (CStr × Json)) : (authValue members).isSome =
    (cJSONGetObjectItemCaseSensitive (.object members) (.lit "authorization")).any isText := by
  rw [authValue]
  cases cJSONGetObjectItemCaseSensitive (.object members) (.lit "authorization") with
  | none => rfl
  | some item =>
    cases item with
    | string s =>
      by_cases h : s.bytes = []
      · simp [Json.valuestring?, isText, h]
      · simp [Json.valuestring?, isText, h]
    | _ => rfl

theorem wsHeaders_isSome (members : List (CStr × Json)) : (wsHeaders members).isSome =
    (cJSONGetObjectItemCaseSensitive (.object members) (.lit "ws_headers")).any isObject := by
  rw [wsHeaders]
  cases cJSONGetObjectItemCaseSensitive (.object members) (.lit "ws_headers") with
  | none => rfl
  | some item => cases item <;> rfl

/-- Keys equal up to case. -/
def variants (name : CStr) (members : List (CStr × Json)) : List (CStr × Json) :=
  members.filter fun m => caseInsensitiveEq name m.1

/-- The first member with the key up to case is deleted, if there is one. -/
theorem delete_cases (members : List (CStr × Json)) (name : CStr) :
    (variants name members = [] ∧ cJSONDeleteItemFromObject members name = members) ∨
      ∃ before m after, members = before ++ m :: after ∧ variants name before = [] ∧
        caseInsensitiveEq name m.1 = true ∧
        cJSONDeleteItemFromObject members name = before ++ after := by
  by_cases hany : ∃ m ∈ members, caseInsensitiveEq name m.1 = true
  · obtain ⟨m, hm, heq⟩ := hany
    obtain ⟨a, before, after, hbefore, ha, hsplit, herase⟩ :=
      List.exists_of_eraseP (p := fun m : CStr × Json => caseInsensitiveEq name m.1) hm heq
    exact Or.inr ⟨before, a, after, hsplit, List.filter_eq_nil_iff.mpr hbefore, ha, herase⟩
  · have hnone : ∀ m ∈ members, ¬ caseInsensitiveEq name m.1 = true :=
      fun m hm heq => hany ⟨m, hm, heq⟩
    exact Or.inl ⟨List.filter_eq_nil_iff.mpr hnone, List.eraseP_of_forall_not hnone⟩

/-- A deletion leaves the lookup of a key of another spelling alone. -/
theorem getObjectItem_strip {test : Json → Bool} {name other : CStr}
    (h : caseInsensitiveEq name other = false) (members : List (CStr × Json)) :
    cJSONGetObjectItemCaseSensitive (.object (stripMember test name members)) other =
      cJSONGetObjectItemCaseSensitive (.object members) other := by
  unfold stripMember
  split
  · rcases delete_cases members name with ⟨-, hdel⟩ | ⟨before, m, after, hsplit, -, hm, hdel⟩
    · rw [hdel]
    · have hother : m.1 ≠ other := by
        intro heq
        rw [heq, h] at hm
        cases hm
      rw [hdel, hsplit, cJSONGetObjectItemCaseSensitive, cJSONGetObjectItemCaseSensitive,
        List.find?_append, List.find?_append, List.find?_cons_of_neg (by simpa using hother)]
  · rfl

/-- The lines of the header block. -/
def handshakeLines (members : List (CStr × Json)) : List (List UInt8) :=
  ((authValue members).map fun v => ascii "Authorization: " ++ v.bytes).toList ++
    ((wsHeaders members).getD []).filterMap headerText

theorem zero_notMem_handshakeLines (members : List (CStr × Json)) :
    0 ∉ (handshakeLines members).flatMap (· ++ crlf) := by
  have hplain : 0 ∉ ascii "Authorization: " ∧ 0 ∉ ascii ": " ∧ 0 ∉ crlf := by decide
  intro h0
  obtain ⟨line, hline, h0⟩ := List.mem_flatMap.mp h0
  have h0 : 0 ∈ line := (List.mem_append.mp h0).resolve_right hplain.2.2
  rcases List.mem_append.mp hline with hline | hline
  · obtain ⟨v, -, rfl⟩ := Option.map_eq_some_iff.mp (Option.mem_toList.mp hline)
    exact (List.mem_append.mp h0).elim hplain.1 v.noNul
  · obtain ⟨⟨key, item⟩, -, hitem⟩ := List.mem_filterMap.mp hline
    obtain ⟨val, -, rfl⟩ := Option.map_eq_some_iff.mp hitem
    rcases List.mem_append.mp h0 with h0 | h0
    · exact (List.mem_append.mp h0).elim key.noNul hplain.2.1
    · exact val.noNul h0

/-- The block before the loop over `ws_headers`. -/
def authLine (members : List (CStr × Json)) : List UInt8 :=
  match authValue members with
  | none => []
  | some v => snprintf (v.bytes.length + 32) (ascii "Authorization: " ++ v.bytes ++ ascii "\r\n")

theorem authLine_eq (members : List (CStr × Json)) : authLine members =
    ((authValue members).map fun v => ascii "Authorization: " ++ v.bytes).toList.flatMap
      (· ++ crlf) := by
  rw [authLine]
  cases authValue members with
  | none => rfl
  | some v =>
    have hname : (ascii "Authorization: ").length = 15 := by decide
    have hend : (ascii "\r\n").length = 2 := rfl
    refine (List.take_of_length_le ?_).trans (List.append_nil _).symm
    simp only [List.length_append, hname, hend]
    omega

/-- The metadata of an object, with the two deletions written as one function. -/
theorem splitMetadataAlloc_object {io : SplitAllocs} {metadata : CStr}
    {members : List (CStr × Json)} (hparse : cJSONParse metadata = some (.object members)) :
    splitMetadataAlloc io (some metadata) =
      if (authValue members).isSome ∧ io.line = false then ⟨-1, none, none⟩
      else match appendHeaders io.grow 0 ((wsHeaders members).getD []) (authLine members) with
        | none => ⟨-1, none, none⟩
        | some hdr => ⟨0, if hdr ≠ [] then some (.ofBytes hdr) else none,
            if peerMembers members ≠ [] ∧ io.print then some (.object (peerMembers members))
            else none⟩ := by
  have hne : metadata.bytes ≠ [] := by
    intro hnil
    have hempty : cJSONParse (.lit "") = none := by decide +kernel
    rw [show metadata = .lit "" from CStr.ext hnil, hempty] at hparse
    cases hparse
  have hkeys : caseInsensitiveEq (.lit "authorization") (.lit "ws_headers") = false := by
    decide
  have hfilter : (some metadata).filter (fun m : CStr => m.bytes ≠ []) = some metadata := by
    simp [hne]
  have hauth : (if (authValue members).isSome = true then
      cJSONDeleteItemFromObject members (.lit "authorization") else members) =
        stripMember isText (.lit "authorization") members := by
    rw [authValue_isSome]
    rfl
  have hheaders : wsHeaders (stripMember isText (.lit "authorization") members) =
      wsHeaders members := by
    rw [wsHeaders, getObjectItem_strip hkeys]
    rfl
  have hpeer : (if (wsHeaders members).isSome = true then cJSONDeleteItemFromObject
      (stripMember isText (.lit "authorization") members) (.lit "ws_headers")
      else stripMember isText (.lit "authorization") members) = peerMembers members := by
    rw [← hheaders, wsHeaders_isSome]
    rfl
  rw [splitMetadataAlloc, hfilter]
  simp only [hparse, hauth, hheaders, hpeer]
  rfl

/-- What a call that returns 0 leaves in its two outputs. -/
theorem splitMetadataAlloc_spec {io : SplitAllocs} {metadata : CStr}
    {members : List (CStr × Json)} (hparse : cJSONParse metadata = some (.object members))
    (hrc : (splitMetadataAlloc io (some metadata)).rc = 0) :
    (splitMetadataAlloc io (some metadata)).peerParams =
        (if peerMembers members ≠ [] ∧ io.print then some (.object (peerMembers members))
          else none) ∧
      ((splitMetadataAlloc io (some metadata)).extraHeaders.map CStr.bytes).getD [] =
        (handshakeLines members).flatMap (· ++ crlf) := by
  rw [splitMetadataAlloc_object hparse] at hrc ⊢
  split at hrc
  · cases hrc
  · rename_i hline
    rw [if_neg hline]
    cases hout : appendHeaders io.grow 0 ((wsHeaders members).getD []) (authLine members) with
    | none =>
      rw [hout] at hrc
      cases hrc
    | some hdr =>
      have hdr_eq := appendHeaders_eq hout
      rw [authLine_eq, ← List.flatMap_append, ← handshakeLines] at hdr_eq
      refine ⟨rfl, ?_⟩
      have hbytes : (CStr.ofBytes hdr).bytes = hdr := by
        rw [hdr_eq]
        exact CStr.ofBytes_of_noNul (zero_notMem_handshakeLines members)
      rw [← hdr_eq]
      dsimp only
      split_ifs with hnil
      · exact hbytes
      · exact (not_not.mp hnil).symm

/-! ### When exactly the credentials are removed -/

/-- Every allocation succeeds. -/
def SplitAllocs.plenty : SplitAllocs := ⟨true, true, fun _ => true, true⟩

def PeerParams.text (printNumber : List UInt8 → List UInt8) : PeerParams → CStr
  | .raw metadata => metadata
  | .object members => cJSONPrintUnformatted printNumber (.object members)

theorem flatMap_headerLine (items : List (CStr × Json)) :
    items.flatMap headerLine = (items.filterMap headerText).flatMap (· ++ crlf) := by
  induction items with
  | nil => rfl
  | cons item items ih =>
    rw [List.flatMap_cons, ih, headerLine]
    cases hval : Json.valuestring? (some item.2) with
    | none =>
      have hnone : headerText item = none := congrArg (Option.map _) hval
      rw [List.filterMap_cons_none hnone]
      rfl
    | some val =>
      have hsome : headerText item = some (item.1.bytes ++ ascii ": " ++ val.bytes) :=
        congrArg (Option.map _) hval
      rw [List.filterMap_cons_some hsome, List.flatMap_cons]
      rfl

theorem appendHeaders_plenty (i : ℕ) (items : List (CStr × Json)) (hdr : List UInt8) :
    appendHeaders (fun _ => true) i items hdr = some (hdr ++ items.flatMap headerLine) := by
  have hsome : ∀ i hdr, (appendHeaders (fun _ => true) i items hdr).isSome = true := by
    induction items with
    | nil => exact fun _ _ => rfl
    | cons item items ih =>
      intro i hdr
      rw [appendHeaders]
      split
      · exact ih i hdr
      · exact ih (i + 1) _
  obtain ⟨out, hout⟩ := Option.isSome_iff_exists.mp (hsome i hdr)
  rw [hout, appendHeaders_eq hout, flatMap_headerLine]

/-- Without failing allocations this is the split of the start metadata. -/
theorem splitMetadata_eq (printNumber : List UInt8 → List UInt8) (metadata : Option CStr) :
    splitMetadata printNumber metadata =
      ((splitMetadataAlloc .plenty metadata).extraHeaders,
        (splitMetadataAlloc .plenty metadata).peerParams.map (PeerParams.text printNumber)) := by
  unfold splitMetadata splitMetadataAlloc
  cases metadata.filter fun m => m.bytes ≠ [] with
  | none => rfl
  | some metadata =>
    dsimp only
    cases hparse : cJSONParse metadata with
    | none => rfl
    | some root =>
      cases root with
      | object members =>
        have hline := authLine_eq members
        rw [authLine] at hline
        have hpeer : ∀ ms : List (CStr × Json),
            (if ms ≠ [] then some (cJSONPrintUnformatted printNumber (.object ms)) else none) =
              (if ms ≠ [] ∧ True then some (PeerParams.object ms) else none).map
                (PeerParams.text printNumber) := by
          intro ms
          by_cases hms : ms = [] <;> simp [hms, PeerParams.text]
        simp only [SplitAllocs.plenty, appendHeaders_plenty]
        cases hauth : authValue members with
        | none =>
          rw [authValue] at hauth
          simp only [hauth, hpeer]
          rfl
        | some v =>
          have hfits : snprintf (v.bytes.length + 32)
              (ascii "Authorization: " ++ v.bytes ++ ascii "\r\n") =
                ascii "Authorization: " ++ v.bytes ++ ascii "\r\n" := by
            rw [hauth] at hline
            exact hline.trans (List.append_nil _)
          rw [authValue] at hauth
          simp only [hauth, hfits, hpeer]
          rfl
      | _ => rfl

end RealtimeWs.Mod
