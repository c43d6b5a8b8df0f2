import AgentSight.Bridge.Projection
import AgentSight.Bridge.RawContent

/-!
# Metadata-only projection

A content field of a wire row is populated when the disclosure mode allows the field and the
view row has the raw value (`mem_contentFields_mutation`). Under `metadataOnly` no row has a
`content`, and two view rows that differ only in raw content have the same wire row, up to
the revision and the digests (`noninterference`).

What of the raw content still shows is spelled out in `AgreesInClass` and `AgreesInShape`, of the
raw values themselves: the place of a path, the executable, the shapes of the arguments, the ending
of a file's name, the origin of a destination.
-/

namespace AgentSight.Bridge

open View (AuditEventRow LlmCallRow NetworkTargetRow ProcessNodeRow Row SessionRow ToolCallRow)
open ViewMutation DisclosureMode

/-! ### Content fields -/

/-- The names of the fields that are populated. -/
def populated (fields : List (String × Bool)) : List String :=
  (fields.filter (·.2)).map (·.1)

/-- The populated content fields of the row, `none` when it has no `content`. -/
def ViewMutation.contentFields : ViewMutation → Option (List String)
  | .sessionUpsert row => row.content.map fun content => populated [("cwd", content.cwd.isSome)]
  | .llmCallUpsert row => row.content.map fun content =>
    populated [("host", content.host.isSome), ("path", content.path.isSome),
      ("request", content.request.isSome), ("response", content.response.isSome)]
  | .toolCallUpsert row => row.content.map fun content =>
    populated [("input", content.input.isSome), ("output", content.output.isSome)]
  | .processNodeUpsert row => row.content.map fun content =>
    populated [("command", content.command.isSome), ("argv", !content.argv.isEmpty),
      ("cwd", content.cwd.isSome)]
  | .auditEventInserted row => row.content.map fun content =>
    populated [("subject", content.subject.isSome), ("target", content.target.isSome),
      ("summary", content.summary.isSome), ("details", content.details.isSome)]
  | .networkTargetUpsert row => row.content.map fun content =>
    populated [("host", content.host.isSome), ("path", content.path.isSome)]
  | .tokenUsageUpsert _ | .resourceSampleInserted _ | .captureCapabilityChanged ..
  | .captureGapObserved .. | .rowEvicted .. => none

namespace Projection

variable [External]

/-- The projection of a row of any kind. -/
def mutation (row : Row) (revision : ℕ) (disclosure : DisclosureMode) : ViewMutation :=
  match row with
  | .session row => .sessionUpsert (session row revision disclosure)
  | .llmCall row => .llmCallUpsert (llmCall row revision disclosure)
  | .tokenUsage row => .tokenUsageUpsert (tokenUsage row revision)
  | .toolCall row => .toolCallUpsert (toolCall row revision disclosure)
  | .processNode row => .processNodeUpsert (processNode row revision disclosure)
  | .auditEvent row => .auditEventInserted (auditEvent row disclosure)
  | .networkTarget row => .networkTargetUpsert (networkTarget row revision disclosure)
  | .resourceSample row => .resourceSampleInserted (resourceSample row)

/-- The content fields for which the row has a raw value. -/
def rawFields : Row → List String
  | .session row => populated [("cwd", (sessionCwd row).isSome)]
  | .llmCall row => populated [("host", row.host.isSome), ("path", row.path.isSome),
      ("request", !row.request.isNull), ("response", !row.response.isNull)]
  | .toolCall row => populated [("input", !row.input.isNull), ("output", !row.output.isNull)]
  | .processNode row => populated [("command", row.command.isSome), ("argv", !row.argv.isEmpty),
      ("cwd", row.cwd.isSome)]
  | .auditEvent row => populated [("subject", row.subject.isSome), ("target", row.target.isSome),
      ("summary", row.summary.isSome), ("details", !row.details.isNull)]
  | .networkTarget row => populated [("host", true), ("path", row.path.isSome)]
  | .tokenUsage _ | .resourceSample _ => []

omit [External] in
@[simp]
theorem isSome_field (disclosure : DisclosureMode) (name : String) (value : Option String) :
    (field disclosure name value).isSome =
      (value.isSome && disclosure.allowsContentField name) := by
  rw [field]
  cases disclosure.allowsContentField name <;> simp

omit [External] in
@[simp]
theorem isSome_jsonField (disclosure : DisclosureMode) (name : String) (value : Json.Value) :
    (jsonField disclosure name value).isSome =
      (!value.isNull && disclosure.allowsContentField name) := by
  rw [jsonField]
  cases disclosure.allowsContentField name <;> cases value.isNull <;> rfl

omit [External] in
@[simp]
theorem isEmpty_allowed (disclosure : DisclosureMode) (name : String) (values : List String) :
    (!(if disclosure.allowsContentField name then values else []).isEmpty) =
      (!values.isEmpty && disclosure.allowsContentField name) := by
  cases disclosure.allowsContentField name <;> simp

omit [External] in
theorem allowsAnyContent_of_allows {disclosure : DisclosureMode} {name : String}
    (h : disclosure.allowsContentField name = true) : disclosure.allowsAnyContent = true := by
  cases disclosure with
  | metadataOnly => cases h
  | researchFull => rfl
  | incidentScoped approvalId fieldAllowlist expiresAtMs =>
    cases fieldAllowlist with
    | nil => cases h
    | cons => rfl

omit [External] in
/-- The populated fields that are allowed. -/
theorem populated_allowed (disclosure : DisclosureMode) (fields : List (String × Bool)) :
    populated (fields.map fun entry =>
        (entry.1, entry.2 && disclosure.allowsContentField entry.1)) =
      (populated fields).filter disclosure.allowsContentField := by
  induction fields with
  | nil => rfl
  | cons entry fields ih =>
    obtain ⟨name, present⟩ := entry
    simp only [populated, List.map_cons] at ih ⊢
    cases present
    · simpa using ih
    · cases hallows : disclosure.allowsContentField name <;> simpa [hallows] using ih

/-- Whether rows of the kind have a `content` on the wire. -/
def hasContent : Row → Bool
  | .tokenUsage _ | .resourceSample _ => false
  | _ => true

/-- **What a projection populates**: nothing when the mode allows no content, else the fields
that have a raw value and are allowed. -/
theorem contentFields_mutation (row : Row) (revision : ℕ) (disclosure : DisclosureMode) :
    (mutation row revision disclosure).contentFields =
      if hasContent row && disclosure.allowsAnyContent then
        some ((rawFields row).filter disclosure.allowsContentField)
      else none := by
  cases row with
  | tokenUsage | resourceSample => rfl
  | _ =>
    simp only [mutation, contentFields, session, llmCall, toolCall, processNode,
      auditEvent, networkTarget, contentUnder, rawFields, hasContent, Bool.true_and,
      ← populated_allowed, List.map_cons, List.map_nil]
    cases disclosure.allowsAnyContent <;> simp

theorem mem_contentFields_mutation {row : Row} {revision : ℕ} {disclosure : DisclosureMode}
    {name : String} :
    name ∈ ((mutation row revision disclosure).contentFields).getD [] ↔
      name ∈ rawFields row ∧ disclosure.allowsContentField name = true := by
  rw [contentFields_mutation]
  split_ifs with hcontent
  · rw [Option.getD_some, List.mem_filter]
  · refine iff_of_false (List.not_mem_nil) ?_
    rintro ⟨hraw, hallows⟩
    rw [allowsAnyContent_of_allows hallows] at hcontent
    cases row <;> first | exact hcontent rfl | cases hraw

/-! ### Rows that differ only in raw content -/

/-- The row with its raw content taken out. -/
def withoutContent : Row → Row
  | .session row => .session { row with attributes := .null }
  | .llmCall row => .llmCall { row with path := none, request := .null, response := .null }
  | .tokenUsage row => .tokenUsage row
  | .toolCall row => .toolCall { row with input := .null, output := .null }
  | .processNode row => .processNode { row with command := none, argv := [], cwd := none }
  | .auditEvent row =>
    .auditEvent { row with subject := none, target := none, summary := none, details := .null }
  | .networkTarget row => .networkTarget { row with path := none }
  | .resourceSample row => .resourceSample row

def auditTarget (row : AuditEventRow) : Option String := row.target.filter (! ·.isEmpty)

def isNetwork (row : AuditEventRow) : Bool :=
  row.auditType == "network" || row.auditType == "llm"

/-- The scheme of a URL-shaped target. -/
def targetScheme (target : String) : Option String :=
  (Str.splitOnce target "://").map fun (scheme, _) => Str.toAsciiLowercase scheme

/-- The members of an audit's details that say a count. -/
def countKeys : List String := ["bytes", "size", "count", "len", "length"]

/-- The raw values are of the same class: directories and files lie in the same place, command
lines share their executable, destinations their origin, details their counts. -/
def AgreesInClass : Row → Row → Prop
  | .session row, .session row' => Option.Rel Metadata.SamePlace (sessionCwd row) (sessionCwd row')
  | .processNode row, .processNode row' =>
    Option.Rel Metadata.SharesExecutable row.command row'.command ∧
      row.argv.head? = row'.argv.head? ∧ Option.Rel Metadata.SamePlace row.cwd row'.cwd
  | .auditEvent row, .auditEvent row' =>
    (∀ key ∈ countKeys, row.details.get key = row'.details.get key) ∧
      Option.Rel (if isNetwork row then Metadata.SharesOrigin else Metadata.SamePlace)
        (auditTarget row) (auditTarget row')
  | _, _ => True

/-- The raw values look the same: the arguments of a process have the same shapes, the names of
audited files end in the same way. -/
def AgreesInShape : Row → Row → Prop
  | .processNode row, .processNode row' => Metadata.SameShape row.argv row'.argv
  | .auditEvent row, .auditEvent row' =>
    isNetwork row = false →
      Option.Rel Metadata.SameEnding (auditTarget row) (auditTarget row')
  | _, _ => True

omit [External] in
theorem bind_congr_of_rel {α β : Type} {r : α → α → Prop} {a a' : Option α} {f : α → Option β}
    (h : Option.Rel r a a') (hf : ∀ x y, r x y → f x = f y) : a.bind f = a'.bind f := by
  cases h with
  | some hr => exact hf _ _ hr
  | none => rfl

end Projection

/-- The mutation without the revision and the digests of its row; the row id of a network
target ends in one. -/
def ViewMutation.withoutDigests : ViewMutation → ViewMutation
  | .sessionUpsert row => .sessionUpsert { row with revision := 0 }
  | .llmCallUpsert row => .llmCallUpsert { row with revision := 0 }
  | .tokenUsageUpsert row => .tokenUsageUpsert { row with revision := 0 }
  | .toolCallUpsert row => .toolCallUpsert { row with revision := 0 }
  | .processNodeUpsert row => .processNodeUpsert { row with revision := 0 }
  | .auditEventInserted row =>
    .auditEventInserted { row with rawTargetDigest := row.rawTargetDigest.map fun _ => "" }
  | .networkTargetUpsert row =>
    .networkTargetUpsert { row with
        revision := 0, rowId := "", rawTargetDigest := row.rawTargetDigest.map fun _ => "" }
  | mutation => mutation

namespace Projection

variable [External]

/-- A row has no `content` under `metadataOnly`. -/
theorem contentFields_metadataOnly (row : Row) (revision : ℕ) :
    (mutation row revision .metadataOnly).contentFields = none := by
  rw [contentFields_mutation]
  simp [allowsAnyContent]

/-- The metadata-only projection of a file audit. -/
theorem auditEvent_of_file {row : AuditEventRow} (h : isNetwork row = false) :
    auditEvent row .metadataOnly =
      { rowId := row.id, tsMs := row.timestampMs, auditType := row.auditType, pid := row.pid
        comm := nonEmpty row.comm, action := nonEmpty row.action
        pathClass := (auditTarget row).bind Metadata.pathClass
        extension := (auditTarget row).bind Metadata.extension
        destinationClass := none, port := none, protocol := none
        bytesOrCount := auditBytesOrCount row, status := nonEmpty row.status
        rawTargetDigest := (auditTarget row).map Metadata.digestHex, content := none } := by
  rw [isNetwork] at h
  simp only [auditEvent, h, Bool.false_eq_true, if_false, contentUnder,
    allowsAnyContent]
  rfl

/-- The metadata-only projection of an audit of a destination. -/
theorem auditEvent_of_network {row : AuditEventRow} (h : isNetwork row = true) :
    auditEvent row .metadataOnly =
      { rowId := row.id, tsMs := row.timestampMs, auditType := row.auditType, pid := row.pid
        comm := nonEmpty row.comm, action := nonEmpty row.action
        pathClass := none, extension := none
        destinationClass := (auditTarget row).bind (Metadata.destinationClass · none)
        port := (auditTarget row).bind Metadata.destinationPort
        protocol := (auditTarget row).bind targetScheme
        bytesOrCount := auditBytesOrCount row, status := nonEmpty row.status
        rawTargetDigest := (auditTarget row).map Metadata.digestHex, content := none } := by
  rw [isNetwork] at h
  simp only [auditEvent, h, if_true, contentUnder, Bool.false_eq_true, if_false,
    allowsAnyContent, Option.map_bind]
  rfl

omit [External] in
theorem targetScheme_congr {target target' : String} (h : Metadata.SharesOrigin target target') :
    targetScheme target = targetScheme target' := by
  have hscheme := congrArg (Option.map Str.toAsciiLowercase) (Metadata.splitOnce_congr h)
  rwa [Option.map_map, Option.map_map] at hscheme

/-- Of its target an audit shows the class, of its details a count. -/
theorem auditEvent_congr {row row' : AuditEventRow}
    (hsame : withoutContent (.auditEvent row) = withoutContent (.auditEvent row'))
    (hclass : AgreesInClass (.auditEvent row) (.auditEvent row'))
    (hshape : AgreesInShape (.auditEvent row) (.auditEvent row')) :
    (ViewMutation.auditEventInserted (auditEvent row .metadataOnly)).withoutDigests =
      (ViewMutation.auditEventInserted (auditEvent row' .metadataOnly)).withoutDigests := by
  simp only [withoutContent, Row.auditEvent.injEq, AuditEventRow.mk.injEq, and_true,
    true_and] at hsame
  obtain ⟨hcounts, htarget⟩ := hclass
  have hcount : auditBytesOrCount row = auditBytesOrCount row' := by
    simp only [countKeys, List.forall_mem_cons] at hcounts
    simp only [auditBytesOrCount, List.findSome?_cons, List.findSome?_nil, hcounts]
  have hnet : isNetwork row = isNetwork row' := by rw [isNetwork, isNetwork, hsame.2.2.1]
  have hdigest : ((auditTarget row).map Metadata.digestHex).map (fun _ => "") =
      ((auditTarget row').map Metadata.digestHex).map fun _ => "" := by
    generalize auditTarget row = target at htarget
    generalize auditTarget row' = target' at htarget
    cases htarget <;> rfl
  -- a file tells its extension, a network target its destination, port and scheme
  rcases hkind : isNetwork row' with _ | _
  · rw [hnet, hkind, if_neg Bool.false_ne_true] at htarget
    have hplace := bind_congr_of_rel htarget fun _ _ => Metadata.pathClass_congr
    have hextension := bind_congr_of_rel (hshape (hnet.trans hkind))
      fun _ _ => Metadata.extension_congr
    rw [auditEvent_of_file (hnet.trans hkind), auditEvent_of_file hkind]
    simp [withoutDigests, hsame, hcount, hdigest, hplace, hextension]
  · rw [hnet, hkind, if_pos rfl] at htarget
    have hdestination := bind_congr_of_rel htarget
      fun _ _ h => Metadata.destinationClass_congr h none
    have hport := bind_congr_of_rel htarget fun _ _ => Metadata.destinationPort_congr
    have hscheme := bind_congr_of_rel (f := targetScheme) htarget
      fun _ _ h => targetScheme_congr h
    rw [auditEvent_of_network (hnet.trans hkind), auditEvent_of_network hkind]
    simp [withoutDigests, hsame, hcount, hdigest, hdestination, hport, hscheme]

/-- **Noninterference.** Two rows that differ only in raw content of the same class and shape
have the same metadata-only projection up to revision and digests, and no `content`. -/
theorem noninterference {row row' : Row} (hsame : withoutContent row = withoutContent row')
    (hclass : AgreesInClass row row') (hshape : AgreesInShape row row')
    (revision revision' : ℕ) :
    (mutation row revision .metadataOnly).withoutDigests =
        (mutation row' revision' .metadataOnly).withoutDigests ∧
      (mutation row revision .metadataOnly).contentFields = none := by
  refine ⟨?_, contentFields_metadataOnly row revision⟩
  -- the kind of a row is no content, so the two rows are of one kind
  cases row with
  | session row =>
    cases row' with
    | session row' =>
      simp only [withoutContent, Row.session.injEq, SessionRow.mk.injEq, and_true] at hsame
      have hcwd := bind_congr_of_rel (f := Metadata.cwdClass) hclass
        fun _ _ => Metadata.pathClass_congr
      simp [mutation, session, withoutDigests, hsame, hcwd, contentUnder, allowsAnyContent]
    | _ => cases hsame
  | llmCall row =>
    cases row' with
    | llmCall row' =>
      simp only [withoutContent, Row.llmCall.injEq, LlmCallRow.mk.injEq, and_true] at hsame
      simp [mutation, llmCall, withoutDigests, hsame, contentUnder,
        allowsAnyContent]
    | _ => cases hsame
  | tokenUsage row =>
    cases row' with
    | tokenUsage row' =>
      obtain rfl := Row.tokenUsage.inj hsame
      rfl
    | _ => cases hsame
  | toolCall row =>
    cases row' with
    | toolCall row' =>
      simp only [withoutContent, Row.toolCall.injEq, ToolCallRow.mk.injEq, true_and] at hsame
      simp [mutation, toolCall, withoutDigests, hsame, contentUnder,
        allowsAnyContent]
    | _ => cases hsame
  | processNode row =>
    cases row' with
    | processNode row' =>
      simp only [withoutContent, Row.processNode.injEq, ProcessNodeRow.mk.injEq, true_and] at hsame
      obtain ⟨hcommand, hargv, hcwd⟩ := hclass
      have hbasename := bind_congr_of_rel hcommand fun _ _ => Metadata.executableBasename_congr
      have hclass := bind_congr_of_rel (f := Metadata.cwdClass) hcwd
        fun _ _ => Metadata.pathClass_congr
      have hargs := Metadata.argvShape_of_sameShape hshape
      simp [mutation, processNode, withoutDigests, hsame, hbasename, hargv, hclass, hargs,
        contentUnder, allowsAnyContent]
    | _ => cases hsame
  | auditEvent row =>
    cases row' with
    | auditEvent row' =>
      exact auditEvent_congr hsame hclass hshape
    | _ => cases hsame
  | networkTarget row =>
    cases row' with
    | networkTarget row' =>
      simp only [withoutContent, Row.networkTarget.injEq, NetworkTargetRow.mk.injEq,
        true_and] at hsame
      simp [mutation, networkTarget, withoutDigests, hsame, contentUnder,
        allowsAnyContent]
    | _ => cases hsame
  | resourceSample row =>
    cases row' with
    | resourceSample row' =>
      obtain rfl := Row.resourceSample.inj hsame
      rfl
    | _ => cases hsame

end Projection

/-! ### Two rows -/

namespace Projection

/-- The digests of the strings below. -/
@[reducible]
def fewDigests : External where
  fromStr _ := none
  valueToString _ := ""
  toVec _ := ""
  sha256Hex text :=
    if text = "as-redact/v1\nlogin\ncmd <flag> <arg>" then
      "559e6aa4ced1a66b2644db0ed3de69341eebbbff51735a153feb60895d1a5c37"
    else if text = "/tmp/a.txt" then
      "bdb93d1f15ddf44eca5a6dd305e5de80ce83ea4b3b5e78a6f082cfa07174310d"
    else if text = "/tmp/a.log" then
      "b0c913896239536e25058bc9b75d4f5e03c08b6a07503e124914bd7dbe0090fd"
    else if text = "/tmp/b.txt" then
      "ab12cfdd12066d137013426759b384dc98bdf2f940e8e5ec82ed0ccafe68bd9d"
    else "e3b0c44298fc1c149afbf4c8996fb92427ae41e4649b934ca495991b7852b855"
  parseF64 _ := none

/-- A command line with a password on it. -/
def login (password : String) : Row :=
  .processNode { (default : ProcessNodeRow) with
    command := some ("login --password " ++ password), argv := ["login", "--password", password] }

/-- A write to a file. -/
def wrote (path : String) : Row :=
  .auditEvent { (default : AuditEventRow) with auditType := "file", target := some path }

theorem login_sharesExecutable (password password' : String) :
    Metadata.SharesExecutable ("login --password " ++ password)
      ("login --password " ++ password') := by
  refine .inr ⟨"login".toList, " --password ".toList ++ password.toList,
    " --password ".toList ++ password'.toList, ?_, ?_, ?_, ?_, "login".toList, ?_, ?_⟩
  all_goals simp
  all_goals decide

/-- Two passwords. -/
theorem noninterference_of_passwords :
    (@mutation fewDigests (login "hunter2") 0 .metadataOnly).withoutDigests =
        (@mutation fewDigests (login "swordfish") 1 .metadataOnly).withoutDigests ∧
      (@mutation fewDigests (login "hunter2") 0 .metadataOnly).contentFields = none := by
  refine @noninterference fewDigests (login "hunter2") (login "swordfish") rfl ?_ ?_ 0 1
  · exact ⟨.some (login_sharesExecutable ..), rfl, .none⟩
  · exact .cons rfl (.cons rfl .nil)

/-- **The extension of a file shows** in the metadata-only projection of its audit. -/
theorem extension_interferes :
    ¬∀ (ext : External) (row row' : Row), withoutContent row = withoutContent row' →
      AgreesInClass row row' → ∀ revision,
        @mutation ext row revision .metadataOnly = @mutation ext row' revision .metadataOnly ∧
          (@mutation ext row revision .metadataOnly).contentFields = none := by
  intro h
  have hplace : Metadata.SamePlace "/tmp/a.txt" "/tmp/a.log" := by
    have htmp : Metadata.Under Metadata.tmpPrefixes "/tmp/a.txt" :=
      Metadata.under_iff.mp (by decide)
    have htmp' : Metadata.Under Metadata.tmpPrefixes "/tmp/a.log" :=
      Metadata.under_iff.mp (by decide)
    exact ⟨by decide, iff_of_true htmp htmp', absurd htmp, absurd htmp, absurd htmp⟩
  obtain ⟨hsame, -⟩ := h fewDigests (wrote "/tmp/a.txt") (wrote "/tmp/a.log") rfl
    ⟨fun _ _ => rfl, .some hplace⟩ 0
  revert hsame
  decide

end Projection

end AgentSight.Bridge
