import AgentSight.Lib.Counter
import AgentSight.Lib.Interner
import AgentSight.Lib.ParentArena
import AgentSight.Pprof.Operations

/-!
# Profiles and their formats

The rest of `pprof/src/profile.rs`: rules and filters on operations, the frames of a stack, and the
two forms in which a profile is kept and written. The folded output, and with it the JSON document,
walks an arena of stack nodes back to the root; the pprof output takes the stacks that were rendered
when the samples came in, and interns their frames.
-/

namespace AgentSight.Pprof

open Session (Crates)
open Std (TreeMap)
open Str

/-! ### Options -/

/-- `is_valid_frame_name`: lower case, digits, `_` and `-`. -/
def validFrameName (value : String) : Bool :=
  value ≠ "" && value.toList.all fun c => c.isLower || c.isDigit || c = '_' || c = '-'

/-- A name that `validate_frame_name` accepts. -/
structure FrameName where
  name : String
  valid : validFrameName name = true

/-- Why a stack or a name is refused. -/
inductive SpecError where
  | emptyName (what : String)
  | invalidName (what value : String)
  | emptySpec
  deriving DecidableEq

def validateFrameName (value what : String) : Except SpecError FrameName :=
  if value = "" then .error (.emptyName what)
  else if h : validFrameName value = true then .ok ⟨value, h⟩
  else .error (.invalidName what value)

/-- A stack names a frame at least. -/
structure OperationStackSpec where
  frames : List FrameName
  nonempty : frames ≠ []

/-- The frames between commas and semicolons. -/
def parseStackSpec (raw : String) : Except SpecError OperationStackSpec := do
  let parts := ((split raw fun c => c = ',' || c = ';').map trim).filter (· ≠ "")
  let frames ← parts.mapM fun part => validateFrameName part "stack frame"
  if h : frames = [] then .error .emptySpec else .ok ⟨frames, h⟩

/-- The stack of a view where the options name none. -/
def defaultForView (view : ProfileView) : Except SpecError OperationStackSpec :=
  parseStackSpec (match view with
    | .operations => "task,skill,phase,action,object,repeat,result,outcome"
    | .tokens => "task,skill,phase,action,object,repeat,result,outcome,token"
    | .files | .network | .time => "task,skill,phase,action,object,repeat,result,outcome")

/-- A rule with its compiled expression. -/
structure OperationStackRule where
  frame : FrameName
  label : FrameName
  isMatch : String → Bool

/-- A filter on the values of a field, as they are and as `field=value`. -/
structure OperationFilterRule where
  field : FrameName
  isMatch : String → Bool
  negated : Bool

/-- What a profile is asked for. -/
structure OperationStackConfig where
  stack : OperationStackSpec
  fieldRules : List OperationStackRule
  filters : List OperationFilterRule
  rules : List OperationStackRule

/-- The rules in turn; the first that matches claims its field. -/
def applyRules : List OperationStackRule → List String → Operation → Operation
  | [], _, mapped => mapped
  | rule :: rules, claimedFields, mapped =>
    if rule.frame.name ∉ claimedFields ∧ rule.isMatch mapped.searchableText then
      applyRules rules (rule.frame.name :: claimedFields)
        (mapped.replace rule.frame.name [rule.label.name])
    else applyRules rules claimedFields mapped

def applyOperationFieldRules (sample : Operation) (rules : List OperationStackRule) : Operation :=
  applyRules rules [] sample

def OperationFilterRule.matches (filter : OperationFilterRule) (sample : Operation) : Bool :=
  let matched := (sample.values filter.field.name).any fun value =>
    filter.isMatch value || filter.isMatch (filter.field.name ++ "=" ++ value)
  if filter.negated then !matched else matched

/-- All filters let the operation through. -/
def operationMatchesFilters (sample : Operation) (filters : List OperationFilterRule) : Bool :=
  filters.all (·.matches sample)

/-! ### Frames -/

/-- What a frame is cleaned with: the character tables of the standard library, and the name of
the home directory. -/
class Platform where
  /-- `str::to_lowercase`. -/
  toLowercase : String → String
  /-- `char::is_alphanumeric`. -/
  isAlphanumeric : Char → Bool
  currentUsername : Option String
  not_alphanumeric_semicolon : isAlphanumeric ';' = false

/-- The kind and the name of a frame. -/
abbrev Frame := String × String

/-- `str::replace`, for a pattern that is not empty. The first argument is how many characters of
an occurrence are still to be passed over. -/
def replaceFrom (pat new : List Char) : ℕ → List Char → List Char
  | _, [] => []
  | passed + 1, _ :: cs => replaceFrom pat new passed cs
  | 0, c :: cs =>
    if pat.isPrefixOf (c :: cs) then new ++ replaceFrom pat new (pat.length - 1) cs
    else c :: replaceFrom pat new 0 cs

/-- `str::replace`. -/
def replace (text pat new : String) : String :=
  String.ofList (replaceFrom pat.toList new.toList 0 text.toList)

/-- The text names the user, whatever the case. -/
def containsPrivateMarker [Platform] (text : String) : Bool :=
  Platform.currentUsername.any fun name =>
    contains (toAsciiLowercase text) (toAsciiLowercase name)

/-- A text that names the user is replaced as its kind wants. -/
def redactPrivateFrameText [Platform] (text kind : String) : String :=
  if containsPrivateMarker text then
    match kind with
    | "domain" => "private.domain"
    | "path" => "external/home"
    | "process" => "external"
    | _ =>
      match Platform.currentUsername with
      | some name => replace (toAsciiLowercase text) (toAsciiLowercase name) "user"
      | none => text
  else text

/-- The components of a path but for the root and the current directory. -/
def pathComponentStrings (path : String) : List String :=
  (split path (· = '/')).filter fun part => part ≠ "" && part ≠ "."

/-- A long component keeps 45 characters. -/
def truncatePathComponent (part : String) : String :=
  if part.length > 48 then String.ofList (part.toList.take 45) ++ "..." else part

/-- The first two components, three below a known directory. -/
def collapseProjectPath (parts : List String) : String :=
  let parts := (parts.filter fun part => part ≠ "." && part ≠ "").map truncatePathComponent
  match parts with
  | [] => "repo"
  | first :: _ =>
    if first ∈ ["collector", "frontend", "docs", "bpf", "agentpprof", "agent-session"] then
      "/".intercalate (parts.take 3)
    else "/".intercalate (parts.take 2)

/-- An absolute path is cut to its project part. -/
def normalizeFrameText (text kind : String) : String :=
  if kind ≠ "path" then text
  else
    let text := trim text
    let text := trim ((stripPrefix text "path:").getD text)
    if !startsWith text "/" then text
    else
      let collapsed := collapseProjectPath (pathComponentStrings text)
      if collapsed = "repo" then "external/path" else collapsed

/-- The characters of a frame. A run of others becomes one underscore. -/
def cleanChars [Platform] : List Char → List Char → List Char
  | out, [] => out
  | out, c :: cs =>
    if Platform.isAlphanumeric c || "._:/+-".toList.contains c then cleanChars (out ++ [c]) cs
    else if out.getLast? ≠ some '_' then cleanChars (out ++ ['_']) cs
    else cleanChars out cs

/-- `safe_frame` without its prefix. -/
def safeText [Platform] (text kind : String) : String :=
  let text := normalizeFrameText (redactPrivateFrameText text kind) kind
  let out := String.ofList (cleanChars [] (Platform.toLowercase text).toList)
  let trimmed := Session.trimMatches (fun c => c = '_' || c = ';') out
  if trimmed = "" then "unknown" else trimmed

/-- `safe_frame` of a frame with a kind. -/
def safeFrame [Platform] (text kind : String) : String := kind ++ ":" ++ safeText text kind

/-- A label has no kind: no text is redacted or normalized for the empty one. -/
def safeLabel [Platform] (text : String) : String := safeText text ""

def normalizeFoldedFrame [Platform] (frame : String) : String :=
  match stripPrefix frame "path:" with
  | some path => safeFrame path "path"
  | none => frame

/-- The line of a folded stack. -/
def foldedStackFromStrings [Platform] (frames : List String) : String :=
  ";".intercalate ((frames.map normalizeFoldedFrame).filter (· ≠ ""))

def foldedStackFromFrames [Platform] (frames : List Frame) : String :=
  foldedStackFromStrings (frames.map fun (kind, name) => safeFrame name kind)

/-! ### Profiles -/

/-- A frame in the arena; the last of a stack has the value. -/
structure StackNode where
  parent : Option ℕ
  kind : String
  name : String
  value : ℕ

/-- A sample as `write_pprof` takes it, its stack rendered. -/
structure PprofProfileSample where
  stack : String
  value : ℕ
  labels : List (String × String)

/-- The nodes stand in one arena, parents before their children. -/
structure Profile where
  view : ProfileView
  ops : List StackNode
  pprofSamples : List PprofProfileSample
  ordered : ParentArena.Ordered StackNode.parent ops

/-- The nodes of a stack, each below the one before. -/
def pushFrames (last value : ℕ) : ℕ → Option ℕ → List Frame → List StackNode → List StackNode
  | _, _, [], ops => ops
  | idx, parent, (kind, name) :: frames, ops =>
    pushFrames last value (idx + 1) (some ops.length) frames
      (ops ++ [{ parent, kind, name, value := if idx = last then value else 0 }])

/-- Pushed frames stand behind their parents. -/
theorem ordered_pushFrames {last value idx : ℕ} {parent : Option ℕ} {frames : List Frame}
    {ops : List StackNode} (h : ParentArena.Ordered StackNode.parent ops)
    (hparent : ∀ p ∈ parent, p < ops.length) :
    ParentArena.Ordered StackNode.parent (pushFrames last value idx parent frames ops) := by
  induction frames generalizing idx parent ops with
  | nil => exact h
  | cons frame frames ih =>
    refine ih (ParentArena.ordered_concat h hparent) fun p hp => ?_
    obtain rfl := Option.some_inj.mp hp
    simp

namespace Profile

def new (view : ProfileView) : Profile where
  view
  ops := []
  pprofSamples := []
  ordered := ParentArena.ordered_nil

/-- `Profile::sample`: one stack in both forms. -/
def sample [Platform] (profile : Profile) (frames : List Frame) (value : ℕ)
    (labels : List (String × String)) : Profile where
  view := profile.view
  pprofSamples := profile.pprofSamples ++ [{ stack := foldedStackFromFrames frames, value, labels }]
  ops := pushFrames (frames.length - 1) value 0 none frames profile.ops
  ordered := ordered_pushFrames profile.ordered (by simp)

end Profile

/-- What a frame shows: the label of a rule, or the values of the field. -/
def stackFrameValues (name : String) (sample : Operation) (rules : List OperationStackRule) :
    List String :=
  match rules.find? fun rule => rule.frame.name = name && rule.isMatch sample.searchableText with
  | some rule => [rule.label.name]
  | none => sample.values name

/-- The frames of an operation under the stack of the options. -/
def stackFrames (sample : Operation) (options : OperationStackConfig) : List Frame :=
  options.stack.frames.flatMap fun frame =>
    (stackFrameValues frame.name sample options.rules).map fun value => (frame.name, value)

/-- The fields that become labels of a pprof sample. -/
def pprofEvidenceLabelFields : List String :=
  ["project", "agent", "session", "source_kind", "evidence_id", "operation_start_id", "status",
    "response_phase", "outcome", "source_session", "call_id", "prompt_hash", "response_hash",
    "timestamp_ms", "skill"]

def pprofEvidenceLabels [Platform] (operation : Operation) : List (String × String) :=
  pprofEvidenceLabelFields.flatMap fun field =>
    (operation.values field).map fun value => (field, safeLabel value)

/-- The operations that pass the filters, and count. -/
def selectedOperations [Crates] (sessions : List SessionRecord) (projectName : String)
    (view : ProfileView) (options : OperationStackConfig) : List Operation :=
  ((sessions.flatMap fun session => (sessionSamples session projectName view).map
    (applyOperationFieldRules · options.fieldRules)).filter
      (operationMatchesFilters · options.filters)).filter (0 < ·.value)

/-- `build_profile_with_options`. -/
def buildProfileWithOptions [Crates] [Platform] (sessions : List SessionRecord)
    (projectName : String) (view : ProfileView) (options : OperationStackConfig) : Profile :=
  (selectedOperations sessions projectName view options).foldl (fun profile sample =>
      profile.sample (stackFrames sample options) sample.value (pprofEvidenceLabels sample))
    (Profile.new view)

/-! ### The folded output -/

/-- A weight is a machine integer in the code, and the sums of a profile stay far below what one
holds. -/
def foldedAdd [Platform] (counter : TreeMap String ℕ) (frames : List String) (weight : ℕ) :
    TreeMap String ℕ :=
  let stack := foldedStackFromStrings frames
  if stack = "" then counter else Counter.add counter stack (max weight 1)

/-- The frames from the root down to a node. -/
def opFrames [Platform] (ops : List StackNode) (id : ℕ) : List String :=
  ((ParentArena.ancestry StackNode.parent ops id).map fun op => safeFrame op.name op.kind).reverse

/-- The counter of the stacks in an arena. -/
def opsToStacks [Platform] (ops : List StackNode) : TreeMap String ℕ :=
  ops.zipIdx.foldl
    (fun out (op, id) => if op.value = 0 then out else foldedAdd out (opFrames ops id) op.value) ∅

theorem opsToStacks_eq [Platform] (ops : List StackNode) :
    opsToStacks ops = ops.zipIdx.foldl (fun out p => if p.1.value = 0 then out
      else foldedAdd out (opFrames ops p.2) p.1.value) ∅ := rfl

/-- The counter that `write_folded` and the JSON document print. -/
def profileToStacks [Platform] (profile : Profile) : TreeMap String ℕ := opsToStacks profile.ops

/-! ### The pprof output -/

/-- Keys and values are places in the string table. -/
structure PprofLabel where
  key : ℕ
  strValue : ℕ

structure PprofSample where
  locationId : List ℕ
  value : List ℤ
  label : List PprofLabel

structure PprofLine where
  functionId : ℕ
  line : ℤ

structure PprofLocation where
  id : ℕ
  line : List PprofLine

structure PprofFunction where
  id : ℕ
  name : ℕ
  systemName : ℕ
  filename : ℕ

/-- The message, but for the time at which it was made. -/
structure PprofProfile where
  sampleType : ℕ × ℕ
  sample : List PprofSample
  location : List PprofLocation
  function : List PprofFunction
  stringTable : List String

/-- The tables of the message while the samples are written. A frame has the place of its location,
and the ids of locations start at one. -/
structure PprofTables where
  strings : List String
  frameLocations : List String
  functions : List PprofFunction
  locations : List PprofLocation

namespace PprofTables

/-- The string table of a message starts with the empty text. -/
def withPprofRoot : PprofTables where
  strings := [""]
  frameLocations := []
  functions := []
  locations := []

/-- The place of a text in the string table, where it is put if it is new. -/
def intern (tables : PprofTables) (value : String) : PprofTables × ℕ :=
  let (strings, place) := Interner.intern tables.strings value
  ({ tables with strings }, place)

/-- The id of the location of a frame, which is made if it is new. -/
def locate (tables : PprofTables) (filename : ℕ) (frame : String) : PprofTables × ℕ :=
  match tables.frameLocations.idxOf? frame with
  | some place => (tables, place + 1)
  | none =>
    let id := tables.frameLocations.length + 1
    let (strings, name) := Interner.intern tables.strings frame
    ({ strings
       frameLocations := tables.frameLocations ++ [frame]
       functions := tables.functions ++ [{ id, name, systemName := name, filename }]
       locations := tables.locations ++ [{ id, line := [{ functionId := id, line := 0 }] }] }, id)

def locateAll (filename : ℕ) : PprofTables → List String → PprofTables × List ℕ
  | tables, [] => (tables, [])
  | tables, frame :: frames =>
    let (tables, id) := tables.locate filename frame
    let (tables, ids) := locateAll filename tables frames
    (tables, id :: ids)

def internLabels : PprofTables → List (String × String) → PprofTables × List PprofLabel
  | tables, [] => (tables, [])
  | tables, (key, value) :: labels =>
    let (tables, key) := tables.intern key
    let (tables, strValue) := tables.intern value
    let (tables, labels) := internLabels tables labels
    (tables, { key, strValue } :: labels)

end PprofTables

def i64Max : ℕ := 2 ^ 63 - 1

/-- `i64::try_from(value).unwrap_or(i64::MAX)`. -/
def toI64 (value : ℕ) : ℤ := min value i64Max

/-- One sample of the message, the leaf of its stack first. -/
def writeSample (filename : ℕ) (viewLabel : PprofLabel) (tables : PprofTables)
    (sample : PprofProfileSample) : PprofTables × PprofSample :=
  let frames := ((split sample.stack (· = ';')).filter (· ≠ "")).reverse
  let (tables, locationId) := tables.locateAll filename frames
  let (tables, labels) := tables.internLabels sample.labels
  (tables, { locationId, value := [toI64 sample.value], label := viewLabel :: labels })

def writeSamples (filename : ℕ) (viewLabel : PprofLabel) :
    PprofTables → List PprofProfileSample → PprofTables × List PprofSample
  | tables, [] => (tables, [])
  | tables, sample :: samples =>
    let (tables, written) := writeSample filename viewLabel tables sample
    let (tables, rest) := writeSamples filename viewLabel tables samples
    (tables, written :: rest)

/-- The name of a view, its sample type and its unit. -/
def viewMetadata : ProfileView → String × String × String
  | .operations => ("operations", "operations", "count")
  | .tokens => ("tokens", "tokens", "count")
  | .files => ("files", "file_events", "count")
  | .network => ("network", "network_events", "count")
  | .time => ("time", "duration", "seconds")

/-- `write_pprof` up to the encoding of the message. -/
def writePprofProjection (projection : Profile) : PprofProfile :=
  let (name, sampleType, unit) := viewMetadata projection.view
  let (tables, type) := PprofTables.withPprofRoot.intern sampleType
  let (tables, unit) := tables.intern unit
  let (tables, key) := tables.intern "view"
  let (tables, strValue) := tables.intern name
  let (tables, filename) := tables.intern "agentpprof"
  let (tables, sample) := writeSamples filename { key, strValue } tables projection.pprofSamples
  { sampleType := (type, unit), sample, location := tables.locations, function := tables.functions,
    stringTable := tables.strings }

end AgentSight.Pprof
