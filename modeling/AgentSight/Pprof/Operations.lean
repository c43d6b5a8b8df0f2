import AgentSight.Session.Records
import Std.Data.TreeMap.Lemmas

/-!
# The operations of a profile

The samples that `pprof/src/profile.rs` makes of parsed sessions. An operation is a bag of fields
with a value, and each view of a profile has its own operations: the events of the sessions, the
tokens of the responses, the files and the hosts of the tool calls, or the time that passed.
-/

namespace AgentSight.Pprof

open Session (Crates shortHash semanticTaskLabel)
open Std (TreeMap)
open Str

/-! ### Sessions -/

/-- A prompt of a session. -/
structure UserRequest where
  tsMs : Option ℤ
  textHash : String
  preview : String
  tag : String
  taskPath : List String

/-- A tool call with what it touched. -/
structure ToolEvent where
  tsMs : Option ℤ
  promptIndex : ℕ
  toolName : String
  category : String
  command : String
  commandName : String
  effect : String
  processChain : List String
  status : String
  pathGroups : List String
  domains : List String
  callId : Option String
  skill : String
  taskPath : List String

/-- A response with its tokens. -/
structure LlmEvent where
  tsMs : Option ℤ
  promptIndex : ℕ
  model : String
  textHash : String
  preview : String
  inputTokens : ℕ
  outputTokens : ℕ
  cacheTokens : ℕ
  totalTokens : ℕ
  tag : String
  responsePhase : String
  skill : String
  taskPath : List String

/-- A reported count above it is set aside. -/
def maxReportedTokenComponent : ℕ := 10000000

/-- A total above it estimates nothing. -/
def maxEstimatedTokenComponent : ℕ := 2000000

/-- The kinds of token of a response: what it reports, else an estimate. -/
def LlmEvent.tokenComponents (call : LlmEvent) : List (String × ℕ) :=
  let reported := [("input", call.inputTokens), ("output", call.outputTokens),
    ("cache", call.cacheTokens)].filter fun (_, value) =>
      1 ≤ value && value ≤ maxReportedTokenComponent
  let out := if reported.isEmpty && 1 ≤ call.totalTokens &&
      call.totalTokens ≤ maxEstimatedTokenComponent then [("estimate", call.totalTokens)]
    else reported
  if out.isEmpty then [("unknown", 1)] else out

/-- A session has a prompt: `ensure_prompt` gives it one where the transcript has none. -/
structure SessionRecord where
  source : String
  sessionId : String
  userRequests : List UserRequest
  tools : List ToolEvent
  llmCalls : List LlmEvent
  sessionTag : String
  taskTag : String
  prompted : userRequests ≠ []

/-- The prompt at an index, or the last. -/
def SessionRecord.requestByIndex (session : SessionRecord) (index : ℕ) : UserRequest :=
  (session.userRequests[index]?).getD (session.userRequests.getLast session.prompted)

inductive ProfileView where
  | operations
  | tokens
  | files
  | network
  | time
  deriving DecidableEq

/-! ### Fields -/

/-- Fields with lists of values, and what the operation weighs. -/
structure Operation where
  fields : TreeMap String (List String)
  value : ℕ

namespace Operation

def new (value : ℕ) : Operation := { fields := ∅, value }

def values (op : Operation) (key : String) : List String := op.fields.getD key []

/-- No empty value is put into a field. -/
def insert (op : Operation) (key value : String) : Operation :=
  if value = "" then op else { op with fields := op.fields.insert key (op.values key ++ [value]) }

def extend (op : Operation) (key : String) (values : List String) : Operation :=
  values.foldl (fun op value => op.insert key value) op

/-- `BTreeMap::insert` on the fields. -/
def replace (op : Operation) (key : String) (values : List String) : Operation :=
  { op with fields := op.fields.insert key values }

/-- The text that rules are matched against. -/
def searchableText (op : Operation) : String :=
  " ".intercalate (op.fields.toList.flatMap fun (key, values) =>
    values.map fun value => key ++ "=" ++ value)

end Operation

/-- The task of a prompt: that of the session, its own, or a label. -/
def requestTaskPath (session : SessionRecord) (promptIndex : ℕ) : List String :=
  let request := session.requestByIndex promptIndex
  if session.taskTag ≠ "" then [session.taskTag]
  else if request.taskPath ≠ [] then request.taskPath
  else [semanticTaskLabel request.preview]

/-- The task paths with a final answer, a set of which only the members matter. -/
def terminalTaskPaths (session : SessionRecord) : List (List String) :=
  (session.llmCalls.filter (·.responsePhase = "final_answer")).map fun call =>
    if call.taskPath = [] then requestTaskPath session call.promptIndex else call.taskPath

/-- The fields that all samples of a session have. -/
def baseSample (session : SessionRecord) (projectName : String) (promptIndex value : ℕ) :
    Operation :=
  let req := session.requestByIndex promptIndex
  (((Operation.new value).insert "project" projectName).insert "agent" session.source
    |>.insert "session" session.sessionTag
    |>.insert "source_session" session.sessionId
    |>.extend "task" (requestTaskPath session promptIndex)
    |>.insert "skill" "unscoped"
    |>.insert "prompt" req.tag
    |>.insert "prompt_hash" req.textHash
    |>.insert "prompt_preview" req.preview)

/-- An event with a task of its own has that one. -/
def replaceTaskPath (sample : Operation) (taskPath : List String) : Operation :=
  if taskPath = [] then sample
  else Operation.extend { sample with fields := sample.fields.erase "task" } "task" taskPath

def replaceSkillScope (sample : Operation) (skill : String) : Operation :=
  if skill = "" then sample else sample.replace "skill" [skill]

/-- Whether a final answer is at the task, above or below it. -/
def insertTaskOutcome (sample : Operation) (terminalPaths : List (List String)) : Operation :=
  let taskPath := sample.values "task"
  let exact := terminalPaths.any fun terminal => decide (terminal = taskPath)
  let related := terminalPaths.any fun terminal =>
    taskPath.isPrefixOf terminal || terminal.isPrefixOf taskPath
  sample.insert "outcome" (if exact then "source-visible terminal response at exact task"
    else if related then "source-visible terminal response at related task"
    else "no source-visible terminal response for task")

/-! ### Tool calls -/

/-- `str::replace` of a character by another. -/
def replaceChar (text : String) (a b : Char) : String :=
  String.ofList (text.toList.map fun c => if c = a then b else c)

/-- The phase of a call: its effect, category or command. -/
def toolPhaseLabel (event : ToolEvent) : String :=
  if event.effect ≠ "" ∧ event.effect ≠ "process" then event.effect
  else if event.category ≠ "" ∧ event.category ≠ "tool" then event.category
  else if event.commandName ≠ "" ∧ event.commandName ≠ "none" then event.commandName
  else event.toolName

/-- What a call does, in words. -/
def toolActionLabel (event : ToolEvent) : String :=
  let name := toAsciiLowercase event.toolName
  if name = "composite" then "run composite source operation"
  else if contains name "spawn_agent" then "delegate subtask"
  else if contains name "wait_agent" ∨ name = "wait" ∨ contains name "list_agents" then
    "observe subtask"
  else if contains name "send_message" ∨ contains name "followup" then "coordinate subtask"
  else if contains name "interrupt_agent" then "stop subtask"
  else
    match event.effect with
    | "read" => "read or search"
    | "write" => "edit artifact"
    | "test" => "run validation"
    | "network" => "collect external evidence"
    | "repo" => "record repository progress"
    | _ =>
      if event.category = "plan" then "update task plan"
      else if event.category = "subagent" then "coordinate subtask"
      else if event.commandName ≠ "" ∧ event.commandName ≠ "none" then "run " ++ event.commandName
      else replaceChar event.toolName '_' ' '

/-- What a call is about: a path, a host, a command or the tool. -/
def toolObjectLabel (event : ToolEvent) : String :=
  ((event.pathGroups.head?.or event.domains.head?).or
    (if event.commandName ≠ "" ∧ event.commandName ≠ "none" then some event.commandName
    else none)).getD (replaceChar event.toolName '_' ' ')

def toolResultLabel : String → String
  | "ok" | "success" => "completed"
  | "fail" | "error" => "failed"
  | _ => "machine outcome unobserved"

/-- The sample of a tool call. -/
def toolSample [Crates] (session : SessionRecord) (projectName : String) (event : ToolEvent)
    (value : ℕ) : Operation :=
  let sample := baseSample session projectName event.promptIndex value
  let sample := replaceSkillScope (replaceTaskPath sample event.taskPath) event.skill
  let sample := sample.insert "op" "tool"
    |>.insert "phase" (toolPhaseLabel event)
    |>.insert "action" (toolActionLabel event)
    |>.insert "object" (toolObjectLabel event)
    |>.insert "result" (toolResultLabel event.status)
    |>.insert "tool" event.toolName
    |>.insert "category" event.category
    |>.insert "command" event.command
    |>.insert "effect" event.effect
    |>.insert "status" event.status
    |>.extend "call_id" event.callId.toList
    |>.extend "timestamp_ms" (event.tsMs.map toString).toList
  let sample := if event.category = "shell" then sample.insert "cmd" event.commandName else sample
  sample.extend "process" event.processChain
    |>.insert "source_kind" "tool"
    |>.insert "evidence_id" (shortHash (session.sessionId ++ ":tool:" ++
      event.callId.getD "none" ++ ":" ++ toString (event.tsMs.getD 0) ++ ":" ++ event.toolName) 16)

/-- Calls with one signature repeat each other. -/
def toolRepeatSignature (event : ToolEvent) (sample : Operation) : String :=
  "\x1e".intercalate ["\x1f".intercalate (sample.values "task"), event.toolName, event.command,
      "\x1f".intercalate event.pathGroups, "\x1f".intercalate event.domains,
      "\x1f".intercalate (sample.values "action"), "\x1f".intercalate (sample.values "object")]

/-! ### Prompts and responses -/

def llmPhaseLabel (call : LlmEvent) : String :=
  if call.tag ≠ "" ∧ call.tag ≠ "unmatched" then call.tag else "llm"

def llmResultLabel (call : LlmEvent) : String :=
  match call.responsePhase with
  | "final_answer" => "terminal response reported"
  | "commentary" => "progress reported"
  | _ =>
    if call.preview = "token report" ∨ call.preview = "session token summary" then
      "token usage reported"
    else "assistant response reported"

/-- What follows the last slash. -/
def lastModelSegment (model : String) : String :=
  ((split model (· = '/')).getLast?).getD model

/-- The sample of a prompt. The views of operations and of time make it alike, but for the status,
which the latter leaves out. -/
def promptSample [Crates] (session : SessionRecord) (projectName : String) (idx : ℕ)
    (req : UserRequest) (value : ℕ) (status : List String) : Operation :=
  (baseSample session projectName idx value).insert "op" "prompt"
    |>.insert "phase" "prompt"
    |>.insert "action" "state task"
    |>.insert "object" "task request"
    |>.insert "result" "task received"
    |>.extend "status" status
    |>.insert "source_kind" "prompt"
    |>.insert "evidence_id" (shortHash (session.sessionId ++ ":prompt:" ++ req.textHash) 16)
    |>.insert "prompt_hash" req.textHash
    |>.extend "timestamp_ms" (req.tsMs.map toString).toList

/-- The sample of a response. The views of operations, of tokens and of time make it alike, but
for the status and the kind of token. -/
def llmSample [Crates] (session : SessionRecord) (projectName : String) (call : LlmEvent)
    (value : ℕ) (status token : List String) : Operation :=
  let sample := baseSample session projectName call.promptIndex value
  (replaceSkillScope (replaceTaskPath sample call.taskPath) call.skill).insert "op" "llm"
    |>.insert "phase" (llmPhaseLabel call)
    |>.insert "action" "reason or report"
    |>.insert "object" "current task"
    |>.insert "result" (llmResultLabel call)
    |>.insert "call" ("llm/" ++ call.tag)
    |>.insert "llm" call.tag
    |>.insert "llm_preview" call.preview
    |>.insert "model" (lastModelSegment call.model)
    |>.insert "response_phase" call.responsePhase
    |>.insert "response_hash" call.textHash
    |>.extend "timestamp_ms" (call.tsMs.map toString).toList
    |>.extend "status" status
    |>.extend "token" token
    |>.insert "source_kind" "llm"
    |>.insert "evidence_id" (shortHash (session.sessionId ++ ":llm:" ++ call.textHash) 16)

/-! ### The views -/

/-- An event of a session in the view of its operations. -/
structure SampledEvent where
  ts : Option ℤ
  kind : ℕ
  ordinal : ℕ
  toolSignature : Option String
  sample : Operation

/-- The order of the keys `(ts.is_none(), ts.unwrap_or_default(), kind, ordinal)`. -/
def SampledEvent.le (a b : SampledEvent) : Bool :=
  if a.ts.isNone ≠ b.ts.isNone then b.ts.isNone
  else if a.ts.getD 0 ≠ b.ts.getD 0 then a.ts.getD 0 < b.ts.getD 0
  else if a.kind ≠ b.kind then a.kind < b.kind
  else a.ordinal ≤ b.ordinal

/-- The samples in their order, where a call says that it repeats the one just before it. -/
def markRepeats : Option (ℤ × String) → List SampledEvent → List Operation
  | _, [] => []
  | previousTool, event :: events =>
    match event.toolSignature with
    | none => event.sample :: markRepeats none events
    | some signature =>
      let repeated := event.ts.any fun currentTs =>
        previousTool.any fun (previousTs, previous) =>
          previousTs < currentTs && previous = signature
      let sample :=
        if repeated then event.sample.insert "repeat" "consecutive exact repeat"
        else event.sample
      sample :: markRepeats (event.ts.map (·, signature)) events

variable [Crates]

/-- Prompts, calls and responses in the order of time. -/
def operationSamples (session : SessionRecord) (projectName : String) : List Operation :=
  let terminalPaths := terminalTaskPaths session
  let prompts := session.userRequests.zipIdx.map fun (req, idx) =>
    { ts := req.tsMs, kind := 0, ordinal := idx, toolSignature := none,
      sample := insertTaskOutcome (promptSample session projectName idx req 1 ["observed"])
        terminalPaths : SampledEvent }
  let tools := session.tools.zipIdx.map fun (event, idx) =>
    let sample := insertTaskOutcome (toolSample session projectName event 1) terminalPaths
    { ts := event.tsMs, kind := 1, ordinal := idx,
      toolSignature := some (toolRepeatSignature event sample), sample : SampledEvent }
  let calls := session.llmCalls.zipIdx.map fun (call, idx) =>
    { ts := call.tsMs, kind := 2, ordinal := idx, toolSignature := none,
      sample := insertTaskOutcome (llmSample session projectName call 1 ["observed"] [])
        terminalPaths : SampledEvent }
  markRepeats none ((prompts ++ tools ++ calls).insertionSort fun a b => a.le b)

/-- A sample for each kind of token of each response. -/
def tokenSamples (session : SessionRecord) (projectName : String) : List Operation :=
  session.llmCalls.flatMap fun call =>
    call.tokenComponents.map fun (kind, value) =>
      insertTaskOutcome (llmSample session projectName call value [] [kind])
        (terminalTaskPaths session)

/-- A sample for each path group of each call. -/
def fileSamples (session : SessionRecord) (projectName : String) : List Operation :=
  session.tools.flatMap fun event =>
    event.pathGroups.map fun group =>
      insertTaskOutcome (((toolSample session projectName event 1).insert "path" group).replace
        "object" [group]) (terminalTaskPaths session)

/-- A sample for each host of each network call. -/
def networkSamples (session : SessionRecord) (projectName : String) : List Operation :=
  session.tools.flatMap fun event =>
    if event.effect ≠ "network" ∧ event.domains = [] then []
    else
      let domains := if event.domains = [] then ["unknown"] else event.domains
      domains.map fun domain =>
        insertTaskOutcome (((toolSample session projectName event 1).insert "domain" domain).replace
          "object" [domain]) (terminalTaskPaths session)

/-- The difference of two machine integers. -/
def subI64 (a b : ℤ) : ℤ := Int.bmod (a - b) (2 ^ 64)

/-- Each sample lasts until the next. -/
def durations : List (ℤ × Operation) → List Operation
  | [] => []
  | [(_, sample)] => [{ sample with value := 1 }]
  | (ts, sample) :: (nextTs, next) :: events =>
    { sample with value := (max ((subI64 nextTs ts).tdiv 1000) 1).toNat } ::
      durations ((nextTs, next) :: events)

/-- The sort is stable, so that events of one time stay in the order of their ordinals. -/
def timeSamples (session : SessionRecord) (projectName : String) : List Operation :=
  let terminalPaths := terminalTaskPaths session
  let prompts := session.userRequests.zipIdx.filterMap fun (req, idx) =>
    req.tsMs.map fun ts =>
      (ts, insertTaskOutcome (promptSample session projectName idx req 0 []) terminalPaths)
  let tools := session.tools.filterMap fun event =>
    event.tsMs.map fun ts =>
      (ts, insertTaskOutcome (toolSample session projectName event 0) terminalPaths)
  let calls := session.llmCalls.filterMap fun call =>
    call.tsMs.map fun ts =>
      (ts, insertTaskOutcome (llmSample session projectName call 0 [] []) terminalPaths)
  durations ((prompts ++ tools ++ calls).insertionSort fun a b => a.1 ≤ b.1)

/-- The samples of a session in a view. -/
def sessionSamples (session : SessionRecord) (projectName : String) : ProfileView → List Operation
  | .operations => operationSamples session projectName
  | .tokens => tokenSamples session projectName
  | .files => fileSamples session projectName
  | .network => networkSamples session projectName
  | .time => timeSamples session projectName

end AgentSight.Pprof
