import AgentSight.View.Llm

/-!
# Canonical events

`view/canonical.rs`: the normal form every captured event is brought into before the view
projects it.
-/

namespace AgentSight.View

open Json (Value)

/-- A captured event, with its millisecond timestamp. -/
structure Event where
  timestamp : ℕ
  source : String
  pid : ℕ
  comm : String
  data : Value
  deriving DecidableEq, Inhabited

inductive EventKind where
  | httpRequest
  | httpResponse
  | llmRequest
  | llmResponse
  | llmError
  | processExec
  | processExit
  | fsOpen
  | fsWrite
  | fsMutation
  | stdioMessage
  | stdioRpc
  | resourceSample
  | unknown
  deriving DecidableEq, Inhabited

inductive Severity where
  | debug
  | info
  | warning
  | error
  deriving DecidableEq, Inhabited

structure CanonicalEvent where
  schemaVersion : ℕ
  eventId : String
  timestampMs : ℕ
  source : String
  kind : EventKind
  severity : Severity
  summary : Option String
  pid : Option ℕ
  tid : Option ℕ
  ppid : Option ℕ
  comm : Option String
  host : Option String
  method : Option String
  path : Option String
  statusCode : Option ℕ
  provider : Option String
  model : Option String
  requestId : Option String
  confidence : Option ℚ
  attributes : Value
  deriving DecidableEq, Inhabited

/-! ### Request ids -/

/-- The header names a request id is taken from, in order of preference. -/
def requestIdHeaders : List String :=
  ["request-id", "x-request-id", "x-correlation-id", "x-amzn-requestid", "x-amzn-request-id",
    "x-goog-request-id", "x-openai-request-id", "anthropic-request-id"]

def headerValue (headers : List (String × Value)) (name : String) : Option String :=
  headers.findSome? fun (key, value) =>
    if Str.eqIgnoreAsciiCase key name then value.asStr else none

def extractRequestId (data : Value) : Option String :=
  let direct := ((data.get "request_id").or
    ((data.get "requestId").or (data.get "requestID"))).bind (·.asStr)
  match direct with
  | some id => some id
  | none => do
    let headers ← (← data.get "headers").asObject
    requestIdHeaders.findSome? (headerValue headers)

/-! ### Summaries -/

def processExitSummary (data : Value) : Option String := do
  let exitCode ← (data.get "exit_code").bind (·.asI64)
  let summary := "exit code " ++ toString exitCode
  match (data.get "duration_ms").bind (·.asU64) with
  | some durationMs => some (summary ++ " (" ++ toString durationMs ++ "ms)")
  | none => some summary

def buildSummary (kind : EventKind) (method host path : Option String)
    (statusCode : Option ℕ) (data : Value) : Option String :=
  match kind with
  | .llmRequest | .httpRequest =>
    some (method.getD "HTTP" ++ " " ++ host.getD "" ++ path.getD "")
  | .llmResponse | .httpResponse | .llmError =>
    some ("HTTP " ++ (statusCode.map toString).getD "response")
  | .processExec => ((data.get "filename").bind (·.asStr)).map ("exec " ++ ·)
  | .processExit => (processExitSummary data).or (some "process exit")
  | .fsOpen | .fsWrite | .fsMutation =>
    (((data.get "path").or (data.get "filepath")).bind (·.asStr)).map ("file " ++ ·)
  | .stdioMessage => ((data.get "stream").bind (·.asStr)).map (· ++ " output")
  | _ => none

/-! ### Normalization -/

/-- The model named by the first SSE event that names one. An event without parsed data ends
the search. -/
def extractSseModelFrom : List Value → Option String
  | [] => none
  | event :: events =>
    match event.get "parsed_data" with
    | none => none
    | some parsed =>
      let model := (((parsed.get "message").bind (·.get "model")).bind (·.asStr)).or
        (((parsed.get "modelVersion").bind (·.asStr)).or ((parsed.get "model").bind (·.asStr)))
      match model with
      | some model => some model
      | none => extractSseModelFrom events

def extractSseModel (data : Value) : Option String := do
  let events ← (← data.get "sse_events").asArray
  extractSseModelFrom events

/-- Whether a status code is an HTTP error. -/
def isErrorStatus (statusCode : Option ℕ) : Bool := statusCode.any (400 ≤ ·)

def eventHost (data : Value) : Option String :=
  ((data.get "host").bind (·.asStr)).or
    ((((data.get "headers").bind (·.get "host")).bind (·.asStr)).or
      (((data.get "headers").bind (·.get ":authority")).bind (·.asStr)))

def processEventKind (eventName : String) : EventKind :=
  if eventName == "EXEC" then .processExec
  else if eventName == "EXIT" then .processExit
  else if Str.contains eventName "FILE_OPEN" then .fsOpen
  else if Str.contains eventName "FILE_WRITE" then .fsWrite
  else if Str.contains eventName "FILE_" then .fsMutation
  else .unknown

/-- The kind `normalize_event` gives an event, from its source, its message type, whether its
path or body is an LLM one and its status code. -/
def eventKind (source : String) (data : Value) (pathIsLlm bodyIsLlm : Bool)
    (statusCode : Option ℕ) : EventKind :=
  if source == "http_parser" then
    match (data.get "message_type").bind (·.asStr) with
    | some "request" => if pathIsLlm then .llmRequest else .httpRequest
    | some "response" =>
      if pathIsLlm || bodyIsLlm then
        if isErrorStatus statusCode then .llmError else .llmResponse
      else .httpResponse
    | _ => .unknown
  else if source == "sse_processor" then .llmResponse
  else if source == "process" then
    processEventKind (((data.get "event").bind (·.asStr)).getD "")
  else if source == "stdio" || source == "stdiocap" then
    if (data.get "rpc_method").isSome then .stdioRpc else .stdioMessage
  else if source == "system" then .resourceSample
  else .unknown

def eventSeverity (source : String) (data : Value) (statusCode : Option ℕ) : Severity :=
  if source == "http_parser" && (data.get "message_type").bind (·.asStr) == some "response" &&
      isErrorStatus statusCode then .error
  else if source == "system" && ((data.get "alert").bind (·.asBool)).getD false then .warning
  else .info

variable [External]

def normalizeEvent (event : Event) (rawEventId : String) : CanonicalEvent :=
  let data := event.data
  let method := (data.get "method").bind (·.asStr)
  let path := (data.get "path").bind (·.asStr)
  let statusCode := ((data.get "status_code").bind (·.asU64)).map (· % 2 ^ 16)
  let host := eventHost data
  let body := bodyJson data
  let model := (body.bind extractModel).or (path.bind extractModelFromPath)
  let model := if event.source == "sse_processor" then model.or (extractSseModel data) else model
  let pathIsLlm := path.any isLlmPath
  let bodyIsLlm := body.any fun body =>
    (extractModel body).isSome || !(extractTokenUsage body).isEmpty
  let kind := eventKind event.source data pathIsLlm bodyIsLlm statusCode
  -- A plain HTTP request may carry its method and path in its first line only.
  let firstLine := ((data.get "first_line").bind (·.asStr)).map Str.splitWhitespace
  let method :=
    if method.isNone && kind == .httpRequest then firstLine.bind (·[0]?) else method
  let path := if path.isNone && kind == .httpRequest then firstLine.bind (·[1]?) else path
  { schemaVersion := 1
    eventId := "canon-" ++ rawEventId
    timestampMs := event.timestamp
    source := event.source
    kind
    severity := eventSeverity event.source data statusCode
    summary := buildSummary kind method host path statusCode data
    pid := some event.pid
    tid := (data.get "tid").bind (·.asU64)
    ppid := ((data.get "ppid").bind (·.asU64)).map (· % 2 ^ 32)
    comm := some event.comm
    host
    method
    path
    statusCode
    provider := host.map providerFromHost
    model
    requestId := extractRequestId data
    confidence := some (3 / 4)
    attributes := data }

section Fields

variable (event : Event) (rawEventId : String)

@[simp] theorem normalizeEvent_eventId :
    (normalizeEvent event rawEventId).eventId = "canon-" ++ rawEventId := rfl

end Fields

end AgentSight.View
