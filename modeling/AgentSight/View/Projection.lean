import AgentSight.View.Materialized
import Mathlib.Algebra.Order.Ring.Unbundled.Rat

/-!
# The view projection

`view/projection.rs`: what one captured event does to the view. An event is normalized,
pending requests past their age are dropped, and the event's resource sample, network target
and its own kind each emit rows; a request waits in its stream's queue until a response takes
it.
-/

namespace AgentSight.View

open Json (Value)

/-- `PENDING_REQUEST_TTL_MS`. -/
def pendingRequestTtlMs : ℕ := 5 * 60 * 1000

/-- `MAX_PENDING_REQUESTS_PER_STREAM`. -/
def maxPendingRequestsPerStream : ℕ := 16

/-! ### Reading a body -/

section Body

variable [External]

/-- `string_at`: the non-empty string at a path of keys, where a key that reads as a number is
an index. -/
def stringAt (value : Value) (path : List String) : Option String :=
  let found := path.foldl (fun current key => current.bind fun v =>
      match Str.parseUnsigned (2 ^ 64 - 1) key with
      | some index => v.getIdx index
      | none => v.get key)
    (some value)
  (found.bind (·.asStr)).filter (! ·.isEmpty)

/-- The string at the first of several paths that leads to one. -/
def firstStringAt (value : Value) (paths : List (List String)) : Option String :=
  paths.findSome? (stringAt value)

/-- The user id that may carry a session. -/
def metadataUserId (body : Value) : Option String :=
  firstStringAt body [["metadata", "user_id"], ["metadata", "userId"]]

/-- The part of a user id after its first `_session_`, up to the next one. -/
def sessionOfUserId (userId : String) : Option String :=
  ((Str.splitOnce userId "_session_").map fun (_, rest) =>
    ((Str.splitOnce rest "_session_").map (·.1)).getD rest).filter (! ·.isEmpty)

/-- `session_id_from_body` with `metadata_user_session_id`, which reads the JSON text of a
user id in turn: `fuel` bounds that nesting. -/
def sessionIdFromBodyWithin (fuel : ℕ) (body : Value) : Option String :=
  (firstStringAt body [["session_id"], ["sessionId"], ["metadata", "session_id"],
    ["metadata", "sessionId"]]).or
  ((metadataUserId body).bind fun userId =>
    (match fuel with
      | 0 => none
      | fuel + 1 => (External.fromStr userId).bind (sessionIdFromBodyWithin fuel)).or
    (sessionOfUserId userId))

/-- A user id inside the JSON text of another is shorter than it, so the length of the
outermost bounds the nesting. -/
def sessionIdFromBody (body : Value) : Option String :=
  sessionIdFromBodyWithin (((metadataUserId body).map (·.length)).getD 0) body

def conversationIdFromBody (body : Value) : Option String :=
  firstStringAt body [["conversation_id"], ["conversationId"], ["metadata", "conversation_id"],
    ["metadata", "conversationId"], ["response", "id"], ["id"], ["message_id"],
    ["message", "id"]]

/-- `finish_reason_from_body` with `finish_reason_from_sse`, which reads the parsed data of the
last SSE event that has a reason: `fuel` bounds that nesting. -/
def finishReasonFromBodyWithin (fuel : ℕ) (body : Value) : Option String :=
  (firstStringAt body [["finish_reason"], ["stop_reason"], ["choices", "0", "finish_reason"],
    ["candidates", "0", "finishReason"]]).or
  (match fuel with
    | 0 => none
    | fuel + 1 =>
      ((body.get "sse_events").bind (·.asArray)).bind fun events =>
        events.reverse.findSome? fun event =>
          (event.get "parsed_data").bind (finishReasonFromBodyWithin fuel))

def finishReasonFromBody (body : Value) : Option String :=
  finishReasonFromBodyWithin body.depth body

def parseValue (text : String) : Value := (External.fromStr text).getD (.string text)

def parseOptionalValue (text : Option String) : Value := (text.map parseValue).getD .null

def responseBodyJson (event : CanonicalEvent) : Option Value :=
  (bodyJson event.attributes).or
    (if event.source == "sse_processor" then some event.attributes else none)

def numberOrString (value : Option Value) : Option ℚ :=
  value.bind fun v => v.asF64.or (v.asStr.bind External.parseF64)

end Body

/-! ### Rows -/

section Rows

variable [External]

def callKindFromPath (path : String) : Option String :=
  if Str.contains path "/v1/responses" || Str.contains path "/codex/responses" then
    some "responses"
  else if Str.contains path "/v1/messages" then some "messages"
  else if Str.contains path "/chat/completions" then some "chat"
  else if Str.contains path ":streamGenerateContent" then some "stream_generate_content"
  else if Str.contains path ":generateContent" then some "generate_content"
  else none

def llmCallStatus (endTimestampMs statusCode : Option ℕ) : String :=
  if endTimestampMs.isNone then "pending"
  else if isErrorStatus statusCode then "error"
  else "complete"

def llmCallRow (id : String) (startTimestampMs : ℕ) (endTimestampMs : Option ℕ) (pid : ℕ)
    (comm : String) (provider model host path : Option String) (statusCode : Option ℕ)
    (requestBody responseBody : Option Value) : LlmCallRow where
  id
  sessionId := (requestBody.bind sessionIdFromBody).or (responseBody.bind sessionIdFromBody)
  conversationId :=
    (requestBody.bind conversationIdFromBody).or (responseBody.bind conversationIdFromBody)
  startTimestampMs
  endTimestampMs
  pid := some pid
  comm := some comm
  provider
  model
  callKind := path.bind callKindFromPath
  status := llmCallStatus endTimestampMs statusCode
  errorType := (statusCode.filter (400 ≤ ·)).map ("http_" ++ toString ·)
  finishReason := responseBody.bind finishReasonFromBody
  host
  path
  statusCode
  inputTokens := 0
  outputTokens := 0
  totalTokens := 0
  request := requestBody.getD .null
  response := responseBody.getD .null

def tokenUsageRow (id llmCallId : String) (timestampMs pid : ℕ)
    (comm provider model : Option String) (usage : TokenUsage) (source : String)
    (confidence : ℚ) : TokenUsageRow where
  id
  llmCallId
  timestampMs
  pid := some pid
  comm
  provider
  model
  inputTokens := usage.inputTokens
  outputTokens := usage.outputTokens
  cacheCreationTokens := usage.cacheCreationTokens
  cacheReadTokens := usage.cacheReadTokens
  totalTokens := usage.totalTokens
  source
  viewSource := "view"
  confidence := some confidence

def observedTokenUsage (input output cacheRead total : ℤ) : TokenUsage where
  inputTokens := input
  outputTokens := output
  cacheReadTokens := cacheRead
  totalOverride := some total

def llmAuditRow (llmCallId : String) (timestampMs pid : ℕ) (comm : String)
    (subject : Option String) (action : String) (target : Option String)
    (status summary : String) (details : Option Value) : AuditEventRow where
  id := "audit-" ++ llmCallId ++ "-" ++ action
  timestampMs
  auditType := "llm"
  pid := some pid
  comm := some comm
  subject
  action := some action
  target
  status := some status
  summary := some summary
  details := details.getD (.object [])

/-- The row a process, file or network audit makes of an event. -/
def auditRow (event : CanonicalEvent) (auditType action status : String)
    (target : Option String) : AuditEventRow where
  id := "audit-" ++ event.eventId
  timestampMs := event.timestampMs
  auditType
  pid := event.pid
  comm := event.comm
  subject := event.comm
  action := some action
  target
  status := some status
  summary := event.summary
  details := event.attributes

def processAuditStatus (action : String) (attributes : Value) : String :=
  if action != "exit" then "observed"
  else
    match (attributes.get "exit_code").bind (·.asI64) with
    | some 0 => "success"
    | some _ => "failure"
    | none => "observed"

def processArgv (attributes : Value) : List String :=
  (((attributes.get "argv").bind (·.asArray)).map (·.filterMap (·.asStr))).getD []

def processCommand (attributes : Value) (argv : List String) : Option String :=
  ((attributes.get "filename").bind (·.asStr)).or
    (((attributes.get "command").bind (·.asStr)).or argv.head?)

/-- `as i32` of a signed integer. -/
def wrapI32 (n : ℤ) : ℤ := (n + 2 ^ 31) % 2 ^ 32 - 2 ^ 31

def processNodeFromEvent (event : CanonicalEvent) (action id : String) : Option ProcessNodeRow := do
  let pid ← event.pid
  let argv := processArgv event.attributes
  some
    { id
      pid
      -- Stamped on the exec event by the process runner; absent on exit events.
      startTicks := (event.attributes.get "start_ticks").bind (·.asU64)
      ppid := event.ppid
      rootPid := none
      startTimestampMs := if action == "exec" then some event.timestampMs else none
      endTimestampMs := if action == "exit" then some event.timestampMs else none
      comm := event.comm
      command := processCommand event.attributes argv
      argv
      cwd := (event.attributes.get "cwd").bind (·.asStr)
      exitCode :=
        if action == "exit" then
          ((event.attributes.get "exit_code").bind (·.asI64)).map wrapI32
        else none
      status := some (processAuditStatus action event.attributes)
      viewSource := "view"
      confidence := event.confidence }

def networkTargetFromEvent (event : CanonicalEvent) : Option NetworkTargetRow := do
  let host ← event.host.filter (! ·.isEmpty)
  some
    { pid := event.pid
      comm := event.comm
      host
      path := event.path.filter (! ·.isEmpty)
      count := 1
      errorCount := if event.kind == .llmError || isErrorStatus event.statusCode then 1 else 0
      firstTimestampMs := some event.timestampMs
      lastTimestampMs := some event.timestampMs }

/-- `v.max(0.0) as i64`: truncated, and at most the largest `i64`. -/
def saturatingI64 (v : ℚ) : ℤ := min (max v 0).floor (2 ^ 63 - 1)

def resourceSampleFromEvent (event : CanonicalEvent) : Option ResourceSampleRow :=
  if event.kind != .resourceSample then none
  else
    let cpu := numberOrString ((event.attributes.get "cpu").bind (·.get "percent"))
    let rssMb := numberOrString ((event.attributes.get "memory").bind (·.get "rss_mb"))
    some
      { timestampMs := event.timestampMs
        pid := event.pid
        comm := event.comm
        cpuPercent := cpu
        rssMb := rssMb.map saturatingI64 }

end Rows

/-! ### Confidences

The `f32` literals of the source, as the rationals they denote after rounding. -/

/-- `0.95`, a response paired by request id. -/
def confidenceById : ℚ := 15938355 / 16777216

/-- `0.75`, a response paired with the only request of its stream. -/
def confidenceOnly : ℚ := 3 / 4

/-- `0.7`, a response paired with the only request that looks like an LLM one. -/
def confidenceUnique : ℚ := 11744051 / 16777216

/-- `0.35`, a response paired with nothing. -/
def confidenceOrphan : ℚ := 11744051 / 33554432

/-- `0.80`. -/
def confidenceTelemetry : ℚ := 13421773 / 16777216

/-- `0.85`. -/
def confidenceStdout : ℚ := 7130317 / 8388608

/-! ### Pending requests -/

/-- Take the request a response answers out of a stream's queue: by request id when the
response has one, else the only one, else the only one that looks like an LLM request. -/
def takeFrom (requests : List PendingRequest) (respRequestId : Option String) :
    Option (PendingRequest × ℚ × List PendingRequest) :=
  match respRequestId with
  | some id => do
    -- A response with an id never falls back to the other two ways.
    let pos ← requests.findIdx? (·.requestId == some id)
    let req ← requests[pos]?
    some (req, confidenceById, requests.eraseIdx pos)
  | none =>
    match requests with
    | [req] => some (req, confidenceOnly, [])
    | _ => do
      let pos ← requests.findIdx? fun req => req.bodyJson.isSome || req.model.isSome
      let req ← requests[pos]?
      if (requests.drop (pos + 1)).any fun req => req.bodyJson.isSome || req.model.isSome then none
      else some (req, confidenceUnique, requests.eraseIdx pos)

def takeMatchingRequest (pending : Pending) (stream : Stream) (resp : CanonicalEvent) :
    Option (PendingRequest × ℚ × Pending) := do
  let requests ← pending stream
  let (req, confidence, requests) ← takeFrom requests resp.requestId
  some (req, confidence,
    Function.update pending stream (if requests.isEmpty then none else some requests))

/-- Drop requests from the front of every queue while they are older than `ttlMs` at `nowMs`,
and the queues this leaves empty. -/
def prunePendingWithin (ttlMs : ℕ) (pending : Pending) (nowMs : ℕ) : Pending := fun stream =>
  let cutoff := nowMs - ttlMs
  (pending stream).bind fun requests =>
    let requests := requests.dropWhile (·.timestampMs < cutoff)
    if requests.isEmpty then none else some requests

def prunePending (pending : Pending) (nowMs : ℕ) : Pending :=
  prunePendingWithin pendingRequestTtlMs pending nowMs

/-- Queue a request on its stream, dropping from the front what exceeds the cap. -/
def pushPending (pending : Pending) (stream : Stream) (req : PendingRequest) : Pending :=
  let requests := (pending stream).getD [] ++ [req]
  Function.update pending stream
    (some (requests.drop (requests.length - maxPendingRequestsPerStream)))

/-! ### LLM events -/

section LlmEvents

variable {σ : Type} [ViewSink σ] [External]

def pendingRequestOf (event : CanonicalEvent) (pid : ℕ) : PendingRequest where
  eventId := event.eventId
  timestampMs := event.timestampMs
  pid
  comm := event.comm.getD ""
  provider := event.provider
  model := event.model
  host := event.host
  path := event.path
  requestId := event.requestId
  bodyJson := bodyJson event.attributes

/-- The provider of a request or response, else the one its host names. -/
def providerOr (provider host : Option String) : Option String :=
  provider.or (host.map providerFromHost)

def emitLlmAudit (llmCallId : String) (timestampMs pid : ℕ) (comm : String)
    (subject : Option String) (action : String) (target : Option String)
    (status summary : String) (details : Option Value) : ViewM σ Unit :=
  emitAuditEvent
    (llmAuditRow llmCallId timestampMs pid comm subject action target status summary details)

/-- The row of a request that has no response yet. -/
def orphanRequestRow (req : PendingRequest) : LlmCallRow :=
  llmCallRow ("llm-" ++ req.eventId) req.timestampMs none req.pid req.comm
    (providerOr req.provider req.host) req.model req.host req.path none req.bodyJson none

def insertOrphanLlmRequest (req : PendingRequest) : ViewM σ Unit := do
  emitLlmAudit ("llm-" ++ req.eventId) req.timestampMs req.pid req.comm req.model "request"
    req.host "orphan_request" "LLM request" req.bodyJson
  emitLlmCall (orphanRequestRow req)

def ingestLlmRequest (event : CanonicalEvent) : ViewM σ Unit :=
  match event.pid, event.tid with
  | some pid, some tid =>
    let req := pendingRequestOf event pid
    if req.bodyJson.isNone && req.model.isNone then pure ()
    else do
      insertOrphanLlmRequest req
      Effectful.update fun v => { v with pending := pushPending v.pending (pid, tid) req }
  | _, _ => pure ()

/-- The row of one tool call seen in a response. -/
def toolCallRow (event : CanonicalEvent) (llmCallId name : String) (toolCallId : Option String)
    (fallbackId : String) (pid : ℕ) (input : Value) (confidence : ℚ) : ToolCallRow where
  id := "tool-" ++ llmCallId ++ "-" ++ toolCallId.getD fallbackId
  sessionId := none
  conversationId := some ("conv-" ++ llmCallId)
  timestampMs := event.timestampMs
  toolName := some name
  toolCallId
  startTimestampMs := some event.timestampMs
  endTimestampMs := none
  durationMs := none
  status := some "observed"
  input
  output := .null
  relatedPid := some pid
  relatedEventId := some event.eventId
  viewSource := "view"
  confidence := some confidence

def ingestOpenaiTools (event : CanonicalEvent) (llmCallId : String) (pid : ℕ)
    (confidence : ℚ) : ViewM σ Unit :=
  let openaiJson := ((event.attributes.get "json_content").bind (·.asStr)).bind External.fromStr
  match (openaiJson.bind (·.get "tool_calls")).bind (·.asArray) with
  | none => pure ()
  | some toolCalls =>
    toolCalls.zipIdx.forM fun (toolCall, idx) =>
      let function := (toolCall.get "function").getD .null
      let name := ((function.get "name").bind (·.asStr)).getD "?"
      let arguments := (function.get "arguments").bind (·.asStr)
      emitToolCall (toolCallRow event llmCallId name ((toolCall.get "id").bind (·.asStr))
        ("openai-tool-" ++ toString idx) pid (parseOptionalValue arguments) confidence)

def ingestSseTool (event : CanonicalEvent) (llmCallId : String) (pid : ℕ) (confidence : ℚ)
    (sse : Value) (idx : ℕ) : ViewM σ Unit :=
  match sse.pointer ["parsed_data", "content_block"] with
  | none => pure ()
  | some block =>
    if (block.get "type").bind (·.asStr) != some "tool_use" then pure ()
    else
      let name := ((block.get "name").bind (·.asStr)).getD "?"
      let inputJson := (block.get "input").map External.valueToString
      emitToolCall (toolCallRow event llmCallId name ((block.get "id").bind (·.asStr))
        ("tool-" ++ toString idx) pid (parseOptionalValue inputJson) confidence)

def ingestSseTools (event : CanonicalEvent) (llmCallId : String) (pid : ℕ)
    (confidence : ℚ) : ViewM σ Unit := do
  ingestOpenaiTools event llmCallId pid confidence
  match (event.attributes.get "sse_events").bind (·.asArray) with
  | none => pure ()
  | some events =>
    events.zipIdx.forM fun (sse, idx) => ingestSseTool event llmCallId pid confidence sse idx

def responseUsage (resp : CanonicalEvent) (responseBody : Option Value) : TokenUsage :=
  if resp.source == "sse_processor" then extractTokenUsageFromSse resp.attributes
  else (responseBody.map extractTokenUsage).getD {}

def ingestResponseUsageAndTools (resp : CanonicalEvent) (llmCallId : String) (pid : ℕ)
    (comm : String) (provider : Option String) (model : String) (responseBody : Option Value)
    (confidence : ℚ) : ViewM σ (Option TokenUsageRow) :=
  let usage := responseUsage resp responseBody
  if usage.isEmpty then do
    ingestSseTools resp llmCallId pid confidence
    pure none
  else do
    let row := tokenUsageRow ("token-" ++ llmCallId) llmCallId resp.timestampMs pid (some comm)
      provider (some model) usage "response_usage" confidence
    emitTokenUsage row
    ingestSseTools resp llmCallId pid confidence
    pure (some row)

/-- Copy the token counts of a usage row, if there is one, into a call row. -/
def LlmCallRow.withUsage (row : LlmCallRow) : Option TokenUsageRow → LlmCallRow
  | none => row
  | some usage =>
    { row with
      inputTokens := usage.inputTokens
      outputTokens := usage.outputTokens
      totalTokens := usage.totalTokens }

def upsertLlmPair (req : PendingRequest) (resp : CanonicalEvent) (confidence : ℚ) :
    ViewM σ Unit := do
  let responseBody := responseBodyJson resp
  let model := (req.model.or ((responseBody.bind extractModel).or resp.model)).getD "unknown"
  let provider := providerOr req.provider req.host
  let llmCallId := "llm-" ++ req.eventId
  let callRow := llmCallRow llmCallId req.timestampMs (some resp.timestampMs) req.pid req.comm
    provider (some model) req.host req.path resp.statusCode req.bodyJson responseBody
  let usage ← ingestResponseUsageAndTools resp llmCallId req.pid req.comm provider model
    responseBody confidence
  emitLlmAudit llmCallId resp.timestampMs req.pid req.comm (some model) "call" req.host
    (if isErrorStatus resp.statusCode then "failure" else "success") "LLM call" responseBody
  emitLlmCall (callRow.withUsage usage)

def insertOrphanLlmResponse (resp : CanonicalEvent) : ViewM σ Unit := do
  let responseBody := responseBodyJson resp
  let model := (resp.model.or (responseBody.bind extractModel)).getD "unknown"
  let provider := providerOr resp.provider resp.host
  let pid := resp.pid.getD 0
  let comm := resp.comm.getD ""
  let llmCallId := "llm-orphan-" ++ resp.eventId
  let callRow := llmCallRow llmCallId resp.timestampMs (some resp.timestampMs) pid comm provider
    (some model) resp.host resp.path resp.statusCode none responseBody
  let usage ← ingestResponseUsageAndTools resp llmCallId pid comm provider model responseBody
    confidenceOrphan
  emitLlmAudit llmCallId resp.timestampMs pid comm (some model) "response" resp.host
    "orphan_response" "LLM response" responseBody
  emitLlmCall (callRow.withUsage usage)

def ingestLlmResponse (event : CanonicalEvent) : ViewM σ Unit :=
  match event.pid with
  | none => pure ()
  | some pid => do
    let taken ← Effectful.transact fun v =>
      match event.tid.bind fun tid => takeMatchingRequest v.pending (pid, tid) event with
      | none => (none, v)
      | some (req, confidence, pending) => (some (req, confidence), { v with pending })
    match taken with
    | some (req, confidence) => upsertLlmPair req event confidence
    | none => insertOrphanLlmResponse event

def hasPendingLlmRequest (pending : Pending) (event : CanonicalEvent) : Bool :=
  match event.pid, event.tid with
  | some pid, some tid => (pending (pid, tid)).any (! ·.isEmpty)
  | _, _ => false

end LlmEvents

/-! ### Agent-specific events -/

section AgentEvents

variable {σ : Type} [ViewSink σ] [External]

def ingestClaudeTelemetryItem (event : CanonicalEvent) (item : Value) (idx : ℕ) : ViewM σ Unit :=
  let pid := event.pid.getD 0
  let comm := event.comm.getD ""
  let message := ((item.get "message").bind (·.asStr)).getD ""
  if message == "tengu_api_success" then
    let input := item.i64Field "input_tokens"
    let output := item.i64Field "output_tokens"
    let cache := item.i64Field "cached_input_tokens"
    let total := input + output + cache
    if total ≤ 0 then pure ()
    else
      let model := ((item.get "model").bind (·.asStr)).getD "unknown"
      let llmCallId := "claude-telemetry-" ++ event.eventId ++ "-" ++ toString idx
      emitTokenUsage (tokenUsageRow ("token-" ++ llmCallId) llmCallId event.timestampMs pid
        (some comm) (some "anthropic") (some model) (observedTokenUsage input output cache total)
        "claude_telemetry" confidenceTelemetry)
  else if message == "tengu_tool_use_success" then
    let toolName := ((item.get "tool_name").bind (·.asStr)).getD "?"
    let durationMs := ((item.get "duration_ms").bind (·.asI64)).map fun d => (d % 2 ^ 64).toNat
    emitToolCall
      { id := "claude-tool-telemetry-" ++ event.eventId ++ "-" ++ toString idx
        sessionId := none
        conversationId := none
        timestampMs := event.timestampMs
        toolName := some toolName
        toolCallId := (item.get "request_id").bind (·.asStr)
        startTimestampMs := durationMs.bind fun d =>
          if d ≤ event.timestampMs then some (event.timestampMs - d) else none
        endTimestampMs := some event.timestampMs
        durationMs
        status := some "completed"
        input := .object []
        output := .object []
        relatedPid := some pid
        relatedEventId := some event.eventId
        viewSource := "view"
        confidence := some (3 / 4) }
  else pure ()

def ingestClaudeTelemetry (event : CanonicalEvent) : ViewM σ Unit :=
  if !Str.contains (event.host.getD "") "datadoghq.com" && event.source != "ssl" then pure ()
  else
    let body := (bodyJson event.attributes).or
      (((event.attributes.get "data").bind (·.asStr)).bind External.fromStr)
    match body with
    | some (.array items) =>
      items.zipIdx.forM fun (item, idx) => ingestClaudeTelemetryItem event item idx
    | _ => pure ()

def ingestGeminiModelStats (event : CanonicalEvent) (model : String) (stats : Value) :
    ViewM σ Unit :=
  let pid := event.pid.getD 0
  let comm := event.comm.getD "gemini"
  let tokens := (stats.get "tokens").getD stats
  let input := max (tokens.i64Field "prompt") (tokens.i64Field "input")
  let output :=
    tokens.i64Field "candidates" + tokens.i64Field "thoughts" + tokens.i64Field "tool"
  let cache := tokens.i64Field "cached"
  let total := max (tokens.i64Field "total") (input + output + cache)
  if total ≤ 0 then pure ()
  else
    let llmCallId :=
      "gemini-stdout-" ++ event.eventId ++ "-" ++ Str.sanitizeAsciiIdentifier model
    emitTokenUsage (tokenUsageRow ("token-" ++ llmCallId) llmCallId event.timestampMs pid
      (some comm) (some "gcp.gen_ai") (some model) (observedTokenUsage input output cache total)
      "gemini_cli_stdout_stats" confidenceStdout)

def ingestGeminiStdioStats (event : CanonicalEvent) : ViewM σ Unit :=
  if event.kind != .stdioMessage && event.kind != .stdioRpc then pure ()
  else
    let obj := ((event.attributes.get "data").bind (·.asStr)).bind External.fromStr
    match (obj.bind (·.pointer ["stats", "models"])).bind (·.asObject) with
    | none => pure ()
    | some models => models.forM fun (model, stats) => ingestGeminiModelStats event model stats

def ingestAgentSpecificEvent (event : CanonicalEvent) : ViewM σ Unit := do
  ingestClaudeTelemetry event
  ingestGeminiStdioStats event

end AgentEvents

/-! ### Audits -/

section Audits

variable {σ : Type} [ViewSink σ] [External]

def processEventName (attributes : Value) : Option String :=
  (attributes.get "event").bind (·.asStr)

def processNetworkAction (attributes : Value) : Option String :=
  (processEventName attributes).bind fun event =>
    if event == "SUMMARY" then (attributes.get "type").bind (·.asStr) else some event

/-- `O_ACCMODE`, and `O_CREAT | O_TRUNC | O_APPEND`. -/
def isWritableOpen (event : CanonicalEvent) : Bool :=
  let flags := (((event.attributes.get "flags").bind (·.asI64)).getD 0 % 2 ^ 64).toNat
  flags &&& 0o3 != 0 || flags &&& (0o100 ||| 0o1000 ||| 0o2000) != 0

def isProcessSummaryWriteEvent (event : CanonicalEvent) : Bool :=
  event.source == "process" && processEventName event.attributes == some "SUMMARY" &&
    (event.attributes.get "type").bind (·.asStr) == some "WRITE"

def isProcessNetworkEvent (event : CanonicalEvent) : Bool :=
  event.source == "process" && (processNetworkAction event.attributes).any (Str.startsWith · "NET_")

/-- The node id of a process: given at its first exec, forgotten at its exit. -/
def processNodeId (event : CanonicalEvent) (action : String) : ViewM σ (Option String) :=
  Effectful.transact fun v =>
    match event.pid with
    | none => (none, v)
    | some pid =>
      let fresh := "process-" ++ toString pid ++ "-" ++ toString event.timestampMs
      let id := (v.activeProcesses pid).getD fresh
      if action == "exec" then
        (some id, { v with activeProcesses := Function.update v.activeProcesses pid (some id) })
      else if action == "exit" then
        (some id, { v with activeProcesses := Function.update v.activeProcesses pid none })
      else (none, v)

def ingestProcessAudit (event : CanonicalEvent) (action : String) : ViewM σ Unit := do
  emitAuditEvent (auditRow event "process" action (processAuditStatus action event.attributes)
    ((event.attributes.get "filename").bind (·.asStr)))
  let id ← processNodeId event action
  match id.bind (processNodeFromEvent event action) with
  | some row => emitProcessNode row
  | none => pure ()

def ingestFileAudit (event : CanonicalEvent) : ViewM σ Unit :=
  emitAuditEvent (auditRow event "file" "write" "observed"
    (((event.attributes.get "path").or (event.attributes.get "filepath")).bind (·.asStr)))

def ingestNetworkAudit (event : CanonicalEvent) : ViewM σ Unit :=
  emitAuditEvent (auditRow event "network"
    ((processNetworkAction event.attributes).getD "network") "observed"
    (((event.attributes.get "detail").or (event.attributes.get "host")).bind (·.asStr)))

end Audits

/-! ### Ingestion -/

section Ingest

variable {σ : Type} [ViewSink σ] [External]

/-- The second half of `ingest`: what the event's kind calls for. -/
def ingestByKind (event : CanonicalEvent) (pending : Pending) : ViewM σ Unit :=
  match event.kind with
  | .llmRequest => ingestLlmRequest event
  | .llmResponse | .llmError => ingestLlmResponse event
  | .httpResponse =>
    if hasPendingLlmRequest pending event then ingestLlmResponse event else pure ()
  | .processExec => ingestProcessAudit event "exec"
  | .processExit => ingestProcessAudit event "exit"
  | .fsOpen => if isWritableOpen event then ingestFileAudit event else pure ()
  | .fsWrite | .fsMutation => ingestFileAudit event
  | .unknown =>
    if isProcessSummaryWriteEvent event then ingestFileAudit event
    else if isProcessNetworkEvent event then ingestNetworkAudit event
    else pure ()
  | _ => pure ()

def ingest (event : CanonicalEvent) : ViewM σ Unit := do
  ingestAgentSpecificEvent event
  let pending ← Effectful.observe (·.pending)
  ingestByKind event pending

/-- The id an event gets when it is the `seq`th of the view. -/
def rawEventId (event : Event) (seq : ℕ) : String :=
  "event-" ++ toString event.timestamp ++ "-" ++ Str.sanitizeAsciiIdentifier event.source ++
    "-" ++ toString event.pid ++ "-" ++ toString seq

/-- The canonical form of the event a view with `seq - 1` events behind it ingests next. -/
def canonicalAt (event : Event) (seq : ℕ) : CanonicalEvent :=
  normalizeEvent event (rawEventId event seq)

/-- Emit the resource sample an event carries, if any. -/
def emitSampleOf (canonical : CanonicalEvent) : ViewM σ Unit :=
  match resourceSampleFromEvent canonical with
  | some sample => emitResourceSample sample
  | none => pure ()

/-- Emit the network target an event reached, if any. -/
def emitTargetOf (canonical : CanonicalEvent) : ViewM σ Unit :=
  match networkTargetFromEvent canonical with
  | some target => emitNetworkTarget target
  | none => pure ()

/-- What `ingest_event` does with an event once it is normalized. -/
def ingestCanonical (canonical : CanonicalEvent) : ViewM σ Unit := do
  Effectful.update fun v => { v with pending := prunePending v.pending canonical.timestampMs }
  emitSampleOf canonical
  emitTargetOf canonical
  ingest canonical

def ingestEvent (event : Event) : ViewM σ Unit := do
  let canonical ← Effectful.transact fun v =>
    (canonicalAt event (v.nextSeq + 1), { v with nextSeq := v.nextSeq + 1 })
  ingestCanonical canonical

end Ingest

end AgentSight.View
