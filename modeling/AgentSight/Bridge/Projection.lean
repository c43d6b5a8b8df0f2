import AgentSight.Bridge.Metadata
import AgentSight.Bridge.Protocol

/-!
# Projection of view rows onto wire rows

`bridge/projection.rs`: the only place where a capture row becomes something the bridge can
transmit. Under `DisclosureMode.metadataOnly` the projection is what removes prompts,
argument vectors, raw paths and raw hosts.
-/

namespace AgentSight.Bridge.Projection

open Json (Value)
open View (AuditEventRow LlmCallRow NetworkTargetRow ProcessNodeRow ResourceSampleRow SessionRow
  TokenUsageRow ToolCallRow)

variable [External]

def field (disclosure : DisclosureMode) (name : String) (value : Option String) : Option String :=
  if disclosure.allowsContentField name then value else none

def jsonField (disclosure : DisclosureMode) (name : String) (value : Value) : Option Value :=
  if !disclosure.allowsContentField name || value.isNull then none else some value

def nonEmpty (value : Option String) : Option String :=
  value.filter fun value => !(Str.trim value).isEmpty

/-- The content part of a row, present when the mode allows any content at all. -/
def contentUnder {α : Type} (disclosure : DisclosureMode) (content : α) : Option α :=
  if disclosure.allowsAnyContent then some content else none

/-- Timestamp basis implied by the row's `viewSource`. -/
def basisForSource (viewSource : String) : TimestampBasis :=
  if viewSource == View.agentNativeSource then .agentNativeTimestamp else .epochMilliseconds

/-- Stable, content-free row id for a network target: a digest of the view's key. -/
def networkTargetRowId (row : NetworkTargetRow) : String :=
  "network:" ++ toString (row.pid.getD 0) ++ ":" ++
    String.ofList ((Metadata.digestHex (View.networkTargetKey row)).toList.take 16)

def sessionCwd (row : SessionRow) : Option String :=
  ((row.attributes.get "cwd").bind (·.asStr)).filter (! ·.isEmpty)

def session (row : SessionRow) (revision : ℕ) (disclosure : DisclosureMode) : BridgeSessionRow :=
  let cwd := sessionCwd row
  { rowId := row.id
    revision
    agentType := row.agentType
    startTsMs := row.startTimestampMs
    endTsMs := row.endTimestampMs
    status := row.status
    model := nonEmpty row.model
    inputTokens := row.inputTokens
    outputTokens := row.outputTokens
    totalTokens := row.totalTokens
    viewSource := row.viewSource
    confidence := row.confidence
    cwdClass := cwd.bind Metadata.cwdClass
    content := contentUnder disclosure { cwd := field disclosure "cwd" cwd } }

def llmCall (row : LlmCallRow) (revision : ℕ) (disclosure : DisclosureMode) : BridgeLlmCallRow where
  rowId := row.id
  revision
  sessionRowId := nonEmpty row.sessionId
  startTsMs := row.startTimestampMs
  endTsMs := row.endTimestampMs
  pid := row.pid
  comm := nonEmpty row.comm
  provider := nonEmpty row.provider
  model := nonEmpty row.model
  callKind := nonEmpty row.callKind
  status := row.status
  errorType := nonEmpty row.errorType
  finishReason := nonEmpty row.finishReason
  statusCode := row.statusCode
  inputTokens := row.inputTokens
  outputTokens := row.outputTokens
  totalTokens := row.totalTokens
  destinationClass := row.host.bind (Metadata.destinationClass · row.provider)
  content := contentUnder disclosure
    { host := field disclosure "host" row.host
      path := field disclosure "path" row.path
      request := jsonField disclosure "request" row.request
      response := jsonField disclosure "response" row.response }

def tokenUsage (row : TokenUsageRow) (revision : ℕ) : BridgeTokenUsageRow where
  rowId := row.id
  revision
  llmCallRowId := if row.llmCallId.isEmpty then none else some row.llmCallId
  tsMs := row.timestampMs
  pid := row.pid
  comm := nonEmpty row.comm
  provider := nonEmpty row.provider
  model := nonEmpty row.model
  inputTokens := row.inputTokens
  outputTokens := row.outputTokens
  cacheCreationTokens := row.cacheCreationTokens
  cacheReadTokens := row.cacheReadTokens
  totalTokens := row.totalTokens
  source := row.source
  viewSource := row.viewSource
  confidence := row.confidence

/-- Coarse semantic category for a framework tool name. -/
def semanticCategory (toolName : Option String) : Option String := do
  let name := Str.trim (← toolName)
  if name.isEmpty then none
  else
    let lower := Str.toAsciiLowercase name
    if ["read", "write", "edit", "multiedit", "notebookedit", "notebookread"].elem lower then
      some "file"
    else if ["bash", "bashoutput", "killshell", "shell", "run_shell_command",
        "execute_command"].elem lower then
      some "shell"
    else if ["grep", "glob", "ls", "search_file_content", "list_directory"].elem lower then
      some "search"
    else if ["webfetch", "websearch", "web_fetch", "google_web_search"].elem lower then
      some "network"
    else if ["task", "agent"].elem lower then some "agent"
    else if ["todowrite", "exitplanmode", "plan"].elem lower then some "planning"
    else some "other"

def toolCall (row : ToolCallRow) (revision : ℕ) (disclosure : DisclosureMode) :
    BridgeToolCallRow where
  rowId := row.id
  revision
  sessionRowId := nonEmpty row.sessionId
  tsMs := row.timestampMs
  toolName := nonEmpty row.toolName
  semanticCategory := semanticCategory row.toolName
  nativeToolCallId := nonEmpty row.toolCallId
  startTsMs := row.startTimestampMs
  endTsMs := row.endTimestampMs
  durationMs := row.durationMs
  status := nonEmpty row.status
  relatedPid := row.relatedPid
  viewSource := row.viewSource
  confidence := row.confidence
  content := contentUnder disclosure
    { input := jsonField disclosure "input" row.input
      output := jsonField disclosure "output" row.output }

def processNode (row : ProcessNodeRow) (revision : ℕ) (disclosure : DisclosureMode) :
    BridgeProcessNodeRow :=
  let basename := (row.command.bind Metadata.executableBasename).or
    (row.argv.head?.bind Metadata.executableBasename)
  let shape := Metadata.argvShape row.argv
  { rowId := row.id
    revision
    pid := row.pid
    startTicks := row.startTicks
    ppid := row.ppid
    rootPid := row.rootPid
    startTsMs := row.startTimestampMs
    endTsMs := row.endTimestampMs
    comm := nonEmpty row.comm
    executableBasename := basename
    commandFingerprint := Metadata.commandFingerprint basename shape
    argvShape := shape
    cwdClass := row.cwd.bind Metadata.cwdClass
    exitCode := row.exitCode
    status := nonEmpty row.status
    viewSource := row.viewSource
    confidence := row.confidence
    content := contentUnder disclosure
      { command := field disclosure "command" row.command
        argv := if disclosure.allowsContentField "argv" then row.argv else []
        cwd := field disclosure "cwd" row.cwd } }

def auditBytesOrCount (row : AuditEventRow) : Option ℤ :=
  ["bytes", "size", "count", "len", "length"].findSome? fun key =>
    (row.details.get key).bind (·.asI64)

def auditEvent (row : AuditEventRow) (disclosure : DisclosureMode) : BridgeAuditEventRow :=
  let target := row.target.filter (! ·.isEmpty)
  let isNetwork := row.auditType == "network" || row.auditType == "llm"
  { rowId := row.id
    tsMs := row.timestampMs
    auditType := row.auditType
    pid := row.pid
    comm := nonEmpty row.comm
    action := nonEmpty row.action
    pathClass := if isNetwork then none else target.bind Metadata.pathClass
    extension := if isNetwork then none else target.bind Metadata.extension
    destinationClass :=
      if isNetwork then target.bind (Metadata.destinationClass · none) else none
    port := if isNetwork then target.bind Metadata.destinationPort else none
    protocol :=
      if isNetwork then
        (target.bind (Str.splitOnce · "://")).map fun (scheme, _) => Str.toAsciiLowercase scheme
      else none
    bytesOrCount := auditBytesOrCount row
    status := nonEmpty row.status
    rawTargetDigest := target.map Metadata.digestHex
    content := contentUnder disclosure
      { subject := field disclosure "subject" row.subject
        target := field disclosure "target" row.target
        summary := field disclosure "summary" row.summary
        details := jsonField disclosure "details" row.details } }

def networkTarget (row : NetworkTargetRow) (revision : ℕ) (disclosure : DisclosureMode) :
    BridgeNetworkTargetRow where
  rowId := networkTargetRowId row
  revision
  pid := row.pid
  comm := nonEmpty row.comm
  destinationClass := (Metadata.destinationClass row.host none).getD "other"
  port := Metadata.destinationPort row.host
  count := row.count
  errorCount := row.errorCount
  firstTsMs := row.firstTimestampMs
  lastTsMs := row.lastTimestampMs
  rawTargetDigest := some (Metadata.digestHex (row.host ++ row.path.getD ""))
  content := contentUnder disclosure
    { host := field disclosure "host" (some row.host)
      path := field disclosure "path" row.path }

def resourceSample (row : ResourceSampleRow) : BridgeResourceSampleRow where
  tsMs := row.timestampMs
  pid := row.pid
  comm := nonEmpty row.comm
  cpuPercent := row.cpuPercent
  rssMb := row.rssMb

end AgentSight.Bridge.Projection
