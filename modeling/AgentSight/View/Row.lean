import AgentSight.Json

/-!
# View rows

The rows of `model.rs` that the materialized view keeps. As on the wire, `u16`, `u32` and
`u64` are `ℕ`, the signed counters are `ℤ` and a floating point field is the exact rational
it holds.
-/

namespace AgentSight.View

open Json (Value)

/-- `AGENT_NATIVE_SOURCE`. -/
def agentNativeSource : String := "agent_native_session"

structure TokenUsageRow where
  id : String
  llmCallId : String
  timestampMs : ℕ
  pid : Option ℕ
  comm : Option String
  provider : Option String
  model : Option String
  inputTokens : ℤ
  outputTokens : ℤ
  cacheCreationTokens : ℤ
  cacheReadTokens : ℤ
  totalTokens : ℤ
  source : String
  viewSource : String
  confidence : Option ℚ
  deriving DecidableEq, Inhabited

structure LlmCallRow where
  id : String
  sessionId : Option String
  conversationId : Option String
  startTimestampMs : ℕ
  endTimestampMs : Option ℕ
  pid : Option ℕ
  comm : Option String
  provider : Option String
  model : Option String
  callKind : Option String
  status : String
  errorType : Option String
  finishReason : Option String
  host : Option String
  path : Option String
  statusCode : Option ℕ
  inputTokens : ℤ
  outputTokens : ℤ
  totalTokens : ℤ
  request : Value
  response : Value
  deriving DecidableEq, Inhabited

structure NetworkTargetRow where
  pid : Option ℕ
  comm : Option String
  host : String
  path : Option String
  count : ℤ
  errorCount : ℤ
  firstTimestampMs : Option ℕ
  lastTimestampMs : Option ℕ
  deriving DecidableEq

structure ResourceSampleRow where
  timestampMs : ℕ
  pid : Option ℕ
  comm : Option String
  cpuPercent : Option ℚ
  rssMb : Option ℤ
  deriving DecidableEq, Inhabited

structure AuditEventRow where
  id : String
  timestampMs : ℕ
  auditType : String
  pid : Option ℕ
  comm : Option String
  subject : Option String
  action : Option String
  target : Option String
  status : Option String
  summary : Option String
  details : Value
  deriving DecidableEq, Inhabited

structure ProcessNodeRow where
  id : String
  pid : ℕ
  startTicks : Option ℕ
  ppid : Option ℕ
  rootPid : Option ℕ
  startTimestampMs : Option ℕ
  endTimestampMs : Option ℕ
  comm : Option String
  command : Option String
  argv : List String
  cwd : Option String
  exitCode : Option ℤ
  status : Option String
  viewSource : String
  confidence : Option ℚ
  deriving DecidableEq, Inhabited

structure ToolCallRow where
  id : String
  sessionId : Option String
  conversationId : Option String
  timestampMs : ℕ
  toolName : Option String
  toolCallId : Option String
  startTimestampMs : Option ℕ
  endTimestampMs : Option ℕ
  durationMs : Option ℕ
  status : Option String
  input : Value
  output : Value
  relatedPid : Option ℕ
  relatedEventId : Option String
  viewSource : String
  confidence : Option ℚ
  deriving DecidableEq, Inhabited

structure SessionRow where
  id : String
  agentType : String
  startTimestampMs : ℕ
  endTimestampMs : Option ℕ
  status : String
  model : Option String
  inputTokens : ℤ
  outputTokens : ℤ
  totalTokens : ℤ
  viewSource : String
  confidence : Option ℚ
  attributes : Value
  deriving DecidableEq

/-- `network_target_key`: the key the view files a network target under. -/
def networkTargetKey (row : NetworkTargetRow) : String :=
  toString (row.pid.getD 0) ++ "\x00" ++ row.host ++ "\x00" ++ row.path.getD ""

/-- A row of any of the eight kinds. -/
inductive Row where
  | session (row : SessionRow)
  | llmCall (row : LlmCallRow)
  | tokenUsage (row : TokenUsageRow)
  | toolCall (row : ToolCallRow)
  | processNode (row : ProcessNodeRow)
  | auditEvent (row : AuditEventRow)
  | networkTarget (row : NetworkTargetRow)
  | resourceSample (row : ResourceSampleRow)
  deriving DecidableEq

end AgentSight.View

namespace AgentSight

open Json (Value)

/-- What the analysis crate takes from outside the repository: `serde_json`, `sha2` and the
standard library's reading of a floating point number. -/
class External where
  /-- `serde_json::from_str::<Value>`. -/
  fromStr : String → Option Value
  /-- `Value::to_string`. -/
  valueToString : Value → String
  /-- `serde_json::to_vec` of a row. -/
  toVec : View.Row → String
  /-- Lowercase hex SHA-256 of a string's bytes. -/
  sha256Hex : String → String
  /-- `str::parse::<f64>`. -/
  parseF64 : String → Option ℚ

end AgentSight
