import AgentSight.Json

/-!
# Bridge protocol v1

The types of `agentsight-protocol/src/bridge`: the rows a mutation carries, the mutation
envelope and every message that crosses the bridge, in either direction. Field names follow
the source in camel case. `u16`, `u32` and `u64` are `ℕ`; the one place where the width
matters, the `after_sequence + 1` of a resume, is explicit in `Hub.resume`. A floating point
field is the exact rational it holds.
-/

namespace AgentSight.Bridge

open Json (Value)

/-! ### Disclosure -/

inductive DisclosureMode where
  | metadataOnly
  | researchFull
  | incidentScoped (approvalId : String) (fieldAllowlist : List String) (expiresAtMs : ℕ)
  deriving DecidableEq, Inhabited

/-- Whether a named content field may be populated under this mode. -/
def DisclosureMode.allowsContentField : DisclosureMode → String → Bool
  | .metadataOnly, _ => false
  | .researchFull, _ => true
  | .incidentScoped _ fieldAllowlist _, field => fieldAllowlist.any (· == field)

/-- Whether any content at all may be populated under this mode. -/
def DisclosureMode.allowsAnyContent : DisclosureMode → Bool
  | .metadataOnly => false
  | .researchFull => true
  | .incidentScoped _ fieldAllowlist _ => !fieldAllowlist.isEmpty

/-! ### Rows -/

structure SessionContent where
  cwd : Option String
  deriving DecidableEq

structure BridgeSessionRow where
  rowId : String
  revision : ℕ
  agentType : String
  startTsMs : ℕ
  endTsMs : Option ℕ
  status : String
  model : Option String
  inputTokens : ℤ
  outputTokens : ℤ
  totalTokens : ℤ
  viewSource : String
  confidence : Option ℚ
  cwdClass : Option String
  content : Option SessionContent
  deriving DecidableEq, Inhabited

structure LlmContent where
  host : Option String
  path : Option String
  request : Option Value
  response : Option Value
  deriving DecidableEq

structure BridgeLlmCallRow where
  rowId : String
  revision : ℕ
  sessionRowId : Option String
  startTsMs : ℕ
  endTsMs : Option ℕ
  pid : Option ℕ
  comm : Option String
  provider : Option String
  model : Option String
  callKind : Option String
  status : String
  errorType : Option String
  finishReason : Option String
  statusCode : Option ℕ
  inputTokens : ℤ
  outputTokens : ℤ
  totalTokens : ℤ
  destinationClass : Option String
  content : Option LlmContent
  deriving DecidableEq

structure BridgeTokenUsageRow where
  rowId : String
  revision : ℕ
  llmCallRowId : Option String
  tsMs : ℕ
  pid : Option ℕ
  comm : Option String
  provider : Option String
  model : Option String
  inputTokens : ℤ
  outputTokens : ℤ
  cacheCreationTokens : ℤ
  cacheReadTokens : ℤ
  totalTokens : ℤ
  source : String
  viewSource : String
  confidence : Option ℚ
  deriving DecidableEq

structure ToolContent where
  input : Option Value
  output : Option Value
  deriving DecidableEq

structure BridgeToolCallRow where
  rowId : String
  revision : ℕ
  sessionRowId : Option String
  tsMs : ℕ
  toolName : Option String
  semanticCategory : Option String
  nativeToolCallId : Option String
  startTsMs : Option ℕ
  endTsMs : Option ℕ
  durationMs : Option ℕ
  status : Option String
  relatedPid : Option ℕ
  viewSource : String
  confidence : Option ℚ
  content : Option ToolContent
  deriving DecidableEq

structure ProcessContent where
  command : Option String
  argv : List String
  cwd : Option String
  deriving DecidableEq

structure BridgeProcessNodeRow where
  rowId : String
  revision : ℕ
  pid : ℕ
  startTicks : Option ℕ
  ppid : Option ℕ
  rootPid : Option ℕ
  startTsMs : Option ℕ
  endTsMs : Option ℕ
  comm : Option String
  executableBasename : Option String
  commandFingerprint : Option String
  argvShape : Option String
  cwdClass : Option String
  exitCode : Option ℤ
  status : Option String
  viewSource : String
  confidence : Option ℚ
  content : Option ProcessContent
  deriving DecidableEq

structure AuditContent where
  subject : Option String
  target : Option String
  summary : Option String
  details : Option Value
  deriving DecidableEq

structure BridgeAuditEventRow where
  rowId : String
  tsMs : ℕ
  auditType : String
  pid : Option ℕ
  comm : Option String
  action : Option String
  pathClass : Option String
  extension : Option String
  destinationClass : Option String
  port : Option ℕ
  protocol : Option String
  bytesOrCount : Option ℤ
  status : Option String
  rawTargetDigest : Option String
  content : Option AuditContent
  deriving DecidableEq, Inhabited

structure NetworkContent where
  host : Option String
  path : Option String
  deriving DecidableEq

structure BridgeNetworkTargetRow where
  rowId : String
  revision : ℕ
  pid : Option ℕ
  comm : Option String
  destinationClass : String
  port : Option ℕ
  count : ℤ
  errorCount : ℤ
  firstTsMs : Option ℕ
  lastTsMs : Option ℕ
  rawTargetDigest : Option String
  content : Option NetworkContent
  deriving DecidableEq

structure BridgeResourceSampleRow where
  tsMs : ℕ
  pid : Option ℕ
  comm : Option String
  cpuPercent : Option ℚ
  rssMb : Option ℤ
  deriving DecidableEq

/-! ### Mutations -/

/-- What the receiver should do with the row in the envelope. -/
inductive MutationOperation where
  | insert
  | update
  | delete
  /-- Replayed state, not an original observation: ordering is synthetic. -/
  | snapshotReconstruction
  deriving DecidableEq, Inhabited

inductive TimestampBasis where
  | bootMonotonic
  | epochMilliseconds
  | agentNativeTimestamp
  | derivedFromBootOffset
  | unknown
  deriving DecidableEq, Inhabited

inductive ViewMutation where
  | sessionUpsert (row : BridgeSessionRow)
  | llmCallUpsert (row : BridgeLlmCallRow)
  | tokenUsageUpsert (row : BridgeTokenUsageRow)
  | toolCallUpsert (row : BridgeToolCallRow)
  | processNodeUpsert (row : BridgeProcessNodeRow)
  | auditEventInserted (row : BridgeAuditEventRow)
  | networkTargetUpsert (row : BridgeNetworkTargetRow)
  | resourceSampleInserted (row : BridgeResourceSampleRow)
  | captureCapabilityChanged (capability : String) (available : Bool) (detail : Option String)
  | captureGapObserved (fromSequence toSequence : ℕ) (reason : String)
  | rowEvicted (rowKind rowId : String)
  deriving DecidableEq, Inhabited

namespace ViewMutation

/-- Stable row-kind name used for revision bookkeeping and eviction notices. -/
def rowKind : ViewMutation → String
  | sessionUpsert _ => "session"
  | llmCallUpsert _ => "llm_call"
  | tokenUsageUpsert _ => "token_usage"
  | toolCallUpsert _ => "tool_call"
  | processNodeUpsert _ => "process_node"
  | auditEventInserted _ => "audit_event"
  | networkTargetUpsert _ => "network_target"
  | resourceSampleInserted _ => "resource_sample"
  | captureCapabilityChanged .. => "capture_capability"
  | captureGapObserved .. => "capture_gap"
  | rowEvicted .. => "row_evicted"

/-- Source row id, when the mutation carries an identifiable row. -/
def rowId? : ViewMutation → Option String
  | sessionUpsert row => some row.rowId
  | llmCallUpsert row => some row.rowId
  | tokenUsageUpsert row => some row.rowId
  | toolCallUpsert row => some row.rowId
  | processNodeUpsert row => some row.rowId
  | auditEventInserted row => some row.rowId
  | networkTargetUpsert row => some row.rowId
  | rowEvicted _ rowId => some rowId
  | resourceSampleInserted _ | captureCapabilityChanged .. | captureGapObserved .. => none

/-- Whether the mutation describes process, file or network activity that the server may
auto-tag with a single active scope. -/
def isScopeTaggable : ViewMutation → Bool
  | processNodeUpsert _ | auditEventInserted _ | networkTargetUpsert _
  | resourceSampleInserted _ => true
  | _ => false

end ViewMutation

/-- One mutation with everything the receiver needs to place it in time and attribute it to
a source. -/
structure ViewMutationEnvelope where
  protocolVersion : ℕ
  nodeId : String
  bootId : Option String
  /-- Monotonically increasing from 1 per `(nodeId, bootId)`. -/
  sequence : ℕ
  observedWallMs : Option ℕ
  observedMonotonicNs : Option ℕ
  basis : TimestampBasis
  sourceComponent : String
  sourceVersion : String
  /-- Set when the server could attribute the mutation to exactly one scope. -/
  scopeHandle : Option String
  operation : MutationOperation
  mutation : ViewMutation
  deriving DecidableEq, Inhabited

/-! ### Negotiation, scopes and annotations -/

/-- `BRIDGE_PROTOCOL_VERSION`. -/
def bridgeProtocolVersion : ℕ := 1

/-- `MAX_FRAME_BYTES`. -/
def maxFrameBytes : ℕ := 1048576

/-- `agentsight_protocol::PRODUCT`. -/
def product : String := "agentsight"

structure BridgeHello where
  supportedVersions : List ℕ
  product : String
  productVersion : String
  maxFrameBytes : ℕ
  disclosure : DisclosureMode
  deriving DecidableEq, Inhabited

structure BridgeCapability where
  name : String
  available : Bool
  detail : Option String
  deriving DecidableEq

structure BridgeAgreement where
  protocolVersion : ℕ
  product : String
  productVersion : String
  buildCommit : Option String
  binaryDigest : Option String
  nodeId : String
  bootId : Option String
  capabilities : List BridgeCapability
  maxFrameBytes : ℕ
  deriving DecidableEq, Inhabited

structure BridgeHealth where
  state : String
  detail : Option String
  captureGaps : ℕ
  droppedMutations : ℕ
  activeScopes : ℕ
  aroAnnotationsEvicted : Option ℕ
  deriving DecidableEq

namespace BridgeHealth

def ok : String := "ok"

def degraded : String := "degraded"

end BridgeHealth

structure ScopeRegistration where
  scopeHandle : String
  rootPid : Option ℕ
  rootStartTicks : Option ℕ
  sandboxCgroupPath : Option String
  sandboxCgroupId : Option ℕ
  startsMonotonicNs : Option ℕ
  expiresMonotonicNs : Option ℕ
  disclosure : DisclosureMode
  requiredCapabilities : List String
  deriving DecidableEq, Inhabited

structure ToolScopeRegistration where
  parentScopeHandle : String
  toolScopeHandle : String
  toolCgroupPath : Option String
  toolCgroupId : Option ℕ
  pid : Option ℕ
  startTicks : Option ℕ
  startsMonotonicNs : Option ℕ
  expiresMonotonicNs : Option ℕ
  deriving DecidableEq, Inhabited

structure ResumeRequest where
  nodeId : String
  bootId : Option String
  afterSequence : ℕ
  deriving DecidableEq

/-- The kinds of `AroAnnotationRow`. -/
inductive AroRowKind where
  | resourceDomain
  | enforcement
  | policyDecision
  | correlation
  deriving DecidableEq

/-- `AroAnnotationRow`: its kind and the three fields every kind has, the only ones the
collector reads. -/
structure AroAnnotationRow where
  kind : AroRowKind
  rowId : String
  revision : ℕ
  scopeHandle : String
  deriving DecidableEq

structure AroAnnotation where
  scopeHandle : String
  sequence : ℕ
  row : AroAnnotationRow
  deriving DecidableEq

/-- One row of a host-sessions answer. -/
structure HostSessionRow where
  sessionKey : String
  agentKind : String
  state : String
  startedMs : Option ℕ
  lastMessageMs : Option ℕ
  model : Option String
  inputTokens : Option ℤ
  outputTokens : Option ℤ
  totalTokens : Option ℤ
  activityEvents : Option ℕ
  activityWindowS : Option ℕ
  cpuPercent : Option ℚ
  memoryBytes : Option ℕ
  evidenceSource : String
  workspaceClass : Option String
  contextClass : Option String
  pid : Option ℕ
  startTicks : Option ℕ
  deriving DecidableEq

/-! ### Messages -/

/-- Every message that can cross the bridge. -/
inductive BridgeMessage where
  | hello (hello : BridgeHello)
  | agreement (agreement : BridgeAgreement)
  | helloRejected (reason : String)
  | registerScope (registration : ScopeRegistration)
  | registerToolScope (registration : ToolScopeRegistration)
  | scopeAccepted (scopeHandle : String) (effective : List BridgeCapability)
  | scopeRejected (scopeHandle reason : String)
  | unregisterScope (scopeHandle : String)
  | scopeUnregistered (scopeHandle : String) (flushedThrough : Option ℕ)
  | mutation (envelope : ViewMutationEnvelope)
  | ack (throughSequence : ℕ)
  | annotationMsg (msg : AroAnnotation)
  | hostSessionsQuery
  | hostSessionsSnapshot (generatedMs : ℕ) (sessions : List HostSessionRow)
  | resume (request : ResumeRequest)
  | resumeUnavailable (earliestAvailable : Option ℕ)
  | snapshotRequest (scopeHandle : Option String)
  | snapshotBegin (estimated : ℕ) (reconstructed : Bool)
  | snapshotEnd (throughSequence : ℕ)
  | health (health : BridgeHealth)
  | heartbeat (monotonicNs : ℕ)
  | shutdown (reason : String)
  deriving DecidableEq

end AgentSight.Bridge
