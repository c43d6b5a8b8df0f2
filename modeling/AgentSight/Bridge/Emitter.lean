import AgentSight.Bridge.Projection

/-!
# The mutation emitter

`bridge/mod.rs`: turns materialized-view rows into revisioned envelopes and hands them to the
registered sinks. A sink is modelled by the envelopes handed to it: what it returns is only
logged, so nothing else about it can be observed.
-/

namespace AgentSight.Bridge

open View (AuditEventRow LlmCallRow NetworkTargetRow ProcessNodeRow ResourceSampleRow SessionRow
  TokenUsageRow ToolCallRow)

/-- Identity and policy stamped onto every envelope the emitter produces. `sequence` is the
highest number its allocator has handed out. -/
structure MutationEmitterConfig where
  nodeId : String
  bootId : Option String
  sourceComponent : String
  sourceVersion : String
  disclosure : DisclosureMode
  sequence : ℕ
  deriving DecidableEq

/-- `MutationEmitterConfig::default`, for a given package version. -/
def MutationEmitterConfig.default (version : String) : MutationEmitterConfig where
  nodeId := "agentsight-local"
  bootId := none
  sourceComponent := "agentsight-capture"
  sourceVersion := version
  disclosure := .metadataOnly
  sequence := 0

structure RevisionState where
  contentHash : String
  revision : ℕ
  deriving DecidableEq

/-- What the revision bookkeeping decided for one row emission. -/
structure RevisionDecision where
  revision : ℕ
  operation : MutationOperation
  deriving DecidableEq

structure MutationEmitter where
  config : MutationEmitterConfig
  /-- For each sink, the envelopes handed to it so far. -/
  sinks : List (List ViewMutationEnvelope)
  /-- Revision state by row kind and row id. -/
  revisions : String × String → Option RevisionState

namespace MutationEmitter

def new (config : MutationEmitterConfig) : MutationEmitter where
  config
  sinks := []
  revisions := fun _ => none

def addSink (e : MutationEmitter) : MutationEmitter := { e with sinks := e.sinks ++ [[]] }

def setConfig (e : MutationEmitter) (config : MutationEmitterConfig) : MutationEmitter :=
  { e with config }

def disclosure (e : MutationEmitter) : DisclosureMode := e.config.disclosure

/-- Current revision of a tracked row, if it has been emitted before. -/
def revisionOf (e : MutationEmitter) (rowKind rowId : String) : Option ℕ :=
  (e.revisions (rowKind, rowId)).map (·.revision)

/-- Decide the revision for a row whose full serialized form hashes to `contentHash`. -/
def decide (e : MutationEmitter) (rowKind rowId contentHash : String) :
    RevisionDecision × MutationEmitter :=
  let key := (rowKind, rowId)
  match e.revisions key with
  | none =>
    (⟨0, .insert⟩, { e with revisions := Function.update e.revisions key (some ⟨contentHash, 0⟩) })
  | some state =>
    if state.contentHash = contentHash then (⟨state.revision, .update⟩, e)
    else
      (⟨state.revision + 1, .update⟩, { e with
          revisions := Function.update e.revisions key (some ⟨contentHash, state.revision + 1⟩) })

def forget (e : MutationEmitter) (rowKind rowId : String) : MutationEmitter :=
  { e with revisions := Function.update e.revisions (rowKind, rowId) none }

/-- Wrap a mutation in an envelope with the next sequence. -/
def envelope (e : MutationEmitter) (operation : MutationOperation) (mutation : ViewMutation)
    (observedWallMs : Option ℕ) (basis : TimestampBasis) : ViewMutationEnvelope where
  protocolVersion := bridgeProtocolVersion
  nodeId := e.config.nodeId
  bootId := e.config.bootId
  sequence := e.config.sequence + 1
  observedWallMs
  observedMonotonicNs := none
  basis
  sourceComponent := e.config.sourceComponent
  sourceVersion := e.config.sourceVersion
  scopeHandle := none
  operation
  mutation

def emit (e : MutationEmitter) (operation : MutationOperation) (mutation : ViewMutation)
    (observedWallMs : Option ℕ) (basis : TimestampBasis) : MutationEmitter :=
  if e.sinks.isEmpty then e
  else
    { e with
      config := { e.config with sequence := e.config.sequence + 1 }
      sinks := e.sinks.map (· ++ [e.envelope operation mutation observedWallMs basis]) }

/-! ### Rows -/

section Rows

variable [External]

/-- Content hash over the serialized full source row. -/
def hashRow (row : View.Row) : String := External.sha256Hex (External.toVec row)

/-- The body shared by the six kinds that track a revision: decide it, project the row at
it, and emit. -/
def upsert (e : MutationEmitter) (rowKind rowId : String) (row : View.Row)
    (project : ℕ → ViewMutation) (observedWallMs : Option ℕ) (basis : TimestampBasis) :
    MutationEmitter :=
  if e.sinks.isEmpty then e
  else
    let (decision, e) := e.decide rowKind rowId (hashRow row)
    e.emit decision.operation (project decision.revision) observedWallMs basis

def session (e : MutationEmitter) (row : SessionRow) : MutationEmitter :=
  e.upsert "session" row.id (.session row)
    (fun revision => .sessionUpsert (Projection.session row revision e.disclosure))
    (some row.startTimestampMs) (Projection.basisForSource row.viewSource)

def llmCall (e : MutationEmitter) (row : LlmCallRow) : MutationEmitter :=
  e.upsert "llm_call" row.id (.llmCall row)
    (fun revision => .llmCallUpsert (Projection.llmCall row revision e.disclosure))
    (some row.startTimestampMs) .epochMilliseconds

def tokenUsage (e : MutationEmitter) (row : TokenUsageRow) : MutationEmitter :=
  e.upsert "token_usage" row.id (.tokenUsage row)
    (fun revision => .tokenUsageUpsert (Projection.tokenUsage row revision))
    (some row.timestampMs) (Projection.basisForSource row.viewSource)

def toolCall (e : MutationEmitter) (row : ToolCallRow) : MutationEmitter :=
  e.upsert "tool_call" row.id (.toolCall row)
    (fun revision => .toolCallUpsert (Projection.toolCall row revision e.disclosure))
    (some row.timestampMs) (Projection.basisForSource row.viewSource)

def processNode (e : MutationEmitter) (row : ProcessNodeRow) : MutationEmitter :=
  e.upsert "process_node" row.id (.processNode row)
    (fun revision => .processNodeUpsert (Projection.processNode row revision e.disclosure))
    row.startTimestampMs .epochMilliseconds

def networkTarget (e : MutationEmitter) (row : NetworkTargetRow) : MutationEmitter :=
  e.upsert "network_target" (Projection.networkTargetRowId row) (.networkTarget row)
    (fun revision => .networkTargetUpsert (Projection.networkTarget row revision e.disclosure))
    row.lastTimestampMs .epochMilliseconds

/-- Audit rows are insert-only: no revision is tracked for them. -/
def auditEvent (e : MutationEmitter) (row : AuditEventRow) : MutationEmitter :=
  e.emit .insert (.auditEventInserted (Projection.auditEvent row e.disclosure))
    (some row.timestampMs) .epochMilliseconds

/-- Resource samples are insert-only. -/
def resourceSample (e : MutationEmitter) (row : ResourceSampleRow) : MutationEmitter :=
  e.emit .insert (.resourceSampleInserted (Projection.resourceSample row))
    (some row.timestampMs) .epochMilliseconds

end Rows

/-! ### Notices -/

/-- Announce that a tracked row is gone; drops its revision bookkeeping. -/
def rowEvicted (e : MutationEmitter) (rowKind rowId : String) : MutationEmitter :=
  (e.forget rowKind rowId).emit .delete (.rowEvicted rowKind rowId) none .unknown

def capabilityChanged (e : MutationEmitter) (capability : String) (available : Bool)
    (detail : Option String) : MutationEmitter :=
  e.emit .update (.captureCapabilityChanged capability available detail) none .unknown

def captureGap (e : MutationEmitter) (fromSequence toSequence : ℕ) (reason : String) :
    MutationEmitter :=
  e.emit .insert (.captureGapObserved fromSequence toSequence reason) none .unknown

end MutationEmitter

end AgentSight.Bridge
