import AgentSight.Bridge.Emitter
import AgentSight.Lib.Effectful
import AgentSight.View.Canonical

/-!
# The materialized view

`view/mod.rs`: the rows of a capture by kind, how each kind merges what is stored, and the
two ways a row leaves the view: to its sinks, whose errors are reported to the caller, and to
the bridge emitter, whose errors are only logged. A `BTreeMap` is a `TreeMap`; a `HashMap`
whose order nothing observes is a partial function.
-/

namespace AgentSight.View

open Bridge (MutationEmitter MutationEmitterConfig DisclosureMode ViewMutation)
open Json (Value)
open Std (TreeMap)

/-- The `ViewSink` trait. Its seven methods are one, which takes a row of any kind and may
report an error. -/
class ViewSink (σ : Type) where
  receive : σ → Row → Option String × σ

/-- A sink that accepts every row and keeps nothing. -/
inductive NullSink where
  | null
  deriving DecidableEq

instance : ViewSink NullSink where
  receive sink _ := (none, sink)

/-- A request that has not been answered yet. -/
structure PendingRequest where
  eventId : String
  timestampMs : ℕ
  pid : ℕ
  comm : String
  provider : Option String
  model : Option String
  host : Option String
  path : Option String
  requestId : Option String
  bodyJson : Option Value
  deriving DecidableEq

/-- How many rows of each kind the view has ever stored. -/
structure ViewCounts where
  llmCalls : ℤ := 0
  tokenUsage : ℤ := 0
  auditEvents : ℤ := 0
  processNodes : ℤ := 0
  toolCalls : ℤ := 0
  sessions : ℤ := 0
  networkTargets : ℤ := 0
  resourceSamples : ℤ := 0
  deriving DecidableEq

/-- The `(pid, tid)` key of the pending requests. -/
abbrev Stream := ℕ × ℕ

/-- The requests of every stream that still wait for a response. -/
abbrev Pending := Stream → Option (List PendingRequest)

structure MaterializedView (σ : Type) where
  source : String
  llmCalls : TreeMap String LlmCallRow
  tokenUsage : TreeMap String TokenUsageRow
  auditEvents : TreeMap String AuditEventRow
  processNodes : TreeMap String ProcessNodeRow
  toolCalls : TreeMap String ToolCallRow
  sessions : TreeMap String SessionRow
  networkTargets : TreeMap String NetworkTargetRow
  resourceSamples : List ResourceSampleRow
  /-- Ids of the audit rows in the order they were first stored; kept only under a bound. -/
  auditOrder : List String
  sinks : List σ
  mutations : Option MutationEmitter
  pending : Pending
  activeProcesses : ℕ → Option String
  counts : ViewCounts
  startTimestampMs : Option ℕ
  endTimestampMs : Option ℕ
  maxAuditEvents : Option ℕ
  maxResourceSamples : Option ℕ
  nextSeq : ℕ

/-- `MAX_AUDIT_EVENTS_IN_MEMORY`. -/
def maxAuditEventsInMemory : ℕ := 20000

/-- `MAX_RESOURCE_SAMPLES_IN_MEMORY`. -/
def maxResourceSamplesInMemory : ℕ := 10000

def minOptional {α : Type} [LE α] [DecidableLE α] : Option α → Option α → Option α
  | some left, some right => some (if left ≤ right then left else right)
  | some value, none | none, some value => some value
  | none, none => none

def maxOptional {α : Type} [LE α] [DecidableLE α] : Option α → Option α → Option α
  | some left, some right => some (if right ≤ left then left else right)
  | some value, none | none, some value => some value
  | none, none => none

/-! ### Merging -/

/-- What `upsert_session` makes of a stored session and a new row for it. -/
def SessionRow.merge (existing row : SessionRow) : SessionRow :=
  { existing with
    startTimestampMs := min existing.startTimestampMs row.startTimestampMs
    endTimestampMs := maxOptional existing.endTimestampMs row.endTimestampMs
    model :=
      if row.model.any (· != "unknown") || existing.model.isNone then row.model
      else existing.model
    inputTokens := max existing.inputTokens row.inputTokens
    outputTokens := max existing.outputTokens row.outputTokens
    totalTokens := max existing.totalTokens row.totalTokens
    confidence := maxOptional existing.confidence row.confidence }

/-- What `upsert_network_target` makes of a stored target and a new row for it. -/
def NetworkTargetRow.merge (existing row : NetworkTargetRow) : NetworkTargetRow :=
  { existing with
    count := existing.count + row.count
    errorCount := existing.errorCount + row.errorCount
    firstTimestampMs := minOptional existing.firstTimestampMs row.firstTimestampMs
    lastTimestampMs := maxOptional existing.lastTimestampMs row.lastTimestampMs }

/-- What `upsert_process_node` makes of a stored process and a new row for it. -/
def ProcessNodeRow.merge (existing row : ProcessNodeRow) : ProcessNodeRow :=
  { existing with
    startTimestampMs := minOptional existing.startTimestampMs row.startTimestampMs
    endTimestampMs := maxOptional existing.endTimestampMs row.endTimestampMs
    -- Read once at exec and never revised.
    startTicks := existing.startTicks.or row.startTicks
    ppid := row.ppid.or existing.ppid
    rootPid := row.rootPid.or existing.rootPid
    comm := row.comm.or existing.comm
    command := row.command.or existing.command
    argv := if existing.argv.isEmpty && !row.argv.isEmpty then row.argv else existing.argv
    cwd := row.cwd.or existing.cwd
    exitCode := row.exitCode.or existing.exitCode
    status := row.status.or existing.status
    confidence := maxOptional existing.confidence row.confidence }

/-- Drop the oldest audit rows while there are more than `max`. -/
def evictAudits (max : ℕ) : List String → TreeMap String AuditEventRow →
    List String × TreeMap String AuditEventRow
  | [], events => ([], events)
  | id :: order, events =>
    if max < events.size then evictAudits max order (events.erase id) else (id :: order, events)

namespace MaterializedView

variable {σ : Type}

/-- `MaterializedView::new`, with the sinks already added. -/
def new (sinks : List σ) : MaterializedView σ where
  source := ""
  llmCalls := ∅
  tokenUsage := ∅
  auditEvents := ∅
  processNodes := ∅
  toolCalls := ∅
  sessions := ∅
  networkTargets := ∅
  resourceSamples := []
  auditOrder := []
  sinks
  mutations := none
  pending := fun _ => none
  activeProcesses := fun _ => none
  counts := {}
  startTimestampMs := none
  endTimestampMs := none
  maxAuditEvents := none
  maxResourceSamples := none
  nextSeq := 0

def addSink (v : MaterializedView σ) (sink : σ) : MaterializedView σ :=
  { v with sinks := v.sinks ++ [sink] }

/-- `add_mutation_sink`; `version` is the package version of a default emitter. -/
def addMutationSink (v : MaterializedView σ) (version : String) : MaterializedView σ :=
  { v with
    mutations :=
      some ((v.mutations.getD (MutationEmitter.new (.default version))).addSink) }

def configureMutations (v : MaterializedView σ) (config : MutationEmitterConfig) :
    MaterializedView σ :=
  { v with
    mutations :=
      match v.mutations with
      | some emitter => some (emitter.setConfig config)
      | none => some (MutationEmitter.new config) }

def mutationDisclosure (v : MaterializedView σ) : DisclosureMode :=
  (v.mutations.map (·.disclosure)).getD .metadataOnly

def setSource (v : MaterializedView σ) (source : String) : MaterializedView σ :=
  { v with source }

/-! ### Storing -/

def observe (v : MaterializedView σ) (timestamp : Option ℕ) : MaterializedView σ :=
  match timestamp with
  | none => v
  | some timestamp =>
    { v with
      startTimestampMs := some ((v.startTimestampMs.map (min · timestamp)).getD timestamp)
      endTimestampMs := some ((v.endTimestampMs.map (max · timestamp)).getD timestamp) }

def applyLlmCall (v : MaterializedView σ) (row : LlmCallRow) : MaterializedView σ :=
  let v := (v.observe (some row.startTimestampMs)).observe row.endTimestampMs
  { v with
    counts :=
      if v.llmCalls.contains row.id then v.counts
      else { v.counts with llmCalls := v.counts.llmCalls + 1 }
    llmCalls := v.llmCalls.insert row.id row }

def applyTokenUsage (v : MaterializedView σ) (row : TokenUsageRow) : MaterializedView σ :=
  let v := v.observe (some row.timestampMs)
  { v with
    counts :=
      if v.tokenUsage.contains row.id then v.counts
      else { v.counts with tokenUsage := v.counts.tokenUsage + 1 }
    tokenUsage := v.tokenUsage.insert row.id row }

def applyAuditEvent (v : MaterializedView σ) (row : AuditEventRow) : MaterializedView σ :=
  let v := v.observe (some row.timestampMs)
  let fresh := !v.auditEvents.contains row.id
  let order :=
    if fresh && v.maxAuditEvents.isSome then v.auditOrder ++ [row.id] else v.auditOrder
  let events := v.auditEvents.insert row.id row
  let retained := match v.maxAuditEvents with
    | none => (order, events)
    | some max => evictAudits max order events
  { v with
    counts :=
      if fresh then { v.counts with auditEvents := v.counts.auditEvents + 1 } else v.counts
    auditOrder := retained.1
    auditEvents := retained.2 }

def applyToolCall (v : MaterializedView σ) (row : ToolCallRow) : MaterializedView σ :=
  let v := v.observe (some row.timestampMs)
  { v with
    counts :=
      if v.toolCalls.contains row.id then v.counts
      else { v.counts with toolCalls := v.counts.toolCalls + 1 }
    toolCalls := v.toolCalls.insert row.id row }

def applyResourceSample (v : MaterializedView σ) (row : ResourceSampleRow) : MaterializedView σ :=
  let v := v.observe (some row.timestampMs)
  let samples := v.resourceSamples ++ [row]
  { v with
    counts := { v.counts with resourceSamples := v.counts.resourceSamples + 1 }
    resourceSamples :=
      match v.maxResourceSamples with
      | none => samples
      | some max => samples.drop (samples.length - max) }

def upsertSession (v : MaterializedView σ) (row : SessionRow) : MaterializedView σ :=
  let v := (v.observe (some row.startTimestampMs)).observe row.endTimestampMs
  match v.sessions[row.id]? with
  | none =>
    { v with
      counts := { v.counts with sessions := v.counts.sessions + 1 }
      sessions := v.sessions.insert row.id row }
  | some existing => { v with sessions := v.sessions.insert row.id (existing.merge row) }

def upsertNetworkTarget (v : MaterializedView σ) (row : NetworkTargetRow) : MaterializedView σ :=
  let v := (v.observe row.firstTimestampMs).observe row.lastTimestampMs
  let key := networkTargetKey row
  match v.networkTargets[key]? with
  | none =>
    { v with
      counts := { v.counts with networkTargets := v.counts.networkTargets + 1 }
      networkTargets := v.networkTargets.insert key row }
  | some existing =>
    { v with networkTargets := v.networkTargets.insert key (existing.merge row) }

def upsertProcessNode (v : MaterializedView σ) (row : ProcessNodeRow) : MaterializedView σ :=
  let v := (v.observe row.startTimestampMs).observe row.endTimestampMs
  match v.processNodes[row.id]? with
  | none =>
    { v with
      counts := { v.counts with processNodes := v.counts.processNodes + 1 }
      processNodes := v.processNodes.insert row.id row }
  | some existing =>
    { v with processNodes := v.processNodes.insert row.id (existing.merge row) }

/-! ### Publishing -/

/-- Run a mutation emission, when there is an emitter. -/
def mutate (v : MaterializedView σ) (emit : MutationEmitter → MutationEmitter) :
    MaterializedView σ :=
  { v with mutations := v.mutations.map emit }

/-- Hand a row to every sink; the first error any of them reports. -/
def receiveAll [ViewSink σ] (row : Row) : List σ → Option String × List σ
  | [] => (none, [])
  | sink :: sinks =>
    let (error, sink) := ViewSink.receive sink row
    let (firstError, sinks) := receiveAll row sinks
    (error.or firstError, sink :: sinks)

def publish [ViewSink σ] (v : MaterializedView σ) (row : Row) :
    Except String Unit × MaterializedView σ :=
  let (firstError, sinks) := receiveAll row v.sinks
  (match firstError with
    | some error => .error error
    | none => .ok (),
    { v with sinks })

end MaterializedView

/-- A view operation: it may report an error and keeps what it did until then. -/
abbrev ViewM (σ : Type) := Effectful.Program String (MaterializedView σ)

section Emit

variable {σ : Type} [ViewSink σ] [External]

/-- The shape of every `emit_*` that has a sink method: store the row, publish it, hand the
emission to the bridge, and report what publishing reported. -/
def emitRow (store : MaterializedView σ → MaterializedView σ) (row : Row)
    (emit : MaterializedView σ → MutationEmitter → MutationEmitter) : ViewM σ Unit :=
  Effectful.ofFn fun v =>
    let (published, v) := (store v).publish row
    (published, v.mutate (emit v))

def emitLlmCall (row : LlmCallRow) : ViewM σ Unit :=
  emitRow (·.applyLlmCall row) (.llmCall row) fun _ e => e.llmCall row

def emitTokenUsage (row : TokenUsageRow) : ViewM σ Unit :=
  emitRow (·.applyTokenUsage row) (.tokenUsage row) fun _ e => e.tokenUsage row

def emitAuditEvent (row : AuditEventRow) : ViewM σ Unit :=
  emitRow (·.applyAuditEvent row) (.auditEvent row) fun _ e => e.auditEvent row

/-- Process nodes merge on upsert, so the mutation describes the merged state. -/
def emitProcessNode (row : ProcessNodeRow) : ViewM σ Unit :=
  emitRow (·.upsertProcessNode row) (.processNode row) fun v e =>
    match v.processNodes[row.id]? with
    | some merged => e.processNode merged
    | none => e

def emitToolCall (row : ToolCallRow) : ViewM σ Unit :=
  emitRow (·.applyToolCall row) (.toolCall row) fun _ e => e.toolCall row

/-- Network targets accumulate counts on upsert; the mutation carries the accumulated row. -/
def emitNetworkTarget (row : NetworkTargetRow) : ViewM σ Unit :=
  emitRow (·.upsertNetworkTarget row) (.networkTarget row) fun v e =>
    match v.networkTargets[networkTargetKey row]? with
    | some merged => e.networkTarget merged
    | none => e

def emitResourceSample (row : ResourceSampleRow) : ViewM σ Unit :=
  emitRow (·.applyResourceSample row) (.resourceSample row) fun _ e => e.resourceSample row

omit [ViewSink σ] in
/-- Sessions have no sink method: the bridge is the only fan-out they have. -/
def emitSession (row : SessionRow) : ViewM σ Unit :=
  Effectful.ofFn fun v =>
    let v := v.upsertSession row
    (.ok (), v.mutate fun e =>
      match v.sessions[row.id]? with
      | some merged => e.session merged
      | none => e)

end Emit

/-! ### Snapshots -/

section Snapshot

variable {σ : Type} [External]

/-- Project the current view state as snapshot mutations. -/
def MaterializedView.bridgeSnapshotMutations (v : MaterializedView σ)
    (disclosure : DisclosureMode) : List ViewMutation :=
  let revision (rowKind rowId : String) : ℕ :=
    (v.mutations.bind (·.revisionOf rowKind rowId)).getD 0
  (v.sessions.values.map fun row =>
      .sessionUpsert (Bridge.Projection.session row (revision "session" row.id) disclosure)) ++
    (v.llmCalls.values.map fun row =>
      .llmCallUpsert (Bridge.Projection.llmCall row (revision "llm_call" row.id) disclosure)) ++
    (v.tokenUsage.values.map fun row =>
      .tokenUsageUpsert (Bridge.Projection.tokenUsage row (revision "token_usage" row.id))) ++
    (v.toolCalls.values.map fun row =>
      .toolCallUpsert (Bridge.Projection.toolCall row (revision "tool_call" row.id) disclosure)) ++
    (v.processNodes.values.map fun row =>
      .processNodeUpsert
        (Bridge.Projection.processNode row (revision "process_node" row.id) disclosure)) ++
    (v.networkTargets.values.map fun row =>
      .networkTargetUpsert (Bridge.Projection.networkTarget row
          (revision "network_target" (Bridge.Projection.networkTargetRowId row)) disclosure)) ++
    (v.auditEvents.values.map fun row =>
      .auditEventInserted (Bridge.Projection.auditEvent row disclosure)) ++
    (v.resourceSamples.map fun row =>
      .resourceSampleInserted (Bridge.Projection.resourceSample row))

end Snapshot

end AgentSight.View
