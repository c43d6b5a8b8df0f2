import AgentSight.Bridge.OutboundQueue
import Mathlib.Data.List.AList

/-!
# The bridge hub

`BridgeHub` and `HubState` of `collector/src/server/bridge.rs`: the state every connection
shares, and the operations on it, each of which runs under one hold of the hub lock (or is
one atomic allocation). The outbound queue and the acknowledgement mark of a connection are
reference counted in the source and outlive its registration, so they are kept here by
connection id; `connections` lists the registered ones.

The clock is an argument, `nowNs`, wherever the source reads `monotonic_ns()`. A lock is
poisoned only by a panic under it, which `resume` alone could raise (`ResumeOutcome.overflow`).
-/

namespace AgentSight.Bridge

/-- The part of `BridgeServerConfig` that the protocol depends on. -/
structure BridgeServerConfig where
  nodeId : String
  bootId : Option String
  productVersion : String
  buildCommit : Option String
  capabilities : List BridgeCapability
  maxConnections : ℕ
  maxFrameBytes : ℕ
  outboundCapacity : ℕ
  replayCapacity : ℕ
  deriving DecidableEq, Inhabited

inductive ScopeKind where
  | sandbox
  | tool
  deriving DecidableEq

structure ScopeEntry where
  kind : ScopeKind
  expiresMonotonicNs : Option ℕ
  lastSequence : ℕ
  deriving DecidableEq

def ScopeEntry.isActive (entry : ScopeEntry) (nowNs : ℕ) : Bool :=
  match entry.expiresMonotonicNs with
  | none => true
  | some expires => decide (nowNs < expires)

/-- The scope table: at most one entry for a handle. -/
abbrev ScopeTable := AList fun _ : String => ScopeEntry

structure BridgeHub where
  config : BridgeServerConfig
  /-- The shared `SequenceAllocator`: the highest sequence handed out, 0 before the first. -/
  sequence : ℕ
  connections : List ℕ
  queues : ℕ → OutboundQueue
  ackedThrough : ℕ → ℕ
  scopes : ScopeTable
  replay : List ViewMutationEnvelope
  captureGaps : ℕ
  droppedMutations : ℕ
  rejectedAnnotations : ℕ
  nextConnectionId : ℕ
  annotationsEvicted : ℕ

namespace BridgeHub

def new (config : BridgeServerConfig) : BridgeHub where
  config := config
  sequence := 0
  connections := []
  queues := fun _ => .new config.outboundCapacity
  ackedThrough := fun _ => 0
  scopes := ∅
  replay := []
  captureGaps := 0
  droppedMutations := 0
  rejectedAnnotations := 0
  nextConnectionId := 0
  annotationsEvicted := 0

/-! ### Connections and queues -/

/-- The connection's id, or `none` when the limit is reached. -/
def registerConnection (h : BridgeHub) : Option (BridgeHub × ℕ) :=
  if h.config.maxConnections ≤ h.connections.length then none
  else
    let id := h.nextConnectionId + 1
    some ({ h with
      nextConnectionId := id
      connections := h.connections ++ [id]
      queues := Function.update h.queues id (.new h.config.outboundCapacity)
      ackedThrough := Function.update h.ackedThrough id 0 }, id)

def unregisterConnection (h : BridgeHub) (id : ℕ) : BridgeHub :=
  { h with connections := h.connections.filter (· ≠ id) }

def isRegistered (h : BridgeHub) (id : ℕ) : Bool := decide (id ∈ h.connections)

/-- Push to the queue of one connection, registered or not. -/
def pushTo (h : BridgeHub) (id : ℕ) (message : BridgeMessage) : BridgeHub :=
  { h with queues := Function.update h.queues id ((h.queues id).push message).1 }

/-- Push to the queue of a registered connection; the drop count is not looked at. -/
def sendTo (h : BridgeHub) (id : ℕ) (message : BridgeMessage) : BridgeHub :=
  if h.isRegistered id then h.pushTo id message else h

/-- Push to every registered connection. -/
def pushAll (h : BridgeHub) (message : BridgeMessage) : BridgeHub :=
  { h with queues := fun id =>
      if h.isRegistered id then ((h.queues id).push message).1 else h.queues id }

/-- The number of messages `pushAll` drops to make room. -/
def droppedByPushAll (h : BridgeHub) (message : BridgeMessage) : ℕ :=
  (h.connections.map fun id => ((h.queues id).push message).2).sum

def closeQueue (h : BridgeHub) (id : ℕ) : BridgeHub :=
  { h with queues := Function.update h.queues id (h.queues id).close }

def takeQueue (h : BridgeHub) (id : ℕ) : BridgeHub :=
  { h with queues := Function.update h.queues id (h.queues id).take.1 }

def noteAck (h : BridgeHub) (id throughSequence : ℕ) : BridgeHub :=
  if h.isRegistered id then
    { h with ackedThrough :=
        Function.update h.ackedThrough id (max (h.ackedThrough id) throughSequence) }
  else h

/-! ### Broadcast -/

/-- The single active scope, when there is exactly one. -/
def activeScopeHandle (h : BridgeHub) (nowNs : ℕ) : Option String :=
  match h.scopes.entries.filter fun entry => entry.2.isActive nowNs with
  | [entry] => some entry.1
  | _ => none

/-- Attribute an envelope without a handle to the single active scope. -/
def stamp (h : BridgeHub) (nowNs : ℕ) (envelope : ViewMutationEnvelope) : ViewMutationEnvelope :=
  if envelope.scopeHandle.isNone && envelope.mutation.isScopeTaggable then
    { envelope with scopeHandle := h.activeScopeHandle nowNs }
  else envelope

@[simp]
theorem stamp_sequence (h : BridgeHub) (nowNs : ℕ) (envelope : ViewMutationEnvelope) :
    (h.stamp nowNs envelope).sequence = envelope.sequence := by
  rw [stamp]
  split <;> rfl

@[simp]
theorem stamp_operation (h : BridgeHub) (nowNs : ℕ) (envelope : ViewMutationEnvelope) :
    (h.stamp nowNs envelope).operation = envelope.operation := by
  rw [stamp]
  split <;> rfl

/-- Raise the scope's `last_sequence` to the envelope's, if its handle is registered. -/
def noteScopeSequence (scopes : ScopeTable) (envelope : ViewMutationEnvelope) : ScopeTable :=
  match envelope.scopeHandle with
  | none => scopes
  | some handle =>
    match scopes.lookup handle with
    | none => scopes
    | some scope =>
      scopes.replace handle { scope with lastSequence := max scope.lastSequence envelope.sequence }

/-- `while replay.len() > replay_capacity { replay.pop_front(); }` -/
def trimFront {α : Type*} (capacity : ℕ) : List α → List α
  | [] => []
  | x :: xs => if capacity < (x :: xs).length then trimFront capacity xs else x :: xs

/-- The loop keeps the newest `capacity` elements. -/
theorem trimFront_eq_drop {α : Type*} (capacity : ℕ) (xs : List α) :
    trimFront capacity xs = xs.drop (xs.length - capacity) := by
  induction xs with
  | nil => simp [trimFront]
  | cons x xs ih =>
    rw [trimFront]
    split
    · next h =>
      rw [ih, List.length_cons, Nat.succ_sub (by simpa [Nat.lt_succ_iff] using h),
        List.drop_succ_cons]
    · next h => rw [Nat.sub_eq_zero_of_le (not_lt.mp h), List.drop_zero]

/-- Stamp, buffer and fan out one mutation envelope. -/
def broadcast (h : BridgeHub) (nowNs : ℕ) (envelope : ViewMutationEnvelope) : BridgeHub :=
  let envelope := h.stamp nowNs envelope
  let dropped := h.droppedByPushAll (.mutation envelope)
  { h.pushAll (.mutation envelope) with
    scopes := noteScopeSequence h.scopes envelope
    replay := trimFront h.config.replayCapacity (h.replay ++ [envelope])
    droppedMutations := h.droppedMutations + dropped
    captureGaps := if 0 < dropped then h.captureGaps + 1 else h.captureGaps }

/-! ### Health, annotations and scopes -/

def health (h : BridgeHub) (nowNs : ℕ) : BridgeHealth :=
  let degraded := decide (0 < h.droppedMutations) || decide (0 < h.captureGaps)
  { state := if degraded then BridgeHealth.degraded else BridgeHealth.ok
    detail := if degraded then some "outbound queue dropped mutations" else none
    captureGaps := h.captureGaps
    droppedMutations := h.droppedMutations
    activeScopes := (h.scopes.entries.filter fun entry => entry.2.isActive nowNs).length
    aroAnnotationsEvicted := some h.annotationsEvicted }

/-- Whether one annotation may be applied; a refusal is counted. -/
def acceptsAnnotationMsg (h : BridgeHub) (nowNs : ℕ) (msg : AroAnnotation) :
    BridgeHub × Except String Unit :=
  let outcome : Except String Unit :=
    if msg.row.scopeHandle ≠ msg.scopeHandle then
      .error ("row names scope " ++ msg.row.scopeHandle ++ ", message names " ++ msg.scopeHandle)
    else
      match h.scopes.lookup msg.scopeHandle with
      | some entry =>
        if entry.isActive nowNs then .ok () else .error "scope registration has expired"
      | none => .error "scope is not registered"
  match outcome with
  | .ok () => (h, .ok ())
  | .error reason => ({ h with rejectedAnnotations := h.rejectedAnnotations + 1 }, .error reason)

def noteAnnotationsEvicted (h : BridgeHub) (evicted : ℕ) : BridgeHub :=
  { h with annotationsEvicted := evicted }

/-- Unicode `White_Space`, which `str::trim` removes. -/
def isWhite (c : Char) : Bool :=
  let n := c.toNat
  decide (9 ≤ n ∧ n ≤ 13) || n == 0x20 || n == 0x85 || n == 0xA0 || n == 0x1680 ||
    decide (0x2000 ≤ n ∧ n ≤ 0x200A) || n == 0x2028 || n == 0x2029 || n == 0x202F ||
    n == 0x205F || n == 0x3000

/-- `handle.trim().is_empty()` -/
def isBlank (handle : String) : Bool := handle.toList.all isWhite

def registerScope (h : BridgeHub) (registration : ScopeRegistration) :
    BridgeHub × Except String Unit :=
  if isBlank registration.scopeHandle then (h, .error "scope_handle must not be empty")
  else
    let entry : ScopeEntry :=
      { kind := .sandbox
        expiresMonotonicNs := registration.expiresMonotonicNs
        lastSequence := 0 }
    ({ h with scopes := h.scopes.insert registration.scopeHandle entry }, .ok ())

def registerToolScope (h : BridgeHub) (registration : ToolScopeRegistration) :
    BridgeHub × Except String Unit :=
  if isBlank registration.toolScopeHandle then
    (h, .error "tool_scope_handle must not be empty")
  else if (h.scopes.lookup registration.parentScopeHandle).isNone then
    (h, .error "unknown parent scope")
  else
    let entry : ScopeEntry :=
      { kind := .tool
        expiresMonotonicNs := registration.expiresMonotonicNs
        lastSequence := 0 }
    ({ h with scopes := h.scopes.insert registration.toolScopeHandle entry }, .ok ())

/-- Drop a scope; the last sequence attributed to it, when there is one. -/
def unregisterScope (h : BridgeHub) (handle : String) : BridgeHub × Option ℕ :=
  ({ h with scopes := h.scopes.erase handle },
    match h.scopes.lookup handle with
    | none => none
    | some entry => if 0 < entry.lastSequence then some entry.lastSequence else none)

def effectiveCapabilities (h : BridgeHub) (required : List String) : List BridgeCapability :=
  if required.isEmpty then h.config.capabilities
  else required.map fun name =>
    (h.config.capabilities.find? (·.name == name)).getD
      { name := name, available := false, detail := some "unknown capability" }

/-! ### Resume -/

/-- What `resume` returns. `overflow` is the evaluation of `after_sequence + 1` at the
greatest `u64`: a panic in a build with overflow checks, and in one without them a wrap to 0
after which every buffered sequence counts as too late. -/
inductive ResumeOutcome where
  | ok (envelopes : List ViewMutationEnvelope)
  | unavailable (earliest : Option ℕ)
  | overflow (earliest : ℕ)
  deriving DecidableEq

/-- Replay everything after `afterSequence`, or report the earliest the buffer still holds. -/
def resume (h : BridgeHub) (afterSequence : ℕ) : ResumeOutcome :=
  match h.replay.head? with
  | none => if afterSequence ≤ h.sequence then .ok [] else .unavailable none
  | some front =>
    if 2 ^ 64 ≤ afterSequence + 1 then .overflow front.sequence
    else if afterSequence + 1 < front.sequence then .unavailable (some front.sequence)
    else .ok (h.replay.filter fun envelope => decide (afterSequence < envelope.sequence))

/-! ### Allocation -/

/-- Allocate the next sequence. -/
def nextSequence (h : BridgeHub) : BridgeHub × ℕ :=
  ({ h with sequence := h.sequence + 1 }, h.sequence + 1)

/-- An envelope of the server's own, with a freshly allocated sequence. -/
def envelope (h : BridgeHub) (nowNs : ℕ) (operation : MutationOperation)
    (mutation : ViewMutation) (scopeHandle : Option String) : BridgeHub × ViewMutationEnvelope :=
  let (h, sequence) := h.nextSequence
  (h,
    { protocolVersion := bridgeProtocolVersion
      nodeId := h.config.nodeId
      bootId := h.config.bootId
      sequence := sequence
      observedWallMs := none
      observedMonotonicNs := some nowNs
      basis := .bootMonotonic
      sourceComponent := "agentsight-collector"
      sourceVersion := h.config.productVersion
      scopeHandle := scopeHandle
      operation := operation
      mutation := mutation })

/-! ### Queues and registrations after each operation -/

section Api

variable (h : BridgeHub) (id j : ℕ)

@[simp]
theorem isRegistered_pushTo (message : BridgeMessage) :
    (h.pushTo id message).isRegistered j = h.isRegistered j := rfl

@[simp]
theorem pushTo_queues_self (message : BridgeMessage) :
    (h.pushTo id message).queues id = ((h.queues id).push message).1 := by
  simp [pushTo]

@[simp]
theorem isRegistered_closeQueue : (h.closeQueue id).isRegistered j = h.isRegistered j := rfl

@[simp]
theorem closeQueue_queues_self : (h.closeQueue id).queues id = (h.queues id).close := by
  simp [closeQueue]

@[simp]
theorem isRegistered_takeQueue : (h.takeQueue id).isRegistered j = h.isRegistered j := rfl

@[simp]
theorem takeQueue_queues_self : (h.takeQueue id).queues id = (h.queues id).take.1 := by
  simp [takeQueue]

@[simp]
theorem isRegistered_unregisterConnection_self :
    (h.unregisterConnection id).isRegistered id = false := by
  simp [isRegistered, unregisterConnection]

@[simp]
theorem unregisterConnection_queues : (h.unregisterConnection id).queues = h.queues := rfl

variable {id j}

theorem pushTo_queues_of_ne (hj : j ≠ id) (message : BridgeMessage) :
    (h.pushTo id message).queues j = h.queues j :=
  Function.update_of_ne hj ..

theorem closeQueue_queues_of_ne (hj : j ≠ id) : (h.closeQueue id).queues j = h.queues j :=
  Function.update_of_ne hj ..

theorem takeQueue_queues_of_ne (hj : j ≠ id) : (h.takeQueue id).queues j = h.queues j :=
  Function.update_of_ne hj ..

theorem isRegistered_unregisterConnection_of_ne (hj : j ≠ id) :
    (h.unregisterConnection id).isRegistered j = h.isRegistered j := by
  simp [isRegistered, unregisterConnection, hj]

variable (nowNs : ℕ) (operation : MutationOperation) (mutation : ViewMutation)
  (scopeHandle : Option String)

@[simp]
theorem isRegistered_envelope :
    (h.envelope nowNs operation mutation scopeHandle).1.isRegistered j = h.isRegistered j := rfl

@[simp]
theorem envelope_queues :
    (h.envelope nowNs operation mutation scopeHandle).1.queues = h.queues := rfl

end Api

end BridgeHub

end AgentSight.Bridge
