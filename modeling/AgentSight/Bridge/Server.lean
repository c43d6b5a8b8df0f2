import AgentSight.Bridge.Hub
import AgentSight.Lib.Transition

/-!
# The bridge server as a transition system

The hub, the capture pipeline that feeds it, and for every connection the two tasks of
`serve_connection`: the reader, which handles inbound messages, and `writer_loop`. One action
is one critical section, one atomic allocation or one finished write, so a run is an
interleaving of all the tasks.

* The pipeline holds the view lock from the allocation of a sequence to the broadcast of the
  envelope, so at most one `emission` is in flight; other tasks allocate in between.
* A reader works through a list of `ReaderOp`s, the lock-sized pieces of `handle_message`.
* A writer holds what it took from the queue. The gap notice is numbered when it is built
  and written before the messages.
* The listener keeps accepting; a shutdown notice only reaches the registered connections.
* `log`, `since`, `resumes` and `sent` are history: every envelope broadcast, how many had
  been when the connection registered, the resumes it was answered and the messages written
  to it. No step reads them.

`bodyBytes` is the length of the CBOR body of a message, which `encode_frame` compares with
the limit. Reads, timeouts, I/O failures and the answers of the view are inputs of a run.
-/

namespace AgentSight.Bridge

/-! ### Tasks -/

/-- One lock-sized piece of the reader's work. -/
inductive ReaderOp where
  | sendTo (message : BridgeMessage)
  | sendHealth
  | registerScope (registration : ScopeRegistration)
  | registerToolScope (registration : ToolScopeRegistration)
  | unregisterScope (scopeHandle : String)
  | noteAck (throughSequence : ℕ)
  | resume (request : ResumeRequest)
  | acceptsAnnotationMsg (msg : AroAnnotation)
  | applyAnnotationMsg (msg : AroAnnotation)
  | snapshotMutations (scopeHandle : Option String)
  | snapshotCurrent (mutations : List ViewMutation) (scopeHandle : Option String)
  | snapshotRows (mutations : List ViewMutation) (scopeHandle : Option String) (throughSequence : ℕ)
  | pushShutdown (reason : String)
  | closeQueue
  | unregister
  deriving DecidableEq

/-- Where `writer_loop` stands: holding what it took from the queue (`writing none []` is the
top of the loop), about to write a numbered gap notice, after an empty take, waiting to be
notified, between a heartbeat and the health that follows it, or finished. -/
inductive Writer where
  | writing (gap : Option (ℕ × ℕ)) (messages : List BridgeMessage)
  | notice (envelope : ViewMutationEnvelope) (messages : List BridgeMessage)
  | emptied
  | waiting
  | beat
  | done
  deriving DecidableEq

structure Peer where
  negotiated : Bool
  /-- The reader still reads frames. -/
  serving : Bool
  reader : List ReaderOp
  writer : Writer
  /-- Host-sessions queries handed to the blocking pool and not yet answered. -/
  hostQueries : ℕ
  /-- History: the length of the log when the connection registered. -/
  since : ℕ
  /-- History: the `after_sequence` of every resume answered. -/
  resumes : List ℕ
  /-- History: the messages written, in order. -/
  sent : List BridgeMessage
  deriving DecidableEq

def Peer.new (since : ℕ) : Peer where
  negotiated := false
  serving := true
  reader := []
  writer := .writing none []
  hostQueries := 0
  since := since
  resumes := []
  sent := []

structure Server where
  hub : BridgeHub
  peers : ℕ → Peer
  /-- Numbered under the view lock, not yet broadcast. -/
  emission : Option ViewMutationEnvelope
  /-- History: every envelope broadcast, as it was fanned out. -/
  log : List ViewMutationEnvelope

def Server.init (config : BridgeServerConfig) : Server where
  hub := .new config
  peers := fun _ => .new 0
  emission := none
  log := []

/-! ### The reader -/

inductive Flow where
  | continue
  | close
  deriving DecidableEq

/-- `handle_message`: what the reader will do, the new `negotiated`, and whether to go on. -/
def handleMessage (config : BridgeServerConfig) (negotiated : Bool) (message : BridgeMessage) :
    List ReaderOp × Bool × Flow :=
  if !negotiated then
    match message with
    | .hello hello =>
      if bridgeProtocolVersion ∉ hello.supportedVersions then
        ([.sendTo (.helloRejected "no shared protocol version; server speaks v1")], false, .close)
      else
        ([.sendTo (.agreement
            { protocolVersion := bridgeProtocolVersion
              product := product
              productVersion := config.productVersion
              buildCommit := config.buildCommit
              binaryDigest := none
              nodeId := config.nodeId
              bootId := config.bootId
              capabilities := config.capabilities
              maxFrameBytes := max (min hello.maxFrameBytes config.maxFrameBytes) 1024 }),
          .sendHealth], true, .continue)
    | _ => ([.sendTo (.helloRejected "first bridge frame must be hello")], false, .close)
  else
    match message with
    | .hello _ => ([.sendTo (.helloRejected "hello already negotiated")], true, .continue)
    | .registerScope registration => ([.registerScope registration], true, .continue)
    | .registerToolScope registration => ([.registerToolScope registration], true, .continue)
    | .unregisterScope scopeHandle => ([.unregisterScope scopeHandle], true, .continue)
    | .ack throughSequence => ([.noteAck throughSequence], true, .continue)
    | .resume request => ([.resume request], true, .continue)
    | .annotationMsg msg => ([.acceptsAnnotationMsg msg], true, .continue)
    | .snapshotRequest scopeHandle => ([.snapshotMutations scopeHandle], true, .continue)
    | .shutdown _ => ([], true, .close)
    -- A host-sessions query leaves the reader at once (`Peer.hostQueries`); heartbeats and
    -- server-originated messages are ignored.
    | _ => ([], true, .continue)

/-- The `after_sequence` a piece answers. -/
def ReaderOp.resumes : ReaderOp → List ℕ
  | .resume request => [request.afterSequence]
  | _ => []

/-- What a piece of the reader's work reads from outside the hub: the clock, the rows the view
would reconstruct, the view's eviction count after an annotation. -/
structure ReaderInput where
  nowNs : ℕ
  mutations : List ViewMutation
  evicted : ℕ
  deriving DecidableEq

/-- The messages a resume is answered with. -/
def resumeReplies : BridgeHub.ResumeOutcome → List BridgeMessage
  | .ok envelopes => envelopes.map .mutation
  | .unavailable earliest => [.resumeUnavailable earliest]
  -- After a wrap, `earliest > 0` holds of every buffered sequence.
  | .overflow earliest => [.resumeUnavailable (some earliest)]

/-- Execute one piece: the new hub and the pieces that take its place. `viewFree` says that
the view lock is not held; `none` means that the reader has to wait for it. -/
def ReaderOp.exec (h : BridgeHub) (id : ℕ) (viewFree : Bool) (input : ReaderInput) :
    ReaderOp → Option (BridgeHub × List ReaderOp)
  | .sendTo message => some (h.sendTo id message, [])
  | .sendHealth => some (h, [.sendTo (.health (h.health input.nowNs))])
  | .registerScope registration =>
    match h.registerScope registration with
    | (h', .ok ()) => some (h', [.sendTo (.scopeAccepted registration.scopeHandle
        (h.effectiveCapabilities registration.requiredCapabilities))])
    | (h', .error reason) =>
      some (h', [.sendTo (.scopeRejected registration.scopeHandle reason)])
  | .registerToolScope registration =>
    match h.registerToolScope registration with
    | (h', .ok ()) => some (h', [.sendTo (.scopeAccepted registration.toolScopeHandle
        (h.effectiveCapabilities []))])
    | (h', .error reason) =>
      some (h', [.sendTo (.scopeRejected registration.toolScopeHandle reason)])
  | .unregisterScope scopeHandle =>
    let (h', flushedThrough) := h.unregisterScope scopeHandle
    some (h', [.sendTo (.scopeUnregistered scopeHandle flushedThrough)])
  | .noteAck throughSequence => some (h.noteAck id throughSequence, [])
  | .resume request => some (h, (resumeReplies (h.resume request.afterSequence)).map .sendTo)
  | .acceptsAnnotationMsg msg =>
    match h.acceptsAnnotationMsg input.nowNs msg with
    | (h', .ok ()) => some (h', [.applyAnnotationMsg msg])
    | (h', .error _) => some (h', [])
  | .applyAnnotationMsg _ =>
    if viewFree then some (h.noteAnnotationsEvicted input.evicted, []) else none
  | .snapshotMutations scopeHandle =>
    if viewFree then
      some (h, [.sendTo (.snapshotBegin input.mutations.length true),
        .snapshotCurrent input.mutations scopeHandle])
    else none
  | .snapshotCurrent mutations scopeHandle =>
    some (h, [.snapshotRows mutations scopeHandle h.sequence])
  | .snapshotRows [] _ throughSequence => some (h, [.sendTo (.snapshotEnd throughSequence)])
  | .snapshotRows (mutation :: mutations) scopeHandle _ =>
    let (h', envelope) := h.envelope input.nowNs .snapshotReconstruction mutation scopeHandle
    some (h', [.sendTo (.mutation envelope), .snapshotRows mutations scopeHandle envelope.sequence])
  | .pushShutdown reason => some (h.pushTo id (.shutdown reason), [])
  | .closeQueue => some (h.closeQueue id, [])
  | .unregister => some (h.unregisterConnection id, [])

/-- What `serve_connection` does once the reader has returned. -/
def tearDown : List ReaderOp := [.closeQueue, .unregister]

/-! ### The writer -/

/-- The message the writer writes next, and the writer after it. -/
def Writer.next : Writer → Option (BridgeMessage × Writer)
  | .notice envelope messages => some (.mutation envelope, .writing none messages)
  | .writing none (message :: messages) => some (message, .writing none messages)
  | _ => none

/-- The writer after a take. -/
def Writer.ofTaken (gap : Option (ℕ × ℕ)) (messages : List BridgeMessage) : Writer :=
  if messages = [] ∧ gap = none then .emptied else .writing gap messages

/-- Whether a write may be in progress. -/
def Writer.isWriting (w : Writer) : Bool :=
  w.next.isSome || decide (w = .waiting) || decide (w = .beat)

/-! ### Actions -/

inductive Action where
  /-- The pipeline numbers a mutation, under the view lock. -/
  | allocate (operation : MutationOperation) (mutation : ViewMutation)
      (observedWallMs : Option ℕ) (basis : TimestampBasis)
  | broadcast (nowNs : ℕ)
  | connect
  | receive (id : ℕ) (message : BridgeMessage)
  /-- End of stream, a read error or a framing error. -/
  | hangUp (id : ℕ)
  | idleTimeout (id : ℕ)
  | read (id : ℕ) (input : ReaderInput)
  | hostSessions (id : ℕ) (answer : Option (ℕ × List HostSessionRow))
  | take (id : ℕ)
  | checkClosed (id : ℕ)
  | wake (id : ℕ)
  | numberGap (id : ℕ) (nowNs : ℕ)
  | write (id : ℕ)
  | heartbeat (id : ℕ) (nowNs : ℕ)
  | writeFails (id : ℕ)
  | shutdown (reason : String)
  deriving DecidableEq

namespace Server

variable (bodyBytes : BridgeMessage → ℕ)

def setPeer (s : Server) (id : ℕ) (peer : Peer) : Server :=
  { s with peers := Function.update s.peers id peer }

/-- Whether a connection with this id has been registered. -/
def isPeer (s : Server) (id : ℕ) : Bool := decide (0 < id ∧ id ≤ s.hub.nextConnectionId)

/-- Finish a write: a message that does not fit the frame limit ends the writer. -/
def finishWrite (s : Server) (id : ℕ) (message : BridgeMessage) (writer : Writer) : Server :=
  let peer := s.peers id
  if bodyBytes message ≤ s.hub.config.maxFrameBytes then
    s.setPeer id { peer with sent := peer.sent ++ [message], writer := writer }
  else s.setPeer id { peer with writer := .done }

/-- The envelope `MutationEmitter::envelope` builds. -/
def emitterEnvelope (h : BridgeHub) (sequence : ℕ) (operation : MutationOperation)
    (mutation : ViewMutation) (observedWallMs : Option ℕ) (basis : TimestampBasis) :
    ViewMutationEnvelope where
  protocolVersion := bridgeProtocolVersion
  nodeId := h.config.nodeId
  bootId := h.config.bootId
  sequence := sequence
  observedWallMs := observedWallMs
  observedMonotonicNs := none
  basis := basis
  sourceComponent := "agentsight-capture"
  sourceVersion := h.config.productVersion
  scopeHandle := none
  operation := operation
  mutation := mutation

/-- One step of the server; `none` when the action is not enabled. -/
def step (s : Server) : Action → Option Server
  | .allocate operation mutation observedWallMs basis =>
    -- No emitter method uses the operation reserved for snapshots.
    if s.emission.isNone ∧ operation ≠ .snapshotReconstruction then
      let (hub, sequence) := s.hub.nextSequence
      some { s with
        hub := hub
        emission := some (emitterEnvelope hub sequence operation mutation observedWallMs basis) }
    else none
  | .broadcast nowNs =>
    s.emission.map fun envelope =>
      { s with
        hub := s.hub.broadcast nowNs envelope
        emission := none
        log := s.log ++ [s.hub.stamp nowNs envelope] }
  | .connect =>
    s.hub.registerConnection.map fun (hub, id) =>
      { s with hub := hub }.setPeer id (.new s.log.length)
  | .receive id message =>
    let peer := s.peers id
    if s.isPeer id ∧ peer.serving ∧ peer.reader = [] then
      let (ops, negotiated, flow) := handleMessage s.hub.config peer.negotiated message
      let query := decide (peer.negotiated ∧ message = .hostSessionsQuery)
      some (s.setPeer id { peer with
        negotiated := negotiated
        serving := decide (flow = .continue)
        reader := ops ++ if flow = .close then tearDown else []
        hostQueries := peer.hostQueries + query.toNat })
    else none
  | .hangUp id =>
    let peer := s.peers id
    if s.isPeer id ∧ peer.serving ∧ peer.reader = [] then
      some (s.setPeer id { peer with serving := false, reader := tearDown })
    else none
  | .idleTimeout id =>
    let peer := s.peers id
    if s.isPeer id ∧ peer.serving ∧ peer.reader = [] then
      some (s.setPeer id { peer with
        serving := false
        reader := .pushShutdown "bridge idle timeout" :: tearDown })
    else none
  | .read id input =>
    let peer := s.peers id
    match peer.reader with
    | [] => none
    | op :: ops =>
      (op.exec s.hub id s.emission.isNone input).map fun (hub, ops') =>
        { s with hub := hub }.setPeer id { peer with
          reader := ops' ++ ops
          resumes := peer.resumes ++ op.resumes }
  | .hostSessions id answer =>
    let peer := s.peers id
    if 0 < peer.hostQueries then
      let hub := match answer with
        | some (generatedMs, sessions) =>
          s.hub.sendTo id (.hostSessionsSnapshot generatedMs sessions)
        | none => s.hub
      some ({ s with hub := hub }.setPeer id { peer with hostQueries := peer.hostQueries - 1 })
    else none
  | .take id =>
    let peer := s.peers id
    if s.isPeer id ∧ peer.writer = .writing none [] then
      let (_, messages, gap) := (s.hub.queues id).take
      some ({ s with hub := s.hub.takeQueue id }.setPeer id
        { peer with writer := .ofTaken gap messages })
    else none
  | .checkClosed id =>
    let peer := s.peers id
    if peer.writer = .emptied then
      let writer := if (s.hub.queues id).closed then .done else .waiting
      some (s.setPeer id { peer with writer := writer })
    else none
  | .wake id =>
    let peer := s.peers id
    if peer.writer = .waiting then
      some (s.setPeer id { peer with writer := .writing none [] })
    else none
  | .numberGap id nowNs =>
    let peer := s.peers id
    match peer.writer with
    | .writing (some (lo, hi)) messages =>
      let (hub, envelope) := s.hub.envelope nowNs .insert
        (.captureGapObserved lo hi "bridge outbound queue overflow") none
      some ({ s with hub := hub }.setPeer id { peer with writer := .notice envelope messages })
    | _ => none
  | .write id =>
    (s.peers id).writer.next.map fun (message, writer) =>
      s.finishWrite bodyBytes id message writer
  | .heartbeat id nowNs =>
    match (s.peers id).writer with
    | .waiting => some (s.finishWrite bodyBytes id (.heartbeat nowNs) .beat)
    | .beat =>
      some (s.finishWrite bodyBytes id (.health (s.hub.health nowNs)) (.writing none []))
    | _ => none
  | .writeFails id =>
    let peer := s.peers id
    if peer.writer.isWriting then some (s.setPeer id { peer with writer := .done }) else none
  | .shutdown reason => some { s with hub := s.hub.pushAll (.shutdown reason) }

end Server

end AgentSight.Bridge
