import AgentSight.Bridge.Effect

/-!
# What one step does to one connection

A `Link` is all the server keeps of one connection: whether it is registered, its queue and
its two tasks. `Conn` forgets what the reader will do next and which actions made it; the
facts about handshakes, replies and frame limits need both. `step_link` says what each action
does to the link of each connection, and that no other action touches it.
-/

namespace AgentSight.Bridge

open Option ReaderOp BridgeHub

structure Link where
  registered : Bool
  queue : OutboundQueue
  peer : Peer

def Server.link (s : Server) (id : ℕ) : Link where
  registered := s.hub.isRegistered id
  queue := s.hub.queues id
  peer := s.peers id

/-! ### The reader's work -/

/-- The pieces that one piece of the reader's work leaves in its place. -/
inductive ReaderOp.Leaves (h : BridgeHub) (viewFree : Bool) (input : ReaderInput) :
    ReaderOp → List ReaderOp → Prop
  | done {op} : Leaves h viewFree input op []
  | health : Leaves h viewFree input .sendHealth [.sendTo (.health (h.health input.nowNs))]
  | accepted {op handle effective} :
      Leaves h viewFree input op [.sendTo (.scopeAccepted handle effective)]
  | rejected {op handle reason} :
      Leaves h viewFree input op [.sendTo (.scopeRejected handle reason)]
  | unregistered {handle} : Leaves h viewFree input (.unregisterScope handle)
      [.sendTo (.scopeUnregistered handle (h.unregisterScope handle).2)]
  | replayed {request} : Leaves h viewFree input (.resume request)
      ((resumeReplies (h.resume request.afterSequence)).map .sendTo)
  | annotated {msg} : Leaves h viewFree input (.acceptsAnnotationMsg msg) [.applyAnnotationMsg msg]
  | copied {handle} (hfree : viewFree = true) : Leaves h viewFree input (.snapshotMutations handle)
      [.sendTo (.snapshotBegin input.mutations.length true),
        .snapshotCurrent input.mutations handle]
  | current {mutations handle} : Leaves h viewFree input (.snapshotCurrent mutations handle)
      [.snapshotRows mutations handle h.sequence]
  | row {mutation mutations handle through} :
      Leaves h viewFree input (.snapshotRows (mutation :: mutations) handle through)
        [.sendTo (.mutation (h.envelope input.nowNs .snapshotReconstruction mutation handle).2),
          .snapshotRows mutations handle
            (h.envelope input.nowNs .snapshotReconstruction mutation handle).2.sequence]
  | ended {handle through} : Leaves h viewFree input (.snapshotRows [] handle through)
      [.sendTo (.snapshotEnd through)]

variable {input : ReaderInput} {id : ℕ} {op : ReaderOp} {ops : List ReaderOp} {viewFree : Bool}

theorem ReaderOp.exec_leaves {h h' : BridgeHub}
    (hexec : op.exec h id viewFree input = some (h', ops)) :
    op.Leaves h viewFree input ops := by
  cases op with
  | sendHealth =>
    cases hexec
    exact .health
  | registerScope r =>
    rcases hr : h.registerScope r with ⟨h₁, _ | _⟩ <;>
      simp only [exec, hr, some.injEq, Prod.mk.injEq] at hexec <;>
      obtain ⟨-, rfl⟩ := hexec
    · exact .rejected
    · exact .accepted
  | registerToolScope r =>
    rcases hr : h.registerToolScope r with ⟨h₁, _ | _⟩ <;>
      simp only [exec, hr, some.injEq, Prod.mk.injEq] at hexec <;>
      obtain ⟨-, rfl⟩ := hexec
    · exact .rejected
    · exact .accepted
  | unregisterScope handle =>
    cases hexec
    exact .unregistered
  | resume request =>
    cases hexec
    exact .replayed
  | acceptsAnnotationMsg msg =>
    rcases hr : h.acceptsAnnotationMsg input.nowNs msg with ⟨h₁, _ | _⟩ <;>
      simp only [exec, hr, some.injEq, Prod.mk.injEq] at hexec <;>
      obtain ⟨-, rfl⟩ := hexec
    · exact .done
    · exact .annotated
  | applyAnnotationMsg msg =>
    simp only [exec, ite_none_right_eq_some, some.injEq, Prod.mk.injEq] at hexec
    obtain ⟨-, -, rfl⟩ := hexec
    exact .done
  | snapshotMutations handle =>
    simp only [exec, ite_none_right_eq_some, some.injEq, Prod.mk.injEq] at hexec
    obtain ⟨hfree, -, rfl⟩ := hexec
    exact .copied hfree
  | snapshotCurrent mutations handle =>
    cases hexec
    exact .current
  | snapshotRows mutations handle through =>
    cases mutations with
    | nil =>
      cases hexec
      exact .ended
    | cons mutation mutations =>
      cases hexec
      exact .row
  | _ =>
    obtain ⟨-, rfl⟩ := hexec
    exact .done

/-! ### Links -/

/-- The connection the action belongs to. -/
def Action.target : Action → Option ℕ
  | .receive id _ | .hangUp id | .idleTimeout id | .read id _ | .hostSessions id _ | .take id
  | .checkClosed id | .wake id | .numberGap id _ | .write id | .heartbeat id _
  | .writeFails id => some id
  | .allocate .. | .broadcast _ | .connect | .shutdown _ => none

/-- The action may change the link of every connection. -/
def Action.isShared : Action → Bool
  | .broadcast _ | .connect | .shutdown _ => true
  | _ => false

namespace Link

/-- Push to the queue of a registered connection. -/
def deliver (l : Link) (message : BridgeMessage) : Link :=
  { l with queue := if l.registered then (l.queue.push message).1 else l.queue }

@[simp]
theorem deliver_registered (l : Link) (message : BridgeMessage) :
    (l.deliver message).registered = l.registered := rfl

@[simp]
theorem deliver_peer (l : Link) (message : BridgeMessage) : (l.deliver message).peer = l.peer := rfl

/-- Finish a write. -/
def finishWrite (l : Link) (fits : Prop) [Decidable fits] (message : BridgeMessage)
    (writer : Writer) : Link :=
  if fits then { l with peer := { l.peer with sent := l.peer.sent ++ [message], writer } }
  else { l with peer := { l.peer with writer := .done } }

/-- The link after one piece of the reader's work, which leaves `ops` to do. -/
def worked (l : Link) (op : ReaderOp) (ops : List ReaderOp) : Link :=
  let peer := { l.peer with reader := ops, resumes := l.peer.resumes ++ op.resumes }
  match op with
  | .sendTo message => { l.deliver message with peer }
  | .pushShutdown reason => { l with queue := (l.queue.push (.shutdown reason)).1, peer }
  | .closeQueue => { l with queue := l.queue.close, peer }
  | .unregister => { l with registered := false, peer }
  | _ => { l with peer }

/-- What an action does to the connection `i`. -/
inductive Step (bodyBytes : BridgeMessage → ℕ) (s : Server) (i : ℕ) (l : Link) :
    Action → Link → Prop
  | untouched {a} (htarget : a.target ≠ some i) (hshared : a.isShared = false) : Step _ s i l a l
  | passedOver (h : i ≠ s.hub.nextConnectionId + 1) : Step _ s i l .connect l
  | opened (h : i = s.hub.nextConnectionId + 1) : Step _ s i l .connect
      { registered := true, queue := .new s.hub.config.outboundCapacity
        peer := .new s.log.length }
  | fanned {nowNs envelope} (h : s.emission = some envelope) :
      Step _ s i l (.broadcast nowNs) (l.deliver (.mutation (s.hub.stamp nowNs envelope)))
  | notified {reason} : Step _ s i l (.shutdown reason) (l.deliver (.shutdown reason))
  | received {message ops negotiated flow} (hpeer : s.isPeer i) (hserving : l.peer.serving = true)
      (hreader : l.peer.reader = [])
      (h : handleMessage s.hub.config l.peer.negotiated message = (ops, negotiated, flow)) :
      Step _ s i l (.receive i message) { l with peer :=
          { l.peer with
            negotiated := negotiated
            serving := decide (flow = .continue)
            reader := ops ++ if flow = .close then tearDown else []
            hostQueries := l.peer.hostQueries +
              (decide (l.peer.negotiated ∧ message = .hostSessionsQuery)).toNat } }
  | hungUp (hpeer : s.isPeer i) (hserving : l.peer.serving = true) (hreader : l.peer.reader = []) :
      Step _ s i l (.hangUp i)
        { l with peer := { l.peer with serving := false, reader := tearDown } }
  | timedOut (hpeer : s.isPeer i) (hserving : l.peer.serving = true)
      (hreader : l.peer.reader = []) : Step _ s i l (.idleTimeout i) { l with peer :=
          { l.peer with
            serving := false
            reader := .pushShutdown "bridge idle timeout" :: tearDown } }
  | read {input op ops hub ops'} (hreader : l.peer.reader = op :: ops)
      (hexec : op.exec s.hub i s.emission.isNone input = some (hub, ops')) :
      Step _ s i l (.read i input) (l.worked op (ops' ++ ops))
  | answered {generatedMs sessions} (hquery : 0 < l.peer.hostQueries) :
      Step _ s i l (.hostSessions i (some (generatedMs, sessions)))
        { l.deliver (.hostSessionsSnapshot generatedMs sessions) with
          peer := { l.peer with hostQueries := l.peer.hostQueries - 1 } }
  | unanswered (hquery : 0 < l.peer.hostQueries) : Step _ s i l (.hostSessions i none)
      { l with peer := { l.peer with hostQueries := l.peer.hostQueries - 1 } }
  | took (hpeer : s.isPeer i) (hwriter : l.peer.writer = .writing none []) :
      Step _ s i l (.take i) { l with
          queue := l.queue.take.1
          peer := { l.peer with writer := .ofTaken l.queue.pendingGap l.queue.items } }
  | checked (hwriter : l.peer.writer = .emptied) : Step _ s i l (.checkClosed i)
      { l with peer := { l.peer with writer := if l.queue.closed then .done else .waiting } }
  | woke (hwriter : l.peer.writer = .waiting) : Step _ s i l (.wake i)
      { l with peer := { l.peer with writer := .writing none [] } }
  | numbered {nowNs lo hi messages} (hwriter : l.peer.writer = .writing (some (lo, hi)) messages) :
      Step _ s i l (.numberGap i nowNs) { l with peer :=
          { l.peer with
            writer := .notice (s.hub.envelope nowNs .insert
              (.captureGapObserved lo hi "bridge outbound queue overflow") none).2 messages } }
  | wrote {message writer} (hwriter : l.peer.writer.next = some (message, writer)) :
      Step bodyBytes s i l (.write i)
        (l.finishWrite (bodyBytes message ≤ s.hub.config.maxFrameBytes) message writer)
  | beat {nowNs} (hwriter : l.peer.writer = .waiting) : Step bodyBytes s i l (.heartbeat i nowNs)
        (l.finishWrite (bodyBytes (.heartbeat nowNs) ≤ s.hub.config.maxFrameBytes)
          (.heartbeat nowNs) .beat)
  | reported {nowNs} (hwriter : l.peer.writer = .beat) : Step bodyBytes s i l (.heartbeat i nowNs)
        (l.finishWrite (bodyBytes (.health (s.hub.health nowNs)) ≤ s.hub.config.maxFrameBytes)
          (.health (s.hub.health nowNs)) (.writing none []))
  | failed (hwriter : l.peer.writer.isWriting = true) : Step _ s i l (.writeFails i)
      { l with peer := { l.peer with writer := .done } }

end Link

/-- The operation registers no connection and counts no loss. -/
structure BridgeHub.CountsAs (h h' : BridgeHub) : Prop where
  connections : h'.connections.Sublist h.connections
  nextConnectionId : h'.nextConnectionId = h.nextConnectionId
  droppedMutations : h'.droppedMutations = h.droppedMutations
  captureGaps : h'.captureGaps = h.captureGaps

/-- What a step leaves the reader of the connection `i` to do: what it had, what a message asks
for, what ends a connection, or the rest after one piece. -/
inductive Server.Work (s s' : Server) (i : ℕ) : Action → Prop
  | kept {a} (hread : ∀ input, a ≠ .read i input)
      (h : (s'.peers i).reader = (s.peers i).reader) : Work s s' i a
  | received {message ops negotiated flow}
      (hhandle : handleMessage s.hub.config (s.peers i).negotiated message =
        (ops, negotiated, flow))
      (h : (s'.peers i).reader = ops ++ if flow = .close then tearDown else []) :
      Work s s' i (.receive i message)
  | closing {a} (hread : ∀ input, a ≠ .read i input) (h : ∀ op ∈ (s'.peers i).reader,
      op = .pushShutdown "bridge idle timeout" ∨ op ∈ tearDown) : Work s s' i a
  | read {input op ops ops'} (hreader : (s.peers i).reader = op :: ops)
      (hexec : op.exec s.hub i s.emission.isNone input = some (s'.hub, ops'))
      (h : (s'.peers i).reader = ops' ++ ops) : Work s s' i (.read i input)

namespace Server

variable {bodyBytes : BridgeMessage → ℕ} {s s' : Server} {a : Action}

@[simp]
theorem link_setPeer_self (hub : BridgeHub) (id : ℕ) (peer : Peer) :
    ({ s with hub := hub }.setPeer id peer).link id =
      { registered := hub.isRegistered id, queue := hub.queues id, peer := peer } := by
  simp [link, setPeer, Function.update_self]

variable {hub : BridgeHub}

theorem link_setPeer_of_ne {i : ℕ} (peer : Peer) (hi : i ≠ id)
    (hreg : hub.isRegistered i = s.hub.isRegistered i)
    (hqueue : hub.queues i = s.hub.queues i) :
    ({ s with hub := hub }.setPeer id peer).link i = s.link i := by
  simp [link, setPeer, Function.update_of_ne hi, hreg, hqueue]

theorem link_setPeer_same (id : ℕ) (peer : Peer) :
    (s.setPeer id peer).link id = { s.link id with peer := peer } :=
  link_setPeer_self s.hub id peer

theorem link_setPeer_same_of_ne {i : ℕ} (peer : Peer) (hi : i ≠ id) :
    (s.setPeer id peer).link i = s.link i :=
  link_setPeer_of_ne peer hi rfl rfl

theorem link_sendTo (id : ℕ) (message : BridgeMessage) (peer : Peer) :
    ({ s with hub := s.hub.sendTo id message }.setPeer id peer).link id =
      { (s.link id).deliver message with peer } := by
  rw [link_setPeer_self, BridgeHub.sendTo]
  cases hreg : s.hub.isRegistered id <;> simp [link, Link.deliver, hreg]

theorem link_sendTo_of_ne {i : ℕ} (message : BridgeMessage) (peer : Peer) (hi : i ≠ id) :
    ({ s with hub := s.hub.sendTo id message }.setPeer id peer).link i = s.link i := by
  rw [BridgeHub.sendTo]
  split_ifs
  · exact link_setPeer_of_ne peer hi rfl (BridgeHub.pushTo_queues_of_ne _ hi _)
  · exact link_setPeer_of_ne peer hi rfl rfl

theorem link_finishWrite (id : ℕ) (message : BridgeMessage) (writer : Writer) :
    (s.finishWrite bodyBytes id message writer).link id =
      (s.link id).finishWrite (bodyBytes message ≤ s.hub.config.maxFrameBytes) message writer := by
  rw [finishWrite, Link.finishWrite]
  split_ifs <;> exact link_setPeer_same id _

theorem link_finishWrite_of_ne {i : ℕ} (message : BridgeMessage) (writer : Writer)
    (hi : i ≠ id) : (s.finishWrite bodyBytes id message writer).link i = s.link i := by
  rw [finishWrite]
  split_ifs <;> exact link_setPeer_same_of_ne _ hi

/-- A piece that leaves queues and registrations alone. -/
private theorem link_quiet
    (hq : s.hub.Quiet hub) (hop : (s.link id).worked op ops = { s.link id with peer :=
        { s.peers id with reader := ops, resumes := (s.peers id).resumes ++ op.resumes } }) :
    ({ s with hub := hub }.setPeer id
      { s.peers id with reader := ops, resumes := (s.peers id).resumes ++ op.resumes }).link id =
      (s.link id).worked op ops := by
  rw [hop, link_setPeer_self, hq.isRegistered, hq.queues]
  rfl

/-- One piece of the reader's work, seen from its own connection and from another. -/
theorem exec_link {ops' : List ReaderOp}
    (hexec : op.exec s.hub id viewFree input = some (hub, ops')) (ops : List ReaderOp) :
    ({ s with hub := hub }.setPeer id
        { s.peers id with reader := ops, resumes := (s.peers id).resumes ++ op.resumes }).link
        id = (s.link id).worked op ops ∧
      ∀ i, i ≠ id → hub.isRegistered i = s.hub.isRegistered i ∧ hub.queues i = s.hub.queues i := by
  have hquiet (hq : s.hub.Quiet hub) : ∀ i, i ≠ id →
      hub.isRegistered i = s.hub.isRegistered i ∧ hub.queues i = s.hub.queues i :=
    fun i _ => ⟨hq.isRegistered i, by rw [hq.queues]⟩
  cases op with
  | sendTo message =>
    obtain ⟨rfl, -⟩ : s.hub.sendTo id message = hub ∧ [] = ops' := by
      simpa [exec] using hexec
    refine ⟨link_sendTo id message _, fun i hi => ?_⟩
    have := link_sendTo_of_ne (s := s) message (s.peers id) hi
    simp only [link, Link.mk.injEq] at this
    exact ⟨this.1, this.2.1⟩
  | registerScope r =>
    have hq := BridgeHub.quiet_registerScope (h := s.hub) r
    rcases hr : s.hub.registerScope r with ⟨h₁, _ | _⟩ <;> rw [hr] at hq <;>
      simp only [exec, hr, some.injEq, Prod.mk.injEq] at hexec <;>
      obtain ⟨rfl, -⟩ := hexec <;>
      exact ⟨link_quiet hq rfl, hquiet hq⟩
  | registerToolScope r =>
    have hq := BridgeHub.quiet_registerToolScope (h := s.hub) r
    rcases hr : s.hub.registerToolScope r with ⟨h₁, _ | _⟩ <;> rw [hr] at hq <;>
      simp only [exec, hr, some.injEq, Prod.mk.injEq] at hexec <;>
      obtain ⟨rfl, -⟩ := hexec <;>
      exact ⟨link_quiet hq rfl, hquiet hq⟩
  | unregisterScope handle =>
    obtain ⟨rfl, -⟩ : (s.hub.unregisterScope handle).1 = hub ∧ [_] = ops' := by
      simpa [exec] using hexec
    exact ⟨link_quiet ⟨rfl, rfl, rfl, rfl, rfl⟩ rfl, fun _ _ => ⟨rfl, rfl⟩⟩
  | noteAck n =>
    obtain ⟨rfl, -⟩ : s.hub.noteAck id n = hub ∧ [] = ops' := by
      simpa [exec] using hexec
    exact ⟨link_quiet (BridgeHub.quiet_noteAck n) rfl, hquiet (BridgeHub.quiet_noteAck n)⟩
  | acceptsAnnotationMsg msg =>
    have hq := BridgeHub.quiet_acceptsAnnotationMsg (h := s.hub) input.nowNs msg
    rcases hr : s.hub.acceptsAnnotationMsg input.nowNs msg with ⟨h₁, _ | _⟩ <;> rw [hr] at hq <;>
      simp only [exec, hr, some.injEq, Prod.mk.injEq] at hexec <;>
      obtain ⟨rfl, -⟩ := hexec <;>
      exact ⟨link_quiet hq rfl, hquiet hq⟩
  | applyAnnotationMsg msg =>
    simp only [exec, ite_none_right_eq_some, some.injEq,
      Prod.mk.injEq] at hexec
    obtain ⟨-, rfl, -⟩ := hexec
    exact ⟨link_quiet ⟨rfl, rfl, rfl, rfl, rfl⟩ rfl, fun _ _ => ⟨rfl, rfl⟩⟩
  | snapshotMutations handle =>
    simp only [exec, ite_none_right_eq_some, some.injEq,
      Prod.mk.injEq] at hexec
    obtain ⟨-, rfl, -⟩ := hexec
    exact ⟨link_quiet .refl rfl, hquiet .refl⟩
  | snapshotRows mutations handle through =>
    cases mutations with
    | nil =>
      obtain ⟨rfl, -⟩ : s.hub = hub ∧ [_] = ops' := by simpa [exec] using hexec
      exact ⟨link_quiet .refl rfl, hquiet .refl⟩
    | cons mutation mutations =>
      simp only [exec, some.injEq, Prod.mk.injEq] at hexec
      obtain ⟨rfl, -⟩ := hexec
      exact ⟨by rw [link_setPeer_self]; rfl, fun _ _ => ⟨rfl, rfl⟩⟩
  | pushShutdown reason =>
    obtain ⟨rfl, -⟩ : s.hub.pushTo id (.shutdown reason) = hub ∧ [] = ops' := by
      simpa [exec] using hexec
    refine ⟨?_, fun i hi => ⟨rfl, BridgeHub.pushTo_queues_of_ne _ hi _⟩⟩
    rw [link_setPeer_self, pushTo_queues_self]
    rfl
  | closeQueue =>
    obtain ⟨rfl, -⟩ : s.hub.closeQueue id = hub ∧ [] = ops' := by
      simpa [exec] using hexec
    refine ⟨?_, fun i hi => ⟨rfl, BridgeHub.closeQueue_queues_of_ne _ hi⟩⟩
    rw [link_setPeer_self, closeQueue_queues_self]
    rfl
  | unregister =>
    obtain ⟨rfl, -⟩ : s.hub.unregisterConnection id = hub ∧ [] = ops' := by
      simpa [exec] using hexec
    refine ⟨?_, fun i hi => ⟨BridgeHub.isRegistered_unregisterConnection_of_ne _ hi, rfl⟩⟩
    rw [link_setPeer_self, isRegistered_unregisterConnection_self]
    rfl
  | _ =>
    obtain ⟨rfl, -⟩ := hexec
    exact ⟨link_quiet .refl rfl, hquiet .refl⟩

section

variable (h : s.step bodyBytes a = some s')
include h

/-- An action of the connection's own. -/
private theorem step_link_own {i : ℕ}
    (htarget : a.target = some i) : Link.Step bodyBytes s i (s.link i) a (s'.link i) := by
  cases a with
  | allocate => cases htarget
  | broadcast => cases htarget
  | connect => cases htarget
  | shutdown => cases htarget
  | receive id message =>
    obtain rfl := some.inj htarget
    simp only [step, ite_none_right_eq_some, some.injEq] at h
    obtain ⟨⟨hpeer, hserving, hreader⟩, rfl⟩ := h
    rw [link_setPeer_same]
    exact .received hpeer hserving hreader rfl
  | hangUp id =>
    obtain rfl := some.inj htarget
    simp only [step, ite_none_right_eq_some, some.injEq] at h
    obtain ⟨⟨hpeer, hserving, hreader⟩, rfl⟩ := h
    rw [link_setPeer_same]
    exact .hungUp hpeer hserving hreader
  | idleTimeout id =>
    obtain rfl := some.inj htarget
    simp only [step, ite_none_right_eq_some, some.injEq] at h
    obtain ⟨⟨hpeer, hserving, hreader⟩, rfl⟩ := h
    rw [link_setPeer_same]
    exact .timedOut hpeer hserving hreader
  | read id input =>
    obtain rfl := some.inj htarget
    simp only [step] at h
    split at h
    · cases h
    · next op ops hreader =>
      obtain ⟨⟨hub, ops'⟩, hexec, rfl⟩ := map_eq_some_iff.mp h
      rw [(exec_link hexec (ops' ++ ops)).1]
      exact .read hreader hexec
  | hostSessions id answer =>
    obtain rfl := some.inj htarget
    simp only [step, ite_none_right_eq_some, some.injEq] at h
    obtain ⟨hquery, rfl⟩ := h
    cases answer with
    | none =>
      rw [link_setPeer_same]
      exact .unanswered hquery
    | some answer =>
      rw [link_sendTo]
      exact .answered hquery
  | take id =>
    obtain rfl := some.inj htarget
    simp only [step, ite_none_right_eq_some, some.injEq] at h
    obtain ⟨⟨hpeer, hwriter⟩, rfl⟩ := h
    rw [link_setPeer_self, takeQueue_queues_self]
    exact .took hpeer hwriter
  | checkClosed id =>
    obtain rfl := some.inj htarget
    simp only [step, ite_none_right_eq_some, some.injEq] at h
    obtain ⟨hwriter, rfl⟩ := h
    rw [link_setPeer_same]
    exact .checked hwriter
  | wake id =>
    obtain rfl := some.inj htarget
    simp only [step, ite_none_right_eq_some, some.injEq] at h
    obtain ⟨hwriter, rfl⟩ := h
    rw [link_setPeer_same]
    exact .woke hwriter
  | numberGap id nowNs =>
    obtain rfl := some.inj htarget
    simp only [step] at h
    split at h
    · next lo hi messages hwriter =>
      obtain rfl := some.inj h
      rw [link_setPeer_self]
      exact .numbered hwriter
    · cases h
  | write id =>
    obtain rfl := some.inj htarget
    obtain ⟨⟨message, writer⟩, hnext, rfl⟩ := map_eq_some_iff.mp h
    rw [link_finishWrite]
    exact .wrote hnext
  | heartbeat id nowNs =>
    obtain rfl := some.inj htarget
    simp only [step] at h
    split at h
    · next hwriter =>
      obtain rfl := some.inj h
      rw [link_finishWrite]
      exact .beat hwriter
    · next hwriter =>
      obtain rfl := some.inj h
      rw [link_finishWrite]
      exact .reported hwriter
    · cases h
  | writeFails id =>
    obtain rfl := some.inj htarget
    simp only [step, ite_none_right_eq_some, some.injEq] at h
    obtain ⟨hwriter, rfl⟩ := h
    rw [link_setPeer_same]
    exact .failed hwriter

/-- An action of another connection, or of none. -/
private theorem step_link_other {i : ℕ}
    (htarget : a.target ≠ some i) : Link.Step bodyBytes s i (s.link i) a (s'.link i) := by
  have hother (hlink : s'.link i = s.link i) (hshared : a.isShared = false) :
      Link.Step bodyBytes s i (s.link i) a (s'.link i) := by
    rw [hlink]
    exact .untouched htarget hshared
  cases a with
  | allocate operation mutation wall basis =>
    simp only [step, ite_none_right_eq_some, some.injEq] at h
    obtain ⟨-, rfl⟩ := h
    exact hother rfl rfl
  | broadcast nowNs =>
    obtain ⟨envelope, hsome, rfl⟩ := map_eq_some_iff.mp h
    exact .fanned hsome
  | connect =>
    obtain ⟨⟨hub, id⟩, hreg, rfl⟩ := map_eq_some_iff.mp h
    simp only [registerConnection, ite_none_left_eq_some, some.injEq,
      Prod.mk.injEq] at hreg
    obtain ⟨-, rfl, rfl⟩ := hreg
    by_cases hi : i = s.hub.nextConnectionId + 1
    · subst hi
      rw [link_setPeer_self]
      simp only [Function.update_self, isRegistered]
      simpa using Link.Step.opened rfl
    · rw [link_setPeer_of_ne _ hi (by simp [isRegistered, hi])
        (by simp [Function.update_of_ne hi])]
      exact .passedOver hi
  | shutdown reason =>
    obtain rfl := some.inj h
    exact .notified
  | receive id message | hangUp id | idleTimeout id | checkClosed id | wake id | writeFails id =>
    have hi : i ≠ id := fun hi => htarget (by rw [hi]; rfl)
    simp only [step, ite_none_right_eq_some, some.injEq] at h
    obtain ⟨-, rfl⟩ := h
    exact hother (link_setPeer_same_of_ne _ hi) rfl
  | read id input =>
    have hi : i ≠ id := fun hi => htarget (by rw [hi]; rfl)
    simp only [step] at h
    split at h
    · cases h
    · next op ops hreader =>
      obtain ⟨⟨hub, ops'⟩, hexec, rfl⟩ := map_eq_some_iff.mp h
      obtain ⟨hreg, hqueue⟩ := (exec_link hexec (ops' ++ ops)).2 i hi
      exact hother (link_setPeer_of_ne _ hi hreg hqueue) rfl
  | hostSessions id answer =>
    have hi : i ≠ id := fun hi => htarget (by rw [hi]; rfl)
    simp only [step, ite_none_right_eq_some, some.injEq] at h
    obtain ⟨-, rfl⟩ := h
    cases answer with
    | none => exact hother (link_setPeer_same_of_ne _ hi) rfl
    | some answer => exact hother (link_sendTo_of_ne _ _ hi) rfl
  | take id =>
    have hi : i ≠ id := fun hi => htarget (by rw [hi]; rfl)
    simp only [step, ite_none_right_eq_some, some.injEq] at h
    obtain ⟨-, rfl⟩ := h
    exact hother (link_setPeer_of_ne _ hi rfl (BridgeHub.takeQueue_queues_of_ne _ hi)) rfl
  | numberGap id nowNs =>
    have hi : i ≠ id := fun hi => htarget (by rw [hi]; rfl)
    simp only [step] at h
    split at h
    · obtain rfl := some.inj h
      exact hother (link_setPeer_of_ne _ hi rfl rfl) rfl
    · cases h
  | write id =>
    have hi : i ≠ id := fun hi => htarget (by rw [hi]; rfl)
    obtain ⟨⟨message, writer⟩, -, rfl⟩ := map_eq_some_iff.mp h
    exact hother (link_finishWrite_of_ne _ _ hi) rfl
  | heartbeat id nowNs =>
    have hi : i ≠ id := fun hi => htarget (by rw [hi]; rfl)
    simp only [step] at h
    split at h
    · obtain rfl := some.inj h
      exact hother (link_finishWrite_of_ne _ _ hi) rfl
    · obtain rfl := some.inj h
      exact hother (link_finishWrite_of_ne _ _ hi) rfl
    · cases h

/-- **What a step does to one connection.** -/
theorem step_link (i : ℕ) :
    Link.Step bodyBytes s i (s.link i) a (s'.link i) := by
  by_cases htarget : a.target = some i
  · exact step_link_own h htarget
  · exact step_link_other h htarget

end

/-! ### The work of a reader -/

/-- The reader of a connection does its first piece. -/
private theorem work_of_read
    (h : s.step bodyBytes (.read id input) = some s') : s.Work s' id (.read id input) := by
  simp only [step] at h
  split at h
  · cases h
  · next op ops hreader =>
    obtain ⟨⟨hub, ops'⟩, hexec, rfl⟩ := map_eq_some_iff.mp h
    refine .read hreader hexec ?_
    rw [setPeer]
    dsimp only
    rw [Function.update_self]

theorem work_of_step (h : s.step bodyBytes a = some s') (i : ℕ) : s.Work s' i a := by
  by_cases hread : ∃ input, a = .read i input
  · obtain ⟨input, rfl⟩ := hread
    exact work_of_read h
  · have hread : ∀ input, a ≠ .read i input := fun input heq => hread ⟨input, heq⟩
    -- every other action is read off its link
    have hlink := step_link h i
    have hkept (hsame : (s'.link i).peer.reader = (s.link i).peer.reader) : s.Work s' i a :=
      .kept hread hsame
    have hclosing (hops : ∀ op ∈ (s'.link i).peer.reader,
        op = .pushShutdown "bridge idle timeout" ∨ op ∈ tearDown) : s.Work s' i a :=
      .closing hread hops
    have hreceived {message ops negotiated flow} (hact : a = .receive i message)
        (hhandle : handleMessage s.hub.config (s.link i).peer.negotiated message =
          (ops, negotiated, flow))
        (hsame : (s'.link i).peer.reader = ops ++ if flow = .close then tearDown else []) :
        s.Work s' i a := by
      rw [hact]
      exact .received hhandle hsame
    generalize s'.link i = l' at hlink hkept hclosing hreceived
    cases hlink with
    | opened => exact hclosing fun op hop => (List.not_mem_nil hop).elim
    | received _ _ _ hhandle => exact hreceived rfl hhandle rfl
    | hungUp => exact hclosing fun op hop => .inr hop
    | timedOut => exact hclosing fun op hop => List.mem_cons.mp hop
    | @read input => exact absurd rfl (hread input)
    | wrote | beat | reported =>
      refine hkept ?_
      rw [Link.finishWrite]
      split_ifs <;> rfl
    | _ => exact hkept rfl

/-! ### The emission in flight -/

/-- The mutation in flight was in flight before, or has just been numbered. -/
theorem emission_of_step (h : s.step bodyBytes a = some s') {envelope : ViewMutationEnvelope}
    (hemission : s'.emission = some envelope) :
    s.emission = some envelope ∨ ∃ operation mutation wall basis,
      a = .allocate operation mutation wall basis ∧
        envelope = emitterEnvelope s.hub (s.hub.sequence + 1) operation mutation wall basis := by
  cases a with
  | allocate operation mutation wall basis =>
    simp only [step, ite_none_right_eq_some, some.injEq] at h
    obtain ⟨-, rfl⟩ := h
    obtain rfl := some.inj hemission
    exact .inr ⟨operation, mutation, wall, basis, rfl, rfl⟩
  | broadcast nowNs =>
    obtain ⟨envelope', -, rfl⟩ := map_eq_some_iff.mp h
    cases hemission
  | connect =>
    obtain ⟨⟨hub, id⟩, -, rfl⟩ := map_eq_some_iff.mp h
    exact .inl hemission
  | read id input =>
    simp only [step] at h
    split at h
    · cases h
    · obtain ⟨⟨hub, ops'⟩, -, rfl⟩ := map_eq_some_iff.mp h
      exact .inl hemission
  | numberGap id nowNs =>
    simp only [step] at h
    split at h
    · cases h
      exact .inl hemission
    · cases h
  | write id =>
    obtain ⟨⟨message, writer⟩, -, rfl⟩ := map_eq_some_iff.mp h
    change (s.finishWrite bodyBytes id message writer).emission = _ at hemission
    rw [finishWrite] at hemission
    split_ifs at hemission <;> exact .inl hemission
  | heartbeat id nowNs =>
    simp only [step] at h
    split at h
    · cases h
      rw [finishWrite] at hemission
      split_ifs at hemission <;> exact .inl hemission
    · cases h
      rw [finishWrite] at hemission
      split_ifs at hemission <;> exact .inl hemission
    · cases h
  | shutdown reason =>
    cases h
    exact .inl hemission
  | _ =>
    simp only [step, ite_none_right_eq_some, some.injEq] at h
    obtain ⟨-, rfl⟩ := h
    exact .inl hemission

/-! ### What the hub counts -/

theorem counts_sendTo (h : BridgeHub) (id : ℕ) (message : BridgeMessage) :
    h.CountsAs (h.sendTo id message) := by
  rw [BridgeHub.sendTo]
  split_ifs <;> exact ⟨.refl _, rfl, rfl, rfl⟩

theorem exec_counts {h h' : BridgeHub}
    (hexec : op.exec h id viewFree input = some (h', ops)) : h.CountsAs h' := by
  cases op with
  | sendTo message =>
    obtain ⟨rfl, -⟩ : h.sendTo id message = h' ∧ [] = ops := by simpa [exec] using hexec
    exact counts_sendTo h id message
  | registerScope r =>
    simp only [exec, BridgeHub.registerScope] at hexec
    split_ifs at hexec <;> (cases hexec; exact ⟨.refl _, rfl, rfl, rfl⟩)
  | registerToolScope r =>
    simp only [exec, BridgeHub.registerToolScope] at hexec
    split_ifs at hexec <;> (cases hexec; exact ⟨.refl _, rfl, rfl, rfl⟩)
  | noteAck n =>
    obtain ⟨rfl, -⟩ : h.noteAck id n = h' ∧ [] = ops := by simpa [exec] using hexec
    rw [BridgeHub.noteAck]
    split_ifs <;> exact ⟨.refl _, rfl, rfl, rfl⟩
  | acceptsAnnotationMsg msg =>
    have hkept : h.CountsAs (h.acceptsAnnotationMsg input.nowNs msg).1 := by
      rw [BridgeHub.acceptsAnnotationMsg]
      split <;> exact ⟨.refl _, rfl, rfl, rfl⟩
    rcases hr : h.acceptsAnnotationMsg input.nowNs msg with ⟨h₁, _ | _⟩ <;> rw [hr] at hkept <;>
      simp only [exec, hr, some.injEq, Prod.mk.injEq] at hexec <;>
      rw [← hexec.1] <;> exact hkept
  | applyAnnotationMsg | snapshotMutations =>
    simp only [exec, ite_none_right_eq_some, some.injEq,
      Prod.mk.injEq] at hexec
    obtain ⟨-, rfl, -⟩ := hexec
    exact ⟨.refl _, rfl, rfl, rfl⟩
  | unregister =>
    cases hexec
    exact ⟨List.filter_sublist, rfl, rfl, rfl⟩
  | snapshotRows mutations handle through =>
    cases mutations <;> (cases hexec; exact ⟨.refl _, rfl, rfl, rfl⟩)
  | _ =>
    cases hexec
    exact ⟨.refl _, rfl, rfl, rfl⟩

theorem hub_finishWrite (id : ℕ) (message : BridgeMessage) (writer : Writer) :
    (s.finishWrite bodyBytes id message writer).hub = s.hub := by
  rw [finishWrite]
  split_ifs <;> rfl

/-- Only a broadcast counts losses, and only `connect` makes a connection. -/
theorem counts_of_step (h : s.step bodyBytes a = some s') :
    (∃ nowNs envelope, a = .broadcast nowNs ∧ s.emission = some envelope ∧
      s'.hub = s.hub.broadcast nowNs envelope) ∨
    (a = .connect ∧ s'.hub.nextConnectionId = s.hub.nextConnectionId + 1 ∧
      s'.hub.connections = s.hub.connections ++ [s.hub.nextConnectionId + 1] ∧
      s'.hub.droppedMutations = s.hub.droppedMutations ∧
      s'.hub.captureGaps = s.hub.captureGaps) ∨
    (∀ nowNs, a ≠ .broadcast nowNs) ∧ s.hub.CountsAs s'.hub := by
  cases a with
  | broadcast nowNs =>
    obtain ⟨envelope, hsome, rfl⟩ := map_eq_some_iff.mp h
    exact .inl ⟨nowNs, envelope, rfl, hsome, rfl⟩
  | connect =>
    obtain ⟨⟨hub, id⟩, hreg, rfl⟩ := map_eq_some_iff.mp h
    simp only [registerConnection, ite_none_left_eq_some, some.injEq,
      Prod.mk.injEq] at hreg
    obtain ⟨-, rfl, rfl⟩ := hreg
    exact .inr (.inl ⟨rfl, rfl, rfl, rfl, rfl⟩)
  | read id input =>
    simp only [step] at h
    split at h
    · cases h
    · obtain ⟨⟨hub, ops'⟩, hexec, rfl⟩ := map_eq_some_iff.mp h
      exact .inr (.inr ⟨by simp, exec_counts hexec⟩)
  | hostSessions id answer =>
    simp only [step, ite_none_right_eq_some, some.injEq] at h
    obtain ⟨-, rfl⟩ := h
    cases answer with
    | none => exact .inr (.inr ⟨by simp, .refl _, rfl, rfl, rfl⟩)
    | some answer => exact .inr (.inr ⟨by simp, counts_sendTo ..⟩)
  | numberGap id nowNs =>
    simp only [step] at h
    split at h
    · cases h
      exact .inr (.inr ⟨by simp, .refl _, rfl, rfl, rfl⟩)
    · cases h
  | write id =>
    obtain ⟨⟨message, writer⟩, -, rfl⟩ := map_eq_some_iff.mp h
    rw [hub_finishWrite]
    exact .inr (.inr ⟨by simp, .refl _, rfl, rfl, rfl⟩)
  | heartbeat id nowNs =>
    simp only [step] at h
    split at h
    · obtain rfl := some.inj h
      rw [hub_finishWrite]
      exact .inr (.inr ⟨by simp, .refl _, rfl, rfl, rfl⟩)
    · obtain rfl := some.inj h
      rw [hub_finishWrite]
      exact .inr (.inr ⟨by simp, .refl _, rfl, rfl, rfl⟩)
    · cases h
  | shutdown reason =>
    cases h
    exact .inr (.inr ⟨by simp, .refl _, rfl, rfl, rfl⟩)
  | _ =>
    simp only [step, ite_none_right_eq_some, some.injEq] at h
    obtain ⟨-, rfl⟩ := h
    exact .inr (.inr ⟨by simp, .refl _, rfl, rfl, rfl⟩)

/-- Only `connect` makes a connection, with the next id. -/
theorem isPeer_of_step {i : ℕ} (h : s.step bodyBytes a = some s') (hi : s'.isPeer i) :
    s.isPeer i ∨ a = .connect ∧ i = s.hub.nextConnectionId + 1 := by
  have hsame (hnext : s'.hub.nextConnectionId = s.hub.nextConnectionId) : s.isPeer i := by
    rwa [isPeer, ← hnext]
  obtain ⟨nowNs, envelope, -, -, hhub⟩ | ⟨rfl, hnext, -⟩ | ⟨-, hcounts⟩ := counts_of_step h
  · exact .inl (hsame (by rw [hhub]; rfl))
  · -- ids are handed out in order
    rw [isPeer, hnext] at hi
    obtain ⟨hpos, hle⟩ : 0 < i ∧ i ≤ s.hub.nextConnectionId + 1 := of_decide_eq_true hi
    by_cases hlast : i = s.hub.nextConnectionId + 1
    · exact .inr ⟨rfl, hlast⟩
    · exact .inl (decide_eq_true ⟨hpos, by omega⟩)
  · exact .inl (hsame hcounts.nextConnectionId)

end Server

end AgentSight.Bridge
