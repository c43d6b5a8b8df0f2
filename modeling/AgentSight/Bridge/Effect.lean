import AgentSight.Bridge.Server

/-!
# What one step of the server does

`Server.step` has sixteen actions; the facts about sequences, queues and streams see them
through two lenses only. The *stream* side is the shared counter, the log, the emission in
flight and the replay buffer. The *connection* side is, for each id, the queue, what the
reader has still to send, what the writer holds and what has been written: a `Conn`.

`step_effect` says once, for every step, what becomes of both. The later modules derive their
invariants from it and do not unfold `step`.
-/

namespace AgentSight.Bridge

open Option BridgeHub

/-- The message is not a mutation. -/
def BridgeMessage.IsControl (message : BridgeMessage) : Prop :=
  ∀ envelope, message ≠ .mutation envelope

/-- The messages the reader is about to send. -/
def sends (ops : List ReaderOp) : List BridgeMessage :=
  ops.filterMap fun
    | .sendTo message => some message
    | _ => none

@[simp]
theorem sends_nil : sends [] = [] := rfl

@[simp]
theorem sends_append (ops ops' : List ReaderOp) : sends (ops ++ ops') = sends ops ++ sends ops' :=
  List.filterMap_append

@[simp]
theorem sends_sendTo (message : BridgeMessage) (ops : List ReaderOp) :
    sends (.sendTo message :: ops) = message :: sends ops := rfl

theorem sends_cons_of_sends_eq_nil (op : ReaderOp) (ops : List ReaderOp) (h : sends [op] = []) :
    sends (op :: ops) = sends ops := by
  rw [← List.singleton_append, sends_append, h, List.nil_append]

@[simp]
theorem sends_map_sendTo (messages : List BridgeMessage) :
    sends (messages.map .sendTo) = messages := by
  induction messages with
  | nil => rfl
  | cons message messages ih => simp [ih]

@[simp]
theorem sends_tearDown : sends tearDown = [] := rfl

/-- What the facts about streams see of a connection. -/
structure Conn where
  registered : Bool
  queue : OutboundQueue
  sends : List BridgeMessage
  writer : Writer
  since : ℕ
  resumes : List ℕ
  sent : List BridgeMessage

def Server.conn (s : Server) (id : ℕ) : Conn where
  registered := s.hub.isRegistered id
  queue := s.hub.queues id
  sends := Bridge.sends (s.peers id).reader
  writer := (s.peers id).writer
  since := (s.peers id).since
  resumes := (s.peers id).resumes
  sent := (s.peers id).sent

/-- Push to the queue of a registered connection. -/
def Conn.deliver (c : Conn) (message : BridgeMessage) : Conn :=
  { c with queue := if c.registered then (c.queue.push message).1 else c.queue }

section Deliver

variable (c : Conn) (message : BridgeMessage)

@[simp]
theorem Conn.deliver_registered : (c.deliver message).registered = c.registered := rfl

theorem Conn.deliver_queue : (c.deliver message).queue =
    if c.registered then (c.queue.push message).1 else c.queue := rfl

theorem Conn.deliver_of_unregistered (h : c.registered = false) : c.deliver message = c := by
  cases c
  simp_all [deliver]

@[simp]
theorem Conn.deliver_sends : (c.deliver message).sends = c.sends := rfl

@[simp]
theorem Conn.deliver_writer : (c.deliver message).writer = c.writer := rfl

@[simp]
theorem Conn.deliver_since : (c.deliver message).since = c.since := rfl

@[simp]
theorem Conn.deliver_resumes : (c.deliver message).resumes = c.resumes := rfl

@[simp]
theorem Conn.deliver_sent : (c.deliver message).sent = c.sent := rfl

end Deliver

/-- What an action can do to the connection `i` through one of its tasks. `fresh` is the
envelope that is numbered, if one is. -/
inductive Conn.Step (s : Server) (a : Action) (i : ℕ) :
    Option ViewMutationEnvelope → Conn → Conn → Prop
  | same (c) : Step s a i none c c
  | opened (c) (hact : a = .connect) (hnew : i = s.hub.nextConnectionId + 1) : Step s a i none c
      { registered := true, queue := .new s.hub.config.outboundCapacity, sends := [],
        writer := .writing none [], since := s.log.length, resumes := [], sent := [] }
  | control (c) {messages} (h : ∀ m ∈ messages, m.IsControl) :
      Step s a i none c { c with sends := messages ++ c.sends }
  | replay (c) {input request ops} (hact : a = .read i input)
      (hop : (s.peers i).reader = .resume request :: ops) : Step s a i none c
      { c with
        sends := resumeReplies (s.hub.resume request.afterSequence) ++ c.sends
        resumes := c.resumes ++ [request.afterSequence] }
  | row (c) {envelope} (h : envelope.operation = .snapshotReconstruction) :
      Step s a i (some envelope) c { c with sends := .mutation envelope :: c.sends }
  | send (c) {message rest} (h : c.sends = message :: rest) :
      Step s a i none c { c.deliver message with sends := rest }
  | sendControl (c) {message} (h : message.IsControl) : Step s a i none c (c.deliver message)
  | pushControl (c) {message} (h : message.IsControl) :
      Step s a i none c { c with queue := (c.queue.push message).1 }
  | closed (c) : Step s a i none c { c with queue := c.queue.close }
  | unregistered (c) : Step s a i none c { c with registered := false }
  | took (c) (h : c.writer = .writing none []) : Step s a i none c { c with
        queue := c.queue.take.1
        writer := .ofTaken c.queue.pendingGap c.queue.items }
  | numbered (c) {envelope lo hi reason messages} (h : c.writer = .writing (some (lo, hi)) messages)
      (hgap : envelope.mutation = .captureGapObserved lo hi reason) :
      Step s a i (some envelope) c { c with writer := .notice envelope messages }
  | wrote (c) {message writer} (hact : a = .write i) (h : c.writer.next = some (message, writer)) :
      Step s a i none c { c with writer := writer, sent := c.sent ++ [message] }
  | stopped (c) : Step s a i none c { c with writer := .done }
  | idled (c) {writer messages} (h : writer = .writing none [] ∨ writer = .waiting ∨ writer = .beat)
      (hmsg : ∀ m ∈ messages, m.IsControl)
      (hold : c.writer = .emptied ∨ c.writer = .waiting ∨ c.writer = .beat) :
      Step s a i none c { c with writer := writer, sent := c.sent ++ messages }

/-- What a step does to the streams and the connections. -/
inductive Effect (s : Server) (a : Action) (s' : Server) : Prop
  | allocated (envelope) (hconfig : s'.hub.config = s.hub.config)
      (hnone : s.emission = none) (hsome : s'.emission = some envelope)
      (hseq : envelope.sequence = s.hub.sequence + 1)
      (hop : envelope.operation ≠ .snapshotReconstruction)
      (hcount : s'.hub.sequence = s.hub.sequence + 1) (hlog : s'.log = s.log)
      (hreplay : s'.hub.replay = s.hub.replay) (hconn : ∀ id, s'.conn id = s.conn id)
  | broadcast (nowNs envelope) (hact : a = .broadcast nowNs)
      (hconfig : s'.hub.config = s.hub.config)
      (hsome : s.emission = some envelope) (hnone : s'.emission = none)
      (hcount : s'.hub.sequence = s.hub.sequence)
      (hlog : s'.log = s.log ++ [s.hub.stamp nowNs envelope])
      (hreplay : s'.hub.replay = BridgeHub.trimFront s.hub.config.replayCapacity
        (s.hub.replay ++ [s.hub.stamp nowNs envelope]))
      (hconn : ∀ id, s'.conn id = (s.conn id).deliver (.mutation (s.hub.stamp nowNs envelope)))
  | notified (message) (hconfig : s'.hub.config = s.hub.config) (hctl : message.IsControl)
      (hemission : s'.emission = s.emission)
      (hcount : s'.hub.sequence = s.hub.sequence) (hlog : s'.log = s.log)
      (hreplay : s'.hub.replay = s.hub.replay)
      (hconn : ∀ id, s'.conn id = (s.conn id).deliver message)
  | conn (id fresh) (hconfig : s'.hub.config = s.hub.config) (hemission : s'.emission = s.emission)
      (hcount : s'.hub.sequence = s.hub.sequence + fresh.toList.length)
      (hfresh : ∀ envelope, fresh = some envelope → envelope.sequence = s.hub.sequence + 1)
      (hlog : s'.log = s.log) (hreplay : s'.hub.replay = s.hub.replay)
      (hconn : ∀ j, j ≠ id → s'.conn j = s.conn j)
      (hstep : Conn.Step s a id fresh (s.conn id) (s'.conn id))

/-! ### The hub operations, seen from a connection -/

section Hub

variable (h : BridgeHub) (id : ℕ)

/-- The operation leaves queues, registrations, sequence, replay buffer and configuration. -/
structure BridgeHub.Quiet (h' : BridgeHub) : Prop where
  config : h'.config = h.config
  sequence : h'.sequence = h.sequence
  replay : h'.replay = h.replay
  queues : h'.queues = h.queues
  connections : h'.connections = h.connections

/-- What a piece of the reader's work does: nothing the streams see but control messages to
send, or one of the operations named. -/
inductive ReaderOp.Outcome : ReaderOp → BridgeHub → List ReaderOp → Prop
  | quiet {op h' ops} (hq : h.Quiet h') (hop : Bridge.sends [op] = [])
      (hres : op.resumes = []) (hctl : ∀ m ∈ Bridge.sends ops, m.IsControl) : Outcome op h' ops
  | send (m : BridgeMessage) : Outcome (.sendTo m) (h.sendTo id m) []
  | replay (request : ResumeRequest) : Outcome (.resume request) h
      ((resumeReplies (h.resume request.afterSequence)).map .sendTo)
  | row {mutation mutations scopeHandle throughSequence nowNs} :
      Outcome (.snapshotRows (mutation :: mutations) scopeHandle throughSequence)
        (h.envelope nowNs .snapshotReconstruction mutation scopeHandle).1
        [.sendTo (.mutation (h.envelope nowNs .snapshotReconstruction mutation scopeHandle).2),
        .snapshotRows mutations scopeHandle
          (h.envelope nowNs .snapshotReconstruction mutation scopeHandle).2.sequence]
  | pushShutdown (reason) : Outcome (.pushShutdown reason) (h.pushTo id (.shutdown reason)) []
  | closeQueue : Outcome .closeQueue (h.closeQueue id) []
  | unregister : Outcome .unregister (h.unregisterConnection id) []

variable {h id}

theorem BridgeHub.Quiet.refl : h.Quiet h := ⟨rfl, rfl, rfl, rfl, rfl⟩

theorem BridgeHub.Quiet.isRegistered {h' : BridgeHub} (hq : h.Quiet h') (id : ℕ) :
    h'.isRegistered id = h.isRegistered id := by
  rw [BridgeHub.isRegistered, BridgeHub.isRegistered, hq.connections]

theorem BridgeHub.quiet_registerScope (r : ScopeRegistration) : h.Quiet (h.registerScope r).1 := by
  rw [registerScope]
  split <;> exact ⟨rfl, rfl, rfl, rfl, rfl⟩

theorem BridgeHub.quiet_registerToolScope (r : ToolScopeRegistration) :
    h.Quiet (h.registerToolScope r).1 := by
  rw [registerToolScope]
  split
  · exact .refl
  · split <;> exact ⟨rfl, rfl, rfl, rfl, rfl⟩

theorem BridgeHub.quiet_acceptsAnnotationMsg (nowNs : ℕ) (a : AroAnnotation) :
    h.Quiet (h.acceptsAnnotationMsg nowNs a).1 := by
  rw [acceptsAnnotationMsg]
  split <;> exact ⟨rfl, rfl, rfl, rfl, rfl⟩

theorem BridgeHub.quiet_noteAck (n : ℕ) : h.Quiet (h.noteAck id n) := by
  rw [noteAck]
  split <;> exact ⟨rfl, rfl, rfl, rfl, rfl⟩

theorem ReaderOp.exec_outcome {op : ReaderOp} {viewFree : Bool} {input : ReaderInput}
    {h' : BridgeHub} {ops : List ReaderOp}
    (hexec : op.exec h id viewFree input = some (h', ops)) : op.Outcome h id h' ops := by
  cases op with
  | sendTo message =>
    obtain ⟨rfl, rfl⟩ : h.sendTo id message = h' ∧ [] = ops := by simpa [exec] using hexec
    exact .send message
  | sendHealth =>
    obtain ⟨rfl, rfl⟩ : h = h' ∧ [_] = ops := by simpa [exec] using hexec
    exact .quiet .refl rfl rfl (by simp [BridgeMessage.IsControl])
  | registerScope r =>
    have hq := BridgeHub.quiet_registerScope (h := h) r
    rcases hr : h.registerScope r with ⟨h₁, _ | _⟩ <;> rw [hr] at hq <;>
      simp only [exec, hr, some.injEq, Prod.mk.injEq] at hexec <;>
      obtain ⟨rfl, rfl⟩ := hexec <;>
      exact .quiet hq rfl rfl (by simp [BridgeMessage.IsControl])
  | registerToolScope r =>
    have hq := BridgeHub.quiet_registerToolScope (h := h) r
    rcases hr : h.registerToolScope r with ⟨h₁, _ | _⟩ <;> rw [hr] at hq <;>
      simp only [exec, hr, some.injEq, Prod.mk.injEq] at hexec <;>
      obtain ⟨rfl, rfl⟩ := hexec <;>
      exact .quiet hq rfl rfl (by simp [BridgeMessage.IsControl])
  | unregisterScope handle =>
    obtain ⟨rfl, rfl⟩ : (h.unregisterScope handle).1 = h' ∧ [_] = ops := by
      simpa [exec] using hexec
    exact .quiet ⟨rfl, rfl, rfl, rfl, rfl⟩ rfl rfl (by simp [BridgeMessage.IsControl])
  | noteAck n =>
    obtain ⟨rfl, rfl⟩ : h.noteAck id n = h' ∧ [] = ops := by simpa [exec] using hexec
    exact .quiet (BridgeHub.quiet_noteAck n) rfl rfl (by simp)
  | resume request =>
    obtain ⟨rfl, rfl⟩ : h = h' ∧ _ = ops := by simpa [exec] using hexec
    exact .replay request
  | acceptsAnnotationMsg a =>
    have hq := BridgeHub.quiet_acceptsAnnotationMsg (h := h) input.nowNs a
    rcases hr : h.acceptsAnnotationMsg input.nowNs a with ⟨h₁, _ | _⟩ <;> rw [hr] at hq <;>
      simp only [exec, hr, some.injEq, Prod.mk.injEq] at hexec <;>
      obtain ⟨rfl, rfl⟩ := hexec <;>
      exact .quiet hq rfl rfl (by simp [Bridge.sends])
  | applyAnnotationMsg a =>
    simp only [exec, ite_none_right_eq_some, some.injEq, Prod.mk.injEq] at hexec
    obtain ⟨-, rfl, rfl⟩ := hexec
    exact .quiet ⟨rfl, rfl, rfl, rfl, rfl⟩ rfl rfl (by simp)
  | snapshotMutations handle =>
    simp only [exec, ite_none_right_eq_some, some.injEq, Prod.mk.injEq] at hexec
    obtain ⟨-, rfl, rfl⟩ := hexec
    exact .quiet .refl rfl rfl (by simp [Bridge.sends, BridgeMessage.IsControl])
  | snapshotCurrent mutations handle =>
    obtain ⟨rfl, rfl⟩ : h = h' ∧ [_] = ops := by simpa [exec] using hexec
    exact .quiet .refl rfl rfl (by simp [Bridge.sends])
  | snapshotRows mutations handle through =>
    cases mutations with
    | nil =>
      obtain ⟨rfl, rfl⟩ : h = h' ∧ [_] = ops := by simpa [exec] using hexec
      exact .quiet .refl rfl rfl (by simp [BridgeMessage.IsControl])
    | cons mutation mutations =>
      obtain ⟨rfl, rfl⟩ := hexec
      exact .row
  | pushShutdown reason =>
    obtain ⟨rfl, rfl⟩ : h.pushTo id (.shutdown reason) = h' ∧ [] = ops := by
      simpa [exec] using hexec
    exact .pushShutdown reason
  | closeQueue =>
    obtain ⟨rfl, rfl⟩ : h.closeQueue id = h' ∧ [] = ops := by simpa [exec] using hexec
    exact .closeQueue
  | unregister =>
    obtain ⟨rfl, rfl⟩ : h.unregisterConnection id = h' ∧ [] = ops := by
      simpa [exec] using hexec
    exact .unregister

end Hub

/-- A client's message makes the reader send control messages only; replays and snapshot rows
come out of later pieces. -/
theorem handleMessage_control {config : BridgeServerConfig} {negotiated : Bool}
    {message m : BridgeMessage}
    (h : m ∈ sends (handleMessage config negotiated message).1) : m.IsControl := by
  revert h
  cases negotiated <;> cases message <;> simp only [handleMessage, Bool.not_true, Bool.not_false,
    if_true, if_false, Bool.false_eq_true] <;> try split
  all_goals simp +contextual [sends, BridgeMessage.IsControl]

theorem sends_pushShutdown (reason : String) (ops : List ReaderOp) :
    sends (.pushShutdown reason :: ops) = sends ops := rfl

/-! ### One step -/

namespace Server

variable {bodyBytes : BridgeMessage → ℕ} {s s' : Server} {a : Action}

@[simp]
theorem conn_setPeer_self (hub : BridgeHub) (id : ℕ) (peer : Peer) :
    ({ s with hub := hub }.setPeer id peer).conn id =
      { registered := hub.isRegistered id, queue := hub.queues id,
        sends := sends peer.reader, writer := peer.writer, since := peer.since,
        resumes := peer.resumes, sent := peer.sent } := by
  simp [conn, setPeer, Function.update_self]

variable {id : ℕ}

theorem conn_setPeer_of_ne {hub : BridgeHub} {j : ℕ} (peer : Peer) (hj : j ≠ id)
    (hreg : hub.isRegistered j = s.hub.isRegistered j)
    (hqueue : hub.queues j = s.hub.queues j) :
    ({ s with hub := hub }.setPeer id peer).conn j = s.conn j := by
  simp [conn, setPeer, Function.update_of_ne hj, hreg, hqueue]

/-- A change of one peer that numbers nothing. -/
private theorem effect_setPeer {hub : BridgeHub} {peer : Peer}
    (hconfig : hub.config = s.hub.config) (hcount : hub.sequence = s.hub.sequence)
    (hreplay : hub.replay = s.hub.replay)
    (hreg : ∀ j, j ≠ id → hub.isRegistered j = s.hub.isRegistered j)
    (hqueue : ∀ j, j ≠ id → hub.queues j = s.hub.queues j)
    (hstep : Conn.Step s a id none (s.conn id) (({ s with hub := hub }.setPeer id peer).conn id)) :
    Effect s a ({ s with hub := hub }.setPeer id peer) :=
  .conn id none hconfig rfl (by simpa [setPeer] using hcount) (by simp) rfl hreplay
    (fun j hj => conn_setPeer_of_ne peer hj (hreg j hj) (hqueue j hj)) hstep

private theorem effect_setPeer_same {peer : Peer}
    (hstep : Conn.Step s a id none (s.conn id) ((s.setPeer id peer).conn id)) :
    Effect s a (s.setPeer id peer) :=
  effect_setPeer rfl rfl rfl (fun _ _ => rfl) (fun _ _ => rfl) hstep

theorem conn_setPeer_same (id : ℕ) (peer : Peer) : (s.setPeer id peer).conn id = { s.conn id with
        sends := sends peer.reader, writer := peer.writer, since := peer.since,
        resumes := peer.resumes, sent := peer.sent } :=
  conn_setPeer_self s.hub id peer

private theorem effect_sendTo {message : BridgeMessage} {peer : Peer}
    (hstep : Conn.Step s a id none (s.conn id) { (s.conn id).deliver message with
        sends := sends peer.reader, writer := peer.writer, since := peer.since,
        resumes := peer.resumes, sent := peer.sent }) :
    Effect s a ({ s with hub := s.hub.sendTo id message }.setPeer id peer) := by
  cases hmem : s.hub.isRegistered id with
  | true =>
    simp only [sendTo, hmem, if_true]
    refine effect_setPeer rfl rfl rfl (fun _ _ => rfl) (fun j hj => ?_) ?_
    · exact BridgeHub.pushTo_queues_of_ne _ hj _
    · rw [conn_setPeer_self]
      simpa [Conn.deliver, conn, hmem] using hstep
  | false =>
    simp only [sendTo, hmem, Bool.false_eq_true, if_false]
    refine effect_setPeer_same ?_
    rw [conn_setPeer_same]
    simpa [Conn.deliver, conn, hmem] using hstep

private theorem finishWrite_effect {message : BridgeMessage} {writer : Writer}
    (hstep : Conn.Step s a id none (s.conn id)
      { s.conn id with writer := writer, sent := (s.conn id).sent ++ [message] }) :
    Effect s a (s.finishWrite bodyBytes id message writer) := by
  rw [finishWrite]
  split
  · refine effect_setPeer_same ?_
    rw [conn_setPeer_same]
    exact hstep
  · refine effect_setPeer_same ?_
    rw [conn_setPeer_same]
    exact .stopped _

private theorem step_idled {i : ℕ} {c : Conn} {writer : Writer}
    (h : writer = .writing none [] ∨ writer = .waiting ∨ writer = .beat)
    (hold : c.writer = .emptied ∨ c.writer = .waiting ∨ c.writer = .beat) :
    Conn.Step s a i none c { c with writer := writer } := by
  have hctl : ∀ m ∈ ([] : List BridgeMessage), m.IsControl := by simp
  simpa using Conn.Step.idled c h hctl hold

private theorem read_effect {input : ReaderInput}
    (h : s.step bodyBytes (.read id input) = some s') : Effect s (.read id input) s' := by
  simp only [step] at h
  split at h
  · cases h
  · next op ops hreader =>
    obtain ⟨⟨hub, ops'⟩, hexec, rfl⟩ := map_eq_some_iff.mp h
    cases ReaderOp.exec_outcome hexec with
    | quiet hq hop hres hctl =>
      refine effect_setPeer hq.config hq.sequence hq.replay (fun j _ => hq.isRegistered j)
        (fun j _ => by rw [hq.queues]) ?_
      rw [conn_setPeer_self]
      have hstep : Conn.Step s (.read id input) id none (s.conn id) _ := .control (s.conn id) hctl
      simpa [conn, hreader, sends_cons_of_sends_eq_nil op ops hop, hq.queues, hq.isRegistered, hres]
        using hstep
    | send message =>
      refine effect_sendTo ?_
      have hstep : Conn.Step s (.read id input) id none (s.conn id) _ :=
        .send (s.conn id) (show (s.conn id).sends = message :: sends ops by simp [conn, hreader])
      simpa [conn, ReaderOp.resumes] using hstep
    | replay request =>
      refine effect_setPeer rfl rfl rfl (fun _ _ => rfl) (fun _ _ => rfl) ?_
      rw [conn_setPeer_self]
      have hsends := sends_cons_of_sends_eq_nil (.resume request) ops rfl
      have hstep : Conn.Step s (.read id input) id none (s.conn id) _ :=
        .replay (s.conn id) rfl hreader
      simpa [conn, hreader, hsends, ReaderOp.resumes] using hstep
    | @row mutation mutations scopeHandle through nowNs =>
      have hop : (s.hub.envelope nowNs .snapshotReconstruction mutation scopeHandle).2.operation =
          .snapshotReconstruction := rfl
      refine .conn id
        (some (s.hub.envelope nowNs .snapshotReconstruction mutation scopeHandle).2) rfl rfl rfl
        (by rintro _ ⟨⟩; rfl) rfl rfl (fun j hj => conn_setPeer_of_ne _ hj rfl rfl) ?_
      rw [conn_setPeer_self]
      have hsends := sends_cons_of_sends_eq_nil
        (.snapshotRows (mutation :: mutations) scopeHandle through) ops rfl
      have hstep : Conn.Step s (.read id input) id _ (s.conn id) _ := .row (s.conn id) hop
      simp only [conn, hreader, hsends] at hstep ⊢
      simpa [ReaderOp.resumes, sends_cons_of_sends_eq_nil
        (.snapshotRows mutations scopeHandle _) ops rfl] using hstep
    | pushShutdown reason =>
      refine effect_setPeer rfl rfl rfl (fun _ _ => rfl) (fun j hj => ?_) ?_
      · exact BridgeHub.pushTo_queues_of_ne _ hj _
      · rw [conn_setPeer_self]
        have hsends := sends_cons_of_sends_eq_nil (.pushShutdown reason) ops rfl
        have hctl : (BridgeMessage.shutdown reason).IsControl := by simp [BridgeMessage.IsControl]
        have hstep : Conn.Step s (.read id input) id none (s.conn id) _ :=
          .pushControl (s.conn id) hctl
        simpa [conn, hreader, hsends, ReaderOp.resumes] using hstep
    | closeQueue =>
      refine effect_setPeer rfl rfl rfl (fun _ _ => rfl) (fun j hj => ?_) ?_
      · exact BridgeHub.closeQueue_queues_of_ne _ hj
      · rw [conn_setPeer_self]
        have hsends := sends_cons_of_sends_eq_nil (.closeQueue) ops rfl
        have hstep : Conn.Step s (.read id input) id none (s.conn id) _ := .closed (s.conn id)
        simpa [conn, hreader, hsends, ReaderOp.resumes] using hstep
    | unregister =>
      refine effect_setPeer rfl rfl rfl (fun j hj => ?_) (fun _ _ => rfl) ?_
      · exact BridgeHub.isRegistered_unregisterConnection_of_ne _ hj
      · rw [conn_setPeer_self]
        have hsends := sends_cons_of_sends_eq_nil (.unregister) ops rfl
        have hstep : Conn.Step s (.read id input) id none (s.conn id) _ :=
          .unregistered (s.conn id)
        simpa [conn, hreader, hsends, ReaderOp.resumes] using hstep

/-- **What one step does.** -/
theorem step_effect (h : s.step bodyBytes a = some s') : Effect s a s' := by
  cases a with
  | allocate operation mutation wall basis =>
    simp only [step, ite_none_right_eq_some, isNone_iff_eq_none] at h
    obtain ⟨⟨hnone, hop⟩, h⟩ := h
    obtain rfl := some.inj h
    exact .allocated _ rfl hnone rfl rfl hop rfl rfl rfl fun _ => rfl
  | broadcast nowNs =>
    obtain ⟨envelope, hsome, rfl⟩ := map_eq_some_iff.mp h
    refine .broadcast nowNs envelope rfl rfl hsome rfl rfl rfl rfl fun id => ?_
    rfl
  | connect =>
    obtain ⟨⟨hub, id⟩, hreg, rfl⟩ := map_eq_some_iff.mp h
    simp only [registerConnection, ite_none_left_eq_some, some.injEq,
      Prod.mk.injEq] at hreg
    obtain ⟨-, rfl, rfl⟩ := hreg
    refine effect_setPeer rfl rfl rfl (fun j hj => ?_) (fun j hj => ?_) ?_
    · simp [BridgeHub.isRegistered, hj]
    · simp [Function.update_of_ne hj]
    · have hstep : Conn.Step s .connect (s.hub.nextConnectionId + 1) none
        (s.conn (s.hub.nextConnectionId + 1)) _ := .opened _ rfl rfl
      simpa [Peer.new, BridgeHub.isRegistered] using hstep
  | receive id message =>
    simp only [step, ite_none_right_eq_some, some.injEq] at h
    obtain ⟨⟨-, -, hreader⟩, rfl⟩ := h
    refine effect_setPeer_same ?_
    rw [conn_setPeer_same]
    have hctl : ∀ m ∈ sends ((handleMessage s.hub.config (s.peers id).negotiated message).1 ++
        if (handleMessage s.hub.config (s.peers id).negotiated message).2.2 = .close
        then tearDown else []), m.IsControl := by
      intro m hm
      rw [sends_append, List.mem_append] at hm
      rcases hm with hm | hm
      · exact handleMessage_control hm
      · split at hm <;> simp at hm
    have hstep : Conn.Step s (.receive id message) id none (s.conn id) _ :=
      .control (s.conn id) hctl
    simpa [conn, hreader] using hstep
  | hangUp id =>
    simp only [step, ite_none_right_eq_some, some.injEq] at h
    obtain ⟨⟨-, -, hreader⟩, rfl⟩ := h
    refine effect_setPeer_same ?_
    rw [conn_setPeer_same]
    have hstep : Conn.Step s (.hangUp id) id none (s.conn id) _ := .same (s.conn id)
    simpa [conn, hreader] using hstep
  | idleTimeout id =>
    simp only [step, ite_none_right_eq_some, some.injEq] at h
    obtain ⟨⟨-, -, hreader⟩, rfl⟩ := h
    refine effect_setPeer_same ?_
    rw [conn_setPeer_same]
    have hstep : Conn.Step s (.idleTimeout id) id none (s.conn id) _ := .same (s.conn id)
    simpa [conn, hreader, sends_pushShutdown] using hstep
  | read id input => exact read_effect h
  | hostSessions id answer =>
    simp only [step, ite_none_right_eq_some, some.injEq] at h
    obtain ⟨-, rfl⟩ := h
    cases answer with
    | none =>
      refine effect_setPeer_same ?_
      rw [conn_setPeer_same]
      exact .same _
    | some answer =>
      refine effect_sendTo ?_
      exact .sendControl _ (by simp [BridgeMessage.IsControl])
  | take id =>
    simp only [step, ite_none_right_eq_some, some.injEq] at h
    obtain ⟨⟨-, hwriter⟩, rfl⟩ := h
    refine effect_setPeer rfl rfl rfl (fun _ _ => rfl) (fun j hj => ?_) ?_
    · exact BridgeHub.takeQueue_queues_of_ne _ hj
    · rw [conn_setPeer_self]
      have hstep : Conn.Step s (.take id) id none (s.conn id) _ := .took (s.conn id) hwriter
      simpa [OutboundQueue.take, conn] using hstep
  | checkClosed id =>
    simp only [step, ite_none_right_eq_some, some.injEq] at h
    obtain ⟨hwriter, rfl⟩ := h
    refine effect_setPeer_same ?_
    rw [conn_setPeer_same]
    split
    · exact .stopped _
    · exact step_idled (.inr (.inl rfl)) (.inl hwriter)
  | wake id =>
    simp only [step, ite_none_right_eq_some, some.injEq] at h
    obtain ⟨hwriter, rfl⟩ := h
    refine effect_setPeer_same ?_
    rw [conn_setPeer_same]
    exact step_idled (.inl rfl) (.inr (.inl hwriter))
  | numberGap id nowNs =>
    simp only [step] at h
    split at h
    · next lo hi messages hwriter =>
      obtain rfl := some.inj h
      refine .conn id (some (s.hub.envelope nowNs .insert
          (.captureGapObserved lo hi "bridge outbound queue overflow") none).2) rfl rfl rfl
        (by rintro _ ⟨⟩; rfl) rfl rfl (fun j hj => conn_setPeer_of_ne _ hj rfl rfl) ?_
      rw [conn_setPeer_self]
      exact .numbered (s.conn id) hwriter rfl
    · cases h
  | write id =>
    obtain ⟨⟨message, writer⟩, hnext, rfl⟩ := map_eq_some_iff.mp h
    exact finishWrite_effect (.wrote (s.conn id) rfl hnext)
  | heartbeat id nowNs =>
    simp only [step] at h
    split at h
    · next hwriter =>
      obtain rfl := some.inj h
      exact finishWrite_effect (.idled (s.conn id) (.inr (.inr rfl))
        (by simp [BridgeMessage.IsControl]) (.inr (.inl hwriter)))
    · next hwriter =>
      obtain rfl := some.inj h
      exact finishWrite_effect (.idled (s.conn id) (.inl rfl)
        (by simp [BridgeMessage.IsControl]) (.inr (.inr hwriter)))
    · cases h
  | writeFails id =>
    simp only [step, ite_none_right_eq_some, some.injEq] at h
    obtain ⟨-, rfl⟩ := h
    refine effect_setPeer_same ?_
    rw [conn_setPeer_same]
    exact .stopped _
  | shutdown reason =>
    obtain rfl := some.inj h
    refine .notified (.shutdown reason) rfl (by simp [BridgeMessage.IsControl]) rfl rfl rfl rfl
      fun id => ?_
    rfl

end Server

end AgentSight.Bridge
