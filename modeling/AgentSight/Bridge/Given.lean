import AgentSight.Bridge.Handshake

/-!
# The mutations given to a connection

`Server.queued` is the message an action puts into the queue of a connection for its stream: a
broadcast, or what the reader sends. Nothing else brings mutations to the connection, but for
the gap notices of its writer, so the mutations it has been given, in order, are what was
queued less what the queue has dropped (`Link.Step.stream`). `Carries` is the rule for a
property of the rows: what holds of every mutation the pipeline numbers and of every row a
snapshot copies holds of every mutation the server has.
-/

namespace AgentSight.Bridge

open List

instance (l : Link) : Decidable l.Accepts := inferInstanceAs (Decidable (_ ∧ _))

/-! ### What an action queues -/

/-- The message the reader is about to send. -/
def ReaderOp.message? : ReaderOp → Option BridgeMessage
  | .sendTo message => some message
  | _ => none

def BridgeMessage.envelope? : BridgeMessage → Option ViewMutationEnvelope
  | .mutation envelope => some envelope
  | _ => none

namespace Server

/-- What a broadcast or the reader of the connection `i` puts into its queue. -/
def queued (s : Server) (i : ℕ) (a : Action) : Option BridgeMessage :=
  if (s.link i).Accepts then
    match a with
    | .broadcast nowNs => s.emission.map fun envelope => .mutation (s.hub.stamp nowNs envelope)
    | .read id _ => if id = i then (s.peers id).reader.head?.bind (·.message?) else none
    | _ => none
  else none

/-- The mutation that the action queues to the connection `i`. -/
def gives (s : Server) (i : ℕ) (a : Action) : Option ViewMutationEnvelope :=
  (s.queued i a).bind (·.envelope?)

variable {s : Server} {i : ℕ} {a : Action} {message : BridgeMessage}
  {envelope : ViewMutationEnvelope}

theorem queued_eq_some (h : s.queued i a = some message) : (s.link i).Accepts ∧
    ((∃ nowNs emitted, a = .broadcast nowNs ∧ s.emission = some emitted ∧
      message = .mutation (s.hub.stamp nowNs emitted)) ∨
    ∃ input ops, a = .read i input ∧ (s.peers i).reader = .sendTo message :: ops) := by
  obtain ⟨haccepts, hact⟩ := Option.ite_none_right_eq_some.mp h
  refine ⟨haccepts, ?_⟩
  split at hact
  · next nowNs =>
    obtain ⟨emitted, hemission, rfl⟩ := Option.map_eq_some_iff.mp hact
    exact .inl ⟨nowNs, emitted, rfl, hemission, rfl⟩
  · next id input =>
    obtain ⟨rfl, hhead⟩ := Option.ite_none_right_eq_some.mp hact
    obtain ⟨op, hhead, hmessage⟩ := Option.bind_eq_some_iff.mp hhead
    obtain ⟨ops, hreader⟩ := head?_eq_some_iff.mp hhead
    refine .inr ⟨input, ops, rfl, ?_⟩
    rw [hreader]
    cases op with
    | sendTo message' =>
      obtain rfl := Option.some.inj hmessage
      rfl
    | _ => cases hmessage
  · cases hact

theorem gives_eq_some (h : s.gives i a = some envelope) : (s.link i).Accepts ∧
    ((∃ nowNs emitted, a = .broadcast nowNs ∧ s.emission = some emitted ∧
      envelope = s.hub.stamp nowNs emitted) ∨
    ∃ input ops, a = .read i input ∧ (s.peers i).reader = .sendTo (.mutation envelope) :: ops) := by
  obtain ⟨message, hqueued, henvelope⟩ := Option.bind_eq_some_iff.mp h
  obtain rfl : message = .mutation envelope := by
    cases message with
    | mutation envelope' =>
      obtain rfl := Option.some.inj henvelope
      rfl
    | _ => cases henvelope
  obtain ⟨haccepts, ⟨nowNs, emitted, hact, hemission, heq⟩ | hread⟩ := queued_eq_some hqueued
  · exact ⟨haccepts, .inl ⟨nowNs, emitted, hact, hemission, BridgeMessage.mutation.inj heq⟩⟩
  · exact ⟨haccepts, .inr hread⟩

theorem queued_broadcast {nowNs : ℕ} (haccepts : (s.link i).Accepts)
    (hemission : s.emission = some envelope) :
    s.queued i (.broadcast nowNs) = some (.mutation (s.hub.stamp nowNs envelope)) := by
  rw [queued, if_pos haccepts, hemission]
  rfl

theorem queued_read {input : ReaderInput} {ops : List ReaderOp} (haccepts : (s.link i).Accepts)
    (hreader : (s.peers i).reader = .sendTo message :: ops) :
    s.queued i (.read i input) = some message := by
  rw [queued, if_pos haccepts, if_pos rfl, hreader]
  rfl

theorem gives_of_queued (h : s.queued i a = some (.mutation envelope)) :
    s.gives i a = some envelope := by
  rw [gives, h]
  rfl

end Server

/-! ### The stream of a connection -/

/-- The envelope of a message that is a mutation of the view. -/
def BridgeMessage.row? : BridgeMessage → Option ViewMutationEnvelope
  | .mutation envelope => if envelope.mutation.isGap then none else some envelope
  | _ => none

namespace Link

/-- The mutations of the view that the connection has been given, in order. -/
def stream (l : Link) : List ViewMutationEnvelope := l.front.filterMap (·.row?)

variable {bodyBytes : BridgeMessage → ℕ} {s : Server} {i : ℕ} {a : Action} {l l' : Link}
  {m : BridgeMessage} {envelope : ViewMutationEnvelope}

theorem mem_front : m ∈ l.front ↔
    m ∈ l.peer.sent ∨ m ∈ l.peer.writer.messages ∨ m ∈ l.queue.items := by
  simp only [front, mem_append, or_assoc]

theorem mem_ofTaken {gap : Option (ℕ × ℕ)} {messages : List BridgeMessage}
    (hm : m ∈ (Writer.ofTaken gap messages).messages) : m ∈ messages := by
  rw [Writer.ofTaken] at hm
  split_ifs at hm
  · simp [Writer.messages] at hm
  · exact hm

variable {message : BridgeMessage}

theorem mem_front_finishWrite {fits : Prop} [Decidable fits]
    {writer : Writer} (hwriter : ∀ m ∈ writer.messages, m ∈ l.peer.writer.messages)
    (hm : m ∈ (l.finishWrite fits message writer).front) : m ∈ l.front ∨ m = message := by
  rw [finishWrite] at hm
  split_ifs at hm
  · rw [mem_front] at hm ⊢
    obtain hm | hm | hm := hm
    · obtain hm | hm := mem_append.mp hm
      · exact .inl (.inl hm)
      · exact .inr (mem_singleton.mp hm)
    · exact .inl (.inr (.inl (hwriter m hm)))
    · exact .inl (.inr (.inr hm))
  · rw [mem_front] at hm ⊢
    obtain hm | hm | hm := hm
    · exact .inl (.inl hm)
    · simp [Writer.messages] at hm
    · exact .inl (.inr (.inr hm))

/-- A push drops messages from the front of the queue and appends its own. -/
theorem items_push (q : OutboundQueue) (message : BridgeMessage) :
    (q.push message).1.items.Sublist (q.items ++ [message]) := by
  cases hclosed : q.closed with
  | true =>
    rw [OutboundQueue.push_of_closed hclosed]
    exact sublist_append_left ..
  | false =>
    rw [(@OutboundQueue.push_of_open _ message hclosed).1]
    exact (OutboundQueue.evict_suffix ..).sublist.append (Sublist.refl _)

theorem filterMap_row (message : BridgeMessage) :
    [message].filterMap (·.row?) = message.row?.toList := by
  cases h : message.row? <;> simp [h]

theorem stream_push (registered : Bool) {queue : OutboundQueue} {peer : Peer}
    (hsent : peer.sent = l.peer.sent) (hwriter : peer.writer = l.peer.writer)
    (hqueue : queue.items.Sublist (l.queue.items ++ [message])) :
    (stream ⟨registered, queue, peer⟩).Sublist (l.stream ++ message.row?.toList) := by
  have hfront : (front ⟨registered, queue, peer⟩).Sublist (l.front ++ [message]) := by
    simp only [front, hsent, hwriter, append_assoc]
    exact (Sublist.refl _).append ((Sublist.refl _).append hqueue)
  rw [← filterMap_row, stream, stream, ← filterMap_append]
  exact hfront.filterMap _

/-- A push of what the connection accepts only. -/
theorem stream_deliver : (l.deliver message).stream.Sublist
      (l.stream ++ if l.Accepts then message.row?.toList else []) := by
  split_ifs with haccepts
  · rw [deliver_of_accepts haccepts]
    exact stream_push _ rfl rfl (items_push ..)
  · rw [deliver_of_not_accepts haccepts, append_nil]

theorem stream_of_front {g : List ViewMutationEnvelope} (h : l'.front.Sublist l.front) :
    l'.stream.Sublist (l.stream ++ g) :=
  (h.filterMap _).trans (sublist_append_left ..)

/-- What is queued of the view is given. -/
theorem row_sublist_gives (h : s.queued i a = some message) :
    message.row?.toList.Sublist (s.gives i a).toList := by
  cases message with
  | mutation envelope =>
    rw [Server.gives_of_queued h, BridgeMessage.row?]
    split_ifs <;> simp
  | _ => exact nil_sublist _

/-- A finished write moves its message, unless it is a notice of the writer's own. -/
theorem stream_finishWrite {fits : Prop} [Decidable fits]
    {writer : Writer} {g : List ViewMutationEnvelope}
    (hfront : (message.row?.toList ++ writer.messages.filterMap (·.row?)).Sublist
      (l.peer.writer.messages.filterMap (·.row?))) :
    (l.finishWrite fits message writer).stream.Sublist (l.stream ++ g) := by
  refine .trans ?_ (sublist_append_left ..)
  rw [finishWrite]
  split_ifs
  · simp only [stream, front, filterMap_append, filterMap_row, append_assoc]
    refine (Sublist.refl _).append ?_
    rw [← append_assoc]
    exact hfront.append (Sublist.refl _)
  · simp only [stream, front, Writer.messages, filterMap_append, append_nil,
      append_assoc]
    exact (Sublist.refl _).append (sublist_append_right ..)

/-- **What a step does to the stream of a connection**: it may append what the action gives. -/
theorem Step.stream (h : Link.Step bodyBytes s i (s.link i) a l')
    (hnotice : ∀ envelope messages, (s.link i).peer.writer = .notice envelope messages →
      envelope.mutation.isGap = true) :
    l'.stream.Sublist ((s.link i).stream ++ (s.gives i a).toList) := by
  cases h with
  | opened => exact nil_sublist _
  | fanned hemission =>
    refine stream_deliver.trans ((Sublist.refl _).append ?_)
    split_ifs with haccepts
    · exact row_sublist_gives (Server.queued_broadcast haccepts hemission)
    · exact nil_sublist _
  | notified =>
    refine stream_deliver.trans ((Sublist.refl _).append ?_)
    split_ifs <;> exact nil_sublist _
  | @read input op ops hub ops' hreader hexec =>
    cases op with
    | sendTo message =>
      refine (@stream_deliver (s.link i) message).trans ((Sublist.refl _).append ?_)
      split_ifs with haccepts
      · exact row_sublist_gives (Server.queued_read haccepts hreader)
      · exact nil_sublist _
    | pushShutdown reason =>
      exact (stream_push (l := s.link i) (s.link i).registered rfl rfl
        (items_push ..)).trans ((Sublist.refl _).append (nil_sublist _))
    | _ => exact stream_of_front (Sublist.refl _)
  | @answered generatedMs sessions =>
    refine (@stream_deliver (s.link i) (.hostSessionsSnapshot generatedMs sessions)).trans
      ((Sublist.refl _).append ?_)
    split_ifs <;> exact nil_sublist _
  | took hpeer hwriter =>
    -- what is taken moves from the queue to the writer
    refine stream_of_front ?_
    simp only [front, hwriter, Writer.messages, append_nil, OutboundQueue.take_items]
    refine (Sublist.refl _).append ?_
    rw [Writer.ofTaken]
    split_ifs
    · exact nil_sublist _
    · exact Sublist.refl _
  | checked hwriter =>
    refine stream_of_front ?_
    simp only [front, hwriter]
    split_ifs <;> exact Sublist.refl _
  | woke hwriter | numbered hwriter =>
    refine stream_of_front ?_
    simp only [front, hwriter]
    exact Sublist.refl _
  | failed =>
    refine stream_of_front ?_
    simp only [front, Writer.messages, append_nil]
    exact (sublist_append_left ..).append (Sublist.refl _)
  | wrote hwriter =>
    refine stream_finishWrite ?_
    obtain ⟨notice, messages, hw, rfl, rfl⟩ | ⟨messages, hw, rfl⟩ := Writer.next_eq_some hwriter
    · -- the notice is the writer's own and no mutation of the view
      have hgap := hnotice notice messages hw
      rw [hw, BridgeMessage.row?, if_pos hgap]
      exact Sublist.refl _
    · rw [hw, ← filterMap_row, ← filterMap_append]
      exact Sublist.refl _
  | beat hwriter | reported hwriter =>
    refine stream_finishWrite ?_
    rw [hwriter]
    exact Sublist.refl _
  | _ => exact stream_of_front (Sublist.refl _)

end Link

/-! ### A history of what was given -/

namespace Server

variable {β : Type} {bodyBytes : BridgeMessage → ℕ} {s s' : Server} {i : ℕ} {a : Action}
  {given : List (ViewMutationEnvelope × β)} {note : ViewMutationEnvelope → β}

/-- What a step adds to a history that notes something with each mutation given. -/
theorem mem_given_append {x : ViewMutationEnvelope × β} :
    x ∈ given ++ ((s.gives i a).map fun e => (e, note e)).toList ↔
      x ∈ given ∨ s.gives i a = some x.1 ∧ x.2 = note x.1 := by
  rw [mem_append, Option.mem_toList, Option.map_eq_some_iff]
  refine or_congr_right ⟨?_, ?_⟩
  · rintro ⟨envelope, hgives, rfl⟩
    exact ⟨hgives, rfl⟩
  · rintro ⟨hgives, hnote⟩
    exact ⟨x.1, hgives, by rw [← hnote]⟩

/-- Such a history has all that is left of the stream of the connection. -/
theorem stream_of_step (ht : s.Traced) (h : s.step bodyBytes a = some s')
    (hgiven : (s.link i).stream.Sublist (given.map (·.1))) :
    (s'.link i).stream.Sublist
      ((given ++ ((s.gives i a).map fun e => (e, note e)).toList).map (·.1)) := by
  have hstream := (step_link h i).stream fun envelope messages hw =>
    (ht.notice i envelope messages hw).1
  have hmap : ((s.gives i a).map fun e => (e, note e)).toList.map (·.1) =
      (s.gives i a).toList := by
    cases s.gives i a <;> rfl
  rw [map_append, hmap]
  exact hstream.trans (hgiven.append (Sublist.refl _))

end Server

/-! ### A property of every mutation -/

@[simp]
theorem BridgeHub.stamp_mutation (h : BridgeHub) (nowNs : ℕ) (envelope : ViewMutationEnvelope) :
    (h.stamp nowNs envelope).mutation = envelope.mutation := by
  rw [stamp]
  split <;> rfl

/-- The mutations of a piece of the reader's work. -/
def ReaderOp.mutations : ReaderOp → List ViewMutation
  | .sendTo (.mutation envelope) => [envelope.mutation]
  | .snapshotCurrent mutations _ | .snapshotRows mutations _ _ => mutations
  | _ => []

theorem mutations_handleMessage (config : BridgeServerConfig) (negotiated : Bool)
    (message : BridgeMessage) :
    ∀ op ∈ (handleMessage config negotiated message).1, op.mutations = [] := by
  cases negotiated <;> cases message <;> simp only [handleMessage, Bool.not_true, Bool.not_false,
    if_true, if_false, Bool.false_eq_true] <;> try split
  all_goals simp [ReaderOp.mutations]

/-- What the pieces that a piece leaves have to send, it had, or the replay buffer has, or the
view has just been asked for. -/
theorem ReaderOp.Leaves.mutations {h : BridgeHub} {viewFree : Bool} {input : ReaderInput}
    {op op' : ReaderOp} {ops : List ReaderOp} (hleaves : op.Leaves h viewFree input ops)
    (hop' : op' ∈ ops) {m : ViewMutation} (hm : m ∈ op'.mutations) :
    m ∈ op.mutations ∨ (∃ envelope ∈ h.replay, m = envelope.mutation) ∨
      ∃ handle, op = .snapshotMutations handle ∧ m ∈ input.mutations := by
  cases hleaves with
  | @replayed request =>
    obtain ⟨message, hmessage, rfl⟩ := mem_map.mp hop'
    cases message with
    | mutation envelope =>
      rw [mem_singleton.mp hm]
      exact .inr (.inl ⟨envelope, mem_replay_of_mem_resumeReplies hmessage, rfl⟩)
    | _ => cases hm
  | @copied handle =>
    obtain rfl | hop' := mem_cons.mp hop'
    · cases hm
    · rw [mem_singleton.mp hop'] at hm
      exact .inr (.inr ⟨handle, rfl, hm⟩)
  | current =>
    rw [mem_singleton.mp hop'] at hm
    exact .inl hm
  | row =>
    obtain rfl | hop' := mem_cons.mp hop'
    · rw [mem_singleton.mp hm]
      exact .inl mem_cons_self
    · rw [mem_singleton.mp hop'] at hm
      exact .inl (mem_cons_of_mem _ hm)
  | done => cases hop'
  | _ =>
    rw [mem_singleton.mp hop'] at hm
    cases hm

namespace Server

variable {bodyBytes : BridgeMessage → ℕ} {s s' : Server} {a : Action} {P : ViewMutation → Prop}

/-- What the view hands to the server with the action has the property. -/
def Admits (P : ViewMutation → Prop) (s : Server) : Action → Prop
  | .allocate _ mutation _ _ => P mutation
  | .read id input => ∀ handle ops, (s.peers id).reader = .snapshotMutations handle :: ops →
    ∀ mutation ∈ input.mutations, P mutation
  | _ => True

/-- Every mutation issued, and every one a reader is about to send, has the property. -/
structure Carries (P : ViewMutation → Prop) (s : Server) : Prop where
  issued : ∀ envelope ∈ s.issued, P envelope.mutation
  reader : ∀ i, ∀ op ∈ (s.peers i).reader, ∀ mutation ∈ op.mutations, P mutation

theorem carries_init (config : BridgeServerConfig) : (init config).Carries P where
  issued _ h := (not_mem_nil h).elim
  reader _ _ h := (not_mem_nil h).elim

private theorem carries_issued (h : s.Carries P) (hin : s.Admits P a)
    (hstep : s.step bodyBytes a = some s') : ∀ envelope ∈ s'.issued, P envelope.mutation := by
  have hlog : ∀ envelope ∈ s.log, P envelope.mutation :=
    fun envelope hm => h.issued envelope (mem_append_left _ hm)
  have hemission : ∀ envelope, s'.emission = some envelope → P envelope.mutation := by
    intro envelope hsome
    obtain hold | ⟨operation, mutation, wall, basis, rfl, rfl⟩ := emission_of_step hstep hsome
    · exact h.issued envelope (mem_append_right _ (by simp [hold]))
    · exact hin
  intro envelope hm
  obtain hm | hm := mem_append.mp hm
  · obtain hlog' | ⟨nowNs, new, -, hsome, hlog'⟩ := log_of_effect (step_effect hstep)
    · exact hlog envelope (hlog' ▸ hm)
    · rw [hlog'] at hm
      obtain hm | hm := mem_append.mp hm
      · exact hlog envelope hm
      · rw [mem_singleton.mp hm, BridgeHub.stamp_mutation]
        exact h.issued new (mem_append_right _ (by simp [hsome]))
  · exact hemission envelope (Option.mem_toList.mp hm)

private theorem carries_reader (h : s.Carries P) (hs : s.Sequenced) (hin : s.Admits P a)
    (hstep : s.step bodyBytes a = some s') (i : ℕ) :
    ∀ op ∈ (s'.peers i).reader, ∀ mutation ∈ op.mutations, P mutation := by
  have hold := h.reader i
  have hclosing op (hop : op = .pushShutdown "bridge idle timeout" ∨ op ∈ tearDown) :
      op.mutations = [] := by
    obtain rfl | hop := hop
    · rfl
    · revert op
      decide
  intro op hop mutation hm
  cases work_of_step hstep i with
  | kept _ hreader =>
    rw [hreader] at hop
    exact hold op hop mutation hm
  | @received message ops negotiated flow hhandle hreader =>
    have hops := mutations_handleMessage s.hub.config (s.peers i).negotiated message
    rw [hhandle] at hops
    rw [hreader] at hop
    obtain hop | hop := mem_append.mp hop
    · rw [hops op hop] at hm
      cases hm
    · split_ifs at hop
      · rw [hclosing op (.inr hop)] at hm
        cases hm
      · cases hop
  | closing _ hops =>
    rw [hclosing op (hops op hop)] at hm
    cases hm
  | @read input op' ops ops' hreader hexec hreader' =>
    rw [hreader'] at hop
    obtain hop | hop := mem_append.mp hop
    · obtain hm | ⟨envelope, henvelope, rfl⟩ | ⟨handle, rfl, hm⟩ :=
        (ReaderOp.exec_leaves hexec).mutations hop hm
      · exact hold op' (by simp [hreader]) mutation hm
      · exact h.issued envelope (mem_append_left _ (hs.replay_subset henvelope))
      · exact hin handle ops hreader mutation hm
    · exact hold op (by simp [hreader, hop]) mutation hm

/-- **The rule for a property of the rows.** -/
theorem Carries.step (h : s.Carries P) (hs : s.Sequenced) (hin : s.Admits P a)
    (hstep : s.step bodyBytes a = some s') : s'.Carries P :=
  ⟨carries_issued h hin hstep, carries_reader h hs hin hstep⟩

/-- What is given has the property. -/
theorem Carries.gives (h : s.Carries P) {i : ℕ} {envelope : ViewMutationEnvelope}
    (hgives : s.gives i a = some envelope) : P envelope.mutation := by
  obtain ⟨-, ⟨nowNs, emitted, -, hemission, rfl⟩ | ⟨input, ops, -, hreader⟩⟩ :=
    gives_eq_some hgives
  · rw [BridgeHub.stamp_mutation]
    exact h.issued emitted (mem_append_right _ (by simp [hemission]))
  · exact h.reader i (.sendTo (.mutation envelope)) (by simp [hreader]) _
      (mem_singleton_self _)

end Server

end AgentSight.Bridge
