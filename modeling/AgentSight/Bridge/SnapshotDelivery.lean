import AgentSight.Bridge.Given
import AgentSight.Bridge.QueueAccount
import AgentSight.Bridge.Reconnect
import AgentSight.Lib.Thinned

/-!
# What a client is given of a snapshot

`serve_snapshot` queues the begin of a snapshot, its rows and its end, and waits for nothing. The
queue drops its oldest message when it is full. A row that is dropped is in a gap that the writer
announces; a begin or an end is not. `snapshot_given` says what the client gets in every run in
which no push finds a begin or an end at the front of a full queue.
-/

namespace AgentSight.Bridge

open Transition List Option

/-! ### Parts of a snapshot -/

/-- The envelope replays state. -/
def ViewMutationEnvelope.IsReconstruction (envelope : ViewMutationEnvelope) : Prop :=
  envelope.operation = .snapshotReconstruction

namespace BridgeMessage

/-- The message begins or ends a snapshot. -/
def isEdge : BridgeMessage → Bool
  | .snapshotBegin .. | .snapshotEnd _ => true
  | _ => false

/-- The message is part of a snapshot. -/
def isPart : BridgeMessage → Bool
  | .snapshotBegin .. | .snapshotEnd _ => true
  | .mutation envelope => envelope.operation = .snapshotReconstruction
  | _ => false

end BridgeMessage

/-- The piece of the reader's work is a push. -/
def ReaderOp.pushes : ReaderOp → Bool
  | .sendTo _ | .pushShutdown _ => true
  | _ => false

/-- A snapshot of which the end has been queued. -/
structure EndedSnapshot where
  estimated : ℕ
  rows : List ViewMutationEnvelope
  through : ℕ

theorem Announced.mono {ms ms' : List BridgeMessage} {n : ℕ} (h : Announced ms n)
    (hsub : ms ⊆ ms') : Announced ms' n := by
  obtain ⟨envelope, lo, hi, reason, hmem, hgap⟩ := h
  exact ⟨envelope, lo, hi, reason, hsub hmem, hgap⟩

/-- The writer has yet to announce the sequence. -/
def Writer.Announces (n : ℕ) : Writer → Prop
  | .writing (some gap) _ => InGap n gap
  | .notice envelope _ => Announced [.mutation envelope] n
  | _ => False

namespace Link

variable (l : Link)

/-- A gap that the client has been told of, or will be before the next message, has the
sequence. -/
def Announces (n : ℕ) : Prop :=
  Announced l.peer.sent n ∨ l.peer.writer.Announces n ∨ ∃ gap ∈ l.queue.pendingGap, InGap n gap

/-- The message is a mutation that is in such a gap. -/
def Named (m : BridgeMessage) : Prop :=
  ∃ envelope, m = .mutation envelope ∧ l.Announces envelope.sequence

/-- The client is given the begin of the snapshot, then as many rows as the begin estimates, then
the end; what is missing of the rows is in a gap. -/
def Given (snapshot : EndedSnapshot) : Prop :=
  snapshot.rows.length = snapshot.estimated ∧ (∀ e ∈ snapshot.rows, e.IsReconstruction) ∧
    ∃ pre kept post, l.front.filter (·.isPart) = pre ++ .snapshotBegin snapshot.estimated true ::
        (kept ++ .snapshotEnd snapshot.through :: post) ∧
      Thinned l.Named (snapshot.rows.map .mutation) kept

/-- A push does not drop the begin or the end of a snapshot. -/
def Spares : Prop :=
  l.queue.closed = false → l.queue.items.length = l.queue.capacity →
    ∀ m ∈ l.queue.items.head?, m.isEdge = false

instance : Decidable l.Spares := inferInstanceAs (Decidable (_ → _ → ∀ m ∈ _, _))

/-- The action pushes to the queue of the connection `i`, if the queue takes anything. -/
def pushes (i : ℕ) : Action → Bool
  | .broadcast _ | .shutdown _ => true
  | .read id _ => id = i && l.peer.reader.head?.any (·.pushes)
  | .hostSessions id answer => id = i && answer.isSome
  | _ => false

end Link

/-! ### Pushes -/

namespace OutboundQueue

variable {q : OutboundQueue} {message : BridgeMessage}

/-- A push to an open queue drops the first message if the queue is full. -/
theorem items_push_cases (hopen : q.closed = false) :
    (q.push message).1.items = q.items ++ [message] ∧ (q.push message).1.pendingGap = q.pendingGap ∨
      ∃ first rest, q.items = first :: rest ∧ q.items.length = q.capacity ∧
        (q.push message).1.items = rest ++ [message] ∧
        (q.push message).1.pendingGap = widen q.pendingGap first := by
  obtain ⟨hitems, hgap⟩ := @push_of_open q message hopen
  rw [hitems, hgap]
  obtain hlt | hfull := q.items_le.lt_or_eq
  · rw [evict_of_lt _ hlt]
    exact .inl ⟨rfl, rfl⟩
  · obtain ⟨first, rest, hcons⟩ : ∃ first rest, q.items = first :: rest :=
      exists_cons_of_length_pos (hfull ▸ q.capacity_pos)
    have hrest : rest.length < q.capacity := by
      rw [hcons, length_cons] at hfull
      omega
    refine .inr ⟨first, rest, hcons, hfull, ?_⟩
    rw [hcons, evict, if_pos (by rw [← hcons, hfull]), evict_of_lt _ hrest]
    exact ⟨rfl, rfl⟩

end OutboundQueue

/-! ### What a step does to what the client is given -/

namespace Link

variable {bodyBytes : BridgeMessage → ℕ} {s : Server} {i : ℕ} {a : Action} {l l' : Link}
  {message : BridgeMessage}

/-- The link `l'` is the link `l` with some parts more, less some that are named in a gap. -/
structure Follows (l l' : Link) (parts : List BridgeMessage) : Prop where
  running : l'.peer.writer ≠ .done → l.peer.writer ≠ .done
  announces : l'.peer.writer ≠ .done → ∀ n, l.Announces n → l'.Announces n
  thinned : l'.peer.writer ≠ .done →
    Thinned l'.Named (l.front.filter (·.isPart) ++ parts) (l'.front.filter (·.isPart))

theorem Follows.of_front (hrunning : l'.peer.writer ≠ .done → l.peer.writer ≠ .done)
    (hannounces : l'.peer.writer ≠ .done → ∀ n, l.Announces n → l'.Announces n)
    (hfront : l'.peer.writer ≠ .done →
      l'.front.filter (·.isPart) = l.front.filter (·.isPart)) : l.Follows l' [] where
  running := hrunning
  announces := hannounces
  thinned h := by
    rw [hfront h, append_nil]

variable {peer : Peer}

/-- Neither what the client is given changes nor the gaps. -/
theorem Follows.of_same {registered : Bool} {queue : OutboundQueue}
    (hitems : queue.items = l.queue.items) (hgap : queue.pendingGap = l.queue.pendingGap)
    (hsent : peer.sent = l.peer.sent) (hwriter : peer.writer = l.peer.writer) :
    l.Follows ⟨registered, queue, peer⟩ [] := by
  refine .of_front (fun h => hwriter ▸ h) (fun _ n hn => ?_) fun _ => ?_
  · rwa [Announces, hsent, hwriter, hgap]
  · rw [front, front, hsent, hwriter, hitems]

theorem Follows.push {registered : Bool} (hopen : l.queue.closed = false)
    (hspares : l.Spares) (hsent : peer.sent = l.peer.sent) (hwriter : peer.writer = l.peer.writer) :
    l.Follows ⟨registered, (l.queue.push message).1, peer⟩ ([message].filter (·.isPart)) := by
  have hfront : l.front = l.peer.sent ++ l.peer.writer.messages ++ l.queue.items := rfl
  obtain ⟨hitems, hgap⟩ | ⟨first, rest, hcons, hfull, hitems, hgap⟩ :=
    @OutboundQueue.items_push_cases l.queue message hopen
  · refine ⟨fun h => hwriter ▸ h, fun _ n hn => ?_, fun _ => ?_⟩
    · rwa [Announces, hsent, hwriter, hgap]
    · rw [hfront, front, hsent, hwriter, hitems, ← filter_append, ← append_assoc]
  · have hnamed : ∀ n, l.Announces n →
        Link.Announces ⟨registered, (l.queue.push message).1, peer⟩ n := by
      intro n hn
      rw [Announces, hsent, hwriter, hgap]
      exact hn.imp_right (Or.imp_right (OutboundQueue.exists_inGap_widen first))
    refine ⟨fun h => hwriter ▸ h, fun _ => hnamed, fun _ => ?_⟩
    rw [hfront, front, hsent, hwriter, hitems, hcons]
    simp only [filter_append, append_assoc]
    refine (Thinned.refl _).append ((Thinned.refl _).append ?_)
    rw [← singleton_append, filter_append, append_assoc]
    refine Thinned.append_left (fun m hm => ?_) (Thinned.refl _)
    -- the message dropped is no begin and no end, so if it is a part it is a row
    obtain ⟨hm, hpart⟩ := mem_filter.mp hm
    obtain rfl := mem_singleton.mp hm
    have hedge : m.isEdge = false := hspares hopen hfull m (by rw [hcons]; rfl)
    cases m with
    | mutation envelope =>
      obtain ⟨g, hg, hin⟩ := OutboundQueue.inGap_widen_mutation l.queue.pendingGap envelope
      exact ⟨envelope, rfl, .inr (.inr ⟨g, hgap ▸ hg, hin⟩)⟩
    | snapshotBegin | snapshotEnd => cases hedge
    | _ => cases hpart

theorem Follows.deliver (hspares : l.Spares) (hsent : peer.sent = l.peer.sent)
    (hwriter : peer.writer = l.peer.writer) :
    l.Follows { l.deliver message with peer }
      (if l.Accepts then [message].filter (·.isPart) else []) := by
  split_ifs with haccepts
  · rw [deliver_of_accepts haccepts]
    exact .push haccepts.2 hspares hsent hwriter
  · rw [deliver_of_not_accepts haccepts]
    exact .of_same rfl rfl hsent hwriter

theorem Follows.deliver_of_not_part (hpart : message.isPart = false)
    (hspares : l.Spares) (hsent : peer.sent = l.peer.sent) (hwriter : peer.writer = l.peer.writer) :
    l.Follows { l.deliver message with peer } [] := by
  have hdeliver := @Follows.deliver l message peer hspares hsent hwriter
  have hnil : [message].filter (·.isPart) = [] := by simp [hpart]
  rwa [hnil, ite_self] at hdeliver

theorem finishWrite_reader {fits : Prop} [Decidable fits] {writer : Writer} :
    (l.finishWrite fits message writer).peer.reader = l.peer.reader := by
  rw [Link.finishWrite]
  split_ifs <;> rfl

/-- What is written goes from the writer to the client. -/
theorem Follows.finishWrite {fits : Prop} [Decidable fits] {writer : Writer}
    (hrunning : l.peer.writer ≠ .done)
    (hmessages : [message].filter (·.isPart) ++ writer.messages.filter (·.isPart) =
      l.peer.writer.messages.filter (·.isPart))
    (hannounces : ∀ n, l.peer.writer.Announces n → Announced [message] n ∨ writer.Announces n) :
    l.Follows (l.finishWrite fits message writer) [] := by
  rw [Link.finishWrite]
  split_ifs
  · refine .of_front (fun _ => hrunning) (fun _ n hn => ?_) fun _ => ?_
    · obtain hn | hn | hn := hn
      · exact .inl (hn.mono (subset_append_left ..))
      · obtain hn | hn := hannounces n hn
        · exact .inl (hn.mono (subset_append_right ..))
        · exact .inr (.inl hn)
      · exact .inr (.inr hn)
    · simp only [front, filter_append, append_assoc, ← hmessages]
  · exact ⟨fun h => absurd rfl h, fun h => absurd rfl h, fun h => absurd rfl h⟩

/-- The notice that the writer holds is no row of a snapshot. -/
def NoticeLive (l : Link) : Prop :=
  ∀ envelope messages, l.peer.writer = .notice envelope messages → ¬ envelope.IsReconstruction

theorem not_part_of_not_reconstruction {envelope : ViewMutationEnvelope}
    (h : ¬ envelope.IsReconstruction) : BridgeMessage.isPart (.mutation envelope) = false :=
  decide_eq_false h

/-- **What a step does to what the client is given of its snapshots**: it may append the part that
the action queues. -/
theorem Step.follows (h : Link.Step bodyBytes s i (s.link i) a l')
    (hconnect : a = .connect → i ≠ s.hub.nextConnectionId + 1)
    (hspares : (s.link i).pushes i a = true → (s.link i).Spares)
    (hnotice : (s.link i).NoticeLive) :
    (s.link i).Follows l' ((s.queued i a).toList.filter (·.isPart)) := by
  have hquiet (hnone : s.queued i a = none) (hfollows : (s.link i).Follows l' []) :
      (s.link i).Follows l' ((s.queued i a).toList.filter (·.isPart)) := by
    rwa [hnone]
  cases h with
  | untouched htarget hshared =>
    refine hquiet ?_ (.of_same rfl rfl rfl rfl)
    cases a with
    | broadcast => cases hshared
    | read id input =>
      rw [Server.queued, if_neg (fun h => htarget (congrArg some h)), ite_self]
    | _ => exact ite_self _
  | passedOver => exact hquiet (ite_self _) (.of_same rfl rfl rfl rfl)
  | opened hi => exact absurd hi (hconnect rfl)
  | @fanned nowNs envelope hemission =>
    have hqueued : (s.queued i (.broadcast nowNs)).toList.filter (·.isPart) =
        if (s.link i).Accepts then
          [BridgeMessage.mutation (s.hub.stamp nowNs envelope)].filter (·.isPart) else [] := by
      rw [Server.queued, hemission]
      split_ifs <;> rfl
    rw [hqueued]
    exact .deliver (hspares rfl) rfl rfl
  | @notified reason =>
    refine hquiet (ite_self _) ?_
    exact .deliver_of_not_part rfl (hspares rfl) rfl rfl
  | @read input op ops hub ops' hreader hexec =>
    have hreader' : (s.peers i).reader = op :: ops := hreader
    have hqueued : s.queued i (.read i input) =
        if (s.link i).Accepts then op.message? else none := by
      rw [Server.queued, if_pos rfl, hreader']
      rfl
    have hpushes (hop : op.pushes = true) : (s.link i).Spares := by
      refine hspares ?_
      simp [pushes, hreader, hop]
    have hnone (hop : op.message? = none) : s.queued i (.read i input) = none := by
      rw [hqueued, hop, ite_self]
    cases op with
    | sendTo message =>
      have hparts : (s.queued i (.read i input)).toList.filter (·.isPart) =
          if (s.link i).Accepts then [message].filter (·.isPart) else [] := by
        rw [hqueued]
        split_ifs <;> rfl
      rw [hparts]
      exact .deliver (hpushes rfl) rfl rfl
    | pushShutdown reason =>
      refine hquiet (hnone rfl) ?_
      cases hclosed : (s.link i).queue.closed with
      | true => refine .of_same ?_ ?_ rfl rfl <;> rw [OutboundQueue.push_of_closed hclosed]
      | false => exact .push hclosed (hpushes rfl) rfl rfl
    | _ => exact hquiet (hnone rfl) (.of_same rfl rfl rfl rfl)
  | @answered generatedMs sessions =>
    refine hquiet (ite_self _) (.deliver_of_not_part rfl (hspares ?_) rfl rfl)
    simp [pushes]
  | took hpeer hwriter =>
    -- what is taken moves from the queue to the writer
    refine hquiet (ite_self _) (.of_front (fun _ => by simp [hwriter]) (fun _ n hn => ?_) ?_)
    · obtain hn | hn | ⟨gap, hgap, hn⟩ := hn
      · exact .inl hn
      · rw [hwriter] at hn
        exact hn.elim
      · refine .inr (.inl ?_)
        rw [hgap, Writer.ofTaken, if_neg (by simp)]
        exact hn
    · intro _
      simp only [front, hwriter, Writer.messages, append_nil, OutboundQueue.take_items]
      rw [Writer.ofTaken]
      split_ifs with hempty
      · rw [hempty.1]
      · rfl
  | checked hwriter | woke hwriter =>
    refine hquiet (ite_self _) (.of_front (fun _ => by simp [hwriter]) (fun _ n hn => ?_) ?_)
    · obtain hn | hn | hn := hn
      · exact .inl hn
      · rw [hwriter] at hn
        exact hn.elim
      · exact .inr (.inr hn)
    · intro _
      simp only [front, hwriter]
      first | rfl | split_ifs <;> rfl
  | numbered hwriter =>
    refine hquiet (ite_self _) (.of_front (fun _ => by simp [hwriter]) (fun _ n hn => ?_) ?_)
    · obtain hn | hn | hn := hn
      · exact .inl hn
      · rw [hwriter] at hn
        exact .inr (.inl ⟨_, _, _, _, mem_singleton_self _, rfl, hn⟩)
      · exact .inr (.inr hn)
    · intro _
      simp only [front, hwriter]
      rfl
  | @wrote message writer hwriter =>
    refine hquiet (ite_self _) ?_
    obtain ⟨notice, messages, hw, rfl, rfl⟩ | ⟨messages, hw, rfl⟩ := Writer.next_eq_some hwriter
    · refine .finishWrite (by simp [hw]) ?_ fun n hn => ?_
      · rw [hw, filter_singleton, not_part_of_not_reconstruction (hnotice _ _ hw)]
        rfl
      · rw [hw] at hn
        exact .inl hn
    · refine .finishWrite (by simp [hw]) ?_ fun n hn => ?_
      · rw [hw, ← filter_append]
        rfl
      · rw [hw] at hn
        exact hn.elim
  | beat hwriter | reported hwriter =>
    refine hquiet (ite_self _) (.finishWrite (by simp [hwriter]) ?_ fun n hn => ?_)
    · rw [hwriter]
      rfl
    · rw [hwriter] at hn
      exact hn.elim
  | failed =>
    exact ⟨fun h => absurd rfl h, fun h => absurd rfl h, fun h => absurd rfl h⟩
  | _ => exact hquiet (ite_self _) (.of_same rfl rfl rfl rfl)

theorem Step.noticeLive (h : Link.Step bodyBytes s i l a l') (hnotice : l.NoticeLive) :
    l'.NoticeLive := by
  intro notice messages hwriter
  have hfinish {fits : Prop} [Decidable fits] {message : BridgeMessage} {writer : Writer}
      (hne : writer ≠ .notice notice messages) :
      (l.finishWrite fits message writer).peer.writer ≠ .notice notice messages := by
    rw [Link.finishWrite]
    split_ifs
    · exact hne
    · exact Writer.noConfusion
  cases h with
  | numbered =>
    obtain ⟨rfl, -⟩ := Writer.notice.inj hwriter
    exact MutationOperation.noConfusion
  | took =>
    simp only [Writer.ofTaken] at hwriter
    split_ifs at hwriter
  | checked =>
    split_ifs at hwriter
  | woke | failed | opened => cases hwriter
  | wrote hnext =>
    refine absurd hwriter (hfinish ?_)
    obtain ⟨_, _, -, -, rfl⟩ | ⟨_, -, rfl⟩ := Writer.next_eq_some hnext <;>
      exact Writer.noConfusion
  | beat | reported => exact absurd hwriter (hfinish Writer.noConfusion)
  | @read input op ops hub ops' hreader hexec =>
    refine hnotice notice messages (Eq.trans ?_ hwriter)
    cases op <;> rfl
  | _ => exact hnotice notice messages hwriter

end Link

/-! ### Where a reader stands with its snapshot -/

/-- A snapshot of which the end has not been queued: its estimate, and the rows queued. -/
abbrev BegunSnapshot := ℕ × List ViewMutationEnvelope

/-- What is begun once the message has been queued. -/
def begunAfter (begun : Option BegunSnapshot) : BridgeMessage → Option BegunSnapshot
  | .snapshotBegin estimated _ => some (estimated, [])
  | .snapshotEnd _ => none
  | .mutation envelope =>
    if envelope.operation = .snapshotReconstruction then
      begun.map fun (estimated, rows) => (estimated, rows ++ [envelope])
    else begun
  | _ => begun

/-- The snapshot that the message ends. -/
def endedBy (begun : Option BegunSnapshot) : BridgeMessage → Option EndedSnapshot
  | .snapshotEnd through => begun.map fun (estimated, rows) => ⟨estimated, rows, through⟩
  | _ => none

/-- The piece sends no part of a snapshot and leaves none to send. -/
def ReaderOp.isPlain : ReaderOp → Bool
  | .sendTo message => !message.isPart
  | .snapshotMutations _ | .snapshotCurrent .. | .snapshotRows .. => false
  | _ => true

/-- The reader has as many rows left to queue as the begin of its snapshot estimates and have
not been queued. -/
inductive Standing : List ReaderOp → Option BegunSnapshot → Prop
  | idle {ops : List ReaderOp} (hplain : ∀ op ∈ ops, op.isPlain = true) : Standing ops none
  | asked {handle} : Standing [.snapshotMutations handle] none
  | began {mutations : List ViewMutation} {handle} : Standing
      [.sendTo (.snapshotBegin mutations.length true), .snapshotCurrent mutations handle] none
  | current {mutations : List ViewMutation} {handle} :
      Standing [.snapshotCurrent mutations handle] (some (mutations.length, []))
  | rows {mutations : List ViewMutation} {handle through n} {rows : List ViewMutationEnvelope}
      (hrows : ∀ e ∈ rows, e.IsReconstruction) (hlength : rows.length + mutations.length = n) :
      Standing [.snapshotRows mutations handle through] (some (n, rows))
  | row {envelope : ViewMutationEnvelope} {mutations : List ViewMutation} {handle through n}
      {rows : List ViewMutationEnvelope} (hrow : envelope.IsReconstruction)
      (hrows : ∀ e ∈ rows, e.IsReconstruction)
      (hlength : rows.length + 1 + mutations.length = n) :
      Standing [.sendTo (.mutation envelope), .snapshotRows mutations handle through]
        (some (n, rows))
  | ended {through n} {rows : List ViewMutationEnvelope}
      (hrows : ∀ e ∈ rows, e.IsReconstruction) (hlength : rows.length = n) :
      Standing [.sendTo (.snapshotEnd through)] (some (n, rows))

variable {begun : Option BegunSnapshot}

theorem begunAfter_of_reconstruction
    {envelope : ViewMutationEnvelope} (h : envelope.IsReconstruction) :
    begunAfter begun (.mutation envelope) =
      begun.map fun (estimated, rows) => (estimated, rows ++ [envelope]) :=
  if_pos h

variable {message : BridgeMessage}

theorem begunAfter_of_not_part (h : message.isPart = false) : begunAfter begun message = begun := by
  cases message with
  | mutation envelope => exact if_neg (of_decide_eq_false h)
  | snapshotBegin | snapshotEnd => cases h
  | _ => rfl

theorem endedBy_of_not_part (h : message.isPart = false) : endedBy begun message = none := by
  cases message with
  | snapshotEnd => cases h
  | _ => rfl

theorem isEdge_of_mem_resumeReplies {outcome : BridgeHub.ResumeOutcome}
    (h : message ∈ resumeReplies outcome) : message.isEdge = false := by
  cases outcome with
  | ok =>
    obtain ⟨_, -, rfl⟩ := mem_map.mp h
    rfl
  | unavailable | overflow =>
    rw [mem_singleton.mp h]
    rfl

/-- What a plain piece leaves is plain. -/
theorem ReaderOp.Leaves.isPlain {h : BridgeHub} {viewFree : Bool} {input : ReaderInput}
    {op : ReaderOp} {ops : List ReaderOp} (hleaves : op.Leaves h viewFree input ops)
    (hop : op.isPlain = true) (hreplay : ∀ e ∈ h.replay, ¬ e.IsReconstruction) :
    ∀ op' ∈ ops, op'.isPlain = true := by
  intro op' hop'
  cases hleaves with
  | copied | current | row | ended => cases hop
  | done => cases hop'
  | @replayed request =>
    obtain ⟨message, hmessage, rfl⟩ := mem_map.mp hop'
    cases message with
    | mutation envelope =>
      have hlive := hreplay envelope (mem_replay_of_mem_resumeReplies hmessage)
      rw [ReaderOp.isPlain, Link.not_part_of_not_reconstruction hlive]
      rfl
    | snapshotBegin | snapshotEnd => cases isEdge_of_mem_resumeReplies hmessage
    | _ => rfl
  | _ =>
    rw [mem_singleton.mp hop']
    rfl

namespace Standing

variable {h h' : BridgeHub} {id : ℕ} {viewFree : Bool} {input : ReaderInput} {op : ReaderOp}
  {ops ops' : List ReaderOp} {begun : Option BegunSnapshot}

theorem begun_eq_none (h : Standing [] begun) : begun = none := by
  cases h
  rfl

theorem isPlain_tearDown : ∀ op ∈ tearDown, op.isPlain = true := by decide

theorem handleMessage {config : BridgeServerConfig} {negotiated negotiated' : Bool} {flow : Flow}
    (h : handleMessage config negotiated message = (ops, negotiated', flow)) :
    Standing (ops ++ if flow = .close then tearDown else []) none := by
  have hcases : (∀ op ∈ (Bridge.handleMessage config negotiated message).1, op.isPlain = true) ∨
      (Bridge.handleMessage config negotiated message).2.2 = .continue ∧
        ∃ handle, (Bridge.handleMessage config negotiated message).1 =
          [.snapshotMutations handle] := by
    cases negotiated <;> cases message <;> simp only [Bridge.handleMessage, Bool.not_true,
      Bool.not_false, if_true, if_false, Bool.false_eq_true] <;> try split
    all_goals simp_all [ReaderOp.isPlain, BridgeMessage.isPart]
  rw [h] at hcases
  obtain hplain | ⟨rfl, handle, rfl⟩ := hcases
  · refine .idle fun op hop => ?_
    obtain hop | hop := mem_append.mp hop
    · exact hplain op hop
    · split_ifs at hop
      · exact isPlain_tearDown op hop
      · cases hop
  · exact .asked

/-- One piece of the reader's work. -/
theorem read (hstanding : Standing (op :: ops) begun)
    (hexec : op.exec h id viewFree input = some (h', ops'))
    (hreplay : ∀ e ∈ h.replay, ¬ e.IsReconstruction) :
    Standing (ops' ++ ops) (op.message?.elim begun (begunAfter begun)) := by
  -- one case for each place a reader can stand at
  cases hstanding with
  | idle hplain =>
    have hop : op.isPlain = true := hplain op mem_cons_self
    have hnone : op.message?.elim none (begunAfter none) = none := by
      cases op with
      | sendTo message => exact begunAfter_of_not_part (by simpa [ReaderOp.isPlain] using hop)
      | _ => rfl
    rw [hnone]
    refine .idle fun op' hop' => ?_
    obtain hop' | hop' := mem_append.mp hop'
    · exact ReaderOp.Leaves.isPlain (ReaderOp.exec_leaves hexec) hop hreplay op' hop'
    · exact hplain op' (mem_cons_of_mem _ hop')
  | asked =>
    simp only [ReaderOp.exec, ite_none_right_eq_some, some.injEq,
      Prod.mk.injEq] at hexec
    obtain ⟨-, rfl, rfl⟩ := hexec
    exact .began
  | began =>
    cases hexec
    exact .current
  | current =>
    cases hexec
    exact .rows (by simp) (Nat.zero_add _)
  | @rows mutations handle through n rows hrows hlength =>
    cases mutations with
    | nil =>
      cases hexec
      exact .ended hrows hlength
    | cons mutation mutations =>
      cases hexec
      refine .row rfl hrows ?_
      rw [← hlength, length_cons]
      omega
  | @row envelope mutations handle through n rows hrow hrows hlength =>
    cases hexec
    change Standing _ (begunAfter _ (.mutation envelope))
    rw [begunAfter_of_reconstruction hrow]
    refine .rows ?_ ?_
    · simpa [or_imp, forall_and] using ⟨hrows, hrow⟩
    · rw [length_append, length_singleton, hlength]
  | ended =>
    cases hexec
    exact .idle (by simp)

end Standing

/-! ### Histories -/

/-- The messages of a snapshot. -/
def EndedSnapshot.messages (snapshot : EndedSnapshot) : List BridgeMessage :=
  .snapshotBegin snapshot.estimated true ::
    (snapshot.rows.map .mutation ++ [.snapshotEnd snapshot.through])

def begunMessages : Option BegunSnapshot → List BridgeMessage
  | none => []
  | some (estimated, rows) => .snapshotBegin estimated true :: rows.map .mutation

/-- The action opens the connection `i`. -/
def Server.opens (s : Server) (i : ℕ) : Action → Bool
  | .connect => i = s.hub.nextConnectionId + 1
  | _ => false

/-- A server with what it has queued of snapshots to each connection. -/
structure Deliveries where
  server : Server
  begun : ℕ → Option BegunSnapshot
  ended : ℕ → List EndedSnapshot

namespace Deliveries

def init (config : BridgeServerConfig) : Deliveries where
  server := .init config
  begun := fun _ => none
  ended := fun _ => []

def step (bodyBytes : BridgeMessage → ℕ) (t : Deliveries) (a : Action) : Option Deliveries :=
  (t.server.step bodyBytes a).map fun server =>
    { server
      begun := fun i => if t.server.opens i a then none
        else (t.server.queued i a).elim (t.begun i) (begunAfter (t.begun i))
      ended := fun i => if t.server.opens i a then []
        else t.ended i ++ ((t.server.queued i a).bind (endedBy (t.begun i))).toList }

/-- The step drops no begin and no end of a snapshot queued to the connection `i`. -/
def SparesEdges (i : ℕ) (t : Deliveries) (a : Action) : Prop :=
  (t.server.link i).pushes i a = true → (t.server.link i).Spares

instance (i : ℕ) (t : Deliveries) (a : Action) : Decidable (t.SparesEdges i a) :=
  inferInstanceAs (Decidable (_ → _))

/-- The parts of snapshots queued to the connection `i`. -/
def parts (t : Deliveries) (i : ℕ) : List BridgeMessage :=
  (t.ended i).flatMap (·.messages) ++ begunMessages (t.begun i)

/-- What holds of the connection `i` in every state of a run. -/
structure Consistent (t : Deliveries) (i : ℕ) : Prop where
  sequenced : t.server.Sequenced
  standing : (t.server.link i).Accepts → Standing (t.server.peers i).reader (t.begun i)
  noticeLive : (t.server.link i).NoticeLive
  complete : ∀ snapshot ∈ t.ended i, snapshot.rows.length = snapshot.estimated ∧
    ∀ e ∈ snapshot.rows, e.IsReconstruction
  thinned : (t.server.peers i).writer ≠ .done →
    Thinned (t.server.link i).Named (t.parts i) ((t.server.link i).front.filter (·.isPart))

variable {bodyBytes : BridgeMessage → ℕ} {t t' : Deliveries} {a : Action} {i : ℕ}

theorem step_eq (h : t.step bodyBytes a = some t') :
    t.server.step bodyBytes a = some t'.server ∧ (∀ i, t'.begun i = if t.server.opens i a then none
        else (t.server.queued i a).elim (t.begun i) (begunAfter (t.begun i))) ∧
      ∀ i, t'.ended i = if t.server.opens i a then []
        else t.ended i ++ ((t.server.queued i a).bind (endedBy (t.begun i))).toList := by
  obtain ⟨server, hserver, rfl⟩ := map_eq_some_iff.mp h
  exact ⟨hserver, fun _ => rfl, fun _ => rfl⟩

theorem Consistent.not_part_of_emission (h : t.Consistent i) {emitted : ViewMutationEnvelope}
    (hemission : t.server.emission = some emitted) (nowNs : ℕ) :
    BridgeMessage.isPart (.mutation (t.server.hub.stamp nowNs emitted)) = false := by
  refine Link.not_part_of_not_reconstruction ?_
  rw [ViewMutationEnvelope.IsReconstruction, BridgeHub.stamp_operation]
  exact h.sequenced.original emitted (by simp [Server.issued, hemission])

/-- What an action queues is no part of a snapshot, or the reader stands at it. -/
theorem Consistent.queued (h : t.Consistent i) (hqueued : t.server.queued i a = some message) :
    message.isPart = false ∨ ∃ ops, Standing (.sendTo message :: ops) (t.begun i) := by
  obtain ⟨haccepts, ⟨nowNs, emitted, -, hemission, rfl⟩ | ⟨input, ops, -, hreader⟩⟩ :=
    Server.queued_eq_some hqueued
  · exact .inl (h.not_part_of_emission hemission nowNs)
  · exact .inr ⟨ops, hreader ▸ h.standing haccepts⟩

/-- What has been queued of snapshots, once a message has been. -/
theorem parts_queued (ended : List EndedSnapshot)
    (h : message.isPart = false ∨ ∃ ops, Standing (.sendTo message :: ops) begun) :
    (ended ++ (endedBy begun message).toList).flatMap (·.messages) ++
        begunMessages (begunAfter begun message) =
      ended.flatMap (·.messages) ++ begunMessages begun ++ [message].filter (·.isPart) := by
  obtain hpart | ⟨ops, hstanding⟩ := h
  · rw [begunAfter_of_not_part hpart, endedBy_of_not_part hpart]
    simp [hpart]
  · cases hstanding with
    | idle hplain =>
      have hpart : message.isPart = false := by
        simpa [ReaderOp.isPlain] using hplain _ mem_cons_self
      rw [begunAfter_of_not_part hpart, endedBy_of_not_part hpart]
      simp [hpart]
    | began => simp [begunAfter, endedBy, begunMessages, BridgeMessage.isPart]
    | @row envelope _ _ _ _ _ hrow =>
      rw [begunAfter_of_reconstruction hrow]
      have hpart : BridgeMessage.isPart (.mutation envelope) = true := decide_eq_true hrow
      simp [endedBy, begunMessages, hpart]
    | ended => simp [begunAfter, endedBy, begunMessages, BridgeMessage.isPart,
        EndedSnapshot.messages]

/-- A snapshot that ends has as many rows as its begin estimates. -/
theorem complete_queued {snapshot : EndedSnapshot} (hended : endedBy begun message = some snapshot)
    (h : message.isPart = false ∨ ∃ ops, Standing (.sendTo message :: ops) begun) :
    snapshot.rows.length = snapshot.estimated ∧ ∀ e ∈ snapshot.rows, e.IsReconstruction := by
  obtain hpart | ⟨ops, hstanding⟩ := h
  · rw [endedBy_of_not_part hpart] at hended
    cases hended
  · cases hstanding with
    | idle hplain =>
      have hpart : message.isPart = false := by
        simpa [ReaderOp.isPlain] using hplain _ mem_cons_self
      rw [endedBy_of_not_part hpart] at hended
      cases hended
    | ended hrows hlength =>
      obtain rfl := some.inj hended
      exact ⟨hlength, hrows⟩
    | _ => cases hended

theorem Consistent.not_reconstruction_of_mem_replay (h : t.Consistent i)
    {e : ViewMutationEnvelope} (he : e ∈ t.server.hub.replay) : ¬ e.IsReconstruction := by
  rw [h.sequenced.replay] at he
  exact h.sequenced.original e (mem_append_left _ (mem_of_mem_drop he))

/-- A connection that is not opened does not start to accept. -/
theorem accepts_of_step (hstep : t.step bodyBytes a = some t')
    (hopens : t.server.opens i a = false) (haccepts : (t'.server.link i).Accepts) :
    (t.server.link i).Accepts := by
  obtain ⟨hserver, -⟩ := step_eq hstep
  have hlink := Server.step_link hserver i
  generalize t'.server.link i = l' at hlink haccepts
  obtain ⟨hregistered, hclosed⟩ := haccepts
  cases hlink with
  | opened hi => exact absurd hi (of_decide_eq_false hopens)
  | @read input op ops hub ops' hreader hexec =>
    cases op with
    | sendTo message => exact ⟨hregistered, (Link.deliver_closed ..).symm.trans hclosed⟩
    | pushShutdown reason => exact ⟨hregistered, (OutboundQueue.push_closed ..).symm.trans hclosed⟩
    | closeQueue => exact absurd hclosed (by simp [Link.worked])
    | unregister => exact absurd hregistered (by simp [Link.worked])
    | _ => exact ⟨hregistered, hclosed⟩
  | fanned | notified | answered => exact ⟨hregistered, (Link.deliver_closed ..).symm.trans hclosed⟩
  | wrote | beat | reported =>
    rw [Link.finishWrite] at hregistered hclosed
    split_ifs at hregistered hclosed <;> exact ⟨hregistered, hclosed⟩
  | _ => exact ⟨hregistered, hclosed⟩

theorem Consistent.standing_step (h : t.Consistent i) (hstep : t.step bodyBytes a = some t')
    (hopens : t.server.opens i a = false) (haccepts' : (t'.server.link i).Accepts) :
    Standing (t'.server.peers i).reader (t'.begun i) := by
  obtain ⟨hserver, hbegun, -⟩ := step_eq hstep
  have haccepts := accepts_of_step hstep hopens haccepts'
  have hstanding := h.standing haccepts
  rw [hbegun, hopens]
  have hlink := Server.step_link hserver i
  change Standing (t'.server.link i).peer.reader _
  generalize t'.server.link i = l' at hlink
  have hquiet (hnone : t.server.queued i a = none)
      (hreader : l'.peer.reader = (t.server.peers i).reader) : Standing l'.peer.reader
        ((t.server.queued i a).elim (t.begun i) (begunAfter (t.begun i))) := by
    rw [hnone, hreader]
    exact hstanding
  have hidle (hnone : t.server.queued i a = none) (hreader : (t.server.link i).peer.reader = [])
      (hnew : Standing l'.peer.reader none) : Standing l'.peer.reader
        ((t.server.queued i a).elim (t.begun i) (begunAfter (t.begun i))) := by
    have hreader' : (t.server.peers i).reader = [] := hreader
    rw [hreader'] at hstanding
    rw [hnone, hstanding.begun_eq_none]
    exact hnew
  cases hlink with
  | untouched htarget hshared =>
    refine hquiet ?_ rfl
    cases a with
    | broadcast => cases hshared
    | read id input =>
      rw [Server.queued, if_neg (fun h => htarget (congrArg some h)), ite_self]
    | _ => exact ite_self _
  | opened hi => exact absurd hi (of_decide_eq_false hopens)
  | @fanned nowNs envelope hemission =>
    rw [Server.queued_broadcast haccepts hemission, elim_some,
      begunAfter_of_not_part (h.not_part_of_emission hemission nowNs)]
    exact hstanding
  | received hpeer hserving hreader hhandle =>
    exact hidle (ite_self _) hreader (.handleMessage hhandle)
  | hungUp hpeer hserving hreader =>
    exact hidle (ite_self _) hreader (.idle Standing.isPlain_tearDown)
  | timedOut hpeer hserving hreader =>
    exact hidle (ite_self _) hreader
      (.idle (forall_mem_cons.mpr ⟨rfl, Standing.isPlain_tearDown⟩))
  | @read input op ops hub ops' hreader hexec =>
    have hreader' : (t.server.peers i).reader = op :: ops := hreader
    have hqueued : t.server.queued i (.read i input) = op.message? := by
      rw [Server.queued, if_pos haccepts, if_pos rfl, hreader']
      rfl
    have hworked : ((t.server.link i).worked op (ops' ++ ops)).peer.reader = ops' ++ ops := by
      cases op <;> rfl
    rw [hqueued, hworked]
    rw [hreader'] at hstanding
    exact hstanding.read hexec fun e => h.not_reconstruction_of_mem_replay
  | wrote | beat | reported => exact hquiet (ite_self _) Link.finishWrite_reader
  | _ => exact hquiet (ite_self _) rfl

theorem link_of_opens (hstep : t.step bodyBytes a = some t') (hopens : t.server.opens i a = true) :
    t'.server.link i =
      ⟨true, .new t.server.hub.config.outboundCapacity, .new t.server.log.length⟩ := by
  obtain ⟨hserver, -⟩ := step_eq hstep
  have hlink := Server.step_link hserver i
  cases a with
  | connect =>
    generalize t'.server.link i = l' at hlink
    cases hlink with
    | untouched _ hshared => cases hshared
    | passedOver hi => exact absurd (of_decide_eq_true hopens) hi
    | opened => rfl
  | _ => cases hopens

namespace Consistent

/-- A connection that opens has been queued nothing. -/
theorem opened (hsequenced : t'.server.Sequenced) (hstep : t.step bodyBytes a = some t')
    (hopens : t.server.opens i a = true) : t'.Consistent i := by
  obtain ⟨-, hbegun, hended⟩ := step_eq hstep
  have hlink := link_of_opens hstep hopens
  have hbegun' : t'.begun i = none := (hbegun i).trans (if_pos hopens)
  have hended' : t'.ended i = [] := (hended i).trans (if_pos hopens)
  refine ⟨hsequenced, fun _ => ?_, ?_, ?_, fun _ => ?_⟩
  · change Standing (t'.server.link i).peer.reader _
    rw [hlink, hbegun']
    exact .idle (by simp [Peer.new])
  · rw [hlink]
    exact fun _ _ h => Writer.noConfusion h
  · simp [hended']
  · rw [hlink, parts, hended', hbegun']
    exact .nil

/-- **One step.** -/
theorem step (h : t.Consistent i) (hok : SparesEdges i t a) (hstep : t.step bodyBytes a = some t') :
    t'.Consistent i := by
  obtain ⟨hserver, hbegun, hended⟩ := step_eq hstep
  have hsequenced := h.sequenced.effect (Server.step_effect hserver)
  cases hopens : t.server.opens i a with
  | true => exact opened hsequenced hstep hopens
  | false =>
    have hlink := Server.step_link hserver i
    have hconnect : a = .connect → i ≠ t.server.hub.nextConnectionId + 1 := by
      rintro rfl hi
      exact absurd hi (of_decide_eq_false hopens)
    have hfollows := hlink.follows hconnect hok h.noticeLive
    have hparts : t'.parts i = t.parts i ++ (t.server.queued i a).toList.filter (·.isPart) := by
      rw [parts, parts, hbegun, hended, hopens]
      cases hqueued : t.server.queued i a with
      | none => simp
      | some message => exact parts_queued (t.ended i) (h.queued hqueued)
    refine ⟨hsequenced, h.standing_step hstep hopens, hlink.noticeLive h.noticeLive, ?_, ?_⟩
    · rw [hended, hopens]
      intro snapshot hsnapshot
      obtain hsnapshot | hsnapshot := mem_append.mp hsnapshot
      · exact h.complete snapshot hsnapshot
      · obtain ⟨message, hqueued, hmessage⟩ :=
          bind_eq_some_iff.mp (mem_toList.mp hsnapshot)
        exact complete_queued hmessage (h.queued hqueued)
    · intro hrunning
      rw [hparts]
      have hnamed m : (t.server.link i).Named m → (t'.server.link i).Named m := by
        rintro ⟨envelope, rfl, hannounces⟩
        exact ⟨envelope, rfl, hfollows.announces hrunning _ hannounces⟩
      have hbefore := (h.thinned (hfollows.running hrunning)).mono hnamed
      exact (hbefore.append (.refl _)).trans (hfollows.thinned hrunning)

end Consistent

theorem consistent_init (config : BridgeServerConfig) (i : ℕ) : (init config).Consistent i where
  sequenced := Server.sequenced_init config
  standing _ := .idle fun _ hop => (not_mem_nil hop).elim
  noticeLive _ _ h := Writer.noConfusion h
  complete _ h := (not_mem_nil h).elim
  thinned _ := .nil

theorem given_of_thinned {l : Link} {snapshot : EndedSnapshot} {ended : List EndedSnapshot}
    (hmem : snapshot ∈ ended)
    (h : Thinned l.Named (ended.flatMap (·.messages) ++ begunMessages begun)
      (l.front.filter (·.isPart))) :
    ∃ pre kept post, l.front.filter (·.isPart) = pre ++ .snapshotBegin snapshot.estimated true ::
        (kept ++ .snapshotEnd snapshot.through :: post) ∧
      Thinned l.Named (snapshot.rows.map .mutation) kept := by
  obtain ⟨before, after, rfl⟩ := append_of_mem hmem
  have hedge m (hm : m.isEdge = true) : ¬ l.Named m := by
    rintro ⟨envelope, rfl, -⟩
    cases hm
  rw [flatMap_append, flatMap_cons, append_assoc, append_assoc,
    EndedSnapshot.messages, cons_append] at h
  obtain ⟨pre, rest, hfront, -, hrest⟩ := h.of_append_cons (hedge _ rfl)
  rw [append_assoc] at hrest
  obtain ⟨kept, post, rfl, hkept, -⟩ := hrest.of_append_cons (hedge _ rfl)
  exact ⟨pre, kept, post, hfront, hkept⟩

/-- **A snapshot is given completely or what is missing is named**, in every run in which no push
drops the begin or the end of a snapshot that is queued to the client: while the writer of the
connection runs, what it has written and has yet to write has every snapshot that was queued, from
its begin to its end, with all the rows that are not in a gap. -/
theorem snapshot_given {config : BridgeServerConfig}
    (h : Reaches (Deliveries.step bodyBytes) (SparesEdges i) (init config) t)
    (hrunning : (t.server.peers i).writer ≠ .done) :
    ∀ snapshot ∈ t.ended i, (t.server.link i).Given snapshot := by
  have hinv : t.Consistent i := by
    refine h.invariant (I := (Consistent · i)) (consistent_init config i) ?_
    exact fun t a t' ht hok hstep => ht.step hok hstep
  intro snapshot hsnapshot
  obtain ⟨hlength, hrows⟩ := hinv.complete snapshot hsnapshot
  exact ⟨hlength, hrows, given_of_thinned hsnapshot (hinv.thinned hrunning)⟩

/-! ### A snapshot of one row -/

open Server (handshake readOp smallConfig)

/-- A client has been agreed with, and asks for a snapshot of one row, which is queued before the
writer takes anything. -/
def servesRow : List Action :=
  handshake ++ [.take 1, .write 1, .write 1, .receive 1 (.snapshotRequest none),
    readOp [.rowEvicted "audit_event" "row"], readOp [], readOp [], readOp [], readOp [], readOp [],
    readOp [], .take 1, .write 1, .write 1]

/-- In a queue for three messages the snapshot is complete. -/
theorem snapshot_given_of_one_row :
    ∃ t, Reaches (Deliveries.step fun _ => 0) (SparesEdges 1) (init (smallConfig 3 8)) t ∧
      (t.ended 1).length = 1 ∧ ∀ snapshot ∈ t.ended 1, (t.server.link 1).Given snapshot := by
  obtain ⟨t, ht, hended, hwriter⟩ := exists_reaches_of_run (Deliveries.step fun _ => 0)
    (SparesEdges 1) (init (smallConfig 3 8))
    (Q := fun t => (t.ended 1).length = 1 ∧ (t.server.peers 1).writer ≠ .done)
    servesRow (by decide)
  exact ⟨t, ht, hended, snapshot_given ht hwriter⟩

/-- **The begin of a snapshot is lost**: in a queue for two messages the end pushes it out. The
client is sent the row and the end, and no gap. -/
theorem snapshot_begin_lost :
    ∃ t, Reaches (Deliveries.step fun _ => 0) (fun _ _ => True) (init (smallConfig 2 8)) t ∧
      (t.server.peers 1).writer = .writing none [] ∧ (t.server.link 1).queue.items = [] ∧
      (t.server.peers 1).sent.filter (·.isEdge) = [.snapshotEnd 1] ∧
      (∀ m ∈ (t.server.peers 1).sent, ∀ e ∈ m.envelope?, e.mutation.isGap = false) ∧
      ∃ snapshot ∈ t.ended 1, ¬ (t.server.link 1).Given snapshot := by
  obtain ⟨t, ht, hwriter, hitems, hedges, hgaps, hended⟩ := exists_reaches_of_run
    (Deliveries.step fun _ => 0) (fun _ _ => True) (init (smallConfig 2 8))
    (Q := fun t => (t.server.peers 1).writer = .writing none [] ∧
      (t.server.link 1).queue.items = [] ∧
      (t.server.peers 1).sent.filter (·.isEdge) = [.snapshotEnd 1] ∧
      (∀ m ∈ (t.server.peers 1).sent, ∀ e ∈ m.envelope?, e.mutation.isGap = false) ∧
      (t.ended 1).length = 1) servesRow (by decide)
  obtain ⟨snapshot, hsnapshot⟩ := length_eq_one_iff.mp hended
  refine ⟨t, ht, hwriter, hitems, hedges, hgaps, snapshot, by simp [hsnapshot], ?_⟩
  rintro ⟨-, -, pre, kept, post, hfront, -⟩
  have hbegin : .snapshotBegin snapshot.estimated true ∈ (t.server.link 1).front := by
    refine mem_of_mem_filter (p := (·.isPart)) ?_
    rw [hfront]
    simp
  have hfront' : (t.server.link 1).front = (t.server.peers 1).sent := by
    have hwriter' : (t.server.link 1).peer.writer = .writing none [] := hwriter
    rw [Link.front, hwriter', hitems, Writer.messages, append_nil, append_nil]
    rfl
  have hedge : .snapshotBegin snapshot.estimated true ∈
      (t.server.peers 1).sent.filter (·.isEdge) := mem_filter.mpr ⟨hfront' ▸ hbegin, rfl⟩
  rw [hedges] at hedge
  simp at hedge

end Deliveries

end AgentSight.Bridge
