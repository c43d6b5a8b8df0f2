import AgentSight.Bridge.Reconnect

/-!
# The stream of a resumed connection

A connection is in the fan-out from the moment it registers, so what is broadcast before its
resume is answered is queued live, and what the resume replays is queued again behind it. The
replay is read under one hold of the hub lock and pushed envelope by envelope, so a broadcast
can also land between two replayed envelopes.

`resumesCleanly` is the condition on a step that neither happens to a connection. In every run
that meets it the original mutations numbered above the resume point are written in strictly
increasing order (`resumed_increasing`); `resume_repeats_live_broadcast` is a run in which one
of them is written twice.
-/

namespace AgentSight.Bridge

open Transition List

/-! ### Original mutations -/

/-- The mutations that are neither gap notices nor snapshot rows. -/
def originals (messages : List BridgeMessage) : List ViewMutationEnvelope :=
  messages.filterMap fun
    | .mutation envelope => if envelope.isSynthetic then none else some envelope
    | _ => none

/-- The originals with a sequence above `after`. -/
def originalsAfter (after : ℕ) (messages : List BridgeMessage) : List ViewMutationEnvelope :=
  (originals messages).filter fun e => decide (after < e.sequence)

/-- Strictly increasing sequences: nothing twice, nothing after a later one. -/
def Increasing (envelopes : List ViewMutationEnvelope) : Prop :=
  envelopes.Pairwise fun e e' => e.sequence < e'.sequence

instance (envelopes : List ViewMutationEnvelope) : Decidable (Increasing envelopes) :=
  inferInstanceAs (Decidable (List.Pairwise _ envelopes))

@[simp]
theorem originals_nil : originals [] = [] := rfl

@[simp]
theorem originals_append (ms ms' : List BridgeMessage) :
    originals (ms ++ ms') = originals ms ++ originals ms' :=
  filterMap_append

theorem originals_cons (m : BridgeMessage) (ms : List BridgeMessage) :
    originals (m :: ms) = originals [m] ++ originals ms := by
  rw [← originals_append, singleton_append]

theorem originals_eq_nil {ms : List BridgeMessage} (h : ∀ m ∈ ms, m.IsControl) :
    originals ms = [] := by
  refine filterMap_eq_nil_iff.mpr fun m hm => ?_
  cases m with
  | mutation envelope => exact absurd rfl (h _ hm envelope)
  | _ => rfl

theorem originals_cons_synthetic {g : ViewMutationEnvelope} (h : g.isSynthetic = true)
    (ms : List BridgeMessage) : originals (.mutation g :: ms) = originals ms := by
  simp [originals, h]

theorem mem_originals {ms : List BridgeMessage} {e : ViewMutationEnvelope} :
    e ∈ originals ms ↔ .mutation e ∈ ms ∧ e.isSynthetic = false := by
  rw [originals, mem_filterMap]
  constructor
  · rintro ⟨m, hm, he⟩
    cases m with
    | mutation envelope =>
      simp only [Option.ite_none_left_eq_some, Bool.not_eq_true, Option.some.injEq] at he
      obtain ⟨hsyn, rfl⟩ := he
      exact ⟨hm, hsyn⟩
    | _ => simp at he
  · rintro ⟨hm, hsyn⟩
    exact ⟨_, hm, by simp [hsyn]⟩

theorem originals_sublist {ms ms' : List BridgeMessage} (h : ms.Sublist ms') :
    (originals ms).Sublist (originals ms') :=
  h.filterMap _

theorem originals_map_mutation (es : List ViewMutationEnvelope) :
    originals (es.map .mutation) = es.filter fun e => !e.isSynthetic := by
  induction es with
  | nil => rfl
  | cons e es ih =>
    rw [map_cons, originals_cons, ih]
    cases h : e.isSynthetic <;> simp [originals, h]

/-! ### The condition -/

namespace Server

/-- The resume is answered with a refusal. -/
def refusesResume (h : BridgeHub) (after : ℕ) : Bool :=
  match h.resume after with
  | .ok _ => false
  | _ => true

/-- The condition on a step: the connection is answered one resume, which is refused or finds
nothing above its sequence broadcast since the connection registered; and nothing is broadcast
while envelopes of its replay remain to be pushed. -/
def resumesCleanly (id : ℕ) (s : Server) : Action → Bool
  | .read j _ =>
    decide (j ≠ id) ||
      match (s.peers id).reader with
      | .resume request :: _ =>
        decide ((s.peers id).resumes = []) && (refusesResume s.hub request.afterSequence ||
            (s.log.drop (s.peers id).since).all fun e =>
              decide (e.sequence ≤ request.afterSequence))
      | _ => true
  | .broadcast _ =>
    !s.hub.isRegistered id || decide (originals (sends (s.peers id).reader) = [])
  | _ => true

end Server

/-! ### The invariant of a connection -/

/-- Everything written to the connection or on its way, in order. -/
def Conn.stream (c : Conn) : List BridgeMessage :=
  c.sent ++ c.writer.messages ++ c.queue.items ++ c.sends

/-- The originals on the stream are in order: all of them before a resume, those above its
sequence after one. -/
structure Conn.Ordered (log : List ViewMutationEnvelope) (c : Conn) : Prop where
  since_le : c.since ≤ log.length
  before : c.resumes = [] → originals c.sends = [] ∧
    (∀ e ∈ originals c.stream, e ∈ log.drop c.since) ∧ Increasing (originals c.stream)
  once : c.resumes.length ≤ 1
  afterResume : ∀ after, c.resumes = [after] → Increasing (originalsAfter after c.stream)

section Ordered

variable {log : List ViewMutationEnvelope} {c c' : Conn}

theorem Increasing.sublist {es es' : List ViewMutationEnvelope} (h : Increasing es')
    (hs : es.Sublist es') : Increasing es :=
  Pairwise.sublist hs h

/-- Dropping messages, or moving them along, keeps the order. -/
theorem Conn.Ordered.sublist (h : c.Ordered log) (hsince : c'.since = c.since)
    (hresumes : c'.resumes = c.resumes)
    (hsends : (originals c'.sends).Sublist (originals c.sends))
    (hstream : (originals c'.stream).Sublist (originals c.stream)) : c'.Ordered log where
  since_le := hsince ▸ h.since_le
  before hnil := by
    obtain ⟨hno, hin, hinc⟩ := h.before (hresumes ▸ hnil)
    exact ⟨sublist_nil.mp (hno ▸ hsends), fun e he => hsince ▸ hin e (hstream.subset he),
      hinc.sublist hstream⟩
  once := hresumes ▸ h.once
  afterResume after ha := (h.afterResume after (hresumes ▸ ha)).sublist (hstream.filter _)

theorem OutboundQueue.push_items_sublist (q : OutboundQueue) (m : BridgeMessage) :
    (q.push m).1.items.Sublist (q.items ++ [m]) := by
  cases hc : q.closed with
  | true =>
    rw [push_of_closed hc]
    exact sublist_append_left _ _
  | false =>
    rw [(push_of_open hc).1]
    exact (evict_suffix _ _ _).sublist.append_right _

theorem Conn.deliver_items_sublist (c : Conn) (m : BridgeMessage) :
    (c.deliver m).queue.items.Sublist (c.queue.items ++ [m]) := by
  rw [deliver_queue]
  split
  · exact OutboundQueue.push_items_sublist _ _
  · exact sublist_append_left _ _

/-- A control message queued does not show among the originals. -/
theorem Conn.Ordered.queue_control (h : c.Ordered log) {queue : OutboundQueue}
    {m : BridgeMessage} (hm : m.IsControl) (hq : queue.items.Sublist (c.queue.items ++ [m])) :
    ({ c with queue := queue } : Conn).Ordered log := by
  refine h.sublist rfl rfl (Sublist.refl _) ?_
  have hone : originals [m] = [] := originals_eq_nil (by simpa using hm)
  have hitems := originals_sublist hq
  rw [originals_append, hone, append_nil] at hitems
  simp only [stream, originals_append]
  exact (hitems.append_left _).append_right _

/-- The message at the head of the reader's sends moves to the end of the queue. -/
theorem Conn.Ordered.send (h : c.Ordered log) {m : BridgeMessage} {rest : List BridgeMessage}
    (hsends : c.sends = m :: rest) :
    ({ c.deliver m with sends := rest } : Conn).Ordered log := by
  refine h.sublist rfl rfl ?_ ?_
  · rw [hsends, originals_cons]
    exact sublist_append_right _ _
  · refine originals_sublist ?_
    have hitems := c.deliver_items_sublist m
    simp only [stream, deliver_sent, deliver_writer, hsends, append_assoc]
    simpa using hitems.append_right rest

/-- The replay of a resume that finds nothing newer live. -/
theorem Conn.Ordered.replay {s : Server} {after : ℕ} (hs : s.Sequenced)
    (h : c.Ordered s.log) (hnone : c.resumes = [])
    (hclean : Server.refusesResume s.hub after = true ∨
      ∀ e ∈ s.log.drop c.since, e.sequence ≤ after) :
    ({ c with
        sends := resumeReplies (s.hub.resume after) ++ c.sends
        resumes := c.resumes ++ [after] } : Conn).Ordered s.log := by
  obtain ⟨hno, hin, hinc⟩ := h.before hnone
  refine ⟨h.since_le, fun hnil => by simp at hnil, by simp [hnone], fun a ha => ?_⟩
  obtain rfl : after = a := by simpa [hnone] using ha
  have hstream : originals ({ c with
      sends := resumeReplies (s.hub.resume after) ++ c.sends
      resumes := c.resumes ++ [after] } : Conn).stream =
        originals c.stream ++ originals (resumeReplies (s.hub.resume after)) := by
    simp [stream, hno]
  rw [originalsAfter, hstream, filter_append]
  cases hresume : s.hub.resume after with
  | ok L =>
    -- Nothing live is above the resume point, so what is above it is the replay.
    have hle := hclean.resolve_left (by simp [Server.refusesResume, hresume])
    have hnil : (originals c.stream).filter (fun e => decide (after < e.sequence)) = [] := by
      refine filter_eq_nil_iff.mpr fun e he hlt => ?_
      have := hle e (hin e he)
      have := of_decide_eq_true hlt
      omega
    rw [hnil, resumeReplies, originals_map_mutation]
    obtain ⟨-, rfl⟩ := Server.resume_eq_ok hresume
    have hbuffer : Increasing s.hub.replay :=
      Increasing.sublist hs.log_increasing (hs.replay ▸ drop_sublist _ _)
    exact ((hbuffer.filter _).filter _).filter _
  | unavailable earliest | overflow earliest =>
    simpa [resumeReplies, originals] using hinc.sublist filter_sublist

/-- A broadcast goes to the end of the stream when no replay is under way. -/
theorem Conn.Ordered.broadcast (h : c.Ordered log) {new : ViewMutationEnvelope}
    (habove : ∀ e ∈ log, e.sequence < new.sequence)
    (htraced : ∀ e ∈ originals c.stream, e ∈ log)
    (hclean : c.registered = true → originals c.sends = []) :
    (c.deliver (.mutation new)).Ordered (log ++ [new]) := by
  have hdrop : (log ++ [new]).drop c.since = log.drop c.since ++ [new] :=
    drop_append_of_le_length h.since_le
  -- the new mutation can only come last
  have hstream : (originals (c.deliver (.mutation new)).stream).Sublist
      (originals c.stream ++ [new]) := by
    cases hreg : c.registered with
    | false =>
      rw [Conn.deliver_of_unregistered _ _ hreg]
      exact sublist_append_left _ _
    | true =>
      have hitems := originals_sublist (c.deliver_items_sublist (.mutation new))
      have hone : (originals [.mutation new]).Sublist [new] := by
        cases hsyn : new.isSynthetic <;> simp [originals, hsyn]
      rw [originals_append] at hitems
      simp only [Conn.stream, originals_append, Conn.deliver_sent, Conn.deliver_writer,
        Conn.deliver_sends, hclean hreg, append_nil, append_assoc]
      exact ((hitems.trans (hone.append_left _)).append_left _).append_left _
  have hinc : ∀ es : List ViewMutationEnvelope, Increasing es → (∀ e ∈ es, e ∈ log) →
      Increasing (es ++ [new]) := fun es hes hin =>
    pairwise_append.mpr ⟨hes, pairwise_singleton _ _,
      fun e he e' he' => mem_singleton.mp he' ▸ habove e (hin e he)⟩
  refine ⟨h.since_le.trans (by simp), fun hnil => ?_, h.once, fun after ha => ?_⟩
  · obtain ⟨hno, hin, hsorted⟩ := h.before hnil
    refine ⟨hno, fun e he => ?_, (hinc _ hsorted htraced).sublist hstream⟩
    rw [Conn.deliver_since, hdrop]
    rcases mem_append.mp (hstream.subset he) with he | he
    · exact mem_append_left _ (hin e he)
    · exact mem_append_right _ he
  · have hsub : (originalsAfter after (c.deliver (.mutation new)).stream).Sublist
        (originalsAfter after c.stream ++ [new]) := by
      refine (hstream.filter _).trans ?_
      rw [filter_append]
      exact filter_sublist.append_left _
    refine (hinc _ (h.afterResume after ha) fun e he => ?_).sublist hsub
    exact htraced e (mem_of_mem_filter he)

end Ordered

/-! ### Every step keeps the order -/

section Step

variable {s s' : Server} {a : Action} {i : ℕ} {fresh : Option ViewMutationEnvelope} {c' : Conn}

theorem Conn.ordered_opened (log : List ViewMutationEnvelope) (capacity : ℕ) :
    ({ registered := true, queue := .new capacity, sends := [], writer := .writing none [],
       since := log.length, resumes := [], sent := [] } : Conn).Ordered log where
  since_le := le_rfl
  before _ := ⟨rfl, by simp [stream, Writer.messages],
    by simp [stream, Writer.messages, Increasing]⟩
  once := by simp
  afterResume after h := by simp at h

theorem Conn.Step.ordered (hs : s.Sequenced) (ht : s.Traced)
    (hok : Server.resumesCleanly i s a = true)
    (hstep : Conn.Step s a i fresh (s.conn i) c') (h : (s.conn i).Ordered s.log) :
    c'.Ordered s.log := by
  cases hstep with
  | same => exact h
  | opened => exact ordered_opened _ _
  | control _ hctl =>
    refine h.sublist rfl rfl ?_ ?_ <;> simp [stream, originals_eq_nil hctl]
  | @replay _ input request ops hact hop =>
    subst hact
    simp only [Server.resumesCleanly, hop, ne_eq, not_true_eq_false, decide_false,
      Bool.false_or, Bool.and_eq_true, decide_eq_true_eq, Bool.or_eq_true,
      all_eq_true] at hok
    exact h.replay hs hok.1 hok.2
  | @row _ envelope hop =>
    have hsyn : envelope.isSynthetic = true := by simp [ViewMutationEnvelope.isSynthetic, hop]
    refine h.sublist rfl rfl ?_ ?_ <;> simp [stream, originals_cons_synthetic hsyn]
  | send _ hsends => exact h.send hsends
  | sendControl _ hctl => exact h.queue_control hctl (deliver_items_sublist _ _)
  | pushControl _ hctl => exact h.queue_control hctl (OutboundQueue.push_items_sublist _ _)
  | closed | unregistered => exact h.sublist rfl rfl (Sublist.refl _) (Sublist.refl _)
  | took _ hwriter =>
    refine h.sublist rfl rfl (Sublist.refl _) (originals_sublist ?_)
    simp only [stream, hwriter, Writer.ofTaken]
    split
    · next hempty => simp [Writer.messages, hempty.1]
    · simp [Writer.messages]
  | numbered _ hwriter hgap =>
    exact h.sublist rfl rfl (Sublist.refl _) (by simp [stream, Writer.messages, hwriter])
  | @wrote _ message writer hact hnext =>
    refine h.sublist rfl rfl (Sublist.refl _) ?_
    rcases Writer.next_eq_some hnext with ⟨g, messages, hw, rfl, rfl⟩ | ⟨messages, hw, rfl⟩
    · -- a gap notice is no original
      have hsyn : g.isSynthetic = true := by
        simp [ViewMutationEnvelope.isSynthetic, (ht.notice i g messages hw).1]
      simp [stream, Writer.messages, hw, originals_cons_synthetic hsyn]
    · simp [stream, Writer.messages, hw]
  | stopped =>
    refine h.sublist rfl rfl (Sublist.refl _) ?_
    simp only [stream, Writer.messages, append_nil]
    refine originals_sublist ?_
    exact ((sublist_append_left _ _).append_right _).append_right _
  | idled _ hwriter hctl hold =>
    refine h.sublist rfl rfl (Sublist.refl _) ?_
    rcases hwriter with rfl | rfl | rfl <;> rcases hold with hold | hold | hold <;>
      simp [stream, Writer.messages, hold, originals_eq_nil hctl]

namespace Server

/-- The originals on the stream of a connection were broadcast. -/
theorem Traced.mem_log_of_mem_originals (ht : s.Traced) {e : ViewMutationEnvelope}
    (he : e ∈ originals (s.conn i).stream) : e ∈ s.log := by
  obtain ⟨hm, hsyn⟩ := mem_originals.mp he
  simp only [ViewMutationEnvelope.isSynthetic, Bool.or_eq_false_iff, decide_eq_false_iff_not]
    at hsyn
  have hsplit : .mutation e ∈ (s.conn i).sent ∨ .mutation e ∈ (s.conn i).held := by
    simpa [Conn.stream, Conn.held, or_left_comm] using hm
  rcases hsplit with hm | hm
  · refine (ht.sent i e hm).resolve_right fun h => ?_
    rcases h.1 with hgap | hop
    · simp [hsyn.1] at hgap
    · exact hsyn.2 hop
  · exact (ht.held i e hm).resolve_right fun h => hsyn.2 h.1

theorem ordered_of_effect (hs : s.Sequenced) (ht : s.Traced)
    (hok : resumesCleanly i s a = true) (he : Effect s a s')
    (h : (s.conn i).Ordered s.log) : (s'.conn i).Ordered s'.log := by
  cases he with
  | allocated envelope hconfig hnone hsome hseq hop hcount hlog hreplay hconn =>
    rwa [hconn, hlog]
  | broadcast nowNs envelope hact hconfig hsome hnone hcount hlog hreplay hconn =>
    subst hact
    rw [hconn, hlog]
    have hinc := hs.increasing
    rw [issued, hsome, map_append, pairwise_append] at hinc
    refine h.broadcast (fun e he => ?_) (fun e he => ht.mem_log_of_mem_originals he) fun hreg => ?_
    · rw [BridgeHub.stamp_sequence]
      exact hinc.2.2 e.sequence (mem_map_of_mem he) envelope.sequence (by simp)
    · have hreg' : s.hub.isRegistered i = true := hreg
      simpa [resumesCleanly, hreg', conn] using hok
  | notified message hconfig hctl hemission hcount hlog hreplay hconn =>
    rw [hconn, hlog]
    exact h.queue_control hctl (Conn.deliver_items_sublist _ _)
  | conn j fresh hconfig hemission hcount hfresh hlog hreplay hconn hstep =>
    rw [hlog]
    rcases eq_or_ne i j with rfl | hj
    · exact hstep.ordered hs ht hok h
    · exact hconn i hj ▸ h

variable {bodyBytes : BridgeMessage → ℕ} {config : BridgeServerConfig}

/-- **A resumed stream is ordered and free of duplicates**, in every run whose steps meet
`resumesCleanly` for the connection. -/
theorem resumed_increasing {after : ℕ}
    (h : Reaches (step bodyBytes) (fun s a => resumesCleanly i s a = true) (init config) s)
    (hresume : (s.peers i).resumes = [after]) :
    Increasing (originalsAfter after (s.peers i).sent) := by
  have hall := h.invariant (I := fun s => s.Sequenced ∧ s.Traced ∧ (s.conn i).Ordered s.log)
    ⟨sequenced_init config, traced_init config, ⟨le_rfl,
      fun _ => ⟨rfl, by simp [init, conn, Conn.stream, Peer.new, BridgeHub.new, Writer.messages],
        by simp [init, conn, Conn.stream, Peer.new, BridgeHub.new, Writer.messages, Increasing]⟩,
      by simp [init, conn, Peer.new], fun after h => by simp [init, conn, Peer.new] at h⟩⟩
    fun s a s' ⟨hs, ht, hord⟩ hok hstep => by
      have he := step_effect hstep
      exact ⟨hs.effect he, ht.effect hs he, ordered_of_effect hs ht hok he hord⟩
  refine (hall.2.2.afterResume after hresume).sublist ((originals_sublist ?_).filter _)
  simp only [Conn.stream, append_assoc]
  exact sublist_append_left _ _

/-! ### Runs

The client of an earlier connection has received 1 and opens a new one. -/

private def resumeAfterOne : List Action :=
  [.receive 1 (.resume { nodeId := "", bootId := none, afterSequence := 1 }), readOp [], readOp []]

/-- The resume replays 2 before the live 3. -/
theorem resumed_increasing_replay_then_live :
    ∃ s, Reaches (step fun _ => 0) (fun s a => resumesCleanly 1 s a = true)
        (init (smallConfig 8 8)) s ∧
      (originalsAfter 1 (s.peers 1).sent).map (·.sequence) = [2, 3] ∧
      Increasing (originalsAfter 1 (s.peers 1).sent) := by
  obtain ⟨s, hs, hresume, hsent⟩ := exists_reaches_of_run
    (step fun _ => 0) (fun s a => resumesCleanly 1 s a = true) (init (smallConfig 8 8))
    (Q := fun s => (s.peers 1).resumes = [1] ∧
      (originalsAfter 1 (s.peers 1).sent).map (·.sequence) = [2, 3])
    (emitRow ++ emitRow ++ handshake ++ resumeAfterOne ++ emitRow ++
      [.take 1, .write 1, .write 1, .write 1, .write 1]) (by decide)
  exact ⟨s, hs, hsent, resumed_increasing hs hresume⟩

/-- **A repetition.** What is broadcast between the registration and the resume is written
live and again from the replay. -/
theorem resume_repeats_live_broadcast :
    ∃ s, Reaches (step fun _ => 0) always (init (smallConfig 8 8)) s ∧
      (s.peers 1).resumes = [1] ∧ ¬ Increasing (originalsAfter 1 (s.peers 1).sent) :=
  exists_reaches_of_run (step fun _ => 0) always (init (smallConfig 8 8))
    (Q := fun s : Server => (s.peers 1).resumes = [1] ∧
      ¬ Increasing (originalsAfter 1 (s.peers 1).sent))
    (emitRow ++ handshake ++ emitRow ++ resumeAfterOne ++
      [.take 1, .write 1, .write 1, .write 1, .write 1]) (by decide)

end Server

end Step

end AgentSight.Bridge
