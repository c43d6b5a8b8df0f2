import AgentSight.Bridge.Effect

/-!
# Sequence numbers in every run

The counter is shared: the emitter numbers what it publishes, `serve_snapshot` its rows and
`writer_loop` its gap notices. In every reachable state the issued envelopes (the log and the
emission in flight) have strictly increasing sequences, the replay buffer is the newest part
of the log, and every mutation on its way to a connection, or written to it, is either an
entry of the log or carries a number of its own that no issued envelope has.
-/

namespace AgentSight.Bridge

open List

/-- The server's own marker of a loss. -/
def ViewMutation.isGap : ViewMutation → Bool
  | .captureGapObserved .. => true
  | _ => false

/-- What is about to be written to the connection. -/
def Writer.messages : Writer → List BridgeMessage
  | .writing _ messages | .notice _ messages => messages
  | _ => []

/-- The messages on their way to the connection; a numbered gap notice is not counted. -/
def Conn.held (c : Conn) : List BridgeMessage :=
  c.queue.items ++ c.writer.messages ++ c.sends

/-- The two things a writer writes: the notice it has numbered, or the next message. -/
theorem Writer.next_eq_some {w w' : Writer} {message : BridgeMessage}
    (h : w.next = some (message, w')) :
    (∃ envelope messages, w = .notice envelope messages ∧ message = .mutation envelope ∧
      w' = .writing none messages) ∨
    ∃ messages, w = .writing none (message :: messages) ∧ w' = .writing none messages := by
  match w, h with
  | .notice envelope messages, h =>
    obtain ⟨rfl, rfl⟩ : .mutation envelope = message ∧ .writing none messages = w' := by
      simpa [next] using h
    exact .inl ⟨envelope, messages, rfl, rfl, rfl⟩
  | .writing none (m :: messages), h =>
    obtain ⟨rfl, rfl⟩ : m = message ∧ .writing none messages = w' := by simpa [next] using h
    exact .inr ⟨messages, rfl, rfl⟩

theorem Writer.messages_next {w w' : Writer} {message m : BridgeMessage}
    (h : w.next = some (message, w')) (hm : m ∈ w'.messages) : m ∈ w.messages := by
  rcases next_eq_some h with ⟨envelope, messages, rfl, -, rfl⟩ | ⟨messages, rfl, rfl⟩
  · exact hm
  · exact mem_cons_of_mem _ hm

variable {envelope : ViewMutationEnvelope}

namespace Server

/-- The envelopes broadcast and the one about to be. -/
def issued (s : Server) : List ViewMutationEnvelope := s.log ++ s.emission.toList

/-- The counter, the log and the replay buffer agree. -/
structure Sequenced (s : Server) : Prop where
  increasing : (s.issued.map (·.sequence)).Pairwise (· < ·)
  pos : ∀ e ∈ s.issued, 0 < e.sequence
  le : ∀ e ∈ s.issued, e.sequence ≤ s.hub.sequence
  original : ∀ e ∈ s.issued, e.operation ≠ .snapshotReconstruction
  replay : s.hub.replay = s.log.drop (s.log.length - s.hub.config.replayCapacity)

/-- The envelope has a number that no issued envelope has or will have. -/
def Fresh (s : Server) (envelope : ViewMutationEnvelope) : Prop :=
  envelope.sequence ≤ s.hub.sequence ∧ ∀ e ∈ s.issued, e.sequence ≠ envelope.sequence

/-- Every mutation on its way to a connection, or written to it, is accounted for. -/
structure Traced (s : Server) : Prop where
  held : ∀ id envelope, .mutation envelope ∈ (s.conn id).held →
    envelope ∈ s.log ∨ envelope.operation = .snapshotReconstruction ∧ s.Fresh envelope
  notice : ∀ id envelope messages, (s.conn id).writer = .notice envelope messages →
    envelope.mutation.isGap = true ∧ s.Fresh envelope
  sent : ∀ id envelope, .mutation envelope ∈ (s.conn id).sent → envelope ∈ s.log ∨
      (envelope.mutation.isGap = true ∨ envelope.operation = .snapshotReconstruction) ∧
        s.Fresh envelope

variable {bodyBytes : BridgeMessage → ℕ} {s s' : Server} {a : Action}

/-! ### The numbering -/

theorem sequenced_init (config : BridgeServerConfig) : (init config).Sequenced :=
  ⟨by simp [issued, init], by simp [issued, init], by simp [issued, init],
    by simp [issued, init], by simp [init, BridgeHub.new]⟩

/-- Trimming after an append keeps the newest part. -/
private theorem trimFront_append {α : Type*} (capacity : ℕ) (xs : List α) (x : α) :
    BridgeHub.trimFront capacity (xs.drop (xs.length - capacity) ++ [x]) =
      (xs ++ [x]).drop ((xs ++ [x]).length - capacity) := by
  have hdrop : xs.drop (xs.length - capacity) ++ [x] = (xs ++ [x]).drop (xs.length - capacity) :=
    (drop_append_of_le_length (Nat.sub_le _ _)).symm
  rw [BridgeHub.trimFront_eq_drop, hdrop, drop_drop]
  congr 1
  simp only [length_drop, length_append, length_singleton]
  omega

theorem Sequenced.effect (h : s.Sequenced) (he : Effect s a s') : s'.Sequenced := by
  cases he with
  | allocated envelope hconfig hnone hsome hseq hop hcount hlog hreplay hconn =>
    have hold : s.issued = s.log := by simp [issued, hnone]
    have hnew : s'.issued = s.log ++ [envelope] := by simp [issued, hsome, hlog]
    obtain ⟨hinc, hpos, hle, horig, hrep⟩ := h
    rw [hold] at hinc hpos hle horig
    refine ⟨?_, ?_, ?_, ?_, by rw [hreplay, hlog, hconfig, hrep]⟩ <;> rw [hnew]
    · rw [map_append, pairwise_append]
      refine ⟨hinc, pairwise_singleton _ _, ?_⟩
      simp only [mem_map, map_cons, map_nil, mem_singleton]
      rintro _ ⟨e, he, rfl⟩ _ rfl
      have := hle e he
      omega
    all_goals
      simp only [mem_append, mem_singleton]
      rintro e (he | rfl)
    · exact hpos e he
    · omega
    · have := hle e he
      omega
    · omega
    · exact horig e he
    · exact hop
  | broadcast nowNs envelope hact hconfig hsome hnone hcount hlog hreplay hconn =>
    have hold : s.issued = s.log ++ [envelope] := by simp [issued, hsome]
    have hnew : s'.issued = s.log ++ [s.hub.stamp nowNs envelope] := by simp [issued, hnone, hlog]
    obtain ⟨hinc, hpos, hle, horig, hrep⟩ := h
    rw [hold] at hinc hpos hle horig
    -- a broadcast changes the scope handle of the mutation only
    have hmem : ∀ e ∈ s'.issued, ∃ e₀ ∈ s.log ++ [envelope],
        e.sequence = e₀.sequence ∧ e.operation = e₀.operation := by
      rw [hnew]
      simp only [mem_append, mem_singleton]
      rintro e (he | rfl)
      · exact ⟨e, .inl he, rfl, rfl⟩
      · exact ⟨envelope, .inr rfl, by simp, by simp⟩
    refine ⟨?_, fun e he => ?_, fun e he => ?_, fun e he => ?_, ?_⟩
    · simpa [hnew] using hinc
    · obtain ⟨e₀, he₀, hseq, -⟩ := hmem e he
      exact hseq ▸ hpos e₀ he₀
    · obtain ⟨e₀, he₀, hseq, -⟩ := hmem e he
      exact hseq ▸ hcount ▸ hle e₀ he₀
    · obtain ⟨e₀, he₀, -, hop⟩ := hmem e he
      exact hop ▸ horig e₀ he₀
    · rw [hreplay, hlog, hconfig, hrep, trimFront_append]
  | notified message hconfig hctl hemission hcount hlog hreplay hconn =>
    have hsame : s'.issued = s.issued := by rw [issued, issued, hemission, hlog]
    obtain ⟨hinc, hpos, hle, horig, hrep⟩ := h
    exact ⟨hsame ▸ hinc, hsame ▸ hpos, by rwa [hsame, hcount], hsame ▸ horig,
      by rw [hreplay, hlog, hconfig, hrep]⟩
  | conn id fresh hconfig hemission hcount hfresh hlog hreplay hconn hstep =>
    have hsame : s'.issued = s.issued := by rw [issued, issued, hemission, hlog]
    obtain ⟨hinc, hpos, hle, horig, hrep⟩ := h
    exact ⟨hsame ▸ hinc, hsame ▸ hpos,
      fun e he => (hle e (hsame ▸ he)).trans (hcount ▸ Nat.le_add_right _ _), hsame ▸ horig,
      by rw [hreplay, hlog, hconfig, hrep]⟩

/-! ### What is on its way to a connection -/

/-- An envelope of the log is determined by its sequence. -/
theorem Sequenced.eq_of_sequence_eq (h : s.Sequenced) {e e' : ViewMutationEnvelope}
    (he : e ∈ s.issued) (he' : e' ∈ s.issued) (hseq : e.sequence = e'.sequence) : e = e' := by
  have hnodup : (s.issued.map (·.sequence)).Nodup :=
    h.increasing.imp fun hlt => hlt.ne
  exact inj_on_of_nodup_map hnodup he he' hseq

theorem mem_issued_of_mem_log {e : ViewMutationEnvelope} (h : e ∈ s.log) : e ∈ s.issued :=
  mem_append_left _ h

/-- Only a broadcast stores a mutation in the log. -/
theorem log_of_effect (he : Effect s a s') : s'.log = s.log ∨
    ∃ nowNs emitted, a = .broadcast nowNs ∧ s.emission = some emitted ∧
      s'.log = s.log ++ [s.hub.stamp nowNs emitted] := by
  cases he with
  | broadcast nowNs emitted hact _ hsome _ _ hlog =>
    exact .inr ⟨nowNs, emitted, hact, hsome, hlog⟩
  | allocated _ _ _ _ _ _ _ hlog => exact .inl hlog
  | notified _ _ _ _ _ hlog => exact .inl hlog
  | conn _ _ _ _ _ _ hlog => exact .inl hlog

theorem log_prefix_of_effect (he : Effect s a s') : s.log <+: s'.log := by
  obtain hlog | ⟨nowNs, emitted, -, -, hlog⟩ := log_of_effect he
  · exact hlog ▸ prefix_refl _
  · rw [hlog]
    exact prefix_append ..

theorem log_subset_of_effect (he : Effect s a s') : s.log ⊆ s'.log :=
  (log_prefix_of_effect he).subset

/-- A number that was nobody's stays so: later allocations are greater. -/
theorem Fresh.effect (h : s.Fresh envelope) (he : Effect s a s') : s'.Fresh envelope := by
  obtain ⟨hle, hne⟩ := h
  cases he with
  | allocated new hconfig hnone hsome hseq hop hcount hlog hreplay hconn =>
    refine ⟨by omega, ?_⟩
    simp only [issued, hsome, hlog, Option.toList_some, mem_append, mem_singleton]
    rintro e (he | rfl)
    · exact hne e (mem_issued_of_mem_log he)
    · omega
  | broadcast nowNs new hact hconfig hsome hnone hcount hlog hreplay hconn =>
    refine ⟨hcount ▸ hle, ?_⟩
    simp only [issued, hnone, hlog, Option.toList_none, append_nil, mem_append,
      mem_singleton]
    rintro e (he | rfl)
    · exact hne e (mem_issued_of_mem_log he)
    · rw [BridgeHub.stamp_sequence]
      exact hne new (by simp [issued, hsome])
  | notified message hconfig hctl hemission hcount hlog hreplay hconn =>
    exact ⟨hcount ▸ hle, by simpa [issued, hemission, hlog] using hne⟩
  | conn id fresh hconfig hemission hcount hfresh hlog hreplay hconn hstep =>
    exact ⟨by omega, by simpa [issued, hemission, hlog] using hne⟩

/-- The number a task of a connection takes is nobody's. -/
theorem fresh_of_numbered (h : s.Sequenced) (hseq : envelope.sequence = s.hub.sequence + 1)
    (hcount : s'.hub.sequence = s.hub.sequence + 1) (hissued : s'.issued = s.issued) :
    s'.Fresh envelope := by
  refine ⟨by omega, fun e he => ?_⟩
  have := h.le e (hissued ▸ he)
  omega

end Server

section Messages

variable {s : Server} {a : Action} {i : ℕ} {fresh : Option ViewMutationEnvelope} {c c' : Conn}
  {envelope : ViewMutationEnvelope}

theorem mem_replay_of_mem_resumeReplies {h : BridgeHub} {after : ℕ}
    (hm : .mutation envelope ∈ resumeReplies (h.resume after)) : envelope ∈ h.replay := by
  simp only [BridgeHub.resume] at hm
  split at hm
  · split at hm <;> simp [resumeReplies] at hm
  · split at hm
    · simp [resumeReplies] at hm
    · split at hm
      · simp [resumeReplies] at hm
      · simp only [resumeReplies, mem_map, BridgeMessage.mutation.injEq, exists_eq_right] at hm
        exact mem_of_mem_filter hm

theorem Conn.mem_held_deliver {m message : BridgeMessage} (h : m ∈ (c.deliver message).held) :
    m ∈ c.held ∨ m = message := by
  simp only [held, deliver, mem_append] at h ⊢
  split at h
  · rcases h with (h | h) | h
    · exact (OutboundQueue.mem_push h).imp_left (.inl ∘ .inl)
    · exact .inl (.inl (.inr h))
    · exact .inl (.inr h)
  · exact .inl h

section

variable (h : Conn.Step s a i fresh c c')
include h

/-- A mutation that a connection's task puts on its way comes from the replay buffer or is a
snapshot row just numbered. -/
theorem Conn.Step.mem_held (hm : .mutation envelope ∈ c'.held) :
    .mutation envelope ∈ c.held ∨ envelope ∈ s.hub.replay ∨
      fresh = some envelope ∧ envelope.operation = .snapshotReconstruction := by
  cases h with
  | same => exact .inl hm
  | opened => simp [held, Writer.messages] at hm
  | control _ hctl =>
    simp only [held, mem_append] at hm ⊢
    rcases hm with hm | hm | hm
    · exact .inl (.inl hm)
    · exact absurd rfl (hctl _ hm envelope)
    · exact .inl (.inr hm)
  | replay _ hact hop =>
    simp only [held, mem_append] at hm ⊢
    rcases hm with hm | hm | hm
    · exact .inl (.inl hm)
    · exact .inr (.inl (mem_replay_of_mem_resumeReplies hm))
    · exact .inl (.inr hm)
  | row _ hop =>
    simp only [held, mem_append, mem_cons, BridgeMessage.mutation.injEq] at hm ⊢
    rcases hm with hm | rfl | hm
    · exact .inl (.inl hm)
    · exact .inr (.inr ⟨rfl, hop⟩)
    · exact .inl (.inr hm)
  | @send _ message rest hsends =>
    have hm' : .mutation envelope ∈ (c.deliver message).held := by
      simp only [held, deliver_sends, hsends, mem_append, mem_cons] at hm ⊢
      exact hm.imp_right .inr
    rcases mem_held_deliver hm' with h | h
    · exact .inl h
    · exact .inl (by simp [held, hsends, h])
  | sendControl _ hctl =>
    rcases mem_held_deliver hm with h | h
    · exact .inl h
    · exact absurd h.symm (hctl envelope)
  | pushControl _ hctl =>
    simp only [held, mem_append] at hm ⊢
    rcases hm with (hm | hm) | hm
    · rcases OutboundQueue.mem_push hm with h | h
      · exact .inl (.inl (.inl h))
      · exact absurd h.symm (hctl envelope)
    · exact .inl (.inl (.inr hm))
    · exact .inl (.inr hm)
  | closed => exact .inl hm
  | unregistered => exact .inl hm
  | took _ hwriter =>
    refine .inl ?_
    simp only [held, Writer.ofTaken, OutboundQueue.take_items, nil_append,
      mem_append] at hm ⊢
    refine hm.imp_left fun hm => .inl ?_
    split at hm
    · simp [Writer.messages] at hm
    · exact hm
  | numbered _ hwriter hgap =>
    refine .inl ?_
    simpa [held, Writer.messages, hwriter] using hm
  | wrote _ hact hnext =>
    refine .inl ?_
    simp only [held, mem_append] at hm ⊢
    exact hm.imp_left (Or.imp_right (Writer.messages_next hnext ·))
  | stopped =>
    refine .inl ?_
    simp only [held, Writer.messages, append_nil, mem_append] at hm ⊢
    exact hm.imp_left .inl
  | idled _ hwriter hctl hold =>
    refine .inl ?_
    simp only [held, mem_append] at hm ⊢
    rcases hwriter with rfl | rfl | rfl <;>
      exact hm.imp_left (Or.imp_right fun h => absurd h (not_mem_nil))

/-- What a connection's task writes, it held or had numbered. -/
theorem Conn.Step.mem_sent (hm : .mutation envelope ∈ c'.sent) :
    .mutation envelope ∈ c.sent ∨ .mutation envelope ∈ c.held ∨
      ∃ messages, c.writer = .notice envelope messages := by
  cases h with
  | opened => simp at hm
  | wrote _ hact hnext =>
    rw [mem_append, mem_singleton] at hm
    refine hm.imp_right fun hm => ?_
    rcases Writer.next_eq_some hnext with ⟨e, messages, hw, rfl, -⟩ | ⟨messages, hw, -⟩
    · obtain rfl : envelope = e := by simpa using hm
      exact .inr ⟨messages, hw⟩
    · exact .inl (by simp [held, Writer.messages, hw, ← hm])
  | idled _ hwriter hctl hold =>
    rw [mem_append] at hm
    exact .inl (hm.resolve_right fun h => hctl _ h envelope rfl)
  | _ => exact .inl hm

theorem Conn.Step.notice {messages : List BridgeMessage}
    (hw : c'.writer = .notice envelope messages) :
    (∃ messages, c.writer = .notice envelope messages) ∨
      fresh = some envelope ∧ envelope.mutation.isGap = true := by
  cases h with
  | opened => simp at hw
  | took _ hwriter =>
    simp only [Writer.ofTaken] at hw
    split at hw <;> simp at hw
  | @numbered _ envelope' lo hi reason messages' hwriter hgap =>
    obtain ⟨rfl, -⟩ : envelope' = envelope ∧ messages' = messages := by simpa using hw
    exact .inr ⟨rfl, by simp [hgap, ViewMutation.isGap]⟩
  | wrote _ hact hnext =>
    rcases Writer.next_eq_some hnext with ⟨-, messages, -, -, rfl⟩ | ⟨messages, -, rfl⟩ <;>
      simp at hw
  | stopped => simp at hw
  | idled _ hwriter =>
    rcases hwriter with rfl | rfl | rfl <;> simp at hw
  | _ => exact .inl ⟨messages, hw⟩

end

end Messages

namespace Server

variable {bodyBytes : BridgeMessage → ℕ} {s s' : Server} {a : Action}

theorem traced_init (config : BridgeServerConfig) : (init config).Traced := by
  refine ⟨fun id envelope h => ?_, fun id envelope messages h => ?_, fun id envelope h => ?_⟩
  · simp [conn, Conn.held, init, BridgeHub.new, Peer.new, Writer.messages] at h
  · simp [conn, init, Peer.new] at h
  · simp [conn, init, Peer.new] at h

theorem Sequenced.replay_subset (h : s.Sequenced) : s.hub.replay ⊆ s.log := by
  rw [h.replay]
  exact drop_subset _ _

/-- What is newly on its way to a connection was broadcast or is a row just numbered. -/
theorem mem_held_of_effect (hs : s.Sequenced) (he : Effect s a s') {id : ℕ}
    (hm : .mutation envelope ∈ (s'.conn id).held) :
    .mutation envelope ∈ (s.conn id).held ∨ envelope ∈ s'.log ∨
      envelope.operation = .snapshotReconstruction ∧ s'.Fresh envelope := by
  cases he with
  | allocated _ _ _ _ _ _ _ _ _ hconn => exact .inl (hconn id ▸ hm)
  | broadcast nowNs new _ _ _ _ _ hlog _ hconn =>
    rw [hconn] at hm
    refine (Conn.mem_held_deliver hm).imp_right fun h => .inl ?_
    obtain rfl := BridgeMessage.mutation.inj h
    simp [hlog]
  | notified message _ hctl _ _ _ _ hconn =>
    rw [hconn] at hm
    exact .inl ((Conn.mem_held_deliver hm).resolve_right fun h => hctl envelope h.symm)
  | conn j fresh _ hemission hcount hfresh hlog _ hconn hstep =>
    rcases eq_or_ne id j with rfl | hj
    · refine (hstep.mem_held hm).imp_right fun h => ?_
      rcases h with h | ⟨rfl, hop⟩
      · exact .inl (hlog ▸ hs.replay_subset h)
      · refine .inr ⟨hop, fresh_of_numbered hs (hfresh _ rfl) (by simpa using hcount) ?_⟩
        rw [issued, issued, hemission, hlog]
    · exact .inl (hconn id hj ▸ hm)

theorem mem_sent_of_effect (he : Effect s a s') {id : ℕ}
    (hm : .mutation envelope ∈ (s'.conn id).sent) :
    .mutation envelope ∈ (s.conn id).sent ∨ .mutation envelope ∈ (s.conn id).held ∨
      ∃ messages, (s.conn id).writer = .notice envelope messages := by
  cases he with
  | allocated _ _ _ _ _ _ _ _ _ hconn => exact .inl (hconn id ▸ hm)
  | broadcast _ _ _ _ _ _ _ _ _ hconn => exact .inl (by simpa [hconn] using hm)
  | notified _ _ _ _ _ _ _ hconn => exact .inl (by simpa [hconn] using hm)
  | conn j fresh _ _ _ _ _ _ hconn hstep =>
    rcases eq_or_ne id j with rfl | hj
    · exact hstep.mem_sent hm
    · exact .inl (hconn id hj ▸ hm)

theorem notice_of_effect (hs : s.Sequenced) (he : Effect s a s') {id : ℕ}
    {messages : List BridgeMessage}
    (hw : (s'.conn id).writer = .notice envelope messages) :
    (∃ messages, (s.conn id).writer = .notice envelope messages) ∨
      envelope.mutation.isGap = true ∧ s'.Fresh envelope := by
  cases he with
  | allocated _ _ _ _ _ _ _ _ _ hconn => exact .inl ⟨messages, hconn id ▸ hw⟩
  | broadcast _ _ _ _ _ _ _ _ _ hconn => exact .inl ⟨messages, by simpa [hconn] using hw⟩
  | notified _ _ _ _ _ _ _ hconn => exact .inl ⟨messages, by simpa [hconn] using hw⟩
  | conn j fresh _ hemission hcount hfresh hlog _ hconn hstep =>
    rcases eq_or_ne id j with rfl | hj
    · refine (hstep.notice hw).imp_right fun h => ?_
      obtain ⟨rfl, hgap⟩ := h
      refine ⟨hgap, fresh_of_numbered hs (hfresh _ rfl) (by simpa using hcount) ?_⟩
      rw [issued, issued, hemission, hlog]
    · exact .inl ⟨messages, hconn id hj ▸ hw⟩

theorem Traced.effect (ht : s.Traced) (hs : s.Sequenced) (he : Effect s a s') : s'.Traced := by
  have hlog := log_subset_of_effect he
  have hheld : ∀ id envelope, .mutation envelope ∈ (s.conn id).held →
      envelope ∈ s'.log ∨ envelope.operation = .snapshotReconstruction ∧ s'.Fresh envelope :=
    fun id envelope hm => (ht.held id envelope hm).imp (hlog ·) (And.imp_right (·.effect he))
  have hnotice : ∀ id envelope messages, (s.conn id).writer = .notice envelope messages →
      envelope.mutation.isGap = true ∧ s'.Fresh envelope :=
    fun id envelope messages hw => (ht.notice id envelope messages hw).imp_right (·.effect he)
  refine ⟨fun id envelope hm => ?_, fun id envelope messages hw => ?_, fun id envelope hm => ?_⟩
  · exact (mem_held_of_effect hs he hm).elim (hheld id envelope) (fun h => h)
  · rcases notice_of_effect hs he hw with ⟨messages', hw'⟩ | h
    · exact hnotice id envelope messages' hw'
    · exact h
  · rcases mem_sent_of_effect he hm with h | h | ⟨messages, hw⟩
    · exact (ht.sent id envelope h).imp (hlog ·) (And.imp_right (·.effect he))
    · exact (hheld id envelope h).imp_right (And.imp_left .inr)
    · exact .inr ((hnotice id envelope messages hw).imp_left .inl)

/-- **The numbering invariants hold in every reachable state.** -/
theorem sequenced_and_traced {config : BridgeServerConfig} {ok : Server → Action → Prop}
    (h : Transition.Reaches (step bodyBytes) ok (init config) s) : s.Sequenced ∧ s.Traced := by
  refine h.invariant (I := fun s => s.Sequenced ∧ s.Traced)
    ⟨sequenced_init config, traced_init config⟩ fun s a s' hinv _ hstep => ?_
  have he := step_effect hstep
  exact ⟨hinv.1.effect he, hinv.2.effect hinv.1 he⟩

theorem config_of_effect (he : Effect s a s') : s'.hub.config = s.hub.config := by
  cases he <;> assumption

theorem config_eq {config : BridgeServerConfig} {ok : Server → Action → Prop}
    (h : Transition.Reaches (step bodyBytes) ok (init config) s) : s.hub.config = config := by
  refine h.invariant (I := fun s => s.hub.config = config) rfl fun s a s' hinv _ hstep => ?_
  exact (config_of_effect (step_effect hstep)).trans hinv

end Server

end AgentSight.Bridge
