import AgentSight.Bridge.Given

/-!
# What the health report counts

A broadcast adds to `dropped_mutations` every message its pushes evict; the other pushes add
nothing. `Server.pushes` lists the pushes of an action and `evicts` what the next push to a
queue evicts; a run carries the mutations evicted so far as its history. The report is right in
the runs in which broadcasts evict mutations only and the other pushes evict none: `Respects`,
and `health_accounts` the result.
-/

namespace AgentSight.Bridge

open Transition List

/-! ### What a push evicts -/

namespace OutboundQueue

/-- The messages that the next push evicts. -/
def evicts (q : OutboundQueue) : List BridgeMessage :=
  if q.closed then [] else q.items.take (evict q.capacity q.items q.pendingGap).2.2

/-- The loop stops after the messages it counts. -/
theorem evict_eq_drop (capacity : ℕ) (items : List BridgeMessage) (gap : Option (ℕ × ℕ)) :
    (evict capacity items gap).1 = items.drop (evict capacity items gap).2.2 ∧
      (evict capacity items gap).2.2 = min items.length (items.length + 1 - capacity) := by
  induction items generalizing gap with
  | nil => simp [evict]
  | cons message items ih =>
    obtain ⟨hkept, hcount⟩ := ih (widen gap message)
    rw [evict]
    split_ifs with hfull
    · refine ⟨hkept, ?_⟩
      dsimp only
      rw [hcount]
      simp only [length_cons] at hfull ⊢
      omega
    · refine ⟨rfl, ?_⟩
      dsimp only
      omega

variable (q : OutboundQueue) (message : BridgeMessage)

theorem push_count : (q.push message).2 = q.evicts.length := by
  rw [push, evicts]
  split_ifs
  · rfl
  · obtain ⟨-, hcount⟩ := evict_eq_drop q.capacity q.items q.pendingGap
    rw [length_take, hcount]
    omega

/-- An open queue that is full loses its front, and no other queue loses anything. -/
theorem evicts_eq :
    q.evicts = if q.closed = false ∧ q.items.length = q.capacity then q.items.take 1 else [] := by
  obtain ⟨-, hcount⟩ := evict_eq_drop q.capacity q.items q.pendingGap
  have hle := q.items_le
  have hpos := q.capacity_pos
  rw [evicts, hcount]
  cases hclosed : q.closed with
  | true => simp
  | false =>
    by_cases hfull : q.items.length = q.capacity
    · have hone : min q.items.length (q.items.length + 1 - q.capacity) = 1 := by omega
      rw [hone, if_neg Bool.false_ne_true, if_pos ⟨rfl, hfull⟩]
    · have hnone : min q.items.length (q.items.length + 1 - q.capacity) = 0 := by omega
      rw [hnone, if_neg Bool.false_ne_true, if_neg fun h => hfull h.2, take_zero]

end OutboundQueue

/-! ### The pushes of an action -/

namespace Server

/-- The connections whose queues the action pushes to, with the message. -/
def pushes (s : Server) : Action → List (ℕ × BridgeMessage)
  | .broadcast nowNs =>
    match s.emission with
    | some envelope => s.hub.connections.map (·, .mutation (s.hub.stamp nowNs envelope))
    | none => []
  | .read id _ =>
    match (s.peers id).reader with
    | .sendTo message :: _ => if s.hub.isRegistered id then [(id, message)] else []
    | .pushShutdown reason :: _ => [(id, .shutdown reason)]
    | _ => []
  | .hostSessions id (some (generatedMs, sessions)) =>
    if s.hub.isRegistered id then [(id, .hostSessionsSnapshot generatedMs sessions)] else []
  | .shutdown reason => s.hub.connections.map (·, .shutdown reason)
  | _ => []

/-- What the action evicts from all the queues. -/
def evicts (s : Server) (a : Action) : List BridgeMessage :=
  (s.pushes a).flatMap fun (id, _) => (s.hub.queues id).evicts

variable {bodyBytes : BridgeMessage → ℕ} {config : BridgeServerConfig} {s s' : Server} {a : Action}

end Server

/-! ### Runs -/

def BridgeMessage.isMutation (message : BridgeMessage) : Bool := message.envelope?.isSome

def Action.isBroadcast : Action → Bool
  | .broadcast _ => true
  | _ => false

/-- A server with the history of the mutations its queues have evicted. -/
structure Losses where
  server : Server
  lost : List ViewMutationEnvelope

namespace Losses

def init (config : BridgeServerConfig) : Losses where
  server := .init config
  lost := []

def step (bodyBytes : BridgeMessage → ℕ) (t : Losses) (a : Action) : Option Losses :=
  (t.server.step bodyBytes a).map fun server =>
    { server, lost := t.lost ++ (t.server.evicts a).filterMap (·.envelope?) }

/-- The report counts the mutations lost, and is degraded when there is one. -/
def Reports (t : Losses) : Prop :=
  ∀ nowNs, (t.server.hub.health nowNs).droppedMutations = t.lost.length ∧
    ((t.server.hub.health nowNs).state = BridgeHealth.degraded ↔ t.lost ≠ [])

/-- Of the queues that a push finds open and full, the front is a mutation if and only if the
push is a broadcast's. -/
def Respects (t : Losses) (a : Action) : Prop :=
  ∀ push ∈ t.server.pushes a, ∀ front ∈ (t.server.hub.queues push.1).items.head?,
    (t.server.hub.queues push.1).closed = false →
      (t.server.hub.queues push.1).items.length = (t.server.hub.queues push.1).capacity →
        front.isMutation = a.isBroadcast

instance (t : Losses) (a : Action) : Decidable (t.Respects a) :=
  inferInstanceAs (Decidable (∀ push ∈ t.server.pushes a, _))

/-- What the counters say of the mutations lost. -/
structure Accounts (t : Losses) : Prop where
  dropped : t.server.hub.droppedMutations = t.lost.length
  gaps : 0 < t.server.hub.captureGaps ↔ 0 < t.server.hub.droppedMutations

variable {bodyBytes : BridgeMessage → ℕ} {config : BridgeServerConfig} {t t' : Losses} {a : Action}

theorem step_eq (h : t.step bodyBytes a = some t') : t.server.step bodyBytes a = some t'.server ∧
      t'.lost = t.lost ++ (t.server.evicts a).filterMap (·.envelope?) := by
  obtain ⟨server, hstep, rfl⟩ := Option.map_eq_some_iff.mp h
  exact ⟨hstep, rfl⟩

theorem Accounts.reports (h : t.Accounts) : t.Reports := by
  intro nowNs
  obtain ⟨hdropped, hgaps⟩ := h
  have hne : BridgeHealth.ok ≠ BridgeHealth.degraded := by decide
  rw [BridgeHub.health, ← length_pos_iff, ← hdropped]
  by_cases hlost : 0 < t.server.hub.droppedMutations
  · simp [hlost]
  · simp [hlost, hgaps, hne]

/-- What is evicted in a step that meets the condition. -/
theorem Respects.evicts (h : t.Respects a) {message : BridgeMessage}
    (hmem : message ∈ t.server.evicts a) :
    message.isMutation = a.isBroadcast := by
  obtain ⟨push, hpush, hevicted⟩ := mem_flatMap.mp hmem
  dsimp only at hevicted
  rw [OutboundQueue.evicts_eq] at hevicted
  split_ifs at hevicted with hfull
  · refine h push hpush message ?_ hfull.1 hfull.2
    cases hitems : (t.server.hub.queues push.1).items with
    | nil => simp [hitems] at hevicted
    | cons front items =>
      obtain rfl : message = front := by simpa [hitems] using hevicted
      rfl
  · cases hevicted

theorem length_evicts_broadcast {s : Server} (nowNs : ℕ) {envelope : ViewMutationEnvelope}
    (hsome : s.emission = some envelope) :
    s.hub.droppedByPushAll (.mutation (s.hub.stamp nowNs envelope)) =
      (s.evicts (.broadcast nowNs)).length := by
  rw [Server.evicts, Server.pushes, hsome, BridgeHub.droppedByPushAll, length_flatMap]
  simp only [map_map, OutboundQueue.push_count]
  rfl

theorem accounts_init : (init config).Accounts := ⟨rfl, Iff.rfl⟩

theorem Accounts.step (ht : t.Accounts) (hok : t.Respects a)
    (h : t.step bodyBytes a = some t') : t'.Accounts := by
  obtain ⟨hdropped, hgaps⟩ := ht
  obtain ⟨hserver, hlost⟩ := step_eq h
  have hnone (hother : ∀ nowNs, a ≠ .broadcast nowNs) : t'.lost = t.lost := by
    have hcontrol : (t.server.evicts a).filterMap (·.envelope?) = [] := by
      refine filterMap_eq_nil_iff.mpr fun message hmem => ?_
      have hact : a.isBroadcast = false := by
        cases a with
        | broadcast nowNs => exact absurd rfl (hother nowNs)
        | _ => rfl
      exact Option.isNone_iff_eq_none.mp
        (Option.isSome_eq_false_iff.mp ((hok.evicts hmem).trans hact))
    rw [hlost, hcontrol, append_nil]
  obtain ⟨nowNs, envelope, rfl, hsome, hhub⟩ | ⟨rfl, -, -, hdropped', hgaps'⟩ |
    ⟨hother, hcounts⟩ := Server.counts_of_step hserver
  · -- a broadcast: what it evicts is mutations, and it counts all of it
    have hall : ((t.server.evicts (.broadcast nowNs)).filterMap (·.envelope?)).length =
        (t.server.evicts (.broadcast nowNs)).length :=
      filterMap_length_eq_length.mpr fun message hmem => hok.evicts hmem
    have hcount := length_evicts_broadcast nowNs hsome
    constructor
    · rw [hhub, hlost, length_append, hall, ← hcount, ← hdropped]
      rfl
    · rw [hhub, BridgeHub.broadcast]
      dsimp only
      split_ifs with hpos <;> omega
  · exact ⟨by rw [hnone nofun, hdropped', hdropped], by rw [hdropped', hgaps', hgaps]⟩
  · exact ⟨by rw [hnone hother, hcounts.droppedMutations, hdropped],
      by rw [hcounts.droppedMutations, hcounts.captureGaps, hgaps]⟩

/-- **The health report is right**, in every run in which broadcasts evict mutations only and
the other pushes evict none: it counts the mutations evicted from all the queues, and the state
is degraded if and only if there is one. -/
theorem health_accounts (h : Reaches (step bodyBytes) Respects (init config) t) : t.Reports :=
  (h.invariant accounts_init fun _ _ _ ht hok hstep => ht.step hok hstep).reports

/-! ### Runs

A client of a queue for two messages, whose writer waits. -/

/-- Two broadcasts fill the queue, and the third evicts the first. -/
theorem health_accounts_of_overflow :
    ∃ t, Reaches (step fun _ => 0) Respects (init (Server.smallConfig 2 8)) t ∧ t.lost.length = 1 ∧
      t.Reports := by
  obtain ⟨t, ht, hlost⟩ := exists_reaches_of_run (step fun _ => 0) Respects
    (init (Server.smallConfig 2 8)) (Q := fun t => t.lost.length = 1)
    ([.connect] ++ Server.emitRow ++ Server.emitRow ++ Server.emitRow) (by decide)
  exact ⟨t, ht, hlost, health_accounts ht⟩

/-- **A miscount.** A broadcast that evicts the agreement is reported as a mutation dropped, and
one evicted by the answer to a client is not reported. -/
theorem health_miscounts :
    (∃ t, Reaches (step fun _ => 0) always (init (Server.smallConfig 2 8)) t ∧ t.lost = [] ∧
      ¬ t.Reports) ∧
    ∃ t, Reaches (step fun _ => 0) always (init (Server.smallConfig 2 8)) t ∧ t.lost.length = 1 ∧
      (t.server.hub.health 0).state = BridgeHealth.ok ∧ ¬ t.Reports := by
  constructor
  · obtain ⟨t, ht, hlost, hdropped⟩ := exists_reaches_of_run (step fun _ => 0) always
      (init (Server.smallConfig 2 8))
      (Q := fun t => t.lost = [] ∧ (t.server.hub.health 0).droppedMutations = 1)
      (Server.handshake ++ Server.emitRow) (by decide)
    refine ⟨t, ht, hlost, fun hreports => ?_⟩
    have hcount := (hreports 0).1
    rw [hdropped, hlost] at hcount
    cases hcount
  · obtain ⟨t, ht, hlost, hstate⟩ := exists_reaches_of_run (step fun _ => 0) always
      (init (Server.smallConfig 2 8))
      (Q := fun t => t.lost.length = 1 ∧ (t.server.hub.health 0).state = BridgeHealth.ok)
      (Server.handshake ++ [.take 1] ++ Server.emitRow ++ Server.emitRow ++
        [.receive 1 (.hello default), Server.readOp []]) (by decide)
    refine ⟨t, ht, hlost, hstate, fun hreports => ?_⟩
    have hdegraded := (hreports 0).2.mpr (by rintro hnil; rw [hnil] at hlost; cases hlost)
    rw [hstate] at hdegraded
    exact absurd hdegraded (by decide)

end Losses

end AgentSight.Bridge
