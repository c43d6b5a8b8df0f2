import AgentSight.View.AuditRetention
import AgentSight.View.Tracked

/-!
# Replica convergence

Every public mutator of a view either publishes what it stores or stores without publishing.
Over every run of the former, a replica that was there from the start holds the rows a
snapshot reconstructs: exactly, for the six kinds whose rows carry a revision; up to what the
view retains, for the two that are only ever inserted, whose departures the view does not
announce.
-/

namespace AgentSight.View

open Bridge (BridgeAuditEventRow BridgeResourceSampleRow DisclosureMode MutationEmitter
  MutationEmitterConfig ViewMutation)
open Effectful List MaterializedView
open Retention (Holds keep newest)
open Std (TreeMap)

/-! ### The mutators of a view -/

/-- The public operations that change a view. -/
inductive Mutator (σ : Type) where
  | setSource (source : String)
  | addSink (sink : σ)
  | addMutationSink (version : String)
  | configureMutations (config : MutationEmitterConfig)
  | emitLlmCall (row : LlmCallRow)
  | emitTokenUsage (row : TokenUsageRow)
  | emitAuditEvent (row : AuditEventRow)
  | emitProcessNode (row : ProcessNodeRow)
  | emitToolCall (row : ToolCallRow)
  | emitNetworkTarget (row : NetworkTargetRow)
  | emitResourceSample (row : ResourceSampleRow)
  | emitSession (row : SessionRow)
  | noticeCapability (capability : String) (available : Bool) (detail : Option String)
  | noticeGap (fromSequence toSequence : ℕ) (reason : String)
  | noticeRowEvicted (rowKind rowId : String)
  | ingestEvent (event : Event)
  | applyLlmCall (row : LlmCallRow)
  | applyTokenUsage (row : TokenUsageRow)
  | applyAuditEvent (row : AuditEventRow)
  | applyToolCall (row : ToolCallRow)
  | applyResourceSample (row : ResourceSampleRow)
  | upsertSession (row : SessionRow)
  | upsertNetworkTarget (row : NetworkTargetRow)
  | upsertProcessNode (row : ProcessNodeRow)

namespace Mutator

variable {σ : Type}

/-- The view after the operation, whether it reported an error or not. -/
def run [ViewSink σ] [External] (v : MaterializedView σ) : Mutator σ → MaterializedView σ
  | setSource source => v.setSource source
  | addSink sink => v.addSink sink
  | addMutationSink version => v.addMutationSink version
  | configureMutations config => v.configureMutations config
  | emitLlmCall row => (exec (View.emitLlmCall row) v).2
  | emitTokenUsage row => (exec (View.emitTokenUsage row) v).2
  | emitAuditEvent row => (exec (View.emitAuditEvent row) v).2
  | emitProcessNode row => (exec (View.emitProcessNode row) v).2
  | emitToolCall row => (exec (View.emitToolCall row) v).2
  | emitNetworkTarget row => (exec (View.emitNetworkTarget row) v).2
  | emitResourceSample row => (exec (View.emitResourceSample row) v).2
  | emitSession row => (exec (View.emitSession row) v).2
  | noticeCapability capability available detail =>
    v.mutate (·.capabilityChanged capability available detail)
  | noticeGap fromSequence toSequence reason =>
    v.mutate (·.captureGap fromSequence toSequence reason)
  | noticeRowEvicted rowKind rowId => v.mutate (·.rowEvicted rowKind rowId)
  | ingestEvent event => (exec (View.ingestEvent event) v).2
  | applyLlmCall row => v.applyLlmCall row
  | applyTokenUsage row => v.applyTokenUsage row
  | applyAuditEvent row => v.applyAuditEvent row
  | applyToolCall row => v.applyToolCall row
  | applyResourceSample row => v.applyResourceSample row
  | upsertSession row => v.upsertSession row
  | upsertNetworkTarget row => v.upsertNetworkTarget row
  | upsertProcessNode row => v.upsertProcessNode row

/-- The operation publishes whatever it stores, announces no eviction, and leaves the
disclosure mode as it is. -/
def Publishes (disclosure : DisclosureMode) : Mutator σ → Prop
  | configureMutations config => config.disclosure = disclosure
  | noticeRowEvicted .. | applyLlmCall _ | applyTokenUsage _ | applyAuditEvent _
  | applyToolCall _ | applyResourceSample _ | upsertSession _ | upsertNetworkTarget _
  | upsertProcessNode _ => False
  | _ => True

end Mutator

/-- The view after a run of its mutators. -/
def MaterializedView.after {σ : Type} [ViewSink σ] [External] (v : MaterializedView σ)
    (run : List (Mutator σ)) : MaterializedView σ :=
  run.foldl Mutator.run v

/-! ### What the emissions store -/

section Storing

variable {σ : Type} {v : MaterializedView σ} [ViewSink σ] [External]

omit [ViewSink σ] [External] in
theorem MaterializedView.observe_eq (v : MaterializedView σ) (t : Option ℕ) :
    ∃ start stop, v.observe t = { v with startTimestampMs := start, endTimestampMs := stop } := by
  rcases t with _ | t <;> exact ⟨_, _, rfl⟩

omit [ViewSink σ] [External] in
theorem MaterializedView.observe_observe_eq (v : MaterializedView σ) (t t' : Option ℕ) :
    ∃ start stop, (v.observe t).observe t' =
      { v with startTimestampMs := start, endTimestampMs := stop } := by
  obtain ⟨start, stop, h⟩ := v.observe_eq t
  obtain ⟨start', stop', h'⟩ := (v.observe t).observe_eq t'
  exact ⟨start', stop', by rw [h', h]⟩

omit [ViewSink σ] [External]

theorem stores_applyLlmCall (row : LlmCallRow) :
    RowKind.llmCall.Stores v (v.applyLlmCall row) row.id row := by
  obtain ⟨start, stop, hobs⟩ := v.observe_observe_eq (some row.startTimestampMs) row.endTimestampMs
  rw [applyLlmCall, hobs]
  exact ⟨_, start, stop, rfl⟩

theorem stores_applyTokenUsage (row : TokenUsageRow) :
    RowKind.tokenUsage.Stores v (v.applyTokenUsage row) row.id row := by
  obtain ⟨start, stop, hobs⟩ := v.observe_eq (some row.timestampMs)
  rw [applyTokenUsage, hobs]
  exact ⟨_, start, stop, rfl⟩

theorem stores_applyToolCall (row : ToolCallRow) :
    RowKind.toolCall.Stores v (v.applyToolCall row) row.id row := by
  obtain ⟨start, stop, hobs⟩ := v.observe_eq (some row.timestampMs)
  rw [applyToolCall, hobs]
  exact ⟨_, start, stop, rfl⟩

/-- The row an upsert stores: the new one, or what it is merged into. -/
def merged {α : Type} (merge : α → α → α) (stored : Option α) (row : α) : α :=
  (stored.map (merge · row)).getD row

theorem stores_upsertSession (row : SessionRow) :
    RowKind.session.Stores v (v.upsertSession row) row.id
      (merged SessionRow.merge v.sessions[row.id]? row) := by
  obtain ⟨start, stop, hobs⟩ := v.observe_observe_eq (some row.startTimestampMs) row.endTimestampMs
  rw [upsertSession, hobs]
  split <;> next h => exact ⟨_, start, stop, by rw [h]; rfl⟩

theorem stores_upsertProcessNode (row : ProcessNodeRow) :
    RowKind.processNode.Stores v (v.upsertProcessNode row) row.id
      (merged ProcessNodeRow.merge v.processNodes[row.id]? row) := by
  obtain ⟨start, stop, hobs⟩ := v.observe_observe_eq row.startTimestampMs row.endTimestampMs
  rw [upsertProcessNode, hobs]
  split <;> next h => exact ⟨_, start, stop, by rw [h]; rfl⟩

theorem stores_upsertNetworkTarget (row : NetworkTargetRow) :
    RowKind.networkTarget.Stores v (v.upsertNetworkTarget row) (networkTargetKey row)
      (merged NetworkTargetRow.merge v.networkTargets[networkTargetKey row]? row) := by
  obtain ⟨start, stop, hobs⟩ := v.observe_observe_eq row.firstTimestampMs row.lastTimestampMs
  rw [upsertNetworkTarget, hobs]
  split <;> next h => exact ⟨_, start, stop, by rw [h]; rfl⟩

/-! Every emission of a row of a kind, as one. -/

variable [ViewSink σ] [External]

theorem emitted_emitLlmCall (filed : RowKind.Filed v) (row : LlmCallRow) :
    RowKind.llmCall.Emitted v (exec (emitLlmCall row) v).2 row.id row :=
  (stores_applyLlmCall row).emitted rfl (fun old hold => filed .llmCall _ old hold) _

theorem emitted_emitTokenUsage (filed : RowKind.Filed v) (row : TokenUsageRow) :
    RowKind.tokenUsage.Emitted v (exec (emitTokenUsage row) v).2 row.id row :=
  (stores_applyTokenUsage row).emitted rfl (fun old hold => filed .tokenUsage _ old hold) _

theorem emitted_emitToolCall (filed : RowKind.Filed v) (row : ToolCallRow) :
    RowKind.toolCall.Emitted v (exec (emitToolCall row) v).2 row.id row :=
  (stores_applyToolCall row).emitted rfl (fun old hold => filed .toolCall _ old hold) _

omit [ViewSink σ] in
/-- A merged row is stored where the stored one was. -/
theorem key_merged (kind : RowKind) (merge : kind.RowOf → kind.RowOf → kind.RowOf)
    (keeps : ∀ old row, kind.key (merge old row) = kind.key old) (filed : RowKind.Filed v)
    (row : kind.RowOf) :
    kind.key (merged merge (kind.table v)[kind.key row]? row) = kind.key row := by
  cases hold : (kind.table v)[kind.key row]? with
  | none => rfl
  | some old => exact (keeps old row).trans (filed kind _ old hold)

omit [ViewSink σ] in
/-- The merged row that is stored is what the emitter gets. -/
theorem emitted_merged (kind : RowKind) (merge : kind.RowOf → kind.RowOf → kind.RowOf)
    (hkey : ∀ old row, kind.key (merge old row) = kind.key old)
    (hrowId : ∀ old row, kind.rowId (merge old row) = kind.rowId old) (filed : RowKind.Filed v)
    {row : kind.RowOf} {stored v' : MaterializedView σ}
    (hstores : kind.Stores v stored (kind.key row) (merged merge (kind.table v)[kind.key row]? row))
    (hrun : ∀ row', (kind.table stored)[kind.key row]? = some row' → ∃ sinks,
      v' = { stored with sinks, mutations := stored.mutations.map (kind.emit row') }) :
    kind.Emitted v v' (kind.key row) (merged merge (kind.table v)[kind.key row]? row) := by
  obtain ⟨sinks, rfl⟩ := hrun _ hstores.getElem?
  refine hstores.emitted (key_merged kind merge hkey filed row) (fun old hold => ?_) sinks
  rw [hold]
  exact (hrowId old row).symm

omit [ViewSink σ] in
theorem emitted_emitSession (filed : RowKind.Filed v) (row : SessionRow) :
    RowKind.session.Emitted v (exec (emitSession row : ViewM σ Unit) v).2 row.id
      (merged SessionRow.merge v.sessions[row.id]? row) := by
  refine emitted_merged .session SessionRow.merge (fun _ _ => rfl) (fun _ _ => rfl) filed
    (stores_upsertSession row) fun row' (hrow' : (v.upsertSession row).sessions[row.id]? = _) => ?_
  rw [View.emitSession, exec_ofFn]
  dsimp only
  rw [hrow']
  exact ⟨_, rfl⟩

theorem emitted_emitProcessNode (filed : RowKind.Filed v) (row : ProcessNodeRow) :
    RowKind.processNode.Emitted v (exec (emitProcessNode row) v).2 row.id
      (merged ProcessNodeRow.merge v.processNodes[row.id]? row) := by
  refine emitted_merged .processNode ProcessNodeRow.merge (fun _ _ => rfl) (fun _ _ => rfl) filed
    (stores_upsertProcessNode row)
    fun row' (hrow' : (v.upsertProcessNode row).processNodes[row.id]? = _) => ?_
  rw [View.emitProcessNode, emitRow, exec_ofFn]
  dsimp only [publish, mutate]
  rw [hrow']
  exact ⟨_, rfl⟩

theorem emitted_emitNetworkTarget (filed : RowKind.Filed v) (row : NetworkTargetRow) :
    RowKind.networkTarget.Emitted v (exec (emitNetworkTarget row) v).2 (networkTargetKey row)
      (merged NetworkTargetRow.merge v.networkTargets[networkTargetKey row]? row) := by
  refine emitted_merged .networkTarget NetworkTargetRow.merge (fun _ _ => rfl) (fun _ _ => rfl)
    filed (stores_upsertNetworkTarget row) fun row' (hrow' :
      (v.upsertNetworkTarget row).networkTargets[networkTargetKey row]? = _) => ?_
  rw [View.emitNetworkTarget, emitRow, exec_ofFn]
  dsimp only [publish, mutate]
  rw [hrow']
  exact ⟨_, rfl⟩

end Storing

/-! ### Agreement -/

/-- A view and its replica agree: exactly on the kinds whose rows carry a revision, and on
what is retained of the rows that are only inserted. -/
structure Agrees [External] {σ : Type} (maxAuditEvents maxResourceSamples : Option ℕ)
    (disclosure : DisclosureMode) (v : MaterializedView σ) : Prop where
  attached : v.Attached
  disclosure_eq : v.mutationDisclosure = disclosure
  maxAuditEvents_eq : v.maxAuditEvents = maxAuditEvents
  maxResourceSamples_eq : v.maxResourceSamples = maxResourceSamples
  filed : ∀ (kind : RowKind) (k : String) (row : kind.RowOf), (kind.table v)[k]? = some row →
    kind.key row = k
  mirrors : ∀ kind : RowKind, kind.Distinct v → kind.Mirrors v
  kinds : ∀ key m, v.replica.rows key = some m → ∃ kind : RowKind, kind.name = key.1
  audits : Holds BridgeAuditEventRow.rowId (Bridge.Projection.auditEvent · disclosure)
    v.auditEvents (keep BridgeAuditEventRow.rowId maxAuditEvents v.replica.audits)
  order : maxAuditEvents.isSome →
    v.auditOrder = (keep BridgeAuditEventRow.rowId maxAuditEvents v.replica.audits).map (·.rowId)
  samples : v.resourceSamples.map Bridge.Projection.resourceSample =
    newest maxResourceSamples v.replica.samples

namespace Agrees

variable {σ : Type} [External] {maxAuditEvents maxResourceSamples : Option ℕ}
  {disclosure : DisclosureMode} {v v' : MaterializedView σ}

theorem start (sinks : List σ) (config : MutationEmitterConfig)
    (maxAuditEvents maxResourceSamples : Option ℕ) :
    Agrees maxAuditEvents maxResourceSamples config.disclosure
      (MaterializedView.attached sinks config maxAuditEvents maxResourceSamples) where
  attached := ⟨_, rfl, by simp [MutationEmitter.new, MutationEmitter.addSink]⟩
  disclosure_eq := rfl
  maxAuditEvents_eq := rfl
  maxResourceSamples_eq := rfl
  filed kind k row h := by
    cases kind <;> simp [MaterializedView.attached, MaterializedView.new, RowKind.table] at h
  mirrors kind _ id m := by
    constructor
    · rintro ⟨⟩
    · rintro ⟨k, row, h, -⟩
      cases kind <;> simp [MaterializedView.attached, MaterializedView.new, RowKind.table] at h
  kinds _ _ h := nomatch h
  audits := Holds.empty
  order _ := rfl
  samples := by
    rcases maxResourceSamples with _ | max
    · rfl
    · exact drop_nil.symm

section

variable (h : Agrees maxAuditEvents maxResourceSamples disclosure v)
include h

/-- Nothing is retained differently for a row of a kind with revisions. -/
theorem upsert {kind : RowKind}
    {k : String} {row : kind.RowOf} (hu : kind.Upserts v v' k row) (hfiled : RowKind.Filed v') :
    Agrees maxAuditEvents maxResourceSamples disclosure v' := by
  have hinsert := hu.insertOnly
  simp only [insertOnly, InsertOnly.mk.injEq] at hinsert
  obtain ⟨hevents, horder, hmaxAudits, hsamples, hmaxSamples⟩ := hinsert
  obtain ⟨hrows, haudits, hlog⟩ := hu.replica
  refine ⟨hu.attached, hu.disclosure.trans h.disclosure_eq, hmaxAudits.trans h.maxAuditEvents_eq,
    hmaxSamples.trans h.maxResourceSamples_eq, hfiled,
    fun kind' hd => hu.mirrors kind' hd (h.mirrors kind' (hu.distinct kind' hd)), ?_, ?_, ?_, ?_⟩
  · intro key m hm
    rw [hrows] at hm
    by_cases hk : key = (kind.name, kind.rowId row)
    · exact ⟨kind, by rw [hk]⟩
    · rw [Function.update_of_ne hk] at hm
      exact h.kinds key m hm
  · rw [hevents, haudits]
    exact h.audits
  · intro hsome
    rw [horder, haudits]
    exact h.order hsome
  · rw [hsamples, hlog]
    exact h.samples

/-- Publishing something that is no row of a kind with revisions. -/
theorem emit {m : ViewMutation}
    (hattached : v'.Attached) (hstream : v'.stream = v.stream ++ [m])
    (hrevision : v'.revision = v.revision)
    (hdisclosure : v'.mutationDisclosure = v.mutationDisclosure) (hm : rowChange m = none)
    (htables : ∀ kind : RowKind, kind.table v' = kind.table v)
    (hmaxAudits : v'.maxAuditEvents = v.maxAuditEvents)
    (hmaxSamples : v'.maxResourceSamples = v.maxResourceSamples)
    (haudits : Holds BridgeAuditEventRow.rowId (Bridge.Projection.auditEvent · disclosure)
      v'.auditEvents (keep BridgeAuditEventRow.rowId maxAuditEvents
        (auditChange v.replica.audits m)))
    (horder : maxAuditEvents.isSome → v'.auditOrder = (keep BridgeAuditEventRow.rowId maxAuditEvents
        (auditChange v.replica.audits m)).map (·.rowId))
    (hsamples : v'.resourceSamples.map Bridge.Projection.resourceSample =
      newest maxResourceSamples (v.replica.samples ++ (sampleOf m).toList)) :
    Agrees maxAuditEvents maxResourceSamples disclosure v' := by
  have happly : v'.replica = v.replica.apply m := by
    rw [replica, hstream, Replica.replay_concat]
    rfl
  have hrows : v'.replica.rows = v.replica.rows := by
    rw [happly, Replica.apply, hm]
    rfl
  refine ⟨hattached, hdisclosure.trans h.disclosure_eq, hmaxAudits.trans h.maxAuditEvents_eq,
    hmaxSamples.trans h.maxResourceSamples_eq, ?_, ?_, ?_, ?_, ?_, ?_⟩
  · intro kind k row hrow
    rw [htables] at hrow
    exact h.filed kind k row hrow
  · intro kind hd id m'
    have hd' : kind.Distinct v := by
      rw [RowKind.Distinct, htables] at hd
      exact hd
    rw [hrows, htables, hrevision, hdisclosure]
    exact h.mirrors kind hd' id m'
  · rw [hrows]
    exact h.kinds
  · rw [happly]
    exact haudits
  · rw [happly]
    exact horder
  · rw [happly]
    exact hsamples

/-- What belongs to the capture alone may change freely. -/
theorem frame (source : String)
    (sinks : List σ) (pending : Pending) (activeProcesses : ℕ → Option String) (nextSeq : ℕ) :
    Agrees maxAuditEvents maxResourceSamples disclosure
      { v with source, sinks, pending, activeProcesses, nextSeq } :=
  ⟨h.attached, h.disclosure_eq, h.maxAuditEvents_eq, h.maxResourceSamples_eq,
    fun kind k row hrow => h.filed kind k row (by cases kind <;> exact hrow),
    fun kind hd id m => by cases kind <;> exact h.mirrors _ hd id m,
    h.kinds, h.audits, h.order, h.samples⟩

/-! ### Insert-only rows -/

/-- Storing an audit row keeps what the same retention of the published rows keeps. -/
theorem audits_applyAuditEvent (row : AuditEventRow) :
    Holds BridgeAuditEventRow.rowId (Bridge.Projection.auditEvent · disclosure)
        (v.applyAuditEvent row).auditEvents
        (keep BridgeAuditEventRow.rowId maxAuditEvents
          (v.replica.audits ++ [Bridge.Projection.auditEvent row disclosure])) ∧
      (maxAuditEvents.isSome → (v.applyAuditEvent row).auditOrder =
        (keep BridgeAuditEventRow.rowId maxAuditEvents
          (v.replica.audits ++ [Bridge.Projection.auditEvent row disclosure])).map (·.rowId)) := by
  rw [Retention.keep_concat, ← h.maxAuditEvents_eq]
  exact holds_applyAuditEvent (h.maxAuditEvents_eq ▸ h.audits)
    (h.maxAuditEvents_eq ▸ h.order) row rfl

theorem emitAuditEvent [ViewSink σ] (row : AuditEventRow) :
    Agrees maxAuditEvents maxResourceSamples disclosure (exec (View.emitAuditEvent row) v).2 := by
  obtain ⟨e, he, hsinks⟩ := h.attached
  obtain ⟨start, stop, hobs⟩ := v.observe_eq (some row.timestampMs)
  have hmutations : (v.applyAuditEvent row).mutations = v.mutations := by
    rw [applyAuditEvent, hobs]
  have hdisc : e.disclosure = disclosure := by
    rw [← h.disclosure_eq]
    simp [mutationDisclosure, he]
  -- the emitter publishes the row under the view's disclosure
  have hemit : (exec (View.emitAuditEvent row) v).2.mutations = some (e.emit .insert
      (.auditEventInserted (Bridge.Projection.auditEvent row disclosure)) (some row.timestampMs)
      .epochMilliseconds) := by
    change ((v.applyAuditEvent row).mutations).map _ = _
    rw [hmutations, he, ← hdisc]
    rfl
  obtain ⟨hatt, hstream, hrevision, hdisclosure⟩ := emit_effect he hsinks hemit
  obtain ⟨haudits, horder⟩ := h.audits_applyAuditEvent row
  refine h.emit hatt hstream hrevision hdisclosure rfl ?_ ?_ ?_ haudits horder ?_
  · intro kind
    cases kind <;> rfl
  · change (v.applyAuditEvent row).maxAuditEvents = _
    rw [applyAuditEvent, hobs]
  · change (v.applyAuditEvent row).maxResourceSamples = _
    rw [applyAuditEvent, hobs]
  · change (v.applyAuditEvent row).resourceSamples.map _ = _
    rw [applyAuditEvent, hobs]
    simpa [sampleOf] using h.samples

end

omit [External] in
/-- What publishing a sample does. -/
theorem emitResourceSample_effect [ViewSink σ] (hattached : v.Attached) (row : ResourceSampleRow) :
    let v' := (exec (View.emitResourceSample row) v).2
    v'.Attached ∧ v'.stream =
        v.stream ++ [.resourceSampleInserted (Bridge.Projection.resourceSample row)] ∧
      v'.revision = v.revision ∧ v'.mutationDisclosure = v.mutationDisclosure := by
  obtain ⟨e, he, hsinks⟩ := hattached
  obtain ⟨start, stop, hobs⟩ := v.observe_eq (some row.timestampMs)
  have hmutations : (v.applyResourceSample row).mutations = v.mutations := by
    rw [applyResourceSample, hobs]
  have hemit : (exec (View.emitResourceSample row) v).2.mutations = some (e.emit .insert
      (.resourceSampleInserted (Bridge.Projection.resourceSample row)) (some row.timestampMs)
      .epochMilliseconds) := by
    change ((v.applyResourceSample row).mutations).map _ = _
    rw [hmutations, he]
    rfl
  exact emit_effect he hsinks hemit

section

variable (h : Agrees maxAuditEvents maxResourceSamples disclosure v)
include h

theorem emitResourceSample [ViewSink σ] (row : ResourceSampleRow) :
    Agrees maxAuditEvents maxResourceSamples disclosure
      (exec (View.emitResourceSample row) v).2 := by
  obtain ⟨start, stop, hobs⟩ := v.observe_eq (some row.timestampMs)
  obtain ⟨hatt, hstream, hrevision, hdisclosure⟩ := emitResourceSample_effect h.attached row
  refine h.emit hatt hstream hrevision hdisclosure rfl ?_ ?_ ?_ ?_ ?_ ?_
  · intro kind
    cases kind <;> rfl
  · change (v.applyResourceSample row).maxAuditEvents = _
    rw [applyResourceSample, hobs]
  · change (v.applyResourceSample row).maxResourceSamples = _
    rw [applyResourceSample, hobs]
  · exact h.audits
  · exact h.order
  · have hnewest : (v.applyResourceSample row).resourceSamples =
        newest maxResourceSamples (v.resourceSamples ++ [row]) := by
      rw [applyResourceSample, hobs, ← h.maxResourceSamples_eq]
      split <;> next hmax => rw [hmax]; rfl
    change (v.applyResourceSample row).resourceSamples.map _ = _
    rw [hnewest, Retention.map_newest, map_append, h.samples]
    exact Retention.newest_newest_append

/-! ### Every operation -/

/-- A notice without a row. -/
theorem notice {m : ViewMutation}
    (hm : rowChange m = none) (haudit : auditChange v.replica.audits m = v.replica.audits)
    (hsample : sampleOf m = none) (operation : Bridge.MutationOperation) (wall : Option ℕ)
    (basis : Bridge.TimestampBasis) :
    Agrees maxAuditEvents maxResourceSamples disclosure
      (v.mutate (·.emit operation m wall basis)) := by
  obtain ⟨e, he, hsinks⟩ := h.attached
  have hemit : (v.mutate (·.emit operation m wall basis)).mutations =
      some (e.emit operation m wall basis) := by
    rw [mutate, he, Option.map_some]
  obtain ⟨hatt, hstream, hrevision, hdisclosure⟩ := emit_effect he hsinks hemit
  refine h.emit hatt hstream hrevision hdisclosure hm (fun kind => by cases kind <;> rfl) rfl rfl
    ?_ ?_ ?_
  · rw [haudit]
    exact h.audits
  · rw [haudit]
    exact h.order
  · rw [hsample, Option.toList_none, append_nil]
    exact h.samples

/-- Another identity, with the same sink first and the same disclosure. -/
theorem reconfigure
    {e e' : MutationEmitter} (he : v.mutations = some e)
    (hsinks : ∃ others, e'.sinks = e.sinks ++ others) (hrevisions : e'.revisions = e.revisions)
    (hdisclosure : e'.disclosure = e.disclosure) :
    Agrees maxAuditEvents maxResourceSamples disclosure { v with mutations := some e' } := by
  obtain ⟨others, hothers⟩ := hsinks
  obtain ⟨e₀, he₀, hne⟩ := h.attached
  obtain rfl := Option.some.inj (he.symm.trans he₀)
  have hstream : MaterializedView.stream { v with mutations := some e' } = v.stream := by
    simp [stream, he, hothers, head?_append, head?_eq_some_head hne]
  have hreplica : MaterializedView.replica { v with mutations := some e' } = v.replica := by
    rw [replica, hstream]
    rfl
  have hrevision : MaterializedView.revision { v with mutations := some e' } = v.revision := by
    funext rowKind rowId
    simp [revision, MutationEmitter.revisionOf, he, hrevisions]
  have hdisc : MaterializedView.mutationDisclosure { v with mutations := some e' } =
      v.mutationDisclosure := by
    simp [mutationDisclosure, he, hdisclosure]
  refine ⟨⟨e', rfl, by simp [hothers, hne]⟩, hdisc.trans h.disclosure_eq, h.maxAuditEvents_eq,
    h.maxResourceSamples_eq,
    fun kind k row hrow => h.filed kind k row (by cases kind <;> exact hrow),
    ?_, hreplica ▸ h.kinds, hreplica ▸ h.audits, hreplica ▸ h.order, hreplica ▸ h.samples⟩
  intro kind hd id m
  rw [hreplica, hrevision, hdisc]
  cases kind <;> exact h.mirrors _ hd id m

end

variable [ViewSink σ]

omit [ViewSink σ] in
theorem emitted (h : Agrees maxAuditEvents maxResourceSamples disclosure v) {kind : RowKind}
    {k : String} {row : kind.RowOf} (he : kind.Emitted v v' k row) :
    Agrees maxAuditEvents maxResourceSamples disclosure v' :=
  h.upsert (he.upserts h.attached) (he.filed h.filed)

theorem emissions : AllEmissions fun _ (m : ViewM σ _) =>
    Maintains (Agrees maxAuditEvents maxResourceSamples disclosure) m where
  pure := Maintains.pure
  bind := Maintains.bind
  tokenUsage row _ h := h.emitted (emitted_emitTokenUsage h.filed row)
  auditEvent row _ h := h.emitAuditEvent row
  processNode row _ h := h.emitted (emitted_emitProcessNode h.filed row)
  toolCall row _ h := h.emitted (emitted_emitToolCall h.filed row)
  networkTarget row _ h := h.emitted (emitted_emitNetworkTarget h.filed row)
  resourceSample row _ h := h.emitResourceSample row
  llmCall row _ h := h.emitted (emitted_emitLlmCall h.filed row)
  processes hf v h := by
    obtain ⟨activeProcesses, hv⟩ := hf v
    rw [exec_transact, hv]
    exact h.frame v.source v.sinks v.pending activeProcesses v.nextSeq
  bookkeeping hf v h := by
    obtain ⟨pending, nextSeq, hv⟩ := hf v
    rw [exec_transact, hv]
    exact h.frame v.source v.sinks pending v.activeProcesses nextSeq

/-- **One operation.** -/
theorem run (h : Agrees maxAuditEvents maxResourceSamples disclosure v) {op : Mutator σ}
    (hop : op.Publishes disclosure) :
    Agrees maxAuditEvents maxResourceSamples disclosure (op.run v) := by
  obtain ⟨e, he, hsinks⟩ := h.attached
  have hdisclosure : e.disclosure = disclosure := by
    rw [← h.disclosure_eq]
    simp [mutationDisclosure, he]
  -- every operation is a row emission, a notice, or leaves the rows alone
  cases op with
  | setSource source => exact h.frame source v.sinks v.pending v.activeProcesses v.nextSeq
  | addSink sink =>
    exact h.frame v.source (v.sinks ++ [sink]) v.pending v.activeProcesses v.nextSeq
  | addMutationSink version =>
    have hadd : v.addMutationSink version = { v with mutations := some e.addSink } := by
      rw [addMutationSink, he]
      rfl
    rw [Mutator.run, hadd]
    exact h.reconfigure he ⟨_, rfl⟩ rfl rfl
  | configureMutations config =>
    have hset : v.configureMutations config =
        { v with mutations := some (e.setConfig config) } := by
      rw [configureMutations, he]
    rw [Mutator.run, hset]
    exact h.reconfigure he ⟨[], (append_nil _).symm⟩ rfl (Eq.trans hop hdisclosure.symm)
  | emitLlmCall row => exact h.emitted (emitted_emitLlmCall h.filed row)
  | emitTokenUsage row => exact h.emitted (emitted_emitTokenUsage h.filed row)
  | emitAuditEvent row => exact h.emitAuditEvent row
  | emitProcessNode row => exact h.emitted (emitted_emitProcessNode h.filed row)
  | emitToolCall row => exact h.emitted (emitted_emitToolCall h.filed row)
  | emitNetworkTarget row => exact h.emitted (emitted_emitNetworkTarget h.filed row)
  | emitResourceSample row => exact h.emitResourceSample row
  | emitSession row => exact h.emitted (emitted_emitSession h.filed row)
  | noticeCapability capability available detail => exact h.notice rfl rfl rfl _ _ _
  | noticeGap fromSequence toSequence reason => exact h.notice rfl rfl rfl _ _ _
  | ingestEvent event => exact emissions.ingestEvent event v h
  | _ => exact hop.elim

/-- Every run of operations that publish. -/
theorem after (h : Agrees maxAuditEvents maxResourceSamples disclosure v)
    {run : List (Mutator σ)} (hrun : ∀ op ∈ run, op.Publishes disclosure) :
    Agrees maxAuditEvents maxResourceSamples disclosure (v.after run) := by
  induction run generalizing v with
  | nil => exact h
  | cons op run ih =>
    exact ih (h.run (hrun op mem_cons_self)) fun op' hop' =>
      hrun op' (mem_cons_of_mem _ hop')

omit [ViewSink σ] in
/-- **A snapshot of a view that agrees with its replica.** -/
theorem snapshot (h : Agrees maxAuditEvents maxResourceSamples disclosure v)
    (hdistinct : RowKind.networkTarget.Distinct v) :
    let snapshot := Replica.replay (v.bridgeSnapshotMutations v.mutationDisclosure)
    v.replica.rows = snapshot.rows ∧
      snapshot.audits.Perm (keep (·.rowId) maxAuditEvents v.replica.audits) ∧
      snapshot.samples = newest maxResourceSamples v.replica.samples := by
  have hmirrors (kind : RowKind) : kind.Mirrors v :=
    h.mirrors kind (RowKind.Filed.distinct h.filed hdistinct kind)
  refine ⟨?_, ?_, ?_⟩
  · -- what a snapshot changes at a key is what the replica has there
    have hchange key o :
        (key, o) ∈ (v.bridgeSnapshotMutations v.mutationDisclosure).filterMap rowChange ↔
          ∃ m, o = some m ∧ v.replica.rows key = some m := by
      rw [RowKind.mem_snapshot_changes]
      constructor
      · rintro ⟨kind, k, row, hrow, ⟨⟩⟩
        exact ⟨_, rfl, (hmirrors kind _ _).mpr ⟨k, row, hrow, rfl, rfl⟩⟩
      · rintro ⟨m, rfl, hm⟩
        obtain ⟨kind, hkind⟩ := h.kinds key m hm
        obtain ⟨name, id⟩ := key
        obtain rfl := hkind
        obtain ⟨k, row, hrow, rfl, rfl⟩ := (hmirrors kind id m).mp hm
        exact ⟨kind, k, row, hrow, rfl⟩
    funext key
    refine Option.ext fun m => ?_
    rw [Replica.replay_rows, ChangeLog.replay_empty_eq_some_iff, hchange]
    · simp
    · intro key o o' ho ho'
      obtain ⟨m, rfl, hm⟩ := (hchange key o).mp ho
      obtain ⟨m', rfl, hm'⟩ := (hchange key o').mp ho'
      rw [← hm, hm']
  · rw [RowKind.snapshot_audits, h.disclosure_eq]
    exact h.audits.perm
  · rw [RowKind.snapshot_samples]
    exact h.samples

end Agrees

/-! ### Convergence -/

section Converges

variable {σ : Type} [ViewSink σ] [External]

/-- **Replica convergence.** In every run of the operations that publish what they store, a
replica attached from the start holds the rows of the six kinds with revisions that a
snapshot reconstructs. Rows that are only inserted are never announced to leave: of them the
snapshot has what the view's retention keeps of the replica's. -/
theorem replica_converges (sinks : List σ) (config : MutationEmitterConfig)
    (maxAuditEvents maxResourceSamples : Option ℕ) (run : List (Mutator σ))
    (hrun : ∀ op ∈ run, op.Publishes config.disclosure)
    (hdistinct : RowKind.networkTarget.Distinct
      ((MaterializedView.attached sinks config maxAuditEvents maxResourceSamples).after run)) :
    let v := (MaterializedView.attached sinks config maxAuditEvents maxResourceSamples).after run
    let snapshot := Replica.replay (v.bridgeSnapshotMutations v.mutationDisclosure)
    v.replica.rows = snapshot.rows ∧
      snapshot.audits.Perm (keep (·.rowId) maxAuditEvents v.replica.audits) ∧
      snapshot.samples = newest maxResourceSamples v.replica.samples :=
  ((Agrees.start sinks config maxAuditEvents maxResourceSamples).after hrun).snapshot hdistinct

end Converges

/-! ### Two targets, and five runs that part -/

section Example

/-- A request of process 7 to a path of a host, at a time. -/
def requestTo (host path : String) (timestampMs : ℕ) : NetworkTargetRow where
  pid := some 7
  comm := none
  host := host
  path := some path
  count := 1
  errorCount := 0
  firstTimestampMs := some timestampMs
  lastTimestampMs := some timestampMs

/-- The text `serde_json` writes for a target of process 7. -/
def targetJson (row : NetworkTargetRow) : String :=
  "\x7b\"pid\":7,\"comm\":null,\"host\":\"" ++ row.host ++ "\",\"path\":\"" ++ row.path.getD "" ++
    "\",\"count\":" ++ toString row.count ++ ",\"error_count\":0,\"first_timestamp_ms\":" ++
    toString (row.firstTimestampMs.getD 0) ++ ",\"last_timestamp_ms\":" ++
    toString (row.lastTimestampMs.getD 0) ++ "\x7d"

def anthropicTarget (timestampMs : ℕ) : NetworkTargetRow :=
  requestTo "api.anthropic.com" "/v1/messages" timestampMs

def openaiTarget : NetworkTargetRow := requestTo "api.openai.com" "/v1/responses" 1000

/-- The digests of what a run over the two targets hashes. -/
def targetDigests : List (String × String) :=
  [(targetJson (anthropicTarget 1000),
      "79eee6e1c1924978b2f6af931b86d5d865e7bae79f9eb3d8f8d2328035fabdd0"),
    (targetJson { anthropicTarget 1000 with count := 2, lastTimestampMs := some 2000 },
      "29bfab286b7dea3266461e4b316eb32d0aaf8901c6c11659ba2b19aaa7df1e72"),
    (targetJson openaiTarget,
      "10e95c0fcf83212c87477e50673e4b1e17a809a82acd5aaec971d7c50950f30a"),
    ("7\x00api.anthropic.com\x00/v1/messages",
      "a7662bc8b49c98dc9d22603e274d191e92995f85934c8b29165bfaa5296f1938"),
    ("7\x00api.openai.com\x00/v1/responses",
      "f506c0a533a75e791f7af7452e88c4886f28025302b5b9379cedf3f8b8817b99"),
    ("api.anthropic.com/v1/messages",
      "1c48d161c872d382af5a7f8486783135d284d92d7b54211a8954bdd81806cce5"),
    ("api.openai.com/v1/responses",
      "3fcd526d84fee198e1cfac4f0b98027f6332e4a65794d07575ab5de8f8a2cd37")]

/-- The outside world of a run over the two targets. -/
@[reducible] def twoTargets : External where
  fromStr _ := none
  valueToString _ := ""
  toVec
    | .networkTarget row => targetJson row
    | _ => ""
  sha256Hex text := (targetDigests.lookup text).getD
    "e3b0c44298fc1c149afbf4c8996fb92427ae41e4649b934ca495991b7852b855"
  parseF64 _ := none

local instance instTwoTargets : External := twoTargets

/-- An empty bounded view with a replica. -/
def boundedReplicated : MaterializedView NullSink :=
  .attached [.null] (.default "1.0.20") (some maxAuditEventsInMemory)
    (some maxResourceSamplesInMemory)

/-- An audit row, with its status. -/
def auditOf (status : String) : AuditEventRow :=
  { (default : AuditEventRow) with id := "audit-1", status := some status }

/-- Two targets, one of them met twice, and two audit rows of one id. -/
def mergingRun : List (Mutator NullSink) :=
  [.emitNetworkTarget (anthropicTarget 1000), .emitNetworkTarget openaiTarget,
    .emitNetworkTarget (anthropicTarget 2000), .emitAuditEvent (auditOf "running"),
    .emitAuditEvent (auditOf "complete")]

theorem replica_converges_of_two_targets :
    let v := boundedReplicated.after mergingRun
    let snapshot := Replica.replay (v.bridgeSnapshotMutations v.mutationDisclosure)
    v.replica.rows = snapshot.rows ∧
      snapshot.audits.Perm (keep (·.rowId) (some maxAuditEventsInMemory) v.replica.audits) ∧
      snapshot.samples = newest (some maxResourceSamplesInMemory) v.replica.samples := by
  refine replica_converges _ _ _ _ _ (by simp [mergingRun, Mutator.Publishes]) ?_
  have hpairs : ∀ p ∈ (RowKind.table (boundedReplicated.after mergingRun) .networkTarget).toList,
      ∀ q ∈ (RowKind.table (boundedReplicated.after mergingRun) .networkTarget).toList,
        RowKind.networkTarget.rowId p.2 = RowKind.networkTarget.rowId q.2 → p.1 = q.1 := by
    decide +kernel
  intro k k' row row' hk hk' hid
  exact hpairs (k, row) (TreeMap.mem_toList_iff_getElem?_eq_some.mpr hk)
    (k', row') (TreeMap.mem_toList_iff_getElem?_eq_some.mpr hk') hid

/-- A row of the call table. -/
def storedCall : LlmCallRow := { (default : LlmCallRow) with id := "llm-1" }

/-- A row of the tool table, with an input. -/
def storedTool : ToolCallRow :=
  { (default : ToolCallRow) with id := "tool-1", input := .string "ls" }

theorem samples_after_replicate {v : MaterializedView NullSink} (h : v.Attached) (n : ℕ)
    (row : ResourceSampleRow) :
    (v.after (List.replicate n (.emitResourceSample row))).replica.samples.length =
      v.replica.samples.length + n := by
  induction n generalizing v with
  | zero => rfl
  | succ n ih =>
    obtain ⟨hattached, hstream, -, -⟩ := Agrees.emitResourceSample_effect h row
    have hlength : (exec (emitResourceSample row) v).2.replica.samples.length =
        v.replica.samples.length + 1 := by
      rw [replica, hstream, Replica.replay_concat]
      simp [Replica.apply, sampleOf, replica]
    refine (ih hattached).trans ?_
    omega

/-- Five runs after which replica and snapshot differ: a row stored without being published,
one announced to leave that stays, one published before the disclosure mode was changed, a
second audit row with an id that is stored once, and one resource sample more than a bounded
view retains. -/
theorem replica_diverges : (let v := boundedReplicated.after [.applyLlmCall storedCall]
      let snapshot := Replica.replay (v.bridgeSnapshotMutations v.mutationDisclosure)
      (v.replica.rows ("llm_call", "llm-1")).isNone ∧
        (snapshot.rows ("llm_call", "llm-1")).isSome) ∧
    (let v := boundedReplicated.after
        [.emitLlmCall storedCall, .noticeRowEvicted "llm_call" "llm-1"]
      let snapshot := Replica.replay (v.bridgeSnapshotMutations v.mutationDisclosure)
      (v.replica.rows ("llm_call", "llm-1")).isNone ∧
        (snapshot.rows ("llm_call", "llm-1")).isSome) ∧
    (let v := boundedReplicated.after [.emitToolCall storedTool,
        .configureMutations { (MutationEmitterConfig.default "1.0.20") with
          disclosure := .researchFull }]
      let snapshot := Replica.replay (v.bridgeSnapshotMutations v.mutationDisclosure)
      v.replica.rows ("tool_call", "tool-1") ≠ snapshot.rows ("tool_call", "tool-1")) ∧
    (let v := boundedReplicated.after
        [.emitAuditEvent (auditOf "running"), .emitAuditEvent (auditOf "complete")]
      let snapshot := Replica.replay (v.bridgeSnapshotMutations v.mutationDisclosure)
      v.replica.audits.length = 2 ∧ snapshot.audits.length = 1) ∧
    (let v := boundedReplicated.after
        (List.replicate (maxResourceSamplesInMemory + 1) (.emitResourceSample default))
      let snapshot := Replica.replay (v.bridgeSnapshotMutations v.mutationDisclosure)
      v.replica.samples.length = maxResourceSamplesInMemory + 1 ∧
        snapshot.samples.length ≤ maxResourceSamplesInMemory) := by
  have hstart : Agrees (some maxAuditEventsInMemory) (some maxResourceSamplesInMemory)
      .metadataOnly boundedReplicated := Agrees.start [NullSink.null] (.default "1.0.20") _ _
  refine ⟨by decide +kernel, by decide +kernel, by decide +kernel, by decide +kernel, ?_, ?_⟩
  · refine (samples_after_replicate hstart.attached _ _).trans ?_
    exact Nat.zero_add _
  · have hpublishes : ∀ op ∈ List.replicate (maxResourceSamplesInMemory + 1)
        (.emitResourceSample default : Mutator NullSink), op.Publishes .metadataOnly := by
      intro op hop
      rw [eq_of_mem_replicate hop]
      trivial
    rw [RowKind.snapshot_samples, (hstart.after hpublishes).samples]
    exact Retention.length_newest_le

end Example

end AgentSight.View
