import AgentSight.Lib.ChangeLog
import AgentSight.View.Emissions

/-!
# Replicas of a view

A replica applies the mutations its sink receives, in order: it upserts rows by kind and id,
appends audit rows and resource samples, and drops the row an eviction names. A snapshot is
read the same way, from an empty replica. The six kinds whose rows carry a revision agree
with the view after every run of `ingest_event` and the `emit_*` mutators; the two
insert-only kinds agree on what the view still retains.
-/

namespace AgentSight.View

open Bridge (BridgeAuditEventRow BridgeResourceSampleRow DisclosureMode MutationEmitter
  MutationEmitterConfig MutationOperation TimestampBasis ViewMutation ViewMutationEnvelope)
open Effectful MaterializedView

/-! ### Replicas -/

/-- A row kind and a row id. -/
abbrev RowKey := String × String

structure Replica where
  rows : RowKey → Option ViewMutation
  audits : List BridgeAuditEventRow
  samples : List BridgeResourceSampleRow

/-- What a mutation changes among the rows that are upserted by kind and id. -/
def rowChange : ViewMutation → Option (ChangeLog.Change RowKey ViewMutation)
  | .rowEvicted rowKind rowId => some ((rowKind, rowId), none)
  | .auditEventInserted _ | .resourceSampleInserted _ | .captureCapabilityChanged ..
  | .captureGapObserved .. => none
  | m => m.rowId?.map fun rowId => ((m.rowKind, rowId), some m)

/-- The audit rows after a mutation. -/
def auditChange (audits : List BridgeAuditEventRow) : ViewMutation → List BridgeAuditEventRow
  | .auditEventInserted row => audits ++ [row]
  | .rowEvicted rowKind rowId =>
    if rowKind = "audit_event" then audits.filter (·.rowId != rowId) else audits
  | _ => audits

/-- The audit row a mutation inserts, if any. -/
def insertedAudit : ViewMutation → Option BridgeAuditEventRow
  | .auditEventInserted row => some row
  | _ => none

/-- The sample a mutation appends, if any. -/
def sampleOf : ViewMutation → Option BridgeResourceSampleRow
  | .resourceSampleInserted row => some row
  | _ => none

namespace Replica

def empty : Replica where
  rows := fun _ => none
  audits := []
  samples := []

def apply (r : Replica) (m : ViewMutation) : Replica where
  rows := ChangeLog.replay r.rows (rowChange m).toList
  audits := auditChange r.audits m
  samples := r.samples ++ (sampleOf m).toList

/-- The replica that has applied these mutations, from the first to the last. -/
def replay (mutations : List ViewMutation) : Replica := mutations.foldl apply empty

variable (mutations : List ViewMutation)

theorem replay_concat (m : ViewMutation) :
    replay (mutations ++ [m]) = (replay mutations).apply m := by
  simp [replay]

theorem foldl_rows (r : Replica) :
    (mutations.foldl apply r).rows = ChangeLog.replay r.rows (mutations.filterMap rowChange) := by
  induction mutations generalizing r with
  | nil => rfl
  | cons m mutations ih =>
    rw [List.foldl_cons, ih]
    rcases hm : rowChange m with _ | c <;> simp [apply, hm, ChangeLog.replay]

theorem replay_rows : (replay mutations).rows =
      ChangeLog.replay (fun _ => none) (mutations.filterMap rowChange) := foldl_rows _ _

/-- Without evictions, the audit rows are the inserted ones. -/
theorem replay_audits {mutations : List ViewMutation}
    (h : ∀ rowKind rowId, .rowEvicted rowKind rowId ∉ mutations) :
    (replay mutations).audits = mutations.filterMap insertedAudit := by
  induction mutations using List.reverseRecOn with
  | nil => rfl
  | append_singleton mutations m ih =>
    have hm rowKind rowId : m ≠ .rowEvicted rowKind rowId := by
      rintro rfl
      exact h rowKind rowId (by simp)
    have hlast audits : auditChange audits m = audits ++ (insertedAudit m).toList := by
      cases m <;> first | exact absurd rfl (hm _ _) | simp [auditChange, insertedAudit]
    have hrest := ih fun rowKind rowId hmem => h rowKind rowId (List.mem_append_left _ hmem)
    rw [replay_concat, List.filterMap_append, ← hrest]
    refine (hlast _).trans (congrArg _ ?_)
    rcases hm : insertedAudit m with _ | row <;> simp [hm]

theorem replay_samples :
    (replay mutations).samples = mutations.filterMap sampleOf := by
  have hfold r : (mutations.foldl apply r).samples = r.samples ++ mutations.filterMap sampleOf := by
    induction mutations generalizing r with
    | nil => simp
    | cons m mutations ih =>
      rw [List.foldl_cons, ih]
      rcases hm : sampleOf m <;> simp [apply, hm]
  exact (hfold empty).trans (List.nil_append _)

end Replica

/-! ### The mutation stream of a view -/

section Stream

variable {σ : Type}

/-- The mutations the first mutation sink of a view has received, in order. -/
def MaterializedView.stream (v : MaterializedView σ) : List ViewMutation :=
  ((v.mutations.bind (·.sinks.head?)).getD []).map (·.mutation)

/-- The replica behind the first mutation sink. -/
def MaterializedView.replica (v : MaterializedView σ) : Replica := Replica.replay v.stream

/-- The revision a snapshot gives a row. -/
def MaterializedView.revision (v : MaterializedView σ) (rowKind rowId : String) : ℕ :=
  (v.mutations.bind (·.revisionOf rowKind rowId)).getD 0

/-- Some sink receives the mutations. -/
def MaterializedView.Attached (v : MaterializedView σ) : Prop :=
  ∃ e, v.mutations = some e ∧ e.sinks ≠ []

/-- A view with one mutation sink and an emitter of this configuration, before any event. -/
def MaterializedView.attached (sinks : List σ) (config : MutationEmitterConfig)
    (maxAuditEvents maxResourceSamples : Option ℕ) : MaterializedView σ :=
  { MaterializedView.new sinks with
    maxAuditEvents
    maxResourceSamples
    mutations := some (MutationEmitter.new config).addSink }

end Stream

/-- What publishing one mutation does, whichever emission it comes from. -/
theorem emit_effect {σ : Type} {v v' : MaterializedView σ} {e : MutationEmitter}
    (he : v.mutations = some e) (hsinks : e.sinks ≠ []) {operation : MutationOperation}
    {m : ViewMutation} {wall : Option ℕ} {basis : TimestampBasis}
    (he' : v'.mutations = some (e.emit operation m wall basis)) :
    v'.Attached ∧ v'.stream = v.stream ++ [m] ∧ v'.revision = v.revision ∧
      v'.mutationDisclosure = v.mutationDisclosure := by
  rcases hlogs : e.sinks with _ | ⟨log, logs⟩
  · exact absurd hlogs hsinks
  · refine ⟨⟨_, he', by simp [MutationEmitter.emit, hlogs]⟩, ?_, ?_, ?_⟩
    · simp [stream, he, he', MutationEmitter.emit, hlogs, MutationEmitter.envelope]
    · funext rowKind rowId
      simp [revision, he, he', MutationEmitter.emit, hlogs,
        MutationEmitter.revisionOf]
    · simp [mutationDisclosure, he, he', MutationEmitter.emit, hlogs,
        MutationEmitter.disclosure]

/-- What an emission that tracks a revision does: one mutation, projected at the row's
revision from then on. -/
theorem upsert_effect [External] {σ : Type} {v v' : MaterializedView σ} {e : MutationEmitter}
    (he : v.mutations = some e) (hsinks : e.sinks ≠ []) {rowKind rowId : String} {row : Row}
    {project : ℕ → ViewMutation} {wall : Option ℕ} {basis : TimestampBasis}
    (he' : v'.mutations = some (e.upsert rowKind rowId row project wall basis)) :
    v'.Attached ∧ v'.stream = v.stream ++ [project (v'.revision rowKind rowId)] ∧
      (∀ rowKind' rowId', (rowKind', rowId') ≠ (rowKind, rowId) →
        v'.revision rowKind' rowId' = v.revision rowKind' rowId') ∧
      v'.mutationDisclosure = v.mutationDisclosure := by
  have hne : e.sinks.isEmpty = false := by simpa using hsinks
  -- Deciding the revision touches only the revision of this row.
  have hdecide : ∀ decision e₁, e.decide rowKind rowId (MutationEmitter.hashRow row) =
      (decision, e₁) → e₁.sinks = e.sinks ∧ e₁.config = e.config ∧
        e₁.revisionOf rowKind rowId = some decision.revision ∧
        ∀ key, key ≠ (rowKind, rowId) → e₁.revisions key = e.revisions key := by
    intro decision e₁ h
    unfold MutationEmitter.decide at h
    dsimp only at h
    split at h
    · cases h
      exact ⟨rfl, rfl, by simp [MutationEmitter.revisionOf],
        fun key hkey => Function.update_of_ne hkey _ _⟩
    · next state hstate =>
      split at h
      · cases h
        exact ⟨rfl, rfl, by simp [MutationEmitter.revisionOf, hstate], fun _ _ => rfl⟩
      · cases h
        exact ⟨rfl, rfl, by simp [MutationEmitter.revisionOf],
          fun key hkey => Function.update_of_ne hkey _ _⟩
  rcases hd : e.decide rowKind rowId (MutationEmitter.hashRow row) with ⟨decision, e₁⟩
  obtain ⟨hs, hconfig, hrev, hother⟩ := hdecide decision e₁ hd
  have he'' : v'.mutations =
      some (e₁.emit decision.operation (project decision.revision) wall basis) := by
    rw [he', MutationEmitter.upsert, hne]
    simp only [hd]
    rfl
  have hsinks₁ : e₁.sinks ≠ [] := hs ▸ hsinks
  -- The emission proper starts from a view with the decided revision.
  obtain ⟨hatt, hstream, hrevision, hdisc⟩ :=
    emit_effect (v := { v with mutations := some e₁ }) rfl hsinks₁ he''
  have hrev' : v'.revision rowKind rowId = decision.revision := by
    rw [hrevision]
    simp [revision, hrev]
  refine ⟨hatt, ?_, ?_, ?_⟩
  · rw [hrev', hstream]
    simp [stream, he, hs]
  · intro rowKind' rowId' hkey
    rw [hrevision]
    simp [revision, MutationEmitter.revisionOf, he, hother _ hkey]
  · rw [hdisc]
    simp [mutationDisclosure, MutationEmitter.disclosure, he, hconfig]

end AgentSight.View
