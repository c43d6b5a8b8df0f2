import AgentSight.Lib.Retention
import AgentSight.View.Replica

/-!
# The kinds of rows a revision is tracked for

Six of the eight kinds of rows are stored, merged, published and put in a snapshot the same
way. `RowKind` names them, with the table each is stored in and the mutation each is
published as, so that what an emission does to a view and to its replica is said once.
-/

namespace AgentSight.View

open Bridge (BridgeAuditEventRow DisclosureMode MutationEmitter MutationOperation TimestampBasis
  ViewMutation)
open Retention (Holds keep newest)
open Std (TreeMap)
open List

/-- The rows that are only ever inserted, and how many of them a view keeps. -/
structure InsertOnly where
  auditEvents : TreeMap String AuditEventRow
  auditOrder : List String
  maxAuditEvents : Option ℕ
  resourceSamples : List ResourceSampleRow
  maxResourceSamples : Option ℕ

def MaterializedView.insertOnly {σ : Type} (v : MaterializedView σ) : InsertOnly where
  auditEvents := v.auditEvents
  auditOrder := v.auditOrder
  maxAuditEvents := v.maxAuditEvents
  resourceSamples := v.resourceSamples
  maxResourceSamples := v.maxResourceSamples

/-- The kinds whose rows carry a revision. -/
inductive RowKind where
  | session
  | llmCall
  | tokenUsage
  | toolCall
  | processNode
  | networkTarget
  deriving DecidableEq

namespace RowKind

def name : RowKind → String
  | session => "session"
  | llmCall => "llm_call"
  | tokenUsage => "token_usage"
  | toolCall => "tool_call"
  | processNode => "process_node"
  | networkTarget => "network_target"

theorem name_injective : Function.Injective name := by
  intro kind kind' h
  cases kind <;> cases kind' <;> first | rfl | exact absurd h (by decide)

/-- The rows of a kind. -/
abbrev RowOf : RowKind → Type
  | session => SessionRow
  | llmCall => LlmCallRow
  | tokenUsage => TokenUsageRow
  | toolCall => ToolCallRow
  | processNode => ProcessNodeRow
  | networkTarget => NetworkTargetRow

/-- The row, as one of the eight kinds. -/
def toRow : (kind : RowKind) → kind.RowOf → Row
  | session, row => .session row
  | llmCall, row => .llmCall row
  | tokenUsage, row => .tokenUsage row
  | toolCall, row => .toolCall row
  | processNode, row => .processNode row
  | networkTarget, row => .networkTarget row

variable {kind : RowKind} {k : String}

section Tables

variable {σ : Type}

def table (v : MaterializedView σ) : (kind : RowKind) → TreeMap String kind.RowOf
  | session => v.sessions
  | llmCall => v.llmCalls
  | tokenUsage => v.tokenUsage
  | toolCall => v.toolCalls
  | processNode => v.processNodes
  | networkTarget => v.networkTargets

def setTable (v : MaterializedView σ) : (kind : RowKind) → TreeMap String kind.RowOf →
    MaterializedView σ
  | session, rows => { v with sessions := rows }
  | llmCall, rows => { v with llmCalls := rows }
  | tokenUsage, rows => { v with tokenUsage := rows }
  | toolCall, rows => { v with toolCalls := rows }
  | processNode, rows => { v with processNodes := rows }
  | networkTarget, rows => { v with networkTargets := rows }

theorem table_setTable_of_ne (v : MaterializedView σ) {kind' : RowKind} (h : kind' ≠ kind)
    (rows : TreeMap String kind.RowOf) : kind'.table (kind.setTable v rows) = kind'.table v := by
  cases kind <;> cases kind' <;> first | rfl | exact absurd rfl h

/-- The row is stored, with what that does to the statistics of the view. -/
def Stores (kind : RowKind) (v stored : MaterializedView σ) (k : String) (row : kind.RowOf) :
    Prop :=
  ∃ counts start stop, stored = { kind.setTable v ((kind.table v).insert k row) with
    counts, startTimestampMs := start, endTimestampMs := stop }

theorem Stores.getElem? {v stored : MaterializedView σ}
    {row : kind.RowOf} (h : kind.Stores v stored k row) : (kind.table stored)[k]? = some row := by
  obtain ⟨counts, start, stop, rfl⟩ := h
  have hself : ((kind.table v).insert k row)[k]? = some row := TreeMap.getElem?_insert_self
  cases kind <;> exact hself

end Tables

/-- The key a row is stored under. -/
def key [External] : (kind : RowKind) → kind.RowOf → String
  | session, row => row.id
  | llmCall, row => row.id
  | tokenUsage, row => row.id
  | toolCall, row => row.id
  | processNode, row => row.id
  | networkTarget, row => networkTargetKey row

section Rows

variable [External]

/-- The id a row is published under. -/
def rowId : (kind : RowKind) → kind.RowOf → String
  | session, row => row.id
  | llmCall, row => row.id
  | tokenUsage, row => row.id
  | toolCall, row => row.id
  | processNode, row => row.id
  | networkTarget, row => Bridge.Projection.networkTargetRowId row

def project : (kind : RowKind) → kind.RowOf → ℕ → DisclosureMode → ViewMutation
  | session, row, revision, disclosure =>
    .sessionUpsert (Bridge.Projection.session row revision disclosure)
  | llmCall, row, revision, disclosure =>
    .llmCallUpsert (Bridge.Projection.llmCall row revision disclosure)
  | tokenUsage, row, revision, _ =>
    .tokenUsageUpsert (Bridge.Projection.tokenUsage row revision)
  | toolCall, row, revision, disclosure =>
    .toolCallUpsert (Bridge.Projection.toolCall row revision disclosure)
  | processNode, row, revision, disclosure =>
    .processNodeUpsert (Bridge.Projection.processNode row revision disclosure)
  | networkTarget, row, revision, disclosure =>
    .networkTargetUpsert (Bridge.Projection.networkTarget row revision disclosure)

/-- The emission of a row of the kind. -/
def emit : (kind : RowKind) → kind.RowOf → MutationEmitter → MutationEmitter
  | session, row, e => e.session row
  | llmCall, row, e => e.llmCall row
  | tokenUsage, row, e => e.tokenUsage row
  | toolCall, row, e => e.toolCall row
  | processNode, row, e => e.processNode row
  | networkTarget, row, e => e.networkTarget row

theorem emit_eq_upsert (kind : RowKind) (row : kind.RowOf) (e : MutationEmitter) :
    ∃ wall basis, kind.emit row e = e.upsert kind.name (kind.rowId row) (kind.toRow row)
        (fun r => kind.project row r e.disclosure) wall basis := by
  cases kind <;> exact ⟨_, _, rfl⟩

theorem rowChange_project (kind : RowKind) (row : kind.RowOf) (r : ℕ) (d : DisclosureMode) :
    rowChange (kind.project row r d) =
      some ((kind.name, kind.rowId row), some (kind.project row r d)) := by
  cases kind <;> rfl

theorem auditChange_project (audits : List BridgeAuditEventRow) (kind : RowKind)
    (row : kind.RowOf) (r : ℕ) (d : DisclosureMode) :
    auditChange audits (kind.project row r d) = audits := by
  cases kind <;> rfl

theorem insertedAudit_project (kind : RowKind) (row : kind.RowOf) (r : ℕ) (d : DisclosureMode) :
    insertedAudit (kind.project row r d) = none := by
  cases kind <;> rfl

theorem sampleOf_project (kind : RowKind) (row : kind.RowOf) (r : ℕ) (d : DisclosureMode) :
    sampleOf (kind.project row r d) = none := by
  cases kind <;> rfl

section View

variable {σ : Type}

/-- The part of a snapshot that has the rows of the kind. -/
def snapshot (kind : RowKind) (v : MaterializedView σ) (disclosure : DisclosureMode) :
    List ViewMutation :=
  (kind.table v).values.map fun row =>
    kind.project row (v.revision kind.name (kind.rowId row)) disclosure

/-- The kinds in the order a snapshot has them. -/
def all : List RowKind := [session, llmCall, tokenUsage, toolCall, processNode, networkTarget]

omit [External] in
theorem mem_all (kind : RowKind) : kind ∈ all := by
  cases kind <;> decide

theorem bridgeSnapshotMutations_eq (v : MaterializedView σ) (disclosure : DisclosureMode) :
    v.bridgeSnapshotMutations disclosure =
      all.flatMap (fun kind => kind.snapshot v disclosure) ++ v.auditEvents.values.map
          (fun row => .auditEventInserted (Bridge.Projection.auditEvent row disclosure)) ++
        v.resourceSamples.map
          (fun row => .resourceSampleInserted (Bridge.Projection.resourceSample row)) := by
  simp only [all, flatMap_cons, flatMap_nil, append_nil,
    MaterializedView.bridgeSnapshotMutations, ← append_assoc]
  rfl

/-- What a snapshot changes of the rows with revisions: it has each of them once. -/
theorem mem_snapshot_changes {v : MaterializedView σ} {disclosure : DisclosureMode}
    {c : ChangeLog.Change RowKey ViewMutation} :
    c ∈ (v.bridgeSnapshotMutations disclosure).filterMap rowChange ↔
      ∃ (kind : RowKind) (k : String) (row : kind.RowOf), (kind.table v)[k]? = some row ∧
        c = ((kind.name, kind.rowId row),
          some (kind.project row (v.revision kind.name (kind.rowId row)) disclosure)) := by
  rw [bridgeSnapshotMutations_eq, mem_filterMap]
  constructor
  · rintro ⟨m, hm, hc⟩
    rcases mem_append.mp hm with hm | hm
    · rcases mem_append.mp hm with hm | hm
      · obtain ⟨kind, -, hm⟩ := mem_flatMap.mp hm
        obtain ⟨row, hrow, rfl⟩ := mem_map.mp hm
        obtain ⟨k, hk⟩ := Retention.mem_values.mp hrow
        rw [rowChange_project] at hc
        exact ⟨kind, k, row, hk, (Option.some.inj hc).symm⟩
      · obtain ⟨row, -, rfl⟩ := mem_map.mp hm
        cases hc
    · obtain ⟨row, -, rfl⟩ := mem_map.mp hm
      cases hc
  · rintro ⟨kind, k, row, hk, rfl⟩
    refine ⟨_, mem_append_left _ (mem_append_left _ (mem_flatMap.mpr
      ⟨kind, kind.mem_all, mem_map.mpr ⟨row, Retention.mem_values.mpr ⟨k, hk⟩, rfl⟩⟩)), ?_⟩
    exact rowChange_project ..

/-- The samples of a snapshot. -/
theorem snapshot_samples (v : MaterializedView σ) (disclosure : DisclosureMode) :
    (Replica.replay (v.bridgeSnapshotMutations disclosure)).samples =
      v.resourceSamples.map Bridge.Projection.resourceSample := by
  have hrows : (all.flatMap fun kind => kind.snapshot v disclosure).filterMap sampleOf = [] := by
    refine filterMap_eq_nil_iff.mpr fun m hm => ?_
    obtain ⟨kind, -, hm⟩ := mem_flatMap.mp hm
    obtain ⟨row, -, rfl⟩ := mem_map.mp hm
    exact sampleOf_project ..
  rw [Replica.replay_samples, bridgeSnapshotMutations_eq, filterMap_append,
    filterMap_append, hrows]
  simp [Function.comp_def, sampleOf]

/-- The audit rows of a snapshot. -/
theorem snapshot_audits (v : MaterializedView σ) (disclosure : DisclosureMode) :
    (Replica.replay (v.bridgeSnapshotMutations disclosure)).audits =
      v.auditEvents.values.map (Bridge.Projection.auditEvent · disclosure) := by
  have hrows : (all.flatMap fun kind => kind.snapshot v disclosure).filterMap insertedAudit =
      [] := by
    refine filterMap_eq_nil_iff.mpr fun m hm => ?_
    obtain ⟨kind, -, hm⟩ := mem_flatMap.mp hm
    obtain ⟨row, -, rfl⟩ := mem_map.mp hm
    exact insertedAudit_project ..
  have hkeep : ∀ rowKind rowId, ViewMutation.rowEvicted rowKind rowId ∉
      v.bridgeSnapshotMutations disclosure := by
    intro rowKind rowId hm
    have hchange := mem_snapshot_changes.mp (mem_filterMap.mpr ⟨_, hm, rfl⟩)
    obtain ⟨kind, k, row, -, hc⟩ := hchange
    exact nomatch congrArg Prod.snd hc
  rw [Replica.replay_audits hkeep, bridgeSnapshotMutations_eq, filterMap_append,
    filterMap_append, hrows]
  simp [Function.comp_def, insertedAudit]

/-- Rows of the kind stored under different keys are published under different ids. -/
def Distinct (kind : RowKind) (v : MaterializedView σ) : Prop :=
  ∀ (k k' : String) (row row' : kind.RowOf), (kind.table v)[k]? = some row →
    (kind.table v)[k']? = some row' → kind.rowId row = kind.rowId row' → k = k'

/-- The replica's rows of the kind are the stored ones, at the revisions of a snapshot. -/
def Mirrors (kind : RowKind) (v : MaterializedView σ) : Prop :=
  ∀ id m, v.replica.rows (kind.name, id) = some m ↔ ∃ (k : String) (row : kind.RowOf),
    (kind.table v)[k]? = some row ∧ kind.rowId row = id ∧
      m = kind.project row (v.revision kind.name id) v.mutationDisclosure

/-- An emission of one row of the kind: what it stores and what it publishes. -/
structure Upserts (kind : RowKind) (v v' : MaterializedView σ) (k : String)
    (row : kind.RowOf) : Prop where
  attached : v'.Attached
  table : kind.table v' = (kind.table v).insert k row
  /-- A row keeps its id when it is merged. -/
  replaced : ∀ old, (kind.table v)[k]? = some old → kind.rowId old = kind.rowId row
  others : ∀ kind' : RowKind, kind' ≠ kind → kind'.table v' = kind'.table v
  stream : v'.stream = v.stream ++
    [kind.project row (v'.revision kind.name (kind.rowId row)) v'.mutationDisclosure]
  revision : ∀ rowKind rowId, (rowKind, rowId) ≠ (kind.name, kind.rowId row) →
    v'.revision rowKind rowId = v.revision rowKind rowId
  disclosure : v'.mutationDisclosure = v.mutationDisclosure
  insertOnly : v'.insertOnly = v.insertOnly

namespace Upserts

variable {kind : RowKind} {v v' : MaterializedView σ} {k : String} {row : kind.RowOf}

section

variable (h : kind.Upserts v v' k row)
include h

theorem replica :
    v'.replica.rows = Function.update v.replica.rows (kind.name, kind.rowId row)
        (some (kind.project row (v'.revision kind.name (kind.rowId row)) v'.mutationDisclosure)) ∧
      v'.replica.audits = v.replica.audits ∧ v'.replica.samples = v.replica.samples := by
  have happly : v'.replica = v.replica.apply
      (kind.project row (v'.revision kind.name (kind.rowId row)) v'.mutationDisclosure) := by
    rw [MaterializedView.replica, h.stream, Replica.replay_concat]
    rfl
  simp [happly, Replica.apply, rowChange_project, auditChange_project, sampleOf_project,
    ChangeLog.replay, ChangeLog.apply]

/-- An earlier row is still there, under the same key and the same id. -/
theorem persists {k' : String} {old : kind.RowOf}
    (hold : (kind.table v)[k']? = some old) :
    ∃ new, (kind.table v')[k']? = some new ∧ kind.rowId new = kind.rowId old := by
  rw [h.table, TreeMap.getElem?_insert]
  split_ifs with heq
  · obtain rfl := Std.LawfulEqCmp.eq_of_compare heq
    exact ⟨row, rfl, (h.replaced old hold).symm⟩
  · exact ⟨old, hold, rfl⟩

/-- Ids that collide once collide from then on. -/
theorem distinct (kind' : RowKind) (hd : kind'.Distinct v') :
    kind'.Distinct v := by
  intro k₁ k₂ row₁ row₂ h₁ h₂ hid
  by_cases hkind : kind' = kind
  · subst hkind
    obtain ⟨new₁, hnew₁, hid₁⟩ := h.persists h₁
    obtain ⟨new₂, hnew₂, hid₂⟩ := h.persists h₂
    exact hd k₁ k₂ new₁ new₂ hnew₁ hnew₂ (by rw [hid₁, hid₂, hid])
  · rw [← h.others kind' hkind] at h₁ h₂
    exact hd k₁ k₂ row₁ row₂ h₁ h₂ hid

/-- **One emission.** The replica's rows of every kind stay those of the view. -/
theorem mirrors (kind' : RowKind) (hd : kind'.Distinct v')
    (hm : kind'.Mirrors v) : kind'.Mirrors v' := by
  intro id m
  rw [h.replica.1]
  by_cases hkind : kind' = kind
  · subst hkind
    by_cases hid : id = kind'.rowId row
    · -- the emitted row: no other row has its id
      subst hid
      rw [Function.update_self]
      constructor
      · rintro ⟨⟩
        exact ⟨k, row, by rw [h.table, TreeMap.getElem?_insert_self], rfl, rfl⟩
      · rintro ⟨k', row', hrow', hid', rfl⟩
        have hself : (kind'.table v')[k]? = some row := by
          rw [h.table, TreeMap.getElem?_insert_self]
        obtain rfl := hd k' k row' row hrow' hself hid'
        rw [Option.some.inj (hrow'.symm.trans hself)]
    · -- any other row is as it was
      have hkey : (kind'.name, id) ≠ (kind'.name, kind'.rowId row) := by simpa using hid
      rw [Function.update_of_ne hkey, hm id m, h.revision _ _ hkey, h.disclosure]
      refine exists_congr fun k' => exists_congr fun row' => and_congr_left fun hrow' => ?_
      have hne : row' ≠ row := by
        rintro rfl
        exact hid hrow'.1.symm
      rw [h.table, TreeMap.getElem?_insert]
      split_ifs with heq
      · obtain rfl := Std.LawfulEqCmp.eq_of_compare heq
        constructor
        · intro hold
          exact absurd (hrow'.1.symm.trans (h.replaced row' hold)) hid
        · intro hnew
          exact absurd (Option.some.inj hnew).symm hne
      · exact Iff.rfl
  · -- a row of another kind has another name
    have hkey : (kind'.name, id) ≠ (kind.name, kind.rowId row) := fun heq =>
      hkind (name_injective (congrArg Prod.fst heq))
    rw [Function.update_of_ne hkey, hm id m, h.revision _ _ hkey, h.disclosure,
      h.others kind' hkind]

end

end Upserts

/-- Every row is stored under its key. -/
def Filed (v : MaterializedView σ) : Prop :=
  ∀ (kind : RowKind) (k : String) (row : kind.RowOf), (kind.table v)[k]? = some row →
    kind.key row = k

/-- Rows stored under their own ids are published under different ids. -/
theorem Filed.distinct {v : MaterializedView σ} (h : Filed v)
    (hdistinct : networkTarget.Distinct v) (kind : RowKind) : kind.Distinct v := by
  cases kind with
  | networkTarget => exact hdistinct
  | _ =>
    intro k k' row row' hk hk' hid
    rw [← h _ k row hk, ← h _ k' row' hk']
    exact hid

/-- An emission of one row of the kind, whether a sink is attached or not: what it stores, and
that the emitter is handed what is stored. -/
structure Emitted (kind : RowKind) (v v' : MaterializedView σ) (k : String)
    (row : kind.RowOf) : Prop where
  key : kind.key row = k
  table : kind.table v' = (kind.table v).insert k row
  /-- A row keeps its id when it is merged. -/
  replaced : ∀ old, (kind.table v)[k]? = some old → kind.rowId old = kind.rowId row
  others : ∀ kind' : RowKind, kind' ≠ kind → kind'.table v' = kind'.table v
  mutations : v'.mutations = v.mutations.map (kind.emit row)
  insertOnly : v'.insertOnly = v.insertOnly

/-- Storing a row and handing it to the emitter is an emission of it. -/
theorem Stores.emitted {v stored : MaterializedView σ}
    {row : kind.RowOf} (hstored : kind.Stores v stored k row) (hkey : kind.key row = k)
    (hreplaced : ∀ old, (kind.table v)[k]? = some old → kind.rowId old = kind.rowId row)
    (sinks : List σ) :
    kind.Emitted v
      { stored with sinks, mutations := stored.mutations.map (kind.emit row) } k row := by
  obtain ⟨counts, start, stop, rfl⟩ := hstored
  refine ⟨hkey, ?_, hreplaced, ?_, ?_, ?_⟩
  · cases kind <;> rfl
  · intro kind' hne
    rw [← table_setTable_of_ne v hne ((kind.table v).insert k row)]
    cases kind' <;> rfl
  · cases kind <;> rfl
  · cases kind <;> rfl

/-- The rows stay stored under their keys. -/
theorem Filed.insert {v v' : MaterializedView σ}
    {row : kind.RowOf} (h : Filed v) (hkey : kind.key row = k)
    (htable : kind.table v' = (kind.table v).insert k row)
    (hothers : ∀ kind' : RowKind, kind' ≠ kind → kind'.table v' = kind'.table v) : Filed v' := by
  intro kind' k' row' hrow'
  by_cases hkind : kind' = kind
  · subst hkind
    rw [htable, TreeMap.getElem?_insert] at hrow'
    split_ifs at hrow' with heq
    · obtain rfl := Std.LawfulEqCmp.eq_of_compare heq
      rw [← Option.some.inj hrow', hkey]
    · exact h _ _ _ hrow'
  · rw [hothers kind' hkind] at hrow'
    exact h _ _ _ hrow'

theorem Emitted.filed {v v' : MaterializedView σ}
    {row : kind.RowOf} (h : kind.Emitted v v' k row) (hfiled : Filed v) : Filed v' :=
  hfiled.insert h.key h.table h.others

theorem Stores.filed {v stored : MaterializedView σ}
    {row : kind.RowOf} (h : kind.Stores v stored k row) (hkey : kind.key row = k)
    (hfiled : Filed v) : Filed stored := by
  obtain ⟨counts, start, stop, rfl⟩ := h
  refine hfiled.insert hkey ?_ fun kind' hne => ?_
  · cases kind <;> rfl
  · rw [← table_setTable_of_ne v hne ((kind.table v).insert k row)]
    cases kind' <;> rfl

omit [External] in
theorem Stores.mutations {v stored : MaterializedView σ}
    {row : kind.RowOf} (h : kind.Stores v stored k row) : stored.mutations = v.mutations := by
  obtain ⟨counts, start, stop, rfl⟩ := h
  cases kind <;> rfl

/-- A row published under another kind or id is stored as before. -/
theorem Emitted.getElem?_of_ne {v v' : MaterializedView σ}
    {row : kind.RowOf} (h : kind.Emitted v v' k row) {kind' : RowKind} {k' : String}
    {row' : kind'.RowOf} (hrow' : (kind'.table v)[k']? = some row')
    (hne : (kind'.name, kind'.rowId row') ≠ (kind.name, kind.rowId row)) :
    (kind'.table v')[k']? = some row' := by
  by_cases hkind : kind' = kind
  · subst hkind
    rw [h.table, TreeMap.getElem?_insert]
    split_ifs with heq
    · obtain rfl := Std.LawfulEqCmp.eq_of_compare heq
      exact absurd (congrArg _ (h.replaced row' hrow')) hne
    · exact hrow'
  · rw [h.others kind' hkind]
    exact hrow'

theorem Emitted.getElem?_self {v v' : MaterializedView σ}
    {row : kind.RowOf} (h : kind.Emitted v v' k row) : (kind.table v')[k]? = some row := by
  rw [h.table, TreeMap.getElem?_insert_self]

/-- An emission with a sink attached publishes the row. -/
theorem Emitted.upserts {v v' : MaterializedView σ}
    {row : kind.RowOf} (h : kind.Emitted v v' k row) (hattached : v.Attached) :
    kind.Upserts v v' k row := by
  obtain ⟨e, he, hsinks⟩ := hattached
  obtain ⟨wall, basis, hemit⟩ := kind.emit_eq_upsert row e
  have hupsert : v'.mutations = some (e.upsert kind.name (kind.rowId row) (kind.toRow row)
      (fun r => kind.project row r e.disclosure) wall basis) := by
    rw [h.mutations, he, Option.map_some, hemit]
  obtain ⟨hatt, hstream, hrevision, hdisclosure⟩ := upsert_effect he hsinks hupsert
  have hdisc : e.disclosure = v.mutationDisclosure := by
    simp [MaterializedView.mutationDisclosure, he]
  exact ⟨hatt, h.table, h.replaced, h.others, by rw [hstream, hdisclosure, hdisc], hrevision,
    hdisclosure, h.insertOnly⟩

end View

end Rows

end RowKind

end AgentSight.View
