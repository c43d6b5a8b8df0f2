import AgentSight.Lib.Overlay
import AgentSight.Session.AgentNative
import AgentSight.View.Convergence

/-!
# Importing sessions again

The trace imports the sessions of the machine over and over into one view. What a session's latest
version puts in an empty view is what the view has of it as long as a version keeps what the session
row does not take over and covers the rows of the version before it.
-/

namespace AgentSight.AgentNative

open Json (Value)
open KeyedTable Overlay
open Session (PlanStep TokenUsage UserPrompt)
open Std (TreeMap)
open View hiding TokenUsage

/-! ### Runs of imports -/

/-- What a session is: its agent and the id that the agent gave it. -/
def LocalSession.ident (session : LocalSession) : String × String :=
  (session.agentType, session.sessionId)

/-- A view, and the latest version of every session that was imported into it. -/
structure Imports (σ : Type) where
  view : MaterializedView σ
  versions : List LocalSession

/-- The kinds of rows that an import makes. -/
def importedKinds : List RowKind := [.session, .llmCall, .tokenUsage, .toolCall]

/-- A view without rows of these kinds. -/
def Bare {σ : Type} (view : MaterializedView σ) : Prop :=
  ∀ kind ∈ importedKinds, ∀ k : String, (kind.table view)[k]? = none

section Runs

variable {σ : Type} [External]

/-- What a session puts in an empty view. -/
def alone (session : LocalSession) : MaterializedView σ :=
  importIntoView (MaterializedView.new []) [session]

namespace Imports

def start (view : MaterializedView σ) : Imports σ := ⟨view, []⟩

def add (run : Imports σ) (session : LocalSession) : Imports σ :=
  ⟨importSession run.view session, renew LocalSession.ident run.versions session⟩

/-- One call of `import_into_view`. -/
def call (run : Imports σ) (sessions : List LocalSession) : Imports σ :=
  ⟨importIntoView run.view sessions, sessions.foldl (renew LocalSession.ident) run.versions⟩

def after (run : Imports σ) (calls : List (List LocalSession)) : Imports σ := calls.foldl call run

/-- Every session's rows are those of its latest version, and account for what it used. -/
structure Converged (run : Imports σ) : Prop where
  rows_iff : ∀ kind ∈ importedKinds, ∀ (k : String) (row : kind.RowOf),
    (kind.table run.view)[k]? = some row ↔
      ∃ session ∈ run.versions, (kind.table (alone session : MaterializedView σ))[k]? = some row
  tokens : ∀ session ∈ run.versions,
    ((alone session : MaterializedView σ).tokenUsage.values.map (·.totalTokens)).sum =
      (session.modelUsage.map (·.2.totalTokens.toInt)).sum
  tools : ∀ session ∈ run.versions,
    (alone session : MaterializedView σ).toolCalls.size = (session.tools.map (·.2)).sum

end Imports

end Runs

variable {kind : RowKind}

/-! ### Names of rows -/

namespace LocalSession

/-- What the `llm_call` rows are named after. -/
def llmNames (session : LocalSession) : List String :=
  if session.promptPreview.isNone then []
  else if session.modelUsage.isEmpty then
    [Str.sanitizeAsciiIdentifier (session.model.getD session.agentType)]
  else session.modelUsage.map Prod.fst

/-- What the `token_usage` rows are named after. -/
def tokenNames (session : LocalSession) : List String :=
  (session.modelUsage.filter fun entry => 0 < entry.2.totalTokens).map fun entry =>
    Str.sanitizeAsciiIdentifier entry.1

/-- The tools that were called, as their rows are named. -/
def toolNames (session : LocalSession) : List String :=
  (session.tools.filter fun tool => 0 < tool.2).map fun tool =>
    Str.sanitizeAsciiIdentifier tool.1

/-- What the rows of a tool are named after. -/
def slots (tool : String × ℕ) : List String :=
  (List.range tool.2).map fun index => Str.sanitizeAsciiIdentifier tool.1 ++ "-" ++ toString index

/-- What the `tool_call` rows are named after. -/
def callNames (session : LocalSession) : List String := session.tools.flatMap slots

/-- No row of a kind has the same name in both. -/
def Apart (names : LocalSession → List String) (a b : LocalSession) : Prop :=
  ∀ x ∈ names a, ∀ y ∈ names b, a.viewId ++ "-" ++ x ≠ b.viewId ++ "-" ++ y

/-- A version changes nothing that the session row keeps, and names all that the one before did. -/
structure Follows (prior session : LocalSession) : Prop where
  displayId : session.displayId = prior.displayId
  startedMs : session.startedMs ≤ prior.startedMs
  endedMs : prior.endedMs ≤ session.endedMs
  model : session.model.any (· != "unknown") ∨ prior.model = none ∨ session.model = prior.model
  conversationId : session.conversationId = prior.conversationId
  cwd : session.cwd = prior.cwd
  files : session.files = prior.files
  lastMessageAt : session.lastMessageAt = prior.lastMessageAt
  path : session.path = prior.path
  plan : session.events.plan = prior.events.plan
  promptPreview : session.promptPreview = prior.promptPreview
  usage : session.usage = prior.usage
  subscription : session.agentType = "codex" →
    session.rolloutSubscription.getD .null = prior.rolloutSubscription.getD .null
  llmNames : prior.llmNames ⊆ session.llmNames
  tokenNames : prior.tokenNames ⊆ session.tokenNames
  calls : ∀ tool ∈ prior.tools, 0 < tool.2 → ∃ tool' ∈ session.tools,
    Str.sanitizeAsciiIdentifier tool'.1 = Str.sanitizeAsciiIdentifier tool.1 ∧ tool.2 ≤ tool'.2

/-- A version whose rows account for what it used. -/
structure Plain (session : LocalSession) : Prop where
  nodup_tokens : session.tokenNames.Nodup
  nonneg : ∀ entry ∈ session.modelUsage, 0 ≤ entry.2.totalTokens
  nodup_tools : session.toolNames.Nodup

/-- A version that can be imported over the latest ones. -/
structure Steady (versions : List LocalSession) (session : LocalSession) : Prop where
  plain : session.Plain
  follows : ∀ prior ∈ versions, prior.ident = session.ident → Follows prior session
  apart : ∀ other ∈ versions, other.ident ≠ session.ident → other.viewId ≠ session.viewId ∧
    Apart llmNames other session ∧ Apart tokenNames other session ∧ Apart callNames other session

/-! ### Rows by their keys -/

/-- The rows of a kind, with the keys that they are stored under. -/
def rows : (kind : RowKind) → LocalSession → List (String × kind.RowOf)
  | .session, session => [(session.viewId, session.sessionRow)]
  | .llmCall, session => session.llmRows.map fun row => (row.id, row)
  | .tokenUsage, session => session.tokenRows.map fun row => (row.id, row)
  | .toolCall, session => session.toolRows.map fun row => (row.id, row)
  | .processNode, _ => []
  | .networkTarget, _ => []

variable {session prior other : LocalSession}

theorem keys_llmRows : (session.rows .llmCall).map Prod.fst =
    session.llmNames.map fun name => session.viewId ++ "-" ++ name := by
  rw [rows, llmRows, llmNames]
  cases session.promptPreview with
  | none => rfl
  | some prompt =>
    cases hempty : session.modelUsage.isEmpty with
    | true => simp [llmRowForSession]
    | false => simp [llmRowForSession, Function.comp_def]

theorem keys_tokenRows : (session.rows .tokenUsage).map Prod.fst =
    session.tokenNames.map fun name => "token-" ++ (session.viewId ++ "-" ++ name) := by
  simp [rows, tokenRows, tokenNames, tokenRow, Function.comp_def, String.append_assoc]

theorem keys_toolRows : (session.rows .toolCall).map Prod.fst =
    session.callNames.map fun name => "tool-" ++ (session.viewId ++ "-" ++ name) := by
  simp [rows, toolRows, callNames, slots, toolRow, Function.comp_def, String.append_assoc,
    List.map_flatMap]

theorem mem_slots {tool : String × ℕ} {name : String} : name ∈ slots tool ↔
    ∃ index < tool.2, Str.sanitizeAsciiIdentifier tool.1 ++ "-" ++ toString index = name := by
  simp [slots]

theorem nodup_llmNames : session.llmNames.Nodup := by
  rw [llmNames]
  split
  · exact List.nodup_nil
  · split
    · exact List.nodup_singleton _
    · exact session.nodup_models

/-- The name of a tool's row determines the tool and the index. -/
theorem slot_injective {stem stem' : String} {m n : ℕ}
    (h : stem ++ "-" ++ toString m = stem' ++ "-" ++ toString n) : stem = stem' ∧ m = n := by
  obtain rfl := Str.numbered_injective h
  rw [String.append_assoc, String.append_assoc] at h
  exact ⟨String.append_left_inj _ |>.mp h, rfl⟩

theorem pairwise_slots {tools : List (String × ℕ)}
    (h : ((tools.filter fun tool => 0 < tool.2).map fun tool =>
      Str.sanitizeAsciiIdentifier tool.1).Nodup) :
    tools.Pairwise (Function.onFun List.Disjoint slots) := by
  induction tools with
  | nil => exact .nil
  | cons tool tools ih =>
    rw [List.pairwise_cons]
    refine ⟨fun tool' htool' name hname hname' => ?_, ih (h.sublist ?_)⟩
    · obtain ⟨index, hindex, rfl⟩ := mem_slots.mp hname
      obtain ⟨index', hindex', heq⟩ := mem_slots.mp hname'
      have hpos : 0 < tool.2 := by omega
      have hpos' : tool' ∈ tools.filter fun tool => 0 < tool.2 :=
        List.mem_filter.mpr ⟨htool', by simp; omega⟩
      rw [List.filter_cons_of_pos (by simpa using hpos), List.map_cons, List.nodup_cons] at h
      exact h.1 (List.mem_map.mpr ⟨tool', hpos', (slot_injective heq).1⟩)
    · exact ((List.sublist_cons_self tool tools).filter _).map _

theorem Plain.nodup_callNames (h : session.Plain) : session.callNames.Nodup := by
  refine List.nodup_flatMap.mpr ⟨fun tool _ => ?_, pairwise_slots h.nodup_tools⟩
  refine List.nodup_range.map fun i j hname => ?_
  exact (slot_injective hname).2

theorem Plain.nodup_rows (h : session.Plain) (hkind : kind ∈ importedKinds) :
    ((session.rows kind).map Prod.fst).Nodup := by
  have hname x y (heq : session.viewId ++ "-" ++ x = session.viewId ++ "-" ++ y) :
      x = y := (String.append_right_inj _).mp heq
  simp only [importedKinds, List.mem_cons, List.not_mem_nil, or_false] at hkind
  rcases hkind with rfl | rfl | rfl | rfl
  · exact List.nodup_singleton _
  · rw [keys_llmRows]
    exact nodup_llmNames.map hname
  · rw [keys_tokenRows]
    exact h.nodup_tokens.map fun x y heq => hname x y ((String.append_right_inj _).mp heq)
  · rw [keys_toolRows]
    exact h.nodup_callNames.map fun x y heq => hname x y ((String.append_right_inj _).mp heq)

theorem viewId_eq (h : Follows prior session) (hident : prior.ident = session.ident) :
    prior.viewId = session.viewId := by
  rw [viewId, viewId, h.displayId, (Prod.mk.inj hident).1]

theorem Follows.callNames_subset (h : Follows prior session) :
    prior.callNames ⊆ session.callNames := by
  intro name hname
  obtain ⟨tool, htool, hslot⟩ := List.mem_flatMap.mp hname
  obtain ⟨index, hindex, rfl⟩ := mem_slots.mp hslot
  obtain ⟨tool', htool', hstem, hle⟩ := h.calls tool htool (by omega)
  exact List.mem_flatMap.mpr
    ⟨tool', htool', mem_slots.mpr ⟨index, hindex.trans_le hle, by rw [hstem]⟩⟩

/-- A version covers the rows of the one before it. -/
theorem Follows.covers (h : Follows prior session) (hident : prior.ident = session.ident)
    (hkind : kind ∈ importedKinds) :
    (prior.rows kind).map Prod.fst ⊆ (session.rows kind).map Prod.fst := by
  have hview := viewId_eq h hident
  simp only [importedKinds, List.mem_cons, List.not_mem_nil, or_false] at hkind
  rcases hkind with rfl | rfl | rfl | rfl
  · simp [rows, hview]
  · rw [keys_llmRows, keys_llmRows, hview]
    exact List.map_subset _ h.llmNames
  · rw [keys_tokenRows, keys_tokenRows, hview]
    exact List.map_subset _ h.tokenNames
  · rw [keys_toolRows, keys_toolRows, hview]
    exact List.map_subset _ h.callNames_subset

theorem Apart.disjoint {names : LocalSession → List String} (h : Apart names other session)
    {front : String → String} (hfront : Function.Injective front) :
    ((names other).map fun name => front (other.viewId ++ "-" ++ name)).Disjoint
      ((names session).map fun name => front (session.viewId ++ "-" ++ name)) := by
  intro key hother hsession
  obtain ⟨x, hx, rfl⟩ := List.mem_map.mp hother
  obtain ⟨y, hy, heq⟩ := List.mem_map.mp hsession
  exact h x hx y hy (hfront heq.symm)

/-- It keeps off the rows of the other sessions. -/
theorem Steady.disjoint {versions : List LocalSession} (h : Steady versions session)
    (hother : other ∈ versions) (hident : other.ident ≠ session.ident)
    (hkind : kind ∈ importedKinds) :
    ((other.rows kind).map Prod.fst).Disjoint ((session.rows kind).map Prod.fst) := by
  obtain ⟨hview, hllm, htoken, hcall⟩ := h.apart other hother hident
  simp only [importedKinds, List.mem_cons, List.not_mem_nil, or_false] at hkind
  rcases hkind with rfl | rfl | rfl | rfl
  · simpa [rows] using hview.symm
  · rw [keys_llmRows, keys_llmRows]
    exact hllm.disjoint Function.injective_id
  · rw [keys_tokenRows, keys_tokenRows]
    exact htoken.disjoint fun x y => (String.append_right_inj "token-").mp
  · rw [keys_toolRows, keys_toolRows]
    exact hcall.disjoint fun x y => (String.append_right_inj "tool-").mp

/-! ### The session row -/

theorem Follows.attributes (h : Follows prior session) (hident : prior.ident = session.ident) :
    session.attributes = prior.attributes := by
  obtain ⟨hagent, hid⟩ := Prod.mk.inj hident
  have hsubscription : (if session.agentType = "codex" then
        session.rolloutSubscription.getD .null else .null) =
      if prior.agentType = "codex" then prior.rolloutSubscription.getD .null else .null := by
    rw [hagent]
    split
    · next hcodex => exact h.subscription hcodex
    · rfl
  rw [LocalSession.attributes, LocalSession.attributes, hsubscription, h.conversationId, h.cwd,
    h.displayId, h.files, h.lastMessageAt, h.path, h.plan, h.promptPreview, h.usage, hid]

/-- The stored row becomes that of the new version. -/
theorem Follows.merge (h : Follows prior session) (hident : prior.ident = session.ident) :
    prior.sessionRow.merge session.sessionRow = session.sessionRow := by
  have hmodel : (if session.model.any (· != "unknown") || prior.model.isNone then session.model
      else prior.model) = session.model := by
    split
    · rfl
    · next hkept =>
      rw [Bool.or_eq_true, not_or] at hkept
      rcases h.model with hknown | hnone | heq
      · exact absurd hknown hkept.1
      · exact absurd (by rw [hnone]; rfl) hkept.2
      · exact heq.symm
  simp only [SessionRow.merge, sessionRow, hmodel, h.attributes hident, h.usage,
    viewId_eq h hident, (Prod.mk.inj hident).1, max_self, min_eq_right h.startedMs, maxOptional,
    le_refl, if_true]
  split
  · next hle => rw [le_antisymm hle h.endedMs]
  · rfl

end LocalSession

/-! ### Tables -/

section Tables

variable {σ : Type} {v v' : MaterializedView σ} {kind kind' : RowKind} {key : String}
  {row : kind.RowOf}

theorem table_of_stores (h : kind.Stores v v' key row) (k : String) :
    (kind.table v')[k]? = Function.update (fun k => (kind.table v)[k]?) key (some row) k := by
  have hinsert : (kind.table v')[k]? = ((kind.table v).insert key row)[k]? := by
    obtain ⟨counts, start, stop, rfl⟩ := h
    cases kind <;> rfl
  rw [hinsert, TreeMap.getElem?_insert]
  by_cases hk : k = key
  · subst hk
    simp
  · rw [Function.update_of_ne hk, if_neg]
    simpa using Ne.symm hk

theorem table_of_stores_ne (h : kind.Stores v v' key row) (hne : kind' ≠ kind) :
    kind'.table v' = kind'.table v := by
  have hset : kind'.table v' = kind'.table (kind.setTable v ((kind.table v).insert key row)) := by
    obtain ⟨counts, start, stop, rfl⟩ := h
    cases kind' <;> rfl
  rw [hset, RowKind.table_setTable_of_ne v hne]

variable [External]

theorem table_foldl (kind : RowKind) {apply : MaterializedView σ → kind.RowOf → MaterializedView σ}
    (hstores : ∀ v row, kind.Stores v (apply v row) (kind.rowId row) row)
    (v : MaterializedView σ) (rows : List kind.RowOf) (k : String) :
    (kind.table (rows.foldl apply v))[k]? =
      put (fun k => (kind.table v)[k]?) (rows.map fun row => (kind.rowId row, row)) k := by
  induction rows generalizing v with
  | nil => rfl
  | cons row rows ih =>
    have hrow : (fun k => (kind.table (apply v row))[k]?) =
        Function.update (fun k => (kind.table v)[k]?) (kind.rowId row) (some row) :=
      funext (table_of_stores (hstores v row))
    rw [List.foldl_cons, ih, hrow]
    rfl

theorem table_foldl_ne (kind : RowKind) {kind' : RowKind}
    {apply : MaterializedView σ → kind.RowOf → MaterializedView σ}
    (hstores : ∀ v row, kind.Stores v (apply v row) (kind.rowId row) row)
    (v : MaterializedView σ) (rows : List kind.RowOf) (hne : kind' ≠ kind) :
    kind'.table (rows.foldl apply v) = kind'.table v := by
  induction rows generalizing v with
  | nil => rfl
  | cons row rows ih => rw [List.foldl_cons, ih, table_of_stores_ne (hstores v row) hne]

theorem table_emitSession (row : SessionRow) (kind : RowKind) :
    kind.table (Effectful.exec (emitSession row : ViewM σ Unit) v).2 =
      kind.table (v.upsertSession row) := by
  cases kind <;> rfl

section

variable (v : MaterializedView σ)

theorem stores_llm (row : LlmCallRow) :
    RowKind.llmCall.Stores v (v.applyLlmCall row) (RowKind.llmCall.rowId row) row :=
  stores_applyLlmCall row

theorem stores_token (row : TokenUsageRow) :
    RowKind.tokenUsage.Stores v (v.applyTokenUsage row) (RowKind.tokenUsage.rowId row) row :=
  stores_applyTokenUsage row

theorem stores_tool (row : ToolCallRow) :
    RowKind.toolCall.Stores v (v.applyToolCall row) (RowKind.toolCall.rowId row) row :=
  stores_applyToolCall row

end

/-- An import merges the session row into the one that was stored. -/
theorem sessions_importSession (session : LocalSession) (k : String) :
    (importSession v session).sessions[k]? =
      Function.update (fun k => v.sessions[k]?) session.viewId
        (some (merged SessionRow.merge v.sessions[session.viewId]? session.sessionRow)) k := by
  change (RowKind.session.table (importSession v session))[k]? = _
  rw [importSession, table_foldl_ne .toolCall stores_tool _ _ (by decide),
    table_foldl_ne .tokenUsage stores_token _ _ (by decide),
    table_foldl_ne .llmCall stores_llm _ _ (by decide), table_emitSession]
  exact table_of_stores (stores_upsertSession session.sessionRow) k

/-- An import puts the rows of the session, when the row that was stored gives way. -/
theorem table_importSession (session : LocalSession) (hkind : kind ∈ importedKinds)
    (hmerge : merged SessionRow.merge v.sessions[session.viewId]? session.sessionRow =
      session.sessionRow) (k : String) :
    (kind.table (importSession v session))[k]? =
      put (fun k => (kind.table v)[k]?) (session.rows kind) k := by
  have hsession := stores_upsertSession (v := v) session.sessionRow
  simp only [importedKinds, List.mem_cons, List.not_mem_nil, or_false] at hkind
  rcases hkind with rfl | rfl | rfl | rfl
  · have hput := sessions_importSession (v := v) session k
    rwa [hmerge] at hput
  · rw [importSession, table_foldl_ne .toolCall stores_tool _ _ (by decide),
      table_foldl_ne .tokenUsage stores_token _ _ (by decide), table_foldl .llmCall stores_llm,
      table_emitSession, table_of_stores_ne hsession (by decide)]
    rfl
  · rw [importSession, table_foldl_ne .toolCall stores_tool _ _ (by decide),
      table_foldl .tokenUsage stores_token, table_foldl_ne .llmCall stores_llm _ _ (by decide),
      table_emitSession, table_of_stores_ne hsession (by decide)]
    rfl
  · rw [importSession, table_foldl .toolCall stores_tool,
      table_foldl_ne .tokenUsage stores_token _ _ (by decide),
      table_foldl_ne .llmCall stores_llm _ _ (by decide), table_emitSession,
      table_of_stores_ne hsession (by decide)]
    rfl

end Tables

/-! ### The invariant -/

section Invariant

variable {σ : Type} [External] {run : Imports σ} {session : LocalSession}

/-- Every table shows the latest versions, each of which is plain. -/
structure Kept (run : Imports σ) : Prop where
  shows : ∀ kind ∈ importedKinds,
    Shows (LocalSession.rows kind) run.versions fun k => (kind.table run.view)[k]?
  plain : ∀ session ∈ run.versions, session.Plain

omit [External] in
theorem Bare.kept {view : MaterializedView σ} (h : Bare view) : Kept (.start view) where
  shows kind hkind k row := by
    constructor
    · intro hrow
      exact absurd ((h kind hkind k).symm.trans hrow) nofun
    · rintro ⟨_, hnil, -⟩
      cases hnil
  plain _ hnil := nomatch hnil

omit [External] in
/-- The stored session row gives way to that of the new version. -/
theorem Kept.merged (h : Kept run) (hsteady : session.Steady run.versions) :
    merged SessionRow.merge run.view.sessions[session.viewId]? session.sessionRow =
      session.sessionRow := by
  cases hstored : run.view.sessions[session.viewId]? with
  | none => rfl
  | some stored =>
    obtain ⟨prior, hprior, hrow⟩ := (h.shows .session (by decide) _ _).mp hstored
    obtain ⟨hview, rfl⟩ := Prod.mk.inj (List.mem_singleton.mp hrow)
    by_cases hident : prior.ident = session.ident
    · exact (hsteady.follows prior hprior hident).merge hident
    · exact absurd hview.symm (hsteady.apart prior hprior hident).1

theorem Kept.add (h : Kept run) (hsteady : session.Steady run.versions) :
    Kept (run.add session) where
  shows kind hkind := by
    have hshows := (h.shows kind hkind).renew (hsteady.plain.nodup_rows hkind)
      (fun prior hprior hident => (hsteady.follows prior hprior hident).covers hident hkind)
      fun other hother hident => hsteady.disjoint hother hident hkind
    intro k row
    refine Iff.trans ?_ (hshows k row)
    exact Eq.congr_left (table_importSession session hkind (h.merged hsteady) k)
  plain other hother := by
    rcases mem_renew.mp hother with ⟨hother, -⟩ | rfl
    · exact h.plain other hother
    · exact hsteady.plain

theorem LocalSession.Plain.table_alone (h : session.Plain)
    (hkind : kind ∈ importedKinds) (k : String) (row : kind.RowOf) :
    (kind.table (alone session : MaterializedView σ))[k]? = some row ↔
      (k, row) ∈ session.rows kind := by
  have hbare : Bare (MaterializedView.new [] : MaterializedView σ) := by
    intro kind hkind k
    cases kind <;> simp [MaterializedView.new, RowKind.table]
  have hkept : Kept ((Imports.start (MaterializedView.new []) : Imports σ).add session) :=
    hbare.kept.add ⟨h, fun _ hnil => absurd hnil List.not_mem_nil,
      fun _ hnil => absurd hnil List.not_mem_nil⟩
  refine (hkept.shows kind hkind k row).trans ?_
  constructor
  · rintro ⟨other, hother, hrow⟩
    obtain rfl := List.mem_singleton.mp hother
    exact hrow
  · intro hrow
    exact ⟨session, List.mem_singleton_self _, hrow⟩

/-! ### What the rows of one session account for -/

omit [External] in
/-- The entries of a table, read off what it has at each key. -/
theorem perm_toList {ρ : Type} {table : TreeMap String ρ} {rows : List (String × ρ)}
    (hnodup : (rows.map Prod.fst).Nodup) (h : ∀ k r, table[k]? = some r ↔ (k, r) ∈ rows) :
    table.toList.Perm rows := by
  have hkeys : (table.toList.map Prod.fst).Nodup := by
    rw [TreeMap.map_fst_toList_eq_keys]
    exact TreeMap.nodup_keys
  refine (List.perm_ext_iff_of_nodup hkeys.of_map hnodup.of_map).mpr ?_
  rintro ⟨k, row⟩
  rw [TreeMap.mem_toList_iff_getElem?_eq_some]
  exact h k row

theorem LocalSession.Plain.toList_alone (h : session.Plain) (kind : RowKind)
    (hkind : kind ∈ importedKinds) :
    (kind.table (alone session : MaterializedView σ)).toList.Perm (session.rows kind) :=
  perm_toList (h.nodup_rows hkind) (h.table_alone hkind)

omit [External] in
theorem sum_filter_pos {usage : List (String × TokenUsage)}
    (h : ∀ entry ∈ usage, 0 ≤ entry.2.totalTokens) :
    ((usage.filter fun entry => 0 < entry.2.totalTokens).map (·.2.totalTokens.toInt)).sum =
      (usage.map (·.2.totalTokens.toInt)).sum := by
  induction usage with
  | nil => rfl
  | cons entry usage ih =>
    have hrest := ih fun other hother => h other (List.mem_cons_of_mem _ hother)
    have hentry := h entry List.mem_cons_self
    rw [List.filter_cons]
    split
    · rw [List.map_cons, List.map_cons, List.sum_cons, List.sum_cons, hrest]
    · next hpos =>
      rw [Int64.le_iff_toInt_le, Int64.toInt_zero] at hentry
      rw [decide_eq_true_eq, Int64.lt_iff_toInt_lt, Int64.toInt_zero] at hpos
      rw [List.map_cons, List.sum_cons]
      omega

theorem LocalSession.Plain.tokens (h : session.Plain) :
    ((alone session : MaterializedView σ).tokenUsage.values.map (·.totalTokens)).sum =
      (session.modelUsage.map (·.2.totalTokens.toInt)).sum := by
  have hperm := (h.toList_alone (σ := σ) .tokenUsage (by decide)).map (·.2.totalTokens)
  rw [Retention.values_eq_map_snd_toList, List.map_map]
  refine hperm.sum_eq.trans ?_
  rw [← sum_filter_pos h.nonneg, rows, tokenRows, List.map_map, List.map_map]
  rfl

theorem LocalSession.Plain.tools (h : session.Plain) :
    (alone session : MaterializedView σ).toolCalls.size = (session.tools.map (·.2)).sum := by
  have hperm := h.toList_alone (σ := σ) .toolCall (by decide)
  rw [← TreeMap.length_toList]
  refine hperm.length_eq.trans ?_
  simp [rows, toolRows, List.length_flatMap]

theorem Kept.converged (h : Kept run) : run.Converged where
  rows_iff kind hkind k row := by
    refine (h.shows kind hkind k row).trans (exists_congr fun session => ?_)
    exact and_congr_right fun hsession => ((h.plain session hsession).table_alone hkind k row).symm
  tokens session hsession := (h.plain session hsession).tokens
  tools session hsession := (h.plain session hsession).tools

end Invariant

/-! ### Convergence -/

namespace Imports

variable {σ : Type} [External]

/-- Every session of a call can be imported over what is there. -/
def SteadyCall (run : Imports σ) : List LocalSession → Prop
  | [] => True
  | session :: sessions => session.Steady run.versions ∧ SteadyCall (run.add session) sessions

def SteadyCalls (run : Imports σ) : List (List LocalSession) → Prop
  | [] => True
  | sessions :: calls => run.SteadyCall sessions ∧ SteadyCalls (run.call sessions) calls

theorem kept_call {run : Imports σ} (h : Kept run) {sessions : List LocalSession}
    (hsteady : run.SteadyCall sessions) : Kept (run.call sessions) := by
  induction sessions generalizing run with
  | nil => exact h
  | cons session sessions ih => exact ih (h.add hsteady.1) hsteady.2

theorem kept_after {run : Imports σ} (h : Kept run) {calls : List (List LocalSession)}
    (hsteady : run.SteadyCalls calls) : Kept (run.after calls) := by
  induction calls generalizing run with
  | nil => exact h
  | cons sessions calls ih => exact ih (kept_call h hsteady.1) hsteady.2

end Imports

/-- After any calls whose sessions are steady, every session has the rows of its latest version. -/
theorem reimport_converges {σ : Type} [External] (view : MaterializedView σ) (hbare : Bare view)
    (calls : List (List LocalSession)) (hsteady : (Imports.start view).SteadyCalls calls) :
    ((Imports.start view).after calls).Converged :=
  (Imports.kept_after hbare.kept hsteady).converged

section Example

local instance instNoDigests : External where
  fromStr _ := none
  valueToString _ := ""
  toVec _ := ""
  sha256Hex _ := ""
  parseF64 _ := none

/-- A session whose usage is not known yet. -/
def freshSession : LocalSession where
  agentType := "cursor"
  sessionId := "6c3f1f"
  conversationId := none
  displayId := "cursor:6c3f1f"
  path := "/h/.cursor/projects/p/agent-transcripts/6c3f1f/6c3f1f.jsonl"
  updated := 2000
  startTimestampMs := some 1000
  endTimestampMs := some 2000
  model := some "claude-sonnet-4.5"
  usage := {}
  modelUsage := []
  tools := [("Read", 1)]
  files := []
  promptPreview := some "fix the build"
  durationMs := 1000
  cwd := none
  lastMessageAt := none
  events := ⟨[], []⟩
  rolloutSubscription := none
  agentType_mem := by decide
  displayId_eq := by decide +kernel
  nodup_models := by decide
  nodup_tools := by decide

/-- The session after one more call of its tool. -/
def grownSession : LocalSession :=
  { freshSession with tools := [("Read", 2)], nodup_tools := by decide }

/-- The session when its usage is known. -/
def meteredSession : LocalSession :=
  { freshSession with
    usage := { inputTokens := 10, outputTokens := 5, totalTokens := 15 }
    modelUsage :=
      [("claude-sonnet-4.5", { inputTokens := 10, outputTokens := 5, totalTokens := 15 })]
    nodup_models := by decide }

theorem follows_grownSession : LocalSession.Follows freshSession grownSession where
  displayId := rfl
  startedMs := le_rfl
  endedMs := le_rfl
  model := .inr (.inr rfl)
  conversationId := rfl
  cwd := rfl
  files := rfl
  lastMessageAt := rfl
  path := rfl
  plan := rfl
  promptPreview := rfl
  usage := rfl
  subscription _ := rfl
  llmNames := List.Subset.refl _
  tokenNames := List.Subset.refl _
  calls := by decide

theorem reimport_converges_of_growth : ((Imports.start (MaterializedView.new [NullSink.null])).after
      [[freshSession], [grownSession]]).Converged := by
  refine reimport_converges _ ?_ _ ⟨⟨?_, trivial⟩, ⟨?_, trivial⟩, trivial⟩
  · intro kind hkind k
    cases kind <;> simp [MaterializedView.new, RowKind.table]
  · exact ⟨⟨by decide, by decide, by decide⟩, fun _ hnil => absurd hnil List.not_mem_nil,
      fun _ hnil => absurd hnil List.not_mem_nil⟩
  · refine ⟨⟨by decide, by decide, by decide⟩, fun prior hprior _ => ?_,
      fun other hother hident => ?_⟩
    · obtain rfl := List.mem_singleton.mp hprior
      exact follows_grownSession
    · obtain rfl := List.mem_singleton.mp hother
      exact absurd rfl hident

/-- The row that was named after the model alone stays when the model's usage is known. -/
theorem metered_session_keeps_stale_row :
    ¬((Imports.start (MaterializedView.new [NullSink.null])).after
      [[freshSession], [meteredSession]]).Converged := by
  intro h
  let view := ((Imports.start (MaterializedView.new [NullSink.null])).after
    [[freshSession], [meteredSession]]).view
  have hstale : (view.llmCalls["local:cursor:cursor:6c3f1f-claude-sonnet-4-5"]?).isSome = true := by
    decide +kernel
  have halone : (alone meteredSession : MaterializedView NullSink).llmCalls[
      "local:cursor:cursor:6c3f1f-claude-sonnet-4-5"]? = none := by
    decide +kernel
  obtain ⟨row, hrow⟩ := Option.isSome_iff_exists.mp hstale
  obtain ⟨session, hsession, hsame⟩ := (h.rows_iff .llmCall (by decide) _ row).mp hrow
  obtain rfl := List.mem_singleton.mp hsession
  exact absurd (halone.symm.trans hsame) nofun

end Example

end AgentSight.AgentNative
