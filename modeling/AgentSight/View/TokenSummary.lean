import AgentSight.Lib.KeyedSum
import AgentSight.View.EffectiveTokens

/-!
# Token summaries

The token report adds up the effective token rows of a view by provider, command, process, directory
or model; the summary of a snapshot adds up all of them. `token_summary_conserves` says that the
report counts each effective row in one of its lines, whatever it is grouped by. All sums are of
`i64`, which wraps around in a build without overflow checks.
-/

namespace AgentSight.View

open List
open Std (TreeMap)
open BestByKey (Filed)
open KeyedSum (total total_append total_cons total_nil sum_totals)
open Str (startsWith stripPrefix)

structure TokenSummary where
  group : String
  inputTokens : Int64 := 0
  outputTokens : Int64 := 0
  cacheCreationTokens : Int64 := 0
  cacheReadTokens : Int64 := 0
  totalTokens : Int64 := 0
  calls : Int64 := 0
  sessions : Int64 := 0

structure TokenSummaryGroup where
  row : TokenSummary
  sessions : Finset String

def TokenSummaryGroup.new (group : String) : TokenSummaryGroup := ⟨{ group }, ∅⟩

def TokenSummaryGroup.add (group : TokenSummaryGroup) (token : TokenUsageRow)
    (sessionKey : Option String) : TokenSummaryGroup where
  row := { group.row with
    inputTokens := group.row.inputTokens + .ofInt token.inputTokens
    outputTokens := group.row.outputTokens + .ofInt token.outputTokens
    cacheCreationTokens := group.row.cacheCreationTokens + .ofInt token.cacheCreationTokens
    cacheReadTokens := group.row.cacheReadTokens + .ofInt token.cacheReadTokens
    totalTokens := group.row.totalTokens + .ofInt token.totalTokens
    calls := group.row.calls + 1 }
  sessions := sessionKey.elim group.sessions (insert · group.sessions)

def sessionCwd (session : SessionRow) : Option String :=
  (session.attributes.strField "cwd").filter (· ≠ "")

namespace MaterializedView

variable {σ : Type} (v : MaterializedView σ)

def tokenSessionKey (token : TokenUsageRow) : Option String :=
  ((v.llmCalls[token.llmCallId]?.bind (·.sessionId)).filter (· ≠ "")).or <|
    v.sessions.keys.find? fun sessionId => token.llmCallId = sessionId ||
      (stripPrefix token.llmCallId sessionId).any (startsWith · "-")

def tokenProcessCwd (token : TokenUsageRow) : Option String :=
  (token.pid.or (v.llmCalls[token.llmCallId]?.bind (·.pid))).bind fun pid =>
    (v.processNodes.values.find? fun row => row.pid = pid && row.cwd.any (· ≠ "")).bind (·.cwd)

def tokenWorkingDir (token : TokenUsageRow) : Option String :=
  ((v.tokenSessionKey token).bind fun sessionId => v.sessions[sessionId]?.bind sessionCwd).or
    (v.tokenProcessCwd token)

def tokenGroup (groupBy : String) (token : TokenUsageRow) : String :=
  let group := match groupBy with
    | "provider" => token.provider
    | "comm" => token.comm
    | "pid" => token.pid.map toString
    | "dir" | "cwd" | "directory" => v.tokenWorkingDir token
    | _ => token.model
  (group.filter (· ≠ "")).getD "unknown"

def tokenGroups (groupBy : String) (tokens : List TokenUsageRow) :
    TreeMap String TokenSummaryGroup :=
  tokens.foldl (fun groups token =>
    let group := v.tokenGroup groupBy token
    groups.insert group ((groups.getD group (.new group)).add token (v.tokenSessionKey token))) ∅

/-- `token_summary`, with `sort_token_summary`. -/
def tokenSummary (groupBy : String) : List TokenSummary :=
  ((v.tokenGroups groupBy v.effectiveTokens).values.map fun group =>
    { group.row with sessions := .ofNat group.sessions.card }).mergeSort fun a b =>
      ((compare b.totalTokens a.totalTokens).then (compare a.group b.group)).isLE

/-- The input, output and total tokens of `snapshot_summary`. -/
def snapshotTokens : Int64 × Int64 × Int64 :=
  v.effectiveTokens.foldl (fun (input, output, total) token =>
    (input + .ofInt token.inputTokens, output + .ofInt token.outputTokens,
      total + .ofInt token.totalTokens)) (0, 0, 0)

end MaterializedView

/-! ### What the lines count -/

/-- The figures that are added up, first those that a snapshot reports. -/
abbrev Amounts := (Int64 × Int64 × Int64) × Int64 × Int64 × Int64

def TokenUsageRow.amounts (token : TokenUsageRow) : Amounts :=
  ((.ofInt token.inputTokens, .ofInt token.outputTokens, .ofInt token.totalTokens),
    .ofInt token.cacheCreationTokens, .ofInt token.cacheReadTokens, 1)

def TokenSummary.amounts (row : TokenSummary) : Amounts :=
  ((row.inputTokens, row.outputTokens, row.totalTokens),
    row.cacheCreationTokens, row.cacheReadTokens, row.calls)

variable {σ : Type} {v : MaterializedView σ} {groupBy k : String} {tokens : List TokenUsageRow}

theorem tokenGroups_concat (token : TokenUsageRow) : v.tokenGroups groupBy (tokens ++ [token]) =
    let groups := v.tokenGroups groupBy tokens
    let group := v.tokenGroup groupBy token
    groups.insert group ((groups.getD group (.new group)).add token (v.tokenSessionKey token)) :=
  foldl_concat ..

theorem mem_tokenGroups :
    k ∈ v.tokenGroups groupBy tokens ↔ k ∈ tokens.map (v.tokenGroup groupBy) := by
  induction tokens using reverseRecOn with
  | nil => simp [MaterializedView.tokenGroups]
  | append_singleton tokens token ih =>
    rw [tokenGroups_concat, TreeMap.mem_insert, map_append, mem_append, ← ih, compare_eq_iff_eq,
      map_singleton, mem_singleton, eq_comm, or_comm]

/-- The sessions that the rows of a group belong to. -/
def sessionsOf (v : MaterializedView σ) (groupBy k : String) (tokens : List TokenUsageRow) :
    Finset String :=
  ((tokens.filter (v.tokenGroup groupBy · = k)).filterMap v.tokenSessionKey).toFinset

theorem getD_tokenGroups : let group := (v.tokenGroups groupBy tokens).getD k (.new k)
    group.row.group = k ∧ group.sessions = sessionsOf v groupBy k tokens ∧
      group.row.amounts = total (v.tokenGroup groupBy) TokenUsageRow.amounts tokens k := by
  induction tokens using reverseRecOn with
  | nil => exact ⟨rfl, rfl, rfl⟩
  | append_singleton tokens token ih =>
    obtain ⟨hgroup, hsessions, hamounts⟩ := ih
    rw [tokenGroups_concat, TreeMap.getD_insert, sessionsOf, filter_append, filterMap_append,
      toFinset_append, ← sessionsOf, total_append, total_cons, total_nil, add_zero]
    by_cases h : v.tokenGroup groupBy token = k
    · subst h
      rw [if_pos (compare_eq_iff_eq.mpr rfl), if_pos rfl, ← hsessions, ← hamounts]
      refine ⟨hgroup, ?_, rfl⟩
      rw [TokenSummaryGroup.add]
      cases hkey : v.tokenSessionKey token <;> simp [hkey]
    · rw [if_neg (mt compare_eq_iff_eq.mp h), if_neg h]
      simp [h, hgroup, hsessions, hamounts]

theorem getElem?_tokenGroups {group : TokenSummaryGroup}
    (h : (v.tokenGroups groupBy tokens)[k]? = some group) :
    group.row.group = k ∧ group.sessions = sessionsOf v groupBy k tokens ∧
      group.row.amounts = total (v.tokenGroup groupBy) TokenUsageRow.amounts tokens k := by
  have hcounts := @getD_tokenGroups _ v groupBy k tokens
  rwa [TreeMap.getD_eq_getD_getElem?, h] at hcounts

theorem filed_tokenGroups : Filed (·.row.group) (v.tokenGroups groupBy tokens) :=
  fun _ _ h => (getElem?_tokenGroups h).1

theorem foldl_amounts (acc : Int64 × Int64 × Int64) :
    tokens.foldl (fun (input, output, total) token =>
      (input + .ofInt token.inputTokens, output + .ofInt token.outputTokens,
        total + .ofInt token.totalTokens)) acc =
      acc + (tokens.map TokenUsageRow.amounts).sum.1 := by
  induction tokens generalizing acc with
  | nil => exact (add_zero acc).symm
  | cons token tokens ih =>
    rw [foldl_cons, ih, map_cons, sum_cons, Prod.fst_add, ← add_assoc]
    rfl

/-- Each effective row is counted in the one line of its group, with its session, and the lines add
up to what the snapshot reports. -/
theorem token_summary_conserves (v : MaterializedView σ) (groupBy : String) :
    let rows := v.tokenSummary groupBy
    (rows.map (·.group)).Nodup ∧
      (∀ row ∈ rows,
        row.amounts =
            total (v.tokenGroup groupBy) TokenUsageRow.amounts v.effectiveTokens row.group ∧
          row.sessions = .ofNat (sessionsOf v groupBy row.group v.effectiveTokens).card) ∧
      (rows.map TokenSummary.amounts).sum = (v.effectiveTokens.map TokenUsageRow.amounts).sum ∧
      (rows.map TokenSummary.amounts).sum.1 = v.snapshotTokens := by
  have hperm : (v.tokenSummary groupBy).Perm _ := mergeSort_perm ..
  have hnodup := pairwise_map.mpr (@filed_tokenGroups _ v groupBy v.effectiveTokens).values_pairwise
  have hcounted {group : TokenSummaryGroup}
      (h : group ∈ (v.tokenGroups groupBy v.effectiveTokens).values) :=
    (getElem?_tokenGroups (filed_tokenGroups.mem_values.mp h)).2
  have hcover : ∀ token ∈ v.effectiveTokens, v.tokenGroup groupBy token ∈
      (v.tokenGroups groupBy v.effectiveTokens).values.map (·.row.group) := by
    intro token htoken
    have hmem := mem_tokenGroups.mpr (mem_map_of_mem (f := v.tokenGroup groupBy) htoken)
    obtain ⟨group, hget⟩ := Option.isSome_iff_exists.mp (TreeMap.mem_iff_isSome_getElem?.mp hmem)
    have hgroup := (getElem?_tokenGroups hget).1
    exact mem_map.mpr ⟨group, filed_tokenGroups.mem_values.mpr (by rwa [hgroup]), hgroup⟩
  have hsum : ((v.tokenSummary groupBy).map TokenSummary.amounts).sum =
      (v.effectiveTokens.map TokenUsageRow.amounts).sum := by
    rw [(hperm.map _).sum_eq, map_map, ← sum_totals hnodup hcover, map_map]
    exact congrArg sum (map_congr_left fun group hgroup => (hcounted hgroup).2)
  refine ⟨?_, fun row hrow => ?_, hsum, ?_⟩
  · rwa [(hperm.map _).nodup_iff, map_map]
  · obtain ⟨group, hgroup, rfl⟩ := mem_map.mp (hperm.mem_iff.mp hrow)
    obtain ⟨hsessions, hamounts⟩ := hcounted hgroup
    exact ⟨hamounts, congrArg (fun sessions => Int64.ofNat sessions.card) hsessions⟩
  · rw [hsum, MaterializedView.snapshotTokens, foldl_amounts]
    exact (zero_add _).symm

end AgentSight.View
