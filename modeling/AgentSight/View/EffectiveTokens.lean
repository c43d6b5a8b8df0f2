import AgentSight.Lib.BestByKey
import AgentSight.Lib.JoinFold
import AgentSight.View.Materialized
import Mathlib.Algebra.Order.Ring.Rat
import Mathlib.Data.List.Pairwise
import Mathlib.Data.Prod.Lex
import Mathlib.Data.String.Basic

/-!
# Which token rows count

`effective_tokens` goes twice through the token rows of a view. The first pass compares, for each
process and model, what the network saw with what the process printed of itself, and sets one of
the two aside. The second keeps, of the rows that are left, the best one under each key.
-/

namespace AgentSight.View

open Std (TreeMap)
open BestByKey (best offer file)
open JoinFold (joins)
open WrappingSum (ofInt_sum wrap wrap_of_fits)
open List

/-! ### The rows -/

/-- The process and the model of a row that has both. -/
def TokenUsageRow.processModel (token : TokenUsageRow) : Option (ℕ × String) :=
  token.pid.bind fun pid => token.model.map fun model => (pid, model)

def isNetworkSource (source : String) : Bool :=
  source == "response_usage" || source == "orphan_response_usage"

def geminiStdoutSource : String := "gemini_cli_stdout_stats"

def TokenUsageRow.isNetwork (token : TokenUsageRow) : Bool := isNetworkSource token.source

def TokenUsageRow.isStdout (token : TokenUsageRow) : Bool := token.source == geminiStdoutSource

theorem TokenUsageRow.not_isStdout {token : TokenUsageRow} (h : token.isNetwork = true) :
    token.isStdout = false := by
  rw [isNetwork, isNetworkSource, Bool.or_eq_true, beq_iff_eq, beq_iff_eq] at h
  rw [isStdout]
  obtain h | h := h <;> rw [h] <;> decide

/-- For a process and a model, what its network rows sum up to, where the sum may wrap around, and
the greatest total it printed. -/
abbrev GeminiTotals := ℕ × String → Option (Int64 × ℤ)

def addGeminiTotals (totals : GeminiTotals) (token : TokenUsageRow) : GeminiTotals :=
  match token.processModel with
  | none => totals
  | some key =>
    let (network, stdout) := (totals key).getD (0, 0)
    Function.update totals key <| some <|
      if token.isNetwork then (network + .ofInt token.totalTokens, stdout)
      else if token.isStdout then (network, max stdout token.totalTokens)
      else (network, stdout)

def geminiTotals (tokens : List TokenUsageRow) : GeminiTotals :=
  tokens.foldl addGeminiTotals fun _ => none

def setAside (totals : GeminiTotals) (token : TokenUsageRow) : Bool :=
  match token.processModel.bind totals with
  | none => false
  | some (network, stdout) =>
    (token.isStdout && stdout ≤ network.toInt) || (token.isNetwork && network.toInt < stdout) ||
      (token.isStdout && token.totalTokens < stdout)

def geminiStdoutKey (key : ℕ × String) : String :=
  "gemini-stdout\x00" ++ toString key.1 ++ "\x00" ++ key.2

def selectionKey (token : TokenUsageRow) : String :=
  if token.isStdout then (token.processModel.map geminiStdoutKey).getD token.id
  else if token.llmCallId.isEmpty then token.id
  else token.llmCallId

def tokenSourcePriority (source : String) : ℕ :=
  if source == "response_usage" then 0
  else if source == "orphan_response_usage" then 1
  else if source == "gemini_cli_stdout_stats" then 2
  else if source == "claude_telemetry" then 3
  else if source == agentNativeSource then 4
  else 5

def tokenHasHigherPriority (candidate current : TokenUsageRow) : Bool :=
  (((compare (tokenSourcePriority candidate.source) (tokenSourcePriority current.source)).then
    (compare (current.confidence.getD 0) (candidate.confidence.getD 0))).then
    (compare candidate.id current.id)).isLT

def effectiveTokensOf (tokens : List TokenUsageRow) : List TokenUsageRow :=
  let totals := geminiTotals tokens
  (tokens.foldl (fun selected token =>
      if setAside totals token then selected
      else offer selectionKey tokenHasHigherPriority selected token)
    (∅ : TreeMap String TokenUsageRow)).values

def MaterializedView.effectiveTokens {σ : Type} (v : MaterializedView σ) : List TokenUsageRow :=
  effectiveTokensOf v.tokenUsage.values

/-! ### The order of the rows of a key -/

/-- What the rows of a key are compared by. -/
def tokenRank (token : TokenUsageRow) : ℕ ×ₗ ℚ ×ₗ String :=
  toLex (tokenSourcePriority token.source, toLex (-token.confidence.getD 0, token.id))

theorem tokenHasHigherPriority_iff (candidate current : TokenUsageRow) :
    tokenHasHigherPriority candidate current = true ↔ tokenRank candidate < tokenRank current := by
  simp only [tokenHasHigherPriority, tokenRank, Prod.Lex.toLex_lt_toLex, neg_lt_neg_iff, neg_inj,
    Ordering.isLT_iff_eq_lt, Ordering.then_eq_lt, Ordering.then_eq_eq, compare_lt_iff_lt,
    compare_eq_iff_eq, eq_comm (a := candidate.confidence.getD 0)]
  tauto

variable {rows tokens rows' : List TokenUsageRow}

/-- Rows of distinct ids are never tied. -/
theorem tokenRank_apart (hids : (rows.map (·.id)).Nodup) :
    ∀ row ∈ rows, ∀ other ∈ rows, tokenRank row = tokenRank other → row = other := by
  intro row hrow other hother hsame
  simp only [tokenRank, EmbeddingLike.apply_eq_iff_eq, Prod.mk.injEq] at hsame
  exact inj_on_of_nodup_map hids hrow hother hsame.2.2

/-! ### The two totals of a process and model -/

section Totals

variable (tokens : List TokenUsageRow) (key : ℕ × String)

def networkRows : List TokenUsageRow :=
  tokens.filter fun token => token.processModel = some key && token.isNetwork

def stdoutRows : List TokenUsageRow :=
  tokens.filter fun token => token.processModel = some key && token.isStdout

def networkTotal : Int64 := ((networkRows tokens key).map (.ofInt ·.totalTokens)).sum

/-- What the network rows sum up to. -/
def networkSum : ℤ := ((networkRows tokens key).map (·.totalTokens)).sum

theorem toInt_networkTotal : (networkTotal tokens key).toInt = wrap (networkSum tokens key) := by
  rw [networkTotal, networkSum, wrap, ← ofInt_sum, map_map]
  rfl

/-- The greatest total that was printed, zero where there is none above it. -/
def stdoutTotal : ℤ := joins (·.totalTokens) 0 (stdoutRows tokens key)

theorem networkTotal_concat (token : TokenUsageRow) : networkTotal (tokens ++ [token]) key =
      if token.processModel = some key ∧ token.isNetwork = true then
        networkTotal tokens key + .ofInt token.totalTokens
      else networkTotal tokens key := by
  split_ifs with h
  · simp [networkTotal, networkRows, h.1, h.2]
  · have hnot : (decide (token.processModel = some key) && token.isNetwork) = false := by
      simpa using h
    simp [networkTotal, networkRows, hnot]

theorem stdoutTotal_concat (token : TokenUsageRow) : stdoutTotal (tokens ++ [token]) key =
      if token.processModel = some key ∧ token.isStdout = true then
        max (stdoutTotal tokens key) token.totalTokens
      else stdoutTotal tokens key := by
  rw [stdoutTotal, stdoutRows, filter_append, JoinFold.joins_append]
  split_ifs with h
  · simp [stdoutTotal, stdoutRows, h.1, h.2]
  · have hnot : (decide (token.processModel = some key) && token.isStdout) = false := by
      simpa using h
    simp [stdoutTotal, stdoutRows, hnot]

theorem geminiTotals_eq : geminiTotals tokens key =
      if ∃ token ∈ tokens, token.processModel = some key then
        some (networkTotal tokens key, stdoutTotal tokens key)
      else none := by
  induction tokens using List.reverseRecOn with
  | nil => simp [geminiTotals]
  | append_singleton tokens token ih =>
    have hconcat : geminiTotals (tokens ++ [token]) = addGeminiTotals (geminiTotals tokens) token :=
      foldl_concat ..
    have hsofar : (geminiTotals tokens key).getD (0, 0) =
        (networkTotal tokens key, stdoutTotal tokens key) := by
      rw [ih]
      split_ifs with hsome
      · rfl
      · have hsome : ∀ row ∈ tokens, row.processModel ≠ some key := fun row hrow hkey =>
          hsome ⟨row, hrow, hkey⟩
        have hnetwork : networkRows tokens key = [] := by
          simpa [networkRows] using fun row hrow hkey => absurd hkey (hsome row hrow)
        have hstdout : stdoutRows tokens key = [] := by
          simpa [stdoutRows] using fun row hrow hkey => absurd hkey (hsome row hrow)
        rw [networkTotal, stdoutTotal, hnetwork, hstdout]
        rfl
    rw [hconcat, addGeminiTotals, networkTotal_concat, stdoutTotal_concat]
    cases hkey : token.processModel with
    | none => simp [ih, hkey]
    | some key' =>
      dsimp only
      by_cases hsame : key' = key
      · subst hsame
        have hsome : ∃ row ∈ tokens ++ [token], row.processModel = some key' :=
          ⟨token, mem_concat_self, hkey⟩
        rw [hsofar, if_pos hsome]
        cases hnetwork : token.isNetwork with
        | true => simp [token.not_isStdout hnetwork]
        | false => cases hstdout : token.isStdout <;> simp
      · rw [Function.update_of_ne (Ne.symm hsame), ih]
        simp [hkey, hsame]

end Totals

theorem networkTotal_perm (h : tokens.Perm rows)
    (key : ℕ × String) : networkTotal tokens key = networkTotal rows key :=
  ((h.filter _).map _).sum_eq

theorem networkSum_perm (h : tokens.Perm rows)
    (key : ℕ × String) : networkSum tokens key = networkSum rows key :=
  ((h.filter _).map _).sum_eq

theorem stdoutTotal_perm (h : tokens.Perm rows)
    (key : ℕ × String) : stdoutTotal tokens key = stdoutTotal rows key :=
  JoinFold.joins_congr fun _ => (h.filter _).mem_iff

theorem geminiTotals_perm (h : tokens.Perm rows) : geminiTotals tokens = geminiTotals rows := by
  funext key
  simp [geminiTotals_eq, networkTotal_perm h, stdoutTotal_perm h, h.mem_iff]

section SetAside

variable {rows : List TokenUsageRow} {row : TokenUsageRow} {key : ℕ × String}

theorem setAside_eq (hrow : row ∈ rows) (hkey : row.processModel = some key) :
    setAside (geminiTotals rows) row =
      ((row.isStdout && stdoutTotal rows key ≤ (networkTotal rows key).toInt) ||
          (row.isNetwork && (networkTotal rows key).toInt < stdoutTotal rows key) ||
        (row.isStdout && row.totalTokens < stdoutTotal rows key)) := by
  have hsome : ∃ row ∈ rows, row.processModel = some key := ⟨row, hrow, hkey⟩
  rw [setAside, hkey, Option.bind_some, geminiTotals_eq, if_pos hsome]

/-- A network row counts where the network saw at least what was printed. -/
theorem setAside_network (hrow : row ∈ rows) (hkey : row.processModel = some key)
    (hnetwork : row.isNetwork = true) :
    setAside (geminiTotals rows) row = true ↔
      (networkTotal rows key).toInt < stdoutTotal rows key := by
  rw [setAside_eq hrow hkey, hnetwork, row.not_isStdout hnetwork]
  simp

/-- A printed row counts where more was printed than the network saw, if it is the greatest. -/
theorem setAside_stdout (hrow : row ∈ rows) (hkey : row.processModel = some key)
    (hstdout : row.isStdout = true) :
    setAside (geminiTotals rows) row = false ↔
      (networkTotal rows key).toInt < stdoutTotal rows key ∧
        row.totalTokens = stdoutTotal rows key := by
  have hle : row.totalTokens ≤ stdoutTotal rows key := by
    have hmem : row ∈ stdoutRows rows key := by simp [stdoutRows, hrow, hkey, hstdout]
    exact (JoinFold.joins_le_iff.mp le_rfl).2 row hmem
  have hnetwork : row.isNetwork = false := by
    cases h : row.isNetwork with
    | false => rfl
    | true => rw [row.not_isStdout h] at hstdout; cases hstdout
  rw [setAside_eq hrow hkey, hstdout, hnetwork]
  simp only [Bool.true_and, Bool.false_and, Bool.or_false, Bool.or_eq_false_iff,
    decide_eq_false_iff_not, not_le, not_lt]
  exact and_congr_right fun _ => hle.ge_iff_eq

end SetAside

/-! ### What is counted -/

/-- No other row that is not set aside ranks above it under its key. -/
def Leads (rows : List TokenUsageRow) (row : TokenUsageRow) : Prop :=
  ∀ other ∈ rows, setAside (geminiTotals rows) other = false →
    selectionKey other = selectionKey row → other = row ∨ tokenHasHigherPriority row other = true

instance (rows : List TokenUsageRow) (row : TokenUsageRow) : Decidable (Leads rows row) :=
  inferInstanceAs (Decidable (∀ other ∈ rows, setAside (geminiTotals rows) other = false →
    selectionKey other = selectionKey row → other = row ∨ tokenHasHigherPriority row other = true))

variable {row : TokenUsageRow}

theorem Leads.perm (h : rows.Perm rows') (hleads : Leads rows row) : Leads rows' row := by
  intro other hother hkept
  rw [← geminiTotals_perm h] at hkept
  exact hleads other (h.mem_iff.mpr hother) hkept

theorem effectiveTokensOf_eq (tokens : List TokenUsageRow) :
    effectiveTokensOf tokens = (best selectionKey tokenHasHigherPriority
      (tokens.filter fun token => !setAside (geminiTotals tokens) token)).values := by
  rw [effectiveTokensOf, best, foldl_filter]
  congr 2
  funext selected token
  cases setAside (geminiTotals tokens) token <;> rfl

theorem mem_effectiveTokensOf (hids : (tokens.map (·.id)).Nodup) : row ∈ effectiveTokensOf tokens ↔
      row ∈ tokens ∧ setAside (geminiTotals tokens) row = false ∧ Leads tokens row := by
  have hapart := tokenRank_apart hids
  rw [effectiveTokensOf_eq, BestByKey.mem_values_best tokenHasHigherPriority_iff
    fun row hrow other hother => hapart row (mem_of_mem_filter hrow) other
      (mem_of_mem_filter hother)]
  simp only [mem_filter, Bool.not_eq_true', Leads, and_imp, and_assoc]

theorem effectiveTokensOf_pairwise (tokens : List TokenUsageRow) :
    (effectiveTokensOf tokens).Pairwise fun row other => selectionKey row ≠ selectionKey other := by
  rw [effectiveTokensOf_eq]
  exact (BestByKey.best_best tokenHasHigherPriority_iff _).filed.values_pairwise

/-- Under the key of a row that is not set aside some row is counted. -/
theorem exists_mem_effectiveTokensOf
    (hrow : row ∈ tokens) (hkept : setAside (geminiTotals tokens) row = false) :
    ∃ other ∈ effectiveTokensOf tokens, selectionKey other = selectionKey row := by
  rw [effectiveTokensOf_eq]
  exact BestByKey.exists_mem_values_best tokenHasHigherPriority_iff
    (mem_filter.mpr ⟨hrow, by simp [hkept]⟩)

/-- What a process and model are counted with, by the network and by what they printed. -/
def contribution (tokens : List TokenUsageRow) (key : ℕ × String) : ℤ :=
  ((tokens.filter fun token =>
    token.processModel = some key && (token.isNetwork || token.isStdout)).map (·.totalTokens)).sum

/-- The network rows of a process and model all lead and their sum fits, and only what it printed
has its key. -/
structure Uncontested (rows : List TokenUsageRow) (key : ℕ × String) : Prop where
  fits : -2 ^ 63 ≤ networkSum rows key ∧ networkSum rows key < 2 ^ 63
  network : ∀ row ∈ networkRows rows key, Leads rows row
  stdout : ∀ row ∈ rows, setAside (geminiTotals rows) row = false →
    selectionKey row = geminiStdoutKey key → row ∈ stdoutRows rows key

/-- How rows of a view are counted. -/
structure Accounting (rows effective : List TokenUsageRow) : Prop where
  counted : ∀ row, row ∈ effective ↔
    row ∈ rows ∧ setAside (geminiTotals rows) row = false ∧ Leads rows row
  once : effective.Nodup
  call : ∀ row ∈ effective, ∀ other ∈ effective, row.isStdout = false → other.isStdout = false →
    row.llmCallId ≠ "" → other.llmCallId = row.llmCallId → other = row
  printed : ∀ row ∈ effective, ∀ other ∈ effective, row.isStdout = true → other.isStdout = true →
    row.processModel.isSome = true → other.processModel = row.processModel → other = row
  apart : ∀ row ∈ effective, ∀ other ∈ effective, row.isNetwork = true →
    row.processModel.isSome = true → other.processModel = row.processModel → other.isStdout = false
  total : ∀ key, Uncontested rows key →
    contribution effective key = max (networkSum rows key) (stdoutTotal rows key)

variable {key : ℕ × String}

theorem selectionKey_stdout (hkey : row.processModel = some key) (hstdout : row.isStdout = true) :
    selectionKey row = geminiStdoutKey key := by
  rw [selectionKey, hstdout, hkey]
  rfl

theorem selectionKey_call (hstdout : row.isStdout = false)
    (hcall : row.llmCallId ≠ "") : selectionKey row = row.llmCallId := by
  rw [selectionKey, hstdout]
  simp [hcall]

theorem eq_of_selectionKey {other : TokenUsageRow}
    (hrow : row ∈ effectiveTokensOf tokens) (hother : other ∈ effectiveTokensOf tokens)
    (hkey : selectionKey other = selectionKey row) : other = row := by
  have hsymm : Std.Symm fun row other : TokenUsageRow => selectionKey row ≠ selectionKey other :=
    ⟨fun _ _ h => h.symm⟩
  by_contra hne
  exact (effectiveTokensOf_pairwise tokens).forall hother hrow hne hkey

theorem mem_networkRows : row ∈ networkRows rows key ↔
      row ∈ rows ∧ row.processModel = some key ∧ row.isNetwork = true := by
  simp [networkRows]

theorem mem_stdoutRows :
    row ∈ stdoutRows rows key ↔ row ∈ rows ∧ row.processModel = some key ∧ row.isStdout = true := by
  simp [stdoutRows]

theorem effectiveTokensOf_nodup (tokens : List TokenUsageRow) : (effectiveTokensOf tokens).Nodup :=
  (effectiveTokensOf_pairwise tokens).imp fun h hsame => h (congrArg selectionKey hsame)

theorem Uncontested.toInt_networkTotal (hfree : Uncontested rows key) :
    (networkTotal rows key).toInt = networkSum rows key := by
  rw [View.toInt_networkTotal, wrap_of_fits hfree.fits.1 hfree.fits.2]

/-- Where the network saw enough, its rows are what counts. -/
theorem contribution_network (hids : (rows.map (·.id)).Nodup) (hfree : Uncontested rows key)
    (hle : stdoutTotal rows key ≤ (networkTotal rows key).toInt) :
    contribution (effectiveTokensOf rows) key = networkSum rows key := by
  have hsame : ((effectiveTokensOf rows).filter fun token =>
      token.processModel = some key && (token.isNetwork || token.isStdout)).Perm
        (networkRows rows key) := by
    refine (perm_ext_iff_of_nodup ((effectiveTokensOf_nodup rows).filter _)
      ((Nodup.of_map _ hids).filter _)).mpr fun row => ?_
    simp only [mem_filter, mem_effectiveTokensOf hids, Bool.and_eq_true, Bool.or_eq_true,
      decide_eq_true_eq]
    constructor
    · rintro ⟨⟨hrow, hkept, -⟩, hkey, hnetwork | hstdout⟩
      · exact ⟨hrow, hkey, hnetwork⟩
      · exact absurd ((setAside_stdout hrow hkey hstdout).mp hkept).1 (not_lt.mpr hle)
    · rintro ⟨hrow, hkey, hnetwork⟩
      have hkept : setAside (geminiTotals rows) row = false :=
        Bool.eq_false_iff.mpr (mt (setAside_network hrow hkey hnetwork).mp (not_lt.mpr hle))
      exact ⟨⟨hrow, hkept, hfree.network row (mem_networkRows.mpr ⟨hrow, hkey, hnetwork⟩)⟩, hkey,
        .inl hnetwork⟩
  exact (hsame.map _).sum_eq

/-- Where more was printed, one printed row is what counts. -/
theorem contribution_stdout (hids : (rows.map (·.id)).Nodup) (hfree : Uncontested rows key)
    (hlt : (networkTotal rows key).toInt < stdoutTotal rows key) :
    contribution (effectiveTokensOf rows) key = stdoutTotal rows key := by
  rw [contribution]
  set counted := (effectiveTokensOf rows).filter fun token =>
    token.processModel = some key && (token.isNetwork || token.isStdout) with hcounted
  have hmem row (hrow : row ∈ counted) : row ∈ effectiveTokensOf rows ∧
      row.totalTokens = stdoutTotal rows key ∧ selectionKey row = geminiStdoutKey key := by
    simp only [hcounted, mem_filter, Bool.and_eq_true, Bool.or_eq_true,
      decide_eq_true_eq] at hrow
    obtain ⟨heffective, hkey, hsource⟩ := hrow
    obtain ⟨hrow, hkept, -⟩ := (mem_effectiveTokensOf hids).mp heffective
    have hstdout : row.isStdout = true := by
      refine hsource.resolve_left fun hnetwork => ?_
      rw [(setAside_network hrow hkey hnetwork).mpr hlt] at hkept
      cases hkept
    exact ⟨heffective, ((setAside_stdout hrow hkey hstdout).mp hkept).2,
      selectionKey_stdout hkey hstdout⟩
  have hnodup : counted.Nodup := (effectiveTokensOf_nodup rows).filter _
  have hone : ∀ row ∈ counted, ∀ other ∈ counted, other = row := by
    intro row hrow other hother
    obtain ⟨hrow, -, hkey⟩ := hmem row hrow
    obtain ⟨hother, -, hkey'⟩ := hmem other hother
    exact eq_of_selectionKey hrow hother (hkey'.trans hkey.symm)
  cases hlist : counted with
  | nil =>
    -- Nothing is counted, so nothing was printed either.
    obtain hzero | ⟨row, hrow, htotal⟩ := JoinFold.joins_mem (·.totalTokens) 0 (stdoutRows rows key)
    · exact hzero.symm
    · obtain ⟨hrow, hkey, hstdout⟩ := mem_stdoutRows.mp hrow
      obtain ⟨other, hother, hsame⟩ := exists_mem_effectiveTokensOf hrow
        ((setAside_stdout hrow hkey hstdout).mpr ⟨hlt, htotal⟩)
      obtain ⟨hmem', hkept, -⟩ := (mem_effectiveTokensOf hids).mp hother
      obtain ⟨-, hkey', hstdout'⟩ := mem_stdoutRows.mp (hfree.stdout other hmem' hkept
        (hsame.trans (selectionKey_stdout hkey hstdout)))
      have : other ∈ counted := by simp [hcounted, hother, hkey', hstdout']
      rw [hlist] at this
      cases this
  | cons row rest =>
    rw [hlist] at hmem hone hnodup
    have hrest : rest = [] := by
      refine eq_nil_iff_forall_not_mem.mpr fun other hother => ?_
      have hsame := hone row mem_cons_self other (mem_cons_of_mem row hother)
      exact (nodup_cons.mp hnodup).1 (hsame ▸ hother)
    rw [hrest, map_singleton, sum_singleton]
    exact (hmem row mem_cons_self).2.1

theorem Uncontested.perm
    (h : rows.Perm rows') (hfree : Uncontested rows key) : Uncontested rows' key where
  fits := networkSum_perm h key ▸ hfree.fits
  network row hrow := (hfree.network row ((h.filter _).mem_iff.mpr hrow)).perm h
  stdout row hrow hkept hkey := by
    rw [← geminiTotals_perm h] at hkept
    exact (h.filter _).mem_iff.mp (hfree.stdout row (h.mem_iff.mpr hrow) hkept hkey)

theorem Accounting.perm {effective : List TokenUsageRow} (h : rows.Perm rows')
    (haccount : Accounting rows effective) : Accounting rows' effective :=
  { haccount with
    counted := fun row => by
      rw [haccount.counted, geminiTotals_perm h, h.mem_iff]
      exact and_congr_right fun _ => and_congr_right fun _ => ⟨.perm h, .perm h.symm⟩
    total := fun key hfree => by
      rw [haccount.total key (hfree.perm h.symm), networkSum_perm h, stdoutTotal_perm h] }

theorem accounting (hids : (rows.map (·.id)).Nodup) : Accounting rows (effectiveTokensOf rows) where
  counted _ := mem_effectiveTokensOf hids
  once := effectiveTokensOf_nodup rows
  call row hrow other hother hstdout hstdout' hcall hsame := by
    refine eq_of_selectionKey hrow hother ?_
    rw [selectionKey_call hstdout hcall, selectionKey_call hstdout' (by rwa [hsame]), hsame]
  printed row hrow other hother hstdout hstdout' hkey hsame := by
    obtain ⟨key, hkey⟩ := Option.isSome_iff_exists.mp hkey
    refine eq_of_selectionKey hrow hother ?_
    rw [selectionKey_stdout hkey hstdout, selectionKey_stdout (hsame.trans hkey) hstdout']
  apart row hrow other hother hnetwork hkey hsame := by
    obtain ⟨key, hkey⟩ := Option.isSome_iff_exists.mp hkey
    obtain ⟨hrow, hkept, -⟩ := (mem_effectiveTokensOf hids).mp hrow
    obtain ⟨hother, hkept', -⟩ := (mem_effectiveTokensOf hids).mp hother
    refine Bool.eq_false_iff.mpr fun hstdout => ?_
    have hlt := ((setAside_stdout hother (hsame.trans hkey) hstdout).mp hkept').1
    rw [(setAside_network hrow hkey hnetwork).mpr hlt] at hkept
    cases hkept
  total key hfree := by
    obtain hlt | hle := lt_or_ge (networkTotal rows key).toInt (stdoutTotal rows key)
    · rw [contribution_stdout hids hfree hlt, ← hfree.toInt_networkTotal, max_eq_right hlt.le]
    · rw [contribution_network hids hfree hle, ← hfree.toInt_networkTotal, max_eq_left hle]

/-! ### The rows of a view -/

section Filled

variable {σ : Type} (sinks : List σ)

/-- A new view that the rows are applied to. -/
def filled (rows : List TokenUsageRow) : MaterializedView σ :=
  rows.foldl MaterializedView.applyTokenUsage (.new sinks)

theorem tokenUsage_filled (rows : List TokenUsageRow) :
    (filled sinks rows).tokenUsage = file (·.id) rows := by
  induction rows using List.reverseRecOn with
  | nil => rfl
  | append_singleton rows row ih =>
    rw [filled, foldl_concat, BestByKey.file_concat, ← ih]
    rfl

/-- **Of rows with distinct ids, the ones that count do not depend on the order they come in:
under each key the best that is not set aside, no process and model both by the network and by
what it printed.** -/
theorem effective_tokens_accounted (rows : List TokenUsageRow) (hids : (rows.map (·.id)).Nodup) :
    Accounting rows (filled sinks rows).effectiveTokens ∧ ∀ rows', rows.Perm rows' →
        (filled sinks rows').effectiveTokens = (filled sinks rows).effectiveTokens := by
  have hperm : (file (·.id) rows).values.Perm rows :=
    (perm_ext_iff_of_nodup
      ((BestByKey.filed_file hids).values_pairwise.imp fun h hsame => h (congrArg _ hsame))
      (Nodup.of_map _ hids)).mpr fun _ => BestByKey.mem_values_file hids
  constructor
  · rw [MaterializedView.effectiveTokens, tokenUsage_filled]
    exact (accounting ((hperm.map _).nodup_iff.mpr hids)).perm hperm
  · intro rows' h
    rw [MaterializedView.effectiveTokens, MaterializedView.effectiveTokens, tokenUsage_filled,
      tokenUsage_filled, BestByKey.values_file_perm hids h]

end Filled

section Example

def tokenRow (id llmCallId source : String) (total : ℤ) : TokenUsageRow where
  id
  llmCallId
  timestampMs := 0
  pid := some 42
  comm := some "node"
  provider := some "gcp.gen_ai"
  model := some "gemini"
  inputTokens := total
  outputTokens := 0
  cacheCreationTokens := 0
  cacheReadTokens := 0
  totalTokens := total
  source
  viewSource := ""
  confidence := none

/-- Two calls that the network saw, and what the process printed of both. -/
def coveredCalls : List TokenUsageRow :=
  [tokenRow "one" "one" "response_usage" 7, tokenRow "two" "two" "response_usage" 8,
    tokenRow "stdout" "stdout" "gemini_cli_stdout_stats" 30]

theorem effective_tokens_accounted_of_covered :
    contribution (filled [NullSink.null] coveredCalls).effectiveTokens (42, "gemini") = 30 := by
  obtain ⟨haccount, -⟩ := effective_tokens_accounted [NullSink.null] coveredCalls (by decide)
  rw [haccount.total (42, "gemini") ⟨?_, ?_, ?_⟩]
  · decide
  · decide
  · decide
  · decide

/-- A printed row is not kept apart from a row of its own call that has another source. -/
def sharedCall : List TokenUsageRow :=
  [tokenRow "stdout" "call" "gemini_cli_stdout_stats" 15,
    tokenRow "native" "call" "agent_native_session" 15]

theorem shared_call_counted_twice : ¬ ∀ rows : List TokenUsageRow, (rows.map (·.id)).Nodup →
    ∀ call, call ≠ "" → ((filled [NullSink.null] rows).effectiveTokens.filter
      (·.llmCallId = call)).length ≤ 1 := by
  intro h
  have htwice := h sharedCall (by decide) "call" (by decide)
  revert htwice
  decide

end Example

end AgentSight.View
