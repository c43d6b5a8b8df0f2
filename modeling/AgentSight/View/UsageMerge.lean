import AgentSight.Lib.JoinFold
import AgentSight.View.Llm
import Mathlib.Data.List.ReduceOption

/-!
# The usage of a stream of SSE events

`extract_token_usage_from_sse` merges the usage objects of a stream one after another. It comes to
their join, counter by counter: neither the order of the events nor their repetitions count. Each
counter is the greatest that is reported, unless the two counts that Gemini reports for its output
overflow when they are added.
-/

namespace AgentSight.View

open Json (Value)
open JoinFold (joins isGreatest_joins joins_congr joins_le_iff map_joins foldl_eq_joins)
open List Option
open WrappingSum (wrap wrap_lt wrap_of_fits)

/-! ### The counters of a usage -/

/-- What a usage counts. -/
inductive UsageCounter where
  | input
  | output
  | cacheCreation
  | cacheRead
  | total
  deriving DecidableEq

namespace TokenUsage

/-- A total that is not given counts as zero. -/
def counter (usage : TokenUsage) : UsageCounter → ℤ
  | .input => usage.inputTokens
  | .output => usage.outputTokens
  | .cacheCreation => usage.cacheCreationTokens
  | .cacheRead => usage.cacheReadTokens
  | .total => usage.totalOverride.getD 0

/-- A total is only given where it is positive. -/
def TotalPos (usage : TokenUsage) : Prop := ∀ total ∈ usage.totalOverride, 0 < total

theorem totalPos_zero : TotalPos {} := by
  intro total htotal
  cases htotal

theorem TotalPos.counter_nonneg {usage : TokenUsage} (h : usage.TotalPos) :
    0 ≤ usage.counter .total := by
  rw [counter]
  cases htotal : usage.totalOverride with
  | none => exact le_rfl
  | some total => exact (h total htotal).le

/-- A usage with a positive total, if any, is known by its counters. -/
theorem eq_of_counter_eq {usage usage' : TokenUsage} (h : usage.TotalPos) (h' : usage'.TotalPos)
    (hsame : usage.counter = usage'.counter) : usage = usage' := by
  have hcounter c : usage.counter c = usage'.counter c := congrFun hsame c
  have htotal : usage.totalOverride = usage'.totalOverride := by
    have hvalue := hcounter .total
    simp only [counter] at hvalue
    cases hleft : usage.totalOverride with
    | none =>
      cases hright : usage'.totalOverride with
      | none => rfl
      | some total =>
        have hpos := h' total hright
        rw [hleft, hright, getD_none, getD_some] at hvalue
        omega
    | some total =>
      have hpos := h total hleft
      cases hright : usage'.totalOverride with
      | none =>
        rw [hleft, hright, getD_none, getD_some] at hvalue
        omega
      | some total' =>
        rw [hleft, hright, getD_some, getD_some] at hvalue
        rw [hvalue]
  rw [mk.injEq]
  exact ⟨hcounter .input, hcounter .output, hcounter .cacheCreation, hcounter .cacheRead, htotal⟩

end TokenUsage

/-! ### One usage object -/

/-- What one usage object reports. -/
def reportOf (usage : Value) : TokenUsage := extractTokenUsage (.object [("usage", usage)])

variable {usage data : Value}

theorem extractTokenUsage_of_usage {body : Value}
    (h : (body.get "usage").or (body.get "usageMetadata") = some usage) :
    extractTokenUsage body = reportOf usage := by
  have hget : (Value.get (.object [("usage", usage)]) "usage").or
      (Value.get (.object [("usage", usage)]) "usageMetadata") = some usage := rfl
  rw [reportOf, extractTokenUsage, extractTokenUsage, h, hget]

theorem reportOf_totalPos (usage : Value) : (reportOf usage).TotalPos := by
  intro total htotal
  change total ∈ (if 0 < usageInt usage ["totalTokenCount"] then
    some (usageInt usage ["totalTokenCount"]) else none) at htotal
  split at htotal
  · next hpos => rwa [← some.inj htotal]
  · cases htotal

theorem counter_reportOf_total (usage : Value) :
    (reportOf usage).counter .total = max (usageInt usage ["totalTokenCount"]) 0 := by
  change (if 0 < usageInt usage ["totalTokenCount"] then
    some (usageInt usage ["totalTokenCount"]) else none).getD 0 = _
  split
  · next hpos => exact (max_eq_left hpos.le).symm
  · next hpos => exact (max_eq_right (not_lt.mp hpos)).symm

/-- The counters of a usage object: the integers in its fields are none of them negative. -/
def NonNegCounters (usage : Value) : Prop :=
  ∀ name n, (usage.get name).bind (·.asI64) = some n → 0 ≤ n ∧ n < 2 ^ 63

theorem nonNegCounters_object {fields : List (String × Value)}
    (h : ∀ field ∈ fields, ∀ n, field.2.asI64 = some n → 0 ≤ n ∧ n < 2 ^ 63) :
    NonNegCounters (.object fields) := by
  intro name n hn
  rw [Value.get] at hn
  cases hfield : fields.find? (·.1 == name) with
  | none =>
    rw [hfield] at hn
    cases hn
  | some field =>
    rw [hfield] at hn
    exact h field (mem_of_find?_eq_some hfield) n hn

theorem NonNegCounters.usageInt (h : NonNegCounters usage) (names : List String) :
    0 ≤ usageInt usage names ∧ usageInt usage names < 2 ^ 63 := by
  rw [View.usageInt]
  cases hfound : names.findSome? fun name => (usage.get name).bind (·.asI64) with
  | none => exact ⟨le_rfl, by decide⟩
  | some n =>
    obtain ⟨name, -, hname⟩ := exists_of_findSome?_eq_some hfound
    exact h name n hname

theorem NonNegCounters.counter_reportOf (h : NonNegCounters usage)
    (c : UsageCounter) : 0 ≤ (reportOf usage).counter c := by
  cases c with
  | input => exact (h.usageInt _).1
  | output => exact le_max_of_le_left (h.usageInt _).1
  | cacheCreation => exact (h.usageInt _).1
  | cacheRead => exact (h.usageInt _).1
  | total => exact (reportOf_totalPos usage).counter_nonneg

/-! ### The merge is the join -/

theorem mergeUsage_join (target : TokenUsage) (usage : Value) (h : target.TotalPos) :
    (mergeUsage target usage).TotalPos ∧
      (mergeUsage target usage).counter = target.counter ⊔ (reportOf usage).counter := by
  have htarget := h.counter_nonneg
  constructor
  · intro total htotal
    simp only [mergeUsage] at htotal
    split at htotal
    · next hpos =>
      rw [← some.inj htotal]
      exact lt_max_of_lt_right hpos
    · exact h total htotal
  · funext c
    cases c with
    | total =>
      rw [Pi.sup_apply, counter_reportOf_total]
      simp only [TokenUsage.counter, mergeUsage] at htarget ⊢
      split
      · next hpos => rw [getD_some, max_eq_left hpos.le]
      · next hpos => rw [max_eq_right (not_lt.mp hpos), sup_eq_left.mpr htarget]
    | _ => rfl

/-- The usage objects of a stream, in the order they are merged. -/
def sseUsages (events : List Value) : List Value :=
  events.flatMap fun event => ((event.get "parsed_data").map usagesOfSseEvent).getD []

def sseEvents (data : Value) : Option (List Value) := (data.get "sse_events").bind (·.asArray)

variable {events : List Value}

theorem extractTokenUsageFromSse_eq (h : sseEvents data = some events) :
    extractTokenUsageFromSse data = (sseUsages events).foldl mergeUsage {} := by
  rw [extractTokenUsageFromSse, ← sseEvents, h, sseUsages, foldl_flatMap]
  dsimp only
  congr 1
  funext usage event
  cases event.get "parsed_data" <;> rfl

theorem mem_sseUsages :
    usage ∈ sseUsages events ↔ ∃ event ∈ events, ∃ parsed, event.get "parsed_data" = some parsed ∧
        usage ∈ usagesOfSseEvent parsed := by
  simp only [sseUsages, mem_flatMap]
  refine exists_congr fun event => and_congr_right fun _ => ?_
  cases event.get "parsed_data" <;> simp

theorem extractTokenUsageFromSse_totalPos
    (h : sseEvents data = some events) : (extractTokenUsageFromSse data).TotalPos := by
  rw [extractTokenUsageFromSse_eq h]
  exact List.foldlRecOn _ mergeUsage TokenUsage.totalPos_zero
    fun target htarget usage _ => (mergeUsage_join target usage htarget).1

/-- The counters of a stream are the joins of what its objects report. -/
theorem counter_extractTokenUsageFromSse (h : sseEvents data = some events) :
    (extractTokenUsageFromSse data).counter =
      joins (fun usage => (reportOf usage).counter) 0 (sseUsages events) := by
  have hzero : TokenUsage.counter {} = 0 := by
    funext c
    cases c <;> rfl
  rw [extractTokenUsageFromSse_eq h, foldl_eq_joins mergeUsage_join TokenUsage.totalPos_zero, hzero]

/-! ### The law of the extraction -/

/-- The candidates and the thoughts of a Gemini object. -/
def geminiOutput (usage : Value) : ℤ :=
  (["candidatesTokenCount", "thoughtsTokenCount"].filterMap fun name =>
    (usage.get name).bind (·.asI64)).sum

/-- What a usage object reports for a counter. -/
def reportedBy (usage : Value) : UsageCounter → ℤ
  | .output => max (usageInt usage ["output_tokens", "completion_tokens"]) (geminiOutput usage)
  | c => (reportOf usage).counter c

theorem counter_reportOf_output (usage : Value) : (reportOf usage).counter .output =
    max (usageInt usage ["output_tokens", "completion_tokens"]) (wrap (geminiOutput usage)) :=
  rfl

theorem NonNegCounters.geminiOutput (h : NonNegCounters usage) : 0 ≤ geminiOutput usage := by
  refine sum_nonneg fun n hn => ?_
  obtain ⟨name, -, hname⟩ := mem_filterMap.mp hn
  exact (h name n hname).1

/-- Where the output does not overflow, an object is read as it reports. -/
theorem NonNegCounters.counter_eq_reported (h : NonNegCounters usage)
    (hfits : View.geminiOutput usage < 2 ^ 63) (c : UsageCounter) :
    (reportOf usage).counter c = reportedBy usage c := by
  cases c with
  | output =>
    have hlow : -2 ^ 63 ≤ View.geminiOutput usage := le_trans (by decide) h.geminiOutput
    rw [counter_reportOf_output, wrap_of_fits hlow hfits, reportedBy]
  | _ => rfl

/-- What is counted is a 64-bit integer. -/
theorem counter_output_lt (h : sseEvents data = some events)
    (hcounters : ∀ usage ∈ sseUsages events, NonNegCounters usage) :
    (extractTokenUsageFromSse data).counter .output < 2 ^ 63 := by
  rw [counter_extractTokenUsageFromSse h,
    map_joins (fun counters : UsageCounter → ℤ => counters .output) fun _ _ => rfl]
  refine Int.lt_of_le_sub_one (joins_le_iff.mpr ⟨by decide, fun usage husage => ?_⟩)
  rw [counter_reportOf_output]
  exact Int.le_sub_one_of_lt (max_lt ((hcounters usage husage).usageInt _).2 (wrap_lt _))

/-- What the extraction from a stream should come to. -/
structure JoinsReports (data : Value) (events : List Value) : Prop where
  /-- Neither the order of the events nor their repetitions count. -/
  order : ∀ data' events', sseEvents data' = some events' →
    (∀ event, event ∈ events' ↔ event ∈ events) →
      extractTokenUsageFromSse data' = extractTokenUsageFromSse data
  /-- Each counter is the greatest that an object reports. -/
  greatest : ∀ c, sseUsages events ≠ [] → IsGreatest {n | ∃ usage ∈ sseUsages events,
    reportedBy usage c = n} ((extractTokenUsageFromSse data).counter c)
  empty : sseUsages events = [] → extractTokenUsageFromSse data = {}
  /-- One object alone is read as `extract_token_usage` reads it. -/
  single : ∀ usage body, sseUsages events = [usage] →
    (body.get "usage").or (body.get "usageMetadata") = some usage →
      extractTokenUsageFromSse data = extractTokenUsage body

/-- **The usage of a stream is the join of what its objects report, exactly if no object reports
candidates and thoughts that add up to more than a 64-bit integer holds.** -/
theorem sse_usage_is_join (data : Value) (events : List Value)
    (hdata : sseEvents data = some events) (hcounters : ∀ usage ∈ sseUsages events,
      NonNegCounters usage) :
    JoinsReports data events ↔ ∀ usage ∈ sseUsages events, geminiOutput usage < 2 ^ 63 := by
  have hcounter := counter_extractTokenUsageFromSse hdata
  constructor
  · intro hjoins usage husage
    have hgreatest := (hjoins.greatest .output (ne_nil_of_mem husage)).2 ⟨usage, husage, rfl⟩
    exact (le_max_right _ _).trans_lt (hgreatest.trans_lt (counter_output_lt hdata hcounters))
  intro hfits
  constructor
  case order =>
    intro data' events' hdata' hsame
    refine TokenUsage.eq_of_counter_eq (extractTokenUsageFromSse_totalPos hdata')
      (extractTokenUsageFromSse_totalPos hdata) ?_
    rw [hcounter, counter_extractTokenUsageFromSse hdata']
    exact joins_congr fun usage => by simp [mem_sseUsages, hsame]
  case greatest =>
    intro c hsome
    have hreported : {n | ∃ usage ∈ sseUsages events, reportedBy usage c = n} =
        {n | ∃ usage ∈ sseUsages events, (reportOf usage).counter c = n} :=
      Set.ext fun n => exists_congr fun usage => and_congr_right fun husage => by
        rw [(hcounters usage husage).counter_eq_reported (hfits usage husage)]
    rw [hreported, hcounter,
      map_joins (fun counters : UsageCounter → ℤ => counters c) fun _ _ => rfl]
    exact isGreatest_joins hsome fun usage husage => (hcounters usage husage).counter_reportOf c
  case empty =>
    intro hnone
    rw [extractTokenUsageFromSse_eq hdata, hnone, foldl_nil]
  case single =>
    intro usage body hone hbody
    have hmem : usage ∈ sseUsages events := by rw [hone]; exact mem_singleton_self usage
    rw [extractTokenUsage_of_usage hbody]
    refine TokenUsage.eq_of_counter_eq (extractTokenUsageFromSse_totalPos hdata)
      (reportOf_totalPos usage) ?_
    rw [hcounter, hone]
    funext c
    exact max_eq_right ((hcounters usage hmem).counter_reportOf c)

section Example

def counts (name : String) (n : ℕ) : Value := .object [(name, .number (.posInt n))]

def startEvent : Value :=
  .object [("parsed_data", .object [("message", .object [("usage", counts "input_tokens" 12)])])]

def deltaEvent : Value :=
  .object [("parsed_data", .object [("usage", counts "output_tokens" 30)])]

def streamOf (events : List Value) : Value := .object [("sse_events", .array events)]

/-- The delta of a message arrives before its start, and once more after it. -/
theorem sse_usage_is_join_of_message :
    extractTokenUsageFromSse (streamOf [deltaEvent, startEvent, deltaEvent]) =
        extractTokenUsageFromSse (streamOf [startEvent, deltaEvent]) ∧
      ((extractTokenUsageFromSse (streamOf [startEvent, deltaEvent])).counter .input,
        (extractTokenUsageFromSse (streamOf [startEvent, deltaEvent])).counter .output) =
          (12, 30) := by
  have hcounters : ∀ usage ∈ sseUsages [startEvent, deltaEvent], NonNegCounters usage := by
    intro usage husage
    obtain rfl | husage := mem_cons.mp husage
    · exact nonNegCounters_object (by simp [Value.asI64])
    · obtain rfl := mem_singleton.mp husage
      exact nonNegCounters_object (by simp [Value.asI64])
  have hjoins := (sse_usage_is_join (streamOf [startEvent, deltaEvent])
    [startEvent, deltaEvent] rfl hcounters).mpr (by decide)
  exact ⟨hjoins.order _ [deltaEvent, startEvent, deltaEvent] rfl (by simp), by decide⟩

/-- Gemini reports the greatest count of candidates, and one thought. -/
def overflowingEvent : Value :=
  .object [("parsed_data", .object [("usageMetadata", .object
    [("candidatesTokenCount", .number (.posInt (2 ^ 63 - 1))),
      ("thoughtsTokenCount", .number (.posInt 1))])])]

/-- The sum wraps around, and no output is counted. -/
theorem sse_usage_overflows : ¬ JoinsReports (streamOf [overflowingEvent]) [overflowingEvent] := by
  intro hjoins
  have hoverflow := (hjoins.greatest .output (by decide)).2
    ⟨_, mem_singleton_self _, rfl⟩
  revert hoverflow
  decide

end Example

end AgentSight.View
