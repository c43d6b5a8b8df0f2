import Mathlib.Data.List.ReduceOption
import AgentSight.Sse.Content
import AgentSight.Sse.Processor

/-!
# What a merged event says

The text, the JSON and the token usage of a merged event, as a later stage reads them off it,
are functions of the content-carrying events alone.
-/

namespace AgentSight.Sse

open Json (Value)
open View (Event TokenUsage mergeUsage usageInt usageSum usagesOfSseEvent extractTokenUsageFromSse)
open List

/-! ### Usage objects that say nothing -/

/-- Counters start at zero and only rise. -/
structure NonNeg (usage : TokenUsage) : Prop where
  input : 0 ≤ usage.inputTokens
  output : 0 ≤ usage.outputTokens
  cacheCreation : 0 ≤ usage.cacheCreationTokens
  cacheRead : 0 ≤ usage.cacheReadTokens

variable {target : TokenUsage}

theorem NonNeg.merge (h : NonNeg target) (usage : Value) : NonNeg (mergeUsage target usage) where
  input := by have := h.input; simp only [mergeUsage]; omega
  output := by have := h.output; simp only [mergeUsage]; omega
  cacheCreation := by have := h.cacheCreation; simp only [mergeUsage]; omega
  cacheRead := by have := h.cacheRead; simp only [mergeUsage]; omega

theorem NonNeg.foldl (h : NonNeg target) (usages : List Value) :
    NonNeg (usages.foldl mergeUsage target) := by
  induction usages generalizing target with
  | nil => exact h
  | cons usage usages ih => exact ih (h.merge usage)

theorem asI64_of_not_meaningful {usage : Value} (h : usageHasMeaningfulFields usage = false)
    (name : String) : (usage.get name).bind (·.asI64) = none := by
  cases usage with
  | object fields =>
    simp only [usageHasMeaningfulFields, Value.asObject, any_eq_false] at h
    cases hfind : fields.find? (·.1 == name) with
    | none => simp [Value.get, hfind]
    | some field =>
      have hnull := h field (mem_of_find?_eq_some hfind)
      cases hvalue : field.2 with
      | null => simp [Value.get, hfind, hvalue, Value.asI64]
      | _ => simp [hvalue, Value.isNull] at hnull
  | _ => rfl

theorem mergeUsage_of_not_meaningful (htarget : NonNeg target)
    {usage : Value} (h : usageHasMeaningfulFields usage = false) :
    mergeUsage target usage = target := by
  have hint names : usageInt usage names = 0 := by
    simp [usageInt, asI64_of_not_meaningful h, findSome?_eq_none_iff.mpr]
  have hsum names : usageSum usage names = 0 := by
    simp [usageSum, WrappingSum.wrap, asI64_of_not_meaningful h]
  simp [mergeUsage, View.usageInputTokens, View.usageOutputTokens, View.usageCacheCreationTokens,
    View.usageCacheReadTokens, hint, hsum, Int.max_eq_left htarget.input,
    Int.max_eq_left htarget.output, Int.max_eq_left htarget.cacheCreation,
    Int.max_eq_left htarget.cacheRead]

/-! ### The usage of a stream -/

/-- The usage objects an event adds to the merged event's. -/
def addUsage (usage : TokenUsage) (event : SSEEvent) : TokenUsage :=
  (usagesOfSseEvent (event.parsedData.getD .null)).foldl mergeUsage usage

def usageOf (events : List SSEEvent) : TokenUsage := events.foldl addUsage {}

/-- Objects that report nothing leave the usage as it is. -/
theorem foldl_mergeUsage_of_not_meaningful (htarget : NonNeg target)
    {usages : List Value} (h : ∀ usage ∈ usages, usageHasMeaningfulFields usage = false) :
    usages.foldl mergeUsage target = target := by
  induction usages with
  | nil => rfl
  | cons usage usages ih =>
    rw [forall_mem_cons] at h
    rw [foldl_cons, mergeUsage_of_not_meaningful htarget h.1, ih h.2]

theorem addUsage_of_not_carries {usage : TokenUsage} (husage : NonNeg usage) {event : SSEEvent}
    (h : event.carriesContent = false) : addUsage usage event = usage := by
  refine foldl_mergeUsage_of_not_meaningful husage fun object hobject => ?_
  simp only [SSEEvent.carriesContent, Bool.or_eq_false_iff] at h
  obtain ⟨⟨⟨⟨⟨-, husages⟩, -⟩, -⟩, -⟩, -⟩ := h
  cases hdata : event.parsedData with
  | none => simp [hdata, usagesOfSseEvent, Value.get, List.reduceOption] at hobject
  | some data =>
    have hnone : meaningfulUsage data = none := by
      simpa [sseEventHasUsage, hdata] using husages
    rw [meaningfulUsage, find?_eq_none] at hnone
    rw [hdata, usagesOfSseEvent, reduceOption_mem_iff] at hobject
    simpa using hnone object (reduceOption_mem_iff.mpr (by
      simp only [mem_cons, not_mem_nil] at hobject ⊢
      tauto))

theorem usageOf_filter (events : List SSEEvent) :
    usageOf (events.filter SSEEvent.carriesContent) = usageOf events := by
  have hfold usage (husage : NonNeg usage) :
      (events.filter SSEEvent.carriesContent).foldl addUsage usage =
        events.foldl addUsage usage := by
    induction events generalizing usage with
    | nil => rfl
    | cons event events ih =>
      cases h : event.carriesContent with
      | true =>
        rw [filter_cons_of_pos h]
        exact ih _ (husage.foldl _)
      | false =>
        rw [filter_cons_of_neg (by simp [h]), foldl_cons,
          addUsage_of_not_carries husage h]
        exact ih _ husage
  exact hfold {} ⟨by decide, by decide, by decide, by decide⟩

/-! ### The merged event -/

variable [External] [PrettyPrinter]

/-- The event is the merged event of a stream with the given events. -/
structure Merges (events : List SSEEvent) (event : Event) : Prop where
  source : event.source = "sse_processor"
  text : event.data.get "text_content" =
    some (.string (events.foldl Content.accumulate {}).accumulatedText)
  json : event.data.get "json_content" =
    some (.string (mergedJsonContent (events.foldl Content.accumulate {})))
  usage : extractTokenUsageFromSse event.data = usageOf events

/-- Only the events that carry content matter. -/
theorem Merges.congr {events events' : List SSEEvent} {event : Event} (h : Merges events event)
    (hfilter : events.filter SSEEvent.carriesContent = events'.filter SSEEvent.carriesContent) :
    Merges events' event := by
  have hcontent : events.foldl Content.accumulate {} = events'.foldl Content.accumulate {} := by
    rw [← foldl_accumulate_filter, hfilter, foldl_accumulate_filter]
  have husage : usageOf events = usageOf events' := by
    rw [← usageOf_filter, hfilter, usageOf_filter]
  exact ⟨h.source, hcontent ▸ h.text, hcontent ▸ h.json, husage ▸ h.usage⟩

theorem merges_createMergedEvent {accumulator : SSEAccumulator} {events : List SSEEvent}
    (hcontent : accumulator.toContent = events.foldl Content.accumulate {})
    (hevents : accumulator.events = events) (connectionId : String) (originalEvent : Event) :
    Merges events (createMergedEvent connectionId accumulator originalEvent) where
  source := rfl
  text := by rw [← hcontent]; rfl
  json := by rw [← hcontent]; rfl
  usage := by
    have hfold : extractTokenUsageFromSse
        (createMergedEvent connectionId accumulator originalEvent).data =
        usageOf accumulator.events := by
      change (accumulator.events.map SSEEvent.toValue).foldl _ ({} : TokenUsage) = _
      rw [foldl_map]
      rfl
    rw [hfold, hevents]

end AgentSight.Sse
