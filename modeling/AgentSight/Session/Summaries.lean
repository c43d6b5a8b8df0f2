import AgentSight.Lib.Utf8Cut
import AgentSight.Session.UsageReports

/-!
# Two readers of a Codex rollout

`parse_jsonl` reads a rollout forwards: it keeps the last total of each model and adds them up, and
a new prompt clears the plan. `codex_total_token_usage` and `codex_latest_plan` read it backwards up
to the newest total and the newest plan call, and `codex_rollout_summary` shows what they find. They
agree exactly if the totals of all other models come to zero, and if the steps of the newest plan
call are those that still stand (`summaries_agree_iff`).
-/

namespace AgentSight.Session

open KeyedTable List Transcript
open WrappingSum (ofInt_sum toInt_max wrap wrap_eq_iff)
open Json (Value)
open Transcript (payloadOf eventText messageText)

/-! ### The readers of a summary -/

/-- The total that a record reports. -/
def totalIn (obj : Value) : Option TokenUsage :=
  if typeOf (payloadOf obj) = some "token_count" then
    ((payloadOf obj).pointer ["info", "total_token_usage"]).map codexTokenUsage
  else none

/-- The newest total in the records. -/
def newestTotal (records : List Value) : Option TokenUsage := records.reverse.findSome? totalIn

section

variable [Crates]

/-- The steps that a record sets as `codex_latest_plan` reads it, if it is a plan call. -/
def planCall (obj : Value) : Outcome (Option (List PlanStep)) :=
  let payload := payloadOf obj
  let steps (name : String) (input : Value) : Option (List PlanStep) :=
    if isPlanTool name then some ((planSteps input).getD []) else none
  match typeOf payload with
  | some "function_call" =>
    .returned ((payload.strField "name").bind fun name =>
      steps name (((payload.strField "arguments").bind fun raw =>
        Crates.fromStr raw.toList).getD .null))
  | some "custom_tool_call" =>
    (codexCustomToolInput ((payload.strField "name").getD "custom").toList
      ((payload.strField "input").getD "").toList).bind fun (name, input) =>
        .returned (steps (String.ofList name) input)
  | _ => .returned none

/-- The first plan call of the records. -/
def firstPlan : List Value → Outcome (Option (List PlanStep))
  | [] => .returned none
  | obj :: records =>
    (planCall obj).bind fun
      | some steps => .returned (some steps)
      | none => firstPlan records

def codexLatestPlan (content : List Char) : Outcome (Option (List PlanStep)) :=
  firstPlan (recordsOf content).reverse

end

/-- `CODEX_ROLLOUT_TAIL_BYTES`. -/
def codexRolloutTailBytes : ℕ := 1024 * 1024

/-! ### What the session should agree with -/

section

variable [Crates]

/-- The totals that the session owns are reported by events. -/
def CodexRollout (records : List Value) : Prop :=
  ∀ obj ∈ owned records, typeOf (payloadOf obj) = some "token_count" → typeOf obj = some "event_msg"

/-- The totals are the newest ones of the records that the session owns, and the plan is the newest
one of the text. -/
structure SummariesAgree (content : List Char) (session : AgentSession) : Prop where
  totals : session.usage = (newestTotal (owned (recordsOf content))).getD {}
  plan : ∃ newest, codexLatestPlan content = .returned newest ∧ session.plan = newest.getD []

end

/-! ### Totals by model -/

/-- The model that a total counts for, and the total. -/
def totalEvent (t : Transcript × Value) : Option (String × TokenUsage) :=
  if typeOf t.2 = some "event_msg" then
    (totalIn t.2).map fun usage =>
      (if t.1.codexModel = "" then "unknown" else t.1.codexModel, usage)
  else none

def totalEvents (done : List (Transcript × Value)) : List (String × TokenUsage) :=
  done.filterMap totalEvent

/-- The row of a model takes a later total. -/
def replaceUsage (row later : String × TokenUsage) : String × TokenUsage := (row.1, later.2)

theorem replaceUsage_eq {row later : String × TokenUsage} (h : row.1 = later.1) :
    replaceUsage row later = later := Prod.ext h rfl

/-- The last total of each model but that of the newest total. -/
def otherTotals (events : List (String × TokenUsage)) : List (String × TokenUsage) :=
  (gather Prod.fst replaceUsage events).filter fun row => events.getLast?.all (·.1 ≠ row.1)

/-- The last totals of the other models come to zero, where their sums may wrap around. -/
def OthersCancel (events : List (String × TokenUsage)) : Prop :=
  totalUsage (otherTotals events) = {}

/-- The tokens of a total, cached ones included. -/
def exactTotal (u : TokenUsage) : ℤ :=
  u.inputTokens.toInt + u.outputTokens.toInt + u.cacheReadTokens.toInt

/-- The last totals of the other models add up without an overflow. -/
def OthersFit (events : List (String × TokenUsage)) : Prop :=
  ((otherTotals events).map fun row => exactTotal row.2).sum < 2 ^ 63 ∧
    ((otherTotals events).map fun row => row.2.cacheReadTokens.toInt).sum < 2 ^ 63

theorem totalEvents_concat (done : List (Transcript × Value)) (t : Transcript × Value) :
    totalEvents (done ++ [t]) = totalEvents done ++ (totalEvent t).toList := by
  rw [totalEvents, filterMap_append, ← totalEvents]
  cases h : totalEvent t with
  | none => simp [h]
  | some e => simp [h]

/-- A total is added up as it is. -/
theorem add_codexTokenUsage (value : Value) :
    ({} : TokenUsage).add (codexTokenUsage value).inputTokens (codexTokenUsage value).outputTokens 0
      (codexTokenUsage value).cacheReadTokens (codexTokenUsage value).totalTokens =
        codexTokenUsage value := by
  unfold TokenUsage.add codexTokenUsage
  simp only [zero_add, add_zero, TokenUsage.mk.injEq, true_and]
  split <;> rfl

theorem setUsage_codexTokenUsage (models : List (String × TokenUsage)) (name : String)
    (value : Value) :
    setUsage models name (codexTokenUsage value).inputTokens (codexTokenUsage value).outputTokens 0
      (codexTokenUsage value).cacheReadTokens (codexTokenUsage value).totalTokens =
        upsert Prod.fst models (name, codexTokenUsage value)
          fun row => (row.1, codexTokenUsage value) := by
  unfold setUsage
  rw [add_codexTokenUsage]

variable {obj : Value}

theorem modelUsage_countTotal (s : Transcript) (htype : typeOf obj = some "event_msg") :
    (s.countTotal (payloadOf obj)).modelUsage = (totalEvent (s, obj)).elim s.modelUsage fun e =>
        upsert Prod.fst s.modelUsage e fun row => (row.1, e.2) := by
  unfold countTotal totalEvent totalIn
  rw [if_pos htype]
  by_cases htotal : typeOf (payloadOf obj) = some "token_count"
  · rw [htotal]
    cases hvalue : (payloadOf obj).pointer ["info", "total_token_usage"] with
    | none => rfl
    | some value => exact setUsage_codexTokenUsage _ _ value
  · rw [if_neg htotal]
    split
    · next h _ => exact absurd h htotal
    · rfl

/-- The states have the same totals. -/
structure SameTotals (s s' : Transcript) : Prop where
  models : s'.claudeMessageModels = s.claudeMessageModels
  modelUsage : s'.modelUsage = s.modelUsage

theorem SameUsage.totals {s s' : Transcript} (h : SameUsage s s') : SameTotals s s' :=
  ⟨h.models, h.modelUsage⟩

/-- The models of the later state are those of the earlier one with the total of the record. -/
structure CountsTotal (s : Transcript) (obj : Value) (s' : Transcript) : Prop where
  models : s'.claudeMessageModels = s.claudeMessageModels
  modelUsage : s'.modelUsage = (totalEvent (s, obj)).elim s.modelUsage fun e =>
    upsert Prod.fst s.modelUsage e fun row => (row.1, e.2)

theorem SameTotals.counts {s s' : Transcript} (h : SameTotals s s')
    (htype : typeOf obj ≠ some "event_msg") : CountsTotal s obj s' where
  models := h.models
  modelUsage := by
    rw [h.modelUsage, totalEvent, if_neg htype]
    rfl

theorem CountsTotal.same {s s' s'' : Transcript} (h : CountsTotal s obj s')
    (hsame : SameTotals s' s'') : CountsTotal s obj s'' where
  models := hsame.models.trans h.models
  modelUsage := hsame.modelUsage.trans h.modelUsage

theorem countsTotal_countTotal (s : Transcript) (htype : typeOf obj = some "event_msg") :
    CountsTotal s obj (s.countTotal (payloadOf obj)) := by
  refine ⟨?_, modelUsage_countTotal s htype⟩
  unfold countTotal
  split
  · rfl
  · rfl

variable {records : List Value}

section

variable [Crates] {s s' : Transcript} {obj : Value}

omit [Crates] in
theorem sameTotals_reportUsage (s : Transcript) (payload : Value) :
    SameTotals s (s.reportUsage payload) := by
  unfold reportUsage
  split
  · exact ⟨rfl, rfl⟩
  · exact ⟨rfl, rfl⟩

theorem sameTotals_userMessage (s : Transcript) (obj : Value) :
    SameTotals s (s.userMessage obj) := by
  unfold userMessage
  split
  · split
    · exact (sameUsage_showPrompt _ _ _).totals
    · exact ⟨rfl, rfl⟩
  · exact ⟨rfl, rfl⟩

theorem sameTotals_agentMessage (s : Transcript) (obj : Value) :
    SameTotals s (s.agentMessage obj) := by
  unfold agentMessage
  split
  · split
    · exact ⟨rfl, rfl⟩
    · exact ⟨rfl, rfl⟩
  · exact ⟨rfl, rfl⟩

theorem sameTotals_message (s : Transcript) (obj : Value) : SameTotals s (s.message obj) := by
  unfold message
  split
  · split
    · exact (sameUsage_showPrompt _ _ _).totals
    · split
      · exact ⟨rfl, rfl⟩
      · exact ⟨rfl, rfl⟩
  · exact ⟨rfl, rfl⟩

theorem sameTotals_responseItem (h : s.responseItem obj = .returned s') : SameTotals s s' := by
  unfold responseItem at h
  split at h
  · obtain ⟨name, args, -, rfl⟩ := exists_of_customToolCall _ _ h
    exact (sameUsage_call _ _ _).totals
  · obtain rfl := Outcome.returned.inj h
    exact (sameUsage_call _ _ _).totals
  · obtain rfl := Outcome.returned.inj h
    exact sameTotals_message s obj
  · obtain rfl := Outcome.returned.inj h
    exact ⟨rfl, rfl⟩

/-- What one own record does to the totals of the models. -/
theorem countsTotal_ownRecord (h : s.ownRecord obj = .returned s') : CountsTotal s obj s' := by
  unfold ownRecord at h
  split at h
  · next htype =>
    obtain rfl := Outcome.returned.inj h
    refine SameTotals.counts ?_ (by simp [htype])
    unfold turnContext
    split
    · exact ⟨rfl, rfl⟩
    · exact ⟨rfl, rfl⟩
  · next htype =>
    obtain rfl := Outcome.returned.inj h
    have hcount := countsTotal_countTotal s htype
    have hreport := hcount.same (sameTotals_reportUsage _ (payloadOf obj))
    exact (hreport.same (sameTotals_userMessage _ _)).same (sameTotals_agentMessage _ _)
  · next htype => exact (sameTotals_responseItem h).counts (by simp [htype])
  · next htype =>
    obtain rfl := Outcome.returned.inj h
    exact (sameUsage_wholePrompt _ _).totals.counts (by simp [htype])
  · next htype =>
    obtain rfl := Outcome.returned.inj h
    exact (sameUsage_wholePrompt _ _).totals.counts (by simp [htype])
  · next htype =>
    obtain rfl := Outcome.returned.inj h
    exact (sameUsage_wholePrompt _ _).totals.counts (by simp [htype])
  · next htype _ _ _ _ =>
    obtain rfl := Outcome.returned.inj h
    exact (sameUsage_otherRecord _ _).totals.counts htype

/-- What a run of records does to them. -/
theorem modelUsage_readRecords (hread : Transcript.readRecords "codex" {} records = .returned s) :
    s.claudeMessageModels = [] ∧
      s.modelUsage = gather Prod.fst replaceUsage (totalEvents (turnsOf records)) := by
  refine turnsOf_induction (P := fun done s => s.claudeMessageModels = [] ∧
      s.modelUsage = gather Prod.fst replaceUsage (totalEvents done))
    ⟨rfl, rfl⟩ ?_ (fun _ _ _ _ _ hdone => hdone) hread
  rintro done s obj s' ⟨hmodels, hdone⟩ hown
  have hcounts := countsTotal_ownRecord hown
  refine ⟨hcounts.models.trans hmodels, ?_⟩
  rw [hcounts.modelUsage, hdone, totalEvents_concat]
  cases totalEvent (s, obj) with
  | none => rw [Option.elim_none, Option.toList_none, append_nil]
  | some e =>
    rw [gather, gather, foldl_append]
    rfl

end

/-! ### Sums of totals -/

theorem codexTokenUsage_exact (value : Value) :
    0 ≤ exactTotal (codexTokenUsage value) ∧ 0 ≤ (codexTokenUsage value).cacheReadTokens.toInt ∧
      (codexTokenUsage value).totalTokens = .ofInt (exactTotal (codexTokenUsage value)) ∧
      (exactTotal (codexTokenUsage value) = 0 →
        (codexTokenUsage value).cacheReadTokens.toInt = 0 → codexTokenUsage value = {}) := by
  have hnonneg key : 0 ≤ (max (jsonI64 value key) 0).toInt := by
    rw [toInt_max, Int64.toInt_zero]
    exact le_max_right _ _
  unfold exactTotal codexTokenUsage
  have hinput := hnonneg "input_tokens"
  have houtput := hnonneg "output_tokens"
  have hcache := hnonneg "cached_input_tokens"
  generalize max (jsonI64 value "input_tokens") 0 = input at *
  generalize max (jsonI64 value "output_tokens") 0 = output at *
  generalize max (jsonI64 value "cached_input_tokens") 0 = cache at *
  have hsub : (input - cache).toInt = input.toInt - cache.toInt := by
    have hlt := input.toInt_lt
    have hlt' := cache.toInt_lt
    rw [Int64.toInt_sub, Int.bmod_eq_of_le (by omega) (by omega)]
  refine ⟨?_, hcache, ?_, fun htotal hnone => ?_⟩
  · dsimp only
    omega
  · simp only [Int64.ofInt_add, Int64.ofInt_toInt]
  · dsimp only at htotal hnone
    have hzero {a : Int64} (ha : a.toInt = 0) : a = 0 := Int64.toInt_inj.mp ha
    have hin : input = 0 := hzero (by omega)
    have hout : output = 0 := hzero (by omega)
    rw [hin, hout, hzero hnone]
    rfl

/-- The totals are such as Codex reports. -/
def Reported (rows : List (String × TokenUsage)) : Prop :=
  ∀ row ∈ rows, ∃ value, row.2 = codexTokenUsage value

theorem reported_otherTotals {events : List (String × TokenUsage)} (h : Reported events) :
    Reported (otherTotals events) := fun row hrow =>
  h row (mem_of_latest (latest_of_mem_gather (fun _ _ => replaceUsage_eq)
    (mem_of_mem_filter hrow))).1

/-- A sum that fits is zero only if all that is added up is. -/
theorem eq_zero_of_wrap {rows : List (String × TokenUsage)} {f : TokenUsage → ℤ}
    (hnonneg : ∀ row ∈ rows, 0 ≤ f row.2) (hfits : (rows.map fun row => f row.2).sum < 2 ^ 63)
    (hzero : (rows.map fun row => Int64.ofInt (f row.2)).sum = 0) : ∀ row ∈ rows, 0 = f row.2 := by
  refine (sum_eq_sum_iff hnonneg).mp ?_
  have hsum : 0 ≤ (rows.map fun row => f row.2).sum := by
    refine sum_nonneg fun n hn => ?_
    obtain ⟨row, hrow, rfl⟩ := mem_map.mp hn
    exact hnonneg row hrow
  have hwrap := (wrap_eq_iff hsum).mpr hfits
  have hmap : (rows.map fun row => Int64.ofInt (f row.2)) =
      (rows.map fun row => f row.2).map Int64.ofInt := by
    rw [map_map]
    rfl
  rw [wrap, ← ofInt_sum, ← hmap, hzero, Int64.toInt_zero] at hwrap
  rw [← hwrap]
  simp

/-- Totals that add up without an overflow come to zero only if each is zero. -/
theorem othersCancel_iff {events : List (String × TokenUsage)} (h : Reported (otherTotals events))
    (hfits : OthersFit events) : OthersCancel events ↔ ∀ row ∈ otherTotals events, row.2 = {} := by
  constructor
  · intro hzero
    have htotal : ((otherTotals events).map fun row => row.2.totalTokens).sum = 0 :=
      congrArg TokenUsage.totalTokens hzero
    have hcache : ((otherTotals events).map fun row => row.2.cacheReadTokens).sum = 0 :=
      congrArg TokenUsage.cacheReadTokens hzero
    have htotals : ∀ row ∈ otherTotals events, 0 = exactTotal row.2 := by
      refine eq_zero_of_wrap (fun row hrow => ?_) hfits.1 ?_
      · obtain ⟨value, heq⟩ := h row hrow
        rw [heq]
        exact (codexTokenUsage_exact value).1
      · rw [← htotal]
        refine congrArg List.sum (map_congr_left fun row hrow => ?_)
        obtain ⟨value, heq⟩ := h row hrow
        rw [heq]
        exact (codexTokenUsage_exact value).2.2.1.symm
    have hcaches : ∀ row ∈ otherTotals events, 0 = row.2.cacheReadTokens.toInt := by
      refine eq_zero_of_wrap (f := fun usage => usage.cacheReadTokens.toInt)
        (fun row hrow => ?_) hfits.2 ?_
      · obtain ⟨value, heq⟩ := h row hrow
        rw [heq]
        exact (codexTokenUsage_exact value).2.1
      · rw [← hcache]
        exact congrArg List.sum (map_congr_left fun row _ => Int64.ofInt_toInt _)
    intro row hrow
    have hexact := htotals row hrow
    have hread := hcaches row hrow
    obtain ⟨value, heq⟩ := h row hrow
    rw [heq] at hexact hread ⊢
    exact (codexTokenUsage_exact value).2.2.2 hexact.symm hread.symm
  · intro hzero
    have hsum (f : TokenUsage → Int64) (hf : f {} = 0) :
        ((otherTotals events).map fun row => f row.2).sum = 0 := by
      refine sum_eq_zero fun x hx => ?_
      obtain ⟨row, hrow, rfl⟩ := mem_map.mp hx
      rw [hzero row hrow, hf]
    simp only [OthersCancel, totalUsage, TokenUsage.mk.injEq]
    exact ⟨hsum _ rfl, hsum _ rfl, hsum _ rfl, hsum _ rfl, hsum _ rfl⟩

theorem totalUsage_eq_row (front back : List (String × TokenUsage)) (row : String × TokenUsage) :
    totalUsage (front ++ row :: back) = row.2 ↔ totalUsage (front ++ back) = {} := by
  obtain ⟨name, input, output, creation, read, total⟩ := row
  simp only [totalUsage, map_append, map_cons, sum_append, sum_cons, TokenUsage.mk.injEq,
    add_left_comm _ (_ : Int64), add_eq_left]

/-- The last totals of the models are together the newest one exactly if the others cancel. -/
theorem totalUsage_gather_iff (events : List (String × TokenUsage)) :
    totalUsage (gather Prod.fst replaceUsage events) =
      (events.getLast?.map Prod.snd).getD {} ↔ OthersCancel events := by
  obtain rfl | ⟨front, last, rfl⟩ := events.eq_nil_or_concat
  · exact iff_of_true rfl rfl
  · rw [concat_eq_append, OthersCancel, otherTotals]
    generalize hevents : front ++ [last] = events
    have hlast : events.getLast? = some last := by simp [← hevents]
    have hlatest : latest Prod.fst events last.1 = some last := by
      rw [← hevents, latest_concat, if_pos rfl]
    have hkeys : (gather Prod.fst replaceUsage events).map Prod.fst =
        (firsts Prod.fst events).map Prod.fst := map_key_gather fun _ _ => rfl
    have hmem : last ∈ gather Prod.fst replaceUsage events := by
      have hkey : last.1 ∈ (gather Prod.fst replaceUsage events).map Prod.fst := by
        rw [hkeys, mem_map, exists_firsts Prod.fst events last.1]
        exact ⟨last, (mem_of_latest hlatest).1, rfl⟩
      obtain ⟨row, hmem, heq⟩ := mem_map.mp hkey
      have hsome := latest_of_mem_gather (fun _ _ => replaceUsage_eq) hmem
      rw [heq, hlatest] at hsome
      exact Option.some.inj hsome ▸ hmem
    obtain ⟨front, back, hsplit⟩ := append_of_mem hmem
    have hnodup : ((gather Prod.fst replaceUsage events).map Prod.fst).Nodup :=
      hkeys ▸ nodup_firsts Prod.fst events
    rw [hsplit, map_append, map_cons, nodup_append, nodup_cons] at hnodup
    have hothers {rows : List (String × TokenUsage)} (hne : ∀ row ∈ rows, last.1 ≠ row.1) :
        rows.filter (fun row => last.1 ≠ row.1) = rows :=
      filter_eq_self.mpr fun row hrow => decide_eq_true (hne row hrow)
    have hfront := hothers fun row hrow heq =>
      hnodup.2.2 _ (mem_map_of_mem hrow) _ mem_cons_self heq.symm
    have hback := hothers fun row hrow heq => hnodup.2.1.1 (heq ▸ mem_map_of_mem hrow)
    simp only [hsplit, hlast, Option.map_some, Option.getD_some, Option.all_some, filter_append,
      filter_cons, ne_eq, not_true_eq_false, decide_false, Bool.false_eq_true, if_false]
    rw [totalUsage_eq_row]
    exact hfront.symm ▸ hback.symm ▸ Iff.rfl

/-! ### The newest total -/

variable {t : Transcript × Value}

theorem map_totalEvent
    (h : typeOf (payloadOf t.2) = some "token_count" → typeOf t.2 = some "event_msg") :
    (totalEvent t).map Prod.snd = totalIn t.2 := by
  unfold totalEvent
  split
  · rw [Option.map_map]
    exact Option.map_id'
  · next htype => exact (if_neg (mt h htype)).symm

theorem newestTotal_concat (records : List Value) (obj : Value) :
    newestTotal (records ++ [obj]) = (totalIn obj).or (newestTotal records) := by
  rw [newestTotal, reverse_append, reverse_singleton, singleton_append,
    findSome?_cons]
  cases totalIn obj with
  | none => rfl
  | some usage => rfl

variable {done : List (Transcript × Value)}

theorem newestTotal_map
    (h : ∀ t ∈ done, typeOf (payloadOf t.2) = some "token_count" → typeOf t.2 = some "event_msg") :
    newestTotal (done.map Prod.snd) = (totalEvents done).getLast?.map Prod.snd := by
  induction done using List.reverseRecOn with
  | nil => rfl
  | append_singleton done t ih =>
    have ht := map_totalEvent (h t (mem_append_right _ (mem_singleton_self t)))
    rw [map_append, map_singleton, newestTotal_concat, totalEvents_concat,
      ih fun t ht => h t (mem_append_left _ ht), ← ht]
    cases totalEvent t with
    | none => simp
    | some e => simp

theorem reported_totalEvents (done : List (Transcript × Value)) : Reported (totalEvents done) := by
  intro e he
  obtain ⟨t, -, ht⟩ := mem_filterMap.mp he
  have hsnd : totalIn t.2 = some e.2 := by
    unfold totalEvent at ht
    by_cases htype : typeOf t.2 = some "event_msg"
    · rw [if_pos htype] at ht
      obtain ⟨usage, husage, rfl⟩ := Option.map_eq_some_iff.mp ht
      exact husage
    · rw [if_neg htype] at ht
      cases ht
  unfold totalIn at hsnd
  split at hsnd
  · obtain ⟨value, -, heq⟩ := Option.map_eq_some_iff.mp hsnd
    exact ⟨value, heq.symm⟩
  · cases hsnd

/-! ### Plans that stand -/

section

variable [Crates]

/-- The steps that an own record sets. -/
def planSet (obj : Value) : Option (List PlanStep) :=
  let payload := payloadOf obj
  let steps (name : String) (input : Value) : Option (List PlanStep) :=
    if isPlanTool name then planSteps input else none
  match typeOf obj, typeOf payload with
  | some "response_item", some "function_call" =>
    steps ((strAt obj ["payload", "name"]).getD "?")
      (parseToolArgs ((payload.get "arguments").getD .null))
  | some "response_item", some "custom_tool_call" =>
    match codexCustomToolInput ((payload.strField "name").getD "tool").toList
        ((payload.strField "input").getD "").toList with
    | .returned (name, args) => steps (String.ofList name) args
    | _ => none
  | _, _ => none

/-- The prompt that an own record is. -/
def promptIn (t : Transcript × Value) : Option String :=
  let payload := payloadOf t.2
  match typeOf t.2 with
  | some "turn_context" => none
  | some "event_msg" =>
    if typeOf payload = some "user_message" then eventText payload else none
  | some "response_item" =>
    if typeOf payload = some "message" ∧ payload.strField "role" = some "user" then
      messageText payload
    else none
  | some "message" | some "input" | some "user" => localMessagePreview t.2
  | other =>
    if t.1.promptPreview = none ∧ Str.contains (other.getD "") "user" then localMessagePreview t.2
    else none

/-- The record is a prompt that starts a new task. -/
def startsTask (t : Transcript × Value) : Bool :=
  (promptIn t).any fun text =>
    !(t.1.taskStack.root.isSome && isContinuationPrompt (semanticTaskLabel text))

/-- The steps of a plan update stand: nothing after it sets others or starts a new task. -/
def Stands (done : List (Transcript × Value)) (steps : List PlanStep) : Prop :=
  ∃ before t after, done = before ++ t :: after ∧ planSet t.2 = some steps ∧
    ∀ t' ∈ after, planSet t'.2 = none ∧ startsTask t' = false

/-- The newest plan call of the records sets the steps, or there is none. -/
def Newest (records : List Value) : Option (List PlanStep) → Prop
  | none => ∀ obj ∈ records, planCall obj = .returned none
  | some steps => ∃ before obj after, records = before ++ obj :: after ∧
      planCall obj = .returned (some steps) ∧ ∀ obj' ∈ after, planCall obj' = .returned none

/-- The steps of the newest plan call stand, or it has none and no steps stand. -/
def NewestStands (records : List Value) : Prop :=
  ∃ newest, Newest records newest ∧ ∀ steps ∈ newest, Stands (turnsOf records) steps ∨
      steps = [] ∧ ∀ steps', ¬ Stands (turnsOf records) steps'

/-- The plan after a record. -/
def planAfter (plan : List PlanStep) (t : Transcript × Value) : List PlanStep :=
  if startsTask t then [] else (planSet t.2).getD plan

variable {s s' : Transcript} {obj : Value}

/-! ### What a record does to the plan -/

theorem plan_showPrompt (s : Transcript) (obj : Value) (text : String) :
    (s.showPrompt obj text).taskStack.plan =
      if s.taskStack.root.isSome && isContinuationPrompt (semanticTaskLabel text) then
        s.taskStack.plan
      else [] := by
  have hstack : (s.showPrompt obj text).taskStack = s.taskStack.observeUser text := by
    unfold showPrompt startPrompt upsertPrompt
    dsimp only
    split
    · rfl
    · rfl
  rw [hstack, SemanticTaskStack.observeUser]
  simp only [Bool.and_eq_true]
  split
  · rfl
  · rfl

/-- The plan after a prompt, if the record is one. -/
theorem planAfter_of_prompt (hset : planSet obj = none) {text : Option String}
    (hprompt : promptIn (s, obj) = text) :
    planAfter s.taskStack.plan (s, obj) =
      text.elim s.taskStack.plan fun text => (s.showPrompt obj text).taskStack.plan := by
  unfold planAfter startsTask
  rw [hprompt, hset]
  cases text with
  | none => rfl
  | some text =>
    rw [Option.any_some, Option.elim_some, plan_showPrompt]
    cases s.taskStack.root.isSome && isContinuationPrompt (semanticTaskLabel text) with
    | true => rfl
    | false => rfl

theorem planAfter_of_call (hprompt : promptIn (s, obj) = none) :
    planAfter s.taskStack.plan (s, obj) = (planSet obj).getD s.taskStack.plan := by
  unfold planAfter startsTask
  rw [hprompt]
  rfl

omit [Crates] in
theorem plan_call (s : Transcript) (name : String) (input : Value) :
    ((s.addTool name).observePlan name input).taskStack.plan =
      (if isPlanTool name then planSteps input else none).getD s.taskStack.plan := by
  unfold observePlan
  split
  · unfold SemanticTaskStack.observePlan
    split
    · next hsteps => rw [hsteps]; rfl
    · next hsteps => rw [hsteps]; rfl
  · rfl

theorem plan_eventMsg (htype : typeOf obj = some "event_msg") :
    (s.eventMsg obj).taskStack.plan = planAfter s.taskStack.plan (s, obj) := by
  have hset : planSet obj = none := by simp [planSet, htype]
  unfold eventMsg
  by_cases huser : typeOf (payloadOf obj) = some "user_message"
  · have hprompt : promptIn (s, obj) = eventText (payloadOf obj) := by
      simp [promptIn, htype, huser]
    have hreport : ¬ Transcript.isUsageReport (payloadOf obj) = true := by
      simp [isUsageReport, huser]
    rw [planAfter_of_prompt hset hprompt, reportUsage_of_not s hreport,
      agentMessage_of_ne _ _ (by simp [huser])]
    unfold userMessage
    cases eventText (payloadOf obj) with
    | none => rfl
    | some text =>
      dsimp only
      rw [if_pos huser]
      rfl
  · have hprompt : promptIn (s, obj) = none := by simp [promptIn, htype, huser]
    have hagent (s : Transcript) : (s.agentMessage obj).taskStack = s.taskStack := by
      unfold agentMessage
      split
      · split
        · rfl
        · rfl
      · rfl
    have hreport (s : Transcript) payload : (s.reportUsage payload).taskStack = s.taskStack := by
      unfold reportUsage
      split
      · rfl
      · rfl
    have hcount : (s.countTotal (payloadOf obj)).taskStack = s.taskStack := by
      unfold countTotal
      split
      · rfl
      · rfl
    rw [planAfter_of_prompt hset hprompt, hagent, userMessage_of_ne _ _ huser, hreport, hcount]
    rfl

theorem plan_responseItem (htype : typeOf obj = some "response_item")
    (h : s.responseItem obj = .returned s') :
    s'.taskStack.plan = planAfter s.taskStack.plan (s, obj) := by
  unfold responseItem at h
  split at h
  · next hpayload =>
    obtain ⟨name, args, hscript, rfl⟩ := exists_of_customToolCall _ _ h
    have hset : planSet obj = if isPlanTool (String.ofList name) then planSteps args else none := by
      simp [planSet, htype, hpayload, hscript]
    rw [planAfter_of_call (by simp [promptIn, htype, hpayload]), hset, plan_call]
  · next hpayload =>
    obtain rfl := Outcome.returned.inj h
    rw [planAfter_of_call (by simp [promptIn, htype, hpayload]), functionCall, plan_call,
      planSet, htype, hpayload]
    rfl
  · next hpayload =>
    obtain rfl := Outcome.returned.inj h
    have hset : planSet obj = none := by simp [planSet, htype, hpayload]
    unfold message
    cases htext : messageText (payloadOf obj) with
    | none => rw [planAfter_of_prompt hset rfl, promptIn, htype]; simp [htext]
    | some text =>
      dsimp only
      by_cases huser : (payloadOf obj).strField "role" = some "user"
      · have hprompt : promptIn (s, obj) = some text := by
          simp [promptIn, htype, hpayload, huser, htext]
        rw [if_pos huser, planAfter_of_prompt hset hprompt]
        rfl
      · have hprompt : promptIn (s, obj) = none := by simp [promptIn, htype, huser]
        rw [if_neg huser, planAfter_of_prompt hset hprompt]
        split
        · rfl
        · rfl
  · next hcustom hfunction hmessage =>
    obtain rfl := Outcome.returned.inj h
    have hset : planSet obj = none := by
      unfold planSet
      dsimp only
      split
      · next hpayload => exact absurd hpayload hfunction
      · next hpayload => exact absurd hpayload hcustom
      · rfl
    have hprompt : promptIn (s, obj) = none := by
      unfold promptIn
      rw [htype]
      exact if_neg fun huser => hmessage huser.1
    rw [planAfter_of_prompt hset hprompt]
    rfl

/-- What one own record does to the plan. -/
theorem plan_ownRecord (h : s.ownRecord obj = .returned s') :
    s'.taskStack.plan = planAfter s.taskStack.plan (s, obj) := by
  have hwhole : typeOf obj ≠ some "response_item" → promptIn (s, obj) = localMessagePreview obj →
      (s.wholePrompt obj).taskStack.plan = planAfter s.taskStack.plan (s, obj) := by
    intro hitem hprompt
    have hset : planSet obj = none := by simp [planSet, hitem]
    rw [planAfter_of_prompt hset hprompt]
    unfold wholePrompt
    cases localMessagePreview obj with
    | none => rfl
    | some text => rfl
  unfold ownRecord at h
  split at h
  · next htype =>
    obtain rfl := Outcome.returned.inj h
    have hset : planSet obj = none := by simp [planSet, htype]
    have hprompt : promptIn (s, obj) = none := by simp [promptIn, htype]
    rw [planAfter_of_prompt hset hprompt]
    unfold turnContext
    split
    · rfl
    · rfl
  · next htype =>
    obtain rfl := Outcome.returned.inj h
    exact plan_eventMsg htype
  · next htype => exact plan_responseItem htype h
  · next htype =>
    obtain rfl := Outcome.returned.inj h
    exact hwhole (by simp [htype]) (by simp [promptIn, htype])
  · next htype =>
    obtain rfl := Outcome.returned.inj h
    exact hwhole (by simp [htype]) (by simp [promptIn, htype])
  · next htype =>
    obtain rfl := Outcome.returned.inj h
    exact hwhole (by simp [htype]) (by simp [promptIn, htype])
  · next hcontext hevent hitem hmessage hinput huser =>
    obtain rfl := Outcome.returned.inj h
    have hprompt : promptIn (s, obj) =
        if s.promptPreview = none ∧ Str.contains ((typeOf obj).getD "") "user" then
          localMessagePreview obj
        else none := by
      unfold promptIn
      split
      · next htype => exact absurd htype hcontext
      · next htype => exact absurd htype hevent
      · next htype => exact absurd htype hitem
      · next htype => exact absurd htype hmessage
      · next htype => exact absurd htype hinput
      · next htype => exact absurd htype huser
      · rfl
    unfold otherRecord
    split
    · next hother => exact hwhole hitem (hprompt.trans (if_pos hother))
    · next hother =>
      have hset : planSet obj = none := by
        unfold planSet
        dsimp only
        split
        · next htype _ => exact absurd htype hitem
        · next htype _ => exact absurd htype hitem
        · rfl
      rw [planAfter_of_prompt hset (hprompt.trans (if_neg hother))]
      rfl

/-! ### The plan of a run -/

/-- The plan of a run: what every record makes of it. -/
def standing (done : List (Transcript × Value)) : List PlanStep := done.foldl planAfter []

theorem standing_concat (done : List (Transcript × Value)) (t : Transcript × Value) :
    standing (done ++ [t]) = planAfter (standing done) t := by
  rw [standing, foldl_concat, ← standing]

theorem plan_readRecords (hread : Transcript.readRecords "codex" {} records = .returned s) :
    s.taskStack.plan = standing (turnsOf records) := by
  refine turnsOf_induction (P := fun done s => s.taskStack.plan = standing done) rfl ?_
    (fun _ _ _ _ _ hdone => hdone) hread
  intro done s obj s' hdone hown
  rw [plan_ownRecord hown, hdone, standing_concat]

variable {steps : List PlanStep}

/-- A record that sets a plan is no prompt. -/
theorem startsTask_of_planSet (h : planSet t.2 = some steps) : startsTask t = false := by
  have hprompt : promptIn t = none := by
    unfold planSet at h
    dsimp only at h
    split at h
    · next htype hpayload => simp [promptIn, htype, hpayload]
    · next htype hpayload => simp [promptIn, htype, hpayload]
    · cases h
  unfold startsTask
  rw [hprompt]
  rfl

theorem stands_concat : Stands (done ++ [t]) steps ↔
      planSet t.2 = some steps ∨ (planSet t.2 = none ∧ startsTask t = false) ∧ Stands done steps :=
  KeyedTable.exists_split_concat

theorem not_stands_nil (steps : List PlanStep) : ¬ Stands [] steps := by
  rintro ⟨before, t, after, heq, -⟩
  simp at heq

/-- The plan of a run is what stands, and no plan if nothing does. -/
theorem standing_eq_iff :
    standing done = steps ↔ Stands done steps ∨ steps = [] ∧ ∀ steps', ¬ Stands done steps' := by
  induction done using List.reverseRecOn generalizing steps with
  | nil => simp [standing, not_stands_nil, eq_comm]
  | append_singleton done t ih =>
    simp only [standing_concat, planAfter, stands_concat]
    cases hset : planSet t.2 with
    | some steps' => simp [startsTask_of_planSet hset]
    | none =>
      cases hstart : startsTask t with
      | true => simp [eq_comm]
      | false => simp [ih]

/-! ### The newest plan -/

theorem newest_concat {newest : Option (List PlanStep)} : Newest (records ++ [obj]) newest ↔
      (∃ steps, planCall obj = .returned (some steps) ∧ newest = some steps) ∨
        planCall obj = .returned none ∧ Newest records newest := by
  cases newest with
  | none => simp [Newest, or_imp, forall_and, and_comm]
  | some steps =>
    refine KeyedTable.exists_split_concat.trans ?_
    simp [Newest]

/-- The scan from the end finds the newest plan call. -/
theorem firstPlan_reverse {newest : Option (List PlanStep)} :
    firstPlan records.reverse = .returned newest ↔ Newest records newest := by
  induction records using List.reverseRecOn with
  | nil =>
    cases newest with
    | none => simp [firstPlan, Newest]
    | some steps => simp [firstPlan, Newest]
  | append_singleton records obj ih =>
    rw [reverse_append, reverse_singleton, singleton_append, firstPlan,
      newest_concat, ← ih]
    cases hcall : planCall obj with
    | returned call =>
      cases call with
      | none => simp [Outcome.bind]
      | some steps => simp [Outcome.bind, eq_comm]
    | panicked => simp [Outcome.bind]
    | unfinished => simp [Outcome.bind]

omit [Crates] in
/-- The name of a tool that a script calls is the outer one, or that of a call in it. -/
theorem codexCustomToolInput_name {outer raw name : List Char} {args : Value}
    (h : codexCustomToolInput outer raw = .returned (name, args)) :
    name = outer ∨ ∀ outer', codexCustomToolInput outer' raw = .returned (name, args) := by
  unfold codexCustomToolInput at h ⊢
  obtain ⟨calls, hcalls, h⟩ := Outcome.bind_eq_returned.mp h
  simp only [hcalls, Outcome.bind_eq_returned, Outcome.returned.injEq, exists_eq_left']
  by_cases hmany : (Str.contains (String.ofList raw) "Promise.all" || 1 < calls.length) = true
  · right
    intro outer'
    simpa only [if_pos hmany, Outcome.bind_eq_returned] using h
  · cases hhead : calls.head? with
    | some nested =>
      right
      intro outer'
      rw [hhead] at h
      simpa only [if_neg hmany, Option.getD_some, Outcome.bind_eq_returned] using h
    | none =>
      left
      simp only [if_neg hmany, hhead, Option.getD_none, Outcome.bind_eq_returned] at h
      obtain ⟨commands, -, paths, -, workdirs, -, names, -, targets, -, messages, -, h⟩ := h
      split at h
      · obtain ⟨steps, -, h⟩ := Outcome.bind_eq_returned.mp h
        obtain ⟨statuses, -, h⟩ := Outcome.bind_eq_returned.mp h
        cases h
        rfl
      · cases h
        rfl

omit [Crates] in
theorem strAt_payload (obj : Value) (key : String) :
    strAt obj ["payload", key] = (payloadOf obj).strField key := by
  unfold strAt payloadOf Value.strField
  cases hpayload : obj.get "payload" with
  | none =>
    simp only [Value.pointer, foldl_cons, foldl_nil, Option.bind_some, hpayload]
    rfl
  | some payload => simp [Value.pointer, hpayload]

/-- A record that sets a plan is a plan call. -/
theorem planCall_of_planSet (h : planSet obj = some steps) : planCall obj ≠ .returned none := by
  have hplan {name : String} {set : Option (List PlanStep)}
      (h : (if isPlanTool name then set else none) = some steps) : isPlanTool name = true := by
    by_contra hnot
    rw [if_neg hnot] at h
    cases h
  unfold planSet at h
  dsimp only at h
  unfold planCall
  dsimp only
  split at h
  · next htype hpayload =>
    rw [hpayload]
    rw [strAt_payload] at h
    cases hname : (payloadOf obj).strField "name" with
    | none =>
      rw [hname] at h
      exact absurd (hplan h) (by decide)
    | some name =>
      rw [hname] at h
      have htool : isPlanTool name = true := hplan h
      simp [htool]
  · next htype hpayload =>
    rw [hpayload]
    split at h
    · next name args hscript =>
      have htool := hplan h
      have hcall : codexCustomToolInput (((payloadOf obj).strField "name").getD "custom").toList
          (((payloadOf obj).strField "input").getD "").toList = .returned (name, args) := by
        cases hname : (payloadOf obj).strField "name" with
        | some outer => rwa [hname] at hscript
        | none =>
          rw [hname] at hscript
          rcases codexCustomToolInput_name hscript with rfl | hsame
          · exact absurd htool (by decide)
          · exact hsame _
      simp [hcall, Outcome.bind, htool]
    · cases h
  · cases h

theorem mem_of_mem_turns (h : t ∈ turns s records) : t.2 ∈ records := by
  induction records generalizing s with
  | nil => cases h
  | cons obj records ih =>
    rw [turns, mem_append] at h
    rcases h with h | h
    · split at h
      · obtain rfl := mem_singleton.mp h
        exact mem_cons_self
      · cases h
    · split at h
      · exact mem_cons_of_mem _ (ih h)
      · cases h

/-- Nothing stands without a plan call. -/
theorem not_stands_of_newest (h : Newest records none)
    (steps : List PlanStep) : ¬ Stands (turnsOf records) steps := by
  rintro ⟨before, t, after, heq, hset, -⟩
  refine planCall_of_planSet hset (h t.2 (mem_of_mem_turns (s := {}) ?_))
  change t ∈ turnsOf records
  rw [heq]
  exact mem_append_right _ mem_cons_self

/-! ### The two readers -/

/-- The session has the totals and the plan of the newest records exactly if the totals of all other
models cancel, and the newest plan stands. Unless a sum overflows, only zeros cancel. -/
theorem summaries_agree_iff {content : List Char} (h : CodexRollout (recordsOf content))
    {session : AgentSession} (hparse : parseJsonl "codex" content = .returned (some session)) :
    (SummariesAgree content session ↔ OthersCancel (totalEvents (turnsOf (recordsOf content))) ∧
        NewestStands (recordsOf content)) ∧
      (OthersFit (totalEvents (turnsOf (recordsOf content))) →
        (OthersCancel (totalEvents (turnsOf (recordsOf content))) ↔
          ∀ row ∈ otherTotals (totalEvents (turnsOf (recordsOf content))), row.2 = {})) := by
  obtain ⟨s, hrun, hfinish⟩ := exists_of_parseJsonl hparse
  obtain ⟨husage, -, hplan⟩ := Transcript.finish_eq_some hfinish
  obtain ⟨hclaude, hmodelUsage⟩ := modelUsage_readRecords hrun
  have hevents : ∀ t ∈ turnsOf (recordsOf content), typeOf (payloadOf t.2) = some "token_count" →
      typeOf t.2 = some "event_msg" :=
    fun t ht => h t.2 (mem_map_of_mem ht)
  have htotals : session.usage = (newestTotal (owned (recordsOf content))).getD {} ↔
      OthersCancel (totalEvents (turnsOf (recordsOf content))) := by
    have hmodels : session.usage = totalUsage s.modelUsage := by
      rw [husage, hclaude]
      cases s.modelUsage with
      | nil => rfl
      | cons row rows => rfl
    rw [hmodels, hmodelUsage, owned, newestTotal_map hevents]
    exact totalUsage_gather_iff _
  have hnewest : (∃ newest, codexLatestPlan content = .returned newest ∧
      session.plan = newest.getD []) ↔ NewestStands (recordsOf content) := by
    refine exists_congr fun newest => ?_
    rw [codexLatestPlan, firstPlan_reverse, hplan, plan_readRecords hrun]
    refine and_congr_right fun hnewest => ?_
    rw [standing_eq_iff]
    cases newest with
    | none => simp [not_stands_of_newest hnewest]
    | some steps => simp
  refine ⟨⟨?_, ?_⟩, othersCancel_iff (reported_otherTotals (reported_totalEvents _))⟩
  · rintro ⟨htotal, hplan⟩
    exact ⟨htotals.mp htotal, hnewest.mp hplan⟩
  · rintro ⟨hcancel, hstands⟩
    exact ⟨htotals.mpr hcancel, hnewest.mpr hstands⟩

end

/-! ### A model switch -/

def totalRecord (input : ℕ) : Value :=
  eventRecord [("type", .string "token_count"),
    ("info", .object [("total_token_usage", .object [("input_tokens", .ofNat input)])])]

def promptRecord (text : String) : Value :=
  eventRecord [("type", .string "user_message"), ("message", .string text)]

def planRecord : Value :=
  .object [("type", .string "response_item"), ("payload", .object
    [("type", .string "custom_tool_call"), ("name", .string "exec"),
      ("input", .string "tools.update_plan(\x7bplan: [\x7bstep: \x27Look\x27\x7d]\x7d)")])]

section ModelSwitch

def modelSwitch : List Value :=
  [modelRecord "gpt-5", planRecord, totalRecord 100, modelRecord "gpt-5-mini",
    promptRecord "Write it down.", totalRecord 150]

local instance modelSwitchCrates : Crates := .ofRecords modelSwitch [] []

/-- The totals of both models are added up, and the new prompt clears the plan. -/
theorem modelSwitch_differs : CodexRollout (recordsOf (contentOf modelSwitch)) ∧
    ByteOffsets.byteLength (contentOf modelSwitch) ≤ codexRolloutTailBytes ∧
    ∃ session, parseJsonl "codex" (contentOf modelSwitch) = .returned (some session) ∧
      ¬ SummariesAgree (contentOf modelSwitch) session := by
  have hrecords : recordsOf (contentOf modelSwitch) = modelSwitch :=
    recordsOf_contentOf (by decide) [] []
  have hrollout : CodexRollout (recordsOf (contentOf modelSwitch)) := by
    rw [hrecords, CodexRollout]
    decide
  have hwindow : ByteOffsets.byteLength (contentOf modelSwitch) ≤ codexRolloutTailBytes := by
    decide +kernel
  have hparse : (parseJsonl "codex" (contentOf modelSwitch)).value.isSome = true := by
    rw [parseJsonl, hrecords]
    decide
  have htotal : ∀ session ∈ (parseJsonl "codex" (contentOf modelSwitch)).value,
      session.usage ≠ (newestTotal (owned (recordsOf (contentOf modelSwitch)))).getD {} := by
    rw [parseJsonl, hrecords]
    decide
  obtain ⟨session, hsession⟩ := Option.isSome_iff_exists.mp hparse
  exact ⟨hrollout, hwindow, session, Outcome.eq_of_value hsession,
    fun hagree => htotal session hsession hagree.totals⟩

end ModelSwitch

section OneModel

def oneModel : List Value :=
  [modelRecord "gpt-5", promptRecord "Write it down.", planRecord, totalRecord 100,
    promptRecord "continue", totalRecord 150]

local instance oneModelCrates : Crates := .ofRecords oneModel [] []

/-- One model, and a prompt to go on after the plan. -/
theorem summaries_agree_iff_oneModel :
    ∃ session, parseJsonl "codex" (contentOf oneModel) = .returned (some session) ∧
      SummariesAgree (contentOf oneModel) session := by
  have hrecords : recordsOf (contentOf oneModel) = oneModel :=
    recordsOf_contentOf (by decide) [] []
  have hrollout : CodexRollout (recordsOf (contentOf oneModel)) := by
    rw [hrecords, CodexRollout]
    decide
  have hparse : (parseJsonl "codex" (contentOf oneModel)).value.isSome = true := by
    rw [parseJsonl, hrecords]
    decide
  have hcancel : OthersCancel (totalEvents (turnsOf (recordsOf (contentOf oneModel)))) := by
    rw [hrecords, OthersCancel]
    decide
  have hnewest : codexLatestPlan (contentOf oneModel) =
      .returned (some [{ step := "Look", status := "pending" }]) := by
    rw [codexLatestPlan, hrecords]
    decide
  have hstanding : standing (turnsOf (recordsOf (contentOf oneModel))) =
      [{ step := "Look", status := "pending" }] := by
    rw [hrecords]
    decide
  obtain ⟨session, hsession⟩ := Option.isSome_iff_exists.mp hparse
  have hreturned := Outcome.eq_of_value hsession
  refine ⟨session, hreturned, (summaries_agree_iff hrollout hreturned).1.mpr
    ⟨hcancel, _, firstPlan_reverse.mp hnewest, ?_⟩⟩
  rintro _ ⟨⟩
  exact standing_eq_iff.mp hstanding

end OneModel

end AgentSight.Session
