import AgentSight.Lib.Reports
import AgentSight.Session.Turns

/-!
# Whose usage a Codex report is

Codex logs a response, and after it a report of the usage of the turn. `parse_jsonl` gives a report
to the last response, if that has no usage yet, and in the end merges a response that was logged
twice, with the larger usage of the two. So the tokens of the responses are the tokens that were
reported exactly if a response waits for each report and of the responses that are merged at most
one has a usage (`codex_conserves_iff`).
-/

namespace AgentSight.Session

open Reports Transcript
open Json (Value)
open Transcript (payloadOf eventText messageText isAssistantMessage isUsageReport reportedTotal)

section

variable [Crates]

/-! ### What the records log -/

/-- The text of the response that a record logs. -/
def loggedText (obj : Value) : Option String :=
  let payload := payloadOf obj
  match typeOf obj with
  | some "event_msg" =>
    if typeOf payload = some "agent_message" then eventText payload else none
  | some "response_item" =>
    if typeOf payload = some "message" ∧ payload.strField "role" ≠ some "user" ∧
        isAssistantMessage payload then
      messageText payload
    else none
  | _ => none

/-- The record reports a usage. -/
def isReport (obj : Value) : Bool :=
  typeOf obj = some "event_msg" && isUsageReport (payloadOf obj)

def logOf (t : Transcript × Value) : List (Log LlmResponse) :=
  if isReport t.2 then [.report (reportedTotal (payloadOf t.2))]
  else ((loggedText t.2).map fun text => .item (t.1.codexResponse t.2 text)).toList

def logs (done : List (Transcript × Value)) : List (Log LlmResponse) := done.flatMap logOf

/-- `last_token_usage.total_tokens` of a `token_count` record. -/
def lastTurnTotal (obj : Value) : ℕ :=
  if typeOf obj = some "event_msg" ∧ typeOf (payloadOf obj) = some "token_count" then
    jsonU64 (((payloadOf obj).pointer ["info", "last_token_usage"]).getD .null) "total_tokens"
  else 0

/-- Usage is reported by `token_count` records, and for the last turn in `last_token_usage`. -/
def ReportsTurns (records : List Value) : Prop :=
  ∀ obj ∈ owned records, isReport obj = true → reportedTotal (payloadOf obj) = lastTurnTotal obj

/-- The responses have the tokens that were reported. -/
def Conserves (records : List Value) (session : AgentSession) : Prop :=
  (session.llmResponses.map LlmResponse.totalTokens).sum = ((owned records).map lastTurnTotal).sum

/-- A response without its usage. -/
def bare (r : LlmResponse) : LlmResponse :=
  { r with inputTokens := 0, outputTokens := 0, cacheTokens := 0, totalTokens := 0 }

/-- The responses that are merged into one, each with the tokens that are reported for it. -/
def loggedAsOne (records : List Value) : List ((LlmResponse × ℕ) × List (LlmResponse × ℕ)) :=
  runs (fun a b => isDuplicate a.1 b.1) (attached (logs (turnsOf records)))

/-- Of the responses that are merged into one, at most one has a usage. -/
def AtMostOneUsage (records : List Value) : Prop :=
  ∀ run ∈ loggedAsOne records, AtMostOne Prod.snd run

/-! ### What a record adds to the responses -/

def entry (r : LlmResponse) : LlmResponse × ℕ := (bare r, r.totalTokens)

omit [Crates] in
theorem entry_attachUsage (responses : List LlmResponse) (input output cache total : ℕ) :
    (Transcript.attachUsage responses input output cache total).map entry =
      attach (responses.map entry) (.report total) := by
  unfold attachUsage attach
  rw [List.getLast?_map]
  cases hlast : responses.getLast? with
  | none => rfl
  | some last =>
    simp only [Option.map_some, entry]
    split
    · rw [List.map_append, List.map_dropLast]
      rfl
    · rfl

omit [Crates] in
theorem responses_countTotal (s : Transcript) (payload : Value) :
    (s.countTotal payload).llmResponses = s.llmResponses := by
  unfold countTotal
  split
  · rfl
  · rfl

theorem responses_userMessage (s : Transcript) (obj : Value) :
    (s.userMessage obj).llmResponses = s.llmResponses := by
  unfold userMessage
  split
  · split
    · exact (sameUsage_showPrompt _ _ _).responses
    · rfl
  · rfl

variable {s s' : Transcript} {obj : Value}

theorem entry_logResponse (s : Transcript) (obj : Value) (text : String) :
    (s.logResponse (s.codexResponse obj text)).llmResponses.map entry =
      attach (s.llmResponses.map entry) (.item (s.codexResponse obj text)) := by
  rw [logResponse, List.map_append]
  rfl

/-- An event reports a usage or logs a response, or it does neither. -/
theorem entry_eventMsg (htype : typeOf obj = some "event_msg") :
    (s.eventMsg obj).llmResponses.map entry =
      (logOf (s, obj)).foldl attach (s.llmResponses.map entry) := by
  unfold eventMsg logOf isReport
  by_cases hreport : isUsageReport (payloadOf obj) = true
  · have hagent : typeOf (payloadOf obj) ≠ some "agent_message" := by
      intro hagent
      simp [isUsageReport, hagent] at hreport
    rw [agentMessage_of_ne _ _ hagent, responses_userMessage]
    unfold reportUsage
    rw [if_pos hreport]
    rw [entry_attachUsage, responses_countTotal, htype, hreport]
    rfl
  · rw [reportUsage_of_not s hreport, loggedText, htype]
    by_cases hagent : typeOf (payloadOf obj) = some "agent_message"
    · rw [userMessage_of_ne _ _ (by simp [hagent])]
      unfold agentMessage
      simp only [hreport, hagent, Bool.and_false, if_false, if_true, Bool.false_eq_true]
      cases eventText (payloadOf obj) with
      | none => rfl
      | some text => exact entry_logResponse s obj text
    · rw [agentMessage_of_ne _ _ hagent, responses_userMessage]
      simp only [hreport, hagent, Bool.and_false, if_false, Bool.false_eq_true]
      rfl

theorem entry_message (htype : typeOf obj = some "response_item")
    (hmessage : typeOf (payloadOf obj) = some "message") :
    (s.message obj).llmResponses.map entry =
      (logOf (s, obj)).foldl attach (s.llmResponses.map entry) := by
  unfold message logOf isReport
  simp only [loggedText, htype, hmessage, Option.some_inj, true_and]
  cases messageText (payloadOf obj) with
  | none => simp
  | some text =>
    by_cases huser : (payloadOf obj).strField "role" = some "user"
    · simp [huser, (sameUsage_showPrompt s obj text).responses]
    · by_cases hassistant : isAssistantMessage (payloadOf obj) = true
      · simp only [huser, hassistant, if_true, if_false, ne_eq, not_false_eq_true, true_and]
        exact entry_logResponse s obj text
      · simp [huser, hassistant]

theorem entry_responseItem (htype : typeOf obj = some "response_item")
    (h : s.responseItem obj = .returned s') :
    s'.llmResponses.map entry = (logOf (s, obj)).foldl attach (s.llmResponses.map entry) := by
  have hsame : typeOf (payloadOf obj) ≠ some "message" → SameUsage s s' →
      s'.llmResponses.map entry = (logOf (s, obj)).foldl attach (s.llmResponses.map entry) := by
    intro hmessage hsame
    rw [hsame.responses]
    simp [logOf, isReport, loggedText, htype, hmessage]
  unfold responseItem at h
  split at h
  · next hpayload =>
    obtain ⟨name, args, -, rfl⟩ := exists_of_customToolCall _ _ h
    exact hsame (by simp [hpayload]) (sameUsage_call _ _ _)
  · next hpayload =>
    obtain rfl := Outcome.returned.inj h
    exact hsame (by simp [hpayload]) (sameUsage_call _ _ _)
  · next hpayload =>
    obtain rfl := Outcome.returned.inj h
    exact entry_message htype hpayload
  · next hpayload =>
    obtain rfl := Outcome.returned.inj h
    exact hsame (fun hmessage => by simp [hmessage] at hpayload) (.refl s)

/-- What one own record adds. -/
theorem entry_ownRecord (h : s.ownRecord obj = .returned s') :
    s'.llmResponses.map entry = (logOf (s, obj)).foldl attach (s.llmResponses.map entry) := by
  have hsame : typeOf obj ≠ some "event_msg" → typeOf obj ≠ some "response_item" → SameUsage s s' →
      s'.llmResponses.map entry = (logOf (s, obj)).foldl attach (s.llmResponses.map entry) := by
    intro hevent hitem hsame
    rw [hsame.responses]
    unfold logOf isReport loggedText
    split
    · next hreport => simp [hevent] at hreport
    · split
      · next htype => exact absurd htype hevent
      · next htype => exact absurd htype hitem
      · rfl
  unfold ownRecord at h
  split at h
  · next htype =>
    obtain rfl := Outcome.returned.inj h
    refine hsame (by simp [htype]) (by simp [htype]) ?_
    unfold turnContext
    split
    · exact ⟨rfl, rfl, rfl, rfl⟩
    · exact .refl s
  · next htype =>
    obtain rfl := Outcome.returned.inj h
    exact entry_eventMsg htype
  · next htype => exact entry_responseItem htype h
  · next htype =>
    obtain rfl := Outcome.returned.inj h
    exact hsame (by simp [htype]) (by simp [htype]) (sameUsage_wholePrompt _ _)
  · next htype =>
    obtain rfl := Outcome.returned.inj h
    exact hsame (by simp [htype]) (by simp [htype]) (sameUsage_wholePrompt _ _)
  · next htype =>
    obtain rfl := Outcome.returned.inj h
    exact hsame (by simp [htype]) (by simp [htype]) (sameUsage_wholePrompt _ _)
  · next hevent hitem _ _ _ =>
    obtain rfl := Outcome.returned.inj h
    exact hsame hevent hitem (sameUsage_otherRecord _ _)

/-! ### The run -/

theorem logs_concat (done : List (Transcript × Value)) (t : Transcript × Value) :
    logs (done ++ [t]) = logs done ++ logOf t := by
  rw [logs, List.flatMap_append, List.flatMap_singleton, ← logs]

/-- What a run of records adds. -/
theorem entry_readRecords {records : List Value}
    (hread : Transcript.readRecords "codex" {} records = .returned s) :
    s.llmResponses.map entry = attached (logs (turnsOf records)) := by
  refine turnsOf_induction (P := fun done s => s.llmResponses.map entry = attached (logs done)) rfl
    ?_ (fun _ _ _ _ _ hdone => hdone) hread
  intro done s obj s' hdone hown
  rw [entry_ownRecord hown, hdone, logs_concat, attached, attached, List.foldl_append]

theorem sourceId_of_logOf {t : Transcript × Value} {r : LlmResponse} (h : .item r ∈ logOf t) :
    r.sourceId = "" := by
  unfold logOf at h
  split at h
  · cases List.mem_singleton.mp h
  · obtain ⟨text, -, heq⟩ := Option.map_eq_some_iff.mp (Option.mem_toList.mp h)
    cases heq
    rfl

theorem sourceId_readRecords {records : List Value}
    (hread : Transcript.readRecords "codex" {} records = .returned s) :
    ∀ r ∈ s.llmResponses, r.sourceId = "" := by
  intro r hr
  have hentry : (bare r, r.totalTokens) ∈ s.llmResponses.map entry := List.mem_map_of_mem hr
  rw [entry_readRecords hread] at hentry
  obtain ⟨t, -, hlog⟩ := List.mem_flatMap.mp (item_mem_of_attached hentry)
  exact (sourceId_of_logOf hlog : (bare r).sourceId = "")

/-! ### The merge -/

omit [Crates] in
theorem isDuplicate_merge (a b c : LlmResponse) (h : isDuplicate a b = true) :
    isDuplicate (mergeLlmResponse a b) c = isDuplicate a c := by
  have hhash : (mergeLlmResponse a b).textHash = a.textHash := by
    have heq : a.textHash = b.textHash := by
      simp only [isDuplicate, Bool.and_eq_true, decide_eq_true_eq] at h
      exact h.1.2
    unfold mergeLlmResponse
    dsimp only
    rw [heq, ite_self]
  unfold isDuplicate
  rw [hhash]
  rfl

omit [Crates] in
theorem Dedup.add_of_sourceless (d : Dedup) {r : LlmResponse} (h : r.sourceId = "") :
    (d.add r).unique = mergeInto isDuplicate mergeLlmResponse d.unique r := by
  have hkey : sourceKey r = none := if_pos h
  unfold Dedup.add mergeInto lastDuplicate
  rw [hkey, Option.bind_none, Option.none_or]
  cases hlast : d.unique.getLast? with
  | none => rfl
  | some previous =>
    obtain ⟨front, hfront⟩ := List.getLast?_eq_some_iff.mp hlast
    dsimp only
    by_cases hdup : isDuplicate previous r = true
    · rw [if_pos hdup, if_pos hdup, hfront]
      dsimp only
      rw [List.modify_eq_take_cons_drop (by simp)]
      simp
    · rw [if_neg hdup, if_neg hdup]

omit [Crates] in
/-- The responses that are merged are the runs of what was logged. -/
theorem deduplicate_eq_runs {responses : List LlmResponse} (h : ∀ r ∈ responses, r.sourceId = "") :
    deduplicateLlmResponses responses =
      (runs isDuplicate responses).map (row mergeLlmResponse) := by
  rw [← foldl_mergeInto isDuplicate_merge]
  unfold deduplicateLlmResponses
  induction responses using List.reverseRecOn with
  | nil => rfl
  | append_singleton responses r ih =>
    rw [List.foldl_append, List.foldl_append, List.foldl_cons, List.foldl_cons, List.foldl_nil,
      List.foldl_nil, Dedup.add_of_sourceless _ (h r (by simp)),
      ih fun r hr => h r (List.mem_append_left _ hr)]

/-! ### The sums -/

theorem sum_amount_logOf {t : Transcript × Value}
    (h : isReport t.2 = true → reportedTotal (payloadOf t.2) = lastTurnTotal t.2) :
    ((logOf t).map Log.amount).sum = lastTurnTotal t.2 := by
  unfold logOf
  by_cases hreport : isReport t.2 = true
  · rw [if_pos hreport, ← h hreport]
    rfl
  · have hnone : lastTurnTotal t.2 = 0 := by
      refine if_neg ?_
      rintro ⟨htype, hpayload⟩
      simp [isReport, isUsageReport, htype, hpayload] at hreport
    rw [if_neg hreport, hnone]
    cases loggedText t.2 with
    | none => rfl
    | some text => rfl

theorem sum_amount_logs {done : List (Transcript × Value)}
    (h : ∀ t ∈ done, isReport t.2 = true → reportedTotal (payloadOf t.2) = lastTurnTotal t.2) :
    ((logs done).map Log.amount).sum = ((done.map Prod.snd).map lastTurnTotal).sum := by
  induction done with
  | nil => rfl
  | cons t done ih =>
    rw [logs, List.flatMap_cons, List.map_append, List.sum_append,
      sum_amount_logOf (h t List.mem_cons_self), ← logs,
      ih fun t ht => h t (List.mem_cons_of_mem _ ht)]
    rfl

omit [Crates] in
/-- Each response that is left has the largest amount of those that it was merged of. -/
theorem sum_totalTokens_deduplicate {responses : List LlmResponse}
    (h : ∀ r ∈ responses, r.sourceId = "") :
    ((deduplicateLlmResponses responses).map LlmResponse.totalTokens).sum =
      ((runs (fun a b => isDuplicate a.1 b.1) (responses.map entry)).map (peak Prod.snd)).sum := by
  have hruns : runs (fun a b => isDuplicate a.1 b.1) (responses.map entry) =
      (runs isDuplicate responses).map (Prod.map entry (List.map entry)) :=
    runs_map (fun _ _ => rfl) responses
  have hrow : ∀ run, (row mergeLlmResponse run).totalTokens = peak LlmResponse.totalTokens run :=
    value_row fun _ _ => rfl
  rw [deduplicate_eq_runs h, hruns, List.map_map, List.map_map]
  congr 1
  refine List.map_congr_left fun run _ => ?_
  rw [Function.comp_apply, hrow]
  have hentry : ∀ r, (entry r).2 = r.totalTokens := fun _ => rfl
  exact (peak_map hentry run).symm

/-- The tokens of the responses are those that were reported exactly if a response waits for each
report, and of the responses that are merged into one at most one has a usage. -/
theorem codex_conserves_iff {content : List Char} (h : ReportsTurns (recordsOf content))
    {session : AgentSession} (hparse : parseJsonl "codex" content = .returned (some session)) :
    Conserves (recordsOf content) session ↔
      AllTaken (logs (turnsOf (recordsOf content))) ∧ AtMostOneUsage (recordsOf content) := by
  obtain ⟨s, hrun, hfinish⟩ := exists_of_parseJsonl hparse
  obtain ⟨-, hresponses, -⟩ := Transcript.finish_eq_some hfinish
  have hdone : ∀ t ∈ turnsOf (recordsOf content), isReport t.2 = true →
      reportedTotal (payloadOf t.2) = lastTurnTotal t.2 :=
    fun t ht => h t.2 (List.mem_map_of_mem ht)
  have hattached := sum_attached (logs (turnsOf (recordsOf content)))
  have hpeaks := sum_peaks (fun a b => isDuplicate a.1 b.1) Prod.snd
    (attached (logs (turnsOf (recordsOf content))))
  have htotals : (session.llmResponses.map LlmResponse.totalTokens).sum =
      ((loggedAsOne (recordsOf content)).map (peak Prod.snd)).sum := by
    rw [hresponses, sum_totalTokens_deduplicate (sourceId_readRecords hrun), entry_readRecords hrun,
      loggedAsOne]
  unfold Conserves AtMostOneUsage
  rw [htotals, owned, ← sum_amount_logs hdone, ← hattached.2, loggedAsOne, ← hpeaks.2]
  omega

end

/-! ### A turn that only calls a tool -/

def modelRecord (name : String) : Value :=
  .object [("type", .string "turn_context"), ("payload", .object [("model", .string name)])]

def eventRecord (payload : List (String × Value)) : Value :=
  .object [("type", .string "event_msg"), ("payload", .object payload)]

def agentRecord (text : String) : Value :=
  eventRecord [("type", .string "agent_message"), ("message", .string text)]

def lastUsageRecord (total : ℕ) : Value :=
  eventRecord [("type", .string "token_count"),
    ("info", .object [("last_token_usage", .object [("total_tokens", .ofNat total)])])]

/-- The digests of the texts, as far as they are used. -/
def agentDigests : List (String × String) :=
  [("Done.", "ed251864987c"), ("I look.", "77f9b7522b7c")]

section ToolTurn

def toolTurn : List Value :=
  [modelRecord "gpt-5", agentRecord "I look.", lastUsageRecord 15,
    .object [("type", .string "response_item"),
      ("payload", .object [("type", .string "function_call"), ("name", .string "exec_command")])],
    lastUsageRecord 20]

local instance toolTurnCrates : Crates := .ofRecords toolTurn agentDigests []

/-- The usage of the second turn is lost. -/
theorem toolTurn_loses : ReportsTurns (recordsOf (contentOf toolTurn)) ∧
    ∃ session, parseJsonl "codex" (contentOf toolTurn) = .returned (some session) ∧
      ¬ Conserves (recordsOf (contentOf toolTurn)) session := by
  have hrecords : recordsOf (contentOf toolTurn) = toolTurn :=
    recordsOf_contentOf (by decide) agentDigests []
  have hreports : ReportsTurns (recordsOf (contentOf toolTurn)) := by
    rw [ReportsTurns]
    decide
  have hparse : (parseJsonl "codex" (contentOf toolTurn)).value.isSome = true := by
    decide
  have hloses : ∀ session ∈ (parseJsonl "codex" (contentOf toolTurn)).value,
      (session.llmResponses.map LlmResponse.totalTokens).sum ≠
        ((owned (recordsOf (contentOf toolTurn))).map lastTurnTotal).sum := by
    rw [hrecords]
    decide
  obtain ⟨session, hsession⟩ := Option.isSome_iff_exists.mp hparse
  exact ⟨hreports, session, Outcome.eq_of_value hsession, hloses session hsession⟩

end ToolTurn

section TwoTurns

def twoTurns : List Value :=
  [modelRecord "gpt-5", agentRecord "I look.", lastUsageRecord 15, agentRecord "Done.",
    lastUsageRecord 20]

local instance twoTurnsCrates : Crates := .ofRecords twoTurns agentDigests []

/-- Two turns, each with a response before its report. -/
theorem codex_conserves_iff_twoTurns :
    ∃ session, parseJsonl "codex" (contentOf twoTurns) = .returned (some session) ∧
      Conserves (recordsOf (contentOf twoTurns)) session := by
  have hrecords : recordsOf (contentOf twoTurns) = twoTurns :=
    recordsOf_contentOf (by decide) agentDigests []
  have hreports : ReportsTurns (recordsOf (contentOf twoTurns)) := by
    rw [ReportsTurns]
    decide
  have hparse : (parseJsonl "codex" (contentOf twoTurns)).value.isSome = true := by
    decide
  have htaken : AllTaken (logs (turnsOf (recordsOf (contentOf twoTurns)))) := by
    rw [← (sum_attached _).2, hrecords]
    decide
  have hone : AtMostOneUsage (recordsOf (contentOf twoTurns)) := by
    rw [hrecords, AtMostOneUsage]
    decide
  obtain ⟨session, hsession⟩ := Option.isSome_iff_exists.mp hparse
  have hreturned := Outcome.eq_of_value hsession
  exact ⟨session, hreturned, (codex_conserves_iff hreports hreturned).mpr ⟨htaken, hone⟩⟩

end TwoTurns

end AgentSight.Session
