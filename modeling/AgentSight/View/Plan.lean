import AgentSight.View.Effect

/-!
# What an event calls for

The rows an event yields, and in which order, depend on the event, on the requests that wait
for a response and on the processes that run, but on nothing else: in particular not on the
sinks. `plan` lists them, together with the changes to what the view remembers in between,
and ingesting an event is carrying out its plan.
-/

namespace AgentSight.View

open Effectful List
open Json (Value)

/-! ### Deeds -/

/-- One thing the view does for an event. -/
inductive Deed where
  | emit (row : Row)
  /-- The requests that wait for a response from now on. -/
  | await (pending : Pending)
  /-- The processes that run from now on. -/
  | track (activeProcesses : ℕ → Option String)

section Perform

variable {σ : Type} [ViewSink σ] [External]

/-- The emission of a row of any kind. -/
def emit : Row → ViewM σ Unit
  | .session row => emitSession row
  | .llmCall row => emitLlmCall row
  | .tokenUsage row => emitTokenUsage row
  | .toolCall row => emitToolCall row
  | .processNode row => emitProcessNode row
  | .auditEvent row => emitAuditEvent row
  | .networkTarget row => emitNetworkTarget row
  | .resourceSample row => emitResourceSample row

def emitAll (rows : List Row) : ViewM σ Unit := rows.forM emit

def Deed.perform : Deed → ViewM σ Unit
  | .emit row => View.emit row
  | .await pending => Effectful.update fun v => { v with pending }
  | .track activeProcesses => Effectful.update fun v => { v with activeProcesses }

/-- Deeds in order, up to the first that reports an error. -/
def performAll (deeds : List Deed) : ViewM σ Unit := deeds.forM Deed.perform

theorem performAll_cons (deed : Deed) (deeds : List Deed) :
    (performAll (deed :: deeds) : ViewM σ Unit) = deed.perform >>= fun _ => performAll deeds :=
  forM_cons

theorem performAll_append (deeds deeds' : List Deed) :
    (performAll (deeds ++ deeds') : ViewM σ Unit) =
      performAll deeds >>= fun _ => performAll deeds' := forM_append

theorem performAll_emit (rows : List Row) :
    (performAll (rows.map .emit) : ViewM σ Unit) = emitAll rows := forM_map

theorem emitAll_append (rows rows' : List Row) :
    (emitAll (rows ++ rows') : ViewM σ Unit) = emitAll rows >>= fun _ => emitAll rows' :=
  forM_append

theorem emitAll_cons (row : Row) (rows : List Row) :
    (emitAll (row :: rows) : ViewM σ Unit) = emit row >>= fun _ => emitAll rows :=
  forM_cons

theorem emitAll_singleton (row : Row) : (emitAll [row] : ViewM σ Unit) = emit row :=
  bind_pure _

theorem emitAll_map {δ : Type} (g : δ → Row) (l : List δ) :
    (emitAll (l.map g) : ViewM σ Unit) = l.forM fun x => emit (g x) := forM_map

theorem emitAll_toList {δ : Type} (g : δ → Row) (o : Option δ) :
    (emitAll (o.toList.map g) : ViewM σ Unit) =
      match o with
      | some x => emit (g x)
      | none => pure () := by
  cases o with
  | none => rfl
  | some x => exact emitAll_singleton _

/-- A loop each of whose rounds emits rows. -/
theorem forM_eq_emitAll {δ : Type} {f : δ → ViewM σ Unit} {g : δ → List Row}
    (h : ∀ x, f x = emitAll (g x)) (l : List δ) : l.forM f = emitAll (l.flatMap g) := by
  induction l with
  | nil => rfl
  | cons x l ih => rw [flatMap_cons, emitAll_append, ← h, ← ih]; rfl

end Perform

/-! ### The rows of a response -/

section Rows

variable [External]

def openaiToolRows (event : CanonicalEvent) (llmCallId : String) (pid : ℕ) (confidence : ℚ) :
    List ToolCallRow :=
  let openaiJson := ((event.attributes.get "json_content").bind (·.asStr)).bind External.fromStr
  match (openaiJson.bind (·.get "tool_calls")).bind (·.asArray) with
  | none => []
  | some toolCalls =>
    toolCalls.zipIdx.map fun (toolCall, idx) =>
      let function := (toolCall.get "function").getD .null
      toolCallRow event llmCallId (((function.get "name").bind (·.asStr)).getD "?")
        ((toolCall.get "id").bind (·.asStr)) ("openai-tool-" ++ toString idx) pid
        (parseOptionalValue ((function.get "arguments").bind (·.asStr))) confidence

def sseToolRows (event : CanonicalEvent) (llmCallId : String) (pid : ℕ) (confidence : ℚ)
    (sse : Value) (idx : ℕ) : List ToolCallRow :=
  match sse.pointer ["parsed_data", "content_block"] with
  | none => []
  | some block =>
    if (block.get "type").bind (·.asStr) != some "tool_use" then []
    else
      [toolCallRow event llmCallId (((block.get "name").bind (·.asStr)).getD "?")
        ((block.get "id").bind (·.asStr)) ("tool-" ++ toString idx) pid
        (parseOptionalValue ((block.get "input").map External.valueToString)) confidence]

/-- The tool calls of a response. -/
def toolRows (event : CanonicalEvent) (llmCallId : String) (pid : ℕ) (confidence : ℚ) :
    List ToolCallRow :=
  openaiToolRows event llmCallId pid confidence ++
    match (event.attributes.get "sse_events").bind (·.asArray) with
    | none => []
    | some events =>
      events.zipIdx.flatMap fun (sse, idx) => sseToolRows event llmCallId pid confidence sse idx

/-- The token usage of a response, if it tells any. -/
def usageRow (resp : CanonicalEvent) (llmCallId : String) (pid : ℕ) (comm : String)
    (provider : Option String) (model : String) (responseBody : Option Value)
    (confidence : ℚ) : Option TokenUsageRow :=
  let usage := responseUsage resp responseBody
  if usage.isEmpty then none
  else
    some (tokenUsageRow ("token-" ++ llmCallId) llmCallId resp.timestampMs pid (some comm)
      provider (some model) usage "response_usage" confidence)

/-- The model of a response with its request. -/
def pairModel (req : PendingRequest) (resp : CanonicalEvent) : String :=
  (req.model.or (((responseBodyJson resp).bind extractModel).or resp.model)).getD "unknown"

def pairUsageRow (req : PendingRequest) (resp : CanonicalEvent) (confidence : ℚ) :
    Option TokenUsageRow :=
  usageRow resp ("llm-" ++ req.eventId) req.pid req.comm (providerOr req.provider req.host)
    (pairModel req resp) (responseBodyJson resp) confidence

def pairToolRows (req : PendingRequest) (resp : CanonicalEvent) (confidence : ℚ) :
    List ToolCallRow :=
  toolRows resp ("llm-" ++ req.eventId) req.pid confidence

def pairAuditRow (req : PendingRequest) (resp : CanonicalEvent) : AuditEventRow :=
  llmAuditRow ("llm-" ++ req.eventId) resp.timestampMs req.pid req.comm
    (some (pairModel req resp)) "call" req.host
    (if isErrorStatus resp.statusCode then "failure" else "success") "LLM call"
    (responseBodyJson resp)

/-- The rows of a response with its request. -/
def pairRows (req : PendingRequest) (resp : CanonicalEvent) (confidence : ℚ) : List Row :=
  (pairUsageRow req resp confidence).toList.map .tokenUsage ++
    (pairToolRows req resp confidence).map .toolCall ++
    [.auditEvent (pairAuditRow req resp), .llmCall (pairRow req resp)]

/-- The rows of a response that no request was found for. -/
def orphanRows (resp : CanonicalEvent) : List Row :=
  let responseBody := responseBodyJson resp
  let model := (resp.model.or (responseBody.bind extractModel)).getD "unknown"
  let provider := providerOr resp.provider resp.host
  let pid := resp.pid.getD 0
  let comm := resp.comm.getD ""
  let llmCallId := "llm-orphan-" ++ resp.eventId
  let usage := usageRow resp llmCallId pid comm provider model responseBody confidenceOrphan
  usage.toList.map .tokenUsage ++ (toolRows resp llmCallId pid confidenceOrphan).map .toolCall ++
    [.auditEvent (llmAuditRow llmCallId resp.timestampMs pid comm (some model) "response"
      resp.host "orphan_response" "LLM response" responseBody),
    .llmCall (orphanResponseRow resp)]

/-- The rows of a request. -/
def requestRows (req : PendingRequest) : List Row :=
  [.auditEvent (llmAuditRow ("llm-" ++ req.eventId) req.timestampMs req.pid req.comm req.model
    "request" req.host "orphan_request" "LLM request" req.bodyJson),
    .llmCall (orphanRequestRow req)]

/-! ### The rows of agents and processes -/

def claudeItemRows (event : CanonicalEvent) (item : Value) (idx : ℕ) : List Row :=
  let pid := event.pid.getD 0
  let message := ((item.get "message").bind (·.asStr)).getD ""
  if message == "tengu_api_success" then
    let input := item.i64Field "input_tokens"
    let output := item.i64Field "output_tokens"
    let cache := item.i64Field "cached_input_tokens"
    let total := input + output + cache
    if total ≤ 0 then []
    else
      let model := ((item.get "model").bind (·.asStr)).getD "unknown"
      let llmCallId := "claude-telemetry-" ++ event.eventId ++ "-" ++ toString idx
      [.tokenUsage (tokenUsageRow ("token-" ++ llmCallId) llmCallId event.timestampMs pid
        (some (event.comm.getD "")) (some "anthropic") (some model)
        (observedTokenUsage input output cache total) "claude_telemetry" confidenceTelemetry)]
  else if message == "tengu_tool_use_success" then
    let durationMs := ((item.get "duration_ms").bind (·.asI64)).map fun d => (d % 2 ^ 64).toNat
    [.toolCall
      { id := "claude-tool-telemetry-" ++ event.eventId ++ "-" ++ toString idx
        sessionId := none
        conversationId := none
        timestampMs := event.timestampMs
        toolName := some (((item.get "tool_name").bind (·.asStr)).getD "?")
        toolCallId := (item.get "request_id").bind (·.asStr)
        startTimestampMs := durationMs.bind fun d =>
          if d ≤ event.timestampMs then some (event.timestampMs - d) else none
        endTimestampMs := some event.timestampMs
        durationMs
        status := some "completed"
        input := .object []
        output := .object []
        relatedPid := some pid
        relatedEventId := some event.eventId
        viewSource := "view"
        confidence := some (3 / 4) }]
  else []

def claudeRows (event : CanonicalEvent) : List Row :=
  if !Str.contains (event.host.getD "") "datadoghq.com" && event.source != "ssl" then []
  else
    match (bodyJson event.attributes).or
      (((event.attributes.get "data").bind (·.asStr)).bind External.fromStr) with
    | some (.array items) => items.zipIdx.flatMap fun (item, idx) => claudeItemRows event item idx
    | _ => []

omit [External] in
def geminiModelRows (event : CanonicalEvent) (model : String) (stats : Value) : List Row :=
  let tokens := (stats.get "tokens").getD stats
  let input := max (tokens.i64Field "prompt") (tokens.i64Field "input")
  let output :=
    tokens.i64Field "candidates" + tokens.i64Field "thoughts" + tokens.i64Field "tool"
  let cache := tokens.i64Field "cached"
  let total := max (tokens.i64Field "total") (input + output + cache)
  if total ≤ 0 then []
  else
    let llmCallId :=
      "gemini-stdout-" ++ event.eventId ++ "-" ++ Str.sanitizeAsciiIdentifier model
    [.tokenUsage (tokenUsageRow ("token-" ++ llmCallId) llmCallId event.timestampMs
      (event.pid.getD 0) (some (event.comm.getD "gemini")) (some "gcp.gen_ai") (some model)
      (observedTokenUsage input output cache total) "gemini_cli_stdout_stats" confidenceStdout)]

def geminiRows (event : CanonicalEvent) : List Row :=
  if event.kind != .stdioMessage && event.kind != .stdioRpc then []
  else
    let obj := ((event.attributes.get "data").bind (·.asStr)).bind External.fromStr
    match (obj.bind (·.pointer ["stats", "models"])).bind (·.asObject) with
    | none => []
    | some models => models.flatMap fun (model, stats) => geminiModelRows event model stats

/-- The audit of a process, its node, and which node its pid belongs to from then on. -/
def processDeeds (event : CanonicalEvent) (action : String)
    (activeProcesses : ℕ → Option String) : List Deed :=
  .emit (.auditEvent (auditRow event "process" action (processAuditStatus action event.attributes)
    ((event.attributes.get "filename").bind (·.asStr)))) ::
    match event.pid with
    | none => []
    | some pid =>
      let fresh := "process-" ++ toString pid ++ "-" ++ toString event.timestampMs
      let id := (activeProcesses pid).getD fresh
      let node := ((processNodeFromEvent event action id).toList.map .processNode).map Deed.emit
      if action == "exec" then
        .track (Function.update activeProcesses pid (some id)) :: node
      else if action == "exit" then .track (Function.update activeProcesses pid none) :: node
      else []

def fileAuditRow (event : CanonicalEvent) : Row :=
  .auditEvent (auditRow event "file" "write" "observed"
    (((event.attributes.get "path").or (event.attributes.get "filepath")).bind (·.asStr)))

def networkAuditRow (event : CanonicalEvent) : Row :=
  .auditEvent (auditRow event "network"
    ((processNetworkAction event.attributes).getD "network") "observed"
    (((event.attributes.get "detail").or (event.attributes.get "host")).bind (·.asStr)))

/-! ### The plan of an event -/

def requestDeeds (event : CanonicalEvent) (pending : Pending) : List Deed :=
  match event.pid, event.tid with
  | some pid, some tid =>
    let req := pendingRequestOf event pid
    if req.bodyJson.isNone && req.model.isNone then []
    else (requestRows req).map .emit ++ [.await (pushPending pending (pid, tid) req)]
  | _, _ => []

/-- The request a response takes, how sure the match is, and the requests that still wait. -/
def taken (event : CanonicalEvent) (pending : Pending) : Option (PendingRequest × ℚ × Pending) :=
  event.stream.bind fun stream => takeMatchingRequest pending stream event

def responseDeeds (event : CanonicalEvent) (pending : Pending) : List Deed :=
  match event.pid with
  | none => []
  | some _ =>
    match taken event pending with
    | some (req, confidence, rest) => .await rest :: (pairRows req event confidence).map .emit
    | none => (orphanRows event).map .emit

/-- What an event's kind calls for. -/
def kindDeeds (event : CanonicalEvent) (pending : Pending)
    (activeProcesses : ℕ → Option String) : List Deed :=
  match event.kind with
  | .llmRequest => requestDeeds event pending
  | .llmResponse | .llmError => responseDeeds event pending
  | .httpResponse =>
    if hasPendingLlmRequest pending event then responseDeeds event pending else []
  | .processExec => processDeeds event "exec" activeProcesses
  | .processExit => processDeeds event "exit" activeProcesses
  | .fsOpen => if isWritableOpen event then [.emit (fileAuditRow event)] else []
  | .fsWrite | .fsMutation => [.emit (fileAuditRow event)]
  | .unknown =>
    if isProcessSummaryWriteEvent event then [.emit (fileAuditRow event)]
    else if isProcessNetworkEvent event then [.emit (networkAuditRow event)]
    else []
  | _ => []

/-- The rows an event yields whatever its kind. -/
def commonRows (event : CanonicalEvent) : List Row :=
  (resourceSampleFromEvent event).toList.map .resourceSample ++
    (networkTargetFromEvent event).toList.map .networkTarget ++
    (claudeRows event ++ geminiRows event)

/-- What an event calls for, given the requests that wait and the processes that run. -/
def plan (event : CanonicalEvent) (pending : Pending) (activeProcesses : ℕ → Option String) :
    List Deed :=
  let pending := prunePending pending event.timestampMs
  .await pending :: ((commonRows event).map .emit ++ kindDeeds event pending activeProcesses)

end Rows

/-! ### Ingesting is carrying out the plan -/

section Carry

variable {σ : Type} [ViewSink σ] [External] (event : CanonicalEvent)

variable (llmCallId : String)

theorem ingestSseTools_eq (pid : ℕ) (confidence : ℚ) :
    (ingestSseTools event llmCallId pid confidence : ViewM σ Unit) =
      emitAll ((toolRows event llmCallId pid confidence).map .toolCall) := by
  have hopenai : (ingestOpenaiTools event llmCallId pid confidence : ViewM σ Unit) =
      emitAll ((openaiToolRows event llmCallId pid confidence).map .toolCall) := by
    unfold ingestOpenaiTools openaiToolRows
    dsimp only
    cases ((((event.attributes.get "json_content").bind (·.asStr)).bind External.fromStr).bind
      (·.get "tool_calls")).bind (·.asArray) with
    | none => rfl
    | some toolCalls =>
      rw [map_map, emitAll_map]
      rfl
  have hsse sse idx : (ingestSseTool event llmCallId pid confidence sse idx : ViewM σ Unit) =
        emitAll ((sseToolRows event llmCallId pid confidence sse idx).map .toolCall) := by
    unfold ingestSseTool sseToolRows
    cases sse.pointer ["parsed_data", "content_block"] with
    | none => rfl
    | some block =>
      dsimp only
      split
      · rfl
      · rw [map_singleton, emitAll_singleton]
        rfl
  rw [toolRows, map_append, emitAll_append, ← hopenai]
  refine bind_congr (m := ViewM σ) fun _ => ?_
  cases (event.attributes.get "sse_events").bind (·.asArray) with
  | none => rfl
  | some events =>
    simp only [map_flatMap]
    exact forM_eq_emitAll (fun _ => hsse _ _) _

theorem ingestResponseUsageAndTools_eq (pid : ℕ) (comm : String)
    (provider : Option String) (model : String) (body : Option Value) (confidence : ℚ) :
    let usage := usageRow event llmCallId pid comm provider model body confidence
    (ingestResponseUsageAndTools event llmCallId pid comm provider model body confidence :
        ViewM σ (Option TokenUsageRow)) =
      emitAll (usage.toList.map .tokenUsage ++
        (toolRows event llmCallId pid confidence).map .toolCall) >>= fun _ => pure usage := by
  unfold ingestResponseUsageAndTools usageRow
  dsimp only
  rw [ingestSseTools_eq]
  split
  · rfl
  · rw [Option.toList_some, map_singleton, singleton_append, emitAll_cons, bind_assoc]
    rfl

omit [External] in
theorem withUsage_usageRow (pid : ℕ) (comm : String)
    (provider : Option String) (model : String) (body : Option Value) (confidence : ℚ)
    (row : LlmCallRow) :
    row.withUsage (usageRow event llmCallId pid comm provider model body confidence) =
      row.withTokens (responseUsage event body) := by
  unfold usageRow LlmCallRow.withTokens
  dsimp only
  split <;> rfl

theorem upsertLlmPair_eq (req : PendingRequest) (confidence : ℚ) :
    (upsertLlmPair req event confidence : ViewM σ Unit) =
      emitAll (pairRows req event confidence) := by
  unfold upsertLlmPair
  dsimp only
  rw [ingestResponseUsageAndTools_eq, bind_assoc]
  refine Eq.trans (bind_congr fun _ => ?_) (emitAll_append _ _).symm
  rw [pure_bind, withUsage_usageRow, emitAll_cons, emitAll_singleton]
  rfl

theorem insertOrphanLlmResponse_eq :
    (insertOrphanLlmResponse event : ViewM σ Unit) = emitAll (orphanRows event) := by
  unfold insertOrphanLlmResponse
  dsimp only
  rw [ingestResponseUsageAndTools_eq, bind_assoc]
  refine Eq.trans (bind_congr fun _ => ?_) (emitAll_append _ _).symm
  rw [pure_bind, withUsage_usageRow, emitAll_cons, emitAll_singleton]
  rfl

theorem ingestAgentSpecificEvent_eq : (ingestAgentSpecificEvent event : ViewM σ Unit) =
      emitAll (claudeRows event ++ geminiRows event) := by
  have hitem item idx : (ingestClaudeTelemetryItem event item idx : ViewM σ Unit) =
        emitAll (claudeItemRows event item idx) := by
    unfold ingestClaudeTelemetryItem claudeItemRows
    dsimp only
    split
    · split
      · rfl
      · rw [emitAll_singleton]
        rfl
    · split
      · rw [emitAll_singleton]
        rfl
      · rfl
  have hstats model stats : (ingestGeminiModelStats event model stats : ViewM σ Unit) =
        emitAll (geminiModelRows event model stats) := by
    unfold ingestGeminiModelStats geminiModelRows
    dsimp only
    split
    · rfl
    · rw [emitAll_singleton]
      rfl
  have hclaude : (ingestClaudeTelemetry event : ViewM σ Unit) = emitAll (claudeRows event) := by
    unfold ingestClaudeTelemetry claudeRows
    split
    · rfl
    · cases (bodyJson event.attributes).or
        (((event.attributes.get "data").bind (·.asStr)).bind External.fromStr) with
      | none => rfl
      | some body =>
        cases body with
        | array items => exact forM_eq_emitAll (fun _ => hitem _ _) _
        | _ => rfl
  have hgemini : (ingestGeminiStdioStats event : ViewM σ Unit) = emitAll (geminiRows event) := by
    unfold ingestGeminiStdioStats geminiRows
    dsimp only
    split
    · rfl
    · cases (((((event.attributes.get "data").bind (·.asStr)).bind External.fromStr).bind
        (·.pointer ["stats", "models"])).bind (·.asObject)) with
      | none => rfl
      | some models => exact forM_eq_emitAll (fun _ => hstats _ _) _
  rw [emitAll_append, ← hclaude, ← hgemini]
  rfl

theorem insertOrphanLlmRequest_eq (req : PendingRequest) :
    (insertOrphanLlmRequest req : ViewM σ Unit) = emitAll (requestRows req) := by
  rw [requestRows, emitAll_cons, emitAll_singleton]
  rfl

/-- The requests that wait and the processes that run. -/
def MaterializedView.memory (v : MaterializedView σ) : Pending × (ℕ → Option String) :=
  (v.pending, v.activeProcesses)

omit [ViewSink σ] [External] in
@[simp] theorem MaterializedView.observe_memory (v : MaterializedView σ) (t : Option ℕ) :
    (v.observe t).memory = v.memory := by
  rcases t with _ | t <;> rfl

/-- Rows are emitted without regard to what the view remembers. -/
theorem keeps_memory_emit (row : Row) : Keeps MaterializedView.memory
    (emit row : ViewM σ Unit) := by
  intro v
  cases row with
  | llmCall row =>
    change ((v.observe (some row.startTimestampMs)).observe row.endTimestampMs).memory = _
    simp
  | tokenUsage row => exact v.observe_memory (some row.timestampMs)
  | toolCall row => exact v.observe_memory (some row.timestampMs)
  | auditEvent row => exact v.observe_memory (some row.timestampMs)
  | resourceSample row => exact v.observe_memory (some row.timestampMs)
  | session row =>
    have hobs : ((v.observe (some row.startTimestampMs)).observe row.endTimestampMs).memory =
        v.memory := by simp
    change (v.upsertSession row).memory = _
    unfold MaterializedView.upsertSession
    dsimp only
    split <;> exact hobs
  | processNode row =>
    have hobs : ((v.observe row.startTimestampMs).observe row.endTimestampMs).memory =
        v.memory := by simp
    change (v.upsertProcessNode row).memory = _
    unfold MaterializedView.upsertProcessNode
    dsimp only
    split <;> exact hobs
  | networkTarget row =>
    have hobs : ((v.observe row.firstTimestampMs).observe row.lastTimestampMs).memory =
        v.memory := by simp
    change (v.upsertNetworkTarget row).memory = _
    unfold MaterializedView.upsertNetworkTarget
    dsimp only
    split <;> exact hobs

theorem keeps_memory_emitAll (rows : List Row) :
    Keeps MaterializedView.memory (emitAll rows : ViewM σ Unit) := by
  induction rows with
  | nil => exact Keeps.pure _
  | cons row rows ih =>
    exact (keeps_memory_emit row).bind fun _ => ih

/-- What comes after rows finds the memory from before them. -/
theorem exec_emitAll_bind {α : Type} {rows : List Row} {f g : Unit → ViewM σ α}
    {v : MaterializedView σ}
    (h : ∀ v' : MaterializedView σ, v'.memory = v.memory → exec (f ()) v' = exec (g ()) v') :
    exec (emitAll rows >>= f) v = exec (emitAll rows >>= g) v := by
  refine exec_bind_congr fun _ v' hv' => h v' ?_
  have hkeep := keeps_memory_emitAll rows v
  rwa [hv'] at hkeep

theorem exec_ingestLlmRequest (v : MaterializedView σ) :
    exec (ingestLlmRequest event) v = exec (performAll (requestDeeds event v.pending)) v := by
  unfold ingestLlmRequest requestDeeds
  cases hpid : event.pid with
  | none => rfl
  | some pid =>
    cases htid : event.tid with
    | none => rfl
    | some tid =>
      dsimp only
      split
      · rfl
      · rw [performAll_append, insertOrphanLlmRequest_eq]
        refine exec_emitAll_bind fun v' hmemory => ?_
        have hpending : v'.pending = v.pending := congrArg Prod.fst hmemory
        rw [exec_update, hpending]
        rfl

theorem exec_ingestLlmResponse (v : MaterializedView σ) :
    exec (ingestLlmResponse event) v = exec (performAll (responseDeeds event v.pending)) v := by
  unfold ingestLlmResponse responseDeeds
  cases hpid : event.pid with
  | none => rfl
  | some pid =>
    have htaken : (event.tid.bind fun tid => takeMatchingRequest v.pending (pid, tid) event) =
        taken event v.pending := by
      cases htid : event.tid <;> simp [taken, CanonicalEvent.stream, hpid, htid]
    rw [exec_transact_bind, htaken]
    cases taken event v.pending with
    | none =>
      rw [performAll_emit, insertOrphanLlmResponse_eq]
    | some found =>
      dsimp only
      rw [performAll_cons, performAll_emit, upsertLlmPair_eq]
      rfl

theorem exec_ingestProcessAudit (action : String) (v : MaterializedView σ) :
    exec (ingestProcessAudit event action) v =
      exec (performAll (processDeeds event action v.activeProcesses)) v := by
  have hnode node : (match node with
        | some row => emitProcessNode row
        | none => pure () : ViewM σ Unit) = emitAll (node.toList.map .processNode) := by
    rw [emitAll_toList]
    cases node <;> rfl
  unfold ingestProcessAudit processDeeds
  rw [performAll_cons]
  change exec (emit (.auditEvent _) >>= _) v = exec (emit (.auditEvent _) >>= _) v
  rw [← emitAll_singleton]
  refine exec_emitAll_bind fun v' hmemory => ?_
  have hactive : v'.activeProcesses = v.activeProcesses := congrArg Prod.snd hmemory
  rw [processNodeId, exec_transact_bind, ← hactive]
  cases hpid : event.pid with
  | none => rfl
  | some pid =>
    by_cases hexec : (action == "exec") = true
    · simp only [if_pos hexec, Option.bind_some, performAll_cons, performAll_emit]
      exact congrArg (exec · _) (hnode _)
    · by_cases hexit : (action == "exit") = true
      · simp only [if_neg hexec, if_pos hexit, Option.bind_some, performAll_cons, performAll_emit]
        exact congrArg (exec · _) (hnode _)
      · simp only [if_neg hexec, if_neg hexit]
        rfl

/-- What an event's kind calls for, with what the view remembers. -/
theorem exec_ingestByKind (v : MaterializedView σ) : exec (ingestByKind event v.pending) v =
      exec (performAll (kindDeeds event v.pending v.activeProcesses)) v := by
  have hfile : ingestFileAudit event = performAll [.emit (fileAuditRow event)] :=
    (bind_pure (m := ViewM σ) _).symm
  have hnetwork : ingestNetworkAudit event =
      performAll [.emit (networkAuditRow event)] := (bind_pure (m := ViewM σ) _).symm
  unfold ingestByKind kindDeeds
  cases event.kind
  case llmRequest => exact exec_ingestLlmRequest event v
  case llmResponse => exact exec_ingestLlmResponse event v
  case llmError => exact exec_ingestLlmResponse event v
  case httpResponse =>
    dsimp only
    split
    · exact exec_ingestLlmResponse event v
    · rfl
  case processExec => exact exec_ingestProcessAudit event "exec" v
  case processExit => exact exec_ingestProcessAudit event "exit" v
  case fsOpen =>
    dsimp only
    rw [hfile]
    split <;> rfl
  case fsWrite => exact congrArg (exec · v) hfile
  case fsMutation => exact congrArg (exec · v) hfile
  case unknown =>
    dsimp only
    rw [hfile, hnetwork]
    split
    · rfl
    · split <;> rfl
  all_goals rfl

/-- **Ingesting a canonical event is carrying out its plan.** -/
theorem exec_ingestCanonical_eq_plan (v : MaterializedView σ) : exec (ingestCanonical event) v =
      exec (performAll (plan event v.pending v.activeProcesses)) v := by
  have hsample : (emitSampleOf event : ViewM σ Unit) =
      emitAll ((resourceSampleFromEvent event).toList.map .resourceSample) := by
    rw [emitAll_toList, emitSampleOf]
    cases resourceSampleFromEvent event <;> rfl
  have htarget : (emitTargetOf event : ViewM σ Unit) =
      emitAll ((networkTargetFromEvent event).toList.map .networkTarget) := by
    rw [emitAll_toList, emitTargetOf]
    cases networkTargetFromEvent event <;> rfl
  have hcommon : (emitSampleOf event >>= fun _ => emitTargetOf event >>= fun _ => ingest event :
      ViewM σ Unit) = emitAll (commonRows event) >>= fun _ =>
        Effectful.observe (·.pending) >>= fun pending => ingestByKind event pending := by
    rw [commonRows, emitAll_append, emitAll_append, ← hsample, ← htarget,
      ← ingestAgentSpecificEvent_eq]
    simp only [bind_assoc]
    rfl
  unfold ingestCanonical plan
  rw [exec_update_bind, hcommon, performAll_cons, Deed.perform, exec_update_bind,
    performAll_append, performAll_emit]
  refine exec_emitAll_bind fun v' hmemory => ?_
  have hpending : v'.pending = prunePending v.pending event.timestampMs :=
    congrArg Prod.fst hmemory
  have hactive : v'.activeProcesses = v.activeProcesses := congrArg Prod.snd hmemory
  rw [exec_observe_bind, exec_ingestByKind, hpending, hactive]

/-- The same for a captured event, which also takes the next sequence number. -/
theorem exec_ingestEvent_eq_plan (event : Event) (v : MaterializedView σ) :
    exec (ingestEvent event) v =
      exec (performAll (plan (canonicalAt event (v.nextSeq + 1)) v.pending v.activeProcesses))
        { v with nextSeq := v.nextSeq + 1 } := by
  unfold ingestEvent
  rw [exec_transact_bind]
  exact exec_ingestCanonical_eq_plan _ { v with nextSeq := v.nextSeq + 1 }

end Carry

end AgentSight.View
