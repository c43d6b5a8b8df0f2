import Mathlib.Data.Rat.Floor
import AgentSight.Lib.KeyedTable
import AgentSight.Session.Records

/-!
# Reading a transcript

`parse_jsonl` of `session/src/parser.rs`: the records of a Claude or Codex transcript are read in
their order, and what they say of the model, the usage, the prompts, the responses and the plan is
kept in a state (`Transcript`). One function reads the records of one type. At the end the responses
that are one are merged, and the usage of the models is added up (`finish`).

The events of tools, the files and the ids and times of the session are left out, for no other
function here reads them.
-/

namespace AgentSight.Session

open Str KeyedTable List
open Json (Value)

structure UserPrompt where
  index : ℕ
  tsMs : Option ℤ
  textHash : String

structure LlmResponse where
  tsMs : Option ℤ
  promptIndex : ℕ
  model : String
  sourceId : String
  textHash : String
  text : String
  preview : String
  inputTokens : ℕ
  outputTokens : ℕ
  cacheTokens : ℕ
  totalTokens : ℕ
  responsePhase : String

/-- What is known after the records that were read: the fields of `SessionAccumulator` and
`SessionEvents`, and the variables of the loop. -/
structure Transcript where
  model : Option String := none
  modelUsage : List (String × TokenUsage) := []
  tools : List (String × ℕ) := []
  promptPreview : Option String := none
  codexModel : String := ""
  claudeMessageModels : List (String × TokenUsage) := []
  claudeSeenUsage : List String := []
  prompts : List UserPrompt := []
  llmResponses : List LlmResponse := []
  currentPromptIndex : ℕ := 0
  taskStack : SemanticTaskStack := {}
  claudePromptId : Option String := none
  codexMetaSeen : Bool := false
  codexOwnsEvents : Bool := true
  codexSessionStartedAt : ℚ := 0

/-! ### Small steps -/

/-- `add_usage`. -/
def addUsage (models : List (String × TokenUsage)) (model : String)
    (input output cacheCreation cacheRead total : Int64) : List (String × TokenUsage) :=
  upsert Prod.fst models (model, ({} : TokenUsage).add input output cacheCreation cacheRead total)
    fun row => (row.1, row.2.add input output cacheCreation cacheRead total)

/-- `set_usage`: the usage replaces the one the model had. -/
def setUsage (models : List (String × TokenUsage)) (model : String)
    (input output cacheCreation cacheRead total : Int64) : List (String × TokenUsage) :=
  let usage := ({} : TokenUsage).add input output cacheCreation cacheRead total
  upsert Prod.fst models (model, usage) fun row => (row.1, usage)

/-- Two times that are at most a second apart. -/
def withinSecond (left right : ℤ) : Bool := (left - right).natAbs ≤ 1000

/-- `Iterator::rposition`. -/
def rposition {α : Type} (p : α → Bool) (l : List α) : Option ℕ :=
  (l.zipIdx.reverse.find? fun (a, _) => p a).map Prod.snd

/-- The prompt is the one that was logged with the hash and time. -/
def samePrompt (prompts : List UserPrompt) (tsMs : Option ℤ) (hash : String)
    (prompt : UserPrompt) : Bool :=
  prompt.textHash = hash &&
    match prompt.tsMs, tsMs with
    | some left, some right => withinSecond left right
    | none, none => prompts.getLast?.any fun last => last.index = prompt.index
    | _, _ => false

namespace Transcript

variable [Crates] (s : Transcript)

def addTool (name : String) : Transcript :=
  { s with tools := upsert Prod.fst s.tools (name, 1) fun row => (row.1, row.2 + 1) }

/-- `upsert_prompt`, which gives the index that becomes the current one. -/
def upsertPrompt (tsMs : Option ℤ) (text : String) : Transcript :=
  let hash := shortHash text 12
  match rposition (samePrompt s.prompts tsMs hash) s.prompts with
  | some existing => { s with currentPromptIndex := existing }
  | none =>
    { s with
      prompts := s.prompts ++ [{ index := s.prompts.length, tsMs := tsMs, textHash := hash }]
      currentPromptIndex := s.prompts.length }

/-- A prompt of the text starts. -/
def startPrompt (obj : Value) (text : String) : Transcript :=
  { s with taskStack := s.taskStack.observeUser text }.upsertPrompt (tsMsFromEvent obj) text

/-- A prompt of the text starts, and it is the preview of the session. -/
def showPrompt (obj : Value) (text : String) : Transcript :=
  { s with promptPreview := some (truncated text 180) }.startPrompt obj text

def observePlan (name : String) (input : Value) : Transcript :=
  if isPlanTool name then { s with taskStack := s.taskStack.observePlan input } else s

/-! ### Claude -/

/-- One entry of `modelUsage`. -/
def readModelUsage (entry : String × Value) : Transcript :=
  { s with
    model := s.model.or (some entry.1)
    modelUsage := addUsage s.modelUsage entry.1 (jsonI64 entry.2 "inputTokens")
      (jsonI64 entry.2 "outputTokens") (jsonI64 entry.2 "cacheCreationInputTokens")
      (jsonI64 entry.2 "cacheReadInputTokens") 0 }

def claudeResult (obj : Value) : Transcript :=
  (((obj.get "modelUsage").bind (·.asObject)).getD []).foldl readModelUsage s

/-- The usage of a message counts for its model the first time that its key is seen. -/
def countUsage (obj : Value) : Transcript :=
  match obj.pointer ["message", "usage"] with
  | some usage =>
    if claudeUsageKey obj ∈ s.claudeSeenUsage then s
    else
      { s with
        claudeSeenUsage := s.claudeSeenUsage ++ [claudeUsageKey obj]
        claudeMessageModels := addUsage s.claudeMessageModels
          ((strAt obj ["message", "model"]).getD "unknown") (jsonI64 usage "input_tokens")
          (jsonI64 usage "output_tokens") (jsonI64 usage "cache_creation_input_tokens")
          (jsonI64 usage "cache_read_input_tokens") 0 }
  | none => s

def claudeToolUse (item : Value) : Transcript :=
  let name := (item.strField "name").getD "?"
  (s.addTool name).observePlan name ((item.get "input").getD .null)

/-- The items of a content that use tools. -/
def toolUses (content : Value) : List Value :=
  (content.asArray.getD []).filter fun item => typeOf item = some "tool_use"

/-- What is shown of a message: its text, or else the tools that it names. -/
def claudePreview (content : Value) (text : String) : String :=
  if trim text ≠ "" then text
  else
    match (toolUses content).filterMap (·.strField "name") with
    | [] => ""
    | names => "tool: " ++ ", ".intercalate names

/-- A message is logged as a response if it has a text or a usage. -/
def claudeLogs (obj : Value) : Bool :=
  trim (contentToText ((obj.pointer ["message", "content"]).getD .null)) ≠ "" ||
    ((obj.pointer ["message", "usage"]).bind (·.asObject)).isSome

/-- The response that an assistant record is in the state. -/
def claudeResponse (obj : Value) : LlmResponse :=
  let content := (obj.pointer ["message", "content"]).getD .null
  let text := contentToText content
  let usage := (obj.pointer ["message", "usage"]).getD .null
  let preview := claudePreview content text
  { tsMs := tsMsFromEvent obj
    promptIndex := s.currentPromptIndex
    model := ((strAt obj ["message", "model"]).or s.model).getD "claude"
    sourceId := claudeSourceCompletionId obj
    textHash := shortHash (text ++ Crates.toJson usage) 12
    text := boundedDetailText text
    preview := truncated (if preview = "" then "token report" else preview) 140
    inputTokens := jsonU64 usage "input_tokens"
    outputTokens := jsonU64 usage "output_tokens"
    cacheTokens := (jsonU64 usage "cache_creation_input_tokens" +
      jsonU64 usage "cache_read_input_tokens") % 2 ^ 64
    totalTokens := 0
    responsePhase :=
      if strAt obj ["message", "stop_reason"] = some "end_turn" ∧ trim text ≠ "" then
        "final_answer"
      else "assistant_message" }

def logResponse (response : LlmResponse) : Transcript :=
  { s with llmResponses := s.llmResponses ++ [response] }

def claudeAssistant (obj : Value) : Transcript :=
  let s := { s with model := s.model.or (strAt obj ["message", "model"]) }
  let content := (obj.pointer ["message", "content"]).getD .null
  let read := (toolUses content).foldl claudeToolUse (s.countUsage obj)
  if claudeLogs obj then read.logResponse (s.claudeResponse obj) else read

def claudeUser (obj : Value) : Transcript :=
  let content := (obj.pointer ["message", "content"]).getD .null
  if claudeIsToolResult content ∨ isClaudeToolResult obj then s
  else
    match localMessagePreview content with
    | some text =>
      if claudeUserStartsPrompt obj content text s.claudePromptId then
        { s with
          promptPreview := s.promptPreview.or (some (truncated text 180))
          claudePromptId := (obj.strField "promptId").filter (· ≠ "") }.startPrompt obj text
      else s
    | none => s

/-- A prompt in a field of the record. -/
def showField (obj : Value) (key : String) : Transcript :=
  match (obj.strField key).bind cleanPromptText with
  | some text => s.showPrompt obj text
  | none => s

/-! ### Codex -/

def payloadOf (obj : Value) : Value := (obj.get "payload").getD .null

def sessionMeta (obj : Value) : Transcript :=
  if s.codexMetaSeen then s
  else
    let payload := payloadOf obj
    let parent := (((payload.get "parent_thread_id").or (payload.get "forked_from_id")).bind
      (·.asStr)).or (strAt payload ["source", "subagent", "thread_spawn", "parent_thread_id"])
    { s with
      codexMetaSeen := true
      codexOwnsEvents := parent.all (· = "")
      codexSessionStartedAt := ((((payload.get "timestamp").or (obj.get "timestamp")).bind
        (·.asStr)).bind rfc3339Seconds).getD 0 }

/-- The record starts a task of the session itself. -/
def startsOwnTask (obj : Value) : Bool :=
  let payload := payloadOf obj
  let sourceStart := ((((payload.get "started_at").bind (·.asF64)).filter (0 < ·)).or
    ((payload.strField "turn_id").bind uuid7Seconds)).getD 0
  typeOf obj = some "event_msg" && typeOf payload = some "task_started" &&
    (0 < sourceStart && (s.codexSessionStartedAt = 0 ||
      (⌊s.codexSessionStartedAt⌋ : ℚ) ≤ sourceStart))

def turnContext (obj : Value) : Transcript :=
  match strAt obj ["payload", "model"] with
  | some name => { s with codexModel := name, model := some name }
  | none => s

/-- The usage of a whole session so far. -/
def countTotal (payload : Value) : Transcript :=
  match typeOf payload, payload.pointer ["info", "total_token_usage"] with
  | some "token_count", some value =>
    let usage := codexTokenUsage value
    let name := if s.codexModel = "" then "unknown" else s.codexModel
    { s with
      modelUsage := setUsage s.modelUsage name usage.inputTokens usage.outputTokens 0
        usage.cacheReadTokens usage.totalTokens }
  | _, _ => s

/-- The last response takes the usage, if it has none yet. -/
def attachUsage (responses : List LlmResponse) (input output cache total : ℕ) : List LlmResponse :=
  match responses.getLast? with
  | some last =>
    if 0 < total ∧ last.totalTokens = 0 then
      responses.dropLast ++ [{ last with
        inputTokens := input, outputTokens := output, cacheTokens := cache, totalTokens := total }]
    else responses
  | none => responses

def usageInfo (payload : Value) : Value :=
  ((payload.get "info").or (payload.get "usage")).getD payload

/-- The usage of the last turn that a report gives. -/
def turnUsage (info : Value) : Value :=
  ((info.get "last_token_usage").or (info.get "total_token_usage")).getD info

def reportedTotal (payload : Value) : ℕ :=
  let info := usageInfo payload
  max (max (jsonU64 (turnUsage info) "total_tokens") (jsonU64 info "total_tokens"))
    (jsonU64 info "tokens")

def isUsageReport (payload : Value) : Bool :=
  typeOf payload = some "token_count" || typeOf payload = some "token_usage"

def reportUsage (payload : Value) : Transcript :=
  if isUsageReport payload then
    let usage := turnUsage (usageInfo payload)
    { s with
      llmResponses := attachUsage s.llmResponses (jsonU64 usage "input_tokens")
        (jsonU64 usage "output_tokens") (jsonU64 usage "cached_input_tokens")
        (reportedTotal payload) }
  else s

/-- The text of an event that carries a message. -/
def eventText (payload : Value) : Option String :=
  cleanPromptText ((((payload.get "message").or (payload.get "content")).bind (·.asStr)).getD "")

/-- The response of a text that Codex logs. -/
def codexResponse (obj : Value) (text : String) : LlmResponse where
  tsMs := tsMsFromEvent obj
  promptIndex := s.currentPromptIndex
  model := if s.codexModel = "" then "codex" else s.codexModel
  sourceId := ""
  textHash := shortHash text 12
  text := boundedDetailText text
  preview := truncated text 180
  inputTokens := 0
  outputTokens := 0
  cacheTokens := 0
  totalTokens := 0
  responsePhase := (strAt obj ["payload", "phase"]).getD "assistant_message"

def userMessage (obj : Value) : Transcript :=
  match eventText (payloadOf obj) with
  | some text =>
    if typeOf (payloadOf obj) = some "user_message" then s.showPrompt obj text else s
  | none => s

def agentMessage (obj : Value) : Transcript :=
  match eventText (payloadOf obj) with
  | some text =>
    if typeOf (payloadOf obj) = some "agent_message" then
      s.logResponse (s.codexResponse obj text)
    else s
  | none => s

def eventMsg (obj : Value) : Transcript :=
  (((s.countTotal (payloadOf obj)).reportUsage (payloadOf obj)).userMessage obj).agentMessage obj

def customToolCall (obj : Value) : Outcome Transcript :=
  let payload := payloadOf obj
  let outerName := (payload.strField "name").getD "tool"
  let rawInput := (payload.strField "input").getD ""
  (codexCustomToolInput outerName.toList rawInput.toList).bind fun (name, args) =>
    .returned ((s.addTool (String.ofList name)).observePlan (String.ofList name) args)

def functionCall (obj : Value) : Transcript :=
  let name := (strAt obj ["payload", "name"]).getD "?"
  (s.addTool name).observePlan name (parseToolArgs (((payloadOf obj).get "arguments").getD .null))

/-- The text of a logged message. -/
def messageText (payload : Value) : Option String :=
  cleanPromptText
    ((payload.strField "message").getD (contentToText ((payload.get "content").getD .null)))

/-- The message is of the assistant, also where an older log does not name the role. -/
def isAssistantMessage (payload : Value) : Bool :=
  let role := payload.strField "role"
  role = some "assistant" ||
    role = none && ((payload.get "content").bind (·.asArray)).any fun items =>
      items.any fun item => typeOf item = some "output_text"

def message (obj : Value) : Transcript :=
  match messageText (payloadOf obj) with
  | some text =>
    if (payloadOf obj).strField "role" = some "user" then s.showPrompt obj text
    else if isAssistantMessage (payloadOf obj) then
      s.logResponse (s.codexResponse obj text)
    else s
  | none => s

/-- A call's output changes only the status of its tool event. -/
def responseItem (obj : Value) : Outcome Transcript :=
  match typeOf (payloadOf obj) with
  | some "custom_tool_call" => s.customToolCall obj
  | some "function_call" => .returned (s.functionCall obj)
  | some "message" => .returned (s.message obj)
  | _ => .returned s

/-- A record that is a prompt as a whole. -/
def wholePrompt (obj : Value) : Transcript :=
  match localMessagePreview obj with
  | some text => s.showPrompt obj text
  | none => s

/-! ### The loop -/

/-- A record of any other type, as long as there is no prompt. -/
def otherRecord (obj : Value) : Transcript :=
  if s.promptPreview = none ∧ contains ((typeOf obj).getD "") "user" then s.wholePrompt obj else s

def claudeRecord (obj : Value) : Transcript :=
  match typeOf obj with
  | some "result" => s.claudeResult obj
  | some "assistant" => s.claudeAssistant obj
  | some "user" => s.claudeUser obj
  | some "queue-operation" =>
    if s.promptPreview = none ∧ obj.strField "operation" = some "enqueue" then
      s.showField obj "content"
    else s
  | some "last-prompt" => if s.promptPreview = none then s.showField obj "lastPrompt" else s
  | _ => s.otherRecord obj

/-- A record of a Codex session that owns it. -/
def ownRecord (obj : Value) : Outcome Transcript :=
  match typeOf obj with
  | some "turn_context" => .returned (s.turnContext obj)
  | some "event_msg" => .returned (s.eventMsg obj)
  | some "response_item" => s.responseItem obj
  | some "message" | some "input" | some "user" => .returned (s.wholePrompt obj)
  | _ => .returned (s.otherRecord obj)

def codexRecord (obj : Value) : Outcome Transcript :=
  if typeOf obj = some "session_meta" then .returned (s.sessionMeta obj)
  else if s.codexOwnsEvents then s.ownRecord obj
  else .returned { s with codexOwnsEvents := s.startsOwnTask obj }

def readRecord (agent : String) (obj : Value) : Outcome Transcript :=
  if agent = "claude" then .returned (s.claudeRecord obj)
  else if agent = "codex" then s.codexRecord obj
  else .returned (s.otherRecord obj)

def readRecords (agent : String) (s : Transcript) : List Value → Outcome Transcript
  | [] => .returned s
  | obj :: records => (s.readRecord agent obj).bind fun s => readRecords agent s records

end Transcript

/-! ### The end -/

/-- A response without a source is the one before it, logged again within a second. -/
def isDuplicate (previous response : LlmResponse) : Bool :=
  response.sourceId = "" && previous.sourceId = "" &&
    previous.promptIndex = response.promptIndex && previous.textHash = response.textHash &&
    previous.tsMs.any fun left => response.tsMs.any (withinSecond left)

def lastDuplicate (unique : List LlmResponse) (response : LlmResponse) : Option ℕ :=
  match unique.getLast? with
  | some previous => if isDuplicate previous response then some (unique.length - 1) else none
  | none => none

def responsePhasePriority (phase : String) : ℕ :=
  if phase = "final_answer" then 3
  else if phase = "commentary" then 2
  else if phase = "assistant_message" then 1
  else 0

def mergeLlmResponse (previous response : LlmResponse) : LlmResponse :=
  let shows := startsWith previous.preview "tool: " && !startsWith response.preview "tool: "
  { previous with
    inputTokens := max previous.inputTokens response.inputTokens
    outputTokens := max previous.outputTokens response.outputTokens
    cacheTokens := max previous.cacheTokens response.cacheTokens
    totalTokens := max previous.totalTokens response.totalTokens
    responsePhase :=
      if responsePhasePriority previous.responsePhase <
          responsePhasePriority response.responsePhase then
        response.responsePhase
      else previous.responsePhase
    preview := if shows then response.preview else previous.preview
    textHash := if shows then response.textHash else previous.textHash
    text :=
      if shows then response.text
      else if previous.text = "" ∧ response.text ≠ "" then response.text
      else previous.text }

structure Dedup where
  unique : List LlmResponse := []
  bySourceId : List ((ℕ × String) × ℕ) := []

def sourceKey (response : LlmResponse) : Option (ℕ × String) :=
  if response.sourceId = "" then none else some (response.promptIndex, response.sourceId)

/-- One turn of the loop of `deduplicate_llm_responses`. -/
def Dedup.add (d : Dedup) (response : LlmResponse) : Dedup :=
  match ((sourceKey response).bind fun key => (find Prod.fst d.bySourceId key).map Prod.snd).or
      (lastDuplicate d.unique response) with
  | some index => { d with unique := d.unique.modify index (mergeLlmResponse · response) }
  | none =>
    { unique := d.unique ++ [response]
      bySourceId := d.bySourceId ++ ((sourceKey response).map (·, d.unique.length)).toList }

def deduplicateLlmResponses (responses : List LlmResponse) : List LlmResponse :=
  (responses.foldl Dedup.add {}).unique

structure AgentSession where
  model : Option String
  usage : TokenUsage
  modelUsage : List (String × TokenUsage)
  tools : List (String × ℕ)
  promptPreview : Option String
  prompts : List UserPrompt
  llmResponses : List LlmResponse
  plan : List PlanStep

/-- The sum over the models. -/
def totalUsage (models : List (String × TokenUsage)) : TokenUsage where
  inputTokens := (models.map (·.2.inputTokens)).sum
  outputTokens := (models.map (·.2.outputTokens)).sum
  cacheCreationTokens := (models.map (·.2.cacheCreationTokens)).sum
  cacheReadTokens := (models.map (·.2.cacheReadTokens)).sum
  totalTokens := (models.map (·.2.totalTokens)).sum

/-- There is no session where nothing was used and neither a prompt nor a model is known. -/
def Transcript.finish (s : Transcript) : Option AgentSession :=
  let modelUsage := if s.modelUsage.isEmpty then s.claudeMessageModels else s.modelUsage
  let usage := totalUsage modelUsage
  if usage.totalTokens = 0 ∧ s.tools.isEmpty ∧ s.promptPreview = none ∧ s.model = none then none
  else
    some
      { model := s.model, usage := usage, modelUsage := modelUsage, tools := s.tools
        promptPreview := s.promptPreview, prompts := s.prompts
        llmResponses := deduplicateLlmResponses s.llmResponses, plan := s.taskStack.plan }

theorem Transcript.finish_eq_some {s : Transcript} {session : AgentSession}
    (h : s.finish = some session) :
    session.usage =
        totalUsage (if s.modelUsage.isEmpty then s.claudeMessageModels else s.modelUsage) ∧
      session.llmResponses = deduplicateLlmResponses s.llmResponses ∧
      session.plan = s.taskStack.plan := by
  unfold Transcript.finish at h
  dsimp only at h
  generalize (if s.modelUsage.isEmpty then s.claudeMessageModels else s.modelUsage) = models at h ⊢
  split at h
  · cases h
  · cases h
    exact ⟨rfl, rfl, rfl⟩

/-! ### The text of a transcript -/

/-- A line without the carriage return at its end. -/
def chomp (line : List Char) : List Char :=
  if line.getLast? = some '\r' then line.dropLast else line

/-- `str::lines`: what is after the last newline is a line if there is any of it. -/
def lines (text : List Char) : List (List Char) :=
  let parts := splitChars (· = '\n') text
  parts.dropLast.map chomp ++ (parts.getLast?.filter (· ≠ [])).toList

/-- The lines that are records. -/
def recordsOf [Crates] (content : List Char) : List Value :=
  (lines content).filterMap Crates.fromStr

def parseJsonl [Crates] (agent : String) (content : List Char) : Outcome (Option AgentSession) :=
  (Transcript.readRecords agent {} (recordsOf content)).bind fun s => .returned s.finish

theorem exists_of_parseJsonl [Crates] {agent : String} {content : List Char}
    {session : AgentSession} (h : parseJsonl agent content = .returned (some session)) :
    ∃ s, Transcript.readRecords agent {} (recordsOf content) = .returned s ∧
      s.finish = some session := by
  obtain ⟨s, hrun, hfinish⟩ := Outcome.bind_eq_returned.mp h
  exact ⟨s, hrun, Outcome.returned.inj hfinish⟩

/-- What is returned, if anything is. -/
def Outcome.value {α : Type} : Outcome (Option α) → Option α
  | .returned a => a
  | _ => none

theorem Outcome.eq_of_value {α : Type} {o : Outcome (Option α)} {a : α} (h : o.value = some a) :
    o = .returned (some a) := by
  cases o with
  | returned => rw [← h]; rfl
  | panicked => cases h
  | unfinished => cases h

/-! ### Records as texts -/

mutual

/-- A value as `serde_json` prints it, where its strings need no escape and its numbers are
integers. -/
def printValue : Value → List Char
  | .null => "null".toList
  | .bool b => (if b then "true" else "false").toList
  | .number (.posInt n) => Nat.toDigits 10 n
  | .number (.negInt n) => '-' :: Nat.toDigits 10 n.natAbs
  | .number (.float _) => []
  | .string s => printString s
  | .array items => '[' :: printItems items
  | .object fields => '\x7b' :: printFields fields

def printItems : List Value → List Char
  | [] => [']']
  | [item] => printValue item ++ [']']
  | item :: items => printValue item ++ ',' :: printItems items

def printFields : List (String × Value) → List Char
  | [] => ['\x7d']
  | [(key, value)] => printString key ++ ':' :: printValue value ++ ['\x7d']
  | (key, value) :: fields =>
    printString key ++ ':' :: printValue value ++ ',' :: printFields fields

def printString (s : String) : List Char := '"' :: s.toList ++ ['"']

end

/-- The other crates on the given records, digests and times. -/
@[reducible]
def Crates.ofRecords (records : List Value) (digests : List (String × String))
    (times : List (String × ℤ)) : Crates where
  fromStr text := records.find? fun value => printValue value = text
  toJson value := String.ofList (printValue value)
  sha256 text := ((digests.find? (·.1 = text)).map Prod.snd).getD ""
  parseRfc3339 text := (times.find? (·.1 = text)).map Prod.snd

/-- The text of a transcript of the records. -/
def contentOf (records : List Value) : List Char :=
  records.flatMap fun value => printValue value ++ ['\n']

/-- The text of each record is a line, and no other record has it. -/
def PrintsLines (records : List Value) : Prop :=
  (∀ value ∈ records, '\n' ∉ printValue value ∧ (printValue value).getLast? ≠ some '\r') ∧
    (records.map printValue).Nodup

instance : DecidablePred PrintsLines := fun records =>
  inferInstanceAs (Decidable ((∀ value ∈ records, _ ∧ _) ∧ (records.map printValue).Nodup))

theorem lines_contentOf {records : List Value}
    (h : ∀ value ∈ records, '\n' ∉ printValue value ∧ (printValue value).getLast? ≠ some '\r') :
    lines (contentOf records) = records.map printValue := by
  have hsplit : splitChars (· = '\n') (contentOf records) = records.map printValue ++ [[]] := by
    induction records with
    | nil => rfl
    | cons value records ih =>
      rw [forall_mem_cons] at h
      have hline : ∀ c ∈ printValue value, decide (c = '\n') = false := by
        intro c hc
        rw [decide_eq_false_iff_not]
        rintro rfl
        exact h.1.1 hc
      rw [contentOf, flatMap_cons, append_assoc, singleton_append,
        splitChars_append hline (decide_eq_true rfl), ← contentOf, ih h.2, map_cons,
        cons_append]
  rw [lines, hsplit, dropLast_concat]
  have hchomp : (records.map printValue).map chomp = records.map printValue := by
    rw [map_map]
    refine map_congr_left fun value hvalue => ?_
    rw [Function.comp_apply, chomp, if_neg (h value hvalue).2]
  rw [hchomp]
  simp

/-- A transcript of the records is read back as the records. -/
theorem recordsOf_contentOf {records : List Value} (h : PrintsLines records)
    (digests : List (String × String)) (times : List (String × ℤ)) :
    @recordsOf (.ofRecords records digests times) (contentOf records) = records := by
  have hfind : ∀ value ∈ records,
      records.find? (fun other => decide (printValue other = printValue value)) = some value := by
    intro value hvalue
    obtain ⟨other, hother⟩ := Option.isSome_iff_exists.mp
      (find?_isSome.mpr ⟨value, hvalue, decide_eq_true rfl⟩ :
        (records.find? fun other => decide (printValue other = printValue value)).isSome = true)
    have hsame := of_decide_eq_true
      (find?_some (p := fun other => decide (printValue other = printValue value)) hother)
    rw [hother, inj_on_of_nodup_map h.2 (mem_of_find?_eq_some hother) hvalue hsame]
  calc (lines (contentOf records)).filterMap _
    _ = records.filterMap fun value =>
        records.find? fun other => decide (printValue other = printValue value) := by
      rw [lines_contentOf h.1, filterMap_map]
      rfl
    _ = records := by
      rw [filterMap_congr fun value hvalue => hfind value hvalue, filterMap_some]

end AgentSight.Session
