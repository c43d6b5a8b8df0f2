import AgentSight.Session.Transcript
import AgentSight.View.Materialized

/-!
# Agent-native sessions

`agent_native.rs`: what the transcripts of the agents on a machine say of their sessions, and the
rows a view gets of them. A session is known by its display id, which its rows are named after: the
agent and a shortened session id.
-/

namespace AgentSight.AgentNative

open Json (Value)
open Session (PlanStep TokenUsage UserPrompt)
open View hiding TokenUsage

/-! ### Sessions -/

def agentTypes : List String := ["claude", "codex", "gemini", "cursor"]

/-- `rsplit(['/', '\\']).next()`. -/
def lastPart (id : String) : String :=
  String.ofList (id.toList.reverse.takeWhile fun c => c != '/' && c != '\\').reverse

/-- What is left of an id of more than twelve characters. -/
def shorten (compact : String) : String :=
  if compact.toList.length ≤ 12 then compact
  else
    String.ofList (compact.toList.take 6) ++ "." ++
      String.ofList (compact.toList.reverse.take 5).reverse

/-- `short_session_id` of `agent_native.rs`, for the sessions of the Codex index. -/
def shortSessionId (id : String) : String := shorten (Str.trim (lastPart id))

/-- `trim_end_matches(".jsonl")`, with the characters reversed. -/
def dropJsonl : List Char → List Char
  | 'l' :: 'n' :: 'o' :: 's' :: 'j' :: '.' :: rest => dropJsonl rest
  | cs => cs

/-- `short_session_id` of `parser.rs`, for the sessions of transcripts. -/
def parsedSessionId (id : String) : String :=
  let id := Str.trim id
  if id.isEmpty then "session"
  else shorten (String.ofList (dropJsonl (lastPart id).toList.reverse).reverse)

structure SessionEvents where
  prompts : List UserPrompt
  plan : List PlanStep

/-- A session, and what `codex_rollout_summary` tells of its subscription when it is imported.
Times are in milliseconds, and a map is its entries in the order of their keys. -/
structure LocalSession where
  agentType : String
  sessionId : String
  conversationId : Option String
  displayId : String
  path : String
  updated : ℕ
  startTimestampMs : Option ℕ
  endTimestampMs : Option ℕ
  model : Option String
  usage : TokenUsage
  modelUsage : List (String × TokenUsage)
  tools : List (String × ℕ)
  files : List (String × ℕ)
  promptPreview : Option String
  durationMs : ℕ
  cwd : Option String
  lastMessageAt : Option String
  events : SessionEvents
  rolloutSubscription : Option Value
  agentType_mem : agentType ∈ agentTypes
  displayId_eq : displayId = agentType ++ ":" ++ parsedSessionId sessionId ∨
    displayId = agentType ++ ":" ++ shortSessionId sessionId
  nodup_models : (modelUsage.map Prod.fst).Nodup
  nodup_tools : (tools.map Prod.fst).Nodup

namespace LocalSession

def viewId (session : LocalSession) : String :=
  "local:" ++ session.agentType ++ ":" ++ session.displayId

/-! ### Rows -/

def ofInt (n : ℤ) : Value := .number (if 0 ≤ n then .posInt n.toNat else .negInt n)

def usageValue (usage : TokenUsage) : Value :=
  .object [ ("cache_creation_tokens", ofInt usage.cacheCreationTokens.toInt),
    ("cache_read_tokens", ofInt usage.cacheReadTokens.toInt),
    ("input_tokens", ofInt usage.inputTokens.toInt),
    ("output_tokens", ofInt usage.outputTokens.toInt),
    ("total_tokens", ofInt usage.totalTokens.toInt)]

def planValue (plan : List PlanStep) : Value :=
  .array (plan.map fun step =>
    .object [("status", .string step.status), ("step", .string step.step)])

def attributes (session : LocalSession) : Value :=
  .object [ ("conversation_id", .ofOptString session.conversationId),
    ("cwd", .ofOptString session.cwd),
    ("display_id", .string session.displayId),
    ("files", .object (session.files.map fun file => (file.1, .ofNat file.2))),
    ("last_message_at", .ofOptString session.lastMessageAt),
    ("path", .string session.path),
    ("plan", planValue session.events.plan),
    ("prompt_preview", .ofOptString session.promptPreview),
    ("session_id", .string session.sessionId),
    ("subscription",
      if session.agentType = "codex" then session.rolloutSubscription.getD .null else .null),
    ("usage", usageValue session.usage)]

def startedMs (session : LocalSession) : ℕ :=
  session.startTimestampMs.getD (session.updated - session.durationMs)

def endedMs (session : LocalSession) : ℕ := session.endTimestampMs.getD session.updated

def sessionRow (session : LocalSession) : SessionRow where
  id := session.viewId
  agentType := session.agentType
  startTimestampMs := session.startedMs
  endTimestampMs := some session.endedMs
  status := "observed"
  model := session.model
  inputTokens := session.usage.inputTokens.toInt
  outputTokens := session.usage.outputTokens.toInt
  totalTokens := session.usage.totalTokens.toInt
  viewSource := agentNativeSource
  confidence := some 0.95
  attributes := session.attributes

def llmRowForSession (session : LocalSession) (id sessionId : String) (timestampMs : ℕ)
    (model : Option String) (usage : TokenUsage) (request : Value) : LlmCallRow where
  id
  sessionId := some sessionId
  conversationId := session.conversationId
  startTimestampMs := timestampMs
  endTimestampMs := session.endTimestampMs
  pid := none
  comm := some session.agentType
  provider := none
  model
  callKind := some "agent_native_prompt"
  status := "observed"
  errorType := none
  finishReason := none
  host := none
  path := some session.path
  statusCode := none
  inputTokens := usage.inputTokens.toInt
  outputTokens := usage.outputTokens.toInt
  totalTokens := usage.totalTokens.toInt
  request
  response := .null

/-- The time of the first prompt. -/
def promptTime (session : LocalSession) : ℕ :=
  (((session.events.prompts.head?.bind (·.tsMs)).bind fun ts =>
    if 0 ≤ ts then some ts.toNat else none).or session.startTimestampMs).getD session.updated

def llmRows (session : LocalSession) : List LlmCallRow :=
  match session.promptPreview with
  | none => []
  | some prompt =>
    let request : Value := .object [ ("agent_type", .string session.agentType),
      ("path", .string session.path),
      ("prompt", .string prompt),
      ("prompt_source", .string agentNativeSource),
      ("session_id", .string session.viewId)]
    if session.modelUsage.isEmpty then
      let model := session.model.getD session.agentType
      [session.llmRowForSession (session.viewId ++ "-" ++ Str.sanitizeAsciiIdentifier model)
        session.viewId session.promptTime (some model) session.usage request]
    else
      session.modelUsage.map fun entry =>
        session.llmRowForSession (session.viewId ++ "-" ++ entry.1) session.viewId
          session.promptTime (some entry.1) entry.2 request

def tokenRow (session : LocalSession) (model : String) (usage : TokenUsage) : TokenUsageRow where
  id := "token-" ++ session.viewId ++ "-" ++ Str.sanitizeAsciiIdentifier model
  llmCallId := session.viewId ++ "-" ++ model
  timestampMs := session.updated
  pid := none
  comm := some session.agentType
  provider := none
  model := some model
  inputTokens := usage.inputTokens.toInt
  outputTokens := usage.outputTokens.toInt
  cacheCreationTokens := usage.cacheCreationTokens.toInt
  cacheReadTokens := usage.cacheReadTokens.toInt
  totalTokens := usage.totalTokens.toInt
  source := agentNativeSource
  viewSource := agentNativeSource
  confidence := some 0.95

def tokenRows (session : LocalSession) : List TokenUsageRow :=
  (session.modelUsage.filter fun entry => 0 < entry.2.totalTokens).map fun entry =>
    session.tokenRow entry.1 entry.2

def toolRow (session : LocalSession) (tool : String) (index : ℕ) : ToolCallRow where
  id := "tool-" ++ session.viewId ++ "-" ++ Str.sanitizeAsciiIdentifier tool ++ "-" ++
    toString index
  sessionId := some session.viewId
  conversationId := session.conversationId
  timestampMs := session.updated
  toolName := some tool
  toolCallId := none
  startTimestampMs := some session.updated
  endTimestampMs := some session.updated
  durationMs := none
  status := some "observed"
  input := .object []
  output := .object []
  relatedPid := none
  relatedEventId := none
  viewSource := agentNativeSource
  confidence := some 0.95

def toolRows (session : LocalSession) : List ToolCallRow :=
  session.tools.flatMap fun tool => (List.range tool.2).map (session.toolRow tool.1)

end LocalSession

/-! ### The import -/

section Import

variable {σ : Type} [External]

def importSession (view : MaterializedView σ) (session : LocalSession) : MaterializedView σ :=
  let view := (Effectful.exec (emitSession session.sessionRow : ViewM σ Unit) view).2
  let view := session.llmRows.foldl MaterializedView.applyLlmCall view
  let view := session.tokenRows.foldl MaterializedView.applyTokenUsage view
  session.toolRows.foldl MaterializedView.applyToolCall view

def importIntoView (view : MaterializedView σ) (sessions : List LocalSession) :
    MaterializedView σ :=
  sessions.foldl importSession view

def materializedView (sessions : List LocalSession) : MaterializedView σ :=
  importIntoView ((MaterializedView.new []).setSource agentNativeSource) sessions

end Import

end AgentSight.AgentNative
