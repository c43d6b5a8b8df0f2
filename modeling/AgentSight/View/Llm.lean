import AgentSight.Lib.WrappingSum
import AgentSight.Text
import AgentSight.View.Row

/-!
# LLM request and response bodies

`view/llm.rs`: what the view reads out of a captured body, in the shapes of the providers it
knows. Sums of counters wrap around, as `i64` does in a build without overflow checks.
-/

namespace AgentSight.View

open Json (Value)
open WrappingSum (wrap)

structure TokenUsage where
  inputTokens : ℤ := 0
  outputTokens : ℤ := 0
  cacheCreationTokens : ℤ := 0
  cacheReadTokens : ℤ := 0
  totalOverride : Option ℤ := none
  deriving DecidableEq

namespace TokenUsage

def totalTokens (u : TokenUsage) : ℤ :=
  u.totalOverride.getD
    (wrap (u.inputTokens + u.outputTokens + u.cacheCreationTokens + u.cacheReadTokens))

def isEmpty (u : TokenUsage) : Bool := u.totalTokens == 0

end TokenUsage

def providerFromHost (host : String) : String :=
  let h := Str.toAsciiLowercase host
  if Str.contains h "openai.azure.com" then "azure.ai.openai"
  else if Str.contains h "openai" then "openai"
  else if Str.contains h "anthropic" then "anthropic"
  else if Str.contains h "generativelanguage" || Str.contains h "googleapis" then "gcp.gen_ai"
  else if Str.contains h "bedrock" then "aws.bedrock"
  else host

def isLlmPath (path : String) : Bool :=
  Str.contains path "/chat/completions" || Str.contains path "/v1/messages" ||
    Str.contains path "/v1/responses" || Str.contains path "/codex/responses" ||
    Str.endsWith path "/v1/completions" || Str.contains path ":generateContent" ||
    Str.contains path ":streamGenerateContent"

def bodyJson [External] (data : Value) : Option Value :=
  ((data.get "body").bind (·.asStr)).bind External.fromStr

def extractModel (body : Value) : Option String :=
  ((body.get "model").bind (·.asStr)).or
    (((body.get "response").bind (·.get "model")).bind (·.asStr))

def extractModelFromPath (path : String) : Option String := do
  let (_, rest) ← Str.splitOnce path "/models/"
  let model := match Str.splitOnce rest ":", Str.splitOnce rest "/" with
    | some (model, _), _ => model
    | none, some (model, _) => model
    | none, none => rest
  if model.isEmpty then none else some model

/-! ### Token usage -/

def usageInt (usage : Value) (names : List String) : ℤ :=
  (names.findSome? fun name => (usage.get name).bind (·.asI64)).getD 0

def usageSum (usage : Value) (names : List String) : ℤ :=
  wrap (names.filterMap fun name => (usage.get name).bind (·.asI64)).sum

def usageInputTokens (usage : Value) : ℤ :=
  usageInt usage ["input_tokens", "prompt_tokens", "promptTokenCount"]

def usageOutputTokens (usage : Value) : ℤ :=
  max (usageInt usage ["output_tokens", "completion_tokens"])
    (usageSum usage ["candidatesTokenCount", "thoughtsTokenCount"])

def usageCacheCreationTokens (usage : Value) : ℤ :=
  usageInt usage ["cache_creation_input_tokens", "cache_creation_tokens"]

def usageCacheReadTokens (usage : Value) : ℤ :=
  usageInt usage ["cache_read_input_tokens", "cache_read_tokens", "cachedContentTokenCount"]

def mergeUsage (target : TokenUsage) (usage : Value) : TokenUsage :=
  let total := usageInt usage ["totalTokenCount"]
  { inputTokens := max target.inputTokens (usageInputTokens usage)
    outputTokens := max target.outputTokens (usageOutputTokens usage)
    cacheCreationTokens := max target.cacheCreationTokens (usageCacheCreationTokens usage)
    cacheReadTokens := max target.cacheReadTokens (usageCacheReadTokens usage)
    totalOverride :=
      if 0 < total then some (max (target.totalOverride.getD 0) total)
      else target.totalOverride }

def extractTokenUsage (body : Value) : TokenUsage :=
  match (body.get "usage").or (body.get "usageMetadata") with
  | none => {}
  | some usage =>
    let totalOverride := usageInt usage ["totalTokenCount"]
    { inputTokens := usageInputTokens usage
      outputTokens := usageOutputTokens usage
      cacheCreationTokens := usageCacheCreationTokens usage
      cacheReadTokens := usageCacheReadTokens usage
      totalOverride := if 0 < totalOverride then some totalOverride else none }

/-- The usage objects of one parsed SSE event, in the order they are merged. -/
def usagesOfSseEvent (parsed : Value) : List Value :=
  [(parsed.get "message").bind (·.get "usage"), parsed.get "usage",
    (parsed.get "response").bind (·.get "usage"), parsed.get "usageMetadata"].reduceOption

def extractTokenUsageFromSse (data : Value) : TokenUsage :=
  match (data.get "sse_events").bind (·.asArray) with
  | none => {}
  | some events =>
    events.foldl (fun usage event =>
        match event.get "parsed_data" with
        | none => usage
        | some parsed => (usagesOfSseEvent parsed).foldl mergeUsage usage)
      {}

end AgentSight.View
