import AgentSight.Sse.Parser

/-!
# Accumulating a stream

The other half of `analyzers/sse_processor.rs`: what the processor keeps of the stream it is
receiving, what each event adds to it, when it takes the stream to be complete and when it
takes it to be worth an event.
-/

namespace AgentSight.Sse

open Json (Value)

structure OpenAIToolCallAccumulator where
  id : Option String := none
  typeName : Option String := none
  functionName : Option String := none
  functionArguments : String := ""
  deriving DecidableEq

/-- The fields of `SSEAccumulator` that hold what the model said. The tool calls are a
`BTreeMap`, so they stand in the order of their indices. -/
structure Content where
  accumulatedText : String := ""
  accumulatedJson : String := ""
  openaiReasoning : String := ""
  openaiToolCalls : List (ℕ × OpenAIToolCallAccumulator) := []
  deriving DecidableEq

structure SSEAccumulator extends Content where
  messageId : Option String
  events : List SSEEvent
  isComplete : Bool
  lastUpdate : ℕ
  hasMessageStart : Bool
  startTime : ℕ
  endTime : ℕ
  deriving DecidableEq

/-- The accumulator a stream starts with. -/
def SSEAccumulator.new (timestamp : ℕ) : SSEAccumulator where
  messageId := none
  events := []
  isComplete := false
  lastUpdate := timestamp
  hasMessageStart := false
  startTime := timestamp
  endTime := timestamp

/-! ### What an event carries -/

def SSEEvent.isType (event : SSEEvent) (eventType : String) : Bool := event.event == some eventType

/-- The message id of one event, outside a `message_start`. -/
def eventMessageId (event : SSEEvent) : Option String := do
  let data ← event.parsedData
  ((data.get "id").bind (·.asStr)).or <|
    ((data.get "response_id").bind (·.asStr)).or <|
      ((data.get "response").bind (·.get "id")).bind (·.asStr)

/-- The message id a `message_start` announces. -/
def startMessageId (event : SSEEvent) : Option String :=
  if event.isType "message_start" then
    ((event.parsedData.bind (·.get "message")).bind (·.get "id")).bind (·.asStr)
  else none

def extractMessageId (events : List SSEEvent) : Option String :=
  (events.findSome? startMessageId).or (events.findSome? eventMessageId)

def usageHasMeaningfulFields (usage : Value) : Bool :=
  match usage.asObject with
  | some fields => fields.any fun (_, value) => !value.isNull
  | none => false

def hasStreamCompletingUsage (data : Value) : Bool :=
  [data.get "usageMetadata", data.get "usage",
    (data.get "response").bind (·.get "usage")].reduceOption.any usageHasMeaningfulFields

def meaningfulUsage (data : Value) : Option Value :=
  [data.get "usageMetadata", data.get "usage", (data.get "message").bind (·.get "usage"),
    (data.get "response").bind (·.get "usage")].reduceOption.find? usageHasMeaningfulFields

def openaiReasoningDelta (delta : Value) : Option String :=
  (["reasoning_content", "reasoning", "reasoning_text", "thinking"].findSome? fun key =>
    (delta.get key).bind (·.asStr)).filter (!·.isEmpty)

/-- The choices of a chat completion chunk. -/
def choices (data : Value) : List Value := ((data.get "choices").bind (·.asArray)).getD []

/-- The delta of a choice, when it is an object. -/
def choiceDelta (choice : Value) : Option Value :=
  (choice.get "delta").filter (·.asObject.isSome)

/-- Whether a delta says anything. -/
def hasDelta (delta : Value) : Bool :=
  (((delta.get "content").bind (·.asStr)).any (!·.isEmpty)) ||
    (((delta.get "tool_calls").bind (·.asArray)).any (!·.isEmpty)) ||
    (delta.get "function_call").isSome || (openaiReasoningDelta delta).isSome

def hasOpenaiDelta (data : Value) : Bool :=
  (choices data).any fun choice => (choiceDelta choice).any hasDelta

def hasTerminalFinishReason (data : Value) : Bool :=
  (choices data).any fun choice => (choice.get "finish_reason").any (!·.isNull)

def openaiResponseEventType (data : Value) : Option String :=
  ((data.get "type").bind (·.asStr)).filter (Str.startsWith · "response.")

def hasOpenaiResponseDelta (data : Value) : Bool :=
  (openaiResponseEventType data).any fun eventType => eventType ∈
    ["response.output_text.delta", "response.reasoning_text.delta",
      "response.reasoning_summary_text.delta", "response.function_call_arguments.delta",
      "response.function_call_arguments.done", "response.output_item.added",
      "response.output_item.done"]

def hasOpenaiResponseTerminal (data : Value) : Bool :=
  (openaiResponseEventType data).any fun eventType => eventType ∈
    ["response.completed", "response.failed", "response.incomplete", "response.cancelled"]

def sseEventHasUsage (event : SSEEvent) : Bool :=
  event.parsedData.any fun data => (meaningfulUsage data).isSome

def sseEventHasOpenaiDelta (event : SSEEvent) : Bool := event.parsedData.any hasOpenaiDelta

def sseEventHasTerminalFinish (event : SSEEvent) : Bool :=
  event.parsedData.any hasTerminalFinishReason

def sseEventHasOpenaiResponseDelta (event : SSEEvent) : Bool :=
  event.parsedData.any hasOpenaiResponseDelta

def sseEventHasOpenaiResponseTerminal (event : SSEEvent) : Bool :=
  event.parsedData.any hasOpenaiResponseTerminal

def sseEventCompletesStream (event : SSEEvent) : Bool :=
  event.data == some "[DONE]" || event.parsedData.any fun data =>
    hasStreamCompletingUsage data || hasOpenaiResponseTerminal data

/-! ### Tool calls -/

/-- `entry(index).or_default()`, modified in place. -/
def updateToolCall (index : ℕ) (f : OpenAIToolCallAccumulator → OpenAIToolCallAccumulator) :
    List (ℕ × OpenAIToolCallAccumulator) → List (ℕ × OpenAIToolCallAccumulator)
  | [] => [(index, f {})]
  | (k, entry) :: rest =>
    if index < k then (index, f {}) :: (k, entry) :: rest
    else if index = k then (k, f entry) :: rest
    else (k, entry) :: updateToolCall index f rest

def Content.updateToolCall (content : Content) (index : ℕ)
    (f : OpenAIToolCallAccumulator → OpenAIToolCallAccumulator) : Content :=
  { content with openaiToolCalls := Sse.updateToolCall index f content.openaiToolCalls }

def accumulateOpenaiToolCall (content : Content) (toolCall : Value) (fallbackIndex : ℕ) : Content :=
  let index := ((toolCall.get "index").bind (·.asU64)).getD fallbackIndex
  content.updateToolCall index fun entry =>
    let entry := { entry with
      id := (toolCall.strField "id").or entry.id
      typeName := (toolCall.strField "type").or entry.typeName }
    match (toolCall.get "function").filter (·.asObject.isSome) with
    | none => entry
    | some function =>
      { entry with
        functionName := (function.strField "name").or entry.functionName
        functionArguments :=
          entry.functionArguments ++ (function.strField "arguments").getD "" }

def accumulateOpenaiFunctionCall (content : Content) (functionCall : Value) : Content :=
  content.updateToolCall 0 fun entry =>
    { entry with
      typeName := entry.typeName.or (some "function")
      functionName := (functionCall.strField "name").or entry.functionName
      functionArguments :=
        entry.functionArguments ++ (functionCall.strField "arguments").getD "" }

def accumulateOpenaiResponseItem (content : Content) (data : Value) : Content :=
  match (data.get "item").filter (·.asObject.isSome) with
  | none => content
  | some item =>
    if item.strField "type" != some "function_call" then content
    else
      let index := ((data.get "output_index").bind (·.asU64)).getD content.openaiToolCalls.length
      content.updateToolCall index fun entry =>
        { id := (item.strField "id").or ((item.strField "call_id").or entry.id)
          typeName := entry.typeName.or (some "function")
          functionName := (item.strField "name").or entry.functionName
          functionArguments := (item.strField "arguments").getD entry.functionArguments }

def accumulateOpenaiResponseFunctionArguments (content : Content) (data : Value)
    (replace : Bool) : Content :=
  let index := ((data.get "output_index").bind (·.asU64)).getD 0
  let payloadKey := if replace then "arguments" else "delta"
  content.updateToolCall index fun entry =>
    { entry with
      id := (data.strField "item_id").or entry.id
      typeName := entry.typeName.or (some "function")
      functionArguments :=
        match data.strField payloadKey with
        | none => entry.functionArguments
        | some arguments =>
          if replace then arguments else entry.functionArguments ++ arguments }

/-! ### Accumulation -/

/-- The `content_block_delta` arm of `accumulate_content`. -/
def accumulateBlockDelta (content : Content) (data : Value) : Content :=
  match data.get "delta" with
  | none => content
  | some delta =>
    let deltaType := delta.strField "type"
    let text :=
      if deltaType = some "text_delta" then delta.strField "text"
      else if deltaType = some "thinking_delta" then delta.strField "thinking"
      else none
    { content with
      accumulatedText := content.accumulatedText ++ text.getD ""
      accumulatedJson := content.accumulatedJson ++ (delta.strField "partial_json").getD "" }

/-- The body of the loop of `accumulate_openai_content`. -/
def accumulateChoice (content : Content) (choice : Value) : Content :=
  match choiceDelta choice with
  | none => content
  | some delta =>
    let content := { content with
      accumulatedText := content.accumulatedText ++ (delta.strField "content").getD ""
      openaiReasoning := content.openaiReasoning ++ (openaiReasoningDelta delta).getD "" }
    let toolCalls := ((delta.get "tool_calls").bind (·.asArray)).getD []
    let content := toolCalls.zipIdx.foldl (fun content (toolCall, fallbackIndex) =>
      accumulateOpenaiToolCall content toolCall fallbackIndex) content
    match delta.get "function_call" with
    | none => content
    | some functionCall => accumulateOpenaiFunctionCall content functionCall

def accumulateOpenaiContent (content : Content) (data : Value) : Content :=
  (choices data).foldl accumulateChoice content

def accumulateOpenaiResponsesContent (content : Content) (data : Value) : Content :=
  match openaiResponseEventType data with
  | some "response.output_text.delta" =>
    { content with
      accumulatedText := content.accumulatedText ++ (data.strField "delta").getD "" }
  | some "response.reasoning_text.delta" | some "response.reasoning_summary_text.delta" =>
    { content with
      openaiReasoning := content.openaiReasoning ++ (data.strField "delta").getD "" }
  | some "response.function_call_arguments.delta" =>
    accumulateOpenaiResponseFunctionArguments content data false
  | some "response.function_call_arguments.done" =>
    accumulateOpenaiResponseFunctionArguments content data true
  | some "response.output_item.added" | some "response.output_item.done" =>
    accumulateOpenaiResponseItem content data
  | _ => content

/-- What an event adds to the content. -/
def Content.accumulate (content : Content) (event : SSEEvent) : Content :=
  match event.parsedData with
  | none => content
  | some data =>
    let content :=
      if event.isType "content_block_delta" then accumulateBlockDelta content data else content
    accumulateOpenaiResponsesContent (accumulateOpenaiContent content data) data

/-- One iteration of the loop of `accumulate_content`. -/
def SSEAccumulator.accumulate (accumulator : SSEAccumulator) (event : SSEEvent) : SSEAccumulator :=
  { accumulator with
    toContent := accumulator.toContent.accumulate event
    events := accumulator.events ++ [event]
    messageId := accumulator.messageId.or (extractMessageId [event])
    hasMessageStart := accumulator.hasMessageStart || event.isType "message_start" }

def accumulateContent (accumulator : SSEAccumulator) (events : List SSEEvent) : SSEAccumulator :=
  events.foldl SSEAccumulator.accumulate accumulator

/-! ### Completion -/

def isSseComplete (accumulator : SSEAccumulator) : Bool :=
  (accumulator.events.any fun event => sseEventCompletesStream event ||
      event.isType "message_stop" || event.isType "error") ||
    decide (50000 < accumulator.accumulatedText.utf8ByteSize) ||
    decide (50000 < accumulator.accumulatedJson.utf8ByteSize)

/-- The event types `has_meaningful_content` counts as metadata. -/
def isMetadataOnly (event : SSEEvent) : Bool :=
  ["message_stop", "message_delta", "ping", "content_block_stop", "content_block_start"].any
    event.isType

def hasMeaningfulContent (accumulator : SSEAccumulator) : Bool :=
  !accumulator.accumulatedText.isEmpty || !accumulator.accumulatedJson.isEmpty ||
    !accumulator.openaiReasoning.isEmpty || !accumulator.openaiToolCalls.isEmpty ||
    (accumulator.events.any fun event => sseEventHasUsage event || sseEventHasOpenaiDelta event ||
      sseEventHasTerminalFinish event || sseEventHasOpenaiResponseDelta event ||
      sseEventHasOpenaiResponseTerminal event) ||
    (accumulator.events.any (·.isType "content_block_delta")) ||
    ((accumulator.events.any (·.isType "message_start")) &&
      decide (3 < accumulator.events.length) &&
      decide (accumulator.events.countP isMetadataOnly < accumulator.events.length))

end AgentSight.Sse
