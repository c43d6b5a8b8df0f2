import AgentSight.Sse.Accumulator

/-!
# The SSE processor

`SSEProcessor::process`: what one captured event does to the streams being received and what it
lets through, and runs over the events of a capture. A Rust `HashMap` iterates in no particular
order, so a run may see the buffers in another order at every event.
-/

namespace AgentSight.Sse

open Json (Value)
open View (Event)

/-- `MAX_BUFFERS`. -/
def maxBuffers : ℕ := 1024

structure SSEProcessor where
  timeoutMs : ℕ
  maxBuffers : ℕ

/-- `SSEProcessor::new_with_timeout`. -/
def SSEProcessor.newWithTimeout (timeoutMs : ℕ) : SSEProcessor := ⟨timeoutMs, Sse.maxBuffers⟩

abbrev Buffers := List (String × SSEAccumulator)

/-! ### The merged event -/

/-- `serde_json::to_string_pretty` of a value. -/
class PrettyPrinter where
  toStringPretty : Value → String

structure SSEProcessorEvent where
  connectionId : String
  messageId : Option String
  startTime : ℕ
  endTime : ℕ
  durationNs : ℕ
  originalSource : String
  host : Option String
  method : Option String
  path : Option String
  statusCode : Option ℕ
  function : String
  tid : ℕ
  jsonContent : String
  textContent : String
  totalSize : ℕ
  eventCount : ℕ
  hasMessageStart : Bool
  sseEvents : List Value

/-- `serde_json::to_value` of the struct; a map iterates in key order. -/
def SSEProcessorEvent.toValue (event : SSEProcessorEvent) : Value :=
  .object [("connection_id", .string event.connectionId), ("duration_ns", .ofNat event.durationNs),
      ("end_time", .ofNat event.endTime),
      ("event_count", .ofNat event.eventCount),
      ("function", .string event.function),
      ("has_message_start", .bool event.hasMessageStart),
      ("host", .ofOptString event.host),
      ("json_content", .string event.jsonContent),
      ("message_id", .ofOptString event.messageId),
      ("method", .ofOptString event.method),
      ("original_source", .string event.originalSource),
      ("path", .ofOptString event.path),
      ("sse_events", .array event.sseEvents),
      ("start_time", .ofNat event.startTime),
      ("status_code", .ofOptNat event.statusCode),
      ("text_content", .string event.textContent),
      ("tid", .ofNat event.tid),
      ("total_size", .ofNat event.totalSize)]

def SSEProcessorEvent.toEvent (event : SSEProcessorEvent) (originalEvent : Event) : Event where
  timestamp := if 1 < event.eventCount then event.endTime else originalEvent.timestamp
  source := "sse_processor"
  pid := originalEvent.pid
  comm := originalEvent.comm
  data := event.toValue

def SSEEvent.toValue (event : SSEEvent) : Value :=
  .object
    [("data", .ofOptString event.data), ("event", .ofOptString event.event),
      ("id", .ofOptString event.id), ("parsed_data", event.parsedData.getD .null),
      ("raw_data", .ofOptString event.rawData)]

def eventHost (data : Value) : Option String :=
  (data.strField "host").or <|
    (((data.get "headers").bind (·.asObject)).getD []).findSome? fun (key, value) =>
      if Str.eqIgnoreAsciiCase key "host" || key == ":authority" then value.asStr else none

section

variable [External] [PrettyPrinter]

def formattedAccumulatedJson (jsonContent : String) : String :=
  if jsonContent.isEmpty then ""
  else
    match External.fromStr jsonContent with
    | some parsedJson => PrettyPrinter.toStringPretty parsedJson
    | none => jsonContent

def toolCallValue (index : ℕ) (toolCall : OpenAIToolCallAccumulator) : Value :=
  .object [("function", .object [("arguments", .string toolCall.functionArguments),
        ("name", .ofOptString toolCall.functionName)]),
      ("id", .ofOptString toolCall.id), ("index", .ofNat index),
    ("type", .ofOptString toolCall.typeName)]

def mergedJsonContent (content : Content) : String :=
  if content.openaiReasoning.isEmpty && content.openaiToolCalls.isEmpty then
    formattedAccumulatedJson content.accumulatedJson
  else
    let partialJson :=
      if content.accumulatedJson.isEmpty then []
      else [("partial_json", (External.fromStr content.accumulatedJson).getD
        (.string content.accumulatedJson))]
    let reasoning :=
      if content.openaiReasoning.isEmpty then []
      else [("reasoning_content", Value.string content.openaiReasoning)]
    let toolCalls :=
      if content.openaiToolCalls.isEmpty then []
      else [("tool_calls", Value.array (content.openaiToolCalls.map fun (index, toolCall) =>
        toolCallValue index toolCall))]
    PrettyPrinter.toStringPretty (.object (partialJson ++ reasoning ++ toolCalls))

def createMergedEvent (connectionId : String) (accumulator : SSEAccumulator)
    (originalEvent : Event) : Event :=
  let data := originalEvent.data
  let jsonContent := mergedJsonContent accumulator.toContent
  let textContent := accumulator.accumulatedText
  let merged : SSEProcessorEvent :=
    { connectionId
      messageId := accumulator.messageId
      startTime := accumulator.startTime
      endTime := accumulator.endTime
      durationNs := accumulator.endTime - accumulator.startTime
      originalSource := originalEvent.source
      host := eventHost data
      method := data.strField "method"
      path := data.strField "path"
      statusCode := ((data.get "status_code").bind (·.asU64)).map (· % 2 ^ 16)
      function := (data.strField "function").getD "unknown"
      tid := data.u64Field "tid"
      jsonContent
      textContent
      totalSize := jsonContent.utf8ByteSize + textContent.utf8ByteSize
      eventCount := accumulator.events.length
      hasMessageStart := accumulator.hasMessageStart
      sseEvents := accumulator.events.map SSEEvent.toValue }
  merged.toEvent originalEvent

end

/-! ### Payloads -/

def httpContentTypeIsSse (data : Value) : Bool :=
  (((data.get "headers").bind (·.asObject)).getD []).any fun (key, value) =>
    Str.eqIgnoreAsciiCase key "content-type" &&
      value.asStr.any fun v => Str.contains (Str.toAsciiLowercase v) "text/event-stream"

/-- The text an event has for the processor, and whether it may be a bare JSON fragment. -/
def ssePayload (event : Event) : Option (String × Bool) :=
  if event.source == "ssl" then (event.data.strField "data").map fun data => (data, true)
  else if event.source != "http_parser" ||
      event.data.strField "message_type" != some "response" then none
  else do
    let body ← event.data.strField "body"
    if httpContentTypeIsSse event.data || isSseData body then some (body, false) else none

/-- The events an event has for the processor; `none` lets it through as it is. -/
def sseEventsOf [External] (event : Event) : Option (List SSEEvent × Bool) := do
  let (data, allowJsonFragment) ← ssePayload event
  let sseEvents ←
    if isSseData data then some (parseSseEvents data)
    else if allowJsonFragment then (parseUsageMetadataFragment data).map ([·])
    else none
  if sseEvents.isEmpty then none else some (sseEvents, allowJsonFragment)

/-! ### Connections -/

def pidOf (event : Event) : ℕ := event.data.u64Field "pid"

def tidOf (event : Event) : ℕ := event.data.u64Field "tid"

/-- The part of a connection id that names the thread. -/
def threadPrefix (pid tid : ℕ) : String := toString pid ++ ":" ++ toString tid ++ ":"

def connPrefix (event : Event) : String := threadPrefix (pidOf event) (tidOf event)

def generateConnectionId (event : Event) (sseEvents : List SSEEvent) : String :=
  match extractMessageId sseEvents with
  | some messageId => connPrefix event ++ messageId
  | none => connPrefix event ++ toString (event.timestamp / 600000000000)

/-- Whether an unidentified chunk of the thread may continue a buffered stream. -/
def isOpenStream (event : Event) (entry : String × SSEAccumulator) : Bool :=
  Str.startsWith entry.1 (connPrefix event) && !entry.2.isComplete &&
    !(entry.2.events.any (·.isType "message_stop"))

/-- The stream a chunk belongs to: `final_connection_id`. -/
def finalConnectionId (buffers : Buffers) (event : Event) (sseEvents : List SSEEvent) : String :=
  match extractMessageId sseEvents with
  | some messageId => connPrefix event ++ messageId
  | none =>
    match buffers.find? (isOpenStream event) with
    | some (existingId, _) => existingId
    | none => generateConnectionId event sseEvents

/-! ### Buffers -/

/-- The first of the least recently updated buffers. -/
def oldest : Buffers → Option (String × SSEAccumulator)
  | [] => none
  | entry :: rest =>
    match oldest rest with
    | none => some entry
    | some other => if entry.2.lastUpdate ≤ other.2.lastUpdate then some entry else some other

/-- Keys are unique, so this takes out at most one buffer. -/
def remove (buffers : Buffers) (key : String) : Buffers := buffers.filter (·.1 != key)

def removeOldest (buffers : Buffers) : Buffers :=
  match oldest buffers with
  | some (key, _) => remove buffers key
  | none => buffers

def evictOverCapacity (buffers : Buffers) (max : ℕ) : Buffers :=
  removeOldest^[buffers.length - max] buffers

def contains (buffers : Buffers) (key : String) : Bool := buffers.any (·.1 == key)

/-- `entry(key).or_insert_with(..)`. -/
def lookup (buffers : Buffers) (key : String) (new : SSEAccumulator) : SSEAccumulator :=
  ((buffers.find? (·.1 == key)).map (·.2)).getD new

def insert (buffers : Buffers) (key : String) (accumulator : SSEAccumulator) : Buffers :=
  (key, accumulator) :: remove buffers key

/-! ### Processing -/

/-- The event types a chunk may consist of without having content potential. -/
def isKeepalive (event : SSEEvent) : Bool := event.isType "ping" || event.isType "message_delta"

variable [External] [PrettyPrinter]

/-- What becomes of a chunk that is not skipped, on the buffers left after the timeout and the
eviction. -/
def absorb (buffers : Buffers) (event : Event) (sseEvents : List SSEEvent)
    (allowJsonFragment : Bool) : Buffers × Option Event :=
  let connectionId := finalConnectionId buffers event sseEvents
  let accumulator := accumulateContent { lookup buffers connectionId (.new event.timestamp) with
      lastUpdate := event.timestamp
      endTime := event.timestamp } sseEvents
  let terminalFinishCompletesHttpBody :=
    !allowJsonFragment && sseEvents.any sseEventHasTerminalFinish
  if isSseComplete accumulator || terminalFinishCompletesHttpBody then
    (remove buffers connectionId,
      if hasMeaningfulContent accumulator then
        some (createMergedEvent connectionId accumulator event)
      else none)
  else (insert buffers connectionId accumulator, none)

/-- What the closure of `process` does with one event. -/
def SSEProcessor.processEvent (self : SSEProcessor) (buffers : Buffers) (event : Event) :
    Buffers × Option Event :=
  match sseEventsOf event with
  | none => (buffers, some event)
  | some (sseEvents, allowJsonFragment) =>
    let shouldSkipChunk := sseEvents.all isKeepalive
    if shouldSkipChunk && !contains buffers (generateConnectionId event sseEvents) then
      (buffers, none)
    else
      let kept := buffers.filter fun entry =>
        decide (event.timestamp - entry.2.lastUpdate ≤ self.timeoutMs)
      absorb (evictOverCapacity kept self.maxBuffers) event sseEvents allowJsonFragment

/-- Runs over the events of a capture, with what comes out of the processor. -/
inductive SSEProcessor.Run (self : SSEProcessor) :
    Buffers → List Event → Buffers → List Event → Prop
  | nil (buffers : Buffers) : Run self buffers [] buffers []
  | cons {buffers seen next last : Buffers} {event : Event} {events outputs : List Event}
      {output : Option Event} :
      buffers.Perm seen → self.processEvent seen event = (next, output) →
        Run self next events last outputs →
        Run self buffers (event :: events) last (output.toList ++ outputs)

/-- The run in which the buffers keep their order. -/
def SSEProcessor.process (self : SSEProcessor) (buffers : Buffers) :
    List Event → Buffers × List Event
  | [] => (buffers, [])
  | event :: events =>
    let (next, output) := self.processEvent buffers event
    let (last, outputs) := self.process next events
    (last, output.toList ++ outputs)

theorem SSEProcessor.run_process (self : SSEProcessor) (buffers : Buffers) (events : List Event) :
    self.Run buffers events (self.process buffers events).1 (self.process buffers events).2 := by
  induction events generalizing buffers with
  | nil => exact .nil buffers
  | cons event events ih => exact .cons (List.Perm.refl buffers) rfl (ih _)

end AgentSight.Sse
