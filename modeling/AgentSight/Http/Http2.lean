import AgentSight.Http.Event
import AgentSight.Http.Frame
import Mathlib.Data.List.AList

/-!
# The HTTP/2 side of the HTTP parser

`HTTP2State` of `analyzers/http_parser.rs`: the streams it follows, the header blocks it is
still collecting, and what each frame does to them.
-/

namespace AgentSight.Http

open Json (Value)
open View (Event)

def maxHttp2Streams : ℕ := 1024

def maxHttp2PendingHeaders : ℕ := 1024

def maxHttpBodyBytes : ℕ := 1024 * 1024

def maxHttp2HeaderBlockBytes : ℕ := 64 * 1024

/-- The `hpack` crate: a decoder with its dynamic table, which every block may change. A block it
rejects has no headers. -/
class Hpack where
  Decoder : Type
  new : Decoder
  decode : Decoder → List UInt8 → Decoder × Option (List (List UInt8 × List UInt8))

inductive HTTP2Direction where
  | request
  | response
  deriving DecidableEq

structure HTTP2StreamState where
  requestHeaders : Headers := []
  responseHeaders : Headers := []
  requestBody : List UInt8 := []
  responseBody : List UInt8 := []
  requestEmitted : Bool := false
  responseEmitted : Bool := false
  deriving DecidableEq

structure PendingHTTP2Headers where
  direction : HTTP2Direction
  block : List UInt8
  deriving DecidableEq

/-- A thread and a stream id on it. -/
abbrev StreamKey := ℕ × ℕ

abbrev Streams := AList fun _ : StreamKey => HTTP2StreamState

abbrev PendingHeaders := AList fun _ : StreamKey => PendingHTTP2Headers

structure HTTP2State [Hpack] where
  requestDecoder : Hpack.Decoder
  responseDecoder : Hpack.Decoder
  streams : Streams
  pendingHeaders : PendingHeaders

/-- `HTTP2State::default`. -/
def HTTP2State.new [Hpack] : HTTP2State where
  requestDecoder := Hpack.new
  responseDecoder := Hpack.new
  streams := ∅
  pendingHeaders := ∅

/-! ### Tables -/

/-- Takes one entry out, whichever the iteration of the `HashMap` yields first. -/
def removeFirst {β : Type} (map : AList fun _ : StreamKey => β) : AList fun _ : StreamKey => β :=
  match map.keys with
  | [] => map
  | key :: _ => map.erase key

/-- `evict_over_capacity`. -/
def evictOverCapacity {β : Type} (map : AList fun _ : StreamKey => β) (max : ℕ) :
    AList fun _ : StreamKey => β :=
  removeFirst^[map.keys.length - max] map

/-- `extend_capped`: the last `max` bytes. -/
def extendCapped (buffer data : List UInt8) (max : ℕ) : List UInt8 :=
  let buffer := buffer ++ data
  buffer.drop (buffer.length - max)

/-! ### Headers -/

/-- `direction_from_function`. -/
def directionFromFunction (function : String) : Option HTTP2Direction :=
  let upper := String.ofList (function.toList.map Char.toUpper)
  if Str.contains upper "READ" || Str.contains upper "RECV" then some .response
  else if Str.contains upper "WRITE" || Str.contains upper "SEND" then some .request
  else none

/-- What a decoded field list becomes. -/
def headersOf (decoded : List (List UInt8 × List UInt8)) : Headers :=
  let headers := decoded.foldl (fun headers (name, value) =>
    Headers.insert (Str.toAsciiLowercase (fromUtf8Lossy name)) (fromUtf8Lossy value) headers) []
  match Headers.get headers ":authority" with
  | some authority => Headers.orInsert headers "host" authority
  | none => headers

def applyHeaders (stream : HTTP2StreamState) (direction : HTTP2Direction) (headers : Headers) :
    HTTP2StreamState :=
  match direction with
  | .request => { stream with requestHeaders := Headers.extend stream.requestHeaders headers }
  | .response => { stream with responseHeaders := Headers.extend stream.responseHeaders headers }

/-! ### Events -/

/-- `synthetic_http2_tid`. -/
def syntheticHttp2Tid (tid streamId : ℕ) : ℕ :=
  min (min (tid * 1000000) (2 ^ 64 - 1) + streamId) (2 ^ 64 - 1)

def bodyString (body : List UInt8) : Option String :=
  if body.isEmpty then none else some (fromUtf8Lossy body)

/-- `:status` as the response event reports it. -/
def statusCode (headers : Headers) : Option ℕ :=
  (Headers.get headers ":status").bind (Str.parseUnsigned (2 ^ 16 - 1))

/-- The body fields of an HTTP/2 event. -/
def bodyHexOf (body : List UInt8) : Option String :=
  if body.isEmpty then none else some (hexEncode body)

def createHttp2RequestEvent (tid streamId : ℕ) (stream : HTTP2StreamState) (originalEvent : Event)
    (includeRawData : Bool) : Event :=
  let method := Headers.get stream.requestHeaders ":method"
  let path := Headers.get stream.requestHeaders ":path"
  let body := bodyString stream.requestBody
  let event : HTTPEvent :=
    { tid := syntheticHttp2Tid tid streamId
      messageType := "request"
      firstLine := method.getD "HTTP" ++ " " ++ path.getD "/" ++ " HTTP/2"
      method
      path
      protocol := some "HTTP/2"
      statusCode := none
      statusText := none
      headers := stream.requestHeaders
      body
      bodyHex := bodyHexOf stream.requestBody
      totalSize := Headers.size stream.requestHeaders + stream.requestBody.length
      hasBody := body.isSome
      isChunked := false
      contentLength := body.map String.utf8ByteSize
      originalSource := "ssl.http2"
      rawData := if includeRawData then some (fromUtf8Lossy stream.requestBody) else none }
  event.toEvent originalEvent

def createHttp2ResponseEvent (tid streamId : ℕ) (stream : HTTP2StreamState)
    (originalEvent : Event) (includeRawData : Bool) : Event :=
  let status := (statusCode stream.responseHeaders).getD 200
  let body := bodyString stream.responseBody
  let event : HTTPEvent :=
    { tid := syntheticHttp2Tid tid streamId
      messageType := "response"
      firstLine := "HTTP/2 " ++ toString status
      method := none
      path := none
      protocol := some "HTTP/2"
      statusCode := some status
      statusText := none
      headers := stream.responseHeaders
      body
      bodyHex := bodyHexOf stream.responseBody
      totalSize := Headers.size stream.responseHeaders + stream.responseBody.length
      hasBody := body.isSome
      isChunked := false
      contentLength := body.map String.utf8ByteSize
      originalSource := "ssl.http2"
      rawData := if includeRawData then some (fromUtf8Lossy stream.responseBody) else none }
  event.toEvent originalEvent

/-! ### Frames -/

/-- What the frames of one captured event share. -/
structure Capture where
  tid : ℕ
  direction : HTTP2Direction
  originalEvent : Event
  includeRawData : Bool

/-- Emits the event of a stream direction unless it has been emitted. -/
def emit (capture : Capture) (streamId : ℕ) (direction : HTTP2Direction)
    (stream : HTTP2StreamState) : HTTP2StreamState × Option Event :=
  match direction with
  | .request =>
    if stream.requestEmitted then (stream, none)
    else
      ({ stream with requestEmitted := true },
        some (createHttp2RequestEvent capture.tid streamId stream capture.originalEvent
          capture.includeRawData))
  | .response =>
    if stream.responseEmitted then (stream, none)
    else
      ({ stream with responseEmitted := true },
        some (createHttp2ResponseEvent capture.tid streamId stream capture.originalEvent
          capture.includeRawData))

variable [External]

def looksLikeCompleteJson (bytes : List UInt8) : Bool :=
  let text := fromUtf8Lossy bytes
  Str.contains text "usageMetadata" && (External.fromStr text).isSome

/-- What a DATA frame does to its stream. -/
def handleData (capture : Capture) (frame : HTTP2Frame) (stream : HTTP2StreamState) :
    HTTP2StreamState × Option Event :=
  let payload := dataPayload frame.flags frame.payload
  match capture.direction with
  | .request =>
    let stream :=
      { stream with requestBody := extendCapped stream.requestBody payload maxHttpBodyBytes }
    if frame.endStream then emit capture frame.streamId .request stream else (stream, none)
  | .response =>
    let stream :=
      { stream with responseBody := extendCapped stream.responseBody payload maxHttpBodyBytes }
    if frame.endStream || looksLikeCompleteJson stream.responseBody then
      emit capture frame.streamId .response stream
    else (stream, none)

/-- What a complete header block does to its stream. -/
def handleHeaders (capture : Capture) (frame : HTTP2Frame) (headers : Headers)
    (stream : HTTP2StreamState) : HTTP2StreamState × Option Event :=
  let stream := applyHeaders stream capture.direction headers
  if frame.endStream then emit capture frame.streamId capture.direction stream
  else (stream, none)

namespace HTTP2State

variable [Hpack] (state : HTTP2State)

def decoder (direction : HTTP2Direction) : Hpack.Decoder :=
  match direction with
  | .request => state.requestDecoder
  | .response => state.responseDecoder

def setDecoder (direction : HTTP2Direction) (decoder : Hpack.Decoder) : HTTP2State :=
  match direction with
  | .request => { state with requestDecoder := decoder }
  | .response => { state with responseDecoder := decoder }

def decodeHeaders (direction : HTTP2Direction) (block : List UInt8) : HTTP2State × Option Headers :=
  let (decoder, decoded) := Hpack.decode (state.decoder direction) block
  (state.setDecoder direction decoder, decoded.map headersOf)

/-- `streams.entry(key).or_default()`, modified in place. -/
def updateStream (key : StreamKey)
    (f : HTTP2StreamState → HTTP2StreamState × Option Event) : HTTP2State × Option Event :=
  let (stream, event) := f ((state.streams.lookup key).getD {})
  ({ state with streams := state.streams.insert key stream }, event)

/-- The end of the loop body: a stream with both events emitted is dropped. -/
def settle (key : StreamKey) : HTTP2State :=
  let streams :=
    if (state.streams.lookup key).any fun s => s.requestEmitted && s.responseEmitted then
      state.streams.erase key
    else state.streams
  { state with streams := evictOverCapacity streams maxHttp2Streams }

/-- The HEADERS arm of the loop. -/
def handleHeadersFrame (capture : Capture) (frame : HTTP2Frame) : HTTP2State × Option Event :=
  let key := (capture.tid, frame.streamId)
  let fragment := headersPayload frame.flags frame.payload
  if frame.endHeaders then
    match state.decodeHeaders capture.direction fragment with
    | (state, none) => (state, none)
    | (state, some headers) => state.updateStream key (handleHeaders capture frame headers)
  else if fragment.length ≤ maxHttp2HeaderBlockBytes then
    let pending : PendingHTTP2Headers := { direction := capture.direction, block := fragment }
    ({ state with
      pendingHeaders := evictOverCapacity (state.pendingHeaders.insert key pending)
        maxHttp2PendingHeaders }, none)
  else (state, none)

/-- The CONTINUATION arm for a block that is still within the limit. -/
def handleContinuation (capture : Capture) (frame : HTTP2Frame) (pending : PendingHTTP2Headers) :
    HTTP2State :=
  let key := (capture.tid, frame.streamId)
  if frame.endHeaders then
    match state.decodeHeaders pending.direction pending.block with
    | (state, none) => state
    | (state, some headers) =>
      (state.updateStream key fun stream =>
        (applyHeaders stream pending.direction headers, none)).1
  else { state with pendingHeaders := state.pendingHeaders.insert key pending }

/-- One iteration of the loop of `handle_event`. Where the source continues with the next frame,
nothing is settled. -/
def handleFrame (capture : Capture) (frame : HTTP2Frame) : HTTP2State × Option Event :=
  let key := (capture.tid, frame.streamId)
  if frame.frameType = 0x0 then
    if frame.streamId = 0 then (state, none)
    else
      let (state, event) := state.updateStream key (handleData capture frame)
      (state.settle key, event)
  else if frame.frameType = 0x1 then
    if frame.streamId = 0 then (state, none)
    else
      let (state, event) := state.handleHeadersFrame capture frame
      (state.settle key, event)
  else if frame.frameType = 0x9 then
    if frame.streamId = 0 then (state, none)
    else
      match state.pendingHeaders.lookup key with
      | none => (state, none)
      | some pending =>
        let state := { state with pendingHeaders := state.pendingHeaders.erase key }
        let pending := { pending with block := pending.block ++ frame.payload }
        if maxHttp2HeaderBlockBytes < pending.block.length then (state, none)
        else ((state.handleContinuation capture frame pending).settle key, none)
  else (state.settle key, none)

def handleFrames (capture : Capture) : HTTP2State → List HTTP2Frame → HTTP2State × List Event
  | state, [] => (state, [])
  | state, frame :: frames =>
    let (next, event) := state.handleFrame capture frame
    let (last, events) := handleFrames capture next frames
    (last, event.toList ++ events)

/-- What the frames of an event are handled with: its thread and its direction. -/
def captureOf (event : Event) (includeRawData : Bool) : Option Capture := do
  let direction ← directionFromFunction ((event.data.strField "function").getD "")
  return { tid := event.data.u64Field "tid", direction, originalEvent := event, includeRawData }

/-- `HTTP2State::handle_event`. -/
def handleEvent (originalEvent : Event) (bytes : List UInt8) (includeRawData : Bool) :
    HTTP2State × Option (List Event) :=
  match captureOf originalEvent includeRawData, parseHttp2Frames bytes with
  | some capture, some frames =>
    let (state, events) := state.handleFrames capture frames
    (state, some events)
  | _, _ => (state, none)

end HTTP2State

end AgentSight.Http
