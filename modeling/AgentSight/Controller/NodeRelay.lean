import AgentSight.Controller.RelayRoute
import AgentSight.Lib.JsValue

/-!
# The relay object of a node

`class NodeRelay` of `controller/src/relay.ts`. A browser request is forwarded over the node's
socket and waits in `pending` until the node answers with its id, the timer fires, or the send
fails. The handlers run to their next `await`, so the only call that another event can come
between is `forwardRequest`: it picks the socket, waits for the request's body, and does the
rest at once.

A forwarded request is known by its number (`waiter`). `replies` records how each promise was
settled and `issued` which id each envelope carried; no handler reads either.
-/

namespace AgentSight.Controller

def maxPendingRelayRequests : ℕ := 64

structure Response where
  status : ℕ
  body : String
  headers : List (String × String)
  deriving DecidableEq

/-- The statuses that `new Response` admits no body for. -/
def nullBodyStatuses : List ℕ := [101, 103, 204, 205, 304]

/-- `new Response(body, init)` for a body that is a string: `none` when the constructor throws. -/
def newResponse (body : String) (status : ℕ) (headers : List (String × String)) : Option Response :=
  if 200 ≤ status ∧ status ≤ 599 ∧ status ∉ nullBodyStatuses then some ⟨status, body, headers⟩
  else none

/-- `json({ error: code }, status)`. -/
def jsonError (code : String) (status : ℕ) : Response where
  status := status
  body := "\x7b\"error\":\"" ++ code ++ "\"\x7d"
  headers := [("Content-Type", "application/json"), ("Cache-Control", "no-store")]

structure RelayRequestEnvelope where
  id : String
  method : Method
  path : String
  body : Option String
  deriving DecidableEq

/-- An entry of `pending`, and the timer that was set with it. -/
structure PendingRequest where
  id : String
  waiter : ℕ
  deriving DecidableEq

structure NodeSocket where
  id : ℕ
  isOpen : Bool
  deriving DecidableEq

/-- A call of `forwardRequest` that waits for its request's body. -/
structure ForwardCall where
  waiter : ℕ
  node : ℕ
  deriving DecidableEq

inductive Cause where
  /-- The node's response with this id. -/
  | answered (id : String)
  | timeout
  | failure
  deriving DecidableEq

structure Reply where
  waiter : ℕ
  cause : Cause
  /-- `none`: the promise was rejected. -/
  response : Option Response
  deriving DecidableEq

/-- An envelope that went out. -/
structure Sent where
  waiter : ℕ
  socket : ℕ
  envelope : RelayRequestEnvelope
  deriving DecidableEq

structure NodeRelay where
  sockets : List NodeSocket
  pending : List PendingRequest
  timers : List PendingRequest
  reading : List ForwardCall
  received : ℕ
  sent : List Sent
  replies : List Reply
  issued : List PendingRequest
  deriving DecidableEq

namespace NodeRelay

def init : NodeRelay := ⟨[], [], [], [], 0, [], [], []⟩

/-! ### The handlers -/

/-- `resolve`, or the rejection of the promise. -/
def settle (s : NodeRelay) (waiter : ℕ) (cause : Cause) (response : Option Response) : NodeRelay :=
  { s with replies := s.replies ++ [⟨waiter, cause, response⟩] }

/-- `this.pending.delete(id)`. -/
def deletePending (s : NodeRelay) (id : String) : NodeRelay :=
  { s with pending := KeyedTable.delete PendingRequest.id s.pending id }

/-- `clearTimeout` of the timer that the waiter's call set. -/
def clearTimer (s : NodeRelay) (waiter : ℕ) : NodeRelay :=
  { s with timers := KeyedTable.delete PendingRequest.waiter s.timers waiter }

def acceptNodeSocket (s : NodeRelay) : NodeRelay :=
  { s with sockets := s.sockets.map (fun socket => { socket with isOpen := false }) ++
      [⟨s.sockets.length, true⟩] }

/-- The node's side, or the network, ends the connection. -/
def closeSocket (s : NodeRelay) (id : ℕ) : NodeRelay :=
  { s with sockets :=
      KeyedTable.update NodeSocket.id s.sockets id (fun socket => { socket with isOpen := false }) }

def nodeSocket (s : NodeRelay) : Option NodeSocket := s.sockets.find? (·.isOpen)

/-- The text of the body that a response message asks for: `String(response.body || '')`. -/
def responseBody (numberText : JsNumber → String) (response : JsValue) : Option String :=
  match response.field "body" with
  | some body => if body.truthy then body.toText numberText else some ""
  | none => some ""

def responseStatus (response : JsValue) : ℕ :=
  match response.field "status" with
  | some (.number n) => (n.integerIn 200 599).getD 502
  | _ => 502

/-- The response that `webSocketMessage` builds from the message; `none` when building it
throws. -/
def buildResponse (numberText : JsNumber → String) (response : JsValue) : Option Response := do
  let body ← responseBody numberText response
  newResponse body (responseStatus response)
    [("Content-Type", "application/json"), ("Cache-Control", "no-store"),
      ("X-AgentSight-Transport", "relay")]

/-- The id that a message answers. -/
def answeredId (message : JsValue) : Option String :=
  match message.field "type", message.field "id" with
  | some (.string kind), some (.string id) => if kind = "response" then some id else none
  | _, _ => none

/-- A message of any of the sockets; `none` for one that is binary or no JSON text. -/
def webSocketMessage (numberText : JsNumber → String) (s : NodeRelay)
    (message : Option JsValue) : NodeRelay :=
  match message with
  | none => s
  | some response =>
    match answeredId response with
    | none => s
    | some id =>
      match KeyedTable.find PendingRequest.id s.pending id with
      | none => s
      | some pending =>
        let removed := (s.deletePending id).clearTimer pending.waiter
        match buildResponse numberText response with
        | some built => removed.settle pending.waiter (.answered id) (some built)
        -- the constructor throws in the handler, and nobody calls `resolve` any more
        | none => removed

/-- `forwardRequest` up to `await request.json()`. -/
def forwardRequest (s : NodeRelay) : NodeRelay :=
  let s' := { s with received := s.received + 1 }
  match s.nodeSocket with
  | none => s'.settle s.received .failure (some (jsonError "node_offline" 503))
  | some node => { s' with reading := s.reading ++ [⟨s.received, node.id⟩] }

/-- The checked fields of a relay request. -/
structure RelayInput where
  method : Method
  path : String
  body : Option String

/-- `none`: `invalid_relay_request`. -/
def checkInput (input : JsValue) : Option RelayInput := do
  let method ← match input.field "method" with
    | some (.string "GET") => some Method.get
    | some (.string "POST") => some Method.post
    | _ => none
  let path ← match input.field "path" with
    | some (.string path) => some path
    | _ => none
  match input.field "body" with
  | none => return ⟨method, path, none⟩
  | some (.string body) => return ⟨method, path, some body⟩
  | some _ => none

/-- `node.send`: a socket that is not open throws, and an open one may. -/
def canSend (s : NodeRelay) (node : ℕ) (sends : Bool) : Bool :=
  sends && s.sockets.any fun socket => socket.id = node && socket.isOpen

/-- The part after the last `await`: from the cap on, with the id that `randomUUID` drew. -/
def enqueue (s : NodeRelay) (call : ForwardCall) (input : RelayInput) (id : String)
    (sends : Bool) : NodeRelay :=
  if maxPendingRelayRequests ≤ s.pending.length then
    s.settle call.waiter .failure (some (jsonError "relay_busy" 429))
  else
    let entry : PendingRequest := ⟨id, call.waiter⟩
    let s' := { s with
      timers := s.timers ++ [entry]
      pending := KeyedTable.upsert PendingRequest.id s.pending entry fun _ => entry
      issued := s.issued ++ [entry] }
    if s.canSend call.node sends then
      { s' with sent := s.sent ++
          [⟨call.waiter, call.node, ⟨id, input.method, input.path, input.body⟩⟩] }
    else
      ((s'.clearTimer call.waiter).deletePending id).settle call.waiter .failure
        (some (jsonError "node_offline" 503))

/-- `forwardRequest` after `await request.json()`; `none` for a body that is no JSON text. -/
def resumeForward (s : NodeRelay) (call : ForwardCall) (input : Option JsValue) (id : String)
    (sends : Bool) : NodeRelay :=
  let s' := { s with reading := s.reading.erase call }
  match input with
  | none => s'.settle call.waiter .failure none
  | some .null => s'.settle call.waiter .failure none
  | some value =>
    match checkInput value with
    | none => s'.settle call.waiter .failure (some (jsonError "invalid_relay_request" 400))
    | some checked => s'.enqueue call checked id sends

/-- The timer's callback. -/
def fireTimer (s : NodeRelay) (timer : PendingRequest) : NodeRelay :=
  ({ s with timers := s.timers.erase timer }.deletePending timer.id).settle timer.waiter .timeout
    (some (jsonError "node_timeout" 504))

/-! ### Runs -/

inductive Event where
  | accept
  | close (socket : ℕ)
  | forward
  /-- The body of a waiting call has arrived; `id` is what `randomUUID` returns next. -/
  | body (call : ForwardCall) (input : Option JsValue) (id : String) (sends : Bool)
  | message (message : Option JsValue)
  | timeout (timer : PendingRequest)

/-- One event. `randomUUID` never returns an id a second time. -/
def step (numberText : JsNumber → String) (s : NodeRelay) : Event → Option NodeRelay
  | .accept => some s.acceptNodeSocket
  | .close socket => some (s.closeSocket socket)
  | .forward => some s.forwardRequest
  | .body call input id sends =>
    if call ∈ s.reading ∧ ∀ entry ∈ s.issued, entry.id ≠ id then
      some (s.resumeForward call input id sends)
    else none
  | .message message => some (s.webSocketMessage numberText message)
  | .timeout timer => if timer ∈ s.timers then some (s.fireTimer timer) else none

end NodeRelay

end AgentSight.Controller
