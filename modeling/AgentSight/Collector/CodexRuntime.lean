import AgentSight.View.Row

/-!
# A Codex session

`Runtime::send` and `read_codex` of `collector/src/server/session_runtime.rs`. The one writes a
request to the app-server and waits for the response with its id. The other reads what the
app-server sends: it rejects requests, hands responses to whoever waits for them, and keeps the turn
that is active. The two run beside one another; a step is what either does between two locks or
waits.
-/

namespace AgentSight.Collector

open Json (Value)

/-! ### Messages of the app-server -/

abbrev CodexResponse := Except String Unit

def codexResponse [External] (value : Value) : Option CodexResponse :=
  if (value.get "method").isSome then none
  else
    match value.get "error" with
    | some error => some (.error ("Codex rejected the request: " ++ External.valueToString error))
    | none => (value.get "result").map fun _ => .ok ()

def codexServerRequestRejection (value : Value) : Option Value := do
  let id ← value.get "id"
  let _ ← (value.get "method").bind (·.asStr)
  return .object [("error", .object [("code", .number (.negInt (-32601))),
       ("message", .string "AgentSight does not support Codex server requests")]),
     ("id", id)]

def messageMethod (value : Value) : Option String := (value.get "method").bind (·.asStr)

/-- The turn that `read_codex` finds in a message. -/
def messageTurn (value : Value) : Option String :=
  ((value.pointer ["params", "turn", "id"]).or
    (value.pointer ["result", "turn", "id"])).bind (·.asStr)

/-- The request for a message: it steers the turn that is active, or starts one. -/
def codexRequest (threadId : String) (activeTurn : Option String) (id : ℕ) (message : String) :
    Value :=
  let input := Value.array [.object [("text", .string message), ("type", .string "text")]]
  match activeTurn with
  | some turnId =>
    .object [("id", .ofNat id), ("method", .string "turn/steer"), ("params", .object
         [("expectedTurnId", .string turnId), ("input", input), ("threadId", .string threadId)])]
  | none =>
    .object [("id", .ofNat id), ("method", .string "turn/start"),
       ("params", .object [("input", input), ("threadId", .string threadId)])]

/-! ### What the two share -/

structure CodexState where
  threadId : String
  activeTurn : Option String
  starting : Bool
  deriving DecidableEq

/-- What `read_codex` does to the state for a message. -/
def CodexState.follow (state : CodexState) (value : Value) : CodexState :=
  if messageMethod value = some "turn/completed" then
    { state with activeTurn := none, starting := false }
  else
    match messageTurn value with
    | some turn => { state with activeTurn := some turn, starting := false }
    | none =>
      if (value.get "error").isSome && (value.get "id").isSome then { state with starting := false }
      else state

/-- The table of pending responses, with the history of its entries. Nothing reads the history. -/
structure PendingResponses where
  pending : List ℕ
  registered : List ℕ
  answered : List (ℕ × Value)
  /-- Removed by the `send` that waited: the request was not written, or not answered in time. -/
  withdrawn : List ℕ
  /-- Failed at the end of the transport. -/
  failed : List ℕ
  deriving DecidableEq

namespace PendingResponses

def register (responses : PendingResponses) (id : ℕ) : PendingResponses :=
  { responses with
    pending := responses.pending ++ [id]
    registered := responses.registered ++ [id] }

def withdraw (responses : PendingResponses) (id : ℕ) : PendingResponses :=
  if id ∈ responses.pending then
    { responses with
      pending := responses.pending.erase id
      withdrawn := responses.withdrawn ++ [id] }
  else responses

/-- `fail_codex_responses`. -/
def fail (responses : PendingResponses) : PendingResponses :=
  { responses with pending := [], failed := responses.failed ++ responses.pending }

/-- `complete_codex_response`. -/
def complete [External] (responses : PendingResponses) (value : Value) : PendingResponses :=
  match (value.get "id").bind (·.asU64), codexResponse value with
  | some id, some _ =>
    if id ∈ responses.pending then
      { responses with
        pending := responses.pending.erase id
        answered := responses.answered ++ [(id, value)] }
    else responses
  | _, _ => responses

end PendingResponses

/-- Where `send` is. -/
inductive CodexSender where
  | idle
  /-- It has read the state and counted its id up. -/
  | chosen (message : String) (activeTurn : Option String)
  | marked (message : String) (activeTurn : Option String)
  | writing (id : ℕ) (request : Value)
  | waiting (id : ℕ)
  /-- It is to take `starting` back. -/
  | clearing
  /-- It failed, and the runtime is dropped. -/
  | gone
  deriving DecidableEq

/-- Where `read_codex` is. -/
inductive CodexReader where
  | reading
  /-- The response is handed on; the state is to follow. -/
  | following (value : Value)
  | closing
  | closed
  deriving DecidableEq

structure Codex where
  state : CodexState
  responses : PendingResponses
  nextId : ℕ
  sender : CodexSender
  reader : CodexReader
  /-- What was written to the app-server. -/
  written : List Value
  /-- The messages that `read_codex` is done with. -/
  processed : List Value
  deriving DecidableEq

inductive CodexEvent where
  /-- A message is to be sent. -/
  | send (message : String)
  | mark
  | register
  /-- The request is written, or cannot be. -/
  | write (written : Bool)
  /-- The result comes to the `send` that waits for it. -/
  | wake
  | timeout
  | clear
  /-- The future of `send` is dropped where it waits. -/
  | abandon
  /-- A message comes in; a rejection of it can be written or not. -/
  | receive (value : Value) (writes : Bool)
  | follow
  | oversized
  /-- The output of the app-server ends, or what follows a failure is done. -/
  | close

namespace Codex

/-- A runtime of `start_codex`: the ids 1 and 2 are taken. -/
def init (threadId : String) : Codex where
  state := ⟨threadId, none, false⟩
  responses := ⟨[], [], [], [], []⟩
  nextId := 2
  sender := .idle
  reader := .reading
  written := []
  processed := []

/-- What `send` does next. -/
def sendStep [External] (s : Codex) : CodexEvent → Option Codex
  | .send message =>
    match s.sender with
    | .idle =>
      if s.state.starting then some s
      else some { s with nextId := s.nextId + 1, sender := .chosen message s.state.activeTurn }
    | _ => none
  | .mark =>
    match s.sender with
    | .chosen message activeTurn =>
      some { s with
        state := { s.state with starting := s.state.starting || activeTurn.isNone }
        sender := .marked message activeTurn }
    | _ => none
  | .register =>
    match s.sender with
    | .marked message activeTurn =>
      some { s with
        responses := s.responses.register s.nextId
        sender := .writing s.nextId (codexRequest s.state.threadId activeTurn s.nextId message) }
    | _ => none
  | .write written =>
    match s.sender with
    | .writing id request =>
      if written then some { s with written := s.written ++ [request], sender := .waiting id }
      else some { s with responses := s.responses.withdraw id, sender := .clearing }
    | _ => none
  | .wake =>
    match s.sender with
    | .waiting id =>
      if id ∈ s.responses.failed then some { s with sender := .clearing }
      else
        match (s.responses.answered.find? (·.1 = id)).bind (codexResponse ·.2) with
        | some (.ok ()) => some { s with sender := .idle }
        | some (.error _) => some { s with sender := .clearing }
        | none => none
    | _ => none
  | .timeout =>
    match s.sender with
    | .waiting id => some { s with responses := s.responses.withdraw id, sender := .clearing }
    | _ => none
  | .clear =>
    match s.sender with
    | .clearing => some { s with state := { s.state with starting := false }, sender := .gone }
    | _ => none
  | .abandon =>
    match s.sender with
    | .writing _ _ => some { s with sender := .idle }
    | .waiting _ => some { s with sender := .idle }
    | _ => none
  | _ => none

/-- What `read_codex` does next. -/
def readStep [External] (s : Codex) : CodexEvent → Option Codex
  | .receive value writes =>
    match s.reader with
    | .reading =>
      match codexServerRequestRejection value with
      | some rejection =>
        if writes then
          some { s with
            written := s.written ++ [rejection]
            processed := s.processed ++ [value] }
        else some { s with reader := .closing }
      | none => some { s with responses := s.responses.complete value, reader := .following value }
    | _ => none
  | .follow =>
    match s.reader with
    | .following value =>
      some { s with
        state := s.state.follow value
        reader := .reading
        processed := s.processed ++ [value] }
    | _ => none
  | .oversized =>
    match s.reader with
    | .reading =>
      some { s with
        state := { s.state with activeTurn := none, starting := false }
        reader := .closing }
    | _ => none
  | .close =>
    match s.reader with
    | .reading => some { s with responses := s.responses.fail, reader := .closed }
    | .closing => some { s with responses := s.responses.fail, reader := .closed }
    | _ => none
  | _ => none

def step [External] (s : Codex) (event : CodexEvent) : Option Codex :=
  (s.sendStep event).or (s.readStep event)

end Codex

end AgentSight.Collector
