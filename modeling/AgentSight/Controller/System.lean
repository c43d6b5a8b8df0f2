import AgentSight.Controller.Identity
import AgentSight.Controller.NodeRelay

/-!
# The controller as one system

All requests of the controller interleave at their database statements, at the calls of a node's
relay object and where `exchangeAuthCode` hashes the code; `Task` says what a request waits for
and `resume` executes its next statement. A request of a user stands for one that
`authenticateUser` admitted. The routes that only read, or write tables that are not modelled, are
`organizationRoute`.

`history` records what the statements found and did; no request reads it. Neither does any
read `socketTokens`, the digest that each accepted socket was authenticated with.
-/

namespace AgentSight.Controller

/-! ### Tasks -/

/-- The platform with the text of a number. -/
structure ControllerPlatform extends IdentityPlatform where
  numberText : JsNumber → String

/-- What a route does once `getNodeAccess` has passed. -/
inductive NodePurpose where
  | deleteNode
  | directConfig (remove : Bool)
  /-- A browser request with its body, or the error that reading it gave. -/
  | relay (route : BrowserRelayRoute) (body : Except AccessError String)
  /-- The loop over the requested actions, with the access that the first of them gave. -/
  | capabilities (requested remaining : List Action) (managed : Option OrganizationAccess)
      (body : String)

inductive Task where
  | access (call : Call)
  | organizationRoute (userId : Uuid) (organizationId : String) (action : Action)
  | deleteOrganization (userId : Uuid) (organizationId : String)
  | removeOrganization (userId : Uuid) (organizationId : String)
  | registerNode (userId : Uuid) (organizationId : String) (node : Registration)
  | readExisting (userId : Uuid) (organizationId : String) (node : Registration)
  | writeNode (userId : Uuid) (organizationId : String) (node : Registration)
  | nodeAccess (userId : Uuid) (nodeId : String) (purpose : NodePurpose)
  /-- The node's organization was read; the user's access to it is to be checked. -/
  | checkAccess (userId : Uuid) (nodeId organizationId : String) (purpose : NodePurpose)
  | removeNode (userId : Uuid) (nodeId organizationId : String)
  | removeDirectConfig (userId : Uuid) (nodeId organizationId : String)
  | forward (nodeId organizationId : String) (input : JsValue)
  | connectNodeRelay (nodeId : String) (upgrade : Bool) (token version : Option String)
  | touchNode (nodeId tokenHash : String) (version : Option String)
  | openSocket (nodeId tokenHash : String)
  | startOAuth (provider : Provider) (returnTo codeChallenge : String)
  | insertState (provider : Provider) (returnTo codeChallenge : String)
  /-- `user`: whom the provider and `upsertUser` yield, if both succeed. -/
  | finishOAuth (provider : Provider) (state code : String) (configured : Bool)
      (user : Option String)
  | insertAuthCode (userId : String) (provider : Provider) (codeChallenge : String)
  | exchangeAuthCode (code verifier : String)
  /-- `bound`: the clock that `exchangeAuthCode` read before it hashed the code. -/
  | consumeAuthCode (code verifier : String) (bound : ℕ)
  | insertSession (userId : String)
  | logout (token : String)

/-- The tasks that a route begins with. -/
def Task.isRequest : Task → Bool
  | .access call => call.isRequest
  | .organizationRoute .. => true
  | .deleteOrganization .. => true
  | .registerNode .. => true
  | .nodeAccess _ _ (.capabilities requested remaining managed _) =>
    remaining = requested && managed.isNone
  | .nodeAccess .. => true
  | .connectNodeRelay .. => true
  | .startOAuth .. => true
  | .finishOAuth .. => true
  | .exchangeAuthCode .. => true
  | .logout .. => true
  | _ => false

inductive Progress where
  | returned
  | threw (e : Failure)
  | awaits (task : Task)

/-! ### The state -/

inductive Credential where
  | oauthState (hash : String)
  | authCode (hash : String)
  | invite (hash : String)
  deriving DecidableEq

inductive Entry where
  /-- `requireOrganizationAction` passed. -/
  | authorized (userId organizationId : String) (action : Action)
  /-- The organization that a node was read with. -/
  | ownerRead (nodeId organizationId : String)
  /-- An envelope went out for a request that was authorized for the organization: the node's
  row at that time, and the digest of the socket. -/
  | forwarded (nodeId organizationId : String) (row : Option Node) (socketToken : Option String)
  | issued (credential : Credential)
  /-- The deciding statement found the row; `bound` is the clock it compares with the expiry,
  `clock` the clock when it executes. -/
  | redeemed (credential : Credential) (bound clock expiresAt : ℕ)
  deriving DecidableEq

/-- A request that a relay object has received. -/
structure Origin where
  nodeId : String
  waiter : ℕ
  organizationId : String
  input : JsValue

structure World where
  db : Database
  tables : NodeTables
  identity : IdentityTables
  relays : String → NodeRelay
  origins : List Origin
  socketTokens : String → List String
  history : List Entry

def World.record (w : World) (entries : List Entry) : World :=
  { w with history := w.history ++ entries }

/-! ### Routes over the access model -/

/-- What the statement of an access call issues or redeems. -/
def accessEntries (db : Database) (clock : ℕ) : Call → Outcome → List Entry
  | .insertInvite row, .returned _ => [.issued (.invite row.tokenHash)]
  | .consumeInvite user tokenHash now, .awaits _ =>
    (findInvite db tokenHash user.email now).toList.map fun row =>
      .redeemed (.invite tokenHash) now clock row.expiresAt
  | _, _ => []

def Outcome.progress : Outcome → Progress
  | .returned _ => .returned
  | .threw e => .threw e
  | .awaits call => .awaits (.access call)

def runAccess (platform : Platform) (w : World) (env : Ambient) (call : Call) : World × Progress :=
  let result := resume platform w.db env call
  ({ w with db := result.1 }.record (accessEntries w.db env.now call result.2), result.2.progress)

def runOrganizationRoute (w : World) (userId : Uuid) (organizationId : String) (action : Action)
    (now : ℕ) : World × Progress :=
  match requireOrganizationAction w.db userId.text organizationId action now with
  | .error e => (w, .threw (.access e))
  | .ok _ => (w.record [.authorized userId.text organizationId action], .returned)

def runDeleteOrganization (w : World) (userId : Uuid) (organizationId : String) (now : ℕ) :
    World × Progress :=
  match requireOrganizationAction w.db userId.text organizationId .organizationManage now with
  | .error e => (w, .threw (.access e))
  | .ok access =>
    if access.kind = .personal then
      (w, .threw (.access ⟨409, "personal_organization_cannot_be_deleted"⟩))
    else
      (w.record [.authorized userId.text organizationId .organizationManage],
        .awaits (.removeOrganization userId organizationId))

def runRemoveOrganization (w : World) (organizationId : String) : World × Progress :=
  ({ w with db := w.db.deleteOrganization organizationId,
            tables := w.tables.deleteOrganization organizationId }, .returned)

/-! ### Nodes -/

def runRegisterNode (w : World) (userId : Uuid) (organizationId : String) (node : Registration)
    (now : ℕ) : World × Progress :=
  match requireOrganizationAction w.db userId.text organizationId .nodeManage now with
  | .error e => (w, .threw (.access e))
  | .ok access =>
    match requireManagedPlan access with
    | .error e => (w, .threw (.access e))
    | .ok () =>
      (w.record [.authorized userId.text organizationId .nodeManage],
        .awaits (.readExisting userId organizationId node))

def runReadExisting (w : World) (userId : Uuid) (organizationId : String)
    (node : Registration) : World × Progress :=
  if (w.tables.nodeOrganization node.id).all (· = organizationId) then
    (w, .awaits (.writeNode userId organizationId node))
  else (w, .threw (.access ⟨409, "node_registered_to_another_organization"⟩))

def runWriteNode (w : World) (userId : Uuid) (organizationId : String) (node : Registration)
    (now : ℕ) : World × Progress :=
  match w.tables.registerBatch w.db.organizations userId.text organizationId node now with
  | none => (w, .threw .constraint)
  | some (tables, changes) =>
    ({ w with tables },
      if changes = 0 then .threw (.access ⟨409, "node_registered_to_another_organization"⟩)
      else .returned)

def nodeCapabilityActions : List Action := [.nodeInfo, .evidenceRead, .sessionRead, .sessionMessage]

/-- The action that `getNodeAccess` is called with. -/
def NodePurpose.action : NodePurpose → Except AccessError Action
  | .deleteNode => .ok .nodeManage
  | .directConfig _ => .ok .nodeManage
  | .relay route _ => relayAction route.method route.nodePath route.statusOnly
  | .capabilities requested remaining _ _ =>
    if requested.all nodeCapabilityActions.contains then
      match remaining with
      | action :: _ => .ok action
      | [] => .error ⟨400, "invalid_capability_actions"⟩
    else .error ⟨400, "invalid_capability_actions"⟩

/-- `getNodeAccess` up to its second statement. -/
def runNodeAccess (w : World) (userId : Uuid) (nodeId : String) (purpose : NodePurpose) :
    World × Progress :=
  match purpose.action with
  | .error e => (w, .threw (.access e))
  | .ok _ =>
    match w.tables.nodeOrganization nodeId with
    | none => (w, .threw (.access ⟨404, "node_not_found"⟩))
    | some organizationId =>
      (w.record [.ownerRead nodeId organizationId],
        .awaits (.checkAccess userId nodeId organizationId purpose))

/-- The request that `proxyNodeRequest` sends to the relay object, as that parses it. -/
def relayInput (method : Method) (path : String) (body : Option String) : JsValue :=
  .object ([("method", .string (if method = .get then "GET" else "POST")),
    ("path", .string path)] ++ body.toList.map fun text => ("body", .string text))

/-- `proxyBrowserRelay`; the status of a relay is only read. -/
def proxyBrowserRelay (nodeId organizationId : String) (route : BrowserRelayRoute)
    (body : Except AccessError String) : Progress :=
  if route.statusOnly then .returned
  else
    match route.method, body with
    | .get, _ =>
      .awaits (.forward nodeId organizationId (relayInput .get (route.nodePath.getD "/") none))
    | .post, .ok text =>
      .awaits (.forward nodeId organizationId
        (relayInput .post (route.nodePath.getD "/") (some text)))
    | .post, .error e => .threw (.access e)

/-- The rest of a route after `getNodeAccess`. -/
def NodePurpose.proceed (userId : Uuid) (nodeId organizationId : String)
    (access : OrganizationAccess) : NodePurpose → Progress
  | .deleteNode => .awaits (.removeNode userId nodeId organizationId)
  | .directConfig remove =>
    match requireManagedPlan access with
    | .error e => .threw (.access e)
    | .ok () =>
      if remove then .awaits (.removeDirectConfig userId nodeId organizationId) else .returned
  | .relay route body =>
    match requireManagedPlan access with
    | .error e => .threw (.access e)
    | .ok () => proxyBrowserRelay nodeId organizationId route body
  | .capabilities requested remaining managed body =>
    match remaining.tail with
    | [] =>
      match requireManagedPlan (managed.getD access) with
      | .error e => .threw (.access e)
      | .ok () =>
        .awaits (.forward nodeId organizationId
          (relayInput .post "/api/v1/capabilities" (some body)))
    | rest =>
      .awaits (.nodeAccess userId nodeId
        (.capabilities requested rest (some (managed.getD access)) body))

def runCheckAccess (w : World) (userId : Uuid) (nodeId organizationId : String)
    (purpose : NodePurpose) (now : ℕ) : World × Progress :=
  match purpose.action with
  | .error e => (w, .threw (.access e))
  | .ok action =>
    match requireOrganizationAction w.db userId.text organizationId action now with
    | .error e => (w, .threw (.access e))
    | .ok access =>
      (w.record [.authorized userId.text organizationId action],
        purpose.proceed userId nodeId organizationId access)

def runRemoveNode (w : World) (nodeId organizationId : String) : World × Progress :=
  ({ w with tables := w.tables.deleteNode nodeId organizationId }, .returned)

def runRemoveDirectConfig (w : World) (userId : Uuid) (nodeId : String) : World × Progress :=
  ({ w with tables := w.tables.deleteDirectConfig nodeId userId.text }, .returned)

/-! ### Relays -/

/-- `NodeRelay.fetch` of a relay request. -/
def runForward (w : World) (nodeId organizationId : String) (input : JsValue) : World × Progress :=
  let relay := w.relays nodeId
  ({ w with relays := Function.update w.relays nodeId relay.forwardRequest,
            origins := w.origins ++ [⟨nodeId, relay.received, organizationId, input⟩] },
    .returned)

/-- `connectNodeRelay` up to the update of the node's row. -/
def runConnectNodeRelay (platform : Platform) (w : World) (nodeId : String) (upgrade : Bool)
    (token version : Option String) : World × Progress :=
  if !upgrade then (w, .threw (.access ⟨426, "websocket_upgrade_required"⟩))
  else
    match token.filter validRelayToken with
    | none => (w, .threw (.access ⟨401, "node_auth_required"⟩))
    | some token =>
      if version.any (!validRelayNodeVersion ·) then
        (w, .threw (.access ⟨400, "invalid_node_version"⟩))
      else if orNull ((w.tables.findNode nodeId).bind Node.relayTokenHash) =
          some (platform.sha256 token) then
        (w, .awaits (.touchNode nodeId (platform.sha256 token) version))
      else (w, .threw (.access ⟨401, "node_auth_invalid"⟩))

def runTouchNode (w : World) (nodeId tokenHash : String) (version : Option String) (now : ℕ) :
    World × Progress :=
  ({ w with tables := w.tables.touchNode nodeId version now },
    .awaits (.openSocket nodeId tokenHash))

def runOpenSocket (w : World) (nodeId tokenHash : String) : World × Progress :=
  ({ w with
    relays := Function.update w.relays nodeId (w.relays nodeId).acceptNodeSocket
    socketTokens := Function.update w.socketTokens nodeId (w.socketTokens nodeId ++ [tokenHash]) },
    .returned)

/-- The request that a relay object knows by the number. -/
def World.origin (w : World) (nodeId : String) (waiter : ℕ) : Option Origin :=
  w.origins.find? fun origin => origin.nodeId = nodeId && origin.waiter = waiter

/-- A relay request goes on from its body; what it sends is recorded. -/
def World.receiveBody (platform : ControllerPlatform) (w : World) (nodeId : String)
    (call : ForwardCall) (id : String) (sends : Bool) : Option World := do
  let origin ← w.origin nodeId call.waiter
  let relay ← (w.relays nodeId).step platform.numberText (.body call (some origin.input) id sends)
  let forwarded := (relay.sent.drop (w.relays nodeId).sent.length).map fun sent =>
    Entry.forwarded nodeId origin.organizationId (w.tables.findNode nodeId)
      (w.socketTokens nodeId)[sent.socket]?
  return { w with relays := Function.update w.relays nodeId relay }.record forwarded

/-! ### Sign-in -/

def runStartOAuth (w : World) (provider : Provider) (returnTo codeChallenge : String)
    (now : ℕ) : World × Progress :=
  if isPkceChallenge codeChallenge then
    ({ w with identity := w.identity.deleteExpired now, db := w.db.deleteExpiredInvites now },
      .awaits (.insertState provider returnTo codeChallenge))
  else (w, .returned)

def runInsertState (platform : Platform) (w : World) (provider : Provider)
    (returnTo codeChallenge : String) (env : Ambient) : World × Progress :=
  let hash := platform.sha256 env.token
  match w.identity.insertState
      ⟨hash, provider, returnTo, codeChallenge, env.now + stateTtlSeconds⟩ with
  | none => (w, .threw .constraint)
  | some identity => ({ w with identity }.record [.issued (.oauthState hash)], .returned)

/-- `finishOAuth`. What fails after the state is taken redirects with an error. -/
def runFinishOAuth (platform : Platform) (w : World) (provider : Provider) (state code : String)
    (configured : Bool) (user : Option String) (now : ℕ) : World × Progress :=
  let hash := platform.sha256 state
  match w.identity.findState hash provider now with
  | none => (w, .returned)
  | some row =>
    ({ w with identity := w.identity.removeState hash }.record
        [.redeemed (.oauthState hash) now now row.expiresAt],
      if code.isEmpty || row.codeChallenge.isEmpty || !configured then .returned
      else
        match user with
        | none => .returned
        | some userId => .awaits (.insertAuthCode userId provider row.codeChallenge))

def runInsertAuthCode (platform : Platform) (w : World) (userId : String) (provider : Provider)
    (codeChallenge : String) (env : Ambient) : World × Progress :=
  let hash := platform.sha256 env.token
  match w.identity.insertAuthCode
      ⟨hash, userId, provider, codeChallenge, env.now + authCodeTtlSeconds, none⟩ with
  | none => (w, .returned)
  | some identity => ({ w with identity }.record [.issued (.authCode hash)], .returned)

/-- `exchangeAuthCode` up to `nowSeconds()`, the first value that it binds. -/
def runExchangeAuthCode (w : World) (code verifier : String) (now : ℕ) : World × Progress :=
  if code.isEmpty || verifier.isEmpty then
    (w, .threw (.access ⟨400, "code_and_verifier_required"⟩))
  else if !isPkceVerifier verifier then
    (w, .threw (.access ⟨400, "code_verifier_invalid"⟩))
  else (w, .awaits (.consumeAuthCode code verifier now))

/-- The `UPDATE ... RETURNING` of `exchangeAuthCode`, executed when the clock is `now`. -/
def runConsumeAuthCode (platform : IdentityPlatform) (w : World) (code verifier : String)
    (bound now : ℕ) : World × Progress :=
  let hash := platform.sha256 code
  match w.identity.findAuthCode hash (platform.sha256Base64Url verifier) bound with
  | none => (w, .threw (.access ⟨401, "code_invalid_or_expired"⟩))
  | some row =>
    ({ w with identity := w.identity.consumeAuthCode hash bound }.record
        [.redeemed (.authCode hash) bound now row.expiresAt],
      .awaits (.insertSession row.userId))

def runInsertSession (platform : Platform) (w : World) (userId : String) (env : Ambient) :
    World × Progress :=
  match w.identity.insertSession
      ⟨platform.sha256 env.token, userId, env.now + sessionTtlSeconds, env.now, env.now⟩ with
  | none => (w, .threw .constraint)
  | some identity => ({ w with identity }, .returned)

def runLogout (platform : Platform) (w : World) (token : String) : World × Progress :=
  ({ w with identity := w.identity.deleteSession (platform.sha256 token) }, .returned)

/-! ### Steps -/

/-- The next statement of a task. -/
def Task.resume (platform : ControllerPlatform) (w : World) (env : Ambient) :
    Task → World × Progress
  | .access call => runAccess platform.toPlatform w env call
  | .organizationRoute userId organizationId action =>
    runOrganizationRoute w userId organizationId action env.now
  | .deleteOrganization userId organizationId =>
    runDeleteOrganization w userId organizationId env.now
  | .removeOrganization _ organizationId => runRemoveOrganization w organizationId
  | .registerNode userId organizationId node => runRegisterNode w userId organizationId node env.now
  | .readExisting userId organizationId node => runReadExisting w userId organizationId node
  | .writeNode userId organizationId node => runWriteNode w userId organizationId node env.now
  | .nodeAccess userId nodeId purpose => runNodeAccess w userId nodeId purpose
  | .checkAccess userId nodeId organizationId purpose =>
    runCheckAccess w userId nodeId organizationId purpose env.now
  | .removeNode _ nodeId organizationId => runRemoveNode w nodeId organizationId
  | .removeDirectConfig userId nodeId _ => runRemoveDirectConfig w userId nodeId
  | .forward nodeId organizationId input => runForward w nodeId organizationId input
  | .connectNodeRelay nodeId upgrade token version =>
    runConnectNodeRelay platform.toPlatform w nodeId upgrade token version
  | .touchNode nodeId tokenHash version => runTouchNode w nodeId tokenHash version env.now
  | .openSocket nodeId tokenHash => runOpenSocket w nodeId tokenHash
  | .startOAuth provider returnTo codeChallenge =>
    runStartOAuth w provider returnTo codeChallenge env.now
  | .insertState provider returnTo codeChallenge =>
    runInsertState platform.toPlatform w provider returnTo codeChallenge env
  | .finishOAuth provider state code configured user =>
    runFinishOAuth platform.toPlatform w provider state code configured user env.now
  | .insertAuthCode userId provider codeChallenge =>
    runInsertAuthCode platform.toPlatform w userId provider codeChallenge env
  | .exchangeAuthCode code verifier => runExchangeAuthCode w code verifier env.now
  | .consumeAuthCode code verifier bound =>
    runConsumeAuthCode platform.toIdentityPlatform w code verifier bound env.now
  | .insertSession userId => runInsertSession platform.toPlatform w userId env
  | .logout token => runLogout platform.toPlatform w token

/-- A task with the length that `history` had when its request arrived. -/
structure Running where
  began : ℕ
  task : Task

structure System where
  world : World
  inflight : List Running

/-- What happens at a relay object without a request of the controller. -/
inductive RelayEvent where
  | close (socket : ℕ)
  | message (message : Option JsValue)
  | timeout (timer : PendingRequest)

def RelayEvent.event : RelayEvent → NodeRelay.Event
  | .close socket => .close socket
  | .message text => .message text
  | .timeout timer => .timeout timer

inductive SystemEvent where
  | request (task : Task)
  /-- The next statement of the task with the number. -/
  | resume (i : ℕ) (env : Ambient)
  | relay (nodeId : String) (event : RelayEvent)
  /-- The body of a relay request has reached the node's relay object. -/
  | body (nodeId : String) (call : ForwardCall) (id : String) (sends : Bool)

namespace System

/-- An empty controller, whatever entitlements were granted. -/
def init (entitlements : List Entitlement) : System where
  world := {
    db := ⟨[], [], [], entitlements⟩
    tables := ⟨[], []⟩
    identity := ⟨[], [], []⟩
    relays := fun _ => .init
    origins := []
    socketTokens := fun _ => []
    history := [] }
  inflight := []

def step (platform : ControllerPlatform) (s : System) : SystemEvent → Option System
  | .request task =>
    if task.isRequest then
      some { s with inflight := s.inflight ++ [⟨s.world.history.length, task⟩] }
    else none
  | .resume i env =>
    match s.inflight[i]? with
    | none => none
    | some running =>
      let result := running.task.resume platform s.world env
      some {
        world := result.1
        inflight := match result.2 with
          | .awaits next => s.inflight.set i { running with task := next }
          | _ => s.inflight.eraseIdx i }
  | .relay nodeId event =>
    ((s.world.relays nodeId).step platform.numberText event.event).map fun relay =>
      { s with world := { s.world with relays := Function.update s.world.relays nodeId relay } }
  | .body nodeId call id sends =>
    (s.world.receiveBody platform nodeId call id sends).map fun world => { s with world }

end System

end AgentSight.Controller
