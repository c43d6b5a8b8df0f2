import AgentSight.Controller.Access

/-!
# Relay routes of a browser

`browserRelayRoute` of `controller/src/relay.ts` and `relayAction` of `access.ts`: which path of
a node a browser request is forwarded to, and which action the controller checks before it
does. The URL is parsed by the platform; of what it promises, the model uses that neither part
contains the character that begins a fragment.
-/

namespace AgentSight.Controller

inductive Method where
  | get
  | post
  deriving DecidableEq

/-- The pathname and the search part of a parsed URL. -/
structure Url where
  pathname : String
  search : String
  pathname_noFragment : '#' ∉ pathname.toList
  search_noFragment : '#' ∉ search.toList

structure BrowserRelayRoute where
  nodeId : String
  method : Method
  nodePath : Option String
  statusOnly : Bool
  deriving DecidableEq

/-- A method other than `GET` and `POST` is `none`. -/
structure BrowserRequest where
  method : Option Method
  url : Url

def maxRelaySuffixBytes : ℕ := 4 * 1024

/-! ### Node ids -/

def isNodeIdChar (c : Char) : Bool :=
  ('A' ≤ c && c ≤ 'Z') || ('a' ≤ c && c ≤ 'z') || ('0' ≤ c && c ≤ '9') || c = '_'

/-- `/^node_[A-Za-z0-9_]{1,123}$/`. -/
def validNodeId (value : String) : Bool :=
  match Str.stripPrefix value "node_" with
  | none => false
  | some rest =>
    1 ≤ rest.toList.length && rest.toList.length ≤ 123 && rest.toList.all isNodeIdChar

def hexValue (c : Char) : Option ℕ :=
  if '0' ≤ c ∧ c ≤ '9' then some (c.toNat - '0'.toNat)
  else if 'a' ≤ c ∧ c ≤ 'f' then some (c.toNat - 'a'.toNat + 10)
  else if 'A' ≤ c ∧ c ≤ 'F' then some (c.toNat - 'A'.toNat + 10)
  else none

/-- `decodeURIComponent` as far as its result is ASCII. An escape above that range is an error
or a character that no node id has. -/
def decodeAscii : List Char → Option (List Char)
  | [] => some []
  | '%' :: a :: b :: rest => do
    let code := 16 * (← hexValue a) + (← hexValue b)
    if code < 128 then return Char.ofNat code :: (← decodeAscii rest) else none
  | '%' :: _ => none
  | c :: rest => (decodeAscii rest).map (c :: ·)

def decodeNodeId (value : List Char) : Option String :=
  ((decodeAscii value).map String.ofList).filter validNodeId

/-! ### The route -/

/-- `/^\/v1\/nodes\/([^/]+)\/relay(?:\/(.*))?$/`, with `match[2] || ''`. -/
def matchRelayPath (pathname : String) : Option (List Char × String) := do
  let rest ← Str.stripPrefix pathname "/v1/nodes/"
  let node := rest.toList.takeWhile (· ≠ '/')
  if node.isEmpty then none
  let tail ← Str.stripPrefix (String.ofList (rest.toList.dropWhile (· ≠ '/'))) "/relay"
  match tail.toList with
  | [] => return (node, "")
  | '/' :: suffix => return (node, String.ofList suffix)
  | _ => none

def validRelaySuffix (suffix search : String) : Bool :=
  !(suffix.isEmpty || length suffix + length search > maxRelaySuffixBytes) &&
    !(Str.startsWith suffix "/" || Str.containsChar suffix '\\') &&
    !(Str.split suffix (· = '/')).any fun segment =>
      segment = "" || segment = "." || segment = ".."

def browserRelayRoute (request : BrowserRequest) : Option BrowserRelayRoute := do
  let (node, suffix) ← matchRelayPath request.url.pathname
  let nodeId ← decodeNodeId node
  if suffix = "status" ∧ request.method = some .get ∧ request.url.search = "" then
    return ⟨nodeId, .get, none, true⟩
  let method ← request.method
  if validRelaySuffix suffix request.url.search then
    return ⟨nodeId, method, some ("/api/v1/" ++ suffix ++ request.url.search), false⟩
  else none

/-! ### The action -/

def relayAction (method : Method) (nodePath : Option String) (statusOnly : Bool) :
    Except AccessError Action :=
  if statusOnly then .ok .nodeRead
  else if method = .get && (nodePath.any (Str.startsWith · "/api/v1/snapshot") ||
        nodePath = some "/api/v1/overview") then
    .ok .evidenceRead
  else if method = .get && nodePath.any (Str.startsWith · "/api/v1/sessions/") then
    .ok .sessionRead
  else if method = .post && nodePath.any (Str.endsWith · "/messages") then .ok .sessionMessage
  else .error ⟨403, "permission_denied"⟩

end AgentSight.Controller
