import AgentSight.Controller.Access

/-!
# The tables of the nodes

`nodes` and `node_direct_configs` of `controller/schema.sql`, and the statements of
`controller/src/access.ts`, `relay.ts` and `index.ts` that read or write them. A node id is a
primary key, so one organization at a time has it registered; the two foreign keys delete a
node with its organization and a saved direct connection with its node.
-/

namespace AgentSight.Controller

open KeyedTable

/-! ### Rows -/

inductive ConnectionMode where
  | direct
  | relay
  deriving DecidableEq

structure Node where
  id : String
  organizationId : String
  name : String
  version : Option String
  relayTokenHash : Option String
  connectionMode : ConnectionMode
  lastSeenAt : ℕ
  createdAt : ℕ
  deriving DecidableEq

/-- A saved direct connection: the columns of `DirectConfigRow` with their key. -/
structure NodeDirectConfig where
  nodeId : String
  ownerUserId : String
  ciphertext : String
  iv : String
  version : ℕ
  createdAt : ℕ
  updatedAt : ℕ
  deriving DecidableEq

def NodeDirectConfig.key (config : NodeDirectConfig) : String × String :=
  (config.nodeId, config.ownerUserId)

structure NodeTables where
  nodes : List Node
  directConfigs : List NodeDirectConfig
  deriving DecidableEq

/-- The `node` argument of `registerNode`. -/
structure Registration where
  id : String
  name : String
  version : Option String
  relayTokenHash : Option String
  /-- `ciphertext`, `iv` and `version` of the encrypted connection. -/
  directConfig : Option (String × String × ℕ)
  deriving DecidableEq

/-! ### Values -/

/-- `value || null` for an optional string. -/
def orNull (value : Option String) : Option String := value.filter (!·.isEmpty)

def isTokenChar (c : Char) : Bool :=
  (('A' ≤ c && c ≤ 'Z') || ('a' ≤ c && c ≤ 'z') || ('0' ≤ c && c ≤ '9')) || c = '_' || c = '-'

/-- `/^[A-Za-z0-9_-]{32,256}$/`. -/
def validRelayToken (value : String) : Bool :=
  32 ≤ value.toList.length && value.toList.length ≤ 256 && value.toList.all isTokenChar

def isVersionChar (c : Char) : Bool :=
  ('A' ≤ c && c ≤ 'Z') || ('a' ≤ c && c ≤ 'z') || ('0' ≤ c && c ≤ '9')

/-- `/^[A-Za-z0-9][A-Za-z0-9._+-]{0,63}$/`. -/
def validRelayNodeVersion (value : String) : Bool :=
  match value.toList with
  | [] => false
  | c :: rest =>
    isVersionChar c && rest.length ≤ 63 &&
      rest.all fun d => isVersionChar d || d = '.' || d = '_' || d = '+' || d = '-'

def managedPlans : List EffectivePlan := [.plan .pro, .plan .team, .plan .enterprise, .unlimited]

def planAllowsManagedConnectivity (plan : EffectivePlan) : Bool := managedPlans.contains plan

def requireManagedPlan (access : OrganizationAccess) : Except AccessError Unit :=
  if planAllowsManagedConnectivity access.effectivePlan then .ok ()
  else .error ⟨402, "plan_upgrade_required"⟩

/-! ### The statements -/

namespace NodeTables

variable (t : NodeTables)

def findNode (id : String) : Option Node := find Node.id t.nodes id

/-- `SELECT organization_id FROM nodes WHERE id = ?`. -/
def nodeOrganization (id : String) : Option String := (t.findNode id).map Node.organizationId

/-- The row that the `INSERT` of `registerNode` asks for. -/
def newNode (organizationId : String) (node : Registration) (now : ℕ) : Node where
  id := node.id
  organizationId := organizationId
  name := node.name
  version := orNull node.version
  relayTokenHash := orNull node.relayTokenHash
  connectionMode := if (orNull node.relayTokenHash).isNone then .direct else .relay
  lastSeenAt := now
  createdAt := now

/-- The assignments of its `DO UPDATE SET`. -/
def mergeNode (excluded row : Node) : Node :=
  { row with
    name := excluded.name
    version := excluded.version
    relayTokenHash := excluded.relayTokenHash.or row.relayTokenHash
    connectionMode := if excluded.relayTokenHash.isNone then row.connectionMode else .relay
    lastSeenAt := excluded.lastSeenAt }

/-- `INSERT ... ON CONFLICT(id) DO UPDATE ... WHERE nodes.organization_id =
excluded.organization_id`, with the number of rows it changed; `none` when the organization is
gone. -/
def upsertNode (organizations : List Organization) (row : Node) : Option (List Node × ℕ) :=
  match t.findNode row.id with
  | none =>
    if (find Organization.id organizations row.organizationId).isSome then
      some (t.nodes ++ [row], 1)
    else none
  | some existing =>
    if existing.organizationId = row.organizationId then
      some (update Node.id t.nodes row.id (mergeNode row), 1)
    else some (t.nodes, 0)

/-- `INSERT ... SELECT ... WHERE EXISTS (node of the organization) ON CONFLICT DO UPDATE`. -/
def storeDirectConfig (organizationId : String) (row : NodeDirectConfig) : NodeTables :=
  if t.nodes.any (fun n => n.id = row.nodeId && n.organizationId = organizationId) then
    { t with directConfigs := upsert NodeDirectConfig.key t.directConfigs row fun old =>
        { old with ciphertext := row.ciphertext, iv := row.iv, version := row.version,
                   updatedAt := row.updatedAt } }
  else t

/-- The batch of `registerNode`; `none` when a constraint fails it. -/
def registerBatch (organizations : List Organization) (userId organizationId : String)
    (node : Registration) (now : ℕ) : Option (NodeTables × ℕ) := do
  let (nodes, changes) ← t.upsertNode organizations (newNode organizationId node now)
  let stored := { t with nodes }
  match node.directConfig with
  | none => return (stored, changes)
  | some (ciphertext, iv, version) =>
    return (stored.storeDirectConfig organizationId
      ⟨node.id, userId, ciphertext, iv, version, now, now⟩, changes)

/-- `DELETE FROM nodes WHERE id = ? AND organization_id = ?`, and the saved connections that
go with the node. -/
def deleteNode (id organizationId : String) : NodeTables :=
  match t.findNode id with
  | none => t
  | some row =>
    if row.organizationId = organizationId then
      { nodes := delete Node.id t.nodes id
        directConfigs := t.directConfigs.filter (·.nodeId ≠ id) }
    else t

/-- What the deletion of an organization takes with it. -/
def deleteOrganization (organizationId : String) : NodeTables where
  nodes := t.nodes.filter (·.organizationId ≠ organizationId)
  directConfigs := t.directConfigs.filter fun config =>
    t.nodeOrganization config.nodeId ≠ some organizationId

/-- `DELETE FROM node_direct_configs WHERE node_id = ? AND owner_user_id = ?`. -/
def deleteDirectConfig (nodeId userId : String) : NodeTables :=
  { t with directConfigs := delete NodeDirectConfig.key t.directConfigs (nodeId, userId) }

/-- The `UPDATE` of `connectNodeRelay`. -/
def touchNode (nodeId : String) (version : Option String) (now : ℕ) : NodeTables :=
  { t with nodes := update Node.id t.nodes nodeId fun row =>
      { row with lastSeenAt := now, connectionMode := .relay, version := version.or row.version } }

end NodeTables

/-- `DELETE FROM organizations WHERE id = ?` on the tables of `Access`, with the rows that
refer to the organization. -/
def Database.deleteOrganization (db : Database) (organizationId : String) : Database :=
  { db with
    organizations := delete Organization.id db.organizations organizationId
    memberships := db.memberships.filter (·.organizationId ≠ organizationId)
    invites := db.invites.filter (·.organizationId ≠ organizationId) }

end AgentSight.Controller
