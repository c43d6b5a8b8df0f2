import AgentSight.Lib.KeyedTable
import AgentSight.Lib.Transition
import AgentSight.Text

/-!
# The controller's access model

`controller/src/access.ts`: organizations, memberships and invitations over an SQL database.
A function of the source is asynchronous; it runs up to its next database statement and waits
there, so a request is a `Call` (the function and what it has read so far) and `resume`
executes its next statement with the code up to the one after it. A `batch` is one
transaction and therefore one statement. The requests of any number of users interleave.

The constraints are those of `controller/schema.sql`: primary keys, the foreign keys to
`organizations`, and the `CHECK` on the role of an invitation.
-/

namespace AgentSight.Controller

/-! ### Strings of the platform -/

/-- What `crypto.randomUUID()` returns, and what a user's id is. -/
structure Uuid where
  groups : List Char × List Char × List Char × List Char × List Char
  lengths : groups.1.length = 8 ∧ groups.2.1.length = 4 ∧ groups.2.2.1.length = 4 ∧
    groups.2.2.2.1.length = 4 ∧ groups.2.2.2.2.length = 12
  digits : ∀ c ∈ groups.1 ++ groups.2.1 ++ groups.2.2.1 ++ groups.2.2.2.1 ++ groups.2.2.2.2, c ≠ '-'

namespace Uuid

/-- The digits without the dashes. -/
def compact (u : Uuid) : List Char :=
  u.groups.1 ++ u.groups.2.1 ++ u.groups.2.2.1 ++ u.groups.2.2.2.1 ++ u.groups.2.2.2.2

/-- A UUID as `crypto.randomUUID()` writes it. -/
def text (u : Uuid) : String :=
  String.ofList (u.groups.1 ++ '-' :: u.groups.2.1 ++ '-' :: u.groups.2.2.1 ++
    '-' :: u.groups.2.2.2.1 ++ '-' :: u.groups.2.2.2.2)

end Uuid

/-- `replaceAll('-', '')`. -/
def removeDashes (s : String) : String := String.ofList (s.toList.filter (· ≠ '-'))

/-- The white space and line terminators that `String.prototype.trim` removes. -/
def isTrimmed (c : Char) : Bool :=
  let n := c.toNat
  (9 ≤ n && n ≤ 13) || n == 32 || n == 0xA0 || n == 0x1680 || (0x2000 ≤ n && n ≤ 0x200A) ||
    n == 0x2028 || n == 0x2029 || n == 0x202F || n == 0x205F || n == 0x3000 || n == 0xFEFF

/-- `String.prototype.trim`. -/
def trim (s : String) : String :=
  String.ofList ((s.toList.dropWhile isTrimmed).reverse.dropWhile isTrimmed).reverse

/-- `length`, in UTF-16 code units. -/
def length (s : String) : ℕ := (s.toList.map fun c => if c.toNat < 0x10000 then 1 else 2).sum

/-- The platform functions that have no definition here: the hash of a token and the Unicode
case mapping. -/
structure Platform where
  sha256 : String → String
  toLowerCase : String → String

/-! ### Roles and plans -/

inductive Role where
  | viewer
  | operator
  | admin
  | owner
  deriving DecidableEq

inductive Action where
  | organizationRead
  | organizationManage
  | memberRead
  | memberManage
  | nodeRead
  | nodeManage
  | nodeInfo
  | evidenceRead
  | sessionRead
  | sessionMessage
  | configRead
  | configWrite
  | billingRead
  | billingManage
  deriving DecidableEq

def viewerActions : List Action :=
  [.organizationRead, .memberRead, .nodeRead, .nodeInfo, .evidenceRead, .sessionRead,
    .configRead, .billingRead]

def operatorActions : List Action := viewerActions ++ [.sessionMessage]

def adminActions : List Action := operatorActions ++ [.memberManage, .nodeManage, .configWrite]

/-- `ROLE_ACTIONS`. -/
def roleActions : Role → List Action
  | .viewer => viewerActions
  | .operator => operatorActions
  | .admin => adminActions
  | .owner => adminActions ++ [.organizationManage, .billingManage]

def roleAllows (role : Role) (action : Action) : Bool := (roleActions role).contains action

inductive Plan where
  | free
  | pro
  | team
  | enterprise
  deriving DecidableEq

inductive EffectivePlan where
  | plan (plan : Plan)
  | unlimited
  deriving DecidableEq

inductive OrganizationKind where
  | personal
  | team
  deriving DecidableEq

inductive BillingStatus where
  | inactive
  | trialing
  | active
  | pastDue
  | canceled
  deriving DecidableEq

def hostedPreviewUnlimited : Bool := true

def activeBilling : List BillingStatus := [.active, .trialing]

def teamPlans : List EffectivePlan := [.plan .team, .plan .enterprise, .unlimited]

def planAllowsMultipleMembers (plan : EffectivePlan) : Bool := teamPlans.contains plan

/-- `resolveEffectivePlan`; the hosted preview has no limits. -/
def resolveEffectivePlan (kind : OrganizationKind) (plan : Plan) (billingStatus : BillingStatus)
    (contributorPro : Bool) : EffectivePlan :=
  if hostedPreviewUnlimited then .unlimited
  else if kind = .personal && contributorPro then .plan .pro
  else if plan = .free then .plan .free
  else if activeBilling.contains billingStatus then .plan plan
  else .plan .free

/-! ### The database -/

structure Organization where
  id : String
  name : String
  kind : OrganizationKind
  plan : Plan
  billingStatus : BillingStatus
  createdByUserId : String
  createdAt : ℕ
  updatedAt : ℕ
  deriving DecidableEq

structure Membership where
  organizationId : String
  userId : String
  role : Role
  createdAt : ℕ
  updatedAt : ℕ
  deriving DecidableEq

def Membership.key (m : Membership) : String × String := (m.organizationId, m.userId)

structure Invite where
  tokenHash : String
  organizationId : String
  email : String
  role : Role
  invitedByUserId : String
  expiresAt : ℕ
  consumedAt : Option ℕ
  createdAt : ℕ
  deriving DecidableEq

structure Entitlement where
  userId : Option String
  kind : String
  expiresAt : Option ℕ
  revokedAt : Option ℕ
  deriving DecidableEq

structure Database where
  organizations : List Organization
  memberships : List Membership
  invites : List Invite
  entitlements : List Entitlement
  deriving DecidableEq

structure AccessError where
  status : ℕ
  code : String
  deriving DecidableEq

structure OrganizationAccess where
  id : String
  kind : OrganizationKind
  role : Role
  effectivePlan : EffectivePlan
  deriving DecidableEq

/-- The `contributor_pro` column of `ORGANIZATION_SELECT`. -/
def Database.contributorPro (db : Database) (userId : String) (now : ℕ) : Bool :=
  db.entitlements.any fun e =>
    e.userId = some userId && e.kind = "pro_lifetime" && e.revokedAt.isNone &&
      e.expiresAt.all (now ≤ ·)

/-- The row of `ORGANIZATION_SELECT` for a member. -/
def getOrganizationAccess (db : Database) (userId organizationId : String) (now : ℕ) :
    Option OrganizationAccess := do
  let o ← KeyedTable.find Organization.id db.organizations organizationId
  let m ← KeyedTable.find Membership.key db.memberships (organizationId, userId)
  return {
    id := o.id
    kind := o.kind
    role := m.role
    effectivePlan :=
      resolveEffectivePlan o.kind o.plan o.billingStatus (db.contributorPro userId now) }

/-- The check of a permission: a member whose role allows the action. -/
def requireOrganizationAction (db : Database) (userId organizationId : String)
    (action : Action) (now : ℕ) : Except AccessError OrganizationAccess :=
  match getOrganizationAccess db userId organizationId now with
  | none => .error ⟨404, "organization_not_found"⟩
  | some access =>
    if roleAllows access.role action then .ok access else .error ⟨403, "permission_denied"⟩

def requireTeamPlan (access : OrganizationAccess) : Except AccessError Unit :=
  if planAllowsMultipleMembers access.effectivePlan then .ok ()
  else .error ⟨402, "team_plan_required"⟩

/-- `['viewer', 'operator', 'admin'].includes(role)`. -/
def isInviteRole (role : Role) : Bool := [Role.viewer, .operator, .admin].contains role

def personalOrganizationId (userId : String) : String := "org_personal_" ++ removeDashes userId

/-! ### Requests -/

structure UserIdentity where
  id : Uuid
  email : String

/-- The columns `organization_id, role` that an invitation is read for. -/
structure Invitation where
  organizationId : String
  role : Role
  deriving DecidableEq

/-- A call that waits for its next database statement. -/
inductive Call where
  | ensurePersonalOrganization (userId : Uuid)
  | createOrganization (userId : Uuid) (name : String)
  | createInvite (userId : Uuid) (organizationId email : String) (role : Role)
  /-- The checks passed; the row is to be inserted. -/
  | insertInvite (row : Invite)
  | acceptInvite (user : UserIdentity) (token : String)
  /-- The candidate was read; its organization is to be read. -/
  | readOrganization (user : UserIdentity) (tokenHash : String) (now : ℕ) (candidate : Invitation)
  /-- The organization was checked; the invitation is to be consumed. -/
  | consumeInvite (user : UserIdentity) (tokenHash : String) (now : ℕ)
  /-- The invitation was consumed; the membership is to be written. -/
  | joinOrganization (user : UserIdentity) (now : ℕ) (consumed : Invitation)
  | updateMemberRole (actorUserId : Uuid) (organizationId memberUserId : String) (role : Role)
  /-- The actor was checked; the member's role is to be read. -/
  | readForUpdate (organizationId memberUserId : String) (role : Role)
  | writeRole (organizationId memberUserId : String) (role : Role)
  | removeMember (actorUserId : Uuid) (organizationId memberUserId : String)
  | readForRemoval (organizationId memberUserId : String)
  | deleteMember (organizationId memberUserId : String)

/-- The calls that the routes make; the others are reached from these. -/
def Call.isRequest : Call → Bool
  | .ensurePersonalOrganization .. => true
  | .createOrganization .. => true
  | .createInvite .. => true
  | .acceptInvite .. => true
  | .updateMemberRole .. => true
  | .removeMember .. => true
  | _ => false

inductive Failure where
  | access (e : AccessError)
  /-- A constraint of the schema refused the statement. -/
  | constraint
  deriving DecidableEq

inductive Outcome where
  | returned (value : Option String)
  | threw (e : Failure)
  | awaits (call : Call)

/-- What a statement's code draws from outside: the clock and the random values. -/
structure Ambient where
  now : ℕ
  token : String
  uuid : Uuid

/-! ### The statements -/

/-- The row pair that both ways of creating an organization insert. -/
def newOrganization (id name : String) (kind : OrganizationKind) (userId : String) (now : ℕ) :
    Organization :=
  ⟨id, name, kind, .free, .inactive, userId, now, now⟩

def ownerMembership (id userId : String) (now : ℕ) : Membership := ⟨id, userId, .owner, now, now⟩

def runEnsurePersonalOrganization (db : Database) (userId : Uuid) (now : ℕ) : Database × Outcome :=
  let id := personalOrganizationId userId.text
  ({ db with
      organizations := KeyedTable.insertOrIgnore Organization.id db.organizations
        (newOrganization id "Personal" .personal userId.text now)
      memberships := KeyedTable.insertOrIgnore Membership.key db.memberships
        (ownerMembership id userId.text now) },
    .returned (some id))

/-- `createOrganization`, a batch of two inserts. -/
def runCreateOrganization (db : Database) (userId : Uuid) (name : String) (env : Ambient) :
    Database × Outcome :=
  let normalized := trim name
  if normalized.isEmpty || length normalized > 128 then
    (db, .threw (.access ⟨400, "invalid_organization_name"⟩))
  else
    let id := "org_" ++ removeDashes env.uuid.text
    match KeyedTable.insert Organization.id db.organizations
        (newOrganization id normalized .team userId.text env.now),
      KeyedTable.insert Membership.key db.memberships (ownerMembership id userId.text env.now) with
    | some organizations, some memberships =>
      ({ db with organizations, memberships }, .returned (some id))
    | _, _ => (db, .threw .constraint)

/-- The checks of `createInvite`, with the e-mail address it stores. -/
def checkInvite (platform : Platform) (db : Database) (userId : Uuid)
    (organizationId email : String) (role : Role) (now : ℕ) : Except AccessError String := do
  let access ← requireOrganizationAction db userId.text organizationId .memberManage now
  requireTeamPlan access
  if access.kind ≠ .team then throw ⟨400, "personal_organization_cannot_invite"⟩
  if !isInviteRole role then throw ⟨400, "invalid_role"⟩
  let normalizedEmail := platform.toLowerCase (trim email)
  if normalizedEmail.isEmpty || length normalizedEmail > 320 ||
      !Str.containsChar normalizedEmail '@' then
    throw ⟨400, "invalid_email"⟩
  return normalizedEmail

/-- `createInvite` up to its statement. -/
def runCreateInvite (platform : Platform) (db : Database) (userId : Uuid)
    (organizationId email : String) (role : Role) (env : Ambient) : Database × Outcome :=
  match checkInvite platform db userId organizationId email role env.now with
  | .error e => (db, .threw (.access e))
  | .ok normalizedEmail =>
    (db, .awaits (.insertInvite {
      tokenHash := platform.sha256 env.token
      organizationId
      email := normalizedEmail
      role
      invitedByUserId := userId.text
      expiresAt := env.now + 7 * 24 * 60 * 60
      consumedAt := none
      createdAt := env.now }))

def runInsertInvite (db : Database) (row : Invite) : Database × Outcome :=
  if isInviteRole row.role &&
      (KeyedTable.find Organization.id db.organizations row.organizationId).isSome then
    match KeyedTable.insert Invite.tokenHash db.invites row with
    | some invites => ({ db with invites }, .returned none)
    | none => (db, .threw .constraint)
  else (db, .threw .constraint)

/-- `lower(email) = lower(?) AND consumed_at IS NULL AND expires_at >= ?`. -/
def Invite.isOpenFor (row : Invite) (email : String) (now : ℕ) : Bool :=
  Str.toAsciiLowercase row.email = Str.toAsciiLowercase email && row.consumedAt.isNone &&
    now ≤ row.expiresAt

def Invite.invitation (row : Invite) : Invitation := ⟨row.organizationId, row.role⟩

/-- The open invitation of a token, as both statements of `acceptInvite` select it. -/
def findInvite (db : Database) (tokenHash email : String) (now : ℕ) : Option Invite :=
  (KeyedTable.find Invite.tokenHash db.invites tokenHash).filter (·.isOpenFor email now)

/-- `acceptInvite` up to its first statement, which selects the invitation. -/
def runAcceptInvite (platform : Platform) (db : Database) (user : UserIdentity)
    (token : String) (now : ℕ) : Database × Outcome :=
  if token.isEmpty || length token > 512 then
    (db, .threw (.access ⟨400, "invalid_invite"⟩))
  else
    match findInvite db (platform.sha256 token) user.email now with
    | none => (db, .threw (.access ⟨400, "invite_invalid_or_expired"⟩))
    | some row =>
      (db, .awaits (.readOrganization user (platform.sha256 token) now row.invitation))

def runReadOrganization (db : Database) (user : UserIdentity) (tokenHash : String) (now : ℕ)
    (candidate : Invitation) : Database × Outcome :=
  match KeyedTable.find Organization.id db.organizations candidate.organizationId with
  | none => (db, .threw (.access ⟨400, "invite_invalid"⟩))
  | some organization =>
    if organization.kind ≠ .team then (db, .threw (.access ⟨400, "invite_invalid"⟩))
    else if !planAllowsMultipleMembers (resolveEffectivePlan organization.kind
        organization.plan organization.billingStatus false) then
      (db, .threw (.access ⟨402, "team_plan_required"⟩))
    else (db, .awaits (.consumeInvite user tokenHash now))

/-- The statement that marks the invite as accepted. -/
def runConsumeInvite (db : Database) (user : UserIdentity) (tokenHash : String) (now : ℕ) :
    Database × Outcome :=
  match findInvite db tokenHash user.email now with
  | none => (db, .threw (.access ⟨400, "invite_invalid_or_expired"⟩))
  | some row =>
    ({ db with
        invites := KeyedTable.update Invite.tokenHash db.invites tokenHash
          fun row => { row with consumedAt := some now } },
      .awaits (.joinOrganization user now row.invitation))

def runJoinOrganization (db : Database) (user : UserIdentity) (now : ℕ)
    (consumed : Invitation) : Database × Outcome :=
  if (KeyedTable.find Organization.id db.organizations consumed.organizationId).isSome then
    ({ db with
        memberships := KeyedTable.upsert Membership.key db.memberships
          ⟨consumed.organizationId, user.id.text, consumed.role, now, now⟩
          fun row => { row with role := consumed.role, updatedAt := now } },
      .returned (some consumed.organizationId))
  else (db, .threw .constraint)

/-- The check that `updateMemberRole` and `removeMember` share. -/
def checkManager (db : Database) (actorUserId : Uuid) (organizationId : String) (now : ℕ) :
    Except AccessError Unit := do
  let access ← requireOrganizationAction db actorUserId.text organizationId .memberManage now
  requireTeamPlan access

/-- The check of `updateMemberRole`. -/
def runUpdateMemberRole (db : Database) (actorUserId : Uuid)
    (organizationId memberUserId : String) (role : Role) (now : ℕ) : Database × Outcome :=
  match checkManager db actorUserId organizationId now with
  | .error e => (db, .threw (.access e))
  | .ok () =>
    if !isInviteRole role then (db, .threw (.access ⟨400, "invalid_role"⟩))
    else (db, .awaits (.readForUpdate organizationId memberUserId role))

def runReadForUpdate (db : Database) (organizationId memberUserId : String) (role : Role) :
    Database × Outcome :=
  match KeyedTable.find Membership.key db.memberships (organizationId, memberUserId) with
  | none => (db, .threw (.access ⟨404, "member_not_found"⟩))
  | some existing =>
    if existing.role = .owner then (db, .threw (.access ⟨409, "owner_role_is_immutable"⟩))
    else (db, .awaits (.writeRole organizationId memberUserId role))

def runWriteRole (db : Database) (organizationId memberUserId : String) (role : Role)
    (now : ℕ) : Database × Outcome :=
  ({ db with
      memberships := KeyedTable.update Membership.key db.memberships
        (organizationId, memberUserId) fun row => { row with role, updatedAt := now } },
    .returned none)

/-- The check of `removeMember`. -/
def runRemoveMember (db : Database) (actorUserId : Uuid)
    (organizationId memberUserId : String) (now : ℕ) : Database × Outcome :=
  match checkManager db actorUserId organizationId now with
  | .error e => (db, .threw (.access e))
  | .ok () => (db, .awaits (.readForRemoval organizationId memberUserId))

def runReadForRemoval (db : Database) (organizationId memberUserId : String) : Database × Outcome :=
  match KeyedTable.find Membership.key db.memberships (organizationId, memberUserId) with
  | none => (db, .returned none)
  | some existing =>
    if existing.role = .owner then (db, .threw (.access ⟨409, "owner_cannot_be_removed"⟩))
    else (db, .awaits (.deleteMember organizationId memberUserId))

def runDeleteMember (db : Database) (organizationId memberUserId : String) : Database × Outcome :=
  ({ db with
      memberships :=
        KeyedTable.delete Membership.key db.memberships (organizationId, memberUserId) },
    .returned none)

/-- What a call does with the database up to its next statement. -/
def resume (platform : Platform) (db : Database) (env : Ambient) : Call → Database × Outcome
  | .ensurePersonalOrganization userId => runEnsurePersonalOrganization db userId env.now
  | .createOrganization userId name => runCreateOrganization db userId name env
  | .createInvite userId organizationId email role =>
    runCreateInvite platform db userId organizationId email role env
  | .insertInvite row => runInsertInvite db row
  | .acceptInvite user token => runAcceptInvite platform db user token env.now
  | .readOrganization user tokenHash now candidate =>
    runReadOrganization db user tokenHash now candidate
  | .consumeInvite user tokenHash now => runConsumeInvite db user tokenHash now
  | .joinOrganization user now consumed => runJoinOrganization db user now consumed
  | .updateMemberRole actorUserId organizationId memberUserId role =>
    runUpdateMemberRole db actorUserId organizationId memberUserId role env.now
  | .readForUpdate organizationId memberUserId role =>
    runReadForUpdate db organizationId memberUserId role
  | .writeRole organizationId memberUserId role =>
    runWriteRole db organizationId memberUserId role env.now
  | .removeMember actorUserId organizationId memberUserId =>
    runRemoveMember db actorUserId organizationId memberUserId env.now
  | .readForRemoval organizationId memberUserId =>
    runReadForRemoval db organizationId memberUserId
  | .deleteMember organizationId memberUserId => runDeleteMember db organizationId memberUserId

/-! ### The controller -/

structure State where
  db : Database
  inflight : List Call

inductive Event where
  | request (call : Call)
  /-- The database answers the call's next statement. -/
  | resume (i : ℕ) (env : Ambient)

namespace State

/-- An empty controller, whatever entitlements were granted. -/
def init (entitlements : List Entitlement) : State := ⟨⟨[], [], [], entitlements⟩, []⟩

def step (platform : Platform) (s : State) : Event → Option State
  | .request call =>
    if call.isRequest then some { s with inflight := s.inflight ++ [call] } else none
  | .resume i env =>
    match s.inflight[i]? with
    | none => none
    | some call =>
      let result := resume platform s.db env call
      some {
        db := result.1
        inflight := match result.2 with
          | .awaits next => s.inflight.set i next
          | _ => s.inflight.eraseIdx i }

end State

end AgentSight.Controller
