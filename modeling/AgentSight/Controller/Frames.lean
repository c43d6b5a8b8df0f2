import AgentSight.Controller.System

/-!
# What a statement leaves alone

Most statements of the controller only read, and record what they found; some write the tables
of the access model and of the sign-in. Only a few write the tables of the nodes, and two reach
a relay object. `Task.kind` sorts them, and `System.step_cases` says once what a step does to
the requests in flight.
-/

namespace AgentSight.Controller

open KeyedTable List

/-! ### Kinds of tasks -/

inductive TaskKind where
  | reads
  /-- Writes the access model or the sign-in. -/
  | store
  | tables
  | relay
  deriving DecidableEq

def Task.kind : Task → TaskKind
  | .access _ => .store
  | .organizationRoute .. => .reads
  | .deleteOrganization .. => .reads
  | .removeOrganization .. => .tables
  | .registerNode .. => .reads
  | .readExisting .. => .reads
  | .writeNode .. => .tables
  | .nodeAccess .. => .reads
  | .checkAccess .. => .reads
  | .removeNode .. => .tables
  | .removeDirectConfig .. => .tables
  | .forward .. => .relay
  | .connectNodeRelay .. => .reads
  | .touchNode .. => .tables
  | .openSocket .. => .relay
  | .startOAuth .. => .store
  | .insertState .. => .store
  | .finishOAuth .. => .store
  | .insertAuthCode .. => .store
  | .exchangeAuthCode .. => .reads
  | .consumeAuthCode .. => .store
  | .insertSession .. => .store
  | .logout .. => .store

section Kinds

variable (platform : ControllerPlatform) (w : World) (env : Ambient) {task : Task}

@[simp] theorem World.record_nil : w.record [] = w := by simp [World.record]

def Entry.isForwarded : Entry → Bool
  | .forwarded .. => true
  | _ => false

/-- Entries of the statements; only a relay object records that an envelope went out. -/
def OfStatement (entries : List Entry) : Prop := ∀ entry ∈ entries, entry.isForwarded = false

theorem ofStatement_nil : OfStatement [] := fun _ h => (not_mem_nil h).elim

theorem ofStatement_singleton {entry : Entry} (h : entry.isForwarded = false) :
    OfStatement [entry] := fun _ hentry => mem_singleton.mp hentry ▸ h

/-- What a check or a read records. -/
def Entry.isObservation : Entry → Bool
  | .authorized .. => true
  | .ownerRead .. => true
  | _ => false

def Observations (entries : List Entry) : Prop := ∀ entry ∈ entries, entry.isObservation = true

theorem observations_nil : Observations [] := fun _ h => (not_mem_nil h).elim

theorem observations_singleton {entry : Entry} (h : entry.isObservation = true) :
    Observations [entry] := fun _ hentry => mem_singleton.mp hentry ▸ h

theorem Observations.ofStatement {entries : List Entry} (h : Observations entries) :
    OfStatement entries := by
  intro entry hentry
  have hobservation := h entry hentry
  cases entry <;> first | rfl | cases hobservation

theorem ofStatement_accessEntries (db : Database) (clock : ℕ) (call : Call) (outcome : Outcome) :
    OfStatement (accessEntries db clock call outcome) := by
  unfold accessEntries
  split
  · exact ofStatement_singleton rfl
  · intro entry hentry
    obtain ⟨row, -, rfl⟩ := mem_map.mp hentry
    rfl
  · exact ofStatement_nil

/-- A task that only reads changes nothing but the record. -/
theorem resume_of_reads (h : task.kind = .reads) :
    ∃ entries, Observations entries ∧ (task.resume platform w env).1 = w.record entries := by
  have same : ∃ entries, Observations entries ∧ w = w.record entries :=
    ⟨[], observations_nil, by simp⟩
  cases task with
  | organizationRoute userId organizationId action =>
    simp only [Task.resume, runOrganizationRoute]
    split
    · exact same
    · exact ⟨_, observations_singleton rfl, rfl⟩
  | deleteOrganization userId organizationId =>
    simp only [Task.resume, runDeleteOrganization]
    split
    · exact same
    · split
      · exact same
      · exact ⟨_, observations_singleton rfl, rfl⟩
  | registerNode userId organizationId node =>
    simp only [Task.resume, runRegisterNode]
    split
    · exact same
    · split
      · exact same
      · exact ⟨_, observations_singleton rfl, rfl⟩
  | readExisting userId organizationId node =>
    simp only [Task.resume, runReadExisting]
    split <;> exact same
  | nodeAccess userId nodeId purpose =>
    simp only [Task.resume, runNodeAccess]
    split
    · exact same
    · split
      · exact same
      · exact ⟨_, observations_singleton rfl, rfl⟩
  | checkAccess userId nodeId organizationId purpose =>
    simp only [Task.resume, runCheckAccess]
    split
    · exact same
    · split
      · exact same
      · exact ⟨_, observations_singleton rfl, rfl⟩
  | connectNodeRelay nodeId upgrade token version =>
    simp only [Task.resume, runConnectNodeRelay]
    split
    · exact same
    · split
      · exact same
      · split
        · exact same
        · split <;> exact same
  | exchangeAuthCode code verifier =>
    simp only [Task.resume, runExchangeAuthCode]
    split
    · exact same
    · split <;> exact same
  | _ => cases h

/-- A task of the access model or of the sign-in does not touch a node or a relay. -/
theorem resume_of_store (h : task.kind = .store) : ∃ db identity entries, OfStatement entries ∧
      (task.resume platform w env).1 = { w with db, identity }.record entries := by
  have same : ∃ db identity entries, OfStatement entries ∧
      w = { w with db, identity }.record entries :=
    ⟨w.db, w.identity, [], ofStatement_nil, by simp⟩
  cases task with
  | access call => exact ⟨_, w.identity, _, ofStatement_accessEntries _ _ _ _, rfl⟩
  | startOAuth provider returnTo codeChallenge =>
    simp only [Task.resume, runStartOAuth]
    split
    · exact ⟨_, _, [], ofStatement_nil, (World.record_nil _).symm⟩
    · exact same
  | insertState provider returnTo codeChallenge =>
    simp only [Task.resume, runInsertState]
    split
    · exact same
    · exact ⟨w.db, _, _, ofStatement_singleton rfl, rfl⟩
  | finishOAuth provider state code configured user =>
    simp only [Task.resume, runFinishOAuth]
    split
    · exact same
    · exact ⟨w.db, _, _, ofStatement_singleton rfl, rfl⟩
  | insertAuthCode userId provider codeChallenge =>
    simp only [Task.resume, runInsertAuthCode]
    split
    · exact same
    · exact ⟨w.db, _, _, ofStatement_singleton rfl, rfl⟩
  | consumeAuthCode code verifier bound =>
    simp only [Task.resume, runConsumeAuthCode]
    split
    · exact same
    · exact ⟨w.db, _, _, ofStatement_singleton rfl, rfl⟩
  | insertSession userId =>
    simp only [Task.resume, runInsertSession]
    split
    · exact same
    · exact ⟨w.db, _, [], ofStatement_nil, (World.record_nil _).symm⟩
  | logout token => exact ⟨w.db, _, [], ofStatement_nil, (World.record_nil _).symm⟩
  | _ => cases h

/-- The statements on the nodes; with an organization, rows of the access model go too. -/
theorem resume_of_tables (h : task.kind = .tables) :
    ∃ db tables, (task.resume platform w env).1 = { w with db, tables } := by
  cases task with
  | writeNode userId organizationId node =>
    simp only [Task.resume, runWriteNode]
    split
    · exact ⟨w.db, w.tables, rfl⟩
    · exact ⟨w.db, _, rfl⟩
  | removeOrganization => exact ⟨_, _, rfl⟩
  | removeNode | removeDirectConfig | touchNode => exact ⟨w.db, _, rfl⟩
  | _ => cases h

/-- The record only grows. -/
theorem history_resume (task : Task) : w.history <+: (task.resume platform w env).1.history := by
  cases hkind : task.kind with
  | reads =>
    obtain ⟨entries, -, hw⟩ := resume_of_reads platform w env hkind
    rw [hw]
    exact prefix_append ..
  | store =>
    obtain ⟨db, identity, entries, -, hw⟩ := resume_of_store platform w env hkind
    rw [hw]
    exact prefix_append ..
  | tables =>
    obtain ⟨db, tables, hw⟩ := resume_of_tables platform w env hkind
    rw [hw]
  | relay =>
    cases task with
    | forward | openSocket => exact prefix_rfl
    | _ => cases hkind

/-- Statements that write neither a node nor a saved connection. -/
theorem tables_resume (h : task.kind ≠ .tables) :
    (task.resume platform w env).1.tables = w.tables := by
  cases hkind : task.kind with
  | reads =>
    obtain ⟨entries, -, hw⟩ := resume_of_reads platform w env hkind
    rw [hw]
    rfl
  | store =>
    obtain ⟨db, identity, entries, -, hw⟩ := resume_of_store platform w env hkind
    rw [hw]
    rfl
  | tables => exact absurd hkind h
  | relay =>
    cases task with
    | forward | openSocket => rfl
    | _ => cases hkind

end Kinds

/-! ### What a call of the access model waits for next -/

/-- The call executes a statement that ends in the database `db'` and leaves it waiting as
`next`. -/
inductive Proceeds (platform : Platform) (db : Database) (env : Ambient) :
    Call → Call → Database → Prop
  | createInvite {userId : Uuid} {organizationId email normalizedEmail : String} {role : Role}
      (h : checkInvite platform db userId organizationId email role env.now = .ok normalizedEmail) :
      Proceeds platform db env (.createInvite userId organizationId email role)
        (.insertInvite ⟨platform.sha256 env.token, organizationId, normalizedEmail, role,
          userId.text, env.now + 7 * 24 * 60 * 60, none, env.now⟩) db
  | acceptInvite {user : UserIdentity} {token : String} {row : Invite}
      (h : findInvite db (platform.sha256 token) user.email env.now = some row) :
      Proceeds platform db env (.acceptInvite user token)
        (.readOrganization user (platform.sha256 token) env.now row.invitation) db
  | readOrganization {user : UserIdentity} {tokenHash : String} {now : ℕ}
      {candidate : Invitation} {organization : Organization}
      (h : find Organization.id db.organizations candidate.organizationId = some organization)
      (hteam : organization.kind = .team) :
      Proceeds platform db env (.readOrganization user tokenHash now candidate)
        (.consumeInvite user tokenHash now) db
  | consumeInvite {user : UserIdentity} {tokenHash : String} {now : ℕ} {row : Invite}
      (h : findInvite db tokenHash user.email now = some row) :
      Proceeds platform db env (.consumeInvite user tokenHash now)
        (.joinOrganization user now row.invitation)
        { db with
          invites := update Invite.tokenHash db.invites tokenHash fun row =>
            { row with consumedAt := some now } }
  | updateMemberRole {actorUserId : Uuid} {organizationId memberUserId : String} {role : Role}
      (h : checkManager db actorUserId organizationId env.now = .ok ())
      (hrole : isInviteRole role = true) :
      Proceeds platform db env (.updateMemberRole actorUserId organizationId memberUserId role)
        (.readForUpdate organizationId memberUserId role) db
  | readForUpdate {organizationId memberUserId : String} {role : Role} {existing : Membership}
      (h : find Membership.key db.memberships (organizationId, memberUserId) = some existing)
      (howner : existing.role ≠ .owner) :
      Proceeds platform db env (.readForUpdate organizationId memberUserId role)
        (.writeRole organizationId memberUserId role) db
  | removeMember {actorUserId : Uuid} {organizationId memberUserId : String}
      (h : checkManager db actorUserId organizationId env.now = .ok ()) :
      Proceeds platform db env (.removeMember actorUserId organizationId memberUserId)
        (.readForRemoval organizationId memberUserId) db
  | readForRemoval {organizationId memberUserId : String} {existing : Membership}
      (h : find Membership.key db.memberships (organizationId, memberUserId) = some existing)
      (howner : existing.role ≠ .owner) :
      Proceeds platform db env (.readForRemoval organizationId memberUserId)
        (.deleteMember organizationId memberUserId) db

/-- What a call that goes on has found. -/
theorem proceeds_of_resume {platform : Platform} {db db' : Database} {env : Ambient}
    {call next : Call} (h : resume platform db env call = (db', .awaits next)) :
    Proceeds platform db env call next db' := by
  cases call with
  | createInvite userId organizationId email role =>
    simp only [resume, runCreateInvite] at h
    split at h
    · cases h
    · next hchecked =>
      cases h
      exact .createInvite hchecked
  | acceptInvite user token =>
    simp only [resume, runAcceptInvite] at h
    split at h
    · cases h
    · split at h
      · cases h
      · next hrow =>
        cases h
        exact .acceptInvite hrow
  | readOrganization user tokenHash now candidate =>
    simp only [resume, runReadOrganization] at h
    split at h
    · cases h
    · next organization hfind =>
      split at h
      · cases h
      · next hteam =>
        split at h
        · cases h
        · cases h
          exact .readOrganization hfind (not_not.mp hteam)
  | consumeInvite user tokenHash now =>
    simp only [resume, runConsumeInvite] at h
    split at h
    · cases h
    · next hrow =>
      cases h
      exact .consumeInvite hrow
  | updateMemberRole actorUserId organizationId memberUserId role =>
    simp only [resume, runUpdateMemberRole] at h
    split at h
    · cases h
    · next hmanager =>
      split at h
      · cases h
      · next hrole =>
        cases h
        exact .updateMemberRole hmanager (by simpa using hrole)
  | readForUpdate organizationId memberUserId role =>
    simp only [resume, runReadForUpdate] at h
    split at h
    · cases h
    · next existing hfind =>
      split at h
      · cases h
      · next howner =>
        cases h
        exact .readForUpdate hfind howner
  | removeMember actorUserId organizationId memberUserId =>
    simp only [resume, runRemoveMember] at h
    split at h
    · cases h
    · next hmanager =>
      cases h
      exact .removeMember hmanager
  | readForRemoval organizationId memberUserId =>
    simp only [resume, runReadForRemoval] at h
    split at h
    · cases h
    · next existing hfind =>
      split at h
      · cases h
      · next howner =>
        cases h
        exact .readForRemoval hfind howner
  | createOrganization userId name =>
    simp only [resume, runCreateOrganization] at h
    split at h
    · cases h
    · split at h <;> cases h
  | insertInvite row =>
    simp only [resume, runInsertInvite] at h
    split at h
    · split at h <;> cases h
    · cases h
  | joinOrganization user now consumed =>
    simp only [resume, runJoinOrganization] at h
    split at h <;> cases h
  | ensurePersonalOrganization | writeRole | deleteMember => cases h

theorem exists_proceeds {platform : Platform} {db : Database} {env : Ambient} {call next : Call}
    (h : (resume platform db env call).2 = .awaits next) :
    ∃ db', (resume platform db env call).1 = db' ∧ Proceeds platform db env call next db' :=
  ⟨_, rfl, proceeds_of_resume (Prod.ext rfl h)⟩

/-! ### Calls that only read -/

section Calls

variable {platform : Platform} {db : Database} {env : Ambient} {call : Call}

/-- The calls that check or read before they write leave the database alone. -/
def Call.onlyReads : Call → Bool
  | .createInvite .. => true
  | .acceptInvite .. => true
  | .readOrganization .. => true
  | .updateMemberRole .. => true
  | .readForUpdate .. => true
  | .removeMember .. => true
  | .readForRemoval .. => true
  | _ => false

/-- Calls that only read leave the database as it is. -/
theorem resume_of_onlyReads (h : call.onlyReads = true) : (resume platform db env call).1 = db := by
  cases call with
  | createInvite userId organizationId email role =>
    simp only [resume, runCreateInvite]
    split <;> rfl
  | acceptInvite user token =>
    simp only [resume, runAcceptInvite]
    split
    · rfl
    · split <;> rfl
  | readOrganization user tokenHash now candidate =>
    simp only [resume, runReadOrganization]
    split
    · rfl
    · split
      · rfl
      · split <;> rfl
  | updateMemberRole actorUserId organizationId memberUserId role =>
    simp only [resume, runUpdateMemberRole]
    split
    · rfl
    · split <;> rfl
  | readForUpdate organizationId memberUserId role =>
    simp only [resume, runReadForUpdate]
    split
    · rfl
    · split <;> rfl
  | removeMember actorUserId organizationId memberUserId =>
    simp only [resume, runRemoveMember]
    split <;> rfl
  | readForRemoval organizationId memberUserId =>
    simp only [resume, runReadForRemoval]
    split
    · rfl
    · split <;> rfl
  | _ => cases h

/-- What the statement of a call can leave in the tables. -/
inductive Writes (db : Database) (env : Ambient) : Call → Database → Prop
  | nothing {call : Call} : Writes db env call db
  | ensurePersonalOrganization {userId : Uuid} : Writes db env (.ensurePersonalOrganization userId)
      (runEnsurePersonalOrganization db userId env.now).1
  | createOrganization {userId : Uuid} {name : String} {o : Organization}
      (h : o.id = "org_" ++ removeDashes env.uuid.text) :
      Writes db env (.createOrganization userId name) { db with
        organizations := db.organizations ++ [o]
        memberships := db.memberships ++ [ownerMembership o.id userId.text env.now] }
  | insertInvite {row : Invite} :
      Writes db env (.insertInvite row) { db with invites := db.invites ++ [row] }
  | consumeInvite {user : UserIdentity} {tokenHash : String} {now : ℕ} :
      Writes db env (.consumeInvite user tokenHash now) { db with
        invites := update Invite.tokenHash db.invites tokenHash
          fun row => { row with consumedAt := some now } }
  | joinOrganization {user : UserIdentity} {now : ℕ} {consumed : Invitation} :
      Writes db env (.joinOrganization user now consumed) { db with
        memberships := upsert Membership.key db.memberships
          ⟨consumed.organizationId, user.id.text, consumed.role, now, now⟩
          fun row => { row with role := consumed.role, updatedAt := now } }
  | writeRole {organizationId memberUserId : String} {role : Role} :
      Writes db env (.writeRole organizationId memberUserId role)
        (runWriteRole db organizationId memberUserId role env.now).1
  | deleteMember {organizationId memberUserId : String} :
      Writes db env (.deleteMember organizationId memberUserId)
        (runDeleteMember db organizationId memberUserId).1

/-- What each call can write. -/
theorem writes_resume {db' : Database} (h : (resume platform db env call).1 = db') :
    Writes db env call db' := by
  subst h
  by_cases hreads : call.onlyReads = true
  · rw [resume_of_onlyReads hreads]
    exact .nothing
  · cases call with
    | ensurePersonalOrganization userId => exact .ensurePersonalOrganization
    | createOrganization userId name =>
      simp only [resume, runCreateOrganization]
      split
      · exact .nothing
      · split
        · next horgs hmembers =>
          obtain ⟨-, rfl⟩ := insert_eq_some.mp horgs
          obtain ⟨-, rfl⟩ := insert_eq_some.mp hmembers
          exact .createOrganization rfl
        · exact .nothing
    | insertInvite row =>
      simp only [resume, runInsertInvite]
      split
      · split
        · next hinsert =>
          obtain ⟨-, rfl⟩ := insert_eq_some.mp hinsert
          exact .insertInvite
        · exact .nothing
      · exact .nothing
    | consumeInvite user tokenHash now =>
      simp only [resume, runConsumeInvite]
      split
      · exact .nothing
      · exact .consumeInvite
    | joinOrganization user now consumed =>
      simp only [resume, runJoinOrganization]
      split
      · exact .joinOrganization
      · exact .nothing
    | writeRole organizationId memberUserId role => exact .writeRole
    | deleteMember organizationId memberUserId => exact .deleteMember
    | _ => exact absurd rfl hreads

end Calls

/-! ### What a task waits for next -/

/-- What a route goes on to from `getNodeAccess`. -/
theorem proceed_cases {userId : Uuid} {nodeId organizationId : String}
    {access : OrganizationAccess} {purpose : NodePurpose} {next : Task}
    (h : purpose.proceed userId nodeId organizationId access = .awaits next) :
    next = .removeNode userId nodeId organizationId ∨
      next = .removeDirectConfig userId nodeId organizationId ∨
      (∃ input, next = .forward nodeId organizationId input) ∨
      ∃ purpose', next = .nodeAccess userId nodeId purpose' := by
  cases purpose with
  | deleteNode =>
    cases h
    exact .inl rfl
  | directConfig remove =>
    simp only [NodePurpose.proceed] at h
    split at h
    · cases h
    · split at h
      · cases h
        exact .inr (.inl rfl)
      · cases h
  | relay route body =>
    simp only [NodePurpose.proceed, proxyBrowserRelay] at h
    split at h
    · cases h
    · split at h
      · cases h
      · split at h
        · cases h
          exact .inr (.inr (.inl ⟨_, rfl⟩))
        · cases h
          exact .inr (.inr (.inl ⟨_, rfl⟩))
        · cases h
  | capabilities requested remaining managed body =>
    simp only [NodePurpose.proceed] at h
    split at h
    · split at h
      · cases h
      · cases h
        exact .inr (.inr (.inl ⟨_, rfl⟩))
    · cases h
      exact .inr (.inr (.inr ⟨_, rfl⟩))

/-- The task executes a statement that ends in the world `w'` and leaves it waiting as `next`. -/
inductive Continues (platform : ControllerPlatform) (w : World) (env : Ambient) :
    Task → Task → World → Prop
  | access {call call' : Call} (h : (resume platform.toPlatform w.db env call).2 = .awaits call') :
      Continues platform w env (.access call) (.access call')
        (runAccess platform.toPlatform w env call).1
  | deleteOrganization {userId : Uuid} {organizationId : String} {access : OrganizationAccess}
      (h : requireOrganizationAction w.db userId.text organizationId .organizationManage env.now =
        .ok access)
      (hkind : access.kind ≠ .personal) :
      Continues platform w env (.deleteOrganization userId organizationId)
        (.removeOrganization userId organizationId)
        (w.record [.authorized userId.text organizationId .organizationManage])
  | registerNode {userId : Uuid} {organizationId : String} {node : Registration}
      {access : OrganizationAccess}
      (h : requireOrganizationAction w.db userId.text organizationId .nodeManage env.now =
        .ok access) :
      Continues platform w env (.registerNode userId organizationId node)
        (.readExisting userId organizationId node)
        (w.record [.authorized userId.text organizationId .nodeManage])
  | readExisting {userId : Uuid} {organizationId : String} {node : Registration}
      (h : (w.tables.nodeOrganization node.id).all (· = organizationId) = true) :
      Continues platform w env (.readExisting userId organizationId node)
        (.writeNode userId organizationId node) w
  | nodeAccess {userId : Uuid} {nodeId organizationId : String} {purpose : NodePurpose}
      (h : w.tables.nodeOrganization nodeId = some organizationId) :
      Continues platform w env (.nodeAccess userId nodeId purpose)
        (.checkAccess userId nodeId organizationId purpose)
        (w.record [.ownerRead nodeId organizationId])
  | checkAccess {userId : Uuid} {nodeId organizationId : String} {purpose : NodePurpose}
      {action : Action} {access : OrganizationAccess} {next : Task}
      (haction : purpose.action = .ok action)
      (haccess : requireOrganizationAction w.db userId.text organizationId action env.now =
        .ok access)
      (hnext : purpose.proceed userId nodeId organizationId access = .awaits next) :
      Continues platform w env (.checkAccess userId nodeId organizationId purpose) next
        (w.record [.authorized userId.text organizationId action])
  | connectNodeRelay {nodeId token : String} {upgrade : Bool} {bearer version : Option String}
      (h : orNull ((w.tables.findNode nodeId).bind Node.relayTokenHash) =
        some (platform.sha256 token)) :
      Continues platform w env (.connectNodeRelay nodeId upgrade bearer version)
        (.touchNode nodeId (platform.sha256 token) version) w
  | touchNode {nodeId tokenHash : String} {version : Option String} :
      Continues platform w env (.touchNode nodeId tokenHash version) (.openSocket nodeId tokenHash)
        { w with tables := w.tables.touchNode nodeId version env.now }
  | startOAuth {provider : Provider} {returnTo codeChallenge : String} :
      Continues platform w env (.startOAuth provider returnTo codeChallenge)
        (.insertState provider returnTo codeChallenge)
        { w with identity := w.identity.deleteExpired env.now,
                 db := w.db.deleteExpiredInvites env.now }
  | finishOAuth {provider : Provider} {state code userId : String} {configured : Bool}
      {user : Option String} {row : OAuthState}
      (h : w.identity.findState (platform.sha256 state) provider env.now = some row) :
      Continues platform w env (.finishOAuth provider state code configured user)
        (.insertAuthCode userId provider row.codeChallenge)
        ({ w with identity := w.identity.removeState (platform.sha256 state) }.record
          [.redeemed (.oauthState (platform.sha256 state)) env.now env.now row.expiresAt])
  | exchangeAuthCode {code verifier : String} :
      Continues platform w env (.exchangeAuthCode code verifier)
        (.consumeAuthCode code verifier env.now) w
  | consumeAuthCode {code verifier : String} {bound : ℕ} {row : AuthCode}
      (h : w.identity.findAuthCode (platform.sha256 code) (platform.sha256Base64Url verifier)
        bound = some row) :
      Continues platform w env (.consumeAuthCode code verifier bound) (.insertSession row.userId)
        ({ w with identity := w.identity.consumeAuthCode (platform.sha256 code) bound }.record
          [.redeemed (.authCode (platform.sha256 code)) bound env.now row.expiresAt])

variable {platform : ControllerPlatform}

/-- What a task that goes on has found and written. -/
theorem continues_of_resume {w w' : World} {env : Ambient}
    {task next : Task} (h : task.resume platform w env = (w', .awaits next)) :
    Continues platform w env task next w' := by
  cases task with
  | access call =>
    obtain ⟨rfl, hnext⟩ := Prod.mk.inj h
    cases hresult : (resume platform.toPlatform w.db env call).2 with
    | awaits call' =>
      rw [hresult] at hnext
      cases hnext
      simpa [runAccess, hresult] using Continues.access hresult
    | returned | threw => rw [hresult] at hnext; cases hnext
  | deleteOrganization userId organizationId =>
    simp only [Task.resume, runDeleteOrganization] at h
    split at h
    · cases h
    · next haccess =>
      split at h
      · cases h
      · next hkind =>
        cases h
        exact .deleteOrganization haccess hkind
  | registerNode userId organizationId node =>
    simp only [Task.resume, runRegisterNode] at h
    split at h
    · cases h
    · next haccess =>
      split at h
      · cases h
      · cases h
        exact .registerNode haccess
  | readExisting userId organizationId node =>
    simp only [Task.resume, runReadExisting] at h
    split at h
    · next howner =>
      cases h
      exact .readExisting howner
    · cases h
  | nodeAccess userId nodeId purpose =>
    simp only [Task.resume, runNodeAccess] at h
    split at h
    · cases h
    · split at h
      · cases h
      · next howner =>
        cases h
        exact .nodeAccess howner
  | checkAccess userId nodeId organizationId purpose =>
    simp only [Task.resume, runCheckAccess] at h
    split at h
    · cases h
    · next haction =>
      split at h
      · cases h
      · next haccess =>
        obtain ⟨rfl, hnext⟩ := Prod.mk.inj h
        exact .checkAccess haction haccess hnext
  | connectNodeRelay nodeId upgrade bearer version =>
    simp only [Task.resume, runConnectNodeRelay] at h
    split at h
    · cases h
    · split at h
      · cases h
      · split at h
        · cases h
        · split at h
          · next htoken =>
            cases h
            exact .connectNodeRelay htoken
          · cases h
  | touchNode nodeId tokenHash version =>
    cases h
    exact .touchNode
  | startOAuth provider returnTo codeChallenge =>
    simp only [Task.resume, runStartOAuth] at h
    split at h
    · cases h
      exact .startOAuth
    · cases h
  | finishOAuth provider state code configured user =>
    simp only [Task.resume, runFinishOAuth] at h
    split at h
    · cases h
    · next row hrow =>
      obtain ⟨rfl, hnext⟩ := Prod.mk.inj h
      split at hnext
      · cases hnext
      · split at hnext
        · cases hnext
        · cases hnext
          exact .finishOAuth hrow
  | exchangeAuthCode code verifier =>
    simp only [Task.resume, runExchangeAuthCode] at h
    split at h
    · cases h
    · split at h
      · cases h
      · cases h
        exact .exchangeAuthCode
  | consumeAuthCode code verifier bound =>
    simp only [Task.resume, runConsumeAuthCode] at h
    split at h
    · cases h
    · next row hrow =>
      cases h
      exact .consumeAuthCode hrow
  | organizationRoute userId organizationId action =>
    simp only [Task.resume, runOrganizationRoute] at h
    split at h <;> cases h
  | writeNode userId organizationId node =>
    simp only [Task.resume, runWriteNode] at h
    split at h
    · cases h
    · obtain ⟨-, hnext⟩ := Prod.mk.inj h
      split at hnext <;> cases hnext
  | insertState provider returnTo codeChallenge =>
    simp only [Task.resume, runInsertState] at h
    split at h <;> cases h
  | insertAuthCode userId provider codeChallenge =>
    simp only [Task.resume, runInsertAuthCode] at h
    split at h <;> cases h
  | insertSession userId =>
    simp only [Task.resume, runInsertSession] at h
    split at h <;> cases h
  | removeOrganization | removeNode | removeDirectConfig | forward | openSocket | logout => cases h

/-! ### Steps -/

/-- The event executes the next statement of the running request. -/
def System.Executes (s : System) (e : SystemEvent) (running : Running) : Prop :=
  ∃ i env, e = .resume i env ∧ s.inflight[i]? = some running

namespace System

variable {platform : ControllerPlatform} {s s' : System} {e : SystemEvent}

/-- What a step can do: a request arrives, a request executes a statement, or a relay object
acts by itself. -/
theorem step_cases (h : s.step platform e = some s') :
    (∃ task, e = .request task ∧ task.isRequest = true ∧ s'.world = s.world ∧
      s'.inflight = s.inflight ++ [⟨s.world.history.length, task⟩]) ∨
    (∃ i env running, e = .resume i env ∧ s.inflight[i]? = some running ∧
      s'.world = (running.task.resume platform s.world env).1 ∧
      ∀ r ∈ s'.inflight, r ∈ s.inflight ∨
        ∃ next, Continues platform s.world env running.task next s'.world ∧
          r = { running with task := next }) ∨
    (∃ nodeId event relay, e = .relay nodeId event ∧
      (s.world.relays nodeId).step platform.numberText event.event = some relay ∧
      s' = { s with world := { s.world with
        relays := Function.update s.world.relays nodeId relay } }) ∨
    (∃ nodeId call id sends world, e = .body nodeId call id sends ∧
      s.world.receiveBody platform nodeId call id sends = some world ∧
      s' = { s with world }) := by
  cases e with
  | request task =>
    simp only [step] at h
    split at h
    · next hrequest =>
      obtain rfl := Option.some.inj h
      exact .inl ⟨task, rfl, hrequest, rfl, rfl⟩
    · cases h
  | resume i env =>
    simp only [step] at h
    split at h
    · cases h
    · next running hrunning =>
      obtain rfl := Option.some.inj h
      refine .inr (.inl ⟨i, env, running, rfl, hrunning, rfl, fun r hr => ?_⟩)
      split at hr
      · next next hnext =>
        obtain hr | rfl := mem_or_eq_of_mem_set hr
        · exact .inl hr
        · exact .inr ⟨next, continues_of_resume (Prod.ext rfl hnext), rfl⟩
      · exact .inl (mem_of_mem_eraseIdx hr)
  | relay nodeId event =>
    obtain ⟨relay, hrelay, rfl⟩ := Option.map_eq_some_iff.mp h
    exact .inr (.inr (.inl ⟨nodeId, event, relay, rfl, hrelay, rfl⟩))
  | body nodeId call id sends =>
    obtain ⟨world, hworld, rfl⟩ := Option.map_eq_some_iff.mp h
    exact .inr (.inr (.inr ⟨nodeId, call, id, sends, world, rfl, hworld, rfl⟩))

end System

/-- What a relay request does to the world when its body arrives. -/
theorem World.receiveBody_eq_some {w w' : World}
    {nodeId : String} {call : ForwardCall} {id : String} {sends : Bool}
    (h : w.receiveBody platform nodeId call id sends = some w') :
    ∃ origin relay, w.origin nodeId call.waiter = some origin ∧
      (w.relays nodeId).step platform.numberText (.body call (some origin.input) id sends) =
        some relay ∧
      w' = { w with relays := Function.update w.relays nodeId relay }.record
        ((relay.sent.drop (w.relays nodeId).sent.length).map fun sent : Sent =>
          Entry.forwarded nodeId origin.organizationId (w.tables.findNode nodeId)
            (w.socketTokens nodeId)[sent.socket]?) := by
  simp only [World.receiveBody, Option.bind_eq_bind, Option.bind_eq_some_iff, Option.pure_def,
    Option.some.injEq] at h
  obtain ⟨origin, horigin, relay, hrelay, rfl⟩ := h
  exact ⟨origin, relay, horigin, hrelay, rfl⟩

/-- The record of a run only grows. -/
theorem System.history_step {s s' : System} {e : SystemEvent}
    (h : s.step platform e = some s') : s.world.history <+: s'.world.history := by
  obtain ⟨task, -, -, hworld, -⟩ | ⟨i, env, running, -, -, hworld, -⟩ |
    ⟨nodeId, event, relay, -, -, rfl⟩ | ⟨nodeId, call, id, sends, world, -, hworld, rfl⟩ :=
    step_cases h
  · rw [hworld]
  · rw [hworld]
    exact history_resume platform s.world env running.task
  · exact prefix_rfl
  · obtain ⟨origin, relay, -, -, rfl⟩ := World.receiveBody_eq_some hworld
    exact prefix_append ..

end AgentSight.Controller
