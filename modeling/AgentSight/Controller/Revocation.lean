import AgentSight.Controller.SingleUse

/-!
# What a removed member can still do

A check of the controller reads the membership and nothing else, so what a removal or a lower
role takes away comes back only when a membership is written again: by the acceptance of an
invitation, by another change of the role, or with a new organization. An invitation that was
issued before the removal is not revoked by it, and a request that has passed its check goes on
(`restored_by_old_invite`).
-/

namespace AgentSight.Controller

open KeyedTable Transition List

/-! ### The rows that a call writes -/

/-- A membership that the next statement of the call adds or changes. -/
inductive Yields (db : Database) (env : Ambient) : Call → Membership → Prop
  | ensurePersonalOrganization {userId : Uuid} : Yields db env (.ensurePersonalOrganization userId)
        (ownerMembership (personalOrganizationId userId.text) userId.text env.now)
  | createOrganization {userId : Uuid} {name : String} :
      Yields db env (.createOrganization userId name)
        (ownerMembership ("org_" ++ removeDashes env.uuid.text) userId.text env.now)
  | joinOrganization {user : UserIdentity} {now : ℕ} {consumed : Invitation} {m : Membership}
      (h : m.key = (consumed.organizationId, user.id.text)) :
      Yields db env (.joinOrganization user now consumed) m
  | writeRole {organizationId memberUserId : String} {role : Role} {m : Membership}
      (hm : m ∈ db.memberships) (h : m.key = (organizationId, memberUserId)) :
      Yields db env (.writeRole organizationId memberUserId role)
        { m with role, updatedAt := env.now }

variable {m : Membership}

section Rows

variable {platform : Platform} {db : Database} {env : Ambient} {call : Call}

theorem yields_of_mem (h : m ∈ (resume platform db env call).1.memberships) :
    m ∈ db.memberships ∨ Yields db env call m := by
  generalize hdb : (resume platform db env call).1 = db' at h
  cases writes_resume hdb with
  | ensurePersonalOrganization =>
    obtain h | rfl := mem_insertOrIgnore h
    · exact .inl h
    · exact .inr .ensurePersonalOrganization
  | createOrganization hid =>
    obtain h | h := mem_append.mp h
    · exact .inl h
    · rw [mem_singleton.mp h, hid]
      exact .inr .createOrganization
  | joinOrganization =>
    obtain h | h := mem_upsert (by intro m; rfl) h
    · exact .inl h
    · exact .inr (.joinOrganization h)
  | writeRole =>
    obtain ⟨h, -⟩ | ⟨m, hm, hkey, rfl⟩ := mem_update.mp h
    · exact .inl h
    · exact .inr (.writeRole hm hkey)
  | deleteMember => exact .inl (mem_delete.mp h).1
  | _ => exact .inl h

/-- An organization that was there, or one that the call creates. -/
theorem organization_cases {o : Organization}
    (h : o ∈ (resume platform db env call).1.organizations) :
    o ∈ db.organizations ∨ o.kind = .personal ∨ o.id = "org_" ++ removeDashes env.uuid.text := by
  generalize hdb : (resume platform db env call).1 = db' at h
  cases writes_resume hdb with
  | ensurePersonalOrganization =>
    obtain h | rfl := mem_insertOrIgnore h
    · exact .inl h
    · exact .inr (.inl rfl)
  | createOrganization hid =>
    obtain h | h := mem_append.mp h
    · exact .inl h
    · rw [mem_singleton.mp h]
      exact .inr (.inr hid)
  | _ => exact .inl h

/-- An invitation that was there, consumed or not, or the row to be inserted. -/
theorem invite_cases {row : Invite} (h : row ∈ (resume platform db env call).1.invites) :
    (∃ old ∈ db.invites, row = { old with consumedAt := row.consumedAt }) ∨
      call = .insertInvite row := by
  generalize hdb : (resume platform db env call).1 = db' at h
  cases writes_resume hdb with
  | insertInvite =>
    obtain h | h := mem_append.mp h
    · exact .inl ⟨row, h, rfl⟩
    · rw [mem_singleton.mp h]
      exact .inr rfl
  | consumeInvite =>
    obtain ⟨h, -⟩ | ⟨old, hold, -, rfl⟩ := mem_update.mp h
    · exact .inl ⟨row, h, rfl⟩
    · exact .inl ⟨old, hold, rfl⟩
  | _ => exact .inl ⟨row, h, rfl⟩

/-- Only the deletion of a membership removes its key. -/
theorem exists_membership_resume (hm : m ∈ db.memberships)
    (hkept : ∀ organizationId memberUserId, call = .deleteMember organizationId memberUserId →
      m.key ≠ (organizationId, memberUserId)) :
    ∃ m' ∈ (resume platform db env call).1.memberships, m'.key = m.key := by
  generalize hdb : (resume platform db env call).1 = db'
  cases writes_resume hdb with
  | ensurePersonalOrganization => exact ⟨m, mem_insertOrIgnore_of_mem hm, rfl⟩
  | createOrganization => exact ⟨m, mem_append_left _ hm, rfl⟩
  | joinOrganization => exact exists_mem_upsert (by intro m; rfl) hm
  | writeRole => exact exists_mem_update (by intro m; rfl) hm
  | deleteMember => exact ⟨m, mem_delete.mpr ⟨hm, hkept _ _ rfl⟩, rfl⟩
  | _ => exact ⟨m, hm, rfl⟩

end Rows

/-! ### Checks -/

section Checks

variable {db : Database} {organizationId : String} {now : ℕ} {access : OrganizationAccess}

/-- A check that passes has found the organization and a membership whose role allows it. -/
theorem of_requireOrganizationAction {userId : String} {action : Action}
    (h : requireOrganizationAction db userId organizationId action now = .ok access) :
    (∃ o ∈ db.organizations, o.id = organizationId ∧ o.kind = access.kind) ∧
      ∃ m ∈ db.memberships, m.key = (organizationId, userId) ∧ roleAllows m.role action = true := by
  simp only [requireOrganizationAction] at h
  split at h
  · cases h
  · next found hfound =>
    split at h
    · next hallows =>
      obtain rfl := Except.ok.inj h
      simp only [getOrganizationAccess, Option.bind_eq_bind, Option.bind_eq_some_iff,
        Option.pure_def, Option.some.injEq] at hfound
      obtain ⟨o, ho, m, hm, rfl⟩ := hfound
      exact ⟨⟨o, (mem_of_find ho).1, (mem_of_find ho).2, rfl⟩,
        m, (mem_of_find hm).1, (mem_of_find hm).2, hallows⟩
    · cases h

/-- Who may invite to an organization manages its members, and it is not a personal one. -/
theorem of_checkInvite {platform : Platform} {userId : Uuid} {email normalizedEmail : String}
    {role : Role}
    (h : checkInvite platform db userId organizationId email role now = .ok normalizedEmail) :
    ∃ access, access.kind = .team ∧
      requireOrganizationAction db userId.text organizationId .memberManage now = .ok access := by
  unfold checkInvite at h
  cases haccess : requireOrganizationAction db userId.text organizationId .memberManage now with
  | error e => simp [haccess, bind, Except.bind] at h
  | ok access =>
    refine ⟨access, ?_, rfl⟩
    by_contra hkind
    simp only [haccess, hkind, bind, Except.bind, throw, throwThe, MonadExceptOf.throw, ne_eq,
      not_false_eq_true, if_true] at h
    split at h <;> cases h

theorem of_checkManager {actorUserId : Uuid} (h : checkManager db actorUserId organizationId now =
      .ok ()) :
    ∃ access, requireOrganizationAction db actorUserId.text organizationId .memberManage now =
        .ok access := by
  unfold checkManager at h
  cases haccess : requireOrganizationAction db actorUserId.text organizationId .memberManage
    now with
  | error e => simp [haccess, bind, Except.bind] at h
  | ok access => exact ⟨access, rfl⟩

end Checks

/-! ### What holds of every state -/

/-- The membership is not the one of a user in the user's personal organization. -/
def NotPersonal (organizationId userId : String) : Prop :=
  ∀ u : Uuid, organizationId = personalOrganizationId u.text → userId ≠ u.text

/-- The invitation was created by a request of its inviter, earlier in the run from `s₀`, whose
check found that the inviter manages the members of the team organization. -/
def System.Created (platform : ControllerPlatform) (s s₀ : System) (row : Invite) : Prop :=
  ∃ (s' s'' : System) (i : ℕ) (env : Ambient) (running : Running) (inviter : Uuid)
    (email : String) (access : OrganizationAccess),
    Reaches (System.step platform) always s₀ s' ∧ s'.inflight[i]? = some running ∧
      running.task = .access (.createInvite inviter row.organizationId email row.role) ∧
      requireOrganizationAction s'.world.db inviter.text row.organizationId .memberManage env.now =
        .ok access ∧ access.kind = .team ∧
      row.invitedByUserId = inviter.text ∧ row.tokenHash = platform.sha256 env.token ∧
      s'.step platform (.resume i env) = some s'' ∧ Reaches (System.step platform) always s'' s

section Grounded

variable (platform : ControllerPlatform) (s s₀ : System)

/-- What a task in flight rests on. -/
def Task.Grounded : Task → Prop
  | .access (.insertInvite row) => s.Created platform s₀ row
  | .access (.joinOrganization _ _ consumed) =>
    ∃ row, row.invitation = consumed ∧ s.Created platform s₀ row
  | .access (.writeRole organizationId memberUserId _) => NotPersonal organizationId memberUserId
  | .access (.readForRemoval organizationId memberUserId) =>
    NotPersonal organizationId memberUserId ∨
      ∃ m ∈ s.world.db.memberships, m.key = (organizationId, memberUserId)
  | .access (.deleteMember organizationId memberUserId) => NotPersonal organizationId memberUserId
  | .removeOrganization _ organizationId =>
    ∀ u : Uuid, organizationId ≠ personalOrganizationId u.text
  | _ => True

/-- A personal organization has its user as its only member, for good, and every invitation
was created by a user who could invite. -/
structure System.Grounded : Prop where
  reached : Reaches (System.step platform) always s₀ s
  members : ∀ m ∈ s.world.db.memberships, ∀ u : Uuid,
    m.organizationId = personalOrganizationId u.text → m.userId = u.text ∧ m.role = .owner
  invites : ∀ row ∈ s.world.db.invites, s.Created platform s₀ row
  tasks : ∀ running ∈ s.inflight, running.task.Grounded platform s s₀

end Grounded

/-! ### What a step does to the database -/

/-- At most invitations go. -/
structure Database.Rests (db' db : Database) : Prop where
  organizations : db'.organizations = db.organizations
  memberships : db'.memberships = db.memberships
  invites : db'.invites ⊆ db.invites

theorem Database.rests_refl (db : Database) : db.Rests db := ⟨rfl, rfl, fun _ h => h⟩

variable {entitlements : List Entitlement} {organizationId : String}

section Steps

variable {platform : ControllerPlatform}

theorem db_resume (w : World) (env : Ambient) (task : Task) :
    (∃ call, task = .access call ∧ (task.resume platform w env).1.db =
      (resume platform.toPlatform w.db env call).1) ∨
    (∃ userId organizationId, task = .removeOrganization userId organizationId ∧
      (task.resume platform w env).1.db = w.db.deleteOrganization organizationId) ∨
    (task.resume platform w env).1.db.Rests w.db := by
  cases hkind : task.kind with
  | reads =>
    obtain ⟨entries, -, hworld⟩ := resume_of_reads platform w env hkind
    rw [hworld]
    exact .inr (.inr (Database.rests_refl _))
  | store =>
    cases task with
    | access call => exact .inl ⟨call, rfl, rfl⟩
    | startOAuth provider returnTo codeChallenge =>
      simp only [Task.resume, runStartOAuth]
      split
      · exact .inr (.inr ⟨rfl, rfl, filter_subset_self _⟩)
      · exact .inr (.inr (Database.rests_refl _))
    | insertState provider returnTo codeChallenge =>
      simp only [Task.resume, runInsertState]
      split <;> exact .inr (.inr (Database.rests_refl _))
    | finishOAuth provider state code configured user =>
      simp only [Task.resume, runFinishOAuth]
      split <;> exact .inr (.inr (Database.rests_refl _))
    | insertAuthCode userId provider codeChallenge =>
      simp only [Task.resume, runInsertAuthCode]
      split <;> exact .inr (.inr (Database.rests_refl _))
    | consumeAuthCode code verifier bound =>
      simp only [Task.resume, runConsumeAuthCode]
      split <;> exact .inr (.inr (Database.rests_refl _))
    | insertSession userId =>
      simp only [Task.resume, runInsertSession]
      split <;> exact .inr (.inr (Database.rests_refl _))
    | logout => exact .inr (.inr (Database.rests_refl _))
    | _ => cases hkind
  | tables =>
    cases task with
    | removeOrganization userId organizationId =>
      exact .inr (.inl ⟨userId, organizationId, rfl, rfl⟩)
    | writeNode userId organizationId node =>
      simp only [Task.resume, runWriteNode]
      split <;> exact .inr (.inr (Database.rests_refl _))
    | removeNode | removeDirectConfig | touchNode => exact .inr (.inr (Database.rests_refl _))
    | _ => cases hkind
  | relay =>
    cases task with
    | forward | openSocket => exact .inr (.inr (Database.rests_refl _))
    | _ => cases hkind

variable {s s' : System} {e : SystemEvent}

theorem db_step (h : s.step platform e = some s') :
    (∃ i env running call, e = .resume i env ∧ s.inflight[i]? = some running ∧
      running.task = .access call ∧
      s'.world.db = (resume platform.toPlatform s.world.db env call).1) ∨
    (∃ running userId organizationId, running ∈ s.inflight ∧
      running.task = .removeOrganization userId organizationId ∧
      s'.world.db = s.world.db.deleteOrganization organizationId) ∨
    s'.world.db.Rests s.world.db := by
  obtain ⟨task, -, -, hworld, -⟩ | ⟨i, env, running, rfl, hrunning, hworld, -⟩ |
    ⟨nodeId, event, relay, -, -, rfl⟩ | ⟨nodeId, call, id, sends, world, -, hworld, rfl⟩ :=
    System.step_cases h
  · rw [hworld]
    exact .inr (.inr (Database.rests_refl _))
  · rw [hworld]
    obtain ⟨call, hcall, hdb⟩ | ⟨userId, organizationId, htask, hdb⟩ | hrests :=
      db_resume s.world env running.task
    · exact .inl ⟨i, env, running, call, rfl, hrunning, hcall, hdb⟩
    · exact .inr (.inl ⟨running, userId, organizationId, mem_of_getElem? hrunning, htask, hdb⟩)
    · exact .inr (.inr hrests)
  · exact .inr (.inr (Database.rests_refl _))
  · obtain ⟨origin, relay, -, -, rfl⟩ := World.receiveBody_eq_some hworld
    exact .inr (.inr (Database.rests_refl _))

/-- An organization with a personal id is personal, in every state. -/
def System.PersonalKinds (s : System) : Prop :=
  ∀ o ∈ s.world.db.organizations, ∀ u : Uuid, o.id = personalOrganizationId u.text →
    o.kind = .personal

theorem System.PersonalKinds.step (h : s.PersonalKinds) (hs : s.step platform e = some s') :
    s'.PersonalKinds := by
  intro o ho u hid
  obtain ⟨i, env, running, call, -, -, -, hdb⟩ | ⟨running, userId, organizationId, -, -, hdb⟩ |
    hrests := db_step hs
  · rw [hdb] at ho
    obtain ho | hpersonal | hcreated := organization_cases ho
    · exact h o ho u hid
    · exact hpersonal
    · exact absurd (hcreated.symm.trans hid) (created_ne_personal env.uuid u)
  · rw [hdb] at ho
    exact h o (mem_delete.mp ho).1 u hid
  · rw [hrests.organizations] at ho
    exact h o ho u hid

theorem System.personalKinds
    (h : Reaches (System.step platform) always (System.init entitlements) s) : s.PersonalKinds :=
  h.invariant (fun _ ho => (not_mem_nil ho).elim) fun _ _ _ hi _ hstep => hi.step hstep

/-- Nobody can be invited to a personal organization. -/
theorem System.Created.not_personal {row : Invite}
    (h : s.Created platform (System.init entitlements) row) (u : Uuid) :
    row.organizationId ≠ personalOrganizationId u.text := by
  intro hrow
  obtain ⟨s', -, i, env, running, inviter, email, access, hs', -, -, haccess, hteam, -⟩ := h
  obtain ⟨⟨o, ho, hid, hkind⟩, -⟩ := of_requireOrganizationAction haccess
  have hpersonal := System.personalKinds hs' o ho u (hid.trans hrow)
  rw [hkind, hteam] at hpersonal
  cases hpersonal

end Steps

/-! ### The invariant -/

section Invariant

variable {platform : ControllerPlatform} {s₀ s s' : System} {e : SystemEvent}

theorem System.Created.step {row : Invite}
    (h : s.Created platform s₀ row) (hs : s.step platform e = some s') :
    s'.Created platform s₀ row := by
  obtain ⟨t, t', i, env, running, inviter, email, access, ht, hrunning, htask, haccess, hteam,
    hinviter, htoken, hstep, hreaches⟩ := h
  exact ⟨t, t', i, env, running, inviter, email, access, ht, hrunning, htask, haccess, hteam,
    hinviter, htoken, hstep, hreaches.tail trivial hs⟩

section

variable (h : s.Grounded platform s₀)
include h

/-- A membership of a user in the user's personal organization stays. -/
theorem System.Grounded.membership_kept
    (hs : s.step platform e = some s') (hm : m ∈ s.world.db.memberships)
    {u : Uuid} (hkey : m.key = (personalOrganizationId u.text, u.text)) :
    ∃ m' ∈ s'.world.db.memberships, m'.key = m.key := by
  obtain ⟨i, env, running, call, -, hrunning, hcall, hdb⟩ |
    ⟨running, userId, organizationId, hrunning, htask, hdb⟩ | hrests := db_step hs
  · rw [hdb]
    refine exists_membership_resume hm fun organizationId memberUserId hdelete heq => ?_
    have hground := h.tasks running (mem_of_getElem? hrunning)
    rw [hcall, hdelete] at hground
    obtain ⟨horganization, huser⟩ := Prod.mk.inj (hkey.symm.trans heq)
    exact hground u horganization.symm huser.symm
  · have hground := h.tasks running hrunning
    rw [htask] at hground
    refine ⟨m, ?_, rfl⟩
    rw [hdb]
    refine mem_filter.mpr ⟨hm, decide_eq_true fun heq => hground u ?_⟩
    exact heq.symm.trans (Prod.mk.inj hkey).1
  · rw [hrests.memberships]
    exact ⟨m, hm, rfl⟩

/-- What a task rests on survives a step. -/
theorem Task.Grounded.step (hs : s.step platform e = some s')
    {task : Task} (htask : task.Grounded platform s s₀) : task.Grounded platform s' s₀ := by
  cases task with
  | access call =>
    cases call with
    | insertInvite row => exact System.Created.step htask hs
    | joinOrganization user now consumed =>
      obtain ⟨row, hconsumed, hcreated⟩ := htask
      exact ⟨row, hconsumed, hcreated.step hs⟩
    | readForRemoval organizationId memberUserId =>
      obtain hother | ⟨m, hm, hkey⟩ := htask
      · exact .inl hother
      · by_cases hnot : NotPersonal organizationId memberUserId
        · exact .inl hnot
        · simp only [NotPersonal, not_forall, not_not, exists_prop] at hnot
          obtain ⟨u, rfl, rfl⟩ := hnot
          obtain ⟨m', hm', hkey'⟩ := h.membership_kept hs hm hkey
          exact .inr ⟨m', hm', hkey'.trans hkey⟩
    | writeRole | deleteMember => exact htask
    | _ => trivial
  | removeOrganization => exact htask
  | _ => trivial

theorem System.Grounded.notPersonal {userId : String}
    {existing : Membership}
    (hfind : find Membership.key s.world.db.memberships (organizationId, userId) = some existing)
    (howner : existing.role ≠ .owner) : NotPersonal organizationId userId := by
  obtain ⟨hmem, hkey⟩ := mem_of_find hfind
  intro u horganization _
  exact howner (h.members existing hmem u ((Prod.mk.inj hkey).1.trans horganization)).2

end

/-- What the next task rests on was just read. -/
theorem System.Grounded.next
    (h : s.Grounded platform (System.init entitlements)) {i : ℕ} {env : Ambient}
    (hs : s.step platform (.resume i env) = some s') {running : Running}
    (hrunning : s.inflight[i]? = some running) {task next : Task} (htask : running.task = task)
    {w' : World} (hworld : s'.world = w')
    (hcontinues : Continues platform s.world env task next w') :
    next.Grounded platform s' (System.init entitlements) := by
  cases hcontinues with
  | access hnext =>
    obtain ⟨db', hdb, hproceeds⟩ := exists_proceeds hnext
    cases hproceeds with
    | createInvite hchecked =>
      obtain ⟨access, hteam, haccess⟩ := of_checkInvite hchecked
      exact ⟨s, s', i, env, running, _, _, access, h.reached, hrunning, htask, haccess, hteam,
        rfl, rfl, hs, .refl⟩
    | consumeInvite hrow =>
      obtain ⟨hfind, -⟩ := Option.filter_eq_some_iff.mp hrow
      exact ⟨_, rfl, (h.invites _ (mem_of_find hfind).1).step hs⟩
    | readForUpdate hfind howner => exact h.notPersonal hfind howner
    | readForRemoval hfind howner => exact h.notPersonal hfind howner
    | @removeMember actorUserId organizationId memberUserId hmanager =>
      obtain ⟨access, haccess⟩ := of_checkManager hmanager
      obtain ⟨-, m, hm, hkey, -⟩ := of_requireOrganizationAction haccess
      by_cases hnot : NotPersonal organizationId memberUserId
      · exact .inl hnot
      · simp only [NotPersonal, not_forall, not_not, exists_prop] at hnot
        obtain ⟨u, rfl, rfl⟩ := hnot
        -- The actor is a member, and so the user itself.
        have huser := (h.members m hm u (Prod.mk.inj hkey).1).1
        refine .inr ⟨m, ?_, Prod.ext (Prod.mk.inj hkey).1 huser⟩
        rw [hworld]
        simpa [runAccess, World.record, hdb] using hm
    | _ => trivial
  | deleteOrganization haccess hkind =>
    obtain ⟨⟨o, ho, hid, hsame⟩, -⟩ := of_requireOrganizationAction haccess
    intro u hu
    exact hkind (hsame.symm.trans (System.personalKinds h.reached o ho u (hid.trans hu)))
  | checkAccess haction haccess hnext =>
    obtain rfl | rfl | ⟨input, rfl⟩ | ⟨purpose, rfl⟩ := proceed_cases hnext <;> trivial
  | _ => trivial

theorem System.grounded_init (platform : ControllerPlatform) (entitlements : List Entitlement) :
    (System.init entitlements).Grounded platform (System.init entitlements) where
  reached := .refl
  members _ h := (not_mem_nil h).elim
  invites _ h := (not_mem_nil h).elim
  tasks _ h := (not_mem_nil h).elim

theorem System.Grounded.members_step
    (h : s.Grounded platform (System.init entitlements)) (hs : s.step platform e = some s')
    (hm : m ∈ s'.world.db.memberships) {u : Uuid}
    (hu : m.organizationId = personalOrganizationId u.text) :
    m.userId = u.text ∧ m.role = .owner := by
  obtain ⟨i, env, running, call, -, hrunning, hcall, hdb⟩ |
    ⟨running, userId, organizationId, -, -, hdb⟩ | hrests := db_step hs
  · have hground := h.tasks running (mem_of_getElem? hrunning)
    rw [hcall] at hground
    rw [hdb] at hm
    obtain hm | hyields := yields_of_mem hm
    · exact h.members m hm u hu
    · cases hyields with
      | ensurePersonalOrganization => exact ⟨personalOrganizationId_injective hu, rfl⟩
      | createOrganization => exact absurd hu (created_ne_personal env.uuid u)
      | joinOrganization hkey =>
        obtain ⟨row, rfl, hcreated⟩ := hground
        exact absurd ((Prod.mk.inj hkey).1.symm.trans hu) (hcreated.not_personal u)
      | writeRole hold hkey =>
        obtain ⟨horganization, huser⟩ := Prod.mk.inj hkey
        have howns := (h.members _ hold u hu).1
        exact absurd (huser.symm.trans howns) (hground u (horganization.symm.trans hu))
  · rw [hdb] at hm
    exact h.members m (mem_filter.mp hm).1 u hu
  · rw [hrests.memberships] at hm
    exact h.members m hm u hu

theorem System.Grounded.invites_step (h : s.Grounded platform s₀)
    (hs : s.step platform e = some s') {row : Invite} (hrow : row ∈ s'.world.db.invites) :
    s'.Created platform s₀ row := by
  obtain ⟨i, env, running, call, -, hrunning, hcall, hdb⟩ |
    ⟨running, userId, organizationId, -, -, hdb⟩ | hrests := db_step hs
  · rw [hdb] at hrow
    obtain ⟨old, hold, heq⟩ | rfl := invite_cases hrow
    · rw [heq]
      exact (h.invites old hold).step hs
    · have hground := h.tasks running (mem_of_getElem? hrunning)
      rw [hcall] at hground
      exact System.Created.step hground hs
  · rw [hdb] at hrow
    exact (h.invites row (mem_filter.mp hrow).1).step hs
  · exact (h.invites row (hrests.invites hrow)).step hs

theorem System.Grounded.step
    (h : s.Grounded platform (System.init entitlements)) (hs : s.step platform e = some s') :
    s'.Grounded platform (System.init entitlements) where
  reached := .tail h.reached trivial hs
  members _ hm _ hu := h.members_step hs hm hu
  invites _ hrow := h.invites_step hs hrow
  tasks r hr := by
    have hkeeps : ∀ r ∈ s.inflight, r.task.Grounded platform s' (System.init entitlements) :=
      fun r hr => (h.tasks r hr).step h hs
    obtain ⟨task, -, hrequest, -, hinflight⟩ | ⟨i, env, running, rfl, hrunning, hworld, hinflight⟩ |
      ⟨nodeId, event, relay, -, -, rfl⟩ | ⟨nodeId, call, id, sends, world, -, -, rfl⟩ :=
      System.step_cases hs
    · rw [hinflight] at hr
      obtain hr | hr := mem_append.mp hr
      · exact hkeeps r hr
      · rw [mem_singleton.mp hr]
        cases task with
        | access call => cases call <;> trivial
        | removeOrganization => cases hrequest
        | _ => trivial
    · obtain hr | ⟨next, hcontinues, rfl⟩ := hinflight r hr
      · exact hkeeps r hr
      · exact h.next hs hrunning rfl rfl hcontinues
    · exact hkeeps r hr
    · exact hkeeps r hr

theorem System.grounded_of_reaches
    (h : Reaches (System.step platform) always (System.init entitlements) s) :
    s.Grounded platform (System.init entitlements) :=
  h.invariant (I := fun s => s.Grounded platform (System.init entitlements))
    (System.grounded_init platform entitlements) fun _ _ _ hi _ hstep => hi.step hstep

end Invariant

/-! ### Actions in an organization -/

/-- The user, the organization and the action of the check that the next statement makes. -/
def Task.checks : Task → Option (String × String × Action)
  | .access (.createInvite userId organizationId ..) =>
    some (userId.text, organizationId, .memberManage)
  | .access (.updateMemberRole actorUserId organizationId ..) =>
    some (actorUserId.text, organizationId, .memberManage)
  | .access (.removeMember actorUserId organizationId _) =>
    some (actorUserId.text, organizationId, .memberManage)
  | .organizationRoute userId organizationId action => some (userId.text, organizationId, action)
  | .deleteOrganization userId organizationId =>
    some (userId.text, organizationId, .organizationManage)
  | .registerNode userId organizationId _ => some (userId.text, organizationId, .nodeManage)
  | .checkAccess userId _ organizationId purpose =>
    purpose.action.toOption.map (userId.text, organizationId, ·)
  | _ => none

/-- The organization in which a request acts once its check is past. -/
def Task.actsIn : Task → Option String
  | .access (.insertInvite row) => some row.organizationId
  | .access (.readForUpdate organizationId ..) => some organizationId
  | .access (.writeRole organizationId ..) => some organizationId
  | .access (.readForRemoval organizationId _) => some organizationId
  | .access (.deleteMember organizationId _) => some organizationId
  | .removeOrganization _ organizationId => some organizationId
  | .readExisting _ organizationId _ => some organizationId
  | .writeNode _ organizationId _ => some organizationId
  | .removeNode _ _ organizationId => some organizationId
  | .removeDirectConfig _ _ organizationId => some organizationId
  | .forward _ organizationId _ => some organizationId
  | _ => none

section Acts

variable {platform : ControllerPlatform} {w w' : World} {env : Ambient} {task next : Task}
  {organizationId userId : String} {action : Action}

/-- A request whose check fails changes nothing. -/
theorem refused_of_checks (h : task.checks = some (userId, organizationId, action))
    (hfails : ∀ access, requireOrganizationAction w.db userId organizationId action env.now ≠
      .ok access) : ∃ e, task.resume platform w env = (w, .threw e) := by
  cases hcheck : requireOrganizationAction w.db userId organizationId action env.now with
  | ok access => exact absurd hcheck (hfails access)
  | error e =>
    cases task with
    | access call =>
      cases call with
      | createInvite | updateMemberRole | removeMember =>
        obtain ⟨rfl, rfl, rfl⟩ : _ ∧ _ ∧ _ := by simpa [Task.checks] using h
        exact ⟨.access e, by simp [Task.resume, runAccess, resume, runCreateInvite, checkInvite,
          runUpdateMemberRole, runRemoveMember, checkManager, hcheck, bind, Except.bind,
          accessEntries, Outcome.progress]⟩
      | _ => cases h
    | organizationRoute | deleteOrganization | registerNode =>
      obtain ⟨rfl, rfl, rfl⟩ : _ ∧ _ ∧ _ := by simpa [Task.checks] using h
      exact ⟨.access e, by simp [Task.resume, runOrganizationRoute, runDeleteOrganization,
        runRegisterNode, hcheck]⟩
    | checkAccess user nodeId organization purpose =>
      cases haction : purpose.action with
      | error e' => exact ⟨.access e', by simp [Task.resume, runCheckAccess, haction]⟩
      | ok action' =>
        obtain ⟨rfl, rfl, rfl⟩ : _ ∧ _ ∧ _ := by
          simpa [Task.checks, haction, Except.toOption] using h
        exact ⟨.access e, by simp [Task.resume, runCheckAccess, haction, hcheck]⟩
    | _ => cases h

/-- A request begins to act in an organization only after its check. -/
theorem checked_of_actsIn (h : Continues platform w env task next w')
    (hnext : next.actsIn = some organizationId) : task.actsIn = some organizationId ∨
      ∃ user action access, task.checks = some (user, organizationId, action) ∧
        requireOrganizationAction w.db user organizationId action env.now = .ok access := by
  cases h with
  | access hcall =>
    obtain ⟨db', -, hproceeds⟩ := exists_proceeds hcall
    cases hproceeds with
    | createInvite hchecked =>
      obtain rfl := Option.some.inj hnext
      obtain ⟨access, -, haccess⟩ := of_checkInvite hchecked
      exact .inr ⟨_, _, access, rfl, haccess⟩
    | updateMemberRole hmanager | removeMember hmanager =>
      obtain rfl := Option.some.inj hnext
      obtain ⟨access, haccess⟩ := of_checkManager hmanager
      exact .inr ⟨_, _, access, rfl, haccess⟩
    | readForUpdate | readForRemoval => exact .inl hnext
    | _ => cases hnext
  | deleteOrganization haccess | registerNode haccess =>
    obtain rfl := Option.some.inj hnext
    exact .inr ⟨_, _, _, rfl, haccess⟩
  | readExisting => exact .inl hnext
  | checkAccess haction haccess hproceed =>
    obtain rfl | rfl | ⟨input, rfl⟩ | ⟨purpose, rfl⟩ := proceed_cases hproceed
    · obtain rfl := Option.some.inj hnext
      exact .inr ⟨_, _, _, by simp [Task.checks, haction, Except.toOption], haccess⟩
    · obtain rfl := Option.some.inj hnext
      exact .inr ⟨_, _, _, by simp [Task.checks, haction, Except.toOption], haccess⟩
    · obtain rfl := Option.some.inj hnext
      exact .inr ⟨_, _, _, by simp [Task.checks, haction, Except.toOption], haccess⟩
    · cases hnext
  | _ => cases hnext

end Acts

/-! ### Removal -/

/-- The statement leaves the user in the organization at most the role `left`: a membership is
deleted or found absent, which ends `removeMember`, or its role is written. -/
inductive Cuts (db : Database) : Call → String → String → Option Role → Prop
  | deleteMember {organizationId userId : String} :
      Cuts db (.deleteMember organizationId userId) organizationId userId none
  | absent {organizationId userId : String}
      (h : find Membership.key db.memberships (organizationId, userId) = none) :
      Cuts db (.readForRemoval organizationId userId) organizationId userId none
  | writeRole {organizationId userId : String} {role : Role} :
      Cuts db (.writeRole organizationId userId role) organizationId userId (some role)

/-- The statement writes a membership of the user again: an accepted invitation, an
organization that the user creates under the id, or, if a role was left, another role. -/
def Call.Restores (left : Option Role) (organizationId userId : String) (env : Ambient) :
    Call → Prop
  | .joinOrganization user _ consumed =>
    consumed.organizationId = organizationId ∧ user.id.text = userId
  | .createOrganization creator _ =>
    "org_" ++ removeDashes env.uuid.text = organizationId ∧ creator.text = userId
  | .writeRole organizationId' memberUserId _ =>
    left ≠ none ∧ organizationId' = organizationId ∧ memberUserId = userId
  | _ => False

/-- The guard of the steps that execute no such statement. -/
def System.Withholds (left : Option Role) (organizationId userId : String) (s : System) :
    SystemEvent → Prop
  | .resume i env => ∀ running ∈ s.inflight[i]?, ∀ call, running.task = .access call →
    ¬ call.Restores left organizationId userId env
  | _ => True

/-- The user performs no organization action that the role left does not allow: the user passes
no check, a request of the user is refused at its check and changes nothing, and a request goes on
to act in the organization only from a check, which is not the user's. Every invitation, also one
on its way to a membership, was created by a user who could invite. -/
structure System.Revoked (platform : ControllerPlatform) (s s₀ : System) (left : Option Role)
    (organizationId userId : String) : Prop where
  denied : ∀ (action : Action) (now : ℕ) (access : OrganizationAccess),
    requireOrganizationAction s.world.db userId organizationId action now = .ok access →
    ∃ role ∈ left, roleAllows role action = true
  refused : ∀ (task : Task) (env : Ambient) (action : Action),
    task.checks = some (userId, organizationId, action) →
    (∀ role ∈ left, roleAllows role action = false) →
    ∃ e, task.resume platform s.world env = (s.world, .threw e)
  acts : ∀ running ∈ s.inflight, ∀ (env : Ambient) (next : Task) (w : World),
    running.task.resume platform s.world env = (w, .awaits next) →
    next.actsIn = some organizationId →
    running.task.actsIn = some organizationId ∨ ∃ user action,
      running.task.checks = some (user, organizationId, action) ∧
      (user = userId → ∃ role ∈ left, roleAllows role action = true)
  invites : ∀ row ∈ s.world.db.invites, s.Created platform s₀ row
  invited : ∀ running ∈ s.inflight, ∀ (user : UserIdentity) (now : ℕ) (consumed : Invitation),
    running.task = .access (.joinOrganization user now consumed) →
    ∃ row, row.invitation = consumed ∧ s.Created platform s₀ row

/-- The role that is left is the role of the membership, if there is one. -/
def Database.Leaves (db : Database) (left : Option Role) (organizationId userId : String) : Prop :=
  ∀ m ∈ db.memberships, m.key = (organizationId, userId) → left = some m.role

section Removal

variable {platform : ControllerPlatform} {s s' : System} {e : SystemEvent}
  {left : Option Role} {organizationId userId : String}

theorem leaves_of_cuts {db : Database} {call : Call} (env : Ambient)
    (h : Cuts db call organizationId userId left) :
    (resume platform.toPlatform db env call).1.Leaves left organizationId userId := by
  intro m hm hkey
  cases h with
  | deleteMember => exact absurd hkey (mem_delete.mp hm).2
  | absent h =>
    rw [resume_of_onlyReads rfl] at hm
    have hsome := (find_isSome ..).mpr ⟨m, hm, hkey⟩
    rw [h] at hsome
    cases hsome
  | writeRole =>
    obtain ⟨-, hne⟩ | ⟨old, -, -, rfl⟩ := mem_update.mp hm
    · exact absurd hkey hne
    · rfl

/-- What a removal or a new role took away, a step that writes no membership of the user again
does not give back. -/
theorem leaves_step (hs : s.step platform e = some s') (hother : NotPersonal organizationId userId)
    (hok : s.Withholds left organizationId userId e)
    (h : s.world.db.Leaves left organizationId userId) :
    s'.world.db.Leaves left organizationId userId := by
  intro m hm hkey
  obtain ⟨i, env, running, call, rfl, hrunning, hcall, hdb⟩ |
    ⟨running, deleter, deleted, -, -, hdb⟩ | hrests := db_step hs
  · rw [hdb] at hm
    have hwithholds := hok running hrunning call hcall
    obtain hm | hyields := yields_of_mem hm
    · exact h m hm hkey
    · cases hyields with
      | @ensurePersonalOrganization creator =>
        obtain ⟨rfl, rfl⟩ := Prod.mk.inj hkey
        exact absurd rfl (hother creator rfl)
      | createOrganization => exact absurd (Prod.mk.inj hkey) hwithholds
      | joinOrganization hjoined =>
        exact absurd (Prod.mk.inj (hjoined.symm.trans hkey)) hwithholds
      | @writeRole _ _ role old hold hwritten =>
        have hleft := h old hold hkey
        refine absurd ⟨?_, Prod.mk.inj (hwritten.symm.trans hkey)⟩ hwithholds
        rw [hleft]
        exact Option.some_ne_none _
  · rw [hdb] at hm
    exact h m (mem_filter.mp hm).1 hkey
  · rw [hrests.memberships] at hm
    exact h m hm hkey

/-- A cut is never made in a user's own personal organization. -/
theorem notPersonal_of_cuts
    (h : s.Grounded platform (System.init entitlements)) {running : Running} {call : Call}
    (hrunning : running ∈ s.inflight) (hcall : running.task = .access call)
    (hcuts : Cuts s.world.db call organizationId userId left) :
    NotPersonal organizationId userId := by
  have hground := h.tasks running hrunning
  rw [hcall] at hground
  cases hcuts with
  | deleteMember | writeRole => exact hground
  | absent hnone =>
    obtain hother | ⟨m, hm, hkey⟩ := hground
    · exact hother
    · have hsome := (find_isSome ..).mpr ⟨m, hm, hkey⟩
      rw [hnone] at hsome
      cases hsome

end Removal

/-- **Removal revokes.** Once a removal of a member is complete, or a role is written, the user
performs no action in the organization beyond the role left, but for requests whose check is past,
until a membership of the user is written again; and an invitation can do that only if a user who
could invite created it. -/
theorem removal_revokes {platform : ControllerPlatform} {entitlements : List Entitlement}
    {s s₁ s₂ : System} {i : ℕ} {env : Ambient} {running : Running} {call : Call}
    {organizationId userId : String} {left : Option Role}
    (h : Reaches (System.step platform) always (System.init entitlements) s)
    (hrunning : s.inflight[i]? = some running) (hcall : running.task = .access call)
    (hcuts : Cuts s.world.db call organizationId userId left)
    (hs : s.step platform (.resume i env) = some s₁)
    (hrun : Reaches (System.step platform) (System.Withholds left organizationId userId) s₁ s₂) :
    s₂.Revoked platform (System.init entitlements) left organizationId userId := by
  have hground := System.grounded_of_reaches h
  have hother := notPersonal_of_cuts hground (mem_of_getElem? hrunning) hcall hcuts
  have hfirst : s₁.world.db.Leaves left organizationId userId := by
    have hdb : s₁.world.db = (resume platform.toPlatform s.world.db env call).1 := by
      simp only [System.step, hrunning, Option.some.injEq] at hs
      rw [← hs, hcall]
      rfl
    rw [hdb]
    exact leaves_of_cuts env hcuts
  have hlast := hrun.invariant (I := fun s => s.Grounded platform (System.init entitlements) ∧
      s.world.db.Leaves left organizationId userId)
    ⟨hground.step hs, hfirst⟩
    fun _ _ _ hi hok hstep => ⟨hi.1.step hstep, leaves_step hstep hother hok hi.2⟩
  have hdenied : ∀ (action : Action) (now : ℕ) (access : OrganizationAccess),
      requireOrganizationAction s₂.world.db userId organizationId action now = .ok access →
      ∃ role ∈ left, roleAllows role action = true := by
    intro action now access haccess
    obtain ⟨-, m, hm, hkey, hallows⟩ := of_requireOrganizationAction haccess
    exact ⟨m.role, hlast.2 m hm hkey, hallows⟩
  refine ⟨hdenied, fun task env action hchecks hleft => ?_, fun r hr env next w hresume hacts => ?_,
    hlast.1.invites, fun r hr user now consumed htask => ?_⟩
  · refine refused_of_checks hchecks fun access haccess => ?_
    obtain ⟨role, hrole, hallows⟩ := hdenied action env.now access haccess
    rw [hleft role hrole] at hallows
    cases hallows
  · refine (checked_of_actsIn (continues_of_resume hresume) hacts).imp_right ?_
    rintro ⟨user, action, access, hchecks, haccess⟩
    refine ⟨user, action, hchecks, ?_⟩
    rintro rfl
    exact hdenied action env.now access haccess
  · have hinvited := hlast.1.tasks r hr
    rw [htask] at hinvited
    exact hinvited

/-! ### Two runs -/

section Example

def secondToken : String := "BBBBBBBBBBBBBBBBBBBBBBBBBBBBBBBBBBBBBBBBBBB"

/-- Alice's organization with Bob as a member, and another invitation for Bob. -/
def labWithSecondInvite : List SystemEvent :=
  labWithInvite ++ requestFor bobAccepts 0 4 ++
    [.request (.access (.createInvite aliceId labOrganization "bob@example.com" .viewer)),
      .resume 0 { at100 with token := secondToken }, .resume 0 at100]

/-- Alice removes Bob, up to the last statement. -/
def aliceRemovesBob : List SystemEvent :=
  requestFor (.access (.removeMember aliceId labOrganization bobId.text)) 0 2

def Task.deletesMember (organizationId memberUserId : String) : Task → Bool
  | .access (.deleteMember organizationId' memberUserId') =>
    organizationId' = organizationId && memberUserId' = memberUserId
  | _ => false

theorem Task.eq_of_deletesMember {memberUserId : String} {task : Task}
    (h : task.deletesMember organizationId memberUserId = true) :
    task = .access (.deleteMember organizationId memberUserId) := by
  cases task with
  | access call =>
    cases call with
    | deleteMember =>
      simp only [Task.deletesMember, Bool.and_eq_true, decide_eq_true_eq] at h
      rw [h.1, h.2]
    | _ => cases h
  | _ => cases h

def Task.insertsInvite : Task → Bool
  | .access (.insertInvite _) => true
  | _ => false

/-- The guard of the steps that insert no invitation. -/
def System.InvitesNobody (s : System) : SystemEvent → Prop
  | .resume i _ => ∀ running ∈ s.inflight[i]?, running.task.insertsInvite = false
  | _ => True

instance (s : System) : DecidablePred s.InvitesNobody
  | .resume i _ =>
    inferInstanceAs (Decidable (∀ running ∈ s.inflight[i]?, running.task.insertsInvite = false))
  | .request _ | .relay .. | .body .. => isTrue trivial

/-- The second invitation is accepted after the removal: Bob's task, and three statements. -/
def bobAcceptsAgain : List SystemEvent :=
  requestFor (.access (.acceptInvite ⟨bobId, "bob@example.com"⟩ secondToken)) 0 4

/-- Bob has been removed and asks to read. -/
theorem removal_revokes_bob :
    ∃ s : System, requireOrganizationAction s.world.db aliceId.text labOrganization
        .organizationRead 100 ≠ .error ⟨404, "organization_not_found"⟩ ∧
      s.Revoked exampleController (System.init []) none labOrganization bobId.text := by
  obtain ⟨s, hs, hdeletes, halice⟩ := exists_reaches_of_run (Q := fun s : System =>
      (s.inflight[0]?.any (·.task.deletesMember labOrganization bobId.text)) = true ∧
      (s.step exampleController (.resume 0 at100)).any (fun s₁ => decide
        ((getOrganizationAccess s₁.world.db aliceId.text labOrganization 100).map (·.role) =
          some .owner)) = true)
    (System.step exampleController) always (System.init [])
    (labWithSecondInvite ++ aliceRemovesBob) (by decide)
  obtain ⟨running, hrunning, htask⟩ := (Option.any_eq_true ..).mp hdeletes
  obtain ⟨s₁, hstep, howner⟩ := (Option.any_eq_true ..).mp halice
  have hasks : Reaches (System.step exampleController)
      (System.Withholds none labOrganization bobId.text) s₁
      { s₁ with inflight := s₁.inflight ++ [⟨s₁.world.history.length,
        .organizationRoute bobId labOrganization .organizationRead⟩] } :=
    .tail (a := .request (.organizationRoute bobId labOrganization .organizationRead)) .refl
      trivial rfl
  refine ⟨_, fun herror => ?_, removal_revokes hs hrunning (Task.eq_of_deletesMember htask)
    .deleteMember hstep hasks⟩
  obtain ⟨access, haccess, hrole⟩ := Option.map_eq_some_iff.mp (of_decide_eq_true howner)
  have hallows : roleAllows .owner .organizationRead = true := by decide
  simp [requireOrganizationAction, haccess, hrole, hallows] at herror

/-- The request with the number `i` completes Bob's removal. -/
def RemovesBob (s : System) (i : ℕ) (s₁ : System) : Prop :=
  Reaches (System.step exampleController) always (System.init []) s ∧
    (∃ running, s.inflight[i]? = some running ∧
      running.task = .access (.deleteMember labOrganization bobId.text)) ∧
    s.step exampleController (.resume i at100) = some s₁

/-- Bob is removed. No invitation is inserted any more; he accepts the one he still has, and
passes the check. -/
theorem readmitted_by_old_invite : ∃ s s₁ s₂, RemovesBob s 0 s₁ ∧
      Reaches (System.step exampleController) System.InvitesNobody s₁ s₂ ∧
      requireOrganizationAction s₁.world.db bobId.text labOrganization .organizationRead 100 =
        .error ⟨404, "organization_not_found"⟩ ∧
      ∃ access, requireOrganizationAction s₂.world.db bobId.text labOrganization
        .organizationRead 100 = .ok access := by
  obtain ⟨s, hs, hdeletes, hrestored⟩ := exists_reaches_of_run (Q := fun s : System =>
      (s.inflight[0]?.any (·.task.deletesMember labOrganization bobId.text)) = true ∧
      (s.step exampleController (.resume 0 at100)).any (fun s₁ =>
        decide (getOrganizationAccess s₁.world.db bobId.text labOrganization 100 = none) &&
        (run (System.step exampleController) System.InvitesNobody s₁ bobAcceptsAgain).any
          (fun s₂ => decide ((getOrganizationAccess s₂.world.db bobId.text labOrganization
            100).map (·.role) = some .viewer))) = true)
    (System.step exampleController) always (System.init [])
    (labWithSecondInvite ++ aliceRemovesBob) (by decide)
  obtain ⟨running, hrunning, htask⟩ := (Option.any_eq_true ..).mp hdeletes
  obtain ⟨s₁, hstep, hboth⟩ := (Option.any_eq_true ..).mp hrestored
  obtain ⟨hnone, hagain⟩ := Bool.and_eq_true_iff.mp hboth
  obtain ⟨s₂, hrun, hviewer⟩ := (Option.any_eq_true ..).mp hagain
  obtain ⟨access, haccess, hrole⟩ := Option.map_eq_some_iff.mp (of_decide_eq_true hviewer)
  refine ⟨s, s₁, s₂, ⟨hs, ⟨running, hrunning, Task.eq_of_deletesMember htask⟩, hstep⟩,
    reaches_of_run .refl hrun, ?_, access, ?_⟩
  · simp [requireOrganizationAction, of_decide_eq_true hnone]
  · simp [requireOrganizationAction, haccess, hrole]
    decide

/-- A removed member comes back with an invitation issued before, and the registration of a node
that had passed its check before the removal still changes the node's token. -/
theorem restored_by_old_invite : (∃ s s₁ s₂, RemovesBob s 0 s₁ ∧
      Reaches (System.step exampleController) System.InvitesNobody s₁ s₂ ∧
      requireOrganizationAction s₁.world.db bobId.text labOrganization .organizationRead 100 =
        .error ⟨404, "organization_not_found"⟩ ∧
      ∃ access, requireOrganizationAction s₂.world.db bobId.text labOrganization
        .organizationRead 100 = .ok access) ∧
    ∃ s s₁, RemovesBob s 1 s₁ ∧ Rotates bobId.text s₁ := by
  obtain ⟨s, hs, hdeletes, hrotates⟩ := exists_reaches_of_run (Q := fun s : System =>
      (s.inflight[1]?.any (·.task.deletesMember labOrganization bobId.text)) = true ∧
      (s.step exampleController (.resume 1 at100)).any (fun s₁ => decide (Rotates bobId.text s₁)))
    (System.step exampleController) always (System.init [])
    (labWithNode ++ bobRotates ++
      requestFor (.access (.removeMember aliceId labOrganization bobId.text)) 1 2) (by decide)
  obtain ⟨running, hrunning, htask⟩ := (Option.any_eq_true ..).mp hdeletes
  obtain ⟨s₁, hstep, hboth⟩ := (Option.any_eq_true ..).mp hrotates
  exact ⟨readmitted_by_old_invite, s, s₁,
    ⟨hs, ⟨running, hrunning, Task.eq_of_deletesMember htask⟩, hstep⟩, of_decide_eq_true hboth⟩

end Example

end AgentSight.Controller
