import AgentSight.Controller.Access

/-!
# The owner of an organization

An organization has one owner, its creator. `owner_kept` proves it for every interleaving of
requests in which no creator joins the creator's own organization by an invitation: the write
that ends `acceptInvite` overwrites the role of a present membership, and nothing before it
looks at that membership (`creator_demoted`). The guards of `updateMemberRole` and
`removeMember` read the role one statement before they write, which is enough because a
membership that is not an owner's never becomes one.
-/

namespace AgentSight.Controller

open KeyedTable Transition List

/-! ### Organization ids -/

namespace Uuid

theorem length_compact (u : Uuid) : u.compact.length = 32 := by
  obtain ⟨h1, h2, h3, h4, h5⟩ := u.lengths
  simp [compact, h1, h2, h3, h4, h5]

theorem removeDashes_text (u : Uuid) : removeDashes u.text = String.ofList u.compact := by
  have hdigits := u.digits
  simp only [mem_append, or_imp, forall_and] at hdigits
  obtain ⟨⟨⟨⟨h1, h2⟩, h3⟩, h4⟩, h5⟩ := hdigits
  have hkeep : ∀ l : List Char, (∀ c ∈ l, c ≠ '-') → l.filter (· ≠ '-') = l :=
    fun l h => filter_eq_self.mpr fun c hc => decide_eq_true (h c hc)
  simp only [removeDashes, text, compact, String.toList_ofList, filter_append,
    filter_cons_of_neg (p := fun c : Char => decide (c ≠ '-')) (a := '-') (by decide),
    hkeep _ h1, hkeep _ h2, hkeep _ h3, hkeep _ h4, hkeep _ h5]

theorem text_eq_of_compact {u v : Uuid} (h : u.compact = v.compact) : u.text = v.text := by
  obtain ⟨hu1, hu2, hu3, hu4, hu5⟩ := u.lengths
  obtain ⟨hv1, hv2, hv3, hv4, hv5⟩ := v.lengths
  obtain ⟨h, h5⟩ := append_inj' h (by omega)
  obtain ⟨h, h4⟩ := append_inj' h (by omega)
  obtain ⟨h, h3⟩ := append_inj' h (by omega)
  obtain ⟨h1, h2⟩ := append_inj' h (by omega)
  rw [text, text, h1, h2, h3, h4, h5]

end Uuid

theorem personalOrganizationId_injective {u v : Uuid}
    (h : personalOrganizationId u.text = personalOrganizationId v.text) : u.text = v.text := by
  have htail := congrArg String.toList h
  simp only [personalOrganizationId, Uuid.removeDashes_text, String.toList_append,
    String.toList_ofList] at htail
  exact Uuid.text_eq_of_compact (append_cancel_left htail)

/-- The id of a created organization is no personal one. -/
theorem created_ne_personal (u v : Uuid) :
    "org_" ++ removeDashes u.text ≠ personalOrganizationId v.text := by
  intro h
  have hlen := congrArg (fun s => s.toList.length) h
  simp only [personalOrganizationId, Uuid.removeDashes_text, String.toList_append,
    String.toList_ofList, length_append, Uuid.length_compact] at hlen
  revert hlen
  decide

/-! ### The invariant of the database -/

/-- The organization exists and the user did not create it. -/
def Database.NotCreator (db : Database) (organizationId userId : String) : Prop :=
  ∃ o ∈ db.organizations, o.id = organizationId ∧ o.createdByUserId ≠ userId

/-- Every creator has the owner's role in the organization, and nobody else has it in any. -/
def Database.OwnerKept (db : Database) : Prop :=
  (∀ o ∈ db.organizations, ∃ m ∈ db.memberships,
    m.organizationId = o.id ∧ m.userId = o.createdByUserId ∧ m.role = .owner) ∧
  ∀ m ∈ db.memberships, m.role = .owner →
    ∃ o ∈ db.organizations, o.id = m.organizationId ∧ o.createdByUserId = m.userId

structure Database.Sound (db : Database) : Prop where
  organizations_unique : Unique Organization.id db.organizations
  memberships_unique : Unique Membership.key db.memberships
  creator_owns : ∀ o ∈ db.organizations, ∃ m ∈ db.memberships,
    m.organizationId = o.id ∧ m.userId = o.createdByUserId ∧ m.role = .owner
  owner_created : ∀ m ∈ db.memberships, ∃ o ∈ db.organizations,
    o.id = m.organizationId ∧ (m.role = .owner → o.createdByUserId = m.userId)
  personal : ∀ o ∈ db.organizations, ∀ u : Uuid,
    o.id = personalOrganizationId u.text → o.createdByUserId = u.text
  invites : ∀ row ∈ db.invites, row.role ≠ .owner

namespace Database.Sound

variable {db : Database}

section

variable (h : db.Sound)
include h

theorem ownerKept : db.OwnerKept := by
  refine ⟨h.creator_owns, fun m hm hrole => ?_⟩
  obtain ⟨o, ho, hid, hcreated⟩ := h.owner_created m hm
  exact ⟨o, ho, hid, hcreated hrole⟩

/-- A membership that is not an owner's is not the creator's. -/
theorem notCreator_of_member {m : Membership} (hm : m ∈ db.memberships)
    (hrole : m.role ≠ .owner) : db.NotCreator m.organizationId m.userId := by
  obtain ⟨o, ho, hid, -⟩ := h.owner_created m hm
  refine ⟨o, ho, hid, fun hcreated => hrole ?_⟩
  obtain ⟨m', hm', horg, huser, hrole'⟩ := h.creator_owns o ho
  have hkey : m.key = m'.key := by
    simp [Membership.key, horg, huser, hid, hcreated]
  rw [h.memberships_unique m hm m' hm' hkey, hrole']

/-- An organization and its owner's membership come together. -/
theorem create {o : Organization} {m : Membership}
    (hnew : find Organization.id db.organizations o.id = none)
    (horg : m.organizationId = o.id) (huser : m.userId = o.createdByUserId)
    (hrole : m.role = .owner)
    (hpersonal : ∀ u : Uuid, o.id = personalOrganizationId u.text → o.createdByUserId = u.text) :
    ({ db with organizations := db.organizations ++ [o],
               memberships := db.memberships ++ [m] } : Database).Sound where
  organizations_unique := unique_concat h.organizations_unique hnew
  memberships_unique := by
    refine unique_concat h.memberships_unique ?_
    -- a membership of the new id would have an organization
    by_contra hsome
    obtain ⟨m', hm', hkey⟩ := (find_isSome ..).mp (Option.isSome_iff_ne_none.mpr hsome)
    obtain ⟨o', ho', hid, -⟩ := h.owner_created m' hm'
    have hid' : o'.id = o.id := by
      rw [hid, ← horg]
      exact congrArg Prod.fst hkey
    have hfound := (find_isSome ..).mpr ⟨o', ho', hid'⟩
    rw [hnew] at hfound
    cases hfound
  creator_owns := by
    intro o' ho'
    obtain ho' | ho' := mem_append.mp ho'
    · obtain ⟨m', hm', hm⟩ := h.creator_owns o' ho'
      exact ⟨m', mem_append_left _ hm', hm⟩
    · obtain rfl := mem_singleton.mp ho'
      exact ⟨m, mem_append_right _ (mem_singleton_self m), horg, huser, hrole⟩
  owner_created := by
    intro m' hm'
    obtain hm' | hm' := mem_append.mp hm'
    · obtain ⟨o', ho', ho⟩ := h.owner_created m' hm'
      exact ⟨o', mem_append_left _ ho', ho⟩
    · obtain rfl := mem_singleton.mp hm'
      exact ⟨o, mem_append_right _ (mem_singleton_self o), horg.symm, fun _ => huser.symm⟩
  personal := by
    intro o' ho'
    obtain ho' | ho' := mem_append.mp ho'
    · exact h.personal o' ho'
    · obtain rfl := mem_singleton.mp ho'
      exact hpersonal
  invites := h.invites

/-- Writing the memberships alone: the owners' rows stay and no other becomes one. -/
theorem setMemberships {memberships : List Membership}
    (unique : Unique Membership.key memberships)
    (keeps : ∀ m ∈ db.memberships, m.role = .owner → m ∈ memberships)
    (comes : ∀ m ∈ memberships, m ∈ db.memberships ∨ m.role ≠ .owner ∧
      ∃ o ∈ db.organizations, o.id = m.organizationId) :
    ({ db with memberships } : Database).Sound where
  organizations_unique := h.organizations_unique
  memberships_unique := unique
  creator_owns := by
    intro o ho
    obtain ⟨m, hm, horg, huser, hrole⟩ := h.creator_owns o ho
    exact ⟨m, keeps m hm hrole, horg, huser, hrole⟩
  owner_created := by
    intro m hm
    obtain hold | ⟨hrole, o, ho, hid⟩ := comes m hm
    · exact h.owner_created m hold
    · exact ⟨o, ho, hid, fun howner => absurd howner hrole⟩
  personal := h.personal
  invites := h.invites

/-- An owner's row is not the row of one who did not create the organization. -/
theorem key_ne_of_owner {m : Membership} (hm : m ∈ db.memberships)
    (hrole : m.role = .owner) {organizationId userId : String}
    (hnot : db.NotCreator organizationId userId) : m.key ≠ (organizationId, userId) := by
  intro hkey
  obtain ⟨o, ho, hid, hne⟩ := hnot
  obtain ⟨o', ho', hid', hcreated⟩ := h.owner_created m hm
  have horg : m.organizationId = organizationId := congrArg Prod.fst hkey
  have huser : m.userId = userId := congrArg Prod.snd hkey
  have hsame : o' = o := h.organizations_unique o' ho' o ho (by rw [hid', hid, horg])
  rw [hsame, huser] at hcreated
  exact hne (hcreated hrole)

theorem setInvites {invites : List Invite}
    (hinvites : ∀ row ∈ invites, row.role ≠ .owner) : ({ db with invites } : Database).Sound :=
  ⟨h.organizations_unique, h.memberships_unique, h.creator_owns, h.owner_created, h.personal,
    hinvites⟩

end

end Database.Sound

/-! ### The statements -/

/-- What a waiting call has established. -/
def Call.Safe (db : Database) : Call → Prop
  | .insertInvite row => row.role ≠ .owner
  | .joinOrganization _ _ consumed => consumed.role ≠ .owner
  | .readForUpdate _ _ role => role ≠ .owner
  | .writeRole organizationId memberUserId role =>
      role ≠ .owner ∧ db.NotCreator organizationId memberUserId
  | .deleteMember organizationId memberUserId => db.NotCreator organizationId memberUserId
  | _ => True

def Outcome.Safe (db : Database) : Outcome → Prop
  | .awaits call => call.Safe db
  | _ => True

/-- Organizations are only added. -/
theorem Call.Safe.mono {db db' : Database} {call : Call} (h : call.Safe db)
    (hgrows : db.organizations ⊆ db'.organizations) : call.Safe db' := by
  have hnot : ∀ {organizationId userId}, db.NotCreator organizationId userId →
      db'.NotCreator organizationId userId := by
    rintro organizationId userId ⟨o, ho, hid, hne⟩
    exact ⟨o, hgrows ho, hid, hne⟩
  cases call with
  | writeRole organizationId memberUserId role => exact ⟨h.1, hnot h.2⟩
  | deleteMember organizationId memberUserId => exact hnot h
  | _ => exact h

/-- The writing of a membership is not the creator's own. -/
def Call.Admitted (db : Database) : Call → Prop
  | .joinOrganization user _ consumed => ∀ o ∈ db.organizations,
      o.id = consumed.organizationId → o.createdByUserId ≠ user.id.text
  | _ => True

/-- What every statement keeps. -/
structure Kept (db : Database) (result : Database × Outcome) : Prop where
  sound : result.1.Sound
  grows : db.organizations ⊆ result.1.organizations
  safe : result.2.Safe result.1

theorem kept_of_unchanged {db : Database} (h : db.Sound) {outcome : Outcome}
    (hsafe : outcome.Safe db) : Kept db (db, outcome) :=
  ⟨h, Subset.refl _, hsafe⟩

variable {role : Role}

theorem ne_owner_of_isInviteRole (h : isInviteRole role = true) : role ≠ .owner := by
  rintro rfl
  exact absurd h (by decide)

theorem isInviteRole_of_checkInvite {platform : Platform} {db : Database} {userId : Uuid}
    {organizationId email normalizedEmail : String} {now : ℕ}
    (h : checkInvite platform db userId organizationId email role now = .ok normalizedEmail) :
    isInviteRole role = true := by
  unfold checkInvite at h
  by_contra hrole
  have hfalse : isInviteRole role = false := by simpa using hrole
  simp only [hfalse, bind, Except.bind, throw, throwThe, MonadExceptOf.throw, Bool.not_false,
    if_true] at h
  split at h
  · cases h
  · split at h
    · cases h
    · split at h <;> cases h

section Statements

variable {db : Database} (h : db.Sound)
include h

theorem kept_ensurePersonalOrganization (userId : Uuid) (now : ℕ) :
    Kept db (runEnsurePersonalOrganization db userId now) := by
  unfold runEnsurePersonalOrganization insertOrIgnore
  by_cases horg : (find Organization.id db.organizations
      (personalOrganizationId userId.text)).isSome = true
  · -- the organization is the user's own, so its owner's membership is there as well
    obtain ⟨o, ho, hid⟩ := (find_isSome ..).mp horg
    obtain ⟨m, hm, hmorg, hmuser, -⟩ := h.creator_owns o ho
    have hmember : (find Membership.key db.memberships
        (personalOrganizationId userId.text, userId.text)).isSome = true := by
      refine (find_isSome ..).mpr ⟨m, hm, ?_⟩
      rw [Membership.key, hmorg, hmuser, hid, h.personal o ho userId hid]
    simp only [newOrganization, ownerMembership, Membership.key, horg, hmember, if_true]
    exact kept_of_unchanged h trivial
  · have hmember : ¬ (find Membership.key db.memberships
        (personalOrganizationId userId.text, userId.text)).isSome = true := by
      intro hsome
      obtain ⟨m, hm, hkey⟩ := (find_isSome ..).mp hsome
      obtain ⟨o, ho, hid, -⟩ := h.owner_created m hm
      exact horg ((find_isSome ..).mpr ⟨o, ho, hid.trans (congrArg Prod.fst hkey)⟩)
    simp only [newOrganization, ownerMembership, Membership.key, horg, hmember]
    refine ⟨h.create (by simpa using horg) rfl rfl rfl fun u hu => ?_,
      subset_append_left _ _, trivial⟩
    exact personalOrganizationId_injective hu

theorem kept_createOrganization (userId : Uuid) (name : String) (env : Ambient) :
    Kept db (runCreateOrganization db userId name env) := by
  unfold runCreateOrganization
  dsimp only
  split
  · exact kept_of_unchanged h trivial
  · split
    · next organizations memberships horgs hmembers =>
      obtain ⟨hnew, rfl⟩ := insert_eq_some.mp horgs
      obtain ⟨-, rfl⟩ := insert_eq_some.mp hmembers
      refine ⟨h.create hnew rfl rfl rfl fun u hu => ?_, subset_append_left _ _, trivial⟩
      exact absurd hu (created_ne_personal env.uuid u)
    · exact kept_of_unchanged h trivial

variable (platform : Platform)

theorem kept_createInvite (userId : Uuid) (organizationId email : String)
    (role : Role) (env : Ambient) :
    Kept db (runCreateInvite platform db userId organizationId email role env) := by
  unfold runCreateInvite
  split
  · exact kept_of_unchanged h trivial
  · next hcheck =>
    exact kept_of_unchanged h (ne_owner_of_isInviteRole (isInviteRole_of_checkInvite hcheck))

theorem kept_insertInvite {row : Invite} (hrow : row.role ≠ .owner) :
    Kept db (runInsertInvite db row) := by
  unfold runInsertInvite
  split
  · split
    · next invites hinsert =>
      obtain ⟨-, rfl⟩ := insert_eq_some.mp hinsert
      refine ⟨h.setInvites fun row' hrow' => ?_, Subset.refl _, trivial⟩
      obtain hrow' | hrow' := mem_append.mp hrow'
      · exact h.invites row' hrow'
      · rwa [mem_singleton.mp hrow']
    · exact kept_of_unchanged h trivial
  · exact kept_of_unchanged h trivial

variable (user : UserIdentity)

theorem kept_acceptInvite (token : String)
    (now : ℕ) : Kept db (runAcceptInvite platform db user token now) := by
  unfold runAcceptInvite
  split
  · exact kept_of_unchanged h trivial
  · split <;> exact kept_of_unchanged h trivial

theorem kept_readOrganization (tokenHash : String) (now : ℕ)
    (candidate : Invitation) :
    Kept db (runReadOrganization db user tokenHash now candidate) := by
  unfold runReadOrganization
  split
  · exact kept_of_unchanged h trivial
  · split
    · exact kept_of_unchanged h trivial
    · split <;> exact kept_of_unchanged h trivial

theorem kept_consumeInvite (tokenHash : String) (now : ℕ) :
    Kept db (runConsumeInvite db user tokenHash now) := by
  unfold runConsumeInvite
  split
  · exact kept_of_unchanged h trivial
  · next row hrow =>
    have hmem : row ∈ db.invites := (mem_of_find (Option.filter_eq_some_iff.mp hrow).1).1
    refine ⟨h.setInvites fun row' hrow' => ?_, Subset.refl _, h.invites row hmem⟩
    obtain ⟨hold, -⟩ | ⟨old, hold, -, rfl⟩ := mem_update.mp hrow'
    · exact h.invites row' hold
    · exact h.invites old hold

theorem kept_joinOrganization {user : UserIdentity} {now : ℕ} {consumed : Invitation}
    (hrole : consumed.role ≠ .owner)
    (hadmitted : (Call.joinOrganization user now consumed).Admitted db) :
    Kept db (runJoinOrganization db user now consumed) := by
  unfold runJoinOrganization
  split
  · next hfound =>
    obtain ⟨o, ho, hid⟩ := (find_isSome ..).mp hfound
    have hnot : db.NotCreator consumed.organizationId user.id.text :=
      ⟨o, ho, hid, hadmitted o ho hid⟩
    refine ⟨h.setMemberships (unique_upsert (fun _ => rfl) h.memberships_unique) ?_ ?_,
      Subset.refl _, trivial⟩
    · intro m hm howner
      have hne := h.key_ne_of_owner hm howner hnot
      unfold upsert
      split
      · exact mem_update.mpr (.inl ⟨hm, hne⟩)
      · exact mem_append_left _ hm
    · intro m hm
      unfold upsert at hm
      split at hm
      · obtain ⟨hold, -⟩ | ⟨old, -, hkey, rfl⟩ := mem_update.mp hm
        · exact .inl hold
        · exact .inr ⟨hrole, o, ho, hid.trans (congrArg Prod.fst hkey).symm⟩
      · obtain hold | hnew := mem_append.mp hm
        · exact .inl hold
        · obtain rfl := mem_singleton.mp hnew
          exact .inr ⟨hrole, o, ho, hid⟩
  · exact kept_of_unchanged h trivial

theorem kept_updateMemberRole (actorUserId : Uuid) (organizationId memberUserId : String)
    (role : Role) (now : ℕ) :
    Kept db (runUpdateMemberRole db actorUserId organizationId memberUserId role now) := by
  unfold runUpdateMemberRole
  split
  · exact kept_of_unchanged h trivial
  · split
    · exact kept_of_unchanged h trivial
    · next hrole => exact kept_of_unchanged h (ne_owner_of_isInviteRole (by simpa using hrole))

theorem kept_readForUpdate (hrole : role ≠ .owner) (organizationId memberUserId : String) :
    Kept db (runReadForUpdate db organizationId memberUserId role) := by
  unfold runReadForUpdate
  split
  · exact kept_of_unchanged h trivial
  · next existing hexisting =>
    split
    · exact kept_of_unchanged h trivial
    · next hexistingRole =>
      obtain ⟨hmem, hkey⟩ := mem_of_find hexisting
      obtain ⟨rfl, rfl⟩ := Prod.mk.inj hkey
      exact kept_of_unchanged h ⟨hrole, h.notCreator_of_member hmem hexistingRole⟩

theorem kept_writeRole {organizationId memberUserId : String}
    (hrole : role ≠ .owner) (hnot : db.NotCreator organizationId memberUserId) (now : ℕ) :
    Kept db (runWriteRole db organizationId memberUserId role now) := by
  refine ⟨h.setMemberships (unique_update (fun _ => rfl) h.memberships_unique) ?_ ?_,
    Subset.refl _, trivial⟩
  · intro m hm howner
    exact mem_update.mpr (.inl ⟨hm, h.key_ne_of_owner hm howner hnot⟩)
  · intro m hm
    obtain ⟨hold, -⟩ | ⟨old, hold, -, rfl⟩ := mem_update.mp hm
    · exact .inl hold
    · obtain ⟨o, ho, hid, -⟩ := h.owner_created old hold
      exact .inr ⟨hrole, o, ho, hid⟩

theorem kept_removeMember (actorUserId : Uuid) (organizationId memberUserId : String)
    (now : ℕ) : Kept db (runRemoveMember db actorUserId organizationId memberUserId now) := by
  unfold runRemoveMember
  split <;> exact kept_of_unchanged h trivial

theorem kept_readForRemoval (organizationId memberUserId : String) :
    Kept db (runReadForRemoval db organizationId memberUserId) := by
  unfold runReadForRemoval
  split
  · exact kept_of_unchanged h trivial
  · next existing hexisting =>
    split
    · exact kept_of_unchanged h trivial
    · next hexistingRole =>
      obtain ⟨hmem, hkey⟩ := mem_of_find hexisting
      obtain ⟨rfl, rfl⟩ := Prod.mk.inj hkey
      exact kept_of_unchanged h (h.notCreator_of_member hmem hexistingRole)

theorem kept_deleteMember {organizationId memberUserId : String}
    (hnot : db.NotCreator organizationId memberUserId) :
    Kept db (runDeleteMember db organizationId memberUserId) := by
  refine ⟨h.setMemberships (unique_delete h.memberships_unique) ?_ ?_, Subset.refl _, trivial⟩
  · intro m hm howner
    exact mem_delete.mpr ⟨hm, h.key_ne_of_owner hm howner hnot⟩
  · intro m hm
    exact .inl (mem_delete.mp hm).1

/-- Whatever statement a safe call executes. -/
theorem kept_resume (env : Ambient) {call : Call} (hsafe : call.Safe db)
    (hadmitted : call.Admitted db) : Kept db (resume platform db env call) := by
  cases call with
  | ensurePersonalOrganization userId => exact kept_ensurePersonalOrganization h userId env.now
  | createOrganization userId name => exact kept_createOrganization h userId name env
  | createInvite userId organizationId email role =>
    exact kept_createInvite h platform userId organizationId email role env
  | insertInvite row => exact kept_insertInvite h hsafe
  | acceptInvite user token => exact kept_acceptInvite h platform user token env.now
  | readOrganization user tokenHash now candidate =>
    exact kept_readOrganization h user tokenHash now candidate
  | consumeInvite user tokenHash now => exact kept_consumeInvite h user tokenHash now
  | joinOrganization user now consumed => exact kept_joinOrganization h hsafe hadmitted
  | updateMemberRole actorUserId organizationId memberUserId role =>
    exact kept_updateMemberRole h actorUserId organizationId memberUserId role env.now
  | readForUpdate organizationId memberUserId role =>
    exact kept_readForUpdate h hsafe organizationId memberUserId
  | writeRole organizationId memberUserId role => exact kept_writeRole h hsafe.1 hsafe.2 env.now
  | removeMember actorUserId organizationId memberUserId =>
    exact kept_removeMember h actorUserId organizationId memberUserId env.now
  | readForRemoval organizationId memberUserId =>
    exact kept_readForRemoval h organizationId memberUserId
  | deleteMember organizationId memberUserId => exact kept_deleteMember h hsafe

end Statements

/-! ### Runs -/

namespace State

/-- No creator joins the organization of the creator's own by an invitation. -/
def Admits (s : State) : Event → Prop
  | .request _ => True
  | .resume i _ => ∀ call ∈ s.inflight[i]?, call.Admitted s.db

structure Sound (s : State) : Prop where
  db : s.db.Sound
  safe : ∀ call ∈ s.inflight, call.Safe s.db

theorem sound_init (entitlements : List Entitlement) : (init entitlements).Sound where
  db := by
    refine ⟨unique_nil, unique_nil, ?_, ?_, ?_, ?_⟩ <;> simp [init]
  safe := by simp [init]

theorem Sound.step {platform : Platform} {s s' : State} {e : Event} (h : s.Sound)
    (hok : s.Admits e) (hs : s.step platform e = some s') : s'.Sound := by
  cases e with
  | request call =>
    simp only [State.step] at hs
    split at hs
    · next hrequest =>
      obtain rfl := Option.some.inj hs
      refine ⟨h.db, fun c hc => ?_⟩
      obtain hc | hc := mem_append.mp hc
      · exact h.safe c hc
      · obtain rfl := mem_singleton.mp hc
        cases c <;> trivial
    · cases hs
  | resume i env =>
    simp only [State.step] at hs
    split at hs
    · cases hs
    · next call hcall =>
      obtain rfl := Option.some.inj hs
      have hkept := kept_resume h.db platform env
        (h.safe call (mem_of_getElem? hcall)) (hok call hcall)
      refine ⟨hkept.sound, fun c hc => ?_⟩
      have hsafe := hkept.safe
      split at hc
      · next next hnext =>
        rw [hnext] at hsafe
        obtain hc | rfl := mem_or_eq_of_mem_set hc
        · exact (h.safe c hc).mono hkept.grows
        · exact hsafe
      · exact (h.safe c (mem_of_mem_eraseIdx hc)).mono hkept.grows

end State

/-- **The owner of an organization is its creator, for good.** In every interleaving of
requests in which no creator joins the own organization by an invitation, every creator keeps
the owner's membership and nobody else ever has one. -/
theorem owner_kept {platform : Platform} {entitlements : List Entitlement} {s : State}
    (h : Reaches (State.step platform) State.Admits (State.init entitlements) s) :
    s.db.OwnerKept := by
  have hsound : s.Sound :=
    h.invariant (State.sound_init entitlements) fun _ _ _ hs hok hstep => hs.step hok hstep
  exact hsound.db.ownerKept

/-! ### Two runs -/

section Example

/-- The token of 32 zero bytes, the one that both runs draw. -/
def zeroToken : String := "AAAAAAAAAAAAAAAAAAAAAAAAAAAAAAAAAAAAAAAAAAA"

/-- The digest of `zeroToken`, and the case mapping of the addresses used here. -/
def examplePlatform : Platform where
  sha256 s :=
    if s = zeroToken then "0f007385b6f9d4b7eeb2748605afe1a984a0a3bfa3f014d09e2a784ce9e5cd1a" else s
  toLowerCase := Str.toAsciiLowercase

/-- The random id whose free digits are all `c`. -/
def exampleId (c : Char) (h : c ≠ '-') : Uuid where
  groups := (List.replicate 8 c, List.replicate 4 c, '4' :: List.replicate 3 c,
    '8' :: List.replicate 3 c, List.replicate 12 c)
  lengths := by simp
  digits := by simp [h]

def aliceId : Uuid := exampleId 'a' (by decide)

def bobId : Uuid := exampleId 'b' (by decide)

def labId : Uuid := exampleId 'c' (by decide)

def labOrganization : String := "org_cccccccccccc4ccc8ccccccccccccccc"

/-- The clock and the random values of both runs. -/
def at100 : Ambient := ⟨100, zeroToken, labId⟩

/-- Create an organization as Alice and invite an address as an operator. -/
def inviteTo (email : String) : List Event :=
  [.request (.createOrganization aliceId "lab"), .resume 0 at100,
    .request (.createInvite aliceId labOrganization email .operator), .resume 0 at100,
    .resume 0 at100]

/-- Accept the invitation, statement by statement. -/
def acceptAs (user : UserIdentity) : List Event :=
  [.request (.acceptInvite user zeroToken), .resume 0 at100, .resume 0 at100, .resume 0 at100,
    .resume 0 at100]

instance (db : Database) : ∀ call : Call, Decidable (call.Admitted db)
  | .joinOrganization user _ consumed => inferInstanceAs (Decidable (∀ o ∈ db.organizations,
      o.id = consumed.organizationId → o.createdByUserId ≠ user.id.text))
  | .ensurePersonalOrganization .. => isTrue trivial
  | .createOrganization .. => isTrue trivial
  | .createInvite .. => isTrue trivial
  | .insertInvite .. => isTrue trivial
  | .acceptInvite .. => isTrue trivial
  | .readOrganization .. => isTrue trivial
  | .consumeInvite .. => isTrue trivial
  | .updateMemberRole .. => isTrue trivial
  | .readForUpdate .. => isTrue trivial
  | .writeRole .. => isTrue trivial
  | .removeMember .. => isTrue trivial
  | .readForRemoval .. => isTrue trivial
  | .deleteMember .. => isTrue trivial

instance (s : State) : ∀ e, Decidable (s.Admits e)
  | .request _ => isTrue trivial
  | .resume i _ => inferInstanceAs (Decidable (∀ call ∈ s.inflight[i]?, call.Admitted s.db))

/-- Bob joins by an invitation, and Alice makes him a viewer. -/
theorem owner_kept_with_viewer :
    ∃ s, Reaches (State.step examplePlatform) State.Admits (State.init []) s ∧
      ⟨labOrganization, bobId.text, .viewer, 100, 100⟩ ∈ s.db.memberships ∧
      s.db.OwnerKept := by
  obtain ⟨s, hs, hbob⟩ := exists_reaches_of_run (Q := fun s : State =>
      ⟨labOrganization, bobId.text, .viewer, 100, 100⟩ ∈ s.db.memberships)
    (State.step examplePlatform) State.Admits (State.init [])
    (inviteTo "Bob@Example.com" ++ acceptAs ⟨bobId, "bob@example.com"⟩ ++
      [.request (.updateMemberRole aliceId labOrganization bobId.text .viewer),
        .resume 0 at100, .resume 0 at100, .resume 0 at100])
    (by decide)
  exact ⟨s, hs, hbob, owner_kept hs⟩

/-- Alice invites her own address to the organization she created and accepts: the
organization has no owner any more. -/
theorem creator_demoted :
    ∃ s, Reaches (State.step examplePlatform) always (State.init []) s ∧ ¬ s.db.OwnerKept := by
  obtain ⟨s, hs, hnone⟩ := exists_reaches_of_run
    (Q := fun s : State => s.db.organizations ≠ [] ∧ ∀ m ∈ s.db.memberships, m.role ≠ .owner)
    (State.step examplePlatform) always (State.init [])
    (inviteTo "alice@example.com" ++ acceptAs ⟨aliceId, "alice@example.com"⟩)
    (by decide)
  refine ⟨s, hs, fun hkept => ?_⟩
  obtain ⟨o, ho⟩ := exists_mem_of_ne_nil _ hnone.1
  obtain ⟨m, hm, -, -, hrole⟩ := hkept.1 o ho
  exact hnone.2 m hm hrole

end Example

end AgentSight.Controller
