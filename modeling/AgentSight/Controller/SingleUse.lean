import AgentSight.Controller.NodeOwnership

/-!
# Single use of credentials

An OAuth state, an authorization code and an invitation are each redeemed by one statement,
which takes the row or marks it consumed. The balance that every statement keeps: what was
redeemed, with the rows that can still be redeemed, does not exceed what was issued.
-/

namespace AgentSight.Controller

open KeyedTable Transition List Option World

/-! ### What was issued and what was redeemed -/

def Entry.issuedCredential : Entry → Option Credential
  | .issued credential => some credential
  | _ => none

def Entry.redeemedCredential : Entry → Option Credential
  | .redeemed credential .. => some credential
  | _ => none

def issues (history : List Entry) (credential : Credential) : ℕ :=
  (history.filterMap Entry.issuedCredential).count credential

def redemptions (history : List Entry) (credential : Credential) : ℕ :=
  (history.filterMap Entry.redeemedCredential).count credential

/-- The deciding statement of a state compares with the clock when it executes, that of a code
with the clock that the request read before it hashed the code, and that of an invitation with
the clock that the request read in its first statement. -/
def Entry.InTime : Entry → Prop
  | .redeemed credential bound clock expiresAt =>
    bound ≤ expiresAt ∧ ∀ hash, credential = .oauthState hash → bound = clock
  | _ => True

/-- The credential that the next statement of a task takes, if it finds the row. -/
def Task.presents (platform : ControllerPlatform) : Task → Option Credential
  | .finishOAuth _ state .. => some (.oauthState (platform.sha256 state))
  | .consumeAuthCode code _ _ => some (.authCode (platform.sha256 code))
  | .access (.consumeInvite _ tokenHash _) => some (.invite tokenHash)
  | _ => none

/-- Each issued credential is redeemed at most once and in time, and a request that goes on
after the statement that takes its credential has redeemed it. -/
structure System.SingleUse (platform : ControllerPlatform) (s : System) : Prop where
  once : ∀ credential, redemptions s.world.history credential ≤ issues s.world.history credential
  inTime : ∀ entry ∈ s.world.history, entry.InTime
  recorded : ∀ (running : Running) (env : Ambient) (credential : Credential) (next : Task)
    (w : World), running ∈ s.inflight → running.task.presents platform = some credential →
    running.task.resume platform s.world env = (w, .awaits next) →
    ∃ bound clock expiresAt,
      w.history = s.world.history ++ [.redeemed credential bound clock expiresAt]

section Counts

variable (history entries : List Entry) (credential : Credential)

@[simp] theorem issues_nil : issues [] credential = 0 := rfl

@[simp] theorem redemptions_nil : redemptions [] credential = 0 := rfl

@[simp] theorem issues_append : issues (history ++ entries) credential = issues history credential +
      issues entries credential := by
  simp [issues]

@[simp] theorem redemptions_append :
    redemptions (history ++ entries) credential = redemptions history credential +
      redemptions entries credential := by
  simp [redemptions]

variable (c : Credential)

@[simp] theorem issues_issued :
    issues [.issued c] credential = if c = credential then 1 else 0 := by
  simp [issues, Entry.issuedCredential, count_singleton]

@[simp] theorem redemptions_issued : redemptions [.issued c] credential = 0 := rfl

@[simp] theorem issues_redeemed (bound clock expiresAt : ℕ) :
    issues [.redeemed c bound clock expiresAt] credential = 0 := rfl

@[simp] theorem redemptions_redeemed (bound clock expiresAt : ℕ) :
    redemptions [.redeemed c bound clock expiresAt] credential =
      if c = credential then 1 else 0 := by
  simp [redemptions, Entry.redeemedCredential, count_singleton]

end Counts

/-! ### Rows that can still be redeemed -/

def OAuthState.isFor (hash : String) (row : OAuthState) : Bool := row.stateHash = hash

def AuthCode.isOpen (hash : String) (row : AuthCode) : Bool :=
  row.codeHash = hash && row.consumedAt.isNone

def Invite.isOpen (hash : String) (row : Invite) : Bool :=
  row.tokenHash = hash && row.consumedAt.isNone

def World.unused (w : World) : Credential → ℕ
  | .oauthState hash => w.identity.oauthStates.countP (·.isFor hash)
  | .authCode hash => w.identity.authCodes.countP (·.isOpen hash)
  | .invite hash => w.db.invites.countP (·.isOpen hash)

/-- What a step may record and do to the rows. -/
structure Spends (w w' : World) (entries : List Entry) : Prop where
  grows : w'.history = w.history ++ entries
  balance : ∀ credential, redemptions entries credential + w'.unused credential ≤
      w.unused credential + issues entries credential
  inTime : ∀ entry ∈ entries, entry.InTime

variable {w w' : World}

theorem World.unused_eq (hidentity : w'.identity = w.identity)
    (hinvites : w'.db.invites = w.db.invites) (credential : Credential) :
    w'.unused credential = w.unused credential := by
  cases credential with
  | oauthState | authCode => simp [unused, hidentity]
  | invite => simp [unused, hinvites]

@[simp] theorem World.unused_record (w : World) (entries : List Entry) (credential : Credential) :
    (w.record entries).unused credential = w.unused credential := by
  cases credential <;> rfl

/-- Rows only go. -/
theorem spends_nil (hhistory : w'.history = w.history)
    (hunused : ∀ credential, w'.unused credential ≤ w.unused credential) : Spends w w' [] where
  grows := by rw [hhistory, append_nil]
  balance credential := by simpa using hunused credential
  inTime _ h := (not_mem_nil h).elim

theorem spends_refl (w : World) : Spends w w [] := spends_nil rfl fun _ => le_rfl

/-- Entries of checks and of envelopes are neither issues nor redemptions. -/
theorem spends_of_neutral {entries : List Entry} (grows : w'.history = w.history ++ entries)
    (hunused : ∀ credential, w'.unused credential = w.unused credential)
    (neutral : ∀ entry ∈ entries, entry.isObservation = true ∨ entry.isForwarded = true) :
    Spends w w' entries := by
  have hredeemed : ∀ entry ∈ entries, entry.redeemedCredential = none := by
    intro entry hentry
    obtain h | h := neutral entry hentry <;> cases entry <;> first | rfl | cases h
  refine ⟨grows, fun credential => ?_, fun entry hentry => ?_⟩
  · have hno : redemptions entries credential = 0 := by
      rw [redemptions, filterMap_eq_nil_iff.mpr hredeemed, count_nil]
    rw [hunused]
    omega
  · obtain h | h := neutral entry hentry <;> cases entry <;> trivial

/-! ### The sign-in -/

section SignIn

variable {platform : ControllerPlatform} (w : World) (env : Ambient)

variable (provider : Provider)

theorem spends_startOAuth (returnTo codeChallenge : String) :
    Spends w (runStartOAuth w provider returnTo codeChallenge env.now).1 [] := by
  unfold runStartOAuth
  split
  · refine spends_nil rfl fun credential => ?_
    cases credential <;> exact Sublist.countP_le filter_sublist
  · exact spends_refl w

theorem spends_insertState (returnTo codeChallenge : String) :
    ∃ entries, Spends w
      (runInsertState platform.toPlatform w provider returnTo codeChallenge env).1 entries := by
  unfold runInsertState
  dsimp only
  split
  · exact ⟨[], spends_refl w⟩
  · next identity hinsert =>
    obtain ⟨rows, hrows, rfl⟩ := map_eq_some_iff.mp hinsert
    obtain ⟨-, rfl⟩ := insert_eq_some.mp hrows
    refine ⟨_, rfl, fun credential => ?_, by simp [Entry.InTime]⟩
    cases credential with
    | oauthState hash =>
      simp [unused, record, OAuthState.isFor, countP_singleton]
    | authCode hash => simp [unused, record]
    | invite hash => simp [unused, record]

theorem spends_finishOAuth (state code : String) (configured : Bool)
    (user : Option String) :
    ∃ entries, Spends w
      (runFinishOAuth platform.toPlatform w provider state code configured user env.now).1
        entries := by
  unfold runFinishOAuth
  dsimp only
  split
  · exact ⟨[], spends_refl w⟩
  · next row hrow =>
    obtain ⟨hfind, hopen⟩ := filter_eq_some_iff.mp hrow
    simp only [Bool.and_eq_true, decide_eq_true_eq] at hopen
    refine ⟨_, rfl, fun credential => ?_, by simpa [Entry.InTime] using hopen.2⟩
    cases credential with
    | oauthState hash =>
      simpa [unused, record, IdentityTables.removeState] using
        countP_delete_add_le (p := OAuthState.isFor) hfind
          (by simpa [OAuthState.isFor] using (mem_of_find hfind).2) hash
    | authCode hash => simp [unused, record, IdentityTables.removeState]
    | invite hash => simp [unused, record]

theorem spends_insertAuthCode (userId : String) (provider : Provider) (codeChallenge : String) :
    ∃ entries, Spends w
      (runInsertAuthCode platform.toPlatform w userId provider codeChallenge env).1 entries := by
  unfold runInsertAuthCode
  dsimp only
  split
  · exact ⟨[], spends_refl w⟩
  · next identity hinsert =>
    obtain ⟨rows, hrows, rfl⟩ := map_eq_some_iff.mp hinsert
    obtain ⟨-, rfl⟩ := insert_eq_some.mp hrows
    refine ⟨_, rfl, fun credential => ?_, by simp [Entry.InTime]⟩
    cases credential with
    | oauthState hash => simp [unused, record]
    | authCode hash => simp [unused, record, AuthCode.isOpen, countP_singleton]
    | invite hash => simp [unused, record]

theorem spends_consumeAuthCode (code verifier : String) (bound : ℕ) : ∃ entries, Spends w
      (runConsumeAuthCode platform.toIdentityPlatform w code verifier bound env.now).1
        entries := by
  unfold runConsumeAuthCode
  dsimp only
  split
  · exact ⟨[], spends_refl w⟩
  · next row hrow =>
    obtain ⟨hfind, hopen⟩ := filter_eq_some_iff.mp hrow
    simp only [Bool.and_eq_true, decide_eq_true_eq] at hopen
    refine ⟨_, rfl, fun credential => ?_, by simpa [Entry.InTime] using hopen.2⟩
    cases credential with
    | oauthState hash => simp [unused, record, IdentityTables.consumeAuthCode]
    | authCode hash =>
      have hwrite : (update AuthCode.codeHash w.identity.authCodes (platform.sha256 code)
          fun row => { row with consumedAt := some bound }).countP (·.isOpen hash) =
            (delete AuthCode.codeHash w.identity.authCodes
              (platform.sha256 code)).countP (·.isOpen hash) :=
        countP_update fun _ => by simp [AuthCode.isOpen]
      simpa [unused, record, IdentityTables.consumeAuthCode, hwrite] using
        countP_delete_add_le (p := AuthCode.isOpen) hfind
          (by simp [AuthCode.isOpen, (mem_of_find hfind).2, hopen.1.2]) hash
    | invite hash => simp [unused, record]

end SignIn

/-! ### Invitations -/

/-- The calls whose next statement writes an invitation. -/
def Call.writesInvite : Call → Bool
  | .insertInvite _ => true
  | .consumeInvite .. => true
  | _ => false

/-- Every other statement of the access model leaves the invitations alone. -/
theorem invites_resume (platform : Platform) (db : Database) (env : Ambient) {call : Call}
    (h : call.writesInvite = false) : (resume platform db env call).1.invites = db.invites := by
  generalize hdb : (resume platform db env call).1 = db'
  cases writes_resume hdb with
  | insertInvite | consumeInvite => cases h
  | _ => rfl

theorem accessEntries_eq_nil {db : Database} {clock : ℕ} {call : Call} {outcome : Outcome}
    (h : call.writesInvite = false) : accessEntries db clock call outcome = [] := by
  unfold accessEntries
  split
  · cases h
  · cases h
  · rfl

section Invites

variable (platform : Platform) (w : World) (env : Ambient)

theorem spends_insertInvite (row : Invite) (hrow : row.consumedAt = none) :
    ∃ entries, Spends w (runAccess platform w env (.insertInvite row)).1 entries := by
  simp only [runAccess, resume, runInsertInvite]
  split
  · split
    · next invites hinsert =>
      obtain ⟨-, rfl⟩ := insert_eq_some.mp hinsert
      refine ⟨_, rfl, fun credential => ?_, by simp [accessEntries, Entry.InTime]⟩
      cases credential with
      | oauthState | authCode => simp [unused, record, accessEntries]
      | invite hash =>
        simp [unused, record, accessEntries, Invite.isOpen, hrow, countP_singleton]
    · exact ⟨[], by simpa [accessEntries] using spends_refl w⟩
  · exact ⟨[], by simpa [accessEntries] using spends_refl w⟩

theorem spends_consumeInvite (user : UserIdentity) (tokenHash : String) (now : ℕ) : ∃ entries,
      Spends w (runAccess platform w env (.consumeInvite user tokenHash now)).1 entries := by
  simp only [runAccess, resume, runConsumeInvite]
  split
  · exact ⟨[], by simpa [accessEntries] using spends_refl w⟩
  · next row hrow =>
    obtain ⟨hfind, hopen⟩ := filter_eq_some_iff.mp hrow
    simp only [Invite.isOpenFor, Bool.and_eq_true, decide_eq_true_eq] at hopen
    refine ⟨_, rfl, fun credential => ?_, by
      simpa [accessEntries, hrow, Entry.InTime] using hopen.2⟩
    cases credential with
    | oauthState | authCode => simp [unused, record, accessEntries, hrow]
    | invite hash =>
      have hwrite : (update Invite.tokenHash w.db.invites tokenHash
          fun row => { row with consumedAt := some now }).countP (·.isOpen hash) =
            (delete Invite.tokenHash w.db.invites tokenHash).countP (·.isOpen hash) :=
        countP_update fun _ => by simp [Invite.isOpen]
      simpa [unused, record, accessEntries, hrow, hwrite] using
        countP_delete_add_le (p := Invite.isOpen) hfind
          (by simp [Invite.isOpen, (mem_of_find hfind).2, hopen.1.2]) hash

/-- A row that is to be inserted is not consumed. -/
def Call.InsertsOpen : Call → Prop
  | .insertInvite row => row.consumedAt = none
  | _ => True

theorem spends_access {call : Call} (hcall : call.InsertsOpen) :
    ∃ entries, Spends w (runAccess platform w env call).1 entries := by
  by_cases hwrites : call.writesInvite = true
  · cases call with
    | insertInvite row => exact spends_insertInvite platform w env row hcall
    | consumeInvite user tokenHash now =>
      exact spends_consumeInvite platform w env user tokenHash now
    | _ => cases hwrites
  · rw [Bool.not_eq_true] at hwrites
    refine ⟨[], spends_nil ?_ fun credential => ?_⟩
    · rw [runAccess, accessEntries_eq_nil hwrites, record_nil]
    · have hinvites := invites_resume platform w.db env hwrites
      refine le_of_eq ?_
      apply World.unused_eq
      · rfl
      · exact hinvites

end Invites

/-! ### Statements -/

def Task.InsertsOpen : Task → Prop
  | .access call => call.InsertsOpen
  | _ => True

section Statements

variable (platform : ControllerPlatform) (w : World) (env : Ambient)

theorem spends_removeOrganization (organizationId : String) :
    Spends w (runRemoveOrganization w organizationId).1 [] := by
  refine spends_nil rfl fun credential => ?_
  cases credential with
  | oauthState | authCode => exact le_rfl
  | invite => exact Sublist.countP_le filter_sublist

/-- Whatever statement a task executes. -/
theorem spends_resume {task : Task} (htask : task.InsertsOpen) :
    ∃ entries, Spends w (task.resume platform w env).1 entries := by
  cases hkind : task.kind with
  | reads =>
    obtain ⟨entries, hobservations, hworld⟩ := resume_of_reads platform w env hkind
    rw [hworld]
    exact ⟨entries, spends_of_neutral rfl (fun _ => World.unused_record ..)
      fun entry hentry => .inl (hobservations entry hentry)⟩
  | store =>
    cases task with
    | access call => exact spends_access platform.toPlatform w env htask
    | startOAuth provider returnTo codeChallenge =>
      exact ⟨[], spends_startOAuth w env provider returnTo codeChallenge⟩
    | insertState provider returnTo codeChallenge =>
      exact spends_insertState w env provider returnTo codeChallenge
    | finishOAuth provider state code configured user =>
      exact spends_finishOAuth w env provider state code configured user
    | insertAuthCode userId provider codeChallenge =>
      exact spends_insertAuthCode w env userId provider codeChallenge
    | consumeAuthCode code verifier bound =>
      exact spends_consumeAuthCode w env code verifier bound
    | insertSession userId =>
      simp only [Task.resume, runInsertSession]
      split
      · exact ⟨[], spends_refl w⟩
      · next identity hinsert =>
        obtain ⟨rows, -, rfl⟩ := map_eq_some_iff.mp hinsert
        exact ⟨[], spends_nil rfl fun credential => by cases credential <;> exact le_rfl⟩
    | logout token =>
      exact ⟨[], spends_nil rfl fun credential => by cases credential <;> exact le_rfl⟩
    | _ => cases hkind
  | tables =>
    cases task with
    | removeOrganization userId organizationId =>
      exact ⟨[], spends_removeOrganization w organizationId⟩
    | writeNode userId organizationId node =>
      simp only [Task.resume, runWriteNode]
      split
      · exact ⟨[], spends_refl w⟩
      · exact ⟨[], spends_nil rfl fun credential => (World.unused_eq rfl rfl credential).le⟩
    | removeNode | removeDirectConfig | touchNode =>
      exact ⟨[], spends_nil rfl fun credential => (World.unused_eq rfl rfl credential).le⟩
    | _ => cases hkind
  | relay =>
    cases task with
    | forward | openSocket =>
      exact ⟨[], spends_nil rfl fun credential => (World.unused_eq rfl rfl credential).le⟩
    | _ => cases hkind

/-- A request inserts only invitations that are not consumed. -/
theorem insertsOpen_next {task next : Task}
    (h : Continues platform w env task next w') : next.InsertsOpen := by
  cases h with
  | access hnext =>
    obtain ⟨db', -, hproceeds⟩ := exists_proceeds hnext
    cases hproceeds with
    | createInvite => rfl
    | _ => trivial
  | checkAccess haction haccess hnext =>
    obtain rfl | rfl | ⟨input, rfl⟩ | ⟨purpose, rfl⟩ := proceed_cases hnext <;> trivial
  | _ => trivial

/-- The statement that takes a credential records it when the request goes on. -/
theorem redeemed_of_continues {task next : Task} {credential : Credential}
    (h : Continues platform w env task next w')
    (hpresents : task.presents platform = some credential) :
    ∃ bound clock expiresAt,
      w'.history = w.history ++ [.redeemed credential bound clock expiresAt] := by
  cases h with
  | @access call call' hnext =>
    cases call with
    | consumeInvite user tokenHash now =>
      obtain rfl := some.inj hpresents
      obtain ⟨db', -, hproceeds⟩ := exists_proceeds hnext
      cases hproceeds with
      | @consumeInvite _ _ _ row hrow =>
        refine ⟨now, env.now, row.expiresAt, ?_⟩
        simp only [runAccess, hnext, accessEntries, hrow]
        rfl
    | _ => cases hpresents
  | finishOAuth | consumeAuthCode =>
    obtain rfl := some.inj hpresents
    exact ⟨_, _, _, rfl⟩
  | _ => cases hpresents

end Statements

/-! ### Runs -/

namespace System

/-- What was redeemed, with the rows that can still be redeemed, was issued. -/
structure Balanced (s : System) : Prop where
  balance : ∀ credential, redemptions s.world.history credential + s.world.unused credential ≤
      issues s.world.history credential
  inTime : ∀ entry ∈ s.world.history, entry.InTime
  insertsOpen : ∀ running ∈ s.inflight, running.task.InsertsOpen

variable {platform : ControllerPlatform} {s s' : System} {e : SystemEvent}

theorem balanced_init (entitlements : List Entitlement) : (init entitlements).Balanced where
  balance credential := by cases credential <;> simp [init, unused]
  inTime _ h := (not_mem_nil h).elim
  insertsOpen _ h := (not_mem_nil h).elim

theorem Balanced.of_spends (h : s.Balanced) {entries : List Entry}
    (hspends : Spends s.world s'.world entries)
    (insertsOpen : ∀ running ∈ s'.inflight, running.task.InsertsOpen) : s'.Balanced where
  balance credential := by
    have hbalance := h.balance credential
    have hspent := hspends.balance credential
    simp only [hspends.grows, redemptions_append, issues_append]
    omega
  inTime entry hentry := by
    rw [hspends.grows] at hentry
    obtain hentry | hentry := mem_append.mp hentry
    · exact h.inTime entry hentry
    · exact hspends.inTime entry hentry
  insertsOpen := insertsOpen

theorem Balanced.step (h : s.Balanced) (hs : s.step platform e = some s') : s'.Balanced := by
  obtain ⟨task, -, hrequest, hworld, hinflight⟩ |
    ⟨i, env, running, -, hrunning, hworld, hinflight⟩ | ⟨nodeId, event, relay, -, -, rfl⟩ |
    ⟨nodeId, call, id, sends, world, -, hworld, rfl⟩ := step_cases hs
  · have hspends : Spends s.world s'.world [] := hworld.symm ▸ spends_refl s.world
    refine h.of_spends hspends fun r hr => ?_
    rw [hinflight] at hr
    obtain hr | hr := mem_append.mp hr
    · exact h.insertsOpen r hr
    · rw [mem_singleton.mp hr]
      cases task with
      | access call =>
        cases call with
        | insertInvite => cases hrequest
        | _ => trivial
      | _ => trivial
  · have hopen := h.insertsOpen running (mem_of_getElem? hrunning)
    obtain ⟨entries, hspends⟩ := spends_resume platform s.world env hopen
    rw [← hworld] at hspends
    refine h.of_spends hspends fun r hr => ?_
    obtain hr | ⟨next, hcontinues, rfl⟩ := hinflight r hr
    · exact h.insertsOpen r hr
    · exact insertsOpen_next platform s.world env hcontinues
  · exact h.of_spends (spends_nil rfl fun credential => (World.unused_eq rfl rfl credential).le)
      h.insertsOpen
  · obtain ⟨origin, relay, -, -, rfl⟩ := World.receiveBody_eq_some hworld
    refine h.of_spends (spends_of_neutral rfl (fun _ => World.unused_record ..)
      fun entry hentry => ?_) h.insertsOpen
    obtain ⟨sent, -, rfl⟩ := mem_map.mp hentry
    exact .inr rfl

end System

/-- **Single use.** Whatever the order of the statements of all requests, each issued OAuth
state, authorization code and invitation is redeemed at most once and in time, and no request
goes on from the statement that takes one without having redeemed it. -/
theorem single_use {platform : ControllerPlatform} {entitlements : List Entitlement} {s : System}
    (h : Reaches (System.step platform) always (System.init entitlements) s) :
    s.SingleUse platform := by
  have hbalanced : s.Balanced :=
    h.invariant (System.balanced_init entitlements) fun _ _ _ hi _ hstep => hi.step hstep
  refine ⟨fun credential => ?_, hbalanced.inTime, ?_⟩
  · have hbalance := hbalanced.balance credential
    omega
  · intro running env credential next w _ hpresents hresume
    exact redeemed_of_continues platform s.world env (continues_of_resume hresume) hpresents

/-! ### Two runs -/

section Example

/-- Alice's organization and an invitation for Bob, which expires a week after 100. -/
def labWithInvite : List SystemEvent :=
  requestFor (.access (.createOrganization aliceId "lab")) 0 1 ++
    requestFor (.access (.createInvite aliceId labOrganization "bob@example.com" .viewer)) 0 2

def bobAccepts : Task := .access (.acceptInvite ⟨bobId, "bob@example.com"⟩ zeroToken)

/-- Two requests of Bob with one invitation, both up to the statement that takes it. -/
def bobRaces : List SystemEvent := requestFor bobAccepts 0 2 ++ requestFor bobAccepts 1 2

/-- One of the two requests takes the invitation, and the other finds it taken. -/
theorem single_use_race : ∃ s, Reaches (System.step exampleController) always (System.init []) s ∧
      (∃ credential, redemptions s.world.history credential = 1) ∧
      s.SingleUse exampleController := by
  obtain ⟨s, hs, hone⟩ := exists_reaches_of_run (Q := fun s : System => redemptions s.world.history
      (.invite (exampleController.sha256 zeroToken)) = 1)
    (System.step exampleController) always (System.init [])
    (labWithInvite ++ bobRaces ++ [.resume 0 at100, .resume 1 at100]) (by decide)
  exact ⟨s, hs, ⟨_, hone⟩, single_use hs⟩

/-- A request that began in time takes the invitation long after it has expired. -/
theorem redeemed_after_expiry :
    ∃ s, Reaches (System.step exampleController) always (System.init []) s ∧
      ∃ credential bound clock expiresAt,
        .redeemed credential bound clock expiresAt ∈ s.world.history ∧ expiresAt < clock := by
  obtain ⟨s, hs, hlate⟩ := exists_reaches_of_run
    (Q := fun s : System => .redeemed (.invite (exampleController.sha256 zeroToken)) 100 1000000
      604900 ∈ s.world.history)
    (System.step exampleController) always (System.init [])
    (labWithInvite ++ requestFor bobAccepts 0 2 ++ [.resume 0 { at100 with now := 1000000 }])
    (by decide)
  exact ⟨s, hs, _, _, _, _, hlate, by decide⟩

end Example

end AgentSight.Controller
