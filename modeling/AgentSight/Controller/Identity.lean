import AgentSight.Controller.Nodes

/-!
# The tables of the sign-in

`oauth_states`, `auth_codes` and `sessions` of `controller/schema.sql`, and the statements of
`controller/src/core.ts` on them. The deciding statement of each redemption is one `DELETE` or
`UPDATE` with `RETURNING`; it also checks the expiry, against a clock that the request read.
The tables `users` and `oauth_accounts` are not modelled: what the provider and `upsertUser`
yield for a callback is part of the callback.
-/

namespace AgentSight.Controller

open KeyedTable

def stateTtlSeconds : ℕ := 10 * 60

def authCodeTtlSeconds : ℕ := 2 * 60

def sessionTtlSeconds : ℕ := 30 * 24 * 60 * 60

inductive Provider where
  | github
  | google
  deriving DecidableEq

structure OAuthState where
  stateHash : String
  provider : Provider
  returnTo : String
  codeChallenge : String
  expiresAt : ℕ
  deriving DecidableEq

structure AuthCode where
  codeHash : String
  userId : String
  provider : Provider
  codeChallenge : String
  expiresAt : ℕ
  consumedAt : Option ℕ
  deriving DecidableEq

structure Session where
  tokenHash : String
  userId : String
  expiresAt : ℕ
  createdAt : ℕ
  lastSeenAt : ℕ
  deriving DecidableEq

structure IdentityTables where
  oauthStates : List OAuthState
  authCodes : List AuthCode
  sessions : List Session
  deriving DecidableEq

/-- The platform with the second form of the digest, which PKCE uses. -/
structure IdentityPlatform extends Platform where
  sha256Base64Url : String → String

/-- `/^[A-Za-z0-9_-]{43}$/`. -/
def isPkceChallenge (value : String) : Bool :=
  value.toList.length = 43 && value.toList.all isTokenChar

/-- `/^[A-Za-z0-9_-]{43,128}$/`. -/
def isPkceVerifier (value : String) : Bool :=
  43 ≤ value.toList.length && value.toList.length ≤ 128 && value.toList.all isTokenChar

namespace IdentityTables

variable (t : IdentityTables)

/-- The first three statements of `deleteExpiredRows`. -/
def deleteExpired (now : ℕ) : IdentityTables where
  oauthStates := t.oauthStates.filter fun row => ¬ row.expiresAt < now
  authCodes := t.authCodes.filter fun row => ¬ (row.expiresAt < now ∨ row.consumedAt.isSome)
  sessions := t.sessions.filter fun row => ¬ row.expiresAt < now

def insertState (row : OAuthState) : Option IdentityTables :=
  (insert OAuthState.stateHash t.oauthStates row).map fun oauthStates => { t with oauthStates }

/-- The row that the `DELETE ... RETURNING` of `finishOAuth` takes. -/
def findState (stateHash : String) (provider : Provider) (now : ℕ) : Option OAuthState :=
  (find OAuthState.stateHash t.oauthStates stateHash).filter fun row =>
    row.provider = provider && now ≤ row.expiresAt

def removeState (stateHash : String) : IdentityTables :=
  { t with oauthStates := delete OAuthState.stateHash t.oauthStates stateHash }

def insertAuthCode (row : AuthCode) : Option IdentityTables :=
  (insert AuthCode.codeHash t.authCodes row).map fun authCodes => { t with authCodes }

/-- The row that the `UPDATE ... RETURNING` of `exchangeAuthCode` changes. -/
def findAuthCode (codeHash codeChallenge : String) (now : ℕ) : Option AuthCode :=
  (find AuthCode.codeHash t.authCodes codeHash).filter fun row =>
    row.codeChallenge = codeChallenge && row.consumedAt.isNone && now ≤ row.expiresAt

def consumeAuthCode (codeHash : String) (now : ℕ) : IdentityTables :=
  { t with
    authCodes := update AuthCode.codeHash t.authCodes codeHash
      fun row => { row with consumedAt := some now } }

def insertSession (row : Session) : Option IdentityTables :=
  (insert Session.tokenHash t.sessions row).map fun sessions => { t with sessions }

/-- The statement of `logout`. -/
def deleteSession (tokenHash : String) : IdentityTables :=
  { t with sessions := delete Session.tokenHash t.sessions tokenHash }

end IdentityTables

/-- The last statement of `deleteExpiredRows`. -/
def Database.deleteExpiredInvites (db : Database) (now : ℕ) : Database :=
  { db with invites := db.invites.filter fun row =>
      ¬ (row.expiresAt < now ∨ row.consumedAt.isSome) }

end AgentSight.Controller
