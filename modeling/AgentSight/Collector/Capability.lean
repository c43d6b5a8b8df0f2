import AgentSight.Text

/-!
# The capability store of a node

`collector/src/server/capability.rs`: a node mints random tokens that authorize actions, keeps
their grants in memory and writes those with a long lifetime to one file, which it reads when it
is first asked about a node. A `HashMap` is a partial function; of the file, what
`serde_json` reads from it is kept, so that a missing file and one that does not parse are the
same.
-/

namespace AgentSight.Collector

open Option

def nodeInfo : String := "node.info"

def evidenceRead : String := "evidence.read"

def sessionRead : String := "session.read"

def sessionMessage : String := "session.message"

def maxTtlSeconds : ℕ := 12 * 60 * 60

def persistThresholdSeconds : ℕ := 10 * 60

def u64Max : ℕ := 2 ^ 64 - 1

/-! ### Requests -/

def knownAction (action : String) : Bool :=
  [nodeInfo, evidenceRead, sessionRead, sessionMessage].contains action

def validSessionId (value : String) : Bool :=
  !value.isEmpty && value.utf8ByteSize ≤ 768 && !Str.containsChar value '/' &&
    !Str.containsChar value '\\' && !Str.contains value ".."

/-- The path before the query. -/
def beforeQuery (path : String) : String := ((Str.splitOnce path "?").map (·.1)).getD path

/-- `session.strip_suffix("/messages").map_or((session, false), |id| (id, true))`. -/
def splitMessages (session : String) : String × Bool :=
  match Str.stripSuffix session "/messages" with
  | none => (session, false)
  | some id => (id, true)

/-- The action a request needs, with the session it is about. -/
def actionForRequest (method path : String) : Option (String × Option String) :=
  let path := beforeQuery path
  if method = "GET" && path = "/api/v1/info" then some (nodeInfo, none)
  else if method = "GET" && (path = "/api/v1/snapshot" || path = "/api/v1/overview") then
    some (evidenceRead, none)
  else
    match Str.stripPrefix path "/api/v1/sessions/" with
    | none => none
    | some session =>
      let (sessionId, messages) := splitMessages session
      if !validSessionId sessionId then none
      else if method = "GET" && !messages then some (sessionRead, some sessionId)
      else if method = "POST" && messages then some (sessionMessage, some sessionId)
      else none

structure CapabilityMintRequest where
  actions : List String
  sessionId : Option String
  ttlSeconds : ℕ

def CapabilityMintRequest.validate (request : CapabilityMintRequest) : Except String Unit := do
  if request.actions.isEmpty || request.actions.length > 8 then
    throw "capability must contain between 1 and 8 actions"
  if request.actions.any (!knownAction ·) then throw "capability contains an unknown action"
  if !(30 ≤ request.ttlSeconds && request.ttlSeconds ≤ maxTtlSeconds) then
    throw "capability ttl must be between 30 seconds and 12 hours"
  if request.sessionId.any (!validSessionId ·) then throw "invalid capability session scope"

/-! ### The store -/

structure Grant where
  nodeId : String
  actions : List String
  sessionId : Option String
  expiresAt : ℕ
  persistent : Bool
  deriving DecidableEq

structure PersistedCapabilities where
  nodeId : String
  grants : String → Option Grant

structure CapabilityStore where
  nodeId : Option String
  persistPath : Option String
  grants : String → Option Grant

/-- The grant that `mint` inserts. -/
def CapabilityMintRequest.grant (request : CapabilityMintRequest) (nodeId : String) (now : ℕ) :
    Grant where
  nodeId := nodeId
  actions := request.actions
  sessionId := request.sessionId
  expiresAt := min (now + request.ttlSeconds) u64Max
  persistent := decide (request.ttlSeconds > persistThresholdSeconds)

/-- How writing the file goes: the file is complete, with or without an error after that, it
could not be opened and is what it was, or only a part of the new content was written. -/
inductive WriteOutcome where
  | written
  | unconfirmed
  | notOpened
  | cutShort
  deriving DecidableEq

namespace CapabilityStore

variable (store : CapabilityStore) (file : Option PersistedCapabilities) (now : ℕ)

/-- The store of a process that has just started. -/
def fresh (persistPath : Option String) : CapabilityStore := ⟨none, persistPath, fun _ => none⟩

def removeExpired : CapabilityStore :=
  { store with grants := fun token => (store.grants token).filter (now ≤ ·.expiresAt) }

/-- `ensure_node`: the store belongs to the first node it is asked about. -/
def ensureNode (nodeId : String) : CapabilityStore × Bool :=
  match store.nodeId with
  | some configured => (store, configured = nodeId)
  | none =>
    match store.persistPath, file.filter (·.nodeId = nodeId) with
    | some _, some saved =>
      ({ store with
          nodeId := some nodeId
          grants := fun token =>
            ((saved.grants token).filter fun grant => grant.persistent && now ≤ grant.expiresAt).or
              (store.grants token) }, true)
    | _, _ => ({ store with nodeId := some nodeId }, true)

def saved (nodeId : String) : PersistedCapabilities :=
  ⟨nodeId, fun token => (store.grants token).filter (·.persistent)⟩

def persist (outcome : WriteOutcome) : Option PersistedCapabilities × Except Unit Unit :=
  match store.nodeId, store.persistPath with
  | some nodeId, some _ =>
    match outcome with
    | .written => (some (store.saved nodeId), .ok ())
    | .unconfirmed => (some (store.saved nodeId), .error ())
    | .notOpened => (file, .error ())
    | .cutShort => (none, .error ())
  | _, _ => (file, .ok ())

def insert (token : String) (grant : Grant) : CapabilityStore :=
  { store with grants := Function.update store.grants token (some grant) }

/-- `mint`, which draws the token and writes the file as given. The source reads the clock twice,
in `ensure_node` and for the grant; `now` stands for both. -/
def mint (token : String) (outcome : WriteOutcome) (nodeId : String)
    (request : CapabilityMintRequest) :
    CapabilityStore × Option PersistedCapabilities × Except String (String × ℕ) :=
  match request.validate with
  | .error e => (store, file, .error e)
  | .ok () =>
    let (ensured, belongs) := store.ensureNode file now nodeId
    if !belongs then (ensured, file, .error "capability store belongs to another Node")
    else
      let grant := request.grant nodeId now
      let minted := (ensured.removeExpired now).insert token grant
      if grant.persistent then
        let (file, result) := minted.persist file outcome
        (minted, file,
          match result with
          | .error () => .error "could not persist capability"
          | .ok () => .ok (token, grant.expiresAt))
      else (minted, file, .ok (token, grant.expiresAt))

def authorizes (nodeId token action : String) (sessionId : Option String) :
    CapabilityStore × Bool :=
  let (ensured, belongs) := store.ensureNode file now nodeId
  if !belongs then (ensured, false)
  else
    let pruned := ensured.removeExpired now
    match pruned.grants token with
    | none => (pruned, false)
    | some grant =>
      if grant.nodeId ≠ nodeId || !grant.actions.any (· = action) then (pruned, false)
      else
        match grant.sessionId with
        | some expected => (pruned, sessionId = some expected)
        | none => (pruned, true)

/-! ### What the operations do to the grants -/

variable {store file now} {nodeId token : String} {grant : Grant}

@[simp] theorem removeExpired_nodeId : (store.removeExpired now).nodeId = store.nodeId := rfl

@[simp] theorem removeExpired_persistPath :
    (store.removeExpired now).persistPath = store.persistPath := rfl

@[simp] theorem insert_nodeId : (store.insert token grant).nodeId = store.nodeId := rfl

@[simp] theorem insert_persistPath :
    (store.insert token grant).persistPath = store.persistPath := rfl

theorem removeExpired_grants : (store.removeExpired now).grants token = some grant ↔
      store.grants token = some grant ∧ now ≤ grant.expiresAt := by
  simp [removeExpired, filter_eq_some_iff]

theorem insert_grants (token' : String) (grant' : Grant) :
    (store.insert token' grant').grants token = some grant ↔
      (token = token' ∧ grant' = grant) ∨ (token ≠ token' ∧ store.grants token = some grant) := by
  by_cases h : token = token' <;> simp [insert, h]

theorem saved_grants : (store.saved nodeId).grants token = some grant ↔
      store.grants token = some grant ∧ grant.persistent = true := by
  simp [saved, filter_eq_some_iff]

theorem ensureNode_of_bound {configured : String} (h : store.nodeId = some configured) :
    store.ensureNode file now nodeId = (store, decide (configured = nodeId)) := by
  simp [ensureNode, h]

theorem ensureNode_nodeId (h : (store.ensureNode file now nodeId).2 = true) :
    (store.ensureNode file now nodeId).1.nodeId = some nodeId := by
  cases hnode : store.nodeId with
  | some configured =>
    rw [ensureNode_of_bound hnode] at h ⊢
    rw [hnode, of_decide_eq_true h]
  | none =>
    simp only [ensureNode, hnode]
    split <;> rfl

@[simp] theorem ensureNode_persistPath :
    (store.ensureNode file now nodeId).1.persistPath = store.persistPath := by
  simp only [ensureNode]
  split
  · rfl
  · split <;> rfl

/-- It fails for a store that belongs to another node only, and leaves that alone. -/
theorem ensureNode_eq_false (h : (store.ensureNode file now nodeId).2 = false) :
    (store.ensureNode file now nodeId).1 = store := by
  cases hnode : store.nodeId with
  | some configured => rw [ensureNode_of_bound hnode]
  | none =>
    simp only [ensureNode, hnode] at h
    split at h <;> cases h

theorem ensureNode_belongs : (store.ensureNode file now nodeId).2 = true ↔
      store.nodeId = none ∨ store.nodeId = some nodeId := by
  cases hnode : store.nodeId with
  | some configured => simp [ensureNode_of_bound hnode]
  | none =>
    simp only [ensureNode, hnode]
    split <;> simp

/-- What a new store takes from the file. -/
theorem ensureNode_grants (hnode : store.nodeId = none) (hempty : store.grants token = none) :
    (store.ensureNode file now nodeId).1.grants token = some grant ↔
      store.persistPath.isSome = true ∧ ∃ saved ∈ file, saved.nodeId = nodeId ∧
        saved.grants token = some grant ∧ grant.persistent = true ∧ now ≤ grant.expiresAt := by
  simp only [ensureNode, hnode]
  split
  · next path saved hpath hsaved =>
    obtain ⟨hfile, hsame⟩ := filter_eq_some_iff.mp hsaved
    simp [hempty, or_none, filter_eq_some_iff, hpath, isSome_some,
      true_and, hfile, mem_def, some.injEq, exists_eq_left', of_decide_eq_true hsame,
      Bool.and_eq_true, decide_eq_true_eq]
  · next hnothing =>
    simp only [hempty, reduceCtorEq, false_iff]
    rintro ⟨hpath, saved, hfile, hsame, -⟩
    obtain ⟨path, hpath⟩ := isSome_iff_exists.mp hpath
    exact hnothing path saved hpath (filter_eq_some_iff.mpr ⟨hfile, decide_eq_true hsame⟩)

variable {sessionId : Option String} {action : String}

/-- What `authorizes` finds out. -/
theorem authorizes_eq_true : (store.authorizes file now nodeId token action sessionId).2 = true ↔
      (store.ensureNode file now nodeId).2 = true ∧ ∃ grant,
        (store.ensureNode file now nodeId).1.grants token = some grant ∧
        now ≤ grant.expiresAt ∧ grant.nodeId = nodeId ∧ action ∈ grant.actions ∧
        ∀ scope ∈ grant.sessionId, sessionId = some scope := by
  simp only [authorizes]
  generalize store.ensureNode file now nodeId = result
  obtain ⟨ensured, belongs⟩ := result
  cases belongs with
  | false => simp
  | true =>
    simp only [Bool.not_true, Bool.false_eq_true, if_false, true_and]
    cases hfound : (ensured.removeExpired now).grants token with
    | none =>
      simp only [Bool.false_eq_true, false_iff]
      rintro ⟨grant, hgrant, hexpires, -⟩
      rw [removeExpired_grants.mpr ⟨hgrant, hexpires⟩] at hfound
      cases hfound
    | some found =>
      obtain ⟨hgrant, hexpires⟩ := removeExpired_grants.mp hfound
      simp only [hgrant, some.injEq, exists_eq_left', hexpires, true_and]
      split
      · next hother =>
        simp only [Bool.or_eq_true, decide_eq_true_eq, Bool.not_eq_true',
          List.any_eq_false] at hother
        simp only [Bool.false_eq_true, false_iff]
        rintro ⟨hnode, haction, -⟩
        obtain hne | hnone := hother
        · exact hne hnode
        · exact absurd rfl (hnone action haction)
      · next hother =>
        simp only [Bool.or_eq_true, decide_eq_true_eq, Bool.not_eq_true', not_or, not_not,
          Bool.not_eq_false, List.any_eq_true] at hother
        obtain ⟨hnode, candidate, hcandidate, rfl⟩ := hother
        cases found.sessionId <;> simp [hnode, hcandidate]

/-- Which store `authorizes` leaves does not depend on what it finds. -/
theorem authorizes_store (h : (store.ensureNode file now nodeId).2 = true) :
    (store.authorizes file now nodeId token action sessionId).1 =
      (store.ensureNode file now nodeId).1.removeExpired now := by
  simp only [authorizes, h, Bool.not_true, Bool.false_eq_true, if_false]
  split
  · rfl
  · split
    · rfl
    · split <;> rfl

theorem authorizes_refused (h : (store.ensureNode file now nodeId).2 = false) :
    (store.authorizes file now nodeId token action sessionId).1 = store := by
  simp only [authorizes, h, Bool.not_false, if_true]
  exact ensureNode_eq_false h

end CapabilityStore

end AgentSight.Collector
