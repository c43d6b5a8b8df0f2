import AgentSight.Collector.Capability
import AgentSight.Controller.RelayRoute

/-!
# What a relayed path needs

The controller checks an action for a request it relays (`browserRelayRoute`, `relayAction`).
The node filters the path (`allowed_relay_path` of `collector/src/server/relay_client.rs`),
mints a capability for the action it finds itself (`action_for_request`) and serves the path
under the check of the matching arm of `web.rs`. The three agree.
-/

namespace AgentSight.Collector

open Controller Option

/-! ### The relay client -/

/-- `strip_prefix("audit_limit=")` and at most six digits. -/
def validSnapshotQuery (query : String) : Bool :=
  match Str.stripPrefix query "audit_limit=" with
  | none => false
  | some value => !value.isEmpty && value.utf8ByteSize ≤ 6 && value.toList.all Char.isDigit

def allowedRelayPath (method value : String) : Bool :=
  let (path, query) :=
    match Str.splitOnce value "?" with
    | none => (value, none)
    | some (path, query) => (path, some query)
  if method = "POST" && path = "/api/v1/capabilities" && query.isNone then true
  else if method = "GET" && path = "/api/v1/snapshot" then query.all validSnapshotQuery
  else if method = "GET" && path = "/api/v1/overview" then query.isNone
  else if query.isSome then false
  else
    match Str.stripPrefix path "/api/v1/sessions/" with
    | none => false
    | some session =>
      let (sessionId, messages) := splitMessages session
      if sessionId.isEmpty || sessionId.utf8ByteSize > 768 || Str.containsChar sessionId '/' ||
          Str.containsChar sessionId '\\' || Str.contains sessionId ".." then false
      else (method = "GET" && !messages) || (method = "POST" && messages)

/-- With what `handle_request` forwards a request to the node's own server. -/
inductive RelayCredential where
  | bootstrap
  /-- A capability that is minted for the action and the session. -/
  | capability (action : String) (sessionId : Option String)
  deriving DecidableEq

/-- `handle_request` up to the request it forwards; `none` is the error
`relay_path_not_allowed`. -/
def relayCredential (method path : String) : Option RelayCredential :=
  if !allowedRelayPath method path then none
  else if method = "POST" && path = "/api/v1/capabilities" then some .bootstrap
  else (actionForRequest method path).map fun (action, sessionId) => .capability action sessionId

/-! ### The node's server -/

inductive Route where
  | info
  | capabilities
  | snapshot
  | overview
  | session (id : String)
  | message (id : String)
  | asset
  | notFound
  deriving DecidableEq

def sessionDetailId (path : String) : Option String :=
  (Str.stripPrefix path "/api/v1/sessions/").filter fun id =>
    !id.isEmpty && !Str.containsChar id '/'

def sessionMessageId (path : String) : Option String :=
  ((Str.stripPrefix path "/api/v1/sessions/").bind (Str.stripSuffix · "/messages")).filter
    fun id => !id.isEmpty && !Str.containsChar id '/'

/-- The arm of `handle_request` in `web.rs`. -/
def route (method path : String) : Route :=
  if method = "GET" && path = "/api/v1/info" then .info
  else if method = "POST" && path = "/api/v1/capabilities" then .capabilities
  else if method = "GET" && path = "/api/v1/snapshot" then .snapshot
  else if method = "GET" && path = "/api/v1/overview" then .overview
  else if method = "GET" then
    match sessionDetailId path with
    | some id => .session id
    | none => .asset
  else if method = "POST" then
    match sessionMessageId path with
    | some id => .message id
    | none => .notFound
  else .notFound

/-- The action and the session that an arm requires of a capability. -/
def Route.requires : Route → Option (String × Option String)
  | .info => some (nodeInfo, none)
  | .snapshot => some (evidenceRead, none)
  | .overview => some (evidenceRead, none)
  | .session id => some (sessionRead, some id)
  | .message id => some (sessionMessage, some id)
  | .capabilities => none
  | .asset => none
  | .notFound => none

/-- The path that the node's server sees of a request of its relay client. A URI has no
fragment in its path, and its query is split off; what is no URI is not sent. -/
structure LocalServer where
  servedPath : String → Option String
  servedPath_eq : ∀ path served, '#' ∉ path.toList → servedPath path = some served →
    served = beforeQuery path

/-! ### The controller's names -/

def methodText : Method → String
  | .get => "GET"
  | .post => "POST"

/-- The names of the actions that a node knows; the others stay with the controller. -/
def actionText : Action → Option String
  | .nodeInfo => some nodeInfo
  | .evidenceRead => some evidenceRead
  | .sessionRead => some sessionRead
  | .sessionMessage => some sessionMessage
  | _ => none

variable {path : String}

/-! ### What the filter lets through -/

section Filter

variable {method value : String}

theorem beforeQuery_prefix (value : String) : (beforeQuery value).toList <+: value.toList := by
  unfold beforeQuery
  cases hsplit : Str.splitOnce value "?" with
  | none => exact List.prefix_rfl
  | some parts => exact Str.splitOnce_prefix hsplit

/-- The check of a session that the filter writes out is the one of the capability store. -/
theorem filterSession_eq (sessionId : String) :
    (sessionId.isEmpty || sessionId.utf8ByteSize > 768 || Str.containsChar sessionId '/' ||
      Str.containsChar sessionId '\\' || Str.contains sessionId "..") =
      !validSessionId sessionId := by
  simp [validSessionId, Bool.not_and, Bool.or_assoc, ← decide_not]

/-- The paths that the filter lets through. -/
theorem allowedRelayPath_cases (h : allowedRelayPath method value = true) :
    (method = "POST" ∧ value = "/api/v1/capabilities") ∨
    (method = "GET" ∧ beforeQuery value = "/api/v1/snapshot") ∨
    (method = "GET" ∧ value = "/api/v1/overview" ∧ beforeQuery value = value) ∨
    ∃ session, beforeQuery value = value ∧
      Str.stripPrefix value "/api/v1/sessions/" = some session ∧
      validSessionId (splitMessages session).1 = true ∧
      (method = "GET" ∧ (splitMessages session).2 = false ∨
        method = "POST" ∧ (splitMessages session).2 = true) := by
  unfold allowedRelayPath at h
  cases hsplit : Str.splitOnce value "?" with
  | some parts =>
    obtain ⟨path, query⟩ := parts
    have hbefore : beforeQuery value = path := by simp [beforeQuery, hsplit]
    simp only [hsplit, isNone_some, isSome_some, Bool.and_false, Bool.false_eq_true,
      if_false, if_true] at h
    split at h
    · next hsnapshot =>
      simp only [Bool.and_eq_true, decide_eq_true_eq] at hsnapshot
      exact .inr (.inl ⟨hsnapshot.1, hbefore.trans hsnapshot.2⟩)
    · split at h <;> cases h
  | none =>
    have hbefore : beforeQuery value = value := by simp [beforeQuery, hsplit]
    simp only [hsplit, isNone_none, isSome_none, Bool.and_true, Bool.false_eq_true,
      if_false, filterSession_eq] at h
    split at h
    · next hmint =>
      simp only [Bool.and_eq_true, decide_eq_true_eq] at hmint
      exact .inl hmint
    · split at h
      · next hsnapshot =>
        simp only [Bool.and_eq_true, decide_eq_true_eq] at hsnapshot
        exact .inr (.inl ⟨hsnapshot.1, hbefore.trans hsnapshot.2⟩)
      · split at h
        · next hoverview =>
          simp only [Bool.and_eq_true, decide_eq_true_eq] at hoverview
          exact .inr (.inr (.inl ⟨hoverview.1, hoverview.2, hbefore⟩))
        · split at h
          · cases h
          · next session hsession =>
            refine .inr (.inr (.inr ⟨session, hbefore, hsession, ?_⟩))
            simpa using h

theorem beforeQuery_beforeQuery (value : String) :
    beforeQuery (beforeQuery value) = beforeQuery value := by
  cases hsplit : Str.splitOnce value "?" with
  | none => simp [beforeQuery, hsplit]
  | some parts =>
    obtain ⟨⟨before, after⟩, hchars, rfl⟩ := map_eq_some_iff.mp hsplit
    have hbefore : beforeQuery value = String.ofList before := by simp [beforeQuery, hsplit]
    have hnone : Str.splitOnce (String.ofList before) "?" = none := by
      refine map_eq_none_iff.mpr (Str.splitOnceChars_of_notMem ?_)
      rw [String.toList_ofList]
      exact Str.notMem_of_splitOnceChars hchars
    rw [hbefore, beforeQuery, hnone]
    rfl

theorem actionForRequest_beforeQuery (method value : String) :
    actionForRequest method (beforeQuery value) = actionForRequest method value := by
  simp [actionForRequest, beforeQuery_beforeQuery]

/-- A session path is none of the fixed paths. -/
theorem ne_of_stripPrefix {session : String}
    (h : Str.stripPrefix path "/api/v1/sessions/" = some session) :
    path ≠ "/api/v1/info" ∧ path ≠ "/api/v1/snapshot" ∧ path ≠ "/api/v1/overview" := by
  refine ⟨?_, ?_, ?_⟩ <;> rintro rfl <;> exact absurd (Str.stripPrefix_eq_some h) (by decide)

theorem actionForRequest_of_session {session : String}
    (hsession : Str.stripPrefix (beforeQuery value) "/api/v1/sessions/" = some session)
    (hvalid : validSessionId (splitMessages session).1 = true) :
    (method = "GET" → (splitMessages session).2 = false →
      actionForRequest method value = some (sessionRead, some (splitMessages session).1)) ∧
    (method = "POST" → (splitMessages session).2 = true →
      actionForRequest method value = some (sessionMessage, some (splitMessages session).1)) := by
  obtain ⟨hinfo, hsnapshot, hoverview⟩ := ne_of_stripPrefix hsession
  constructor
  · rintro rfl hmessages
    simp [actionForRequest, hinfo, hsnapshot, hoverview, hsession, hvalid, hmessages]
  · rintro rfl hmessages
    simp [actionForRequest, hsession, hvalid, hmessages]

/-- The arm that serves a session path. -/
theorem route_of_session {session : String}
    (hsession : Str.stripPrefix value "/api/v1/sessions/" = some session)
    (hvalid : validSessionId (splitMessages session).1 = true) :
    (method = "GET" → (splitMessages session).2 = false →
      route method value = .session (splitMessages session).1) ∧
    (method = "POST" → (splitMessages session).2 = true →
      route method value = .message (splitMessages session).1) := by
  obtain ⟨hinfo, hsnapshot, hoverview⟩ := ne_of_stripPrefix hsession
  have hid : (!(splitMessages session).1.isEmpty &&
      !Str.containsChar (splitMessages session).1 '/') = true := by
    simp only [validSessionId, Bool.and_eq_true] at hvalid ⊢
    exact ⟨hvalid.1.1.1.1, hvalid.1.1.2⟩
  unfold splitMessages at hid ⊢
  constructor
  · rintro rfl hmessages
    cases hsuffix : Str.stripSuffix session "/messages" with
    | some id => simp [hsuffix] at hmessages
    | none =>
      simp only [hsuffix] at hid
      simp [route, hinfo, hsnapshot, hoverview, sessionDetailId, hsession, filter_some, hid]
  · rintro rfl hmessages
    have hmint : value ≠ "/api/v1/capabilities" := by
      rintro rfl
      exact absurd (Str.stripPrefix_eq_some hsession) (by decide)
    cases hsuffix : Str.stripSuffix session "/messages" with
    | none => simp [hsuffix] at hmessages
    | some id =>
      simp only [hsuffix] at hid
      simp [route, hmint, sessionMessageId, hsession, hsuffix, filter_some, hid]

end Filter

/-! ### What the controller checks -/

/-- The paths to which the controller assigns an action. -/
theorem relayAction_cases {method : Method} {action : Action}
    (h : relayAction method (some path) false = .ok action) :
    (method = .get ∧ (Str.startsWith path "/api/v1/snapshot" = true ∨ path = "/api/v1/overview") ∧
      action = .evidenceRead) ∨
    (method = .get ∧ Str.startsWith path "/api/v1/sessions/" = true ∧ action = .sessionRead) ∨
    (method = .post ∧ Str.endsWith path "/messages" = true ∧ action = .sessionMessage) := by
  simp only [relayAction, Bool.false_eq_true, if_false, any_some, some.injEq] at h
  split at h
  · next hevidence =>
    simp only [Bool.and_eq_true, Bool.or_eq_true, decide_eq_true_eq] at hevidence
    exact .inl ⟨hevidence.1, hevidence.2, (Except.ok.inj h).symm⟩
  · split at h
    · next hread =>
      simp only [Bool.and_eq_true, decide_eq_true_eq] at hread
      exact .inr (.inl ⟨hread.1, hread.2, (Except.ok.inj h).symm⟩)
    · split at h
      · next hmessage =>
        simp only [Bool.and_eq_true, decide_eq_true_eq] at hmessage
        exact .inr (.inr ⟨hmessage.1, hmessage.2, (Except.ok.inj h).symm⟩)
      · cases h

theorem mem_of_matchRelayPath {pathname suffix : String} {node : List Char}
    (h : matchRelayPath pathname = some (node, suffix)) {c : Char} (hc : c ∈ suffix.toList) :
    c ∈ pathname.toList := by
  simp only [matchRelayPath, bind_eq_bind, bind_eq_some_iff] at h
  obtain ⟨rest, hrest, h⟩ := h
  split at h
  · cases h
  · obtain ⟨tail, htail, h⟩ := bind_eq_some_iff.mp h
    refine Str.mem_of_stripPrefix hrest ?_
    refine (List.dropWhile_suffix (· ≠ '/')).subset ?_
    have htail' := fun hmem => Str.mem_of_stripPrefix htail (c := c) hmem
    rw [String.toList_ofList] at htail'
    refine htail' ?_
    split at h
    · cases h
      cases hc
    · next heq =>
      cases h
      rw [heq, List.mem_cons]
      exact .inr (by simpa using hc)
    · cases h

/-- The path that a browser's request is relayed with has no fragment. -/
theorem nodePath_noFragment {request : BrowserRequest} {browser : BrowserRelayRoute}
    (h : browserRelayRoute request = some browser)
    (hpath : browser.nodePath = some path) : '#' ∉ path.toList := by
  simp only [browserRelayRoute, bind_eq_bind, bind_eq_some_iff] at h
  obtain ⟨⟨node, suffix⟩, hmatch, nodeId, -, h⟩ := h
  split at h
  · cases h
    cases hpath
  · obtain ⟨method, -, h⟩ := bind_eq_some_iff.mp h
    split at h
    · cases h
      obtain rfl := some.inj hpath
      simp only [String.toList_append, List.mem_append, not_or]
      refine ⟨⟨by decide, fun hsuffix => ?_⟩, request.url.search_noFragment⟩
      exact request.url.pathname_noFragment (mem_of_matchRelayPath hmatch hsuffix)
    · cases h

theorem statusOnly_of_nodePath {request : BrowserRequest} {browser : BrowserRelayRoute}
    (h : browserRelayRoute request = some browser)
    (hpath : browser.nodePath = some path) : browser.statusOnly = false := by
  simp only [browserRelayRoute, bind_eq_bind, bind_eq_some_iff] at h
  obtain ⟨⟨node, suffix⟩, -, nodeId, -, h⟩ := h
  split at h
  · cases h
    cases hpath
  · obtain ⟨method, -, h⟩ := bind_eq_some_iff.mp h
    split at h
    · cases h
      rfl
    · cases h

/-! ### The agreement -/

section Agreement

variable {method : Method} {path : String} {action : Action}

/-- Two texts of which neither begins the other do not both begin one. -/
theorem not_startsWith_both {a b : String} (ha : a.toList <+: path.toList)
    (hb : b.toList <+: path.toList) (hab : ¬ a.toList <+: b.toList)
    (hba : ¬ b.toList <+: a.toList) : False :=
  (List.prefix_or_prefix_of_prefix ha hb).elim hab hba

/-- What the node asks of a path that the controller assigned an action to. -/
theorem action_agrees (haction : relayAction method (some path) false = .ok action)
    (hallowed : allowedRelayPath (methodText method) path = true) :
    ∃ name sessionId, actionText action = some name ∧
      ¬ (methodText method = "POST" ∧ path = "/api/v1/capabilities") ∧
      actionForRequest (methodText method) path = some (name, sessionId) ∧
      (route (methodText method) (beforeQuery path)).requires = some (name, sessionId) := by
  have hprefix := beforeQuery_prefix path
  obtain ⟨rfl, hevidence, rfl⟩ | ⟨rfl, hread, rfl⟩ | ⟨rfl, hmessage, rfl⟩ :=
    relayAction_cases haction
  · refine ⟨evidenceRead, none, rfl, by simp [methodText], ?_⟩
    obtain ⟨hpost, -⟩ | ⟨-, hsnapshot⟩ | ⟨-, rfl, hself⟩ | ⟨session, -, hsession, -⟩ :=
      allowedRelayPath_cases hallowed
    · exact absurd hpost (by decide)
    · simp [actionForRequest, route, hsnapshot, methodText, Route.requires]
    · simp [actionForRequest, route, hself, methodText, Route.requires]
    · -- A session path is no evidence path.
      have hsessions := Str.startsWith_iff.mp (Str.stripPrefix_eq_some hsession)
      obtain hsnapshot | rfl := hevidence
      · exact (not_startsWith_both (Str.startsWith_iff.mp hsnapshot) hsessions (by decide)
          (by decide)).elim
      · exact absurd hsessions (by decide)
  · have hsessions := Str.startsWith_iff.mp hread
    obtain ⟨hpost, -⟩ | ⟨-, hsnapshot⟩ | ⟨-, rfl, -⟩ |
      ⟨session, hself, hsession, hvalid, ⟨-, hmessages⟩ | ⟨hpost, -⟩⟩ :=
      allowedRelayPath_cases hallowed
    · exact absurd hpost (by decide)
    · rw [hsnapshot] at hprefix
      exact (not_startsWith_both hprefix hsessions (by decide) (by decide)).elim
    · exact absurd hsessions (by decide)
    · refine ⟨sessionRead, some (splitMessages session).1, rfl, by simp [methodText], ?_, ?_⟩
      · exact (actionForRequest_of_session (hself.symm ▸ hsession) hvalid).1 rfl hmessages
      · rw [hself, methodText, (route_of_session hsession hvalid).1 rfl hmessages]
        rfl
    · exact absurd hpost (by decide)
  · obtain ⟨-, rfl⟩ | ⟨hget, -⟩ | ⟨hget, -⟩ |
      ⟨session, hself, hsession, hvalid, ⟨hget, -⟩ | ⟨-, hmessages⟩⟩ :=
      allowedRelayPath_cases hallowed
    · exact absurd hmessage (by decide)
    · exact absurd hget (by decide)
    · exact absurd hget (by decide)
    · exact absurd hget (by decide)
    · have hne : path ≠ "/api/v1/capabilities" := by
        rintro rfl
        exact absurd hmessage (by decide)
      refine ⟨sessionMessage, some (splitMessages session).1, rfl, fun h => hne h.2, ?_, ?_⟩
      · exact (actionForRequest_of_session (hself.symm ▸ hsession) hvalid).2 rfl hmessages
      · rw [hself, methodText, (route_of_session hsession hvalid).2 rfl hmessages]
        rfl

end Agreement

/-- **The controller and the node agree.** When the controller assigns an action to a browser's
request and the node accepts its path, the node mints a capability for the same action, and the
path it serves is one for which it finds that action and session and whose arm requires them. -/
theorem relay_agrees (server : LocalServer) {request : BrowserRequest}
    {browser : BrowserRelayRoute} {action : Action} {path : String}
    (hroute : browserRelayRoute request = some browser)
    (haction : relayAction browser.method browser.nodePath browser.statusOnly = .ok action)
    (hpath : browser.nodePath = some path)
    (hallowed : allowedRelayPath (methodText browser.method) path = true) :
    ∃ name sessionId, actionText action = some name ∧
      relayCredential (methodText browser.method) path = some (.capability name sessionId) ∧
      ∀ served, server.servedPath path = some served →
        actionForRequest (methodText browser.method) served = some (name, sessionId) ∧
        (route (methodText browser.method) served).requires = some (name, sessionId) := by
  rw [hpath, statusOnly_of_nodePath hroute hpath] at haction
  obtain ⟨name, sessionId, hname, hmint, hneeds, hserves⟩ := action_agrees haction hallowed
  refine ⟨name, sessionId, hname, ?_, fun served hserved => ?_⟩
  · simp [relayCredential, hallowed, hmint, hneeds]
  · obtain rfl := server.servedPath_eq path served (nodePath_noFragment hroute hpath) hserved
    exact ⟨(actionForRequest_beforeQuery ..).trans hneeds, hserves⟩

/-- A browser asks for a snapshot of a node. -/
theorem relay_agrees_snapshot : ∃ path, allowedRelayPath "GET" path = true ∧
      ∃ name sessionId, actionText .evidenceRead = some name ∧
        relayCredential "GET" path = some (.capability name sessionId) ∧
        ∀ served, some (beforeQuery path) = some served →
          actionForRequest "GET" served = some (name, sessionId) ∧
          (route "GET" served).requires = some (name, sessionId) := by
  let request : BrowserRequest := ⟨some .get, "/v1/nodes/node_lab/relay/snapshot",
    "?audit_limit=500", by decide, by decide⟩
  let server : LocalServer := ⟨fun path => some (beforeQuery path), by
    intro path served _ hserved
    exact (some.inj hserved).symm⟩
  refine ⟨"/api/v1/snapshot?audit_limit=500", by decide +kernel, ?_⟩
  let browser : BrowserRelayRoute :=
    ⟨"node_lab", .get, some "/api/v1/snapshot?audit_limit=500", false⟩
  have hroute : browserRelayRoute request = some browser := by decide +kernel
  exact relay_agrees server hroute (by decide +kernel) rfl (by decide +kernel)

end AgentSight.Collector
