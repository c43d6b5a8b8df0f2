import AgentSight.Controller.NodeOwnership

/-!
# Whom a relay request reaches

A relay object is known by the node's id alone. The token is compared when the node connects,
the organization when a request is authorized, and neither again when the request goes out
over the socket. `forwarded_rightly` is about the runs in which no registration gives a node's
row a token that an open or accepted connection was not made with, and no row is deleted while
a request is on its way to its node. `stale_socket_reached` is a run without that: a node is
deleted and registered by another organization, whose request reaches the old socket.
-/

namespace AgentSight.Controller

open KeyedTable Transition List NodeTables

/-! ### The property and the condition -/

/-- Every envelope went out for the organization that the node was registered to at that time,
over a socket that was authenticated with the token it was registered with. -/
def System.ForwardsRightly (s : System) : Prop :=
  ∀ nodeId organizationId row socketToken,
    .forwarded nodeId organizationId row socketToken ∈ s.world.history →
      ∃ node token, row = some node ∧ node.organizationId = organizationId ∧
        node.relayTokenHash = some token ∧ socketToken = some token

/-- The node and the token of a connection whose token was accepted and whose socket is not. -/
def Task.connecting : Task → Option (String × String)
  | .touchNode nodeId tokenHash _ => some (nodeId, tokenHash)
  | .openSocket nodeId tokenHash => some (nodeId, tokenHash)
  | _ => none

def NodePurpose.forwards : NodePurpose → Bool
  | .relay .. => true
  | .capabilities .. => true
  | _ => false

/-- The node and the organization of a request that has not reached the relay object. -/
def Task.relaying : Task → Option (String × String)
  | .checkAccess _ nodeId organizationId purpose =>
    if purpose.forwards then some (nodeId, organizationId) else none
  | .forward nodeId organizationId _ => some (nodeId, organizationId)
  | _ => none

/-- Every connection of the node, open or accepted, was made with the token. -/
def System.ConnectedWith (s : System) (nodeId : String) (token : Option String) : Prop :=
  (∀ socket ∈ (s.world.relays nodeId).sockets, socket.isOpen = true →
    (s.world.socketTokens nodeId)[socket.id]? = token) ∧
  ∀ r ∈ s.inflight, ∀ connection ∈ r.task.connecting, connection.1 = nodeId →
    token = some connection.2

/-- No request is on its way to the node's socket. -/
def System.Unrelayed (s : System) (nodeId : String) : Prop :=
  (s.world.relays nodeId).reading = [] ∧
    ∀ r ∈ s.inflight, ∀ request ∈ r.task.relaying, request.1 ≠ nodeId

/-- The token that a registration leaves the node's row with. -/
def NodeTables.tokenAfter (t : NodeTables) (node : Registration) : Option String :=
  (orNull node.relayTokenHash).or (t.token node.id).join

/-- A registration that will write the row leaves it with the token of the node's connections,
and a row is deleted while no request is on its way to its node. -/
def Task.Admitted (s : System) : Task → Prop
  | .writeNode _ organizationId node =>
      (s.world.tables.nodeOrganization node.id).all (· = organizationId) = true →
        s.ConnectedWith node.id (s.world.tables.tokenAfter node)
  | .removeNode _ nodeId organizationId =>
      s.world.tables.nodeOrganization nodeId = some organizationId → s.Unrelayed nodeId
  | .removeOrganization _ organizationId =>
      ∀ node ∈ s.world.tables.nodes, node.organizationId = organizationId → s.Unrelayed node.id
  | _ => True

def System.AdmitsRelay (s : System) : SystemEvent → Prop
  | .resume i _ => ∀ r ∈ s.inflight[i]?, r.task.Admitted s
  | _ => True

/-! ### Relay objects -/

namespace NodeRelay

/-- What an event of the node's side leaves alone. -/
structure Passive (s s' : NodeRelay) : Prop where
  ids : s'.sockets.map NodeSocket.id = s.sockets.map NodeSocket.id
  opened : ∀ socket ∈ s'.sockets, socket.isOpen = true → socket ∈ s.sockets
  reading : s'.reading = s.reading
  received : s'.received = s.received

variable {s s' : NodeRelay}

theorem passive_of_sockets (hsockets : s'.sockets = s.sockets)
    (hreading : s'.reading = s.reading) (hreceived : s'.received = s.received) :
    s.Passive s' :=
  ⟨by rw [hsockets], fun socket hsocket _ => hsockets ▸ hsocket, hreading, hreceived⟩

theorem passive_closeSocket (s : NodeRelay) (id : ℕ) : s.Passive (s.closeSocket id) where
  ids := by
    simp only [closeSocket, update, map_map]
    refine map_congr_left fun socket _ => ?_
    simp only [Function.comp_apply]
    split <;> rfl
  opened := by
    intro socket hsocket hopen
    obtain ⟨hold, -⟩ | ⟨old, -, -, rfl⟩ := mem_update.mp hsocket
    · exact hold
    · cases hopen
  reading := rfl
  received := rfl

theorem passive_webSocketMessage (numberText : JsNumber → String) (s : NodeRelay)
    (message : Option JsValue) : s.Passive (s.webSocketMessage numberText message) := by
  unfold webSocketMessage
  split
  · exact passive_of_sockets rfl rfl rfl
  · split
    · exact passive_of_sockets rfl rfl rfl
    · split
      · exact passive_of_sockets rfl rfl rfl
      · split <;> exact passive_of_sockets rfl rfl rfl

theorem passive_relayEvent {numberText : JsNumber → String}
    {event : RelayEvent} (h : s.step numberText event.event = some s') : s.Passive s' := by
  cases event with
  | close socket =>
    obtain rfl := Option.some.inj h
    exact passive_closeSocket s socket
  | message text =>
    obtain rfl := Option.some.inj h
    exact passive_webSocketMessage numberText s text
  | timeout timer =>
    simp only [RelayEvent.event, step] at h
    split at h
    · obtain rfl := Option.some.inj h
      exact passive_of_sockets rfl rfl rfl
    · cases h

/-- The body of a request that waited for it has arrived. -/
structure Resumed (s : NodeRelay) (call : ForwardCall) (s' : NodeRelay) : Prop where
  sockets : s'.sockets = s.sockets
  reading : s'.reading = s.reading.erase call
  received : s'.received = s.received
  waited : call ∈ s.reading
  /-- What goes out goes over the socket that the call had picked, while that is open. -/
  sent : s'.sent = s.sent ∨ ∃ envelope, s'.sent = s.sent ++ [⟨call.waiter, call.node, envelope⟩] ∧
      ∃ socket ∈ s.sockets, socket.id = call.node ∧ socket.isOpen = true

theorem resumed_body {numberText : JsNumber → String} {call : ForwardCall}
    {input : Option JsValue} {id : String} {sends : Bool}
    (h : s.step numberText (.body call input id sends) = some s') : s.Resumed call s' := by
  simp only [step] at h
  split at h
  · next hbody =>
    obtain rfl := Option.some.inj h
    unfold resumeForward
    dsimp only
    split
    · exact ⟨rfl, rfl, rfl, hbody.1, .inl rfl⟩
    · exact ⟨rfl, rfl, rfl, hbody.1, .inl rfl⟩
    · split
      · exact ⟨rfl, rfl, rfl, hbody.1, .inl rfl⟩
      · unfold enqueue
        split
        · exact ⟨rfl, rfl, rfl, hbody.1, .inl rfl⟩
        · split
          · next hsend =>
            have hopen := (Bool.and_eq_true_iff.mp hsend).2
            obtain ⟨socket, hsocket, hnode⟩ := any_eq_true.mp hopen
            exact ⟨rfl, rfl, rfl, hbody.1, .inr ⟨_, rfl, socket, hsocket, by simpa using hnode⟩⟩
          · exact ⟨rfl, rfl, rfl, hbody.1, .inl rfl⟩
  · cases h

end NodeRelay

/-! ### The invariant -/

structure World.Scoped (w : World) : Prop where
  unique : Unique Node.id w.tables.nodes
  sockets : ∀ nodeId, (w.relays nodeId).sockets.map NodeSocket.id =
    List.range (w.socketTokens nodeId).length
  tokens : ∀ nodeId row, w.tables.findNode nodeId = some row →
    ∀ socket ∈ (w.relays nodeId).sockets, socket.isOpen = true →
      (w.socketTokens nodeId)[socket.id]? = row.relayTokenHash
  reading : ∀ nodeId, ∀ call ∈ (w.relays nodeId).reading,
    ∃ origin, w.origin nodeId call.waiter = some origin ∧
      w.tables.nodeOrganization nodeId = some origin.organizationId
  numbered : ∀ origin ∈ w.origins, origin.waiter < (w.relays origin.nodeId).received
  rightly : ∀ nodeId organizationId row socketToken,
    .forwarded nodeId organizationId row socketToken ∈ w.history →
      ∃ node token, row = some node ∧ node.organizationId = organizationId ∧
        node.relayTokenHash = some token ∧ socketToken = some token

structure Task.Scoped (t : NodeTables) (task : Task) : Prop where
  connecting : ∀ connection ∈ task.connecting, ∀ row,
    t.findNode connection.1 = some row → row.relayTokenHash = some connection.2
  relaying : ∀ request ∈ task.relaying, t.nodeOrganization request.1 = some request.2

structure System.Scoped (s : System) : Prop where
  world : s.world.Scoped
  running : ∀ r ∈ s.inflight, r.task.Scoped s.world.tables

variable {task : Task}

theorem Task.scoped_of_none {t : NodeTables} (hconnecting : task.connecting = none)
    (hrelaying : task.relaying = none) : task.Scoped t := by
  refine ⟨fun connection h => ?_, fun request h => ?_⟩
  · rw [hconnecting] at h
    cases h
  · rw [hrelaying] at h
    cases h

variable {nodeId : String}

/-- The relay objects know their earlier requests by the same numbers. -/
theorem World.origin_append {w : World} {waiter : ℕ} {origin : Origin}
    (h : w.origin nodeId waiter = some origin) (new : List Origin) :
    ({ w with origins := w.origins ++ new } : World).origin nodeId waiter = some origin := by
  rw [World.origin] at h
  rw [World.origin, find?_append, h]
  rfl

variable {platform : ControllerPlatform}

namespace World.Scoped

variable {w : World} (h : w.Scoped)
include h

/-- Statements that leave the nodes and the relays alone. -/
theorem withStore (db : Database) (identity : IdentityTables) {entries : List Entry}
    (hentries : OfStatement entries) : ({ w with db, identity }.record entries).Scoped where
  unique := h.unique
  sockets := h.sockets
  tokens := h.tokens
  reading := h.reading
  numbered := h.numbered
  rightly := by
    intro nodeId organizationId row socketToken hmem
    obtain hold | hnew := mem_append.mp hmem
    · exact h.rightly nodeId organizationId row socketToken hold
    · cases hentries _ hnew

/-- An open socket has a token. -/
theorem token_isSome {socket : NodeSocket} (hsocket : socket ∈ (w.relays nodeId).sockets) :
    socket.id < (w.socketTokens nodeId).length := by
  have hid := mem_map_of_mem (f := NodeSocket.id) hsocket
  rw [h.sockets nodeId] at hid
  exact mem_range.mp hid

/-- A relay object changes without a new connection, and may receive requests. -/
theorem withRelay {relay : NodeRelay} (new : List Origin)
    (hids : relay.sockets.map NodeSocket.id = (w.relays nodeId).sockets.map NodeSocket.id)
    (hopened : ∀ socket ∈ relay.sockets, socket.isOpen = true → socket ∈ (w.relays nodeId).sockets)
    (hreceived : (w.relays nodeId).received ≤ relay.received)
    (hnew : ∀ origin ∈ new, origin.nodeId = nodeId ∧ origin.waiter < relay.received)
    (hreading : ∀ call ∈ relay.reading, ∃ origin,
      ({ w with origins := w.origins ++ new } : World).origin nodeId call.waiter = some origin ∧
        w.tables.nodeOrganization nodeId = some origin.organizationId) :
    ({ w with relays := Function.update w.relays nodeId relay,
              origins := w.origins ++ new } : World).Scoped where
  unique := h.unique
  sockets := by
    intro id
    by_cases hid : id = nodeId
    · subst hid
      simpa using hids.trans (h.sockets id)
    · simpa [hid] using h.sockets id
  tokens := by
    intro id row hrow socket hsocket hopen
    dsimp only at hsocket
    by_cases hid : id = nodeId
    · subst hid
      rw [Function.update_self] at hsocket
      exact h.tokens id row hrow socket (hopened socket hsocket hopen) hopen
    · rw [Function.update_of_ne hid] at hsocket
      exact h.tokens id row hrow socket hsocket hopen
  reading := by
    intro id call hcall
    dsimp only at hcall
    by_cases hid : id = nodeId
    · subst hid
      rw [Function.update_self] at hcall
      exact hreading call hcall
    · rw [Function.update_of_ne hid] at hcall
      obtain ⟨origin, horigin, howner⟩ := h.reading id call hcall
      exact ⟨origin, World.origin_append horigin new, howner⟩
  numbered := by
    intro origin horigin
    dsimp only
    by_cases hid : origin.nodeId = nodeId
    · rw [hid, Function.update_self]
      obtain hold | hmem := mem_append.mp horigin
      · exact (hid ▸ h.numbered origin hold).trans_le hreceived
      · exact (hnew origin hmem).2
    · rw [Function.update_of_ne hid]
      obtain hold | hmem := mem_append.mp horigin
      · exact h.numbered origin hold
      · exact absurd (hnew origin hmem).1 hid
  rightly := h.rightly

/-- A request reaches the relay object of its node. -/
theorem forward {organizationId : String} {input : JsValue}
    (howner : w.tables.nodeOrganization nodeId = some organizationId) :
    (runForward w nodeId organizationId input).1.Scoped := by
  have hread : ∀ call ∈ (w.relays nodeId).forwardRequest.reading,
      call ∈ (w.relays nodeId).reading ∨ call.waiter = (w.relays nodeId).received := by
    intro call hcall
    unfold NodeRelay.forwardRequest at hcall
    split at hcall
    · exact .inl hcall
    · obtain hold | hmem := mem_append.mp hcall
      · exact .inl hold
      · exact .inr (by rw [mem_singleton.mp hmem])
  have hsockets : (w.relays nodeId).forwardRequest.sockets = (w.relays nodeId).sockets := by
    unfold NodeRelay.forwardRequest
    split <;> rfl
  have hreceived : (w.relays nodeId).forwardRequest.received = (w.relays nodeId).received + 1 := by
    unfold NodeRelay.forwardRequest
    split <;> rfl
  refine h.withRelay _ (by rw [hsockets]) (fun socket hsocket _ => hsockets ▸ hsocket)
    (by omega) (fun origin horigin => ?_) fun call hcall => ?_
  · rw [mem_singleton.mp horigin]
    exact ⟨rfl, by rw [hreceived]; exact Nat.lt_succ_self _⟩
  · obtain hold | hwaiter := hread call hcall
    · obtain ⟨origin, horigin, howner⟩ := h.reading nodeId call hold
      exact ⟨origin, World.origin_append horigin _, howner⟩
    · -- no earlier request of the node has the new number
      have hnone : w.origins.find? (fun origin =>
          origin.nodeId = nodeId && origin.waiter = call.waiter) = none := by
        refine find?_eq_none.mpr fun origin horigin => ?_
        have hlt := h.numbered origin horigin
        simp only [Bool.and_eq_true, decide_eq_true_eq, not_and]
        rintro rfl
        omega
      refine ⟨⟨nodeId, (w.relays nodeId).received, organizationId, input⟩, ?_, howner⟩
      rw [World.origin, find?_append, hnone]
      simp [hwaiter]

/-- What happens at a relay object by itself. -/
theorem passive {relay : NodeRelay} (hpassive : (w.relays nodeId).Passive relay) :
    ({ w with relays := Function.update w.relays nodeId relay } : World).Scoped := by
  have hscoped := h.withRelay [] hpassive.ids hpassive.opened hpassive.received.ge
    (fun _ hmem => (not_mem_nil hmem).elim) fun call hcall => by
      rw [append_nil]
      exact h.reading nodeId call (hpassive.reading ▸ hcall)
  rwa [append_nil] at hscoped

/-- A connection is opened; the older ones are closed. -/
theorem openSocket {tokenHash : String}
    (htoken : ∀ row, w.tables.findNode nodeId = some row → row.relayTokenHash = some tokenHash) :
    (runOpenSocket w nodeId tokenHash).1.Scoped where
  unique := h.unique
  sockets := by
    intro id
    dsimp only [runOpenSocket]
    by_cases hid : id = nodeId
    · subst hid
      have hlength : (w.relays id).sockets.length = (w.socketTokens id).length := by
        simpa using congrArg List.length (h.sockets id)
      simp only [Function.update_self, NodeRelay.acceptNodeSocket, map_append, map_map,
        map_cons, map_nil, length_append, length_singleton, hlength,
        range_succ]
      exact congrArg (· ++ [_]) (h.sockets id)
    · simpa [hid] using h.sockets id
  tokens := by
    intro id row hrow socket hsocket hopen
    dsimp only [runOpenSocket] at hrow hsocket ⊢
    by_cases hid : id = nodeId
    · subst hid
      have hlength : (w.relays id).sockets.length = (w.socketTokens id).length := by
        simpa using congrArg List.length (h.sockets id)
      rw [Function.update_self] at hsocket ⊢
      obtain hold | hmem := mem_append.mp hsocket
      · obtain ⟨old, -, rfl⟩ := mem_map.mp hold
        cases hopen
      · rw [mem_singleton.mp hmem, hlength, htoken row hrow]
        exact getElem?_concat_length
    · rw [Function.update_of_ne hid] at hsocket ⊢
      exact h.tokens id row hrow socket hsocket hopen
  reading := by
    intro id call hcall
    dsimp only [runOpenSocket] at hcall
    by_cases hid : id = nodeId
    · subst hid
      rw [Function.update_self] at hcall
      exact h.reading id call hcall
    · rw [Function.update_of_ne hid] at hcall
      exact h.reading id call hcall
  numbered := by
    intro origin horigin
    dsimp only [runOpenSocket]
    by_cases hid : origin.nodeId = nodeId
    · rw [hid, Function.update_self]
      exact hid ▸ h.numbered origin horigin
    · rw [Function.update_of_ne hid]
      exact h.numbered origin horigin
  rightly := h.rightly

/-- The body of a relay request arrives: what goes out goes over a socket with the node's
token. -/
theorem receiveBody {w' : World} {call : ForwardCall} {id : String} {sends : Bool}
    (hbody : w.receiveBody platform nodeId call id sends = some w') : w'.Scoped := by
  obtain ⟨origin, relay, horigin, hstep, rfl⟩ := World.receiveBody_eq_some hbody
  have hresumed := NodeRelay.resumed_body hstep
  have hrelay := h.withRelay [] (by rw [hresumed.sockets])
    (fun socket hsocket _ => hresumed.sockets ▸ hsocket) hresumed.received.ge
    (fun _ hmem => (not_mem_nil hmem).elim) fun call hcall => by
      rw [append_nil]
      exact h.reading nodeId call (mem_of_mem_erase (hresumed.reading ▸ hcall))
  rw [append_nil] at hrelay
  refine ⟨hrelay.unique, hrelay.sockets, hrelay.tokens, hrelay.reading, hrelay.numbered, ?_⟩
  intro id' organizationId row socketToken hmem
  obtain hold | hnew := mem_append.mp hmem
  · exact h.rightly id' organizationId row socketToken hold
  · obtain hsent | ⟨envelope, hsent, socket, hsocket, hnode, hopen⟩ := hresumed.sent
    · simp [hsent] at hnew
    · simp only [hsent, drop_left, map_cons, map_nil, mem_singleton,
        Entry.forwarded.injEq] at hnew
      obtain ⟨rfl, rfl, rfl, rfl⟩ := hnew
      -- the call was authorized for the organization that its node still has
      obtain ⟨origin', horigin', howner⟩ := h.reading id' call hresumed.waited
      obtain rfl := Option.some.inj (horigin.symm.trans horigin')
      obtain ⟨node, hfind, horganization⟩ := Option.map_eq_some_iff.mp howner
      have htoken := h.tokens id' node hfind socket hsocket hopen
      have hlt := h.token_isSome hsocket
      rw [getElem?_eq_getElem hlt] at htoken
      refine ⟨node, _, hfind, horganization, htoken.symm, ?_⟩
      rw [← hnode, getElem?_eq_getElem hlt]

end World.Scoped

/-! ### Statements on the node tables -/

/-- What the condition lets a statement do to the tables. -/
structure TablesStep (s : System) (t : NodeTables) : Prop where
  unique : Unique Node.id t.nodes
  tokens : ∀ id row', t.findNode id = some row' →
    (∃ row, s.world.tables.findNode id = some row ∧ row.relayTokenHash = row'.relayTokenHash) ∨
      s.ConnectedWith id row'.relayTokenHash
  owners : ∀ id organizationId, s.world.tables.nodeOrganization id = some organizationId →
    t.nodeOrganization id = some organizationId ∨ s.Unrelayed id

theorem TablesStep.world {s : System} {t : NodeTables} (h : TablesStep s t) (hs : s.Scoped) :
    ({ s.world with tables := t } : World).Scoped where
  unique := h.unique
  sockets := hs.world.sockets
  tokens := by
    intro id row' hrow' socket hsocket hopen
    obtain ⟨row, hrow, htoken⟩ | hconnected := h.tokens id row' hrow'
    · rw [← htoken]
      exact hs.world.tokens id row hrow socket hsocket hopen
    · exact hconnected.1 socket hsocket hopen
  reading := by
    intro id call hcall
    obtain ⟨origin, horigin, howner⟩ := hs.world.reading id call hcall
    refine ⟨origin, horigin, ?_⟩
    obtain hkept | hidle := h.owners id origin.organizationId howner
    · exact hkept
    · rw [hidle.1] at hcall
      cases hcall
  numbered := hs.world.numbered
  rightly := hs.world.rightly

theorem TablesStep.running {s : System} {t : NodeTables} (h : TablesStep s t) (hs : s.Scoped)
    {r : Running} (hr : r ∈ s.inflight) : r.task.Scoped t where
  connecting := by
    intro connection hconnection row' hrow'
    obtain ⟨row, hrow, htoken⟩ | hconnected := h.tokens connection.1 row' hrow'
    · rw [← htoken]
      exact (hs.running r hr).connecting connection hconnection row hrow
    · exact hconnected.2 r hr connection hconnection rfl
  relaying := by
    intro request hrequest
    obtain hkept | hidle := h.owners request.1 request.2
      ((hs.running r hr).relaying request hrequest)
    · exact hkept
    · exact absurd rfl (hidle.2 r hr request hrequest)

theorem tablesStep_resume {s : System} {env : Ambient} (hs : s.Scoped)
    (hadmitted : task.Admitted s) :
    TablesStep s (task.resume platform s.world env).1.tables := by
  have unique : Unique Node.id (task.resume platform s.world env).1.tables.nodes :=
    unique_resume hs.world.unique task
  -- where the row is found as it was, its token is, and so is its owner
  have same : ∀ {t : NodeTables} {id : String} {row' : Node},
      t.findNode id = s.world.tables.findNode id → t.findNode id = some row' →
        (∃ row, s.world.tables.findNode id = some row ∧
          row.relayTokenHash = row'.relayTokenHash) ∨ s.ConnectedWith id row'.relayTokenHash :=
    fun hsame hrow' => .inl ⟨_, hsame ▸ hrow', rfl⟩
  have sameOwner : ∀ {t : NodeTables} {id organizationId : String},
      t.findNode id = s.world.tables.findNode id →
      s.world.tables.nodeOrganization id = some organizationId →
        t.nodeOrganization id = some organizationId ∨ s.Unrelayed id := by
    intro t id organizationId hsame howner
    exact .inl ((congrArg (Option.map Node.organizationId) hsame).trans howner)
  by_cases hkind : task.kind = .tables
  · cases task with
    | writeNode userId organizationId node =>
      refine ⟨unique, fun id row' hrow' => ?_, fun id organization howner => ?_⟩
      all_goals simp only [Task.resume, runWriteNode] at *
      · split at hrow'
        · exact same rfl hrow'
        · next tables changes hbatch =>
          obtain ⟨hothers, hnode⟩ := NodeTables.registerBatch_spec hs.world.unique hbatch
          by_cases hid : id = node.id
          · subst hid
            obtain ⟨hnone, hnew⟩ | ⟨old, hold, horganization, hnew⟩ | rfl := hnode
            · obtain rfl := Option.some.inj (hrow'.symm.trans hnew)
              have hconnected := hadmitted (by simp [hnone])
              simp only [tokenAfter, token, hnone] at hconnected
              exact .inr (by simpa [newNode] using hconnected)
            · obtain rfl := Option.some.inj (hrow'.symm.trans hnew)
              have hconnected := hadmitted (by simp [hold, horganization])
              simp only [tokenAfter, token, hold] at hconnected
              exact .inr (by simpa [mergeNode, newNode] using hconnected)
            · exact same rfl hrow'
          · exact same (hothers id hid).1 hrow'
      · split
        · exact .inl howner
        · next tables changes hbatch =>
          obtain ⟨hothers, hnode⟩ := NodeTables.registerBatch_spec hs.world.unique hbatch
          by_cases hid : id = node.id
          · subst hid
            obtain ⟨hnone, -⟩ | ⟨old, hold, -, hnew⟩ | rfl := hnode
            · simp [hnone] at howner
            · refine .inl ?_
              simpa [hnew, hold, mergeNode] using howner
            · exact .inl howner
          · exact sameOwner (hothers id hid).1 howner
    | removeNode userId nodeId organizationId =>
      obtain heq | ⟨howned, hgone, hothers⟩ := NodeTables.deleteNode_spec
        (t := s.world.tables) nodeId organizationId
      · exact ⟨unique, fun id _ => same (congrArg (NodeTables.findNode · id) heq),
          fun id _ => sameOwner (congrArg (NodeTables.findNode · id) heq)⟩
      · refine ⟨unique, fun id row' hrow' => ?_, fun id organization howner => ?_⟩
        · by_cases hid : id = nodeId
          · subst hid
            cases hgone.symm.trans hrow'
          · exact same (hothers id hid).1 hrow'
        · by_cases hid : id = nodeId
          · exact .inr (hid ▸ hadmitted howned)
          · exact sameOwner (hothers id hid).1 howner
    | removeDirectConfig userId nodeId organizationId =>
      exact ⟨unique, fun id _ => same rfl, fun id _ => sameOwner rfl⟩
    | removeOrganization userId organizationId =>
      have hfilter := NodeTables.deleteOrganization_findNode hs.world.unique organizationId
      refine ⟨unique, fun id row' hrow' => ?_, fun id organization howner => ?_⟩
      · obtain ⟨hkept, -⟩ := Option.filter_eq_some_iff.mp ((hfilter id).symm.trans hrow')
        exact .inl ⟨row', hkept, rfl⟩
      · obtain ⟨row, hrow, horganization⟩ := Option.map_eq_some_iff.mp howner
        by_cases hdeleted : row.organizationId = organizationId
        · obtain ⟨hmem, hkey⟩ := mem_of_find hrow
          exact .inr (hkey ▸ hadmitted row hmem hdeleted)
        · refine sameOwner ((hfilter id).trans ?_) howner
          rw [hrow]
          simp [hdeleted]
    | touchNode nodeId tokenHash version =>
      refine ⟨unique, fun id row' hrow' => ?_, fun id organization howner => ?_⟩
      all_goals
        obtain ⟨f, hf, hfind⟩ := NodeTables.touchNode_findNode (t := s.world.tables) nodeId
          version env.now id
      · obtain ⟨row, hrow, rfl⟩ := Option.map_eq_some_iff.mp (hfind.symm.trans hrow')
        exact .inl ⟨row, hrow, (hf row).2.symm⟩
      · obtain ⟨row, hrow, horganization⟩ := Option.map_eq_some_iff.mp howner
        refine .inl ?_
        refine (congrArg (Option.map Node.organizationId) hfind).trans ?_
        simp [hrow, (hf row).1, horganization]
    | _ => cases hkind
  · have htables := tables_resume platform s.world env hkind
    exact ⟨unique, fun id _ => same (congrArg (NodeTables.findNode · id) htables),
      fun id _ => sameOwner (congrArg (NodeTables.findNode · id) htables)⟩

/-! ### Steps -/

theorem relaying_proceed {userId : Uuid} {organizationId : String}
    {access : OrganizationAccess} {purpose : NodePurpose} {next : Task}
    (h : purpose.proceed userId nodeId organizationId access = .awaits next) :
    next.connecting = none ∧ (next.relaying = none ∨
        purpose.forwards = true ∧ next.relaying = some (nodeId, organizationId)) := by
  cases purpose with
  | deleteNode =>
    cases h
    exact ⟨rfl, .inl rfl⟩
  | directConfig remove =>
    simp only [NodePurpose.proceed] at h
    split at h
    · cases h
    · split at h <;> cases h
      exact ⟨rfl, .inl rfl⟩
  | relay route body =>
    simp only [NodePurpose.proceed, proxyBrowserRelay] at h
    split at h
    · cases h
    · split at h
      · cases h
      · split at h <;> cases h <;> exact ⟨rfl, .inr ⟨rfl, rfl⟩⟩
  | capabilities requested remaining managed body =>
    simp only [NodePurpose.proceed] at h
    split at h
    · split at h <;> cases h
      exact ⟨rfl, .inr ⟨rfl, rfl⟩⟩
    · cases h
      exact ⟨rfl, .inl rfl⟩

theorem scoped_next {w w' : World} {env : Ambient}
    {next : Task} (hcontinues : Continues platform w env task next w')
    (h : task.Scoped w.tables) : next.Scoped w'.tables := by
  cases hcontinues with
  | nodeAccess howner =>
    refine ⟨fun _ hconnection => (by cases hconnection), fun request hrequest => ?_⟩
    simp only [Task.relaying] at hrequest
    split at hrequest <;> cases hrequest
    exact howner
  | checkAccess haction haccess hnext =>
    obtain ⟨hconnecting, hrelaying | ⟨hforwards, hrelaying⟩⟩ := relaying_proceed hnext
    · exact Task.scoped_of_none hconnecting hrelaying
    · refine ⟨fun connection hconnection => ?_, fun request hrequest => h.relaying request ?_⟩
      · rw [hconnecting] at hconnection
        cases hconnection
      · rw [hrelaying] at hrequest
        simpa [Task.relaying, hforwards] using hrequest
  | connectNodeRelay htoken =>
    refine ⟨fun connection hconnection row hrow => ?_, fun _ hrequest => (by cases hrequest)⟩
    cases hconnection
    obtain ⟨hbind, -⟩ := Option.filter_eq_some_iff.mp htoken
    simpa [hrow] using hbind
  | touchNode =>
    refine ⟨fun connection hconnection row' hrow' => ?_, fun _ hrequest => (by cases hrequest)⟩
    cases hconnection
    obtain ⟨f, hf, hfind⟩ := NodeTables.touchNode_findNode (t := w.tables) _ _ env.now _
    obtain ⟨row, hrow, rfl⟩ := Option.map_eq_some_iff.mp (hfind.symm.trans hrow')
    rw [(hf row).2]
    exact h.connecting _ rfl row hrow
  | _ => exact Task.scoped_of_none rfl rfl

namespace System

variable {platform : ControllerPlatform} {s s' : System} {e : SystemEvent}

theorem scoped_init (entitlements : List Entitlement) : (init entitlements).Scoped where
  world := by
    refine ⟨unique_nil, fun _ => rfl, ?_, ?_, ?_, ?_⟩ <;>
      simp [init, NodeRelay.init, findNode, find]
  running := by simp [init]

/-- The world after the statement of an admitted task. -/
theorem Scoped.resume (h : s.Scoped) {env : Ambient} (hscoped : task.Scoped
    s.world.tables) (hadmitted : task.Admitted s) :
    (task.resume platform s.world env).1.Scoped := by
  cases hkind : task.kind with
  | reads =>
    obtain ⟨entries, hentries, hw⟩ := resume_of_reads platform s.world env hkind
    rw [hw]
    exact h.world.withStore s.world.db s.world.identity hentries.ofStatement
  | store =>
    obtain ⟨db, identity, entries, hentries, hw⟩ := resume_of_store platform s.world env hkind
    rw [hw]
    exact h.world.withStore db identity hentries
  | tables =>
    have htables : TablesStep s (task.resume platform s.world env).1.tables :=
      tablesStep_resume h hadmitted
    obtain ⟨db, tables, hw⟩ := resume_of_tables platform s.world env hkind
    rw [hw] at htables ⊢
    simpa using (htables.world h).withStore db s.world.identity ofStatement_nil
  | relay =>
    cases task with
    | forward nodeId organizationId input => exact h.world.forward (hscoped.relaying _ rfl)
    | openSocket nodeId tokenHash => exact h.world.openSocket (hscoped.connecting _ rfl)
    | _ => cases hkind

theorem Scoped.step (h : s.Scoped) (hok : s.AdmitsRelay e) (hs : s.step platform e = some s') :
    s'.Scoped := by
  obtain ⟨task, -, hrequest, hworld, hinflight⟩ |
    ⟨i, env, running, rfl, hrunning, hworld, hinflight⟩ | ⟨nodeId, event, relay, -, hrelay, rfl⟩ |
    ⟨nodeId, call, id, sends, world, -, hworld, rfl⟩ := step_cases hs
  · refine ⟨hworld ▸ h.world, fun r hr => ?_⟩
    rw [hinflight] at hr
    rw [hworld]
    obtain hr | hr := mem_append.mp hr
    · exact h.running r hr
    · rw [mem_singleton.mp hr]
      cases task <;> first | exact Task.scoped_of_none rfl rfl | cases hrequest
  · have hmem : running ∈ s.inflight := mem_of_getElem? hrunning
    have hadmitted : running.task.Admitted s := hok running hrunning
    refine ⟨hworld ▸ h.resume (h.running running hmem) hadmitted, fun r hr => ?_⟩
    obtain hr | ⟨next, hnext, rfl⟩ := hinflight r hr
    · have htables : TablesStep s (running.task.resume platform s.world env).1.tables :=
        tablesStep_resume h hadmitted
      rw [hworld]
      exact htables.running h hr
    · exact scoped_next hnext (h.running running hmem)
  · exact ⟨h.world.passive (NodeRelay.passive_relayEvent hrelay), h.running⟩
  · refine ⟨h.world.receiveBody hworld, fun r hr => ?_⟩
    obtain ⟨origin, relay, -, -, rfl⟩ := World.receiveBody_eq_some hworld
    exact h.running r hr

end System

/-- **A relay request reaches the node of its organization only.** In every run in which a
registration leaves a node's row with the token of the node's connections, and a row is deleted
while no request is on its way to its node, every envelope goes out for the organization that
has the node registered, over a socket authenticated with the registered token. -/
theorem forwarded_rightly {platform : ControllerPlatform} {entitlements : List Entitlement}
    {s : System}
    (h : Reaches (System.step platform) System.AdmitsRelay (System.init entitlements) s) :
    s.ForwardsRightly := by
  have hscoped : s.Scoped :=
    h.invariant (System.scoped_init entitlements) fun _ _ _ hi hok hstep => hi.step hok hstep
  exact hscoped.world.rightly

/-! ### Two runs -/

section Example

def labToken : String := "aaaaaaaaaaaaaaaaaaaaaaaaaaaaaaaa"

def bobToken : String := "bbbbbbbbbbbbbbbbbbbbbbbbbbbbbbbb"

/-- Alice registers a node in her organization, and the node connects. -/
def labConnected : List SystemEvent :=
  requestFor (.access (.createOrganization aliceId "lab")) 0 1 ++
    requestFor (.registerNode aliceId labOrganization
      ⟨"node_lab", "lab", none, some labToken, none⟩) 0 3 ++
    requestFor (.connectNodeRelay "node_lab" true (some labToken) none) 0 3

/-- A request for the node's overview is authorized and goes out. -/
def overviewFor (userId : Uuid) : List SystemEvent :=
  requestFor (.nodeAccess userId "node_lab"
      (.relay ⟨"node_lab", .get, some "/api/v1/overview", false⟩ (.ok ""))) 0 3 ++
    [.body "node_lab" ⟨0, 0⟩ "1b4e28ba-2fa1-41d2-883f-0016d3cca427" true]

instance (s : System) (nodeId : String) (token : Option String) :
    Decidable (s.ConnectedWith nodeId token) := inferInstanceAs (Decidable (_ ∧ _))

instance (s : System) (nodeId : String) : Decidable (s.Unrelayed nodeId) :=
  inferInstanceAs (Decidable (_ ∧ _))

instance (s : System) : DecidablePred (Task.Admitted s) := by
  intro task
  cases task <;> unfold Task.Admitted <;> infer_instance

instance (s : System) : DecidablePred s.AdmitsRelay := by
  intro e
  cases e <;> unfold System.AdmitsRelay <;> infer_instance

theorem forwarded_rightly_overview :
    ∃ s, Reaches (System.step exampleController) System.AdmitsRelay (System.init []) s ∧
      s.world.history.any Entry.isForwarded = true ∧ s.ForwardsRightly := by
  obtain ⟨s, hs, hforwarded⟩ := exists_reaches_of_run
    (Q := fun s => s.world.history.any Entry.isForwarded = true)
    (System.step exampleController) System.AdmitsRelay (System.init [])
    (labConnected ++ overviewFor aliceId) (by decide)
  exact ⟨s, hs, hforwarded, forwarded_rightly hs⟩

/-- An envelope that went out over a socket with another token than the node's. -/
def Entry.isStale : Entry → Bool
  | .forwarded _ _ row socketToken => row.bind Node.relayTokenHash ≠ socketToken
  | _ => false

/-- Alice deletes the node, and Bob registers its id for himself. Alice's node still has the
open socket, and Bob's request goes out over it. -/
theorem stale_socket_reached :
    ∃ s, Reaches (System.step exampleController) always (System.init []) s ∧
      ¬ s.ForwardsRightly := by
  obtain ⟨s, hs, hstale⟩ := exists_reaches_of_run
    (Q := fun s => s.world.history.any Entry.isStale = true)
    (System.step exampleController) always (System.init [])
    (labConnected ++ requestFor (.nodeAccess aliceId "node_lab" .deleteNode) 0 3 ++
      requestFor (.access (.ensurePersonalOrganization bobId)) 0 1 ++
      requestFor (.registerNode bobId (personalOrganizationId bobId.text)
        ⟨"node_lab", "lab", none, some bobToken, none⟩) 0 3 ++
      overviewFor bobId)
    (by decide)
  refine ⟨s, hs, fun hrightly => ?_⟩
  obtain ⟨entry, hentry, hstale⟩ := any_eq_true.mp hstale
  cases entry with
  | forwarded nodeId organizationId row socketToken =>
    obtain ⟨node, token, rfl, -, htoken, rfl⟩ := hrightly nodeId organizationId row socketToken
      hentry
    simp [Entry.isStale, htoken] at hstale
  | _ => cases hstale

end Example

end AgentSight.Controller
