import AgentSight.Bridge.ScopeTable
import AgentSight.Bridge.Link
import AgentSight.Lib.History

/-!
# Tagging and the flush watermark of a scope

A broadcast raises the `last_sequence` of the scope it is attributed to, and the reply to an
unregistration reports it. `ScopeEvent` is the history of one run that this is about: handles
entering and leaving the table, envelopes fanned out, replies queued. The *stay* of a handle
is what has been attributed to it since it last entered.

A registration puts a fresh entry in the table, also in the place of a present one, and the
watermark starts again from zero; `scope_flush` is about the runs in which no registration
does that to a scope that something has been attributed to.
-/

namespace AgentSight.Bridge

open Transition List Option

/-! ### Tagging -/

/-- The handle is in the table and active, and no other one is. -/
def BridgeHub.IsOnlyActive (h : BridgeHub) (nowNs : ℕ) (handle : String) : Prop :=
  (∃ entry, h.scopes.lookup handle = some entry ∧ entry.isActive nowNs = true) ∧
    ∀ other entry, h.scopes.lookup other = some entry → entry.isActive nowNs = true → other = handle

/-- Two entries of a table with the same handle are one. -/
private theorem eq_singleton_iff {α : Type} {β : Type} {l : List (Sigma fun _ : α => β)}
    (hl : l.NodupKeys) {x : Sigma fun _ : α => β} :
    l = [x] ↔ x ∈ l ∧ ∀ y ∈ l, y.1 = x.1 := by
  constructor
  · rintro rfl
    simp
  · rintro ⟨hx, hall⟩
    match l, hl, hx, hall with
    | [y], _, hx, _ => rw [mem_singleton.mp hx]
    | y :: z :: l, hl, _, hall =>
      have hyz : y.1 = z.1 := (hall y (by simp)).trans (hall z (by simp)).symm
      have hne := (nodupKeys_cons.mp hl).1
      exact absurd (hyz ▸ mem_keys_of_mem mem_cons_self) hne

theorem BridgeHub.activeScopeHandle_eq_some_iff (h : BridgeHub) (nowNs : ℕ) (handle : String) :
    h.activeScopeHandle nowNs = some handle ↔ h.IsOnlyActive nowNs handle := by
  have hmem other entry : h.scopes.lookup other = some entry ∧ entry.isActive nowNs = true ↔
        ⟨other, entry⟩ ∈ h.scopes.entries.filter fun entry => entry.2.isActive nowNs := by
    rw [mem_filter, AList.mem_lookup_iff.symm]
    rfl
  have hkeys : (h.scopes.entries.filter fun entry => entry.2.isActive nowNs).NodupKeys :=
    h.scopes.nodupKeys.sublist filter_sublist
  rw [activeScopeHandle]
  generalize h.scopes.entries.filter (fun entry => entry.2.isActive nowNs) = active at hmem hkeys
  constructor
  · intro hactive
    split at hactive
    · next entry =>
      obtain rfl := some.inj hactive
      refine ⟨⟨entry.2, (hmem _ _).mpr (by simp)⟩, fun other e hlookup hact => ?_⟩
      have := (hmem other e).mp ⟨hlookup, hact⟩
      rw [mem_singleton] at this
      rw [← this]
    · cases hactive
  · rintro ⟨⟨entry, hentry⟩, hall⟩
    have hone : active = [⟨handle, entry⟩] := by
      refine (eq_singleton_iff hkeys).mpr ⟨(hmem _ _).mp hentry, fun y hy => ?_⟩
      obtain ⟨hlookup, hact⟩ := (hmem y.1 y.2).mpr hy
      exact hall y.1 y.2 hlookup hact
    rw [hone]

/-- **Tagging.** An envelope without a handle gets one at its broadcast if it may be tagged
and the handle is the only active one. -/
theorem BridgeHub.stamp_scopeHandle_iff (h : BridgeHub) (nowNs : ℕ)
    (envelope : ViewMutationEnvelope) (handle : String) (hnone : envelope.scopeHandle = none) :
    (h.stamp nowNs envelope).scopeHandle = some handle ↔
      envelope.mutation.isScopeTaggable = true ∧ h.IsOnlyActive nowNs handle := by
  rw [stamp, ← activeScopeHandle_eq_some_iff]
  cases envelope.mutation.isScopeTaggable <;> simp [hnone]

/-! ### The history of a run -/

inductive ScopeEvent where
  /-- The handle was put in the table. -/
  | registered (handle : String)
  /-- The connection took the handle out of the table, if it was there. -/
  | unregistered (id : ℕ) (handle : String)
  /-- The envelope was pushed to the queues of these connections. -/
  | fannedOut (envelope : ViewMutationEnvelope) (ids : List ℕ)
  /-- The reply to an unregistration was sent to the queue of the connection. -/
  | replied (id : ℕ) (handle : String) (flushedThrough : Option ℕ)
  deriving DecidableEq

/-- What has been attributed to the handle since it last entered the table; nothing at all
when it is not there. -/
def stayStep (handle : String) :
    Option (List ViewMutationEnvelope) → ScopeEvent → Option (List ViewMutationEnvelope)
  | none, .registered handle' => if handle' = handle then some [] else none
  | some envelopes, .unregistered _ handle' => if handle' = handle then none else some envelopes
  | some envelopes, .fannedOut envelope _ =>
    if envelope.scopeHandle = some handle then some (envelopes ++ [envelope])
    else some envelopes
  | stay, _ => stay

def stay (handle : String) (events : List ScopeEvent) : Option (List ViewMutationEnvelope) :=
  events.foldl (stayStep handle) none

/-- The greatest sequence of some envelopes, if there are any. -/
def greatest (envelopes : List ViewMutationEnvelope) : Option ℕ :=
  (envelopes.map (·.sequence)).max?

/-- The event of one piece of a reader's work. -/
def ReaderOp.scopeEvent (h : BridgeHub) (id : ℕ) : ReaderOp → Option ScopeEvent
  | .registerScope registration =>
    if BridgeHub.isBlank registration.scopeHandle then none
    else some (.registered registration.scopeHandle)
  | .registerToolScope registration =>
    if BridgeHub.isBlank registration.toolScopeHandle then none
    else if (h.scopes.lookup registration.parentScopeHandle).isNone then none
    else some (.registered registration.toolScopeHandle)
  | .unregisterScope scopeHandle => some (.unregistered id scopeHandle)
  | .sendTo (.scopeUnregistered scopeHandle flushedThrough) =>
    some (.replied id scopeHandle flushedThrough)
  | _ => none

/-- The event of a step. -/
def Server.scopeEvent (s : Server) : Action → Option ScopeEvent
  | .broadcast nowNs =>
    s.emission.map fun envelope => .fannedOut (s.hub.stamp nowNs envelope) s.hub.connections
  | .read id _ =>
    match (s.peers id).reader with
    | op :: _ => op.scopeEvent s.hub id
    | [] => none
  | _ => none

/-- A server with the history of its scopes. -/
structure ScopeHistory where
  server : Server
  events : List ScopeEvent

/-! ### The stay of a handle -/

theorem stay_concat (handle : String) (events : List ScopeEvent) (event : ScopeEvent) :
    stay handle (events ++ [event]) = stayStep handle (stay handle events) event := by
  simp [stay]

variable {handle : String} {envelopes : List ViewMutationEnvelope} {envelope : ViewMutationEnvelope}
  {events : List ScopeEvent}

/-- What is attributed to a handle was fanned out with it. -/
theorem exists_fannedOut_of_mem_stay (h : stay handle events = some envelopes)
    (hmem : envelope ∈ envelopes) :
    envelope.scopeHandle = some handle ∧ ∃ ids, .fannedOut envelope ids ∈ events := by
  -- from the last event backwards: only a fan-out adds to a stay
  induction events using List.reverseRecOn generalizing envelopes with
  | nil => cases h
  | append_singleton events event ih =>
    rw [stay_concat] at h
    have hold {envelopes' : List ViewMutationEnvelope} (h' : stay handle events = some envelopes')
        (hmem' : envelope ∈ envelopes') :
        envelope.scopeHandle = some handle ∧
          ∃ ids, .fannedOut envelope ids ∈ events ++ [event] := by
      obtain ⟨htag, ids, hids⟩ := ih h' hmem'
      exact ⟨htag, ids, mem_append_left _ hids⟩
    rcases hstay : stay handle events with _ | envelopes' <;> rw [hstay] at h
    · cases event with
      | registered handle' =>
        simp only [stayStep] at h
        split_ifs at h
        obtain rfl := some.inj h
        cases hmem
      | _ => cases h
    · cases event with
      | unregistered id handle' =>
        simp only [stayStep] at h
        split_ifs at h
        obtain rfl := some.inj h
        exact hold hstay hmem
      | fannedOut envelope' ids =>
        simp only [stayStep] at h
        split_ifs at h with htag
        · obtain rfl := some.inj h
          obtain hmem | hmem := mem_append.mp hmem
          · exact hold hstay hmem
          · rw [mem_singleton.mp hmem]
            exact ⟨htag, ids, by simp⟩
        · obtain rfl := some.inj h
          exact hold hstay hmem
      | registered | replied =>
        obtain rfl := some.inj h
        exact hold hstay hmem

variable {id : ℕ}

/-- A handle that was taken out stays out until it is registered again. -/
theorem stay_eq_none_of_unregistered {pre since : List ScopeEvent}
    (h : .registered handle ∉ since) :
    stay handle (pre ++ .unregistered id handle :: since) = none := by
  have hout : stayStep handle (stay handle pre) (.unregistered id handle) = none := by
    rcases stay handle pre with _ | envelopes <;> simp [stayStep]
  rw [stay, foldl_append]
  change since.foldl (stayStep handle) (stayStep handle (stay handle pre) _) = none
  rw [hout]
  induction since with
  | nil => rfl
  | cons event since ih =>
    have hstep : stayStep handle none event = none := by
      cases event with
      | registered handle' =>
        have hne : handle' ≠ handle := by
          rintro rfl
          exact h mem_cons_self
        simp [stayStep, hne]
      | _ => rfl
    rw [foldl_cons, hstep]
    exact ih fun hmem => h (mem_cons_of_mem _ hmem)

theorem greatest_concat (envelopes : List ViewMutationEnvelope) (envelope : ViewMutationEnvelope) :
    greatest (envelopes ++ [envelope]) =
      some (max ((greatest envelopes).getD 0) envelope.sequence) := by
  cases envelopes with
  | nil => simp [greatest]
  | cons first envelopes =>
    simp only [greatest, cons_append, map_cons, map_append, map_nil,
      max?_cons', foldl_append, foldl_cons, foldl_nil, getD_some]

theorem pos_of_greatest {n : ℕ}
    (hpos : ∀ envelope ∈ envelopes, 0 < envelope.sequence) (h : greatest envelopes = some n) :
    0 < n := by
  obtain ⟨envelope, hmem, rfl⟩ := mem_map.mp (max?_mem h)
  exact hpos envelope hmem

/-! ### The watermark -/

/-- The watermark of a handle in the table. -/
def ScopeTable.watermark (scopes : ScopeTable) (handle : String) : Option ℕ :=
  (scopes.lookup handle).map (·.lastSequence)

theorem watermark_insert (scopes : ScopeTable) (handle handle' : String) (entry : ScopeEntry) :
    ScopeTable.watermark (scopes.insert handle' entry) handle =
      if handle' = handle then some entry.lastSequence else scopes.watermark handle := by
  rw [ScopeTable.watermark]
  split_ifs with heq
  · rw [heq, AList.lookup_insert]
    rfl
  · rw [AList.lookup_insert_ne (Ne.symm heq)]
    rfl

theorem watermark_erase (scopes : ScopeTable) (handle handle' : String) :
    ScopeTable.watermark (scopes.erase handle') handle =
      if handle' = handle then none else scopes.watermark handle := by
  rw [ScopeTable.watermark]
  split_ifs with heq
  · rw [heq, AList.lookup_erase]
    rfl
  · rw [AList.lookup_erase_ne (Ne.symm heq)]
    rfl

/-- **What a step does to a watermark**, in terms of its event. -/
theorem Server.watermark_scopesAfter (s : Server) (a : Action) (handle : String) :
    (s.scopesAfter a).watermark handle =
      match s.scopeEvent a with
      | some (.registered handle') =>
        if handle' = handle then some 0 else s.hub.scopes.watermark handle
      | some (.unregistered _ handle') =>
        if handle' = handle then none else s.hub.scopes.watermark handle
      | some (.fannedOut envelope _) =>
        if envelope.scopeHandle = some handle then
          (s.hub.scopes.watermark handle).map (max · envelope.sequence)
        else s.hub.scopes.watermark handle
      | _ => s.hub.scopes.watermark handle := by
  -- only a broadcast and three pieces of a reader's work touch the table
  cases a with
  | broadcast nowNs =>
    rw [scopesAfter, scopeEvent]
    rcases s.emission with _ | envelope
    · rfl
    · simp only [map_some]
      rw [ScopeTable.watermark, BridgeHub.lookup_noteScopeSequence]
      split_ifs
      · rw [ScopeTable.watermark, Option.map_map, Option.map_map]
        rfl
      · rfl
  | read id input =>
    rw [scopesAfter, scopeEvent]
    rcases (s.peers id).reader with _ | ⟨op, ops⟩
    · rfl
    · cases op with
      | registerScope registration =>
        simp only [ReaderOp.scopesAfter, ReaderOp.scopeEvent, BridgeHub.registerScope]
        split_ifs
        · rfl
        · exact watermark_insert ..
      | registerToolScope registration =>
        simp only [ReaderOp.scopesAfter, ReaderOp.scopeEvent, BridgeHub.registerToolScope]
        split_ifs
        · rfl
        · rfl
        · exact watermark_insert ..
      | unregisterScope scopeHandle => exact watermark_erase ..
      | sendTo message => cases message <;> rfl
      | _ => rfl
  | _ => rfl

/-! ### Replies -/

/-- The piece unregisters a scope or sends the reply. -/
def ReaderOp.unregisters : ReaderOp → Bool
  | .unregisterScope _ | .sendTo (.scopeUnregistered ..) => true
  | _ => false

variable {op : ReaderOp}

theorem ReaderOp.unregisters_exec {h h' : BridgeHub} {viewFree : Bool}
    {input : ReaderInput} {ops : List ReaderOp}
    (hexec : op.exec h id viewFree input = some (h', ops)) :
    (∃ handle, op = .unregisterScope handle ∧
      ops = [.sendTo (.scopeUnregistered handle (h.unregisterScope handle).2)]) ∨
    ∀ op' ∈ ops, op'.unregisters = false := by
  cases exec_leaves hexec with
  | unregistered => exact .inl ⟨_, rfl, rfl⟩
  | replayed =>
    cases h.resume _ <;> simp [resumeReplies, unregisters]
  | _ => exact .inr (by simp [unregisters])

/-- An unregistration is all that its message makes the reader do. -/
theorem unregisters_handleMessage {config : BridgeServerConfig} {negotiated negotiated' : Bool}
    {message : BridgeMessage} {ops : List ReaderOp} {flow : Flow}
    (h : handleMessage config negotiated message = (ops, negotiated', flow)) :
    (∃ handle, ops = [.unregisterScope handle] ∧ flow = .continue) ∨
      ∀ op ∈ ops, op.unregisters = false := by
  revert h
  cases negotiated <;> cases message <;> simp only [handleMessage, Bool.not_true, Bool.not_false,
    if_true, if_false, Bool.false_eq_true] <;> try split
  all_goals
    rintro ⟨⟩
    simp [ReaderOp.unregisters]

namespace ScopeHistory

def init (config : BridgeServerConfig) : ScopeHistory where
  server := .init config
  events := []

def step (bodyBytes : BridgeMessage → ℕ) (t : ScopeHistory) (a : Action) : Option ScopeHistory :=
  (t.server.step bodyBytes a).map fun server =>
    ⟨server, t.events ++ (t.server.scopeEvent a).toList⟩

/-- No handle is registered again while something is attributed to it. -/
def Respects (t : ScopeHistory) (a : Action) : Prop :=
  ∀ handle entry, t.server.scopeEvent a = some (.registered handle) →
    t.server.hub.scopes.lookup handle = some entry → entry.lastSequence = 0

/-- The watermark of every handle in the table is the greatest sequence of its stay. -/
def Watermarked (t : ScopeHistory) : Prop :=
  ∀ handle, t.server.hub.scopes.watermark handle =
    (stay handle t.events).map fun envelopes => (greatest envelopes).getD 0

variable {bodyBytes : BridgeMessage → ℕ} {t t' : ScopeHistory} {a : Action}

theorem step_eq (h : t.step bodyBytes a = some t') : t.server.step bodyBytes a = some t'.server ∧
      t'.events = t.events ++ (t.server.scopeEvent a).toList := by
  obtain ⟨server, hserver, rfl⟩ := map_eq_some_iff.mp h
  exact ⟨hserver, rfl⟩

theorem Watermarked.step (h : t.Watermarked) (hok : t.Respects a)
    (hstep : t.step bodyBytes a = some t') : t'.Watermarked := by
  obtain ⟨hserver, hevents⟩ := step_eq hstep
  intro handle
  rw [Server.step_scopes hserver, Server.watermark_scopesAfter, hevents]
  have hold := h handle
  -- both sides change by the event of the step alone
  rcases hevent : t.server.scopeEvent a with _ | event
  · simpa using hold
  · simp only [toList_some, stay_concat]
    cases event with
    | registered handle' =>
      simp only
      split_ifs with heq
      · subst heq
        rcases hstay : stay handle' t.events with _ | envelopes
        · simp [stayStep, greatest]
        · -- the scope is in the table already
          rw [hstay] at hold
          obtain ⟨entry, hentry, hlast⟩ := map_eq_some_iff.mp hold
          have hzero := hok handle' entry hevent hentry
          simp [stayStep, map_some, ← hlast, hzero]
      · rw [hold]
        rcases stay handle t.events with _ | envelopes <;> simp [stayStep, heq]
    | unregistered id handle' =>
      rw [hold]
      rcases stay handle t.events with _ | envelopes
      · simp [stayStep]
      · by_cases heq : handle' = handle <;> simp [stayStep, heq]
    | fannedOut envelope ids =>
      rw [hold]
      rcases stay handle t.events with _ | envelopes
      · simp [stayStep]
      · by_cases heq : envelope.scopeHandle = some handle
        · simp [stayStep, heq, greatest_concat]
        · simp [stayStep, heq]
    | replied id handle' flushedThrough =>
      rw [hold]
      rcases stay handle t.events with _ | envelopes <;> rfl

/-- A registration that starts a watermark again loses it. -/
theorem Watermarked.respects (h : t.Watermarked) (hstep : t.step bodyBytes a = some t')
    (h' : t'.Watermarked) : t.Respects a := by
  obtain ⟨hserver, hevents⟩ := step_eq hstep
  intro handle entry hevent hentry
  have hold := h handle
  have hnew := h' handle
  rw [ScopeTable.watermark, hentry, map_some] at hold
  obtain ⟨envelopes, hstay, hlast⟩ := map_eq_some_iff.mp hold.symm
  rw [Server.step_scopes hserver, Server.watermark_scopesAfter, hevents, hevent] at hnew
  simp only [if_true, toList_some, stay_concat, hstay, stayStep, map_some,
    some.injEq] at hnew
  rw [← hlast, ← hnew]

/-- The last unregistration by the connection was of this handle, and `flushedThrough` is the
greatest sequence of the stay it ended. -/
def Due (events : List ScopeEvent) (id : ℕ) (handle : String) (flushedThrough : Option ℕ) : Prop :=
  ∃ earlier since, events = earlier ++ .unregistered id handle :: since ∧
    flushedThrough = greatest ((stay handle earlier).getD []) ∧
    ∀ handle', .unregistered id handle' ∉ since

/-- Every reply was due, and nothing was attributed to a handle between its unregistration and
its next registration. -/
structure Flushed (t : ScopeHistory) : Prop where
  replied : ∀ pre id handle flushedThrough post,
    t.events = pre ++ .replied id handle flushedThrough :: post → Due pre id handle flushedThrough
  untagged : ∀ pre id handle since envelope ids post,
    t.events = pre ++ .unregistered id handle :: since ++ .fannedOut envelope ids :: post →
    envelope.scopeHandle = some handle → .registered handle ∈ since

/-- What the readers have left of their unregistrations. -/
structure Answering (t : ScopeHistory) : Prop where
  alone : ∀ id, ∀ op ∈ (t.server.peers id).reader, op.unregisters = true →
    (t.server.peers id).reader = [op]
  pending : ∀ id handle flushedThrough,
    .sendTo (.scopeUnregistered handle flushedThrough) ∈ (t.server.peers id).reader →
    Due t.events id handle flushedThrough

theorem Due.concat
    {flushedThrough : Option ℕ} (h : Due events id handle flushedThrough) {more : List ScopeEvent}
    (hmore : ∀ handle', .unregistered id handle' ∉ more) :
    Due (events ++ more) id handle flushedThrough := by
  obtain ⟨earlier, since, rfl, hflushed, hsince⟩ := h
  refine ⟨earlier, since ++ more, by simp, hflushed, fun handle' hmem => ?_⟩
  obtain hmem | hmem := mem_append.mp hmem
  · exact hsince handle' hmem
  · exact hmore handle' hmem

theorem scopeEvent_eq_some {s : Server} {event : ScopeEvent} (h : s.scopeEvent a = some event) :
    (∃ nowNs envelope, a = .broadcast nowNs ∧ s.emission = some envelope ∧
      event = .fannedOut (s.hub.stamp nowNs envelope) s.hub.connections) ∨
    ∃ id input op ops, a = .read id input ∧ (s.peers id).reader = op :: ops ∧
      op.scopeEvent s.hub id = some event := by
  cases a with
  | broadcast nowNs =>
    obtain ⟨envelope, hemission, rfl⟩ := map_eq_some_iff.mp h
    exact .inl ⟨nowNs, envelope, rfl, hemission, rfl⟩
  | read id input =>
    rw [Server.scopeEvent] at h
    split at h
    · next op ops hreader => exact .inr ⟨id, input, op, ops, rfl, hreader, h⟩
    · cases h
  | _ => cases h

/-- Which piece makes an event about an unregistration. -/
theorem op_of_scopeEvent {h : BridgeHub} {id' : ℕ} :
    (op.scopeEvent h id = some (.unregistered id' handle) →
      id' = id ∧ op = .unregisterScope handle) ∧
    ∀ flushedThrough, op.scopeEvent h id = some (.replied id' handle flushedThrough) →
      id' = id ∧ op = .sendTo (.scopeUnregistered handle flushedThrough) := by
  cases op with
  | registerScope r | registerToolScope r =>
    simp only [ReaderOp.scopeEvent]
    split_ifs <;> simp
  | unregisterScope handle' =>
    simp only [ReaderOp.scopeEvent, some.injEq, ScopeEvent.unregistered.injEq,
      ReaderOp.unregisterScope.injEq, reduceCtorEq, IsEmpty.forall_iff, implies_true, and_true]
    exact fun h => ⟨h.1.symm, h.2⟩
  | sendTo message =>
    cases message with
    | scopeUnregistered handle' flushedThrough' =>
      simp only [ReaderOp.scopeEvent, some.injEq, reduceCtorEq, IsEmpty.forall_iff,
        ScopeEvent.replied.injEq, true_and, ReaderOp.sendTo.injEq,
        BridgeMessage.scopeUnregistered.injEq]
      exact fun _ h => ⟨h.1.symm, h.2⟩
    | _ => simp [ReaderOp.scopeEvent]
  | _ => simp [ReaderOp.scopeEvent]

/-- Where a piece about an unregistration comes from. -/
theorem reader_of_step {s s' : Server} (h : s.step bodyBytes a = some s') {i : ℕ}
    (halone : ∀ op ∈ (s.peers i).reader, op.unregisters = true → (s.peers i).reader = [op])
    (hop : op ∈ (s'.peers i).reader) (hun : op.unregisters = true) :
    ((s'.peers i).reader = (s.peers i).reader ∧ ∀ input, a ≠ .read i input) ∨
    (∃ handle, (s'.peers i).reader = [.unregisterScope handle]) ∨
    ∃ handle input, a = .read i input ∧ (s.peers i).reader = [.unregisterScope handle] ∧
      (s'.peers i).reader =
        [.sendTo (.scopeUnregistered handle (s.hub.unregisterScope handle).2)] := by
  have hnot {ops : List ReaderOp} (hops : ∀ op' ∈ ops, op'.unregisters = false) : op ∉ ops := by
    intro hmem
    rw [hops op hmem] at hun
    cases hun
  have htearDown : ∀ op' ∈ tearDown, op'.unregisters = false := by decide
  cases Server.work_of_step h i with
  | kept hread hreader => exact .inl ⟨hreader, hread⟩
  | received hhandle hreader =>
    rw [hreader] at hop ⊢
    obtain ⟨handle, rfl, rfl⟩ | hops := unregisters_handleMessage hhandle
    · exact .inr (.inl ⟨handle, rfl⟩)
    · obtain hop | hop := mem_append.mp hop
      · exact absurd hop (hnot hops)
      · split_ifs at hop
        · exact absurd hop (hnot htearDown)
        · cases hop
  | closing hread hops =>
    obtain rfl | hop := hops op hop
    · cases hun
    · exact absurd hop (hnot htearDown)
  | @read input op' ops ops' hreader hexec hreader' =>
    rw [hreader'] at hop ⊢
    have hops : op ∉ ops := by
      intro hmem
      have := halone op (by simp [hreader, hmem]) hun
      rw [hreader] at this
      obtain ⟨-, rfl⟩ := cons.inj this
      cases hmem
    have hop' := (mem_append.mp hop).resolve_right hops
    obtain ⟨handle, rfl, rfl⟩ | hnone := ReaderOp.unregisters_exec hexec
    · have hsingle := halone (.unregisterScope handle) (by simp [hreader]) rfl
      rw [hreader] at hsingle
      obtain ⟨-, rfl⟩ := cons.inj hsingle
      exact .inr (.inr ⟨handle, input, rfl, hreader, rfl⟩)
    · exact absurd hop' (hnot hnone)

/-- What an unregistration reports is the greatest sequence of the stay. -/
theorem Watermarked.unregisterScope (h : t.Watermarked)
    (hpos : ∀ envelopes, stay handle t.events = some envelopes →
      ∀ envelope ∈ envelopes, 0 < envelope.sequence) :
    (t.server.hub.unregisterScope handle).2 = greatest ((stay handle t.events).getD []) := by
  have hold := h handle
  rw [BridgeHub.unregisterScope]
  rcases hstay : stay handle t.events with _ | envelopes <;> rw [hstay] at hold
  · simp [map_eq_none_iff.mp hold, greatest]
  · obtain ⟨entry, hentry, hlast⟩ := map_eq_some_iff.mp hold
    simp only [hentry, getD_some]
    rcases hgreatest : greatest envelopes with _ | n
    · simp only [hgreatest, getD_none] at hlast
      simp [hlast]
    · have := pos_of_greatest (hpos envelopes hstay) hgreatest
      simp only [hgreatest, getD_some] at hlast
      simp [hlast, this]

theorem op_ne_fannedOut {h : BridgeHub} {ids : List ℕ} :
    op.scopeEvent h id ≠ some (.fannedOut envelope ids) := by
  cases op with
  | registerScope r =>
    simp only [ReaderOp.scopeEvent]
    split_ifs <;> simp
  | registerToolScope r =>
    simp only [ReaderOp.scopeEvent]
    split_ifs <;> simp
  | sendTo message => cases message <;> simp [ReaderOp.scopeEvent]
  | _ => simp [ReaderOp.scopeEvent]

/-- Only a broadcast fans out. -/
theorem broadcast_of_fannedOut {s : Server} {ids : List ℕ}
    (h : s.scopeEvent a = some (.fannedOut envelope ids)) :
    ∃ nowNs emitted, a = .broadcast nowNs ∧ s.emission = some emitted ∧
      envelope = s.hub.stamp nowNs emitted := by
  obtain ⟨nowNs, emitted, ha, hemission, heq⟩ | ⟨id, input, op, ops, -, -, hop⟩ :=
    scopeEvent_eq_some h
  · cases heq
    exact ⟨nowNs, emitted, ha, hemission, rfl⟩
  · exact absurd hop op_ne_fannedOut

/-- Every mutation in flight or fanned out is numbered, and the one in flight carries no
handle. -/
structure Numbered (t : ScopeHistory) : Prop where
  emission : ∀ envelope, t.server.emission = some envelope →
    envelope.scopeHandle = none ∧ 0 < envelope.sequence
  fannedOut : ∀ envelope ids, .fannedOut envelope ids ∈ t.events → 0 < envelope.sequence

theorem Numbered.step (h : t.Numbered) (hstep : t.step bodyBytes a = some t') : t'.Numbered := by
  obtain ⟨hserver, hevents⟩ := step_eq hstep
  constructor
  · intro envelope hemission
    obtain hold | ⟨operation, mutation, wall, basis, -, rfl⟩ :=
      Server.emission_of_step hserver hemission
    · exact h.emission envelope hold
    · exact ⟨rfl, Nat.succ_pos _⟩
  · intro envelope ids hmem
    rw [hevents, mem_append, mem_toList] at hmem
    obtain hmem | hevent := hmem
    · exact h.fannedOut envelope ids hmem
    · obtain ⟨nowNs, emitted, -, hemission, heq⟩ := broadcast_of_fannedOut hevent
      rw [heq, BridgeHub.stamp_sequence]
      exact (h.emission emitted hemission).2

/-- Whatever is attributed to a handle is numbered. -/
theorem Numbered.stay (h : t.Numbered) (hstay : stay handle t.events = some envelopes) :
    ∀ envelope ∈ envelopes, 0 < envelope.sequence := by
  intro envelope hmem
  obtain ⟨-, ids, hids⟩ := exists_fannedOut_of_mem_stay hstay hmem
  exact h.fannedOut envelope ids hids

theorem Answering.step (h : t.Answering) (hmark : t.Watermarked) (hnum : t.Numbered)
    (hstep : t.step bodyBytes a = some t') : t'.Answering := by
  obtain ⟨hserver, hevents⟩ := step_eq hstep
  constructor
  · intro i op hop hun
    obtain ⟨hsame, -⟩ | ⟨handle, hreader⟩ | ⟨handle, input, -, -, hreader⟩ :=
      reader_of_step hserver (h.alone i) hop hun
    · rw [hsame] at hop ⊢
      exact h.alone i op hop hun
    · rw [hreader] at hop ⊢
      rw [mem_singleton.mp hop]
    · rw [hreader] at hop ⊢
      rw [mem_singleton.mp hop]
  · intro i handle flushedThrough hop
    obtain ⟨hsame, hquiet⟩ | ⟨handle', hreader⟩ | ⟨handle', input, rfl, hreader, hreader'⟩ :=
      reader_of_step hserver (h.alone i) hop rfl
    · rw [hsame] at hop
      rw [hevents]
      refine (h.pending i handle flushedThrough hop).concat fun handle' hmem => ?_
      -- only the connection's own reader unregisters in its name
      obtain ⟨nowNs, envelope, -, -, heq⟩ | ⟨id, input, op, ops, rfl, -, hevent⟩ :=
        scopeEvent_eq_some (mem_toList.mp hmem)
      · cases heq
      · obtain ⟨rfl, -⟩ := op_of_scopeEvent.1 hevent
        exact hquiet input rfl
    · rw [hreader, mem_singleton] at hop
      cases hop
    · rw [hreader'] at hop
      obtain ⟨rfl, rfl⟩ : handle = handle' ∧
          flushedThrough = (t.server.hub.unregisterScope handle').2 := by simpa using hop
      have hevent : t.server.scopeEvent (.read i input) = some (.unregistered i handle) := by
        simp [Server.scopeEvent, hreader, ReaderOp.scopeEvent]
      rw [hevents, hevent]
      refine ⟨t.events, [], rfl, ?_, by simp⟩
      exact hmark.unregisterScope fun envelopes hstay => hnum.stay hstay

theorem Flushed.step (h : t.Flushed) (hmark : t.Watermarked) (hnum : t.Numbered)
    (hans : t.Answering) (hstep : t.step bodyBytes a = some t') : t'.Flushed := by
  obtain ⟨hserver, hevents⟩ := step_eq hstep
  rcases hevent : t.server.scopeEvent a with _ | event <;> rw [hevent] at hevents
  · exact ⟨by simpa [hevents] using h.replied, by simpa [hevents] using h.untagged⟩
  · constructor
    · intro pre id handle flushedThrough post heq
      rw [hevents] at heq
      obtain ⟨-, rfl, rfl⟩ | ⟨post', -, hold⟩ := History.split_concat heq
      · obtain ⟨nowNs, envelope, -, -, hne⟩ | ⟨id', input, op, ops, -, hreader, hop⟩ :=
          scopeEvent_eq_some hevent
        · cases hne
        · obtain ⟨rfl, rfl⟩ := op_of_scopeEvent.2 flushedThrough hop
          exact hans.pending id handle flushedThrough (by simp [hreader])
      · exact h.replied pre id handle flushedThrough post' hold
    · intro pre id handle since envelope ids post heq htag
      rw [hevents] at heq
      obtain ⟨-, hold, rfl⟩ | ⟨post', -, hold⟩ := History.split_concat heq
      · obtain ⟨nowNs, emitted, -, hemission, rfl⟩ := broadcast_of_fannedOut hevent
        have hnone := (hnum.emission emitted hemission).1
        obtain ⟨-, ⟨entry, hentry, -⟩, -⟩ :=
          (BridgeHub.stamp_scopeHandle_iff _ nowNs emitted handle hnone).mp htag
        by_contra hmem
        -- the handle is in the table, so it has a stay
        have hmark' := hmark handle
        rw [hold, stay_eq_none_of_unregistered hmem, ScopeTable.watermark, hentry] at hmark'
        cases hmark'
      · exact h.untagged pre id handle since envelope ids post' hold htag

/-- What holds of every state of a run that renews nothing. -/
structure Sound (t : ScopeHistory) : Prop where
  watermarked : t.Watermarked
  flushed : t.Flushed
  answering : t.Answering
  numbered : t.Numbered

theorem sound_init (config : BridgeServerConfig) : (init config).Sound where
  watermarked handle := rfl
  flushed := ⟨fun pre _ _ _ _ h => absurd h (by simp [init]),
    fun pre _ _ _ _ _ _ h => absurd h (by simp [init])⟩
  answering := ⟨fun _ op h => (not_mem_nil h).elim, fun _ _ _ h => (not_mem_nil h).elim⟩
  numbered := ⟨fun _ h => (some_ne_none _ h.symm).elim,
    fun _ _ h => (not_mem_nil h).elim⟩

theorem Sound.step (h : t.Sound) (hok : t.Respects a) (hstep : t.step bodyBytes a = some t') :
    t'.Sound where
  watermarked := h.watermarked.step hok hstep
  flushed := h.flushed.step h.watermarked h.numbered h.answering hstep
  answering := h.answering.step h.watermarked h.numbered hstep
  numbered := h.numbered.step hstep

/-- **Scope flush.** In every state reached by runs that register no handle again while
something is attributed to it: every watermark in the table is the greatest sequence of its
stay; every reply to an unregistration reported the greatest sequence of the stay it ended,
all of which had been fanned out, and nothing was attributed to the handle between that and
its next registration; the broadcast of the mutation in flight attributes it to a handle
if and only if it is taggable and the handle is the only active one, and pushes it to the
queue of every registered connection. From there a step keeps the watermarks if and only if
it registers no such handle. -/
theorem scope_flush {config : BridgeServerConfig}
    (h : Reaches (ScopeHistory.step bodyBytes) Respects (init config) t) :
    t.Watermarked ∧ t.Flushed ∧ (∀ nowNs envelope, t.server.emission = some envelope →
        ∃ t', t.step bodyBytes (.broadcast nowNs) = some t' ∧ t'.events = t.events ++
            [.fannedOut (t.server.hub.stamp nowNs envelope) t.server.hub.connections] ∧
          (∀ handle, (t.server.hub.stamp nowNs envelope).scopeHandle = some handle ↔
            envelope.mutation.isScopeTaggable = true ∧ t.server.hub.IsOnlyActive nowNs handle) ∧
          ∀ id ∈ t.server.hub.connections, t'.server.hub.queues id =
            ((t.server.hub.queues id).push (.mutation (t.server.hub.stamp nowNs envelope))).1) ∧
      ∀ a t', t.step bodyBytes a = some t' → (t.Respects a ↔ t'.Watermarked) := by
  have hsound : t.Sound :=
    h.invariant (sound_init config) fun t a t' ht hok hstep => ht.step hok hstep
  refine ⟨hsound.watermarked, hsound.flushed, ?_, fun a t' hstep => ⟨?_, ?_⟩⟩
  · intro nowNs envelope hemission
    have hnone := (hsound.numbered.emission envelope hemission).1
    refine ⟨_, by rw [ScopeHistory.step, Server.step, hemission]; rfl, ?_, ?_, ?_⟩
    · simp [Server.scopeEvent, hemission]
    · exact fun handle => BridgeHub.stamp_scopeHandle_iff _ nowNs envelope handle hnone
    · intro id hid
      have hreg : t.server.hub.isRegistered id = true := decide_eq_true hid
      simp [BridgeHub.broadcast, BridgeHub.pushAll, hreg]
  · exact fun hok => hsound.watermarked.step hok hstep
  · exact fun hmark => hsound.watermarked.respects hstep hmark

/-! ### Runs -/

open Server (handshake readOp smallConfig)
open Nesting (registersSandbox)

/-- `Respects`, as it is tested. -/
def respects (t : ScopeHistory) (a : Action) : Bool :=
  match t.server.scopeEvent a with
  | some (.registered handle) =>
    (t.server.hub.scopes.lookup handle).all fun entry => entry.lastSequence == 0
  | _ => true

theorem respects_iff (t : ScopeHistory) (a : Action) : t.respects a = true ↔ t.Respects a := by
  rw [respects, Respects]
  split
  · next handle hevent =>
    rw [hevent, Option.all_eq_true]
    constructor
    · intro h handle' entry heq hentry
      cases heq
      exact beq_iff_eq.mp (h entry hentry)
    · exact fun h entry hentry => beq_iff_eq.mpr (h handle entry rfl hentry)
  · next hevent => exact iff_of_true rfl fun handle _ h => absurd h (hevent handle)

instance decidableRespects (t : ScopeHistory) (a : Action) : Decidable (t.Respects a) :=
  decidable_of_iff _ (t.respects_iff a)

/-- The connection drops the sandbox scope and sends the reply. -/
def unregistersSandbox : List Action :=
  [.receive 1 (.unregisterScope "sandbox"), readOp [], readOp []]

/-- An audit event is numbered and broadcast. -/
def audits : List Action :=
  [.allocate .insert (.auditEventInserted default) none .unknown, .broadcast 0]

/-- A scope with one mutation in it is dropped. -/
theorem scope_flush_of_one_mutation :
    ∃ t, Reaches (ScopeHistory.step fun _ => 0) Respects (init (smallConfig 8 8)) t ∧
      .replied 1 "sandbox" (some 1) ∈ t.events ∧ t.Watermarked ∧ t.Flushed := by
  obtain ⟨t, ht, hreplied⟩ := exists_reaches_of_run (ScopeHistory.step fun _ => 0) Respects
    (init (smallConfig 8 8)) (Q := fun t => .replied 1 "sandbox" (some 1) ∈ t.events)
    (handshake ++ registersSandbox ++ audits ++ unregistersSandbox) (by decide)
  obtain ⟨hmark, hflushed, -⟩ := scope_flush ht
  exact ⟨t, ht, hreplied, hmark, hflushed⟩

/-- A reply to an unregistration that has just been made. -/
theorem due_concat_self {flushedThrough : Option ℕ}
    (h : Due (events ++ [.unregistered id handle]) id handle flushedThrough) :
    flushedThrough = greatest ((stay handle events).getD []) := by
  obtain ⟨earlier, since, heq, hflushed, hsince⟩ := h
  obtain ⟨-, rfl, -⟩ | ⟨since', rfl, -⟩ := History.split_concat heq
  · exact hflushed
  · exact absurd (by simp) (hsince handle)

/-- The scope is registered, an audit event attributed to it, and the scope registered
again. -/
def renewed : List ScopeEvent :=
  let envelope := Server.emitterEnvelope (.new (smallConfig 8 8)) 1 .insert
    (.auditEventInserted default) none .unknown
  [.registered "sandbox", .fannedOut { envelope with scopeHandle := some "sandbox" } [1],
    .registered "sandbox"]

/-- **A lease renewal loses the watermark.** A mutation is attributed to a scope, the scope is
registered again, and the reply to its unregistration says that nothing was attributed. -/
theorem renewal_loses_watermark : ¬∀ (config : BridgeServerConfig) (t : ScopeHistory),
      Reaches (ScopeHistory.step fun _ => 0) always (init config) t → t.Flushed := by
  intro hall
  obtain ⟨t, ht, hevents⟩ := exists_reaches_of_run (ScopeHistory.step fun _ => 0)
    always (init (smallConfig 8 8))
    (Q := fun t => t.events = renewed ++ [.unregistered 1 "sandbox"] ++ [.replied 1 "sandbox" none])
    (handshake ++ registersSandbox ++ audits ++ registersSandbox ++ unregistersSandbox)
    (by decide)
  have hdue := (hall _ t ht).replied _ 1 "sandbox" none [] hevents
  have hgreatest := due_concat_self hdue
  revert hgreatest
  decide

end ScopeHistory

end AgentSight.Bridge
