import AgentSight.Collector.Capability
import AgentSight.Lib.History
import AgentSight.Lib.Transition

/-!
# What a capability authorizes

A host runs one capability store after another over one file. Its history says which tokens were
minted, how the file was written and when a process started; nothing reads it. A token
authorizes exactly what it was minted for, until it expires, in the process that minted it and,
if it is persistent, in a later one, as long as the file's last write before each start was
complete, later than the mint and by a process of the same node.
-/

namespace AgentSight.Collector

open History Transition List Option CapabilityStore

/-! ### Runs of a host -/

inductive HistoryEntry where
  | minted (token : String) (grant : Grant)
  /-- A process of the node wrote the file, all of it or only a part. -/
  | wrote (nodeId : String) (complete : Bool)
  | started
  deriving DecidableEq

structure Host where
  store : CapabilityStore
  file : Option PersistedCapabilities
  clock : ℕ
  history : List HistoryEntry

inductive HostEvent where
  | mint (token : String) (outcome : WriteOutcome) (nodeId : String)
      (request : CapabilityMintRequest)
  | authorizes (nodeId token action : String) (sessionId : Option String)
  | advance (seconds : ℕ)
  | restart

/-- What a write leaves in the file. -/
def WriteOutcome.entries (nodeId : String) : WriteOutcome → List HistoryEntry
  | .written => [.wrote nodeId true]
  | .unconfirmed => [.wrote nodeId true]
  | .notOpened => []
  | .cutShort => [.wrote nodeId false]

namespace Host

/-- A host without a file, on which a process starts. -/
def init (persistPath : Option String) (clock : ℕ) : Host :=
  ⟨.fresh persistPath, none, clock, []⟩

/-- What a call of `mint` adds to the history. -/
def mintEntries (h : Host) (token : String) (outcome : WriteOutcome) (nodeId : String)
    (request : CapabilityMintRequest) : List HistoryEntry :=
  match request.validate with
  | .error _ => []
  | .ok () =>
    if (h.store.ensureNode h.file h.clock nodeId).2 then
      let grant := request.grant nodeId h.clock
      .minted token grant ::
        if grant.persistent && h.store.persistPath.isSome then outcome.entries nodeId else []
    else []

def step (h : Host) : HostEvent → Option Host
  | .mint token outcome nodeId request =>
    let (store, file, _) := h.store.mint h.file h.clock token outcome nodeId request
    some { h with
      store, file, history := h.history ++ h.mintEntries token outcome nodeId request }
  | .authorizes nodeId token action sessionId =>
    some { h with
      store := (h.store.authorizes h.file h.clock nodeId token action sessionId).1 }
  | .advance seconds => some { h with clock := h.clock + seconds }
  | .restart =>
    some { h with store := .fresh h.store.persistPath, history := h.history ++ [.started] }

/-- A random token was not drawn before. -/
def Fresh (h : Host) : HostEvent → Prop
  | .mint token .. => ∀ grant, .minted token grant ∉ h.history
  | _ => True

end Host

/-! ### Grants that are still held -/

/-- The last write of the file, and whether it was complete. -/
def lastWrite : List HistoryEntry → Option (String × Bool)
  | [] => none
  | entry :: rest =>
    match lastWrite rest, entry with
    | some write, _ => some write
    | none, .wrote nodeId complete => some (nodeId, complete)
    | none, _ => none

/-- Every start in the history finds the grant in the file. -/
def Survives (grant : Grant) (since : List HistoryEntry) : Prop :=
  ∀ before after, since = before ++ .started :: after →
    grant.persistent = true ∧ lastWrite before = some (grant.nodeId, true)

/-- The token was minted with the grant, and the grant has survived every start since. -/
def Held (history : List HistoryEntry) (token : String) (grant : Grant) : Prop :=
  ∃ before since, history = before ++ .minted token grant :: since ∧ Survives grant since

/-- A process that starts now will find the grant. -/
def Filed (history : List HistoryEntry) (token : String) (grant : Grant) : Prop :=
  ∃ before since, history = before ++ .minted token grant :: since ∧ Survives grant since ∧
    grant.persistent = true ∧ lastWrite since = some (grant.nodeId, true)

section Held

variable {history since : List HistoryEntry} {token : String} {grant : Grant}

theorem lastWrite_append (first second : List HistoryEntry) :
    lastWrite (first ++ second) = (lastWrite second).or (lastWrite first) := by
  induction first with
  | nil => simp [lastWrite]
  | cons entry first ih =>
    simp only [cons_append, lastWrite, ih]
    cases lastWrite second <;> rfl

theorem survives_nil : Survives grant [] := fun before after h => by simp at h

theorem survives_concat (x : HistoryEntry) : Survives grant (since ++ [x]) ↔ Survives grant since ∧
      (x = .started → grant.persistent = true ∧ lastWrite since = some (grant.nodeId, true)) := by
  constructor
  · intro h
    refine ⟨fun before after heq => h before (after ++ [x]) ?_, ?_⟩
    · rw [heq, append_assoc, cons_append]
    · rintro rfl
      exact h since [] rfl
  · rintro ⟨hsince, hx⟩ before after heq
    obtain ⟨-, rfl, hstarted⟩ | ⟨rest, -, heq⟩ := split_concat heq
    · exact hx hstarted
    · exact hsince before rest heq

/-- One more entry: it is the mint itself, or it comes after the mint. -/
theorem exists_minted_concat {Q : List HistoryEntry → Prop} (x : HistoryEntry) :
    (∃ before since, history ++ [x] = before ++ .minted token grant :: since ∧ Q since) ↔
      (x = .minted token grant ∧ Q []) ∨
        ∃ before since, history = before ++ .minted token grant :: since ∧ Q (since ++ [x]) := by
  constructor
  · rintro ⟨before, since, heq, hq⟩
    obtain ⟨rfl, -, hx⟩ | ⟨rest, rfl, hold⟩ := split_concat heq
    · exact .inl ⟨hx, hq⟩
    · exact .inr ⟨before, rest, hold, hq⟩
  · rintro (⟨rfl, hq⟩ | ⟨before, since, rfl, hq⟩)
    · exact ⟨history, [], rfl, hq⟩
    · exact ⟨before, since ++ [x], by simp, hq⟩

theorem held_minted (token' : String) (grant' : Grant) :
    Held (history ++ [.minted token' grant']) token grant ↔
      (token' = token ∧ grant' = grant) ∨ Held history token grant := by
  simp only [Held, exists_minted_concat, survives_concat, reduceCtorEq, false_implies, and_true,
    survives_nil, HistoryEntry.minted.injEq]

theorem held_wrote (nodeId : String) (complete : Bool) :
    Held (history ++ [.wrote nodeId complete]) token grant ↔ Held history token grant := by
  simp only [Held, exists_minted_concat, survives_concat, reduceCtorEq, false_implies, and_true,
    false_and, false_or]

theorem held_started : Held (history ++ [.started]) token grant ↔ Filed history token grant := by
  simp only [Held, Filed, exists_minted_concat, survives_concat, reduceCtorEq, true_implies,
    false_and, false_or]

theorem Filed.held (h : Filed history token grant) : Held history token grant := by
  obtain ⟨before, since, heq, hsurvives, -⟩ := h
  exact ⟨before, since, heq, hsurvives⟩

theorem filed_minted (token' : String) (grant' : Grant) :
    Filed (history ++ [.minted token' grant']) token grant ↔ Filed history token grant := by
  simp only [Filed, exists_minted_concat, survives_concat, reduceCtorEq, false_implies, and_true,
    lastWrite_append, lastWrite, none_or, and_false, false_or]

theorem filed_wrote (nodeId : String) (complete : Bool) :
    Filed (history ++ [.wrote nodeId complete]) token grant ↔
      Held history token grant ∧ grant.persistent = true ∧ nodeId = grant.nodeId ∧
        complete = true := by
  simp only [Filed, Held, exists_minted_concat, survives_concat, reduceCtorEq, false_implies,
    and_true, lastWrite_append, lastWrite, some_or, some.injEq, Prod.mk.injEq,
    false_and, false_or]
  constructor
  · rintro ⟨before, since, heq, hsurvives, hrest⟩
    exact ⟨⟨before, since, heq, hsurvives⟩, hrest⟩
  · rintro ⟨⟨before, since, heq, hsurvives⟩, hrest⟩
    exact ⟨before, since, heq, hsurvives, hrest⟩

theorem filed_started : Filed (history ++ [.started]) token grant ↔ Filed history token grant := by
  simp only [Filed, exists_minted_concat, survives_concat, reduceCtorEq, true_implies,
    lastWrite_append, lastWrite, none_or, false_and, false_or]
  constructor
  · rintro ⟨before, since, heq, ⟨hsurvives, hfiled⟩, -⟩
    exact ⟨before, since, heq, hsurvives, hfiled⟩
  · rintro ⟨before, since, heq, hsurvives, hfiled⟩
    exact ⟨before, since, heq, ⟨hsurvives, hfiled⟩, hfiled⟩

theorem not_held_of_fresh (h : ∀ grant, .minted token grant ∉ history) :
    ¬ Held history token grant := by
  rintro ⟨before, since, rfl, -⟩
  exact h grant (mem_append_right _ mem_cons_self)

end Held

/-! ### The store against the history -/

/-- The store of a process, if it belongs to a node, has exactly the grants of the node that
are held; and the file has exactly those that a process will find. What has expired does not
count. -/
structure Host.Faithful (h : Host) : Prop where
  bound : ∀ nodeId ∈ h.store.nodeId, ∀ token grant, h.clock ≤ grant.expiresAt →
    (h.store.grants token = some grant ↔ Held h.history token grant ∧ grant.nodeId = nodeId)
  owned : ∀ nodeId ∈ h.store.nodeId, ∀ token grant,
    h.store.grants token = some grant → grant.nodeId = nodeId
  unbound : h.store.nodeId = none → (∀ token, h.store.grants token = none) ∧
    ∀ token grant, Held h.history token grant → Filed h.history token grant
  file : ∀ token grant, h.clock ≤ grant.expiresAt →
    (Filed h.history token grant ↔ ∃ saved ∈ h.file, saved.nodeId = grant.nodeId ∧
      saved.grants token = some grant)
  saved : ∀ saved ∈ h.file, h.store.persistPath.isSome = true ∧
    ∀ token grant, saved.grants token = some grant →
      grant.nodeId = saved.nodeId ∧ grant.persistent = true

section Faithful

variable {h : Host}

theorem Host.faithful_init (persistPath : Option String) (clock : ℕ) :
    (Host.init persistPath clock).Faithful where
  bound nodeId hbound := by cases hbound
  owned nodeId hbound := by cases hbound
  unbound _ := by
    refine ⟨fun _ => rfl, fun token grant hheld => ?_⟩
    obtain ⟨before, since, heq, -⟩ := hheld
    simp [Host.init] at heq
  file token grant _ := by
    constructor
    · rintro ⟨before, since, heq, -⟩
      simp [Host.init] at heq
    · rintro ⟨saved, hsaved, -⟩
      cases hsaved
  saved saved hsaved := by cases hsaved

variable {nodeId token : String} {grant : Grant}

section

variable (hf : h.Faithful)
include hf

section

variable (hbelongs : (h.store.ensureNode h.file h.clock nodeId).2 = true)
include hbelongs

/-- The store that `ensure_node` leaves when it passes has exactly the held grants of the
node. -/
theorem Host.Faithful.ensured (hexpires : h.clock ≤ grant.expiresAt) :
    (h.store.ensureNode h.file h.clock nodeId).1.grants token = some grant ↔
      Held h.history token grant ∧ grant.nodeId = nodeId := by
  obtain hnode | hnode := CapabilityStore.ensureNode_belongs.mp hbelongs
  · obtain ⟨hempty, hfiled⟩ := hf.unbound hnode
    rw [ensureNode_grants hnode (hempty token)]
    constructor
    · rintro ⟨-, saved, hfile, rfl, hgrant, -⟩
      have hsame := ((hf.saved saved hfile).2 token grant hgrant).1
      exact ⟨((hf.file token grant hexpires).mpr ⟨saved, hfile, hsame.symm, hgrant⟩).held, hsame⟩
    · rintro ⟨hheld, rfl⟩
      obtain ⟨saved, hfile, hsame, hgrant⟩ :=
        (hf.file token grant hexpires).mp (hfiled token grant hheld)
      obtain ⟨hpath, hsaved⟩ := hf.saved saved hfile
      exact ⟨hpath, saved, hfile, hsame, hgrant, (hsaved token grant hgrant).2, hexpires⟩
  · rw [ensureNode_of_bound hnode]
    exact hf.bound nodeId hnode token grant hexpires

theorem Host.Faithful.ensured_owned
    (hgrant : (h.store.ensureNode h.file h.clock nodeId).1.grants token = some grant) :
    grant.nodeId = nodeId := by
  obtain hnode | hnode := CapabilityStore.ensureNode_belongs.mp hbelongs
  · rw [ensureNode_grants hnode ((hf.unbound hnode).1 token)] at hgrant
    obtain ⟨-, saved, hfile, rfl, hgrant, -⟩ := hgrant
    exact ((hf.saved saved hfile).2 token grant hgrant).1
  · rw [ensureNode_of_bound hnode] at hgrant
    exact hf.owned nodeId hnode token grant hgrant

/-- The node's first call of a process, or a later one, with what has expired removed. -/
theorem Host.Faithful.prune :
    Host.Faithful { h with
      store := (h.store.ensureNode h.file h.clock nodeId).1.removeExpired h.clock } where
  bound nodeId' hnode token grant hexpires := by
    rw [removeExpired_nodeId, ensureNode_nodeId hbelongs] at hnode
    obtain rfl := some.inj hnode
    rw [removeExpired_grants, and_iff_left hexpires]
    exact hf.ensured hbelongs hexpires
  owned nodeId' hnode token grant hgrant := by
    rw [removeExpired_nodeId, ensureNode_nodeId hbelongs] at hnode
    obtain rfl := some.inj hnode
    exact hf.ensured_owned hbelongs (CapabilityStore.removeExpired_grants.mp hgrant).1
  unbound hnone := by
    rw [removeExpired_nodeId, ensureNode_nodeId hbelongs] at hnone
    cases hnone
  file := hf.file
  saved saved hsaved := by
    refine ⟨?_, (hf.saved saved hsaved).2⟩
    rw [removeExpired_persistPath, ensureNode_persistPath]
    exact (hf.saved saved hsaved).1

end

/-- A new token is held from its mint on, and not yet in the file. -/
theorem Host.Faithful.insert (hnode : h.store.nodeId = some grant.nodeId)
    (hfresh : ∀ grant, .minted token grant ∉ h.history) :
    Host.Faithful { h with
      store := h.store.insert token grant
      history := h.history ++ [.minted token grant] } where
  bound nodeId hbound token' grant' hexpires := by
    rw [insert_nodeId, hnode] at hbound
    obtain rfl := some.inj hbound
    rw [insert_grants, held_minted, hf.bound _ hnode token' grant' hexpires]
    constructor
    · rintro (⟨rfl, rfl⟩ | ⟨-, hheld, hsame⟩)
      · exact ⟨.inl ⟨rfl, rfl⟩, rfl⟩
      · exact ⟨.inr hheld, hsame⟩
    · rintro ⟨⟨rfl, rfl⟩ | hheld, hsame⟩
      · exact .inl ⟨rfl, rfl⟩
      · refine .inr ⟨?_, hheld, hsame⟩
        rintro rfl
        exact not_held_of_fresh hfresh hheld
  owned nodeId hbound token' grant' hgrant := by
    rw [insert_nodeId, hnode] at hbound
    obtain rfl := some.inj hbound
    obtain ⟨-, rfl⟩ | ⟨-, hgrant⟩ := (CapabilityStore.insert_grants token grant).mp hgrant
    · rfl
    · exact hf.owned _ hnode token' grant' hgrant
  unbound hnone := by
    rw [insert_nodeId, hnode] at hnone
    cases hnone
  file token' grant' hexpires := by
    rw [filed_minted]
    exact hf.file token' grant' hexpires
  saved := hf.saved

/-- A complete write files what the process holds. -/
theorem Host.Faithful.write
    (hnode : h.store.nodeId = some nodeId) (hpath : h.store.persistPath.isSome = true) :
    Host.Faithful { h with
      file := some (h.store.saved nodeId)
      history := h.history ++ [.wrote nodeId true] } where
  bound nodeId' hbound token grant hexpires := by
    rw [held_wrote]
    exact hf.bound nodeId' hbound token grant hexpires
  owned := hf.owned
  unbound hnone := by rw [hnode] at hnone; cases hnone
  file token grant hexpires := by
    have hbound := hf.bound nodeId hnode token grant hexpires
    simp only [filed_wrote, mem_def, some.injEq, exists_eq_left',
      saved_grants, hbound, and_true]
    constructor
    · rintro ⟨hheld, hpersistent, rfl⟩
      exact ⟨rfl, ⟨hheld, rfl⟩, hpersistent⟩
    · rintro ⟨hsame, ⟨hheld, -⟩, hpersistent⟩
      exact ⟨hheld, hpersistent, hsame⟩
  saved saved hsaved := by
    obtain rfl := some.inj hsaved
    refine ⟨hpath, fun token grant hgrant => ?_⟩
    obtain ⟨hgrant, hpersistent⟩ := CapabilityStore.saved_grants.mp hgrant
    exact ⟨hf.owned nodeId hnode token grant hgrant, hpersistent⟩

/-- A write that was cut short files nothing. -/
theorem Host.Faithful.cutShort (hnode : h.store.nodeId = some nodeId) :
    Host.Faithful { h with
      file := none
      history := h.history ++ [.wrote nodeId false] } where
  bound nodeId' hbound token grant hexpires := by
    rw [held_wrote]
    exact hf.bound nodeId' hbound token grant hexpires
  owned := hf.owned
  unbound hnone := by rw [hnode] at hnone; cases hnone
  file token grant hexpires := by simp [filed_wrote]
  saved saved hsaved := by cases hsaved

theorem Host.Faithful.restart : Host.Faithful { h with
      store := .fresh h.store.persistPath, history := h.history ++ [.started] } where
  bound nodeId hbound := by cases hbound
  owned nodeId hbound := by cases hbound
  unbound _ := by
    refine ⟨fun _ => rfl, fun token grant hheld => ?_⟩
    exact filed_started.mpr (held_started.mp hheld)
  file token grant hexpires := by
    rw [filed_started]
    exact hf.file token grant hexpires
  saved := hf.saved

theorem Host.Faithful.advance (seconds : ℕ) :
    Host.Faithful { h with clock := h.clock + seconds } where
  bound nodeId hbound token grant hexpires :=
    hf.bound nodeId hbound token grant (Nat.le_of_add_right_le hexpires)
  owned := hf.owned
  unbound := hf.unbound
  file token grant hexpires := hf.file token grant (Nat.le_of_add_right_le hexpires)
  saved := hf.saved

theorem Host.Faithful.authorizes (nodeId token action : String)
    (sessionId : Option String) :
    Host.Faithful { h with
      store := (h.store.authorizes h.file h.clock nodeId token action sessionId).1 } := by
  by_cases hbelongs : (h.store.ensureNode h.file h.clock nodeId).2 = true
  · rw [authorizes_store hbelongs]
    exact hf.prune hbelongs
  · rw [Bool.not_eq_true] at hbelongs
    rw [authorizes_refused hbelongs]
    exact hf

/-- Writing the file, as the outcome says. -/
theorem Host.Faithful.persist
    (hnode : h.store.nodeId = some nodeId) (outcome : WriteOutcome) :
    Host.Faithful { h with
      file := (h.store.persist h.file outcome).1
      history := h.history ++
        if h.store.persistPath.isSome then outcome.entries nodeId else [] } := by
  cases hpath : h.store.persistPath with
  | none => simpa [CapabilityStore.persist, hpath] using hf
  | some path =>
    have hsome : h.store.persistPath.isSome = true := by rw [hpath]; rfl
    cases outcome with
    | written | unconfirmed =>
      simpa [CapabilityStore.persist, hnode, hpath, WriteOutcome.entries] using hf.write hnode hsome
    | notOpened => simpa [CapabilityStore.persist, hnode, hpath, WriteOutcome.entries] using hf
    | cutShort =>
      simpa [CapabilityStore.persist, hnode, hpath, WriteOutcome.entries] using hf.cutShort hnode

theorem Host.Faithful.mint (outcome : WriteOutcome)
    (nodeId : String) (request : CapabilityMintRequest)
    (hfresh : ∀ grant, .minted token grant ∉ h.history) :
    Host.Faithful { h with
      store := (h.store.mint h.file h.clock token outcome nodeId request).1
      file := (h.store.mint h.file h.clock token outcome nodeId request).2.1
      history := h.history ++ h.mintEntries token outcome nodeId request } := by
  cases hvalid : request.validate with
  | error e => simpa [CapabilityStore.mint, Host.mintEntries, hvalid] using hf
  | ok valid =>
    by_cases hbelongs : (h.store.ensureNode h.file h.clock nodeId).2 = true
    · have hpruned := hf.prune hbelongs
      have hminted := hpruned.insert (CapabilityStore.ensureNode_nodeId hbelongs :
        _ = some (request.grant nodeId h.clock).nodeId) hfresh
      cases hpersistent : (request.grant nodeId h.clock).persistent with
      | false =>
        simpa [CapabilityStore.mint, Host.mintEntries, hvalid, hbelongs, hpersistent] using hminted
      | true =>
        have hwritten := hminted.persist (CapabilityStore.ensureNode_nodeId hbelongs) outcome
        simpa [CapabilityStore.mint, Host.mintEntries, hvalid, hbelongs, hpersistent] using hwritten
    · rw [Bool.not_eq_true] at hbelongs
      simpa [CapabilityStore.mint, Host.mintEntries, hvalid, hbelongs,
        ensureNode_eq_false hbelongs] using hf

theorem Host.Faithful.step {e : HostEvent} (hok : h.Fresh e) {h' : Host}
    (hs : h.step e = some h') : h'.Faithful := by
  cases e with
  | mint token outcome nodeId request =>
    obtain rfl := some.inj hs
    exact hf.mint outcome nodeId request hok
  | authorizes nodeId token action sessionId =>
    obtain rfl := some.inj hs
    exact hf.authorizes nodeId token action sessionId
  | advance seconds =>
    obtain rfl := some.inj hs
    exact hf.advance seconds
  | restart =>
    obtain rfl := some.inj hs
    exact hf.restart

end

end Faithful

/-- **What a capability authorizes.** In every state of every run, a string authorizes an action
on a session for a node exactly when the process does not belong to another node and the string
is held with a grant of that node, which has the action, covers the session and has not
expired. -/
theorem authorizes_iff_held {persistPath : Option String} {clock : ℕ} {h : Host}
    (hrun : Reaches Host.step Host.Fresh (Host.init persistPath clock) h)
    (nodeId token action : String) (sessionId : Option String) :
    (h.store.authorizes h.file h.clock nodeId token action sessionId).2 = true ↔
      (h.store.nodeId = none ∨ h.store.nodeId = some nodeId) ∧
      ∃ grant : Grant, Held h.history token grant ∧ grant.nodeId = nodeId ∧
        action ∈ grant.actions ∧ (∀ scope ∈ grant.sessionId, sessionId = some scope) ∧
        h.clock ≤ grant.expiresAt := by
  have hf : h.Faithful :=
    hrun.invariant (Host.faithful_init persistPath clock) fun _ _ _ hi hok hs => hi.step hok hs
  rw [authorizes_eq_true, ensureNode_belongs]
  refine and_congr_right fun hbelongs => exists_congr fun grant => ?_
  have hensured hexpires : (h.store.ensureNode h.file h.clock nodeId).1.grants token = some grant ↔
        Held h.history token grant ∧ grant.nodeId = nodeId :=
    hf.ensured (CapabilityStore.ensureNode_belongs.mpr hbelongs) hexpires
  constructor
  · rintro ⟨hgrant, hexpires, hnode, haction, hscope⟩
    exact ⟨((hensured hexpires).mp hgrant).1, hnode, haction, hscope, hexpires⟩
  · rintro ⟨hheld, hnode, haction, hscope, hexpires⟩
    exact ⟨(hensured hexpires).mpr ⟨hheld, hnode⟩, hexpires, hnode, haction, hscope⟩

/-! ### Two runs -/

section Example

/-- An hour of reading evidence, for any session. -/
def exampleRequest : CapabilityMintRequest := ⟨[evidenceRead], none, 3600⟩

def exampleGrant : Grant := exampleRequest.grant "node_lab" 100

/-- A host on which a process of `node_lab` has minted `cap_1`, and another process started. -/
def mintedThenStarted : List HostEvent :=
  [.mint "cap_1" .written "node_lab" exampleRequest, .restart]

/-- The token of a minted entry. -/
def HistoryEntry.mintedToken : HistoryEntry → Option String
  | .minted token _ => some token
  | _ => none

theorem fresh_iff (h : Host) (token : String) : (∀ grant, .minted token grant ∉ h.history) ↔
      some token ∉ h.history.map HistoryEntry.mintedToken := by
  constructor
  · intro hfresh hmem
    obtain ⟨entry, hentry, htoken⟩ := mem_map.mp hmem
    cases entry with
    | minted token' grant =>
      obtain rfl := some.inj htoken
      exact hfresh grant hentry
    | wrote | started => cases htoken
  · intro hmem grant hentry
    exact hmem (mem_map.mpr ⟨_, hentry, rfl⟩)

instance (h : Host) : DecidablePred h.Fresh
  | .mint token .. => decidable_of_iff _ (fresh_iff h token).symm
  | .authorizes .. => isTrue trivial
  | .advance _ => isTrue trivial
  | .restart => isTrue trivial

/-- A later process of the node accepts the token. -/
theorem authorizes_iff_held_restarted :
    ∃ h : Host, (h.store.authorizes h.file h.clock "node_lab" "cap_1" evidenceRead none).2 = true ∧
      ((h.store.authorizes h.file h.clock "node_lab" "cap_1" evidenceRead none).2 = true ↔
        (h.store.nodeId = none ∨ h.store.nodeId = some "node_lab") ∧
        ∃ grant : Grant, Held h.history "cap_1" grant ∧ grant.nodeId = "node_lab" ∧
          evidenceRead ∈ grant.actions ∧ (∀ scope ∈ grant.sessionId, none = some scope) ∧
          h.clock ≤ grant.expiresAt) := by
  obtain ⟨h, hrun, haccepted⟩ := exists_reaches_of_run (Q := fun h : Host =>
      (h.store.authorizes h.file h.clock "node_lab" "cap_1" evidenceRead none).2 = true)
    Host.step Host.Fresh (Host.init (some "capabilities.json") 100) mintedThenStarted
    (by decide)
  exact ⟨h, haccepted, authorizes_iff_held hrun "node_lab" "cap_1" evidenceRead none⟩

/-- The process was first asked about another node: the token was minted for the node with the
action, has not expired, and was filed; it authorizes nothing. -/
theorem refused_after_other_node :
    ∃ h : Host, Reaches Host.step Host.Fresh (Host.init (some "capabilities.json") 100) h ∧
      h.history = [.minted "cap_1" exampleGrant, .wrote "node_lab" true, .started] ∧
      exampleGrant.nodeId = "node_lab" ∧ exampleGrant.persistent = true ∧
      evidenceRead ∈ exampleGrant.actions ∧ exampleGrant.sessionId = none ∧
      h.clock ≤ exampleGrant.expiresAt ∧
      (h.store.authorizes h.file h.clock "node_lab" "cap_1" evidenceRead none).2 = false := by
  obtain ⟨h, hrun, hhistory, hclock, hrefused⟩ := exists_reaches_of_run (Q := fun h : Host =>
      h.history = [.minted "cap_1" exampleGrant, .wrote "node_lab" true, .started] ∧
      h.clock ≤ exampleGrant.expiresAt ∧
      (h.store.authorizes h.file h.clock "node_lab" "cap_1" evidenceRead none).2 = false)
    Host.step Host.Fresh (Host.init (some "capabilities.json") 100)
    (mintedThenStarted ++ [.authorizes "node_other" "cap_2" evidenceRead none])
    (by decide)
  exact ⟨h, hrun, hhistory, rfl, rfl, mem_singleton_self _, rfl, hclock, hrefused⟩

end Example

end AgentSight.Collector
