import AgentSight.Controller.Frames
import AgentSight.Controller.Ownership

/-!
# Who may change a registered node

A registration is an upsert whose conflict clause compares the organizations, so a node id stays
with its organization until its row is deleted. The right to manage nodes is checked in an
earlier statement than the write: `ownership_kept` finds it in the record of the request that
writes, and `removed_member_rotates` is a run in which the writer has lost it in between. The
deletion of a saved connection compares the user only, so the organization it was checked
against is the one that the node was read with.
-/

namespace AgentSight.Controller

open KeyedTable Transition List

/-! ### The property -/

/-- The token hash a node is registered with, if it is. -/
def NodeTables.token (t : NodeTables) (id : String) : Option (Option String) :=
  (t.findNode id).map Node.relayTokenHash

def NodeTables.configsOf (t : NodeTables) (id : String) : List NodeDirectConfig :=
  t.directConfigs.filter (·.nodeId = id)

/-- Whoever may do it may manage nodes. -/
def Action.ManagesNodes (action : Action) : Prop :=
  ∀ role, roleAllows role action = true → roleAllows role .nodeManage = true

/-- The user and the organization that a write of the node tables is made for. -/
def Task.manager : Task → Option (Uuid × String)
  | .writeNode userId organizationId _ => some (userId, organizationId)
  | .removeNode userId _ organizationId => some (userId, organizationId)
  | .removeDirectConfig userId _ organizationId => some (userId, organizationId)
  | .removeOrganization userId organizationId => some (userId, organizationId)
  | _ => none

/-- Since the request began, the user was found to hold a right that includes the management of
the organization's nodes. -/
def World.Held (w : World) (began : ℕ) (userId : Uuid) (organizationId : String) : Prop :=
  ∃ action : Action, action.ManagesNodes ∧
    .authorized userId.text organizationId action ∈ w.history.drop began

/-- What one step may do to the registered nodes. -/
structure OwnershipKept (s : System) (e : SystemEvent) (s' : System) : Prop where
  organization : ∀ id row row', s.world.tables.findNode id = some row →
    s'.world.tables.findNode id = some row' → row'.organizationId = row.organizationId
  /-- A token or a saved connection changes for a user who held the right in the organization
  that owns the node; or the user's own saved connection is deleted, the right having been held
  in the organization that the request read the node with. -/
  managed : ∀ id, s'.world.tables.token id ≠ s.world.tables.token id ∨
      s'.world.tables.configsOf id ≠ s.world.tables.configsOf id →
    ∃ running userId organizationId, s.Executes e running ∧
      running.task.manager = some (userId, organizationId) ∧
      s.world.Held running.began userId organizationId ∧
      (s.world.tables.nodeOrganization id = some organizationId ∨
        s.world.tables.nodeOrganization id = none ∧
          s'.world.tables.nodeOrganization id = some organizationId ∨
        .ownerRead id organizationId ∈ s.world.history.drop running.began ∧
          s'.world.tables = s.world.tables.deleteDirectConfig id userId.text)

variable {organizationId id : String}

/-! ### The tables -/

namespace NodeTables

variable {t : NodeTables}

@[simp] theorem nodeOrganization_eq (id : String) :
    t.nodeOrganization id = (t.findNode id).map Node.organizationId := rfl

variable {organizations : List Organization} {changes now : ℕ}

theorem upsertNode_cases {row : Node} {nodes : List Node}
    (h : t.upsertNode organizations row = some (nodes, changes)) :
    (t.findNode row.id = none ∧ nodes = t.nodes ++ [row] ∧ changes = 1) ∨
    (∃ existing, t.findNode row.id = some existing ∧ existing.organizationId = row.organizationId ∧
      nodes = update Node.id t.nodes row.id (mergeNode row) ∧ changes = 1) ∨
    (∃ existing, t.findNode row.id = some existing ∧
      existing.organizationId ≠ row.organizationId ∧ nodes = t.nodes ∧ changes = 0) := by
  unfold upsertNode at h
  split at h
  · next hnone =>
    split at h
    · obtain ⟨rfl, rfl⟩ := Prod.mk.inj (Option.some.inj h)
      exact .inl ⟨hnone, rfl, rfl⟩
    · cases h
  · next existing hexisting =>
    split at h
    · next horganization =>
      obtain ⟨rfl, rfl⟩ := Prod.mk.inj (Option.some.inj h)
      exact .inr (.inl ⟨existing, hexisting, horganization, rfl, rfl⟩)
    · next horganization =>
      obtain ⟨rfl, rfl⟩ := Prod.mk.inj (Option.some.inj h)
      exact .inr (.inr ⟨existing, hexisting, horganization, rfl, rfl⟩)

theorem unique_upsertNode (unique : Unique Node.id t.nodes) {row : Node} {nodes : List Node}
    (h : t.upsertNode organizations row = some (nodes, changes)) : Unique Node.id nodes := by
  obtain ⟨hnone, rfl, -⟩ | ⟨existing, -, -, rfl, -⟩ | ⟨existing, -, -, rfl, -⟩ :=
    upsertNode_cases h
  · exact unique_concat unique hnone
  · exact unique_update (fun _ => rfl) unique
  · exact unique

@[simp] theorem storeDirectConfig_nodes (organizationId : String) (row : NodeDirectConfig) :
    (t.storeDirectConfig organizationId row).nodes = t.nodes := by
  unfold storeDirectConfig
  split <;> rfl

variable {node : Registration} {t' : NodeTables}

/-- The batch writes the node's row, and a saved connection of that node alone. -/
theorem registerBatch_nodes {userId : String}
    (h : t.registerBatch organizations userId organizationId node now = some (t', changes)) :
    t.upsertNode organizations (newNode organizationId node now) = some (t'.nodes, changes) := by
  simp only [registerBatch, Option.bind_eq_bind, Option.bind_eq_some_iff] at h
  obtain ⟨⟨nodes, changes'⟩, hupsert, hrest⟩ := h
  rw [hupsert]
  split at hrest <;>
    · obtain ⟨rfl, rfl⟩ := Prod.mk.inj (Option.some.inj hrest)
      simp

theorem registerBatch_configs {userId : String}
    (h : t.registerBatch organizations userId organizationId node now = some (t', changes)) :
    t'.directConfigs = t.directConfigs ∨
      (∃ n ∈ t'.nodes, n.id = node.id ∧ n.organizationId = organizationId) ∧
        ∀ id, id ≠ node.id → t'.configsOf id = t.configsOf id := by
  simp only [registerBatch, Option.bind_eq_bind, Option.bind_eq_some_iff] at h
  obtain ⟨⟨nodes, changes'⟩, -, hrest⟩ := h
  split at hrest
  · obtain ⟨rfl, -⟩ := Prod.mk.inj (Option.some.inj hrest)
    exact .inl rfl
  · obtain ⟨rfl, -⟩ := Prod.mk.inj (Option.some.inj hrest)
    unfold storeDirectConfig
    split
    · next howned =>
      obtain ⟨n, hn, hrow⟩ := any_eq_true.mp howned
      refine .inr ⟨⟨n, hn, by simpa using hrow⟩, fun id hne => filter_upsert ?_ ?_⟩
      · simpa using fun h : node.id = id => hne h.symm
      · intro b hb
        have hnode : b.nodeId = node.id := congrArg Prod.fst hb
        have hother : ¬ b.nodeId = id := fun h => hne (h.symm.trans hnode)
        simp [hother]
    · exact .inl rfl

/-- What a registration does to the node it names, and that it touches no other. -/
theorem registerBatch_spec (unique : Unique Node.id t.nodes) {userId : String}
    (h : t.registerBatch organizations userId organizationId node now = some (t', changes)) :
    (∀ id, id ≠ node.id → t'.findNode id = t.findNode id ∧ t'.configsOf id = t.configsOf id) ∧
    (t.findNode node.id = none ∧ t'.findNode node.id = some (newNode organizationId node now) ∨
      (∃ row, t.findNode node.id = some row ∧ row.organizationId = organizationId ∧
        t'.findNode node.id = some (mergeNode (newNode organizationId node now) row)) ∨
      t' = t) := by
  have hnodes := registerBatch_nodes h
  have hconfigs := registerBatch_configs h
  have hothers : ∀ id, id ≠ node.id → t'.configsOf id = t.configsOf id := by
    intro id hne
    obtain hsame | ⟨-, hother⟩ := hconfigs
    · rw [configsOf, hsame, configsOf]
    · exact hother id hne
  obtain ⟨hnone, heq, -⟩ | ⟨row, hrow, horganization, heq, -⟩ | ⟨row, hrow, hforeign, heq, -⟩ :=
    upsertNode_cases hnodes
  · refine ⟨fun id hne => ⟨?_, hothers id hne⟩, .inl ⟨hnone, ?_⟩⟩
    · have hne' : ¬ node.id = id := fun h => hne h.symm
      simp [findNode, heq, find_concat, newNode, hne']
    · have hfind : find Node.id t.nodes node.id = none := hnone
      simp [findNode, heq, find_concat, newNode, hfind]
  · refine ⟨fun id hne => ⟨?_, hothers id hne⟩, .inr (.inl ⟨row, hrow, horganization, ?_⟩)⟩
    · rw [findNode, heq, find_update (f := mergeNode _) fun _ => rfl]
      exact if_neg hne
    · have hfind : find Node.id t.nodes node.id = some row := hrow
      rw [findNode, heq, find_update (f := mergeNode _) fun _ => rfl]
      simp [newNode, hfind]
  · -- the row of another organization: the second statement finds no node of its own either
    have hnot : ¬ ∃ n ∈ t'.nodes, n.id = node.id ∧ n.organizationId = organizationId := by
      rintro ⟨n, hn, hid, horganization⟩
      rw [heq] at hn
      obtain ⟨hmem, hkey⟩ := mem_of_find hrow
      have hsame : n = row := unique n hn row hmem (hid.trans hkey.symm)
      exact hforeign (hsame ▸ horganization)
    have hdirect : t'.directConfigs = t.directConfigs :=
      hconfigs.resolve_right fun h => hnot h.1
    have htables : t' = t := by
      cases t'
      cases t
      simp only [NodeTables.mk.injEq]
      exact ⟨heq, hdirect⟩
    exact ⟨fun id _ => ⟨by rw [htables], by rw [htables]⟩, .inr (.inr htables)⟩

theorem deleteNode_spec (nodeId organizationId : String) :
    t.deleteNode nodeId organizationId = t ∨ t.nodeOrganization nodeId = some organizationId ∧
        (t.deleteNode nodeId organizationId).findNode nodeId = none ∧
        ∀ id, id ≠ nodeId → (t.deleteNode nodeId organizationId).findNode id = t.findNode id ∧
          (t.deleteNode nodeId organizationId).configsOf id = t.configsOf id := by
  unfold deleteNode
  split
  · exact .inl rfl
  · next row hrow =>
    split
    · next horganization =>
      refine .inr ⟨by simp [hrow, horganization], ?_, fun id hne => ⟨?_, ?_⟩⟩
      · simp [findNode, find_delete]
      · simp [findNode, find_delete, hne]
      · simp only [configsOf, filter_filter]
        refine congrArg (List.filter · t.directConfigs) (funext fun config => ?_)
        by_cases h : config.nodeId = id
        · simp [h, hne]
        · simp [h]
    · exact .inl rfl

theorem deleteOrganization_findNode (unique : Unique Node.id t.nodes) (organizationId id : String) :
    (t.deleteOrganization organizationId).findNode id =
      (t.findNode id).filter (·.organizationId ≠ organizationId) :=
  find_filter unique _ _

theorem deleteOrganization_configsOf (h : t.nodeOrganization id ≠ some organizationId) :
    (t.deleteOrganization organizationId).configsOf id = t.configsOf id := by
  simp only [configsOf, deleteOrganization, filter_filter]
  refine congrArg (List.filter · t.directConfigs) (funext fun config => ?_)
  by_cases hid : config.nodeId = id
  · subst hid
    simpa using h
  · simp [hid]

theorem touchNode_findNode (nodeId : String) (version : Option String) (now : ℕ) (id : String) :
    ∃ f, (∀ row, (f row).organizationId = row.organizationId ∧
        (f row).relayTokenHash = row.relayTokenHash) ∧
      (t.touchNode nodeId version now).findNode id = (t.findNode id).map f := by
  unfold findNode touchNode
  rw [find_update]
  · split
    · next h =>
      subst h
      refine ⟨_, fun row => ?_, rfl⟩
      exact ⟨rfl, rfl⟩
    · exact ⟨fun row => row, fun _ => ⟨rfl, rfl⟩, by simp⟩
  · exact fun _ => rfl

theorem deleteDirectConfig_configsOf {nodeId userId : String} (h : id ≠ nodeId) :
    (t.deleteDirectConfig nodeId userId).configsOf id = t.configsOf id := by
  simp only [configsOf, deleteDirectConfig, delete, filter_filter]
  refine congrArg (List.filter · t.directConfigs) (funext fun config => ?_)
  by_cases hid : config.nodeId = id
  · have hne : ¬ config.key = (nodeId, userId) := by
      intro hkey
      exact h (hid.symm.trans (congrArg Prod.fst hkey))
    simp [hid, hne]
  · simp [hid]

end NodeTables

/-! ### What a request has established -/

theorem managesNodes_nodeManage : Action.nodeManage.ManagesNodes := fun _ h => h

theorem managesNodes_organizationManage : Action.organizationManage.ManagesNodes := by
  intro role
  cases role <;> decide

/-- What was read or checked before the task waits where it does. -/
def Running.Justified (w : World) (r : Running) : Prop :=
  match r.task with
  | .readExisting userId organizationId _ => w.Held r.began userId organizationId
  | .writeNode userId organizationId _ => w.Held r.began userId organizationId
  | .checkAccess _ nodeId organizationId _ =>
      .ownerRead nodeId organizationId ∈ w.history.drop r.began
  | .removeNode userId nodeId organizationId =>
      w.Held r.began userId organizationId ∧
        .ownerRead nodeId organizationId ∈ w.history.drop r.began
  | .removeDirectConfig userId nodeId organizationId =>
      w.Held r.began userId organizationId ∧
        .ownerRead nodeId organizationId ∈ w.history.drop r.began
  | .removeOrganization userId organizationId => w.Held r.began userId organizationId
  | _ => True

theorem mem_drop_of_prefix {l l' : List Entry} {entry : Entry} {k : ℕ} (h : l <+: l')
    (hentry : entry ∈ l.drop k) : entry ∈ l'.drop k := by
  obtain ⟨rest, rfl⟩ := h
  rw [drop_append]
  exact mem_append_left _ hentry

variable {w w' : World}

theorem World.Held.mono {began : ℕ} {userId : Uuid}
    (h : w.Held began userId organizationId) (hhistory : w.history <+: w'.history) :
    w'.Held began userId organizationId := by
  obtain ⟨action, hmanages, hentry⟩ := h
  exact ⟨action, hmanages, mem_drop_of_prefix hhistory hentry⟩

theorem Running.Justified.mono {r : Running} (h : r.Justified w)
    (hhistory : w.history <+: w'.history) : r.Justified w' := by
  unfold Justified at h ⊢
  split <;> simp only [*] at h
  all_goals first
    | exact h.mono hhistory
    | exact mem_drop_of_prefix hhistory h
    | exact ⟨h.1.mono hhistory, mem_drop_of_prefix hhistory h.2⟩
    | trivial

/-- What a statement records has happened since the request began. -/
theorem mem_drop_record {entry : Entry} {k : ℕ} (h : k ≤ w.history.length) :
    entry ∈ (w.record [entry]).history.drop k := by
  rw [World.record, drop_append_of_le_length h]
  exact mem_append_right _ (mem_singleton_self _)

theorem held_record {k : ℕ} (h : k ≤ w.history.length) {action : Action}
    (hmanages : action.ManagesNodes) (userId : Uuid) (organizationId : String) :
    (w.record [.authorized userId.text organizationId action]).Held k userId organizationId :=
  ⟨action, hmanages, mem_drop_record h⟩

section Next

variable {platform : ControllerPlatform} {w : World} {env : Ambient} {next : Task} {k : ℕ}

/-- The routes over `getNodeAccess` go on to a write of the node for their own purpose only. -/
theorem justified_proceed {userId : Uuid} {nodeId : String}
    {access : OrganizationAccess} {purpose : NodePurpose} {action : Action}
    (haction : purpose.action = .ok action)
    (hnext : purpose.proceed userId nodeId organizationId access = .awaits next)
    (hbegan : k ≤ w.history.length)
    (howner : .ownerRead nodeId organizationId ∈ w.history.drop k) :
    Running.Justified (w.record [.authorized userId.text organizationId action]) ⟨k, next⟩ := by
  have hread : .ownerRead nodeId organizationId ∈
      (w.record [.authorized userId.text organizationId action]).history.drop k :=
    mem_drop_of_prefix (prefix_append ..) howner
  cases purpose with
  | deleteNode =>
    obtain rfl := Except.ok.inj haction
    obtain rfl := Progress.awaits.inj hnext
    exact ⟨held_record hbegan managesNodes_nodeManage userId organizationId, hread⟩
  | directConfig remove =>
    obtain rfl := Except.ok.inj haction
    simp only [NodePurpose.proceed] at hnext
    split at hnext
    · cases hnext
    · split at hnext
      · obtain rfl := Progress.awaits.inj hnext
        exact ⟨held_record hbegan managesNodes_nodeManage userId organizationId, hread⟩
      · cases hnext
  | relay route body =>
    simp only [NodePurpose.proceed, proxyBrowserRelay] at hnext
    split at hnext
    · cases hnext
    · split at hnext
      · cases hnext
      · split at hnext <;> cases hnext <;> trivial
  | capabilities requested remaining managed body =>
    simp only [NodePurpose.proceed] at hnext
    split at hnext
    · split at hnext <;> cases hnext
      trivial
    · cases hnext
      trivial

theorem justified_next {task : Task}
    (hcontinues : Continues platform w env task next w') (hbegan : k ≤ w.history.length)
    (h : Running.Justified w ⟨k, task⟩) : Running.Justified w' ⟨k, next⟩ := by
  cases hcontinues with
  | deleteOrganization =>
    exact held_record hbegan managesNodes_organizationManage _ _
  | registerNode => exact held_record hbegan managesNodes_nodeManage _ _
  | readExisting => exact h
  | nodeAccess => exact mem_drop_record hbegan
  | checkAccess haction haccess hnext => exact justified_proceed haction hnext hbegan h
  | _ => trivial

end Next

/-! ### Statements on the tables -/

section Statements

variable {platform : ControllerPlatform} {w : World} {env : Ambient}

theorem unique_resume (unique : Unique Node.id w.tables.nodes) (task : Task) :
    Unique Node.id (task.resume platform w env).1.tables.nodes := by
  by_cases hkind : task.kind = .tables
  · cases task with
    | writeNode userId organizationId node =>
      simp only [Task.resume, runWriteNode]
      split
      · exact unique
      · next hbatch =>
        exact NodeTables.unique_upsertNode unique (NodeTables.registerBatch_nodes hbatch)
    | removeNode userId nodeId organizationId =>
      simp only [Task.resume, runRemoveNode, NodeTables.deleteNode]
      split
      · exact unique
      · split
        · exact unique_delete unique
        · exact unique
    | removeDirectConfig userId nodeId organizationId => exact unique
    | removeOrganization userId organizationId => exact unique_filter unique _
    | touchNode nodeId tokenHash version => exact unique_update (fun _ => rfl) unique
    | _ => cases hkind
  · rw [tables_resume platform w env hkind]
    exact unique

/-- No statement gives a registered node another organization. -/
theorem organization_resume (unique : Unique Node.id w.tables.nodes) (task : Task)
    {row row' : Node} (hrow : w.tables.findNode id = some row)
    (hrow' : (task.resume platform w env).1.tables.findNode id = some row') :
    row'.organizationId = row.organizationId := by
  have same : w.tables.findNode id = some row' → row'.organizationId = row.organizationId := by
    intro h
    rw [hrow] at h
    rw [Option.some.inj h]
  by_cases hkind : task.kind = .tables
  · cases task with
    | writeNode userId organizationId node =>
      simp only [Task.resume, runWriteNode] at hrow'
      split at hrow'
      · exact same hrow'
      · next tables changes hbatch =>
        obtain ⟨hothers, hnode⟩ := NodeTables.registerBatch_spec unique hbatch
        by_cases hid : id = node.id
        · subst hid
          obtain ⟨hnone, -⟩ | ⟨old, hold, -, hnew⟩ | rfl := hnode
          · rw [hrow] at hnone
            cases hnone
          · rw [hrow] at hold
            obtain rfl := Option.some.inj hold
            obtain rfl := Option.some.inj (hrow'.symm.trans hnew)
            rfl
          · exact same hrow'
        · exact same ((hothers id hid).1 ▸ hrow')
    | removeNode userId nodeId organizationId =>
      obtain heq | ⟨-, hgone, hothers⟩ := NodeTables.deleteNode_spec (t := w.tables) nodeId
        organizationId
      · exact same (heq ▸ hrow')
      · by_cases hid : id = nodeId
        · subst hid
          cases hgone.symm.trans hrow'
        · exact same ((hothers id hid).1 ▸ hrow')
    | removeDirectConfig userId nodeId organizationId => exact same hrow'
    | removeOrganization userId organizationId =>
      have hfilter := NodeTables.deleteOrganization_findNode unique organizationId id
      obtain ⟨hkept, -⟩ := Option.filter_eq_some_iff.mp (hfilter.symm.trans hrow')
      exact same hkept
    | touchNode nodeId tokenHash version =>
      obtain ⟨f, hf, hfind⟩ := NodeTables.touchNode_findNode (t := w.tables) nodeId version
        env.now id
      obtain ⟨old, hold, rfl⟩ := Option.map_eq_some_iff.mp (hfind.symm.trans hrow')
      obtain rfl := Option.some.inj (hrow.symm.trans hold)
      exact (hf row).1
    | _ => cases hkind
  · rw [tables_resume platform w env hkind] at hrow'
    exact same hrow'

/-- A statement that changes a node's token or saved connections is a manager's. -/
theorem managed_resume (unique : Unique Node.id w.tables.nodes) {task : Task} {k : ℕ}
    (hjustified : Running.Justified w ⟨k, task⟩)
    (hchanged : (task.resume platform w env).1.tables.token id ≠ w.tables.token id ∨
      (task.resume platform w env).1.tables.configsOf id ≠ w.tables.configsOf id) :
    ∃ userId organizationId, task.manager = some (userId, organizationId) ∧
      w.Held k userId organizationId ∧
      (w.tables.nodeOrganization id = some organizationId ∨ w.tables.nodeOrganization id = none ∧
          (task.resume platform w env).1.tables.nodeOrganization id = some organizationId ∨
        .ownerRead id organizationId ∈ w.history.drop k ∧
          (task.resume platform w env).1.tables = w.tables.deleteDirectConfig id userId.text) := by
  have unchanged : (task.resume platform w env).1.tables.findNode id = w.tables.findNode id →
      (task.resume platform w env).1.tables.configsOf id = w.tables.configsOf id → False := by
    intro hfind hconfigs
    obtain h | h := hchanged
    · exact h (congrArg (Option.map Node.relayTokenHash) hfind)
    · exact h hconfigs
  by_cases hkind : task.kind = .tables
  · cases task with
    | writeNode userId organizationId node =>
      refine ⟨userId, organizationId, rfl, hjustified, ?_⟩
      simp only [Task.resume, runWriteNode] at unchanged ⊢
      split at unchanged
      · exact (unchanged rfl rfl).elim
      · next tables changes hbatch =>
        obtain ⟨hothers, hnode⟩ := NodeTables.registerBatch_spec unique hbatch
        by_cases hid : id = node.id
        · subst hid
          obtain ⟨hnone, hnew⟩ | ⟨old, hold, horganization, -⟩ | rfl := hnode
          · refine .inr (.inl ⟨?_, ?_⟩)
            · simp [hnone]
            · simp [hnew, NodeTables.newNode]
          · exact .inl (by simp [hold, horganization])
          · exact (unchanged rfl rfl).elim
        · exact (unchanged (hothers id hid).1 (hothers id hid).2).elim
    | removeNode userId nodeId organizationId =>
      refine ⟨userId, organizationId, rfl, hjustified.1, .inl ?_⟩
      obtain heq | ⟨howner, -, hothers⟩ := NodeTables.deleteNode_spec (t := w.tables) nodeId
        organizationId
      · exact (unchanged (congrArg (NodeTables.findNode · id) heq)
          (congrArg (NodeTables.configsOf · id) heq)).elim
      · by_cases hid : id = nodeId
        · exact hid ▸ howner
        · exact (unchanged (hothers id hid).1 (hothers id hid).2).elim
    | removeDirectConfig userId nodeId organizationId =>
      refine ⟨userId, organizationId, rfl, hjustified.1, .inr (.inr ?_)⟩
      by_cases hid : id = nodeId
      · subst hid
        exact ⟨hjustified.2, rfl⟩
      · exact (unchanged rfl (NodeTables.deleteDirectConfig_configsOf hid)).elim
    | removeOrganization userId organizationId =>
      refine ⟨userId, organizationId, rfl, hjustified, .inl ?_⟩
      by_contra hforeign
      refine unchanged ?_ (NodeTables.deleteOrganization_configsOf hforeign)
      refine (NodeTables.deleteOrganization_findNode unique organizationId id).trans ?_
      cases hrow : w.tables.findNode id with
      | none => rfl
      | some row =>
        have hne : row.organizationId ≠ organizationId := by simpa [hrow] using hforeign
        simp [hne]
    | touchNode nodeId tokenHash version =>
      obtain ⟨f, hf, hfind⟩ := NodeTables.touchNode_findNode (t := w.tables) nodeId version
        env.now id
      refine (hchanged.elim (fun h => h ?_) fun h => h rfl).elim
      refine (congrArg (Option.map Node.relayTokenHash) hfind).trans ?_
      rw [Option.map_map]
      exact congrArg (Option.map · _) (funext fun row => (hf row).2)
    | _ => cases hkind
  · have htables := tables_resume platform w env hkind
    exact (unchanged (congrArg (NodeTables.findNode · id) htables)
      (congrArg (NodeTables.configsOf · id) htables)).elim

end Statements

/-! ### Runs -/

structure System.Owned (s : System) : Prop where
  unique : Unique Node.id s.world.tables.nodes
  began : ∀ r ∈ s.inflight, r.began ≤ s.world.history.length
  justified : ∀ r ∈ s.inflight, r.Justified s.world

namespace System

variable {platform : ControllerPlatform} {s s' : System} {e : SystemEvent}

theorem owned_init (entitlements : List Entitlement) : (init entitlements).Owned :=
  ⟨unique_nil, by simp [init], by simp [init]⟩

theorem Owned.of_world (h : s.Owned) (htables : w.tables = s.world.tables)
    (hhistory : s.world.history <+: w.history) : ({ s with world := w } : System).Owned where
  unique := htables ▸ h.unique
  began := fun r hr => (h.began r hr).trans hhistory.length_le
  justified := fun r hr => (h.justified r hr).mono hhistory

theorem Owned.step (h : s.Owned) (hs : s.step platform e = some s') : s'.Owned := by
  have hhistory := history_step hs
  obtain ⟨task, -, hrequest, hworld, hinflight⟩ |
    ⟨i, env, running, -, hrunning, hworld, hinflight⟩ | ⟨nodeId, event, relay, -, -, rfl⟩ |
    ⟨nodeId, call, id, sends, world, -, hworld, rfl⟩ := step_cases hs
  · refine ⟨hworld ▸ h.unique, fun r hr => ?_, fun r hr => ?_⟩
    all_goals
      rw [hinflight] at hr
      rw [hworld]
      obtain hr | hr := mem_append.mp hr
    · exact h.began r hr
    · rw [mem_singleton.mp hr]
    · exact h.justified r hr
    · rw [mem_singleton.mp hr]
      cases task <;> trivial
  · have hmem : running ∈ s.inflight := mem_of_getElem? hrunning
    refine ⟨hworld ▸ unique_resume h.unique running.task, fun r hr => ?_, fun r hr => ?_⟩
    · obtain hr | ⟨next, -, rfl⟩ := hinflight r hr
      · exact (h.began r hr).trans hhistory.length_le
      · exact (h.began running hmem).trans hhistory.length_le
    · obtain hr | ⟨next, hnext, rfl⟩ := hinflight r hr
      · exact (h.justified r hr).mono hhistory
      · exact justified_next hnext (h.began running hmem) (h.justified running hmem)
  · exact h.of_world rfl prefix_rfl
  · obtain ⟨origin, relay, -, -, rfl⟩ := World.receiveBody_eq_some hworld
    exact h.of_world rfl (prefix_append ..)

theorem Owned.kept (h : s.Owned) (hs : s.step platform e = some s') : OwnershipKept s e s' := by
  have same : s'.world.tables = s.world.tables → OwnershipKept s e s' := by
    intro htables
    refine ⟨fun id row row' hrow hrow' => ?_, fun id hchanged => ?_⟩
    · rw [htables, hrow] at hrow'
      rw [Option.some.inj hrow']
    · rw [htables] at hchanged
      exact (hchanged.elim (fun h => h rfl) fun h => h rfl).elim
  obtain ⟨task, -, -, hworld, -⟩ | ⟨i, env, running, rfl, hrunning, hworld, -⟩ |
    ⟨nodeId, event, relay, -, -, rfl⟩ | ⟨nodeId, call, id, sends, world, -, hworld, rfl⟩ :=
    step_cases hs
  · exact same (congrArg World.tables hworld)
  · refine ⟨fun id row row' hrow hrow' => ?_, fun id hchanged => ?_⟩
    · rw [hworld] at hrow'
      exact organization_resume h.unique running.task hrow hrow'
    · rw [hworld] at hchanged ⊢
      obtain ⟨userId, organizationId, hmanager, hheld, howner⟩ := managed_resume h.unique
        (h.justified running (mem_of_getElem? hrunning)) hchanged
      exact ⟨running, userId, organizationId, ⟨i, env, rfl, hrunning⟩, hmanager, hheld, howner⟩
  · exact same rfl
  · obtain ⟨origin, relay, -, -, rfl⟩ := World.receiveBody_eq_some hworld
    exact same rfl

end System

/-- **A registered node stays with its organization and is changed by its managers only.** In
every run, whatever requests interleave, no step gives a registered node another organization,
and its token and saved connections change for a user who was found, since the request began,
to hold the right to manage nodes. -/
theorem ownership_kept {platform : ControllerPlatform} {entitlements : List Entitlement}
    {s s' : System} {e : SystemEvent}
    (h : Reaches (System.step platform) always (System.init entitlements) s)
    (hs : s.step platform e = some s') : OwnershipKept s e s' := by
  have howned : s.Owned :=
    h.invariant (System.owned_init entitlements) fun _ _ _ hi _ hstep => hi.step hstep
  exact howned.kept hs

/-! ### Two runs -/

section Example

def exampleController : ControllerPlatform where
  toPlatform := examplePlatform
  sha256Base64Url s := s
  numberText _ := ""

/-- A request whose first `n` statements are executed while it is the one with number `i`. -/
def requestFor (task : Task) (i n : ℕ) : List SystemEvent :=
  .request task :: List.replicate n (.resume i at100)

/-- Alice's organization, where Bob is an administrator, with a node that Alice registered. -/
def labWithNode : List SystemEvent :=
  requestFor (.access (.createOrganization aliceId "lab")) 0 1 ++
    requestFor (.access (.createInvite aliceId labOrganization "bob@example.com" .admin)) 0 2 ++
    requestFor (.access (.acceptInvite ⟨bobId, "bob@example.com"⟩ zeroToken)) 0 4 ++
    requestFor (.registerNode aliceId labOrganization
      ⟨"node_lab", "lab", none, some "hash1", none⟩) 0 3

/-- Bob's registration of the node under another token, up to the batch. -/
def bobRotates : List SystemEvent :=
  requestFor (.registerNode bobId labOrganization ⟨"node_lab", "lab", none, some "hash2", none⟩) 0 2

/-- The first request in flight is the user's and changes the node's token. -/
def Rotates (userId : String) (s : System) : Prop :=
  s.inflight[0]?.bind (fun r => r.task.manager.map fun m => (m.1.text, m.2)) =
      some (userId, labOrganization) ∧
    (s.step exampleController (.resume 0 at100)).any (fun s' =>
      s'.world.tables.token "node_lab" ≠ s.world.tables.token "node_lab") = true

instance (userId : String) : DecidablePred (Rotates userId) :=
  fun _ => inferInstanceAs (Decidable (_ ∧ _))

theorem ownership_kept_rotation : ∃ s s', s.step exampleController (.resume 0 at100) = some s' ∧
      s'.world.tables.token "node_lab" ≠ s.world.tables.token "node_lab" ∧
      OwnershipKept s (.resume 0 at100) s' := by
  obtain ⟨s, hs, -, hrotates⟩ := exists_reaches_of_run (Q := Rotates bobId.text)
    (System.step exampleController) always (System.init []) (labWithNode ++ bobRotates)
    (by decide)
  obtain ⟨s', hstep, hchanged⟩ := (Option.any_eq_true ..).mp hrotates
  exact ⟨s, s', hstep, of_decide_eq_true hchanged, ownership_kept hs hstep⟩

/-- Bob is removed from the organization while his registration waits for its batch. The batch
changes the node's token, and then Bob has no membership. -/
theorem removed_member_rotates :
    ∃ s s', Reaches (System.step exampleController) always (System.init []) s ∧
      s.step exampleController (.resume 0 at100) = some s' ∧
      s'.world.tables.token "node_lab" ≠ s.world.tables.token "node_lab" ∧
      ∀ running, s.Executes (.resume 0 at100) running →
        ∃ userId organizationId, running.task.manager = some (userId, organizationId) ∧
          find Membership.key s.world.db.memberships (organizationId, userId.text) = none := by
  obtain ⟨s, hs, ⟨hmanager, hrotates⟩, hremoved⟩ := exists_reaches_of_run
    (Q := fun s => Rotates bobId.text s ∧
      find Membership.key s.world.db.memberships (labOrganization, bobId.text) = none)
    (System.step exampleController) always (System.init [])
    (labWithNode ++ bobRotates ++
      requestFor (.access (.removeMember aliceId labOrganization bobId.text)) 1 3)
    (by decide)
  obtain ⟨s', hstep, hchanged⟩ := (Option.any_eq_true ..).mp hrotates
  refine ⟨s, s', hs, hstep, of_decide_eq_true hchanged, ?_⟩
  rintro running ⟨i, env, he, hrunning⟩
  cases he
  rw [hrunning] at hmanager
  obtain ⟨⟨userId, organizationId⟩, hsome, hboth⟩ := Option.map_eq_some_iff.mp hmanager
  obtain ⟨huser, rfl⟩ : userId.text = bobId.text ∧ organizationId = labOrganization :=
    Prod.mk.inj hboth
  refine ⟨userId, labOrganization, hsome, ?_⟩
  rw [huser]
  exact hremoved

end Example

end AgentSight.Controller
