import AgentSight.Nebula.Replay

/-!
# The indices of the evolution graph

The map of the nodes is keyed by their paths, and each index has exactly the paths of the map, once
under each of their directories. Taking a node out and putting one in keep this, and every step of
a replay is made of these two and of changes that leave the paths alone.
-/

namespace AgentSight.Nebula

open List OrderedMap

namespace Files

variable {R : Type}

/-- The index has the paths of the nodes under the keys of each. -/
def ListsPaths (state : Files R) (index : OrderedMap String (List String))
    (under : String → String → Prop) : Prop :=
  GroupIndex.Lists index fun key path => path ∈ state.nodes.keys ∧ under key path

/-- Nodes stand under their paths, and the three indices list just their paths. -/
structure Indexed (state : Files R) : Prop where
  keyed : ∀ path node, state.nodes.get path = some node → node.path = path
  parents : state.ListsPaths state.parentIndex fun key path => key = parentDirectory path
  prefixes : state.ListsPaths state.prefixIndex fun key path => key ∈ prefixKeys path
  tops : state.ListsPaths state.topIndex fun key path => key = rootArea path

theorem indexed_empty : Indexed (empty : Files R) where
  keyed path node h := by
    cases h
  parents := GroupIndex.lists_empty.congr fun _ _ => by simp [empty]
  prefixes := GroupIndex.lists_empty.congr fun _ _ => by simp [empty]
  tops := GroupIndex.lists_empty.congr fun _ _ => by simp [empty]

variable {state state' : Files R} {index : OrderedMap String (List String)}
  {under : String → String → Prop} {path : String} {node : Node R}

/-! ### Taking out and putting in -/

theorem ListsPaths.take (h : state.ListsPaths index under) (keys : List String)
    (hkeys : ∀ key, key ∈ keys ↔ under key node.path) :
    (state.take node).ListsPaths
      (keys.foldl (fun index key => removeIndex index key node.path) index) under := by
  refine (GroupIndex.Lists.removeAll h keys node.path).congr fun key path => ?_
  change _ ↔ path ∈ (state.nodes.delete node.path).keys ∧ _
  rw [mem_keys_delete, hkeys]
  constructor
  · rintro ⟨⟨hpath, hunder⟩, hne⟩
    exact ⟨⟨hpath, fun heq => hne ⟨heq ▸ hunder, heq⟩⟩, hunder⟩
  · rintro ⟨⟨hpath, hne⟩, hunder⟩
    exact ⟨⟨hpath, hunder⟩, fun h => hne h.2⟩

theorem ListsPaths.put (h : state.ListsPaths index under) (keys : List String)
    (hkeys : ∀ key, key ∈ keys ↔ under key node.path) :
    (state.put node).ListsPaths
      (keys.foldl (fun index key => addIndex index key node.path) index) under := by
  refine (GroupIndex.Lists.addAll h keys node.path).congr fun key path => ?_
  change _ ↔ path ∈ (state.nodes.set node.path node).keys ∧ _
  rw [mem_keys_set, hkeys]
  constructor
  · rintro (⟨hpath, hunder⟩ | ⟨hunder, rfl⟩)
    · exact ⟨.inr hpath, hunder⟩
    · exact ⟨.inl rfl, hunder⟩
  · rintro ⟨rfl | hpath, hunder⟩
    · exact .inr ⟨hunder, rfl⟩
    · exact .inl ⟨hpath, hunder⟩

section

variable (h : state.Indexed)
include h

theorem Indexed.take (node : Node R) : (state.take node).Indexed where
  keyed path node' hget := by
    change (state.nodes.delete node.path).get path = _ at hget
    rw [get_delete] at hget
    split at hget
    · cases hget
    · exact h.keyed path node' hget
  parents := h.parents.take [parentDirectory node.path] fun key => mem_singleton
  prefixes := h.prefixes.take (prefixKeys node.path) fun key => Iff.rfl
  tops := h.tops.take [rootArea node.path] fun key => mem_singleton

theorem Indexed.put (node : Node R) : (state.put node).Indexed where
  keyed path node' hget := by
    change (state.nodes.set node.path node).get path = _ at hget
    rw [get_set] at hget
    split at hget
    · next hpath => rw [hpath, Option.some.inj hget]
    · exact h.keyed path node' hget
  parents := h.parents.put [parentDirectory node.path] fun key => mem_singleton
  prefixes := h.prefixes.put (prefixKeys node.path) fun key => Iff.rfl
  tops := h.tops.put [rootArea node.path] fun key => mem_singleton

/-- The nodes are changed in place, their paths are not. -/
theorem Indexed.map {f : String → Node R → Node R}
    (hf : ∀ path node, (f path node).path = node.path) :
    Indexed { state with nodes := state.nodes.map f } where
  keyed path node hget := by
    rw [get_map, Option.map_eq_some_iff] at hget
    obtain ⟨node', hnode', rfl⟩ := hget
    rw [hf, h.keyed path node' hnode']
  parents := h.parents.congr fun key path => by rw [keys_map]
  prefixes := h.prefixes.congr fun key path => by rw [keys_map]
  tops := h.tops.congr fun key path => by rw [keys_map]

theorem Indexed.modifyNode (path : String) {f : Node R → Node R}
    (hf : ∀ node, (f node).path = node.path) : (state.modifyNode path f).Indexed := by
  refine h.map fun path' node => ?_
  split
  · exact hf node
  · rfl

/-- A loop over nodes whose turns all keep the indices. -/
theorem Indexed.foldl {α : Type} {f : Files R → α → Files R} (as : List α)
    (hf : ∀ state a, Indexed state → (f state a).Indexed) : (as.foldl f state).Indexed := by
  induction as generalizing state with
  | nil => exact h
  | cons a as ih => exact ih (hf state a h)

end

/-! ### Actions -/

section Actions

variable [Field R] [LinearOrder R] [MathFunctions R] {setting : Setting R} {action : Action R}
  {step : ℕ}

omit [LinearOrder R] in
@[simp] theorem touched_path (setting : Setting R) (action : Action R) (step : ℕ) (node : Node R) :
    (touched setting action step node).path = node.path := by
  rw [touched]
  split <;> split_ifs <;> rfl

/-- The node that `createNode` returns is under its path, and the path is the one asked for. -/
theorem createNode_get (keyed : ∀ path node, state.nodes.get path = some node → node.path = path)
    {lifecycle : Option AccessType} :
    (state.createNode setting path action step lifecycle).2.path = path := by
  rw [createNode]
  split
  · next existing hget => exact keyed path existing hget
  · rfl

theorem Indexed.createNode (h : state.Indexed) (setting : Setting R) (path : String)
    (action : Action R) (step : ℕ) (lifecycle : Option AccessType) :
    (state.createNode setting path action step lifecycle).1.Indexed := by
  rw [Files.createNode]
  split
  · exact h
  · exact h.put _

omit [Field R] [LinearOrder R] [MathFunctions R] in
/-- Taking the members out of the indices and then out of the map is taking out one after the
other. -/
theorem foldl_take (members : List (Node R)) (state : Files R) :
    members.foldl (fun state node => { state with nodes := state.nodes.delete node.path })
        (members.foldl unindexNode state) = members.foldl Files.take state := by
  have hlate (node : Node R) (rest : List (Node R)) state : { rest.foldl unindexNode state with
        nodes := (rest.foldl unindexNode state).nodes.delete node.path } =
        rest.foldl unindexNode { state with nodes := state.nodes.delete node.path } := by
    induction rest generalizing state with
    | nil => rfl
    | cons other rest ih => exact ih (state.unindexNode other)
  induction members generalizing state with
  | nil => rfl
  | cons node rest ih =>
    rw [foldl_cons, foldl_cons, hlate, ih]
    rfl

section

variable (h : state.Indexed)
include h

section

variable (setting : Setting R)

section

variable (action : Action R)

theorem Indexed.moveMember
    (oldPath : String) (step : ℕ) (moved : List String) (node : Node R) :
    (moveMember setting action oldPath step (state, moved) node).1.Indexed := by
  rw [Files.moveMember]
  split
  · split_ifs
    · exact h.put _
    · exact (h.take _).put _
  · exact h.put _

theorem Indexed.applyScopeAction
    (step : ℕ) : (state.applyScopeAction setting action step).1.Indexed := by
  rw [Files.applyScopeAction]
  split
  · next oldPath _ =>
    dsimp only
    rw [foldl_take]
    have htaken := h.foldl (scopeMembers oldPath state) fun _ node hs => hs.take node
    -- The turns carry the paths that were set.
    generalize (scopeMembers oldPath state).foldl Files.take state = taken at htaken
    generalize ([] : List String) = moved
    induction scopeMembers oldPath state generalizing taken moved with
    | nil => exact htaken
    | cons node rest ih =>
      exact ih _ (htaken.moveMember setting action oldPath step moved node) _
  · split
    · exact h.foldl _ fun _ node hs => hs.modifyNode node.path fun _ => rfl
    · exact h.foldl _ fun _ node hs => hs.modifyNode node.path fun _ => rfl

theorem Indexed.applyRename
    (step : ℕ) : (state.applyRename setting action step).Indexed := by
  rw [Files.applyRename]
  split
  next state' node' heq =>
    refine Indexed.modifyNode ?_ _ fun _ => rfl
    split at heq
    · next node _ =>
      cases heq
      refine Indexed.put (Indexed.take ?_ node) _
      split
      · split_ifs
        · exact h.take _
        · exact h
      · exact h
    · have hcreated := h.createNode setting action.path action step (some .rename)
      rwa [heq] at hcreated

/-- Every action keeps the indices. -/
theorem Indexed.applyAction
    (step : ℕ) : (state.applyAction setting action step).1.Indexed := by
  rw [Files.applyAction]
  split_ifs
  · exact h.applyScopeAction setting action step
  · exact h.applyRename setting action step
  · exact (h.createNode ..).modifyNode _ (touched_path setting action step)
  · exact (h.createNode ..).modifyNode _ (touched_path setting action step)

end

theorem Indexed.applyActions (actions : List (Action R))
    (step : ℕ) : (state.applyActions setting actions step).1.Indexed := by
  rw [Files.applyActions]
  generalize 0 = count
  induction actions generalizing state count with
  | nil => exact h
  | cons action actions ih => exact ih (h.applyAction setting action step) _

end

end

omit [Field R] [LinearOrder R] [MathFunctions R] in
theorem Indexed.pruneDeleted (h : state.Indexed) (step : ℕ) :
    (state.pruneDeleted step).Indexed := by
  refine h.foldl _ fun state node hs => ?_
  split
  · exact hs
  · split_ifs
    · exact hs
    · exact hs.take node

end Actions

/-! ### Steps -/

/-- The same files, drawn anew. -/
def Redrawn (state state' : Files R) : Prop :=
  ∃ f : String → Node R → Node R,
    (∀ path node, (f path node).path = node.path ∧ (f path node).deleteStep = node.deleteStep) ∧
    state' = { state with nodes := state.nodes.map f }

theorem Redrawn.refl (state : Files R) : Redrawn state state :=
  ⟨fun _ node => node, fun _ _ => ⟨rfl, rfl⟩, by rw [OrderedMap.map_id]⟩

theorem Redrawn.trans {state'' : Files R} (h : Redrawn state state') (h' : Redrawn state' state'') :
    Redrawn state state'' := by
  obtain ⟨f, hf, rfl⟩ := h
  obtain ⟨g, hg, rfl⟩ := h'
  refine ⟨fun path node => g path (f path node), fun path node => ?_, ?_⟩
  · exact ⟨(hg path _).1.trans (hf path node).1, (hg path _).2.trans (hf path node).2⟩
  · rw [OrderedMap.map_map]

theorem Redrawn.map (state : Files R) {f : Node R → Node R}
    (hf : ∀ node, (f node).path = node.path ∧ (f node).deleteStep = node.deleteStep) :
    Redrawn state { state with nodes := state.nodes.map fun _ node => f node } :=
  ⟨fun _ node => f node, fun _ node => hf node, rfl⟩

theorem Redrawn.indexed (h : Redrawn state state') (hindexed : state.Indexed) : state'.Indexed := by
  obtain ⟨f, hf, rfl⟩ := h
  exact hindexed.map fun path node => (hf path node).1

end Files

section Steps

variable {R : Type} [Field R] [LinearOrder R] [MathFunctions R] {model : Model R}
  {layout : Layout R} {state : State R} {step : ℕ} {event : Event R}

open Files

theorem redrawn_refresh (halfLife : ℕ) (files : Files R) (step : ℕ) :
    Redrawn files (refreshImportanceAndDirectories halfLife files step).1 := by
  have hdecayed := Redrawn.map files (f := decayedNode halfLife step) fun _ => ⟨rfl, rfl⟩
  refine hdecayed.trans ?_
  refine (Redrawn.map _ (f := rankedNode _) fun _ => ⟨rfl, rfl⟩).trans
    (Redrawn.map _ fun node => ?_)
  rw [sizedNode]
  split <;> exact ⟨rfl, rfl⟩

omit [MathFunctions R] in
theorem redrawn_placedNode (place : String → Placement R) (node : Node R) :
    (placedNode place node).path = node.path ∧
      (placedNode place node).deleteStep = node.deleteStep := by
  simp only [placedNode, keepInside]
  split_ifs <;> exact ⟨rfl, rfl⟩

theorem redrawn_runForces (model : Model R) (layout : Layout R) (state : State R)
    (actions : List (Action R)) (step : ℕ) :
    Redrawn state.files (runForces model layout state actions step).files := by
  rw [runForces]
  split_ifs
  · exact .refl _
  · refine (redrawn_refresh model.importanceHalfLife state.files step).trans ?_
    dsimp only
    split_ifs
    · exact Redrawn.map _ fun _ => ⟨rfl, rfl⟩
    · exact Redrawn.map _ (redrawn_placedNode _)

omit [Field R] [LinearOrder R] [MathFunctions R] in
theorem redrawn_enterSession (state : State R) (event : Event R) :
    Redrawn state.files (enterSession state event).files := by
  rw [enterSession]
  split_ifs
  · exact .refl _
  · exact Redrawn.map _ fun _ => ⟨rfl, rfl⟩

omit [MathFunctions R] in
theorem files_recordDirectoryTransition (event : Event R) (state : State R) :
    (recordDirectoryTransition event state).files = state.files := by
  rw [recordDirectoryTransition]
  split_ifs <;> rfl

theorem files_updateFocus (state : State R) (event : Event R) :
    (updateFocus state event).files = state.files := by
  rw [updateFocus]
  split_ifs <;> rfl

/-- The nodes that the actions of a step meet. -/
def metFiles (state : State R) (step : ℕ) (event : Event R) : Files R :=
  (enterSession state event).files.pruneDeleted step

theorem files_playActions (model : Model R) (state : State R) (step : ℕ) (event : Event R) :
    (playActions model state step event).files =
      ((metFiles state step event).applyActions model.toSetting event.actions step).1 := by
  rw [playActions]
  rw [files_recordDirectoryTransition]
  rfl

/-- What comes after the actions draws the files anew. -/
theorem redrawn_playStep (model : Model R) (layout : Layout R) (state : State R) (step : ℕ)
    (event : Event R) :
    Redrawn ((metFiles state step event).applyActions model.toSetting event.actions step).1
      (playStep model layout state step event).files := by
  rw [← files_playActions, playStep]
  rw [files_updateFocus]
  split_ifs
  · exact redrawn_runForces ..
  · exact .refl _

/-- So does every step of the replay. -/
theorem indexed_playStep (h : state.files.Indexed) :
    (playStep model layout state step event).files.Indexed :=
  (redrawn_playStep model layout state step event).indexed
    ((((redrawn_enterSession state event).indexed h).pruneDeleted step).applyActions
      model.toSetting event.actions step)

end Steps

end AgentSight.Nebula
