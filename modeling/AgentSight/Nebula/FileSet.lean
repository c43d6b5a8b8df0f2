import AgentSight.Nebula.Indices

/-!
# The files that are alive

What the replay is for, with places in place of nodes: a set of files, to which each action adds a
file, from which it removes one or what is below a directory, or in which it moves them. The nodes
that are not marked deleted are these files, unless a rename meets a file whose deletion is still
fading: `createNode` returns the fading node as it is, and a directory that is renamed takes the
fading nodes below it along as living ones.
-/

namespace AgentSight.Nebula

open FileTree List

variable {R : Type}

/-! ### The set of files -/

/-- What an action does to the set of files. -/
def fileAction (action : Action R) (files : Set (List String)) : Set (List String) :=
  let path := namesOf action.path
  match action.isScope, action.type, action.oldPath with
  | false, .rename, some oldPath => move (namesOf oldPath) path files
  | false, .delete, _ => files \ {path}
  | false, _, _ => insert path files
  | true, .rename, some oldPath => rebase (namesOf oldPath) path files
  | true, .delete, _ => removeBelow path files
  | true, _, _ => files

/-- The files after the events. -/
def filesAfter (events : List (Event R)) : Set (List String) :=
  events.foldl (fun files event => event.actions.foldl (fun files action => fileAction action files)
    files) ∅

theorem filesAfter_concat (events : List (Event R)) (event : Event R) :
    filesAfter (events ++ [event]) =
      event.actions.foldl (fun files action => fileAction action files) (filesAfter events) := by
  rw [filesAfter, foldl_append]
  rfl

/-- The paths are normalized, and that of a file is not the root. -/
structure Action.IsNormalized (action : Action R) : Prop where
  path : Normalized action.path
  oldPath : ∀ oldPath ∈ action.oldPath, Normalized oldPath
  file : action.isScope = false → action.path ≠ "." ∧ action.oldPath ≠ some "."

namespace Files

/-- The paths of the nodes that are not marked deleted. -/
def live (files : Files R) : Set String :=
  {path | ∃ node, files.nodes.get path = some node ∧ node.deleteStep = none}

/-- A rename meets no fading file: a new file has no fading one at its path, and a directory has
none below it, unless what it becomes is there already and stays. Nor does a directory with files
become the root. -/
def SparesFading (files : Files R) (action : Action R) : Prop :=
  match action.isScope, renamedFrom action with
  | false, oldPath =>
    action.type = .rename → oldPath.bind files.nodes.get = none →
      ∀ node, files.nodes.get action.path = some node → node.deleteStep = none
  | true, none => True
  | true, some oldPath =>
    ∀ node ∈ scopeMembers oldPath files, action.path ≠ "." ∧
      (node.deleteStep ≠ none → ∃ other, other.deleteStep = none ∧
        files.nodes.get (nextPath oldPath action.path node.path) = some other ∧
        ∀ member ∈ scopeMembers oldPath files, member.path ≠ other.path)

theorem sparesFading_of_ne_rename {action : Action R} (h : action.type ≠ .rename)
    (files : Files R) : files.SparesFading action := by
  rw [SparesFading, renamedFrom, if_neg h]
  split
  · exact fun hrename => absurd hrename h
  · trivial
  · next heq => cases heq

/-! ### What is marked deleted -/

/-- The step that the node at the path was deleted at, if there is a node and if it was. -/
def mark (files : Files R) (path : String) : Option (Option ℕ) :=
  (files.nodes.get path).map Node.deleteStep

variable {files files' : Files R} {path : String} {node : Node R} {action : Action R} {step : ℕ}

theorem mem_live : path ∈ files.live ↔ files.mark path = some none := by
  rw [mark, Option.map_eq_some_iff]
  rfl

theorem live_eq (h : ∀ path, files'.mark path = files.mark path) : files'.live = files.live :=
  Set.ext fun path => by rw [mem_live, mem_live, h]

theorem mark_eq_none : files.mark path = none ↔ files.nodes.get path = none :=
  Option.map_eq_none_iff

section

variable (files : Files R)

theorem mark_take (node : Node R) (path : String) :
    (files.take node).mark path = if path = node.path then none else files.mark path := by
  rw [mark, take]
  rw [OrderedMap.get_delete]
  split_ifs
  · rfl
  · rfl

theorem mark_put (node : Node R) (path : String) : (files.put node).mark path =
      if path = node.path then some node.deleteStep else files.mark path := by
  rw [mark, put, indexNode]
  rw [OrderedMap.get_set]
  split_ifs
  · rfl
  · rfl

theorem mark_modifyNode (at' : String) (f : Node R → Node R) (path : String) :
    (files.modifyNode at' f).mark path =
      if path = at' then (files.nodes.get path).map fun node => (f node).deleteStep
      else files.mark path := by
  rw [mark, modifyNode]
  rw [OrderedMap.get_modify]
  split_ifs
  · rw [Option.map_map]
    rfl
  · rfl

theorem mark_modifyNode_of_keeps (at' : String) {f : Node R → Node R}
    (hf : ∀ node, (f node).deleteStep = node.deleteStep) (path : String) :
    (files.modifyNode at' f).mark path = files.mark path := by
  rw [mark_modifyNode]
  split_ifs
  · exact congrArg (Option.map · _) (funext hf)
  · rfl

end

theorem Redrawn.mark_eq (h : Redrawn files files') (path : String) :
    files'.mark path = files.mark path := by
  obtain ⟨f, hf, rfl⟩ := h
  rw [mark, OrderedMap.get_map, Option.map_map]
  exact congrArg (Option.map · _) (funext fun node => (hf path node).2)

/-- All members are taken out of the map. -/
theorem mark_foldl_take (members : List (Node R)) (files : Files R) (path : String) :
    (members.foldl Files.take files).mark path =
      if path ∈ members.map Node.path then none else files.mark path := by
  induction members generalizing files with
  | nil => rfl
  | cons node members ih =>
    rw [foldl_cons, ih, mark_take, map_cons]
    simp only [mem_cons]
    split_ifs <;> first | rfl | tauto

section Actions

variable [Field R] [LinearOrder R] [MathFunctions R] {setting : Setting R}

theorem mark_createNode (files : Files R) (setting : Setting R) (created : String)
    (action : Action R) (step : ℕ) (lifecycle : Option AccessType) (path : String) :
    (files.createNode setting created action step lifecycle).1.mark path =
      if path = created ∧ files.mark created = none then some none else files.mark path := by
  rw [createNode]
  split
  · next existing hget =>
    rw [if_neg]
    rintro ⟨-, hnone⟩
    rw [mark_eq_none, hget] at hnone
    cases hnone
  · next hget =>
    have hnone : files.mark created = none := mark_eq_none.mpr hget
    refine (mark_put ..).trans ?_
    simp [hnone, and_true]

omit [LinearOrder R] in
theorem touched_deleteStep (setting : Setting R) (action : Action R) (step : ℕ) (node : Node R)
    (hrename : action.type ≠ .rename) :
    (touched setting action step node).deleteStep =
      if action.type = .delete then some step else none := by
  rw [touched]
  cases htype : action.type with
  | rename => exact absurd htype hrename
  | delete => rfl
  | create | «open» | read | write =>
    by_cases hdeleted : node.deleteStep = none
    · simp [hdeleted, recordImportance]
    · simp [hdeleted, recordImportance]

section

variable (keyed : ∀ path node, files.nodes.get path = some node → node.path = path)
include keyed

/-- Whether there was a node or not, there is one afterwards. -/
theorem mark_touch
    (setting : Setting R) (action : Action R) (step : ℕ) (lifecycle : Option AccessType)
    (hrename : action.type ≠ .rename) (path : String) :
    ((files.createNode setting action.path action step lifecycle).1.modifyNode
      (files.createNode setting action.path action step lifecycle).2.path
        (touched setting action step)).mark path =
      if path = action.path then some (if action.type = .delete then some step else none)
      else files.mark path := by
  rw [createNode_get keyed, mark_modifyNode]
  by_cases hpath : path = action.path
  · have hmark :
        (files.createNode setting action.path action step lifecycle).1.mark path ≠ none := by
      rw [mark_createNode, hpath]
      split_ifs with h
      · exact Option.some_ne_none _
      · exact fun hnone => h ⟨rfl, hnone⟩
    obtain ⟨node, hnode⟩ := Option.ne_none_iff_exists'.mp fun hget => hmark (mark_eq_none.mpr hget)
    rw [if_pos hpath, if_pos hpath, hnode, Option.map_some, touched_deleteStep _ _ _ _ hrename]
  · rw [if_neg hpath, if_neg hpath, mark_createNode, if_neg fun h => hpath h.1]

/-- The node is at the new path alone. -/
theorem mark_applyRename_some
    (setting : Setting R) (step : ℕ) (hold : (renamedFrom action).bind files.nodes.get = some node)
    (path : String) :
    (files.applyRename setting action step).mark path =
      if path = action.path then some none
      else if path = node.path then none
      else files.mark path := by
  rw [applyRename, hold]
  rw [mark_modifyNode_of_keeps, mark_put, mark_take]
  · by_cases hnew : path = action.path
    · rw [if_pos hnew, if_pos hnew]
    · rw [if_neg hnew, if_neg hnew]
      by_cases hnode : path = node.path
      · rw [if_pos hnode, if_pos hnode]
      · rw [if_neg hnode, if_neg hnode]
        split
        · next replaced hget =>
          split_ifs
          · rw [mark_take, keyed _ _ hget, if_neg hnew]
          · rfl
        · rfl
  · exact fun _ => rfl

end

theorem mark_applyRename_none (setting : Setting R) (step : ℕ)
    (hold : (renamedFrom action).bind files.nodes.get = none) (path : String) :
    (files.applyRename setting action step).mark path =
      if path = action.path ∧ files.mark action.path = none then some none
      else files.mark path := by
  rw [applyRename, hold]
  rw [mark_modifyNode_of_keeps, mark_createNode]
  exact fun _ => rfl

/-! ### What an action on a directory marks -/

/-- A moved member is live at its next path; no other path changes. -/
theorem mark_moveMember (h : files.Indexed) (setting : Setting R) (action : Action R)
    (oldPath : String) (step : ℕ) (moved : List String) (node : Node R) (path : String) :
    (moveMember setting action oldPath step (files, moved) node).1.mark path =
      if path = nextPath oldPath action.path node.path then some none else files.mark path := by
  rw [moveMember]
  rw [mark_put]
  have hpath : (renamedNode setting action oldPath step node).path =
      nextPath oldPath action.path node.path := rfl
  rw [hpath]
  by_cases hnew : path = nextPath oldPath action.path node.path
  · rw [if_pos hnew, if_pos hnew]
    rfl
  · rw [if_neg hnew, if_neg hnew]
    split
    · next replaced hget =>
      split_ifs
      · rfl
      · rw [mark_take, h.keyed _ _ hget, if_neg hnew]
    · rfl

/-- All members are put back under their new paths. -/
theorem mark_foldl_moveMember (h : files.Indexed) (setting : Setting R) (action : Action R)
    (oldPath : String) (step : ℕ) (members : List (Node R)) (moved : List String) (path : String) :
    (members.foldl (moveMember setting action oldPath step) (files, moved)).1.mark path =
      if path ∈ members.map fun node => nextPath oldPath action.path node.path then some none
      else files.mark path := by
  induction members generalizing files moved with
  | nil => rfl
  | cons node members ih =>
    refine (ih (h.moveMember setting action oldPath step moved node) _).trans ?_
    rw [mark_moveMember h, map_cons]
    simp only [mem_cons]
    split_ifs <;> first | rfl | tauto

theorem mark_applyScopeAction_some (h : files.Indexed) (setting : Setting R) (step : ℕ)
    {oldPath : String} (hold : renamedFrom action = some oldPath) (path : String) :
    (files.applyScopeAction setting action step).1.mark path =
      if path ∈ (scopeMembers oldPath files).map fun node =>
          nextPath oldPath action.path node.path then some none
      else if path ∈ (scopeMembers oldPath files).map Node.path then none
      else files.mark path := by
  rw [applyScopeAction, hold]
  dsimp only
  rw [foldl_take, mark_foldl_moveMember (h.foldl _ fun _ node hs => hs.take node), mark_foldl_take]

theorem mark_applyScopeAction_delete (setting : Setting R) (step : ℕ)
    (htype : action.type = .delete) (path : String) :
    (files.applyScopeAction setting action step).1.mark path =
      if path ∈ (scopeMembers action.path files).map Node.path then
        (files.mark path).map fun _ => some step
      else files.mark path := by
  have hold : renamedFrom action = none := by
    rw [renamedFrom, htype]
    rfl
  rw [applyScopeAction, hold]
  rw [if_pos htype]
  induction scopeMembers action.path files generalizing files with
  | nil => rfl
  | cons node members ih =>
    rw [foldl_cons, ih, mark_modifyNode, map_cons]
    have hdeleted : ((files.nodes.get path).map fun node =>
          (deletedMember setting action step node).deleteStep) =
            (files.mark path).map fun _ => some step := by
      rw [mark, Option.map_map]
      rfl
    rw [hdeleted]
    simp only [mem_cons]
    by_cases hpath : path = node.path
    · simp only [hpath, true_or, if_true, Option.map_map, Function.comp_def, ite_self]
    · simp only [hpath, false_or, if_false]

theorem mark_applyScopeAction_none (setting : Setting R) (step : ℕ)
    (hold : renamedFrom action = none) (htype : action.type ≠ .delete) (path : String) :
    (files.applyScopeAction setting action step).1.mark path = files.mark path := by
  rw [applyScopeAction, hold]
  dsimp only
  rw [if_neg htype]
  generalize ((scopeMembers action.path files).map attention).sum = total
  induction scopeMembers action.path files generalizing files with
  | nil => rfl
  | cons node members ih =>
    rw [foldl_cons, ih, mark_modifyNode_of_keeps]
    exact fun _ => rfl

end Actions

/-! ### Members of a directory -/

/-- Every node is at the normalized path of a file. -/
def Filed (files : Files R) : Prop :=
  ∀ path, files.mark path ≠ none → ∃ names, AreNames names ∧ names ≠ [] ∧ path = pathOf names

variable {dir names : List String}

theorem mem_scopeMembers (h : files.Indexed) (hfiled : files.Filed)
    (hdir : AreNames dir) : node ∈ scopeMembers (pathOf dir) files ↔
      files.nodes.get node.path = some node ∧ Below dir (namesOf node.path) := by
  have hnames (hget : files.nodes.get node.path = some node) :
      ∃ names, AreNames names ∧ names ≠ [] ∧ node.path = pathOf names :=
    hfiled node.path (by rw [mark, hget]; exact Option.some_ne_none _)
  rw [scopeMembers, stripSlashes_pathOf hdir]
  by_cases hroot : dir = []
  · subst hroot
    rw [if_pos (.inr rfl), OrderedMap.mem_values]
    constructor
    · rintro ⟨path, hget⟩
      obtain rfl := h.keyed path node hget
      obtain ⟨names, hnames, hne, hpath⟩ := hnames hget
      exact ⟨hget, names, hne, by rw [hpath, namesOf_pathOf hnames, nil_append]⟩
    · rintro ⟨hget, -⟩
      exact ⟨node.path, hget⟩
  · have hkeys {names : List String} (hnames : AreNames names) (hne : names ≠ []) :
        pathOf dir ∈ prefixKeys (pathOf names) ↔ Below dir names := by
      rw [pathOf, if_neg hne, pathOf, if_neg hroot, mem_prefixKeys hdir hroot hnames.areParts]
    rw [if_neg (not_or.mpr ⟨pathOf_ne_empty hdir, pathOf_ne_dot hdir hroot⟩), mem_filterMap]
    simp only [h.prefixes.mem_rows]
    constructor
    · rintro ⟨path, ⟨-, hkey⟩, hget⟩
      obtain rfl := h.keyed path node hget
      obtain ⟨names, hnames, hne, hpath⟩ := hnames hget
      refine ⟨hget, ?_⟩
      rw [hpath] at hkey ⊢
      rw [namesOf_pathOf hnames]
      exact (hkeys hnames hne).mp hkey
    · rintro ⟨hget, hbelow⟩
      obtain ⟨names, hnames, hne, hpath⟩ := hnames hget
      refine ⟨node.path, ⟨OrderedMap.mem_keys.mpr ⟨node, hget⟩, ?_⟩, hget⟩
      rw [hpath] at hbelow ⊢
      rw [namesOf_pathOf hnames] at hbelow
      exact (hkeys hnames hne).mpr hbelow

/-- The paths of the members of a directory. -/
theorem mem_memberPaths (h : files.Indexed) (hfiled : files.Filed)
    (hdir : AreNames dir) (hnames : AreNames names) :
    pathOf names ∈ (scopeMembers (pathOf dir) files).map Node.path ↔
      files.mark (pathOf names) ≠ none ∧ Below dir names := by
  rw [mem_map]
  constructor
  · rintro ⟨node, hmem, hpath⟩
    obtain ⟨hget, hbelow⟩ := (mem_scopeMembers h hfiled hdir).mp hmem
    rw [hpath] at hget hbelow
    rw [namesOf_pathOf hnames] at hbelow
    refine ⟨?_, hbelow⟩
    rw [mark, hget]
    exact Option.some_ne_none _
  · rintro ⟨hmark, hbelow⟩
    obtain ⟨node, hget⟩ := Option.ne_none_iff_exists'.mp fun hget => hmark (mark_eq_none.mpr hget)
    have hpath := h.keyed _ _ hget
    refine ⟨node, (mem_scopeMembers h hfiled hdir).mpr ⟨hpath ▸ hget, ?_⟩, hpath⟩
    rwa [hpath, namesOf_pathOf hnames]

/-- A member of a directory is at a place below it. -/
theorem exists_rest_of_mem_scopeMembers (h : files.Indexed) (hfiled : files.Filed)
    (hdir : AreNames dir) (hmem : node ∈ scopeMembers (pathOf dir) files) :
    ∃ rest, rest ≠ [] ∧ AreNames rest ∧ node.path = pathOf (dir ++ rest) := by
  obtain ⟨hget, rest, hne, hrest⟩ := (mem_scopeMembers h hfiled hdir).mp hmem
  obtain ⟨names, hnames, -, hpath⟩ := hfiled node.path (by
    rw [mark, hget]
    exact Option.some_ne_none _)
  rw [hpath, namesOf_pathOf hnames] at hrest
  subst hrest
  exact ⟨rest, hne, fun name hname => hnames name (mem_append_right dir hname), hpath⟩

/-! ### One action -/

theorem not_normalized_empty : ¬Normalized "" := by decide

theorem renamedFrom_eq (h : action.IsNormalized) :
    renamedFrom action = if action.type = .rename then action.oldPath else none := by
  rw [renamedFrom]
  split_ifs
  · cases hold : action.oldPath with
    | none => rfl
    | some oldPath =>
      refine Option.filter_some_pos (decide_eq_true ?_)
      rintro rfl
      exact not_normalized_empty (h.oldPath _ hold)
  · rfl

/-- The files are those of the set, which are files. -/
structure Shows (files : Files R) (paths : Set (List String)) : Prop where
  named : Named IsName paths
  live : files.live = pathOf '' paths

variable {paths : Set (List String)}

theorem Shows.mem_live (h : files.Shows paths) (hnames : AreNames names) :
    pathOf names ∈ files.live ↔ names ∈ paths := by
  rw [h.live]
  constructor
  · rintro ⟨other, hother, hpath⟩
    exact pathOf_inj (h.named other hother).2 hnames hpath ▸ hother
  · exact fun hmem => ⟨names, hmem, rfl⟩

/-- The names of a live path. -/
theorem Shows.exists_names (h : files.Shows paths) (hpath : path ∈ files.live) :
    ∃ names ∈ paths, AreNames names ∧ pathOf names = path := by
  rw [h.live] at hpath
  obtain ⟨names, hnames, rfl⟩ := hpath
  exact ⟨names, hnames, (h.named names hnames).2, rfl⟩

/-- Two sets of files are the same if they have the same paths of files. -/
theorem image_eq_iff {paths' : Set (List String)} {live : Set String}
    (hlive : ∀ path ∈ live, ∃ names, AreNames names ∧ path = pathOf names)
    (hnamed : Named IsName paths') :
    live = pathOf '' paths' ↔ ∀ names, AreNames names → (pathOf names ∈ live ↔ names ∈ paths') := by
  constructor
  · rintro rfl names hnames
    constructor
    · rintro ⟨other, hother, hpath⟩
      exact pathOf_inj (hnamed other hother).2 hnames hpath ▸ hother
    · exact fun hmem => ⟨names, hmem, rfl⟩
  · intro h
    ext path
    constructor
    · intro hpath
      obtain ⟨names, hnames, rfl⟩ := hlive path hpath
      exact ⟨names, (h names hnames).mp hpath, rfl⟩
    · rintro ⟨names, hmem, rfl⟩
      exact (h names (hnamed names hmem).2).mpr hmem

/-- The path of an action on a file is that of a file. -/
theorem namesOf_ne_nil (h : action.IsNormalized) (hfile : action.isScope = false) :
    namesOf action.path ≠ [] := by
  intro hnil
  obtain ⟨-, hpath⟩ := h.path.exists_names
  rw [hnil] at hpath
  exact (h.file hfile).1 hpath.symm

theorem pathOf_eq_iff (h : action.IsNormalized) (hnames : AreNames names) :
    pathOf names = action.path ↔ names = namesOf action.path := by
  obtain ⟨hpathNames, hpath⟩ := h.path.exists_names
  constructor
  · intro heq
    exact pathOf_inj hnames hpathNames (heq.trans hpath.symm)
  · rintro rfl
    exact hpath

theorem named_fileAction (hnormal : action.IsNormalized) (hshows : files.Shows paths) :
    Named IsName (fileAction action paths) := by
  obtain ⟨hpathNames, -⟩ := hnormal.path.exists_names
  have hfile hfile := namesOf_ne_nil hnormal hfile
  rw [fileAction]
  split
  · next hscope _ _ => exact hshows.named.move (hfile hscope) hpathNames
  · exact hshows.named.mono Set.sdiff_subset
  · next hscope _ _ => exact hshows.named.insert (hfile hscope) hpathNames
  · exact hshows.named.rebase hpathNames
  · exact hshows.named.removeBelow _
  · exact hshows.named

section Actions

variable [Field R] [LinearOrder R] [MathFunctions R] {setting : Setting R}

/-- Anything but a rename makes the file as the action says. -/
theorem mark_applyAction_touch (h : files.Indexed) (setting : Setting R) (step : ℕ)
    (hfile : action.isScope = false) (hrename : action.type ≠ .rename) (path : String) :
    (files.applyAction setting action step).1.mark path =
      if path = action.path then some (if action.type = .delete then some step else none)
      else files.mark path := by
  rw [applyAction, hfile, if_neg hrename]
  exact mark_touch h.keyed setting action step _ hrename path

/-- A file action that renames nothing does to the live files what it says. -/
theorem live_applyAction_touch (h : files.Indexed) (hshows : files.Shows paths)
    (hnormal : action.IsNormalized) (hfile : action.isScope = false)
    (hrename : action.type ≠ .rename) :
    (files.applyAction setting action step).1.live = pathOf '' fileAction action paths := by
  have hmark := mark_applyAction_touch h setting step hfile hrename
  obtain ⟨hpathNames, hpath⟩ := hnormal.path.exists_names
  have haction : fileAction action paths =
      if action.type = .delete then paths \ {namesOf action.path}
      else insert (namesOf action.path) paths := by
    rw [fileAction, hfile]
    cases htype : action.type <;> first | rfl | exact absurd htype hrename
  refine (image_eq_iff ?_ (named_fileAction hnormal hshows)).mpr fun names hnames => ?_
  · intro other hother
    by_cases heq : other = action.path
    · exact ⟨_, hpathNames, heq.trans hpath.symm⟩
    · rw [mem_live, hmark, if_neg heq] at hother
      obtain ⟨names, -, hnames, rfl⟩ := hshows.exists_names (mem_live.mpr hother)
      exact ⟨names, hnames, rfl⟩
  · rw [mem_live, hmark, haction]
    have hiff := pathOf_eq_iff hnormal hnames
    by_cases heq : pathOf names = action.path
    · split_ifs
      · simp [hiff.mp heq]
      · simp [hiff.mp heq]
    · have hne : names ≠ namesOf action.path := fun hnames => heq (hiff.mpr hnames)
      rw [if_neg heq, ← mem_live, hshows.mem_live hnames]
      split_ifs
      · simp [hne]
      · simp [hne]

/-- A rename from a known path moves the node, whatever is at its new path. -/
theorem live_applyRename_some (h : files.Indexed) (hshows : files.Shows paths)
    (hnormal : action.IsNormalized) {oldPath : String} (hpath : action.oldPath = some oldPath)
    (hrename : action.type = .rename) (hold : files.nodes.get oldPath = some node) :
    (files.applyRename setting action step).live =
      pathOf '' move (namesOf oldPath) (namesOf action.path) paths := by
  have hfrom : renamedFrom action = some oldPath := by
    rw [renamedFrom_eq hnormal, if_pos hrename, hpath]
  have hknown : (renamedFrom action).bind files.nodes.get = some node := by
    rw [hfrom]
    exact hold
  have hmark := mark_applyRename_some h.keyed setting step hknown
  rw [h.keyed _ _ hold] at hmark
  obtain ⟨hpathNames, hpathOf⟩ := hnormal.path.exists_names
  obtain ⟨holdNames, holdOf⟩ := (hnormal.oldPath oldPath hpath).exists_names
  ext path
  rw [mem_live, hmark]
  constructor
  · intro hlive
    split_ifs at hlive with hnew hgone
    · exact ⟨_, Set.mem_insert _ _, hpathOf.trans hnew.symm⟩
    · obtain ⟨names, hmem, -, rfl⟩ := hshows.exists_names (mem_live.mpr hlive)
      refine ⟨names, .inr ⟨hmem, ?_⟩, rfl⟩
      rintro rfl
      exact hgone holdOf
  · rintro ⟨names, rfl | ⟨hmem, hne⟩, rfl⟩
    · rw [if_pos hpathOf]
    · have hnames := (hshows.named names hmem).2
      have hgone : pathOf names ≠ oldPath := fun heq =>
        hne (pathOf_inj hnames holdNames (heq.trans holdOf.symm))
      split_ifs
      · rfl
      · exact mem_live.mp ((hshows.mem_live hnames).mpr hmem)

/-- A rename from an unknown path adds the new one, but a fading file stays deleted. -/
theorem live_applyRename_none_iff (hshows : files.Shows paths) (hnormal : action.IsNormalized)
    (hfile : action.isScope = false) (hrename : action.type = .rename)
    (hold : (renamedFrom action).bind files.nodes.get = none) :
    (files.applyRename setting action step).live = pathOf '' fileAction action paths ↔
      ∀ node, files.nodes.get action.path = some node → node.deleteStep = none := by
  obtain ⟨hpathNames, hpathOf⟩ := hnormal.path.exists_names
  have hmark := mark_applyRename_none setting step hold
  have haction : pathOf '' fileAction action paths = insert action.path files.live := by
    have hinsert : fileAction action paths = insert (namesOf action.path) paths := by
      rw [fileAction, hfile, hrename]
      cases hpath : action.oldPath with
      | none => rfl
      | some oldPath =>
        rw [renamedFrom_eq hnormal, if_pos hrename, hpath, Option.bind_some] at hold
        obtain ⟨holdNames, holdOf⟩ := (hnormal.oldPath oldPath hpath).exists_names
        refine congrArg (insert _) (Set.sdiff_singleton_eq_self fun hmem => ?_)
        obtain ⟨node, hnode, -⟩ := holdOf ▸ (hshows.mem_live holdNames).mpr hmem
        rw [hnode] at hold
        cases hold
    rw [hinsert, Set.image_insert_eq, hpathOf, hshows.live]
  have hlive {path : String} (hne : path ≠ action.path) :
      path ∈ (files.applyRename setting action step).live ↔ path ∈ files.live := by
    rw [mem_live, hmark, if_neg fun h => hne h.1, mem_live]
  rw [haction]
  constructor
  · intro heq node hnode
    have hmem : action.path ∈ (files.applyRename setting action step).live :=
      heq ▸ Set.mem_insert _ _
    have hthere : files.mark action.path = some node.deleteStep := by rw [mark, hnode]; rfl
    rw [mem_live, hmark, hthere, if_neg fun h => Option.some_ne_none _ h.2] at hmem
    exact Option.some_inj.mp hmem
  · intro hspares
    ext path
    by_cases hpath : path = action.path
    · rw [hpath, mem_live, hmark]
      refine iff_of_true ?_ (Set.mem_insert _ _)
      split_ifs with hnone
      · rfl
      · obtain ⟨deleted, hdeleted⟩ := Option.ne_none_iff_exists'.mp fun h => hnone ⟨rfl, h⟩
        obtain ⟨node, hnode, rfl⟩ := Option.map_eq_some_iff.mp hdeleted
        rw [hdeleted, hspares node hnode]
    · rw [hlive hpath, Set.mem_insert_iff, or_iff_right hpath]

section

variable (h : files.Indexed)
include h

section

variable (hfiled : files.Filed)
include hfiled

section

variable (hshows : files.Shows paths)
include hshows

/-- Deleting a directory takes out what is below it. -/
theorem live_applyScopeAction_delete (hnormal : action.IsNormalized)
    (hdelete : action.type = .delete) :
    (files.applyScopeAction setting action step).1.live =
      pathOf '' removeBelow (namesOf action.path) paths := by
  obtain ⟨hpathNames, hpathOf⟩ := hnormal.path.exists_names
  have hmark path : (files.applyScopeAction setting action step).1.mark path = _ :=
    mark_applyScopeAction_delete setting step hdelete path
  have hmember {names : List String} (hnames : AreNames names) :=
    mem_memberPaths h hfiled hpathNames hnames
  rw [hpathOf] at hmember
  ext path
  rw [mem_live, hmark]
  constructor
  · intro hlive
    split_ifs at hlive with hgone
    · obtain ⟨deleted, -, hdeleted⟩ := Option.map_eq_some_iff.mp hlive
      cases hdeleted
    · obtain ⟨names, hmem, hnames, rfl⟩ := hshows.exists_names (mem_live.mpr hlive)
      refine ⟨names, ⟨hmem, fun hbelow => hgone ((hmember hnames).mpr ⟨?_, hbelow⟩)⟩, rfl⟩
      rw [hlive]
      exact Option.some_ne_none _
  · rintro ⟨names, ⟨hmem, hbelow⟩, rfl⟩
    have hnames := (hshows.named names hmem).2
    rw [if_neg fun hgone => hbelow ((hmember hnames).mp hgone).2]
    exact mem_live.mp ((hshows.mem_live hnames).mpr hmem)

/-- The root keeps its name as a part of the paths that are moved to it. -/
theorem live_applyScopeAction_root_iff {old : List String} (holdNames : AreNames old)
    (hold : renamedFrom action = some (pathOf old)) (hroot : action.path = ".") :
    (files.applyScopeAction setting action step).1.live = pathOf '' rebase old [] paths ↔
      scopeMembers (pathOf old) files = [] := by
  have hmark := mark_applyScopeAction_some h setting step hold
  constructor
  · intro hlive
    refine eq_nil_iff_forall_not_mem.mpr fun node hmem => ?_
    obtain ⟨rest, hne, hrest, hpath⟩ := exists_rest_of_mem_scopeMembers h hfiled holdNames hmem
    have hnext : nextPath (pathOf old) action.path node.path ∈
        (files.applyScopeAction setting action step).1.live := by
      rw [mem_live, hmark, if_pos (mem_map_of_mem hmem)]
    rw [hlive, hroot, hpath] at hnext
    obtain ⟨names, hnames, heq⟩ := hnext
    have hroot' : AreNames [] := fun _ hname => absurd hname not_mem_nil
    have hnamed := hshows.named.rebase hroot' names hnames
    exact nextPath_root holdNames hrest hne hnamed.2 heq.symm
  · intro hnone
    have hbelow {names : List String} hmem : ¬Below old names := fun hbelow => by
      have hnames := (hshows.named names hmem).2
      have hthere : files.mark (pathOf names) ≠ none := by
        rw [mem_live.mp ((hshows.mem_live hnames).mpr hmem)]
        exact Option.some_ne_none _
      have hmember := (mem_memberPaths h hfiled holdNames hnames).mpr ⟨hthere, hbelow⟩
      rw [hnone] at hmember
      exact not_mem_nil hmember
    have hsame : (files.applyScopeAction setting action step).1.live = files.live :=
      live_eq fun path => by
        rw [hmark, hnone]
        rfl
    rw [hsame, hshows.live]
    congr 1
    ext names
    constructor
    · exact fun hmem => .inl ⟨hmem, hbelow hmem⟩
    · rintro (hkept | ⟨rest, hne, hmem, -⟩)
      · exact hkept.1
      · exact absurd ⟨rest, hne, rfl⟩ (hbelow hmem)

/-- Where a file is after a rename of a directory: the fading nodes below it are moved too. -/
theorem mem_live_applyScopeAction {old new : List String} (holdNames : AreNames old)
    (hnewNames : AreNames new) (hold : renamedFrom action = some (pathOf old))
    (hpath : action.path = pathOf new) (hroot : new ≠ []) (hnames : AreNames names) :
    pathOf names ∈ (files.applyScopeAction setting action step).1.live ↔
      (∃ rest, rest ≠ [] ∧ AreNames rest ∧ files.mark (pathOf (old ++ rest)) ≠ none ∧
        names = new ++ rest) ∨ names ∈ removeBelow old paths := by
  have hnext {rest : List String} hne hrest :
      nextPath (pathOf old) action.path (pathOf (old ++ rest)) = pathOf (new ++ rest) :=
    hpath ▸ nextPath_of_ne_nil holdNames hnewNames hrest hne hroot
  have hmember {names : List String} (hnames : AreNames names) :=
    mem_memberPaths h hfiled holdNames hnames
  have hmoved : pathOf names ∈ ((scopeMembers (pathOf old) files).map fun node =>
      nextPath (pathOf old) action.path node.path) ↔
      ∃ rest, rest ≠ [] ∧ AreNames rest ∧ files.mark (pathOf (old ++ rest)) ≠ none ∧
        names = new ++ rest := by
    rw [mem_map]
    constructor
    · rintro ⟨node, hmem, heq⟩
      obtain ⟨rest, hne, hrest, hnode⟩ :=
        exists_rest_of_mem_scopeMembers h hfiled holdNames hmem
      rw [hnode, hnext hne hrest] at heq
      have hthere := ((hmember (holdNames.append hrest)).mp (hnode ▸ mem_map_of_mem hmem)).1
      exact ⟨rest, hne, hrest, hthere, (pathOf_inj (hnewNames.append hrest) hnames heq).symm⟩
    · rintro ⟨rest, hne, hrest, hthere, rfl⟩
      obtain ⟨node, hmem, hnode⟩ := mem_map.mp
        ((hmember (holdNames.append hrest)).mpr ⟨hthere, rest, hne, rfl⟩)
      exact ⟨node, hmem, hnode ▸ hnext hne hrest⟩
  rw [← hmoved, mem_live, mark_applyScopeAction_some h setting step hold]
  split_ifs with hnew hgone
  · exact iff_of_true rfl (.inl hnew)
  · refine iff_of_false (nomatch ·) (not_or.mpr ⟨hnew, fun hkept => ?_⟩)
    exact hkept.2 ((hmember hnames).mp hgone).2
  · rw [or_iff_right hnew, ← mem_live, hshows.mem_live hnames]
    refine ⟨fun hmem => ⟨hmem, fun hbelow => hgone ((hmember hnames).mpr ⟨?_, hbelow⟩)⟩,
      fun hkept => hkept.1⟩
    rw [mem_live.mp ((hshows.mem_live hnames).mpr hmem)]
    exact Option.some_ne_none _

/-- Renaming a directory moves its live files exactly if no deleted member comes back. -/
theorem live_applyScopeAction_rename_iff {old new : List String} (holdNames : AreNames old)
    (hnewNames : AreNames new) (hold : renamedFrom action = some (pathOf old))
    (hpath : action.path = pathOf new) (hroot : new ≠ []) :
    (files.applyScopeAction setting action step).1.live = pathOf '' rebase old new paths ↔
      ∀ node ∈ scopeMembers (pathOf old) files, node.deleteStep ≠ none →
        ∃ other, other.deleteStep = none ∧
          files.nodes.get (nextPath (pathOf old) action.path node.path) = some other ∧
          ∀ member ∈ scopeMembers (pathOf old) files, member.path ≠ other.path := by
  have hlive {names : List String} hnames :
      pathOf names ∈ (files.applyScopeAction setting action step).1.live ↔ _ :=
    mem_live_applyScopeAction h hfiled hshows holdNames hnewNames hold hpath hroot hnames
  have hnext {rest : List String} hne hrest :
      nextPath (pathOf old) action.path (pathOf (old ++ rest)) = pathOf (new ++ rest) :=
    hpath ▸ nextPath_of_ne_nil holdNames hnewNames hrest hne hroot
  have hmember {names : List String} (hnames : AreNames names) :=
    mem_memberPaths h hfiled holdNames hnames
  have hnamed : ∀ path ∈ (files.applyScopeAction setting action step).1.live,
      ∃ names, AreNames names ∧ path = pathOf names := by
    intro path hpath'
    rw [mem_live, mark_applyScopeAction_some h setting step hold] at hpath'
    split_ifs at hpath' with hnew
    · obtain ⟨node, hmem, rfl⟩ := mem_map.mp hnew
      obtain ⟨rest, hne, hrest, hnode⟩ := exists_rest_of_mem_scopeMembers h hfiled holdNames hmem
      exact ⟨new ++ rest, hnewNames.append hrest, hnode ▸ hnext hne hrest⟩
    · obtain ⟨names, -, hnames, rfl⟩ := hshows.exists_names (mem_live.mpr hpath')
      exact ⟨names, hnames, rfl⟩
  rw [image_eq_iff hnamed (hshows.named.rebase hnewNames)]
  constructor
  · intro heq node hmem hfading
    obtain ⟨rest, hne, hrest, hnode⟩ := exists_rest_of_mem_scopeMembers h hfiled holdNames hmem
    have hthere := ((hmember (holdNames.append hrest)).mp (hnode ▸ mem_map_of_mem hmem)).1
    have hget := ((mem_scopeMembers h hfiled holdNames).mp hmem).1
    have hnewNames' := hnewNames.append hrest
    rcases (heq _ hnewNames').mp ((hlive hnewNames').mpr (.inl ⟨rest, hne, hrest, hthere, rfl⟩))
      with hkept | ⟨rest', -, hold', hsame⟩
    · obtain ⟨other, hother, hdeleted⟩ := (hshows.mem_live hnewNames').mpr hkept.1
      have hget' : files.nodes.get (nextPath (pathOf old) action.path node.path) = some other := by
        rw [hnode, hnext hne hrest, hother]
      refine ⟨other, hdeleted, hget', fun member hmember' heq' => ?_⟩
      have hbelow := ((mem_scopeMembers h hfiled holdNames).mp hmember').2
      rw [heq', h.keyed _ _ hother, namesOf_pathOf hnewNames'] at hbelow
      exact hkept.2 hbelow
    · obtain rfl := append_cancel_left hsame
      obtain ⟨live, hlive', hdeleted⟩ :=
        (hshows.mem_live (holdNames.append hrest)).mpr hold'
      rw [hnode, hlive'] at hget
      exact absurd (Option.some_inj.mp hget ▸ hdeleted) hfading
  · intro hspares names hnames
    rw [hlive hnames]
    constructor
    · rintro (⟨rest, hne, hrest, hthere, rfl⟩ | hkept)
      · obtain ⟨node, hmem, hnode⟩ := mem_map.mp
          ((hmember (holdNames.append hrest)).mpr ⟨hthere, rest, hne, rfl⟩)
        have hget := ((mem_scopeMembers h hfiled holdNames).mp hmem).1
        by_cases hfading : node.deleteStep = none
        · rw [hnode] at hget
          exact .inr ⟨rest, hne,
            (hshows.mem_live (holdNames.append hrest)).mp ⟨node, hget, hfading⟩, rfl⟩
        · obtain ⟨other, hdeleted, hother, hout⟩ := hspares node hmem hfading
          rw [hnode, hnext hne hrest] at hother
          have hkeyed := h.keyed _ _ hother
          refine .inl ⟨(hshows.mem_live hnames).mp ⟨other, hother, hdeleted⟩, fun hbelow => ?_⟩
          refine hout other ((mem_scopeMembers h hfiled holdNames).mpr ⟨hkeyed ▸ hother, ?_⟩) rfl
          rwa [hkeyed, namesOf_pathOf hnames]
      · exact .inl hkept
    · rintro (hkept | ⟨rest, hne, hmem, rfl⟩)
      · exact .inr hkept
      · have hrest : AreNames rest := fun name hname =>
          (hshows.named _ hmem).2 name (mem_append_right old hname)
        refine .inl ⟨rest, hne, hrest, ?_, rfl⟩
        rw [mem_live.mp ((hshows.mem_live (holdNames.append hrest)).mpr hmem)]
        exact Option.some_ne_none _

/-- An action leaves the files that it should if and only if it spares the fading ones. -/
theorem live_applyAction_iff (hnormal : action.IsNormalized) :
    (files.applyAction setting action step).1.live = pathOf '' fileAction action paths ↔
      files.SparesFading action := by
  cases hscope : action.isScope with
  | false =>
    by_cases hrename : action.type = .rename
    · have happly : (files.applyAction setting action step).1 =
          files.applyRename setting action step := by
        rw [applyAction, hscope, if_neg Bool.false_ne_true, if_pos hrename]
      simp only [happly, SparesFading, hscope, hrename, true_imp_iff]
      cases hold : (renamedFrom action).bind files.nodes.get with
      | none =>
        simp only [true_imp_iff]
        exact live_applyRename_none_iff hshows hnormal hscope hrename hold
      | some node =>
        obtain ⟨oldPath, hfrom, hget⟩ := Option.bind_eq_some_iff.mp hold
        rw [renamedFrom_eq hnormal, if_pos hrename] at hfrom
        refine iff_of_true ?_ (fun hnone => by cases hnone)
        rw [live_applyRename_some h hshows hnormal hfrom hrename hget, fileAction, hscope, hrename,
          hfrom]
    · simp only [SparesFading, hscope, hrename, false_imp_iff, iff_true]
      exact live_applyAction_touch h hshows hnormal hscope hrename
  | true =>
    have happly : (files.applyAction setting action step).1 =
        (files.applyScopeAction setting action step).1 := by rw [applyAction, hscope, if_pos rfl]
    obtain ⟨hpathNames, hpathOf⟩ := hnormal.path.exists_names
    simp only [happly, SparesFading, hscope]
    cases hfrom : renamedFrom action with
    | none =>
      rw [iff_true]
      by_cases hdelete : action.type = .delete
      · rw [live_applyScopeAction_delete h hfiled hshows hnormal hdelete, fileAction, hscope,
          hdelete]
      · rw [live_eq (mark_applyScopeAction_none setting step hfrom hdelete), hshows.live]
        rw [renamedFrom_eq hnormal] at hfrom
        rw [fileAction]
        split <;> simp_all
    | some oldPath =>
      have hrename : action.type = .rename := by
        by_contra hne
        rw [renamedFrom, if_neg hne] at hfrom
        cases hfrom
      have hold : action.oldPath = some oldPath := by
        rwa [renamedFrom_eq hnormal, if_pos hrename] at hfrom
      obtain ⟨holdNames, holdOf⟩ := (hnormal.oldPath oldPath hold).exists_names
      have haction : fileAction action paths =
          rebase (namesOf oldPath) (namesOf action.path) paths := by
        rw [fileAction, hscope, hrename, hold]
      rw [haction]
      rw [← holdOf] at hfrom ⊢
      rw [namesOf_pathOf holdNames]
      by_cases hroot : action.path = "."
      · have hnew : namesOf action.path = [] := by rw [hroot]; rfl
        rw [hnew, live_applyScopeAction_root_iff h hfiled hshows holdNames hfrom hroot]
        dsimp only
        constructor
        · intro hnone
          rw [hnone]
          exact fun _ hmem => absurd hmem not_mem_nil
        · exact fun hspares => eq_nil_iff_forall_not_mem.mpr fun node hmem =>
            (hspares node hmem).1 hroot
      · have hnew : namesOf action.path ≠ [] := fun hnil => hroot (by rw [← hpathOf, hnil]; rfl)
        rw [live_applyScopeAction_rename_iff h hfiled hshows holdNames hpathNames hfrom
          hpathOf.symm hnew]
        exact forall₂_congr fun node hmem => (and_iff_right hroot).symm

end

/-! ### Every action of an event -/

theorem Filed.applyAction (hnormal : action.IsNormalized)
    (hspares : files.SparesFading action) (setting : Setting R) (step : ℕ) :
    (files.applyAction setting action step).1.Filed := by
  obtain ⟨hpathNames, hpathOf⟩ := hnormal.path.exists_names
  intro path hpath
  by_contra hnot
  have hgone : files.mark path = none := by_contra fun hthere => hnot (hfiled path hthere)
  cases hscope : action.isScope with
  | false =>
    have hother : path ≠ action.path := fun heq =>
      hnot ⟨_, hpathNames, namesOf_ne_nil hnormal hscope, heq.trans hpathOf.symm⟩
    by_cases hrename : action.type = .rename
    · rw [Files.applyAction, hscope, if_neg Bool.false_ne_true, if_pos hrename] at hpath
      cases hold : (renamedFrom action).bind files.nodes.get with
      | none =>
        rw [mark_applyRename_none setting step hold, if_neg fun hnew => hother hnew.1] at hpath
        exact hpath hgone
      | some node =>
        rw [mark_applyRename_some h.keyed setting step hold, if_neg hother, hgone] at hpath
        exact hpath (ite_self _)
    · rw [mark_applyAction_touch h setting step hscope hrename, if_neg hother] at hpath
      exact hpath hgone
  | true =>
    rw [Files.applyAction, hscope, if_pos rfl] at hpath
    cases hfrom : renamedFrom action with
    | none =>
      by_cases hdelete : action.type = .delete
      · rw [mark_applyScopeAction_delete setting step hdelete, hgone] at hpath
        exact hpath (ite_self _)
      · rw [mark_applyScopeAction_none setting step hfrom hdelete] at hpath
        exact hpath hgone
    | some oldPath =>
      rw [mark_applyScopeAction_some h setting step hfrom, hgone, ite_self] at hpath
      obtain ⟨node, hmem, rfl⟩ := mem_map.mp <| by_contra fun hnew => hpath (if_neg hnew)
      rw [SparesFading, hscope, hfrom] at hspares
      have hroot := (hspares node hmem).1
      have hold : action.oldPath = some oldPath := by
        rw [renamedFrom_eq hnormal] at hfrom
        split_ifs at hfrom
        exact hfrom
      obtain ⟨holdNames, holdOf⟩ := (hnormal.oldPath oldPath hold).exists_names
      rw [← holdOf] at hmem
      obtain ⟨rest, hne, hrest, hnode⟩ := exists_rest_of_mem_scopeMembers h hfiled holdNames hmem
      have hnew : namesOf action.path ≠ [] := fun hnil => hroot (by rw [← hpathOf, hnil]; rfl)
      refine hnot ⟨_, hpathNames.append hrest, append_ne_nil_of_left_ne_nil hnew rest, ?_⟩
      rw [hnode, ← nextPath_of_ne_nil holdNames hpathNames hrest hne hnew, holdOf, hpathOf]

end

end

/-- The actions of an event, each at the files that those before it leave. -/
def SparesAll (setting : Setting R) (step : ℕ) : Files R → List (Action R) → Prop
  | _, [] => True
  | files, action :: actions => files.SparesFading action ∧
    SparesAll setting step (files.applyAction setting action step).1 actions

theorem sparesAll_of_ne_rename (setting : Setting R) (step : ℕ) {actions : List (Action R)}
    (h : ∀ action ∈ actions, action.type ≠ .rename) (files : Files R) :
    files.SparesAll setting step actions := by
  induction actions generalizing files with
  | nil => trivial
  | cons action actions ih =>
    rw [forall_mem_cons] at h
    exact ⟨sparesFading_of_ne_rename h.1 files, ih h.2 _⟩

/-- An action that spares what fades does to the live files what it says. -/
theorem Shows.applyAction (h : files.Indexed) (hfiled : files.Filed) (hshows : files.Shows paths)
    (hnormal : action.IsNormalized) (hspares : files.SparesFading action) (setting : Setting R)
    (step : ℕ) : (files.applyAction setting action step).1.Shows (fileAction action paths) where
  named := named_fileAction hnormal hshows
  live := (live_applyAction_iff h hfiled hshows hnormal).mpr hspares

/-- The files after the actions of an event. -/
theorem shows_applyActions (h : files.Indexed) (hfiled : files.Filed) (hshows : files.Shows paths)
    (setting : Setting R) (step : ℕ) (actions : List (Action R))
    (hnormal : ∀ action ∈ actions, action.IsNormalized)
    (hspares : files.SparesAll setting step actions) :
    (files.applyActions setting actions step).1.Filed ∧
      (files.applyActions setting actions step).1.Shows
        (actions.foldl (fun paths action => fileAction action paths) paths) := by
  induction actions generalizing files paths with
  | nil => exact ⟨hfiled, hshows⟩
  | cons action actions ih =>
    rw [applyActions_cons]
    have hfirst := hnormal action mem_cons_self
    exact ih (h.applyAction setting action step)
      (hfiled.applyAction h hfirst hspares.1 setting step)
      (hshows.applyAction h hfiled hfirst hspares.1 setting step)
      (fun action hmem => hnormal action (mem_cons_of_mem _ hmem)) hspares.2

end Actions

/-! ### Between the events -/

/-- Only nodes that are marked deleted are taken out. -/
theorem mark_pruneDeleted (h : files.Indexed) (step : ℕ) (path : String) :
    (files.pruneDeleted step).mark path = files.mark path ∨
      (files.pruneDeleted step).mark path = none ∧ files.mark path ≠ some none := by
  refine List.foldlRecOn (motive := fun state : Files R => state.mark path = files.mark path ∨
    state.mark path = none ∧ files.mark path ≠ some none) _ _ (.inl rfl)
    fun state hstate node hmem => ?_
  split
  · exact hstate
  · next deleted hdeleted =>
    split_ifs
    · exact hstate
    · rw [mark_take]
      split_ifs with hpath
      · obtain ⟨at', hget⟩ := OrderedMap.mem_values.mp hmem
        obtain rfl := h.keyed _ _ hget
        rw [hpath, mark, hget, Option.map_some, hdeleted]
        simp
      · exact hstate

/-- A node that still fades is kept. -/
theorem mark_pruneDeleted_of_lt (h : files.Indexed) {deleted : ℕ}
    (hmark : files.mark path = some (some deleted)) (hlt : step - deleted < transitionSteps) :
    (files.pruneDeleted step).mark path = some (some deleted) := by
  refine List.foldlRecOn (motive := fun state : Files R => state.mark path = some (some deleted))
    _ _ hmark fun state hstate node hmem => ?_
  split
  · exact hstate
  · next deleted' hdeleted =>
    split_ifs with hage
    · exact hstate
    · have hpath : path ≠ node.path := by
        rintro rfl
        obtain ⟨at', hget⟩ := OrderedMap.mem_values.mp hmem
        obtain rfl := h.keyed _ _ hget
        rw [mark, hget, Option.map_some, hdeleted] at hmark
        cases hmark
        exact hage hlt
      rw [mark_take, if_neg hpath, hstate]

theorem Shows.pruneDeleted (h : files.Indexed) (hshows : files.Shows paths) (step : ℕ) :
    (files.pruneDeleted step).Shows paths where
  named := hshows.named
  live := by
    rw [← hshows.live]
    ext path
    rw [Files.mem_live, Files.mem_live]
    obtain hsame | ⟨hnone, hne⟩ := mark_pruneDeleted h step path
    · rw [hsame]
    · rw [hnone]
      exact iff_of_false (nomatch ·) hne

theorem Filed.pruneDeleted (h : files.Indexed) (hfiled : files.Filed) (step : ℕ) :
    (files.pruneDeleted step).Filed := fun path hpath => by
  obtain hsame | ⟨hnone, -⟩ := mark_pruneDeleted h step path
  · exact hfiled path (hsame ▸ hpath)
  · exact absurd hnone hpath

theorem Shows.redrawn (hshows : files.Shows paths) (h : Redrawn files files') :
    files'.Shows paths where
  named := hshows.named
  live := (live_eq h.mark_eq).trans hshows.live

theorem Filed.redrawn (hfiled : files.Filed) (h : Redrawn files files') : files'.Filed :=
  fun path hpath => hfiled path (h.mark_eq path ▸ hpath)

theorem shows_empty : (empty : Files R).Shows ∅ where
  named := fun _ hnames => absurd hnames (Set.notMem_empty _)
  live := by
    rw [Set.image_empty, Set.eq_empty_iff_forall_notMem]
    rintro path ⟨node, hnode, -⟩
    cases hnode

theorem filed_empty : (empty : Files R).Filed := fun path hpath =>
  absurd (by rfl) hpath

end Files

/-! ### The runs -/

section Runs

variable [Field R] [LinearOrder R] [MathFunctions R] (model : Model R) (layout : Layout R)

/-- The files after the steps of the first events. -/
def filesOf (steps : ℕ) : Files R := (playSteps model layout Player.fresh.state 0 steps).files

/-- No rename of the step meets a fading file. -/
def StepSparesFading (step : ℕ) (event : Event R) : Prop :=
  (metFiles (playSteps model layout Player.fresh.state 0 step) step event).SparesAll
    model.toSetting step event.actions

theorem playSteps_succ (state : State R) (played count : ℕ) :
    playSteps model layout state played (count + 1) =
      match model.events[played + count]? with
      | some event => playStep model layout (playSteps model layout state played count)
          (played + count) event
      | none => playSteps model layout state played count := by
  induction count generalizing state played with
  | zero => rfl
  | succ count ih =>
    rw [playSteps, ih, Nat.add_right_comm]
    rfl

/-- Whatever the events are, the indices list the paths of the nodes. -/
theorem indexed_filesOf (steps : ℕ) : (filesOf model layout steps).Indexed := by
  induction steps with
  | zero => exact Files.indexed_empty
  | succ steps ih =>
    rw [filesOf, playSteps_succ]
    split
    · exact indexed_playStep ih
    · exact ih

variable {model}

omit [Field R] [LinearOrder R] [MathFunctions R] in
/-- What the actions of an event meet is what the steps before have left. -/
theorem shows_metFiles {state : State R} {paths : Set (List String)} (h : state.files.Indexed)
    (hfiled : state.files.Filed) (hshows : state.files.Shows paths) (step : ℕ) (event : Event R) :
    (metFiles state step event).Indexed ∧ (metFiles state step event).Filed ∧
      (metFiles state step event).Shows paths := by
  have hentered := redrawn_enterSession state event
  have hindexed := hentered.indexed h
  exact ⟨hindexed.pruneDeleted step, (hfiled.redrawn hentered).pruneDeleted hindexed step,
    (hshows.redrawn hentered).pruneDeleted hindexed step⟩

/-- The files of a run whose renames met no fading file. -/
theorem shows_filesOf (hnormal : ∀ event ∈ model.events, ∀ action ∈ event.actions,
      action.IsNormalized) (steps : ℕ)
    (hspares : ∀ step < steps, ∀ event, model.events[step]? = some event →
      StepSparesFading model layout step event) :
    (filesOf model layout steps).Filed ∧
      (filesOf model layout steps).Shows (filesAfter (model.events.take steps)) := by
  induction steps with
  | zero => exact ⟨Files.filed_empty, Files.shows_empty⟩
  | succ steps ih =>
    obtain ⟨hfiled, hshows⟩ := ih fun step hstep => hspares step (by omega)
    rw [filesOf, playSteps_succ, Nat.zero_add, take_add_one]
    cases hevent : model.events[steps]? with
    | none =>
      rw [Option.toList_none, append_nil]
      exact ⟨hfiled, hshows⟩
    | some event =>
      rw [Option.toList_some, filesAfter_concat]
      obtain ⟨hindexed, hfiled, hshows⟩ :=
        shows_metFiles (indexed_filesOf model layout steps) hfiled hshows steps event
      have hplayed := redrawn_playStep model layout
        (playSteps model layout Player.fresh.state 0 steps) steps event
      obtain ⟨hfiled', hshows'⟩ := Files.shows_applyActions hindexed hfiled hshows model.toSetting
        steps event.actions (hnormal event (mem_of_getElem? hevent))
        (hspares steps (Nat.lt_add_one steps) event hevent)
      exact ⟨hfiled'.redrawn hplayed, hshows'.redrawn hplayed⟩

/-- The replay refines the set of files as long as no rename meets a fading file. -/
theorem filesOf_refines (hnormal : ∀ event ∈ model.events, ∀ action ∈ event.actions,
      action.IsNormalized)
    (hspares : ∀ step event, model.events[step]? = some event →
      StepSparesFading model layout step event) (steps : ℕ) :
    (filesOf model layout steps).Indexed ∧
      (filesOf model layout steps).live = pathOf '' filesAfter (model.events.take steps) :=
  ⟨indexed_filesOf model layout steps,
    (shows_filesOf layout hnormal steps fun step _ => hspares step).2.live⟩

end Runs

/-! ### Two runs -/

noncomputable def fileActionOf (type : AccessType) (path : String) (oldPath : Option String)
    (isScope : Bool) : Action ℝ :=
  { tsMs := 0, sessionId := "s", vendor := "codex", status := "ok", type, path, oldPath, isScope
    evidenceScale := 1, evidenceKind := "direct tool" }

/-- An event with one action. -/
noncomputable def eventOf (eventStep : ℕ) (action : Action ℝ) : Event ℝ :=
  { tsMs := eventStep, sessionId := "s", vendor := "codex", toolName := "edit", category := "file"
    commandName := "", status := "ok", eventStep, actions := [action] }

noncomputable def modelOf (events : List (Event ℝ)) : Model ℝ :=
  { repository := "r", importanceHalfLife := 250, colorForPath := fun _ => (0, 0, 0), events }

/-- A file is removed and made again, and then its directory is removed. -/
noncomputable def recreatedRun : Model ℝ :=
  modelOf [eventOf 0 (fileActionOf .create "src/a" none false),
      eventOf 1 (fileActionOf .delete "src/a" none false),
      eventOf 2 (fileActionOf .create "src/a" none false),
      eventOf 3 (fileActionOf .delete "src" none true)]

theorem isNormalized_src (type : AccessType) :
    (fileActionOf type "src/a" none false).IsNormalized :=
  { path := show Normalized "src/a" by decide
    oldPath := fun _ h => nomatch h
    file := fun _ => ⟨show "src/a" ≠ "." by decide, nofun⟩ }

theorem normalized_recreatedRun : ∀ event ∈ recreatedRun.events, ∀ action ∈ event.actions,
    action.IsNormalized := by
  have hscope : (fileActionOf .delete "src" none true).IsNormalized :=
    { path := show Normalized "src" by decide
      oldPath := fun _ h => nomatch h
      file := fun h => nomatch h }
  intro event hevent action haction
  fin_cases hevent <;> obtain rfl := List.mem_singleton.mp haction <;>
    first | exact isNormalized_src _ | exact hscope

/-- The nodes stay where they are. -/
def still : Layout ℝ := fun _ _ => ⟨0, 0, 0, 0⟩

theorem recreatedRun_refines : (filesOf recreatedRun still 4).Indexed ∧
      (filesOf recreatedRun still 4).live = pathOf '' filesAfter (recreatedRun.events.take 4) := by
  have hrename : ∀ event ∈ recreatedRun.events, ∀ action ∈ event.actions,
      action.type ≠ .rename := by
    simp [recreatedRun, modelOf, eventOf, fileActionOf]
  exact filesOf_refines still normalized_recreatedRun (fun step event hevent =>
    Files.sparesAll_of_ne_rename _ step (hrename event (mem_of_getElem? hevent)) _) 4

/-- A file is removed, and its directory is renamed while it fades. -/
noncomputable def movedRun : Model ℝ :=
  modelOf [eventOf 0 (fileActionOf .create "src/a" none false),
      eventOf 1 (fileActionOf .delete "src/a" none false),
      eventOf 2 (fileActionOf .rename "lib" (some "src") true)]

theorem normalized_movedRun : ∀ event ∈ movedRun.events, ∀ action ∈ event.actions,
    action.IsNormalized := by
  have hscope : (fileActionOf .rename "lib" (some "src") true).IsNormalized :=
    { path := show Normalized "lib" by decide
      oldPath := fun oldPath h => Option.some_inj.mp h ▸ show Normalized "src" by decide
      file := fun h => nomatch h }
  intro event hevent action haction
  fin_cases hevent <;> obtain rfl := List.mem_singleton.mp haction <;>
    first | exact isNormalized_src _ | exact hscope

theorem filesAfter_movedRun : filesAfter (movedRun.events.take 2) = ∅ := by
  change (insert _ ∅ : Set (List String)) \ {_} = ∅
  rw [insert_empty_eq]
  exact sdiff_self

/-- Before the directory is renamed there are no files, and one fades. -/
theorem shows_movedRun : (filesOf movedRun still 2).Filed ∧ (filesOf movedRun still 2).Shows ∅ ∧
      (filesOf movedRun still 2).mark "src/a" = some (some 1) := by
  have hspares step (hstep : step < 2) event (hevent : movedRun.events[step]? = some event) :
      StepSparesFading movedRun still step event := by
    refine Files.sparesAll_of_ne_rename _ step ?_ _
    obtain rfl | rfl : step = 0 ∨ step = 1 := by omega
    · cases hevent
      simp [eventOf, fileActionOf]
    · cases hevent
      simp [eventOf, fileActionOf]
  obtain ⟨hfiled, hshows⟩ := shows_filesOf still normalized_movedRun 2 hspares
  obtain ⟨hcreated, hcreatedShows⟩ :=
    shows_filesOf still normalized_movedRun 1 fun step hstep => hspares step (by omega)
  have hmet := (shows_metFiles (indexed_filesOf movedRun still 1) hcreated hcreatedShows 1
    (eventOf 1 (fileActionOf .delete "src/a" none false))).1
  refine ⟨hfiled, filesAfter_movedRun ▸ hshows, ?_⟩
  refine ((redrawn_playStep movedRun still _ 1 _).mark_eq "src/a").trans ?_
  have hdelete : (fileActionOf .delete "src/a" none false).type ≠ .rename := by simp [fileActionOf]
  refine (Files.mark_applyAction_touch hmet movedRun.toSetting 1 rfl hdelete "src/a").trans ?_
  rw [fileActionOf, if_pos rfl, if_pos rfl]

/-- The file is back under the new name of its directory. -/
theorem movedRun_revives : ¬∀ (model : Model ℝ) (layout : Layout ℝ),
      (∀ event ∈ model.events, ∀ action ∈ event.actions, action.IsNormalized) →
        ∀ steps, (filesOf model layout steps).Indexed ∧
          (filesOf model layout steps).live = pathOf '' filesAfter (model.events.take steps) := by
  intro h
  obtain ⟨-, hlive⟩ := h movedRun still normalized_movedRun 3
  obtain ⟨hfiled, hshows, hmark⟩ := shows_movedRun
  have hindexed := indexed_filesOf movedRun still 2
  have hentered := redrawn_enterSession (playSteps movedRun still Player.fresh.state 0 2)
    (eventOf 2 (fileActionOf .rename "lib" (some "src") true))
  obtain ⟨hmet, hmetFiled, hmetShows⟩ := shows_metFiles hindexed hfiled hshows 2
    (eventOf 2 (fileActionOf .rename "lib" (some "src") true))
  have hage : 2 - 1 < transitionSteps := by decide
  have hfading := Files.mark_pruneDeleted_of_lt (hentered.indexed hindexed)
    ((hentered.mark_eq "src/a").trans hmark) hage
  have hnormal := normalized_movedRun _ (mem_of_getElem? (i := 2) rfl) _ mem_cons_self
  have hset : filesAfter (movedRun.events.take 3) =
      fileAction (fileActionOf .rename "lib" (some "src") true)
        (filesAfter (movedRun.events.take 2)) := rfl
  rw [hset, filesAfter_movedRun] at hlive
  have hspares := (Files.live_applyAction_iff hmet hmetFiled hmetShows hnormal).mp
    ((Files.live_eq (redrawn_playStep movedRun still _ 2 _).mark_eq).symm.trans hlive)
  obtain ⟨node, hget, hdeleted⟩ := Option.map_eq_some_iff.mp hfading
  have hpath := hmet.keyed _ _ hget
  have hsrc : AreNames ["src"] := show ∀ name ∈ ["src"], IsName name by decide
  have hmember := (Files.mem_scopeMembers hmet hmetFiled hsrc).mpr
    ⟨hpath ▸ hget, ["a"], by decide, by rw [hpath]; decide⟩
  -- A fading node may be moved only onto a file, and there are none.
  obtain ⟨other, hother, hthere, -⟩ := (hspares node hmember).2 (by rw [hdeleted]; nofun)
  have hlive : nextPath "src" "lib" node.path ∈ (∅ : Set String) := by
    rw [← Set.image_empty pathOf, ← hmetShows.live]
    exact ⟨other, hthere, hother⟩
  exact hlive

end AgentSight.Nebula
