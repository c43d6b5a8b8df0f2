import AgentSight.Lib.GroupIndex
import AgentSight.Nebula.Paths
import Mathlib.Analysis.SpecialFunctions.Pow.Real
import Mathlib.Data.UInt

/-!
# The replay of the evolution graph

`repository-nebula.js` replays the file actions of coding agents as a graph of stars. The actions
change the nodes, by path, with the three indices over their paths. A deleted file keeps its node
while it fades.

`advanceTo` and what it calls: the events are played one after the other on one state, a request
for an earlier step starts again, and a request returns a snapshot of the step it asks for. What
the simulation of `d3-force` does with its inputs is a parameter.

The numbers are of any ordered field with the functions of `Math` that are used.
-/

namespace AgentSight.Nebula

class MathFunctions (R : Type) where
  sqrt : R → R
  log1p : R → R
  pow : R → R → R
  cos : R → R
  sin : R → R
  pi : R

noncomputable instance : MathFunctions ℝ where
  sqrt := Real.sqrt
  log1p x := Real.log (1 + x)
  pow x y := x ^ y
  cos := Real.cos
  sin := Real.sin
  pi := Real.pi

open MathFunctions

def transitionSteps : ℕ := 6

inductive AccessType where
  | «open»
  | read
  | write
  | create
  | rename
  | delete
  deriving DecidableEq

/-- A row of `normalizeEvents`. -/
structure Action (R : Type) where
  tsMs : ℤ
  sessionId : String
  vendor : String
  status : String
  type : AccessType
  path : String
  oldPath : Option String
  isScope : Bool
  evidenceScale : R
  evidenceKind : String

abbrev Color (R : Type) := R × R × R

structure Node (R : Type) where
  path : String
  x : R
  y : R
  vx : R
  vy : R
  visits : ℕ
  sessions : Finset String
  importanceRaw : R
  importanceStep : ℕ
  importance : R
  directoryShare : R
  directoryCellScale : R
  baseSize : R
  birthStep : ℕ
  deleteStep : Option ℕ
  lastStep : ℕ
  focusType : Option AccessType
  focusScale : R
  scopeStep : Option ℕ
  scopeScale : R
  firstAction : AccessType
  firstTs : ℤ
  lastSession : String
  lastVendor : String
  lastStatus : String
  bornNear : Option String
  colorFrom : Color R
  colorTo : Color R
  colorStep : ℕ
  lifecycleType : Option AccessType
  lifecycleStep : Option ℕ
  lifecycleScale : R

/-- What of the model the nodes are computed with. -/
structure Setting (R : Type) where
  importanceHalfLife : ℕ
  colorForPath : String → Color R

/-- The nodes and the indices of `model.state`. -/
structure Files (R : Type) where
  nodes : OrderedMap String (Node R)
  parentIndex : OrderedMap String (List String)
  prefixIndex : OrderedMap String (List String)
  topIndex : OrderedMap String (List String)

namespace Files

variable {R : Type}

def empty : Files R := ⟨.empty, .empty, .empty, .empty⟩

/-! ### The indices -/

def addIndex (index : OrderedMap String (List String)) (key path : String) :
    OrderedMap String (List String) :=
  GroupIndex.add index key path

def removeIndex (index : OrderedMap String (List String)) (key path : String) :
    OrderedMap String (List String) :=
  GroupIndex.remove index key path

def indexNode (state : Files R) (node : Node R) : Files R :=
  { state with
    parentIndex := addIndex state.parentIndex (parentDirectory node.path) node.path
    topIndex := addIndex state.topIndex (rootArea node.path) node.path
    prefixIndex := (prefixKeys node.path).foldl (fun index key => addIndex index key node.path)
      state.prefixIndex }

def unindexNode (state : Files R) (node : Node R) : Files R :=
  { state with
    parentIndex := removeIndex state.parentIndex (parentDirectory node.path) node.path
    topIndex := removeIndex state.topIndex (rootArea node.path) node.path
    prefixIndex := (prefixKeys node.path).foldl (fun index key => removeIndex index key node.path)
      state.prefixIndex }

/-- `unindexNode` and `nodes.delete`, which the source calls one after the other. -/
def take (state : Files R) (node : Node R) : Files R :=
  let state := state.unindexNode node
  { state with nodes := state.nodes.delete node.path }

/-- `nodes.set` and `indexNode`. -/
def put (state : Files R) (node : Node R) : Files R :=
  indexNode { state with nodes := state.nodes.set node.path node } node

def modifyNode (state : Files R) (path : String) (f : Node R → Node R) : Files R :=
  { state with nodes := state.nodes.modify path f }

/-! ### Where a new node starts -/

def lastLivePath (paths : Option (List String)) (state : Files R) (excluded : String) :
    Option String :=
  (paths.getD []).reverse.find? fun path => path ≠ excluded ∧ (state.nodes.get path).isSome

def birthParent (path : String) (state : Files R) : Option (Node R) :=
  match lastLivePath (state.parentIndex.get (parentDirectory path)) state path with
  | some parent => state.nodes.get parent
  | none =>
    let directories := directoryParts path
    let candidate := (List.range' 1 (directories.length - 1)).reverse.findSome? fun depth =>
      lastLivePath (state.prefixIndex.get (joinParts (directories.take depth))) state path
    match candidate with
    | some candidate => state.nodes.get candidate
    | none =>
      (lastLivePath (state.topIndex.get (rootArea path)) state path).bind state.nodes.get

end Files

/-- The code units of UTF-16 of a character. -/
def codeUnits (c : Char) : List ℕ :=
  if c.toNat < 0x10000 then [c.toNat]
  else [0xd800 + (c.toNat - 0x10000) / 0x400, 0xdc00 + (c.toNat - 0x10000) % 0x400]

def hash32 (value : String) : UInt32 :=
  (value.toList.flatMap codeUnits).foldl (fun hash unit => (hash ^^^ unit.toUInt32) * 16777619)
    2166136261

section Numbers

variable {R : Type} [Field R]

def width : R := 1200

def height : R := 675

def hashUnit (value : String) : R := (hash32 value).toNat / 0xffffffff

def restingMaxSize : R := 6

def gains : AccessType → R
  | .open | .read => 1
  | .write => 5 / 2
  | .create | .rename | .delete => 4

variable [LinearOrder R]

def clamp (value minimum maximum : R) : R := max minimum (min maximum value)

def mixRgb (left right : Color R) (progress : R) : Color R :=
  let unit := clamp progress 0 1
  (left.1 + (right.1 - left.1) * unit, left.2.1 + (right.2.1 - left.2.1) * unit,
    left.2.2 + (right.2.2 - left.2.2) * unit)

def currentColor (node : Node R) (step : ℕ) : Color R :=
  mixRgb node.colorFrom node.colorTo (((step : R) - node.colorStep + 1) / transitionSteps)

variable [MathFunctions R]

def initialPosition (path : String) (parent : Option (Node R)) (state : Files R) : R × R :=
  let angle : R := hashUnit (path ++ ":birth") * 2 * pi
  if state.nodes.entries = [] then (width / 2, height / 2)
  else
    match parent with
    | some parent => (parent.x + 13 * cos angle, parent.y + 13 * sin angle)
    | none =>
      let peers := (GroupIndex.rows state.topIndex (rootArea path)).filterMap state.nodes.get
      if peers = [] then (width / 2 + 36 * cos angle, height / 2 + 36 * sin angle)
      else
        let x := (peers.map Node.x).sum / peers.length
        let y := (peers.map Node.y).sum / peers.length
        (x + 18 * cos angle, y + 18 * sin angle)

def decayedImportance (node : Node R) (step halfLife : ℕ) : R :=
  let age := step - node.importanceStep
  node.importanceRaw * pow 2 (-(age : R) / halfLife)

variable (setting : Setting R)

def recordImportance (node : Node R) (action : Action R) (step : ℕ) : Node R :=
  let isNew := action.sessionId ≠ "" ∧ action.sessionId ∉ node.sessions
  let gain : R := gains action.type + if isNew then 3 / 2 else 0
  { node with
    sessions := if isNew then insert action.sessionId node.sessions else node.sessions
    importanceRaw := decayedImportance node step setting.importanceHalfLife
      + gain * action.evidenceScale
    importanceStep := step }

namespace Files

/-- The state with a node at the path, and the node: the one that is there, or a new one. -/
def createNode (state : Files R) (path : String) (action : Action R) (step : ℕ)
    (lifecycle : Option AccessType) : Files R × Node R :=
  match state.nodes.get path with
  | some existing => (state, existing)
  | none =>
    let parent := state.birthParent path
    let (x, y) := initialPosition path parent state
    let targetColor := setting.colorForPath path
    let node : Node R :=
      { path, x, y, vx := 0, vy := 0
        visits := 0
        sessions := ∅
        importanceRaw := 0
        importanceStep := step
        importance := 0
        directoryShare := 1
        directoryCellScale := 1
        baseSize := restingMaxSize
        birthStep := step
        deleteStep := none
        lastStep := step
        focusType := some action.type
        focusScale := action.evidenceScale
        scopeStep := none
        scopeScale := 0
        firstAction := action.type
        firstTs := action.tsMs
        lastSession := action.sessionId
        lastVendor := action.vendor
        lastStatus := action.status
        bornNear := parent.map Node.path
        colorFrom := match parent with
          | some parent => currentColor parent step
          | none => targetColor
        colorTo := targetColor
        colorStep := step
        lifecycleType := lifecycle
        lifecycleStep := lifecycle.map fun _ => step
        lifecycleScale := action.evidenceScale }
    (state.put node, node)

/-! ### Actions on a directory -/

def scopeMembers (path : String) (state : Files R) : List (Node R) :=
  let key := stripSlashes path
  if key = "" ∨ key = "." then state.nodes.values
  else (GroupIndex.rows state.prefixIndex key).filterMap state.nodes.get

/-- The path that a rename is from, where the action has one. -/
def renamedFrom (action : Action R) : Option String :=
  if action.type = .rename then action.oldPath.filter (· ≠ "") else none

/-- A member of a directory that is renamed, at its new path. -/
def renamedNode (action : Action R) (oldPath : String) (step : ℕ) (node : Node R) : Node R :=
  let path := nextPath oldPath action.path node.path
  recordImportance setting { node with
      path
      colorFrom := currentColor node step
      colorTo := setting.colorForPath path
      colorStep := step
      deleteStep := none
      lastStep := step
      focusType := some .rename
      focusScale := action.evidenceScale
      lifecycleType := some .rename
      lifecycleStep := some step
      lifecycleScale := action.evidenceScale
      lastSession := action.sessionId
      lastVendor := action.vendor
      visits := node.visits + 1 } action step

/-- One turn of the loop over the members, with the paths that the turns before have set. All
members were taken out of the map before, so a node that is there is a member iff a turn set it. -/
def moveMember (action : Action R) (oldPath : String) (step : ℕ) (turn : Files R × List String)
    (node : Node R) : Files R × List String :=
  let (state, moved) := turn
  let node := renamedNode setting action oldPath step node
  let state := match state.nodes.get node.path with
    | some replaced => if node.path ∈ moved then state else state.take replaced
    | none => state
  (state.put node, node.path :: moved)

def deletedMember (action : Action R) (step : ℕ) (node : Node R) : Node R :=
  recordImportance setting { node with
      lastStep := step
      focusType := some .delete
      focusScale := action.evidenceScale
      lifecycleType := some .delete
      lifecycleStep := some step
      lifecycleScale := action.evidenceScale
      deleteStep := some step
      lastSession := action.sessionId
      lastVendor := action.vendor
      visits := node.visits + 1 } action step

/-- The importance by which the attention on a directory is divided. -/
def attention (node : Node R) : R := sqrt (1 / 20 + node.importance)

def applyScopeAction (state : Files R) (action : Action R) (step : ℕ) : Files R × ℕ :=
  match renamedFrom action with
  | some oldPath =>
    let members := scopeMembers oldPath state
    let state := members.foldl unindexNode state
    let state := members.foldl
      (fun state node => { state with nodes := state.nodes.delete node.path }) state
    ((members.foldl (moveMember setting action oldPath step) (state, [])).1, members.length)
  | none =>
    let members := scopeMembers action.path state
    if action.type = .delete then
      (members.foldl
        (fun state node => state.modifyNode node.path (deletedMember setting action step)) state,
        members.length)
    else
      let total := (members.map attention).sum
      (members.foldl (fun state node => state.modifyNode node.path fun node =>
          { node with
            scopeStep := some step
            scopeScale := if total > 0 then action.evidenceScale * attention node / total else 0 })
        state, members.length)

/-! ### Actions -/

def applyRename (state : Files R) (action : Action R) (step : ℕ) : Files R :=
  let (state, node) :=
    match (renamedFrom action).bind state.nodes.get with
    | some node =>
      let state := match state.nodes.get action.path with
        | some replaced => if replaced.path ≠ node.path then state.take replaced else state
        | none => state
      let state := state.take node
      let node :=
        { node with
          path := action.path
          colorFrom := currentColor node step
          colorTo := setting.colorForPath action.path
          colorStep := step
          deleteStep := none }
      (state.put node, node)
    | none => state.createNode setting action.path action step (some .rename)
  state.modifyNode node.path fun node =>
    recordImportance setting { node with
        visits := node.visits + 2
        lastStep := step
        focusType := some .rename
        focusScale := action.evidenceScale
        lifecycleType := some .rename
        lifecycleStep := some step
        lifecycleScale := action.evidenceScale
        lastSession := action.sessionId
        lastVendor := action.vendor } action step

/-- What a touch does to the node of a file, which was created if it was not there. -/
def touched (action : Action R) (step : ℕ) (node : Node R) : Node R :=
  let node := if action.type ≠ .delete ∧ node.deleteStep ≠ none then
      { node with
        deleteStep := none
        birthStep := step
        lifecycleType := some .create
        lifecycleStep := some step }
    else node
  let node := recordImportance setting { node with
      lastStep := step
      focusType := some action.type
      focusScale := action.evidenceScale
      lastSession := action.sessionId
      lastVendor := action.vendor
      lastStatus := action.status
      visits := node.visits + if action.type = .read ∨ action.type = .open then 1 else 2 }
    action step
  match action.type with
  | .create =>
    { node with
      lifecycleType := some .create
      lifecycleStep := some step
      lifecycleScale := action.evidenceScale }
  | .delete =>
    { node with
      lifecycleType := some .delete
      lifecycleStep := some step
      lifecycleScale := action.evidenceScale
      deleteStep := some step }
  | _ => node

/-- The state after the action, and the number of files in its scope. -/
def applyAction (state : Files R) (action : Action R) (step : ℕ) : Files R × ℕ :=
  if action.isScope then state.applyScopeAction setting action step
  else if action.type = .rename then (state.applyRename setting action step, 0)
  else
    let lifecycle := if action.type = .create then some AccessType.create else none
    let (state, node) := state.createNode setting action.path action step lifecycle
    (state.modifyNode node.path (touched setting action step), 0)

/-- The loop over the actions of an event, with what it adds to `scopeCount`. -/
def applyActions (state : Files R) (actions : List (Action R)) (step : ℕ) : Files R × ℕ :=
  actions.foldl (fun turn action =>
      let (state, count) := turn.1.applyAction setting action step
      (state, turn.2 + count)) (state, 0)

theorem applyActions_cons (files : Files R) (action : Action R) (actions : List (Action R))
    (step : ℕ) :
    (files.applyActions setting (action :: actions) step).1 =
      ((files.applyAction setting action step).1.applyActions setting actions step).1 := by
  have hcount (files : Files R) count count' : (actions.foldl (fun turn action =>
        let (state, count) := turn.1.applyAction setting action step
        (state, turn.2 + count)) (files, count)).1 =
      (actions.foldl (fun turn action =>
        let (state, count) := turn.1.applyAction setting action step
        (state, turn.2 + count)) (files, count')).1 := by
    induction actions generalizing files count count' with
    | nil => rfl
    | cons action actions ih => exact ih _ _ _
  exact hcount _ _ _

def pruneDeleted (state : Files R) (step : ℕ) : Files R :=
  state.nodes.values.foldl (fun state node =>
      match node.deleteStep with
      | none => state
      | some deleted => if step - deleted < transitionSteps then state else state.take node) state

end Files

end Numbers

/-! ### The events -/

/-- A row of `normalizeEvents`. -/
structure Event (R : Type) where
  tsMs : ℤ
  sessionId : String
  vendor : String
  toolName : String
  category : String
  commandName : String
  status : String
  eventStep : ℕ
  actions : List (Action R)

structure Profile (R : Type) where
  share : R
  cellScale : R
  /-- The paths of the nodes. -/
  members : List String
  importance : R
  radius : R

structure Activity (R : Type) where
  score : R
  step : ℕ

structure Focus (R : Type) where
  x : R
  y : R
  lastStep : ℕ
  session : String
  vendor : String
  scale : R

structure VisibleFocus (R : Type) extends Focus R where
  active : Bool

/-- The constants of a model. -/
structure Model (R : Type) extends Setting R where
  repository : String
  events : List (Event R)

/-- `model.state`. A step that the source has as `-1` is `none`. -/
structure State (R : Type) where
  files : Files R
  directoryTransitions : OrderedMap (String × String) R
  lastDirectories : OrderedMap String (OrderedMap String R)
  directoryActivity : OrderedMap String (Activity R)
  directoryOrder : List String
  focus : Option (Focus R)
  visibleFocus : Option (VisibleFocus R)
  currentSession : Option String
  pendingLayoutWeight : R
  scopeCount : ℕ
  refreshedStep : Option ℕ

structure Placement (R : Type) where
  x : R
  y : R
  vx : R
  vy : R

/-- What the forces and the seed of the simulation are made from. -/
structure LayoutInput (R : Type) where
  repository : String
  step : ℕ
  nodes : List (Node R)
  profiles : OrderedMap String (Profile R)
  transitions : OrderedMap (String × String) R
  actions : List (Action R)

/-- Where the simulation leaves the node of each path. -/
abbrev Layout (R : Type) := LayoutInput R → String → Placement R

section Numbers

variable {R : Type} [Field R]

def operationWeights : AccessType → R
  | .open | .read => 1
  | .write | .delete => 2
  | .create | .rename => 5 / 2

/-- What an action counts for. -/
def mass (action : Action R) : R := operationWeights action.type * action.evidenceScale

/-- The area that an action counts for. -/
def actionArea (action : Action R) : String :=
  rootArea (if action.isScope then scopeDisplayPath action.path else action.path)

/-- The sums of the masses by area. -/
def massByArea (actions : List (Action R)) : OrderedMap String R :=
  actions.foldl (fun weights action =>
      weights.set (actionArea action) ((weights.get (actionArea action)).getD 0 + mass action))
    .empty

variable [LinearOrder R]

def restingMinSize : R := 17 / 20

/-! ### The transitions between directories -/

/-- `directoryDistribution` by `rootArea`. -/
def directoryDistribution (event : Event R) : OrderedMap String R :=
  let weights := massByArea event.actions
  let total := weights.values.sum
  if total > 0 then weights.map fun _ weight => weight / total else .empty

def recordDirectoryTransition (event : Event R) (state : State R) : State R :=
  if event.actions = [] then
    { state with lastDirectories := state.lastDirectories.delete event.sessionId }
  else
    let current := directoryDistribution event
    let pairs := match state.lastDirectories.get event.sessionId with
      | none => []
      | some previous =>
        (previous.entries.product current.entries).filter fun (pair : (String × R) × String × R) =>
          pair.1.1 ≠ pair.2.1
    { state with
      directoryTransitions := pairs.foldl
        (fun transitions ((source, sourceWeight), (target, targetWeight)) =>
          transitions.set (source, target)
            ((transitions.get (source, target)).getD 0 + sourceWeight * targetWeight))
        state.directoryTransitions
      lastDirectories := state.lastDirectories.set event.sessionId current }

variable [MathFunctions R]

/-! ### The ranking of the directories -/

def scoreAt (activity : OrderedMap String (Activity R)) (halfLife step : ℕ) (top : String) : R :=
  match activity.get top with
  | none => 0
  | some row => row.score * pow 2 (-((step - row.step : ℕ) : R) / halfLife)

/-- The place that is promoted, and the lead it has. -/
def largestLead (score : String → R) (order : List String) : Option ℕ × R :=
  (order.zip order.tail).zipIdx.foldl (fun best ((previous, challenger), index) =>
      let lead := score challenger - score previous * (1 + 3 / 20)
      if lead > best.2 then (some (index + 1), lead) else best) (none, 0)

def updateDirectoryRanking (setting : Setting R) (event : Event R) (state : State R) (step : ℕ) :
    State R :=
  let (activity, order) := (massByArea event.actions).entries.foldl
    (fun (activity, order) (top, gain) =>
      let score := scoreAt activity setting.importanceHalfLife step top + gain
      (activity.set top { score, step }, if top ∈ order then order else order ++ [top]))
    (state.directoryActivity, state.directoryOrder)
  let swapAt := (largestLead (scoreAt activity setting.importanceHalfLife step) order).1
  { state with
    directoryActivity := activity
    directoryOrder := match swapAt with
      | none => order
      | some index =>
        match order[index - 1]?, order[index]? with
        | some previous, some challenger =>
          (order.set (index - 1) challenger).set index previous
        | _, _ => order }

/-! ### Importance and directories -/

def restingNodeSize (count : ℕ) : R :=
  let density := sqrt (480 / max 480 (count : R))
  clamp (restingMaxSize * density) restingMinSize restingMaxSize

def baseNodeSize (node : Node R) (count : ℕ) : R :=
  let localSize := clamp (restingNodeSize count * node.directoryCellScale) restingMinSize
    restingMaxSize
  clamp (localSize * (31 / 50 + 19 / 50 * sqrt node.importance)) restingMinSize restingMaxSize

def nodeRadius (node : Node R) : R := node.baseSize / 2

/-- The part of the remaining share that is the area's by its weight. -/
def shareOf (weight : String → R) (active : List String) (remaining : R) (top : String) : R :=
  remaining * weight top / (active.map weight).sum

def oversized (weight : String → R) (cap : R) (active : List String) (remaining : R) :
    List String :=
  active.filter fun top => shareOf weight active remaining top > cap

/-- A round of the loop of `cappedDirectoryShares`: the areas that are over the cap get it, and
leave what remains to the others. -/
def capRounds (weight : String → R) (cap : R) (active : List String) (remaining : R)
    (shares : OrderedMap String R) : OrderedMap String R :=
  let capped := oversized weight cap active remaining
  if _h : capped = [] then
    active.foldl (fun shares top => shares.set top (shareOf weight active remaining top)) shares
  else
    capRounds weight cap (active.filter (· ∉ capped)) (remaining - capped.length * cap)
      (capped.foldl (fun shares top => shares.set top cap) shares)
termination_by active.length
decreasing_by
  obtain ⟨top, htop⟩ := List.exists_mem_of_ne_nil _ _h
  have hactive : top ∈ active := List.mem_of_mem_filter htop
  rw [List.unattach_filter (g := fun x => x ∉ capped), List.unattach_attach]
  · exact List.length_filter_lt_length_iff_exists.mpr ⟨top, hactive, by simpa using htop⟩
  · exact fun _ _ => rfl

structure AreaRow (R : Type) where
  top : String
  members : List (Node R)
  meanImportance : R
  weight : R

/-- The nodes of an area together, the areas in the order of their first nodes. -/
def areaRows (nodes : List (Node R)) : List (AreaRow R) :=
  let groups : OrderedMap String (List (Node R)) := nodes.foldl
    (fun groups node => groups.set (rootArea node.path)
      ((groups.get (rootArea node.path)).getD [] ++ [node])) .empty
  groups.entries.map fun (top, members) =>
    let meanImportance := (members.map Node.importance).sum / members.length
    { top, members, meanImportance
      weight := pow ((members.length : R) + 8) (2 / 5) * (4 / 5 + 1 / 5 * meanImportance) }

def cappedDirectoryShares (rows : List (AreaRow R)) : OrderedMap String R :=
  match rows with
  | [row] => (OrderedMap.empty : OrderedMap String R).set row.top 1
  | rows =>
    let cap : R := max (21 / 50) (1 / rows.length + 2 / 25)
    let weight := fun top => ((rows.find? (·.top = top)).map AreaRow.weight).getD 0
    capRounds weight cap (rows.map AreaRow.top) 1 .empty

/-- The most that a directory gets. -/
def directoryCap (R : Type) [Field R] [LinearOrder R] (count : ℕ) : R :=
  max (21 / 50) (1 / count + 2 / 25)

def directoryRadius (share : R) (memberCount : ℕ) (maximum : R) : R :=
  let shareRadius := 17 / 50 * sqrt (share * width * height / pi)
  let contentRadius := 7 + 4 * sqrt (memberCount : R)
  clamp (min shareRadius contentRadius) 8 (max 8 maximum)

def largest : List R → R
  | [] => 0
  | a :: as => as.foldl max a

def percentile95 (nodes : List (Node R)) : R :=
  let ranked := (nodes.map Node.importanceRaw).mergeSort (· ≤ ·)
  max 1 (ranked[(ranked.length - 1) * 95 / 100]?.getD 1)

def directoryProfiles (nodes : List (Node R)) : OrderedMap String (Profile R) :=
  let rows := areaRows nodes
  let shares := cappedDirectoryShares rows
  rows.foldl (fun profiles row =>
      let share := (shares.get row.top).getD (1 / rows.length)
      profiles.set row.top
        { share
          cellScale := clamp (sqrt (share * nodes.length / row.members.length)) (13 / 25) (9 / 5)
          members := row.members.map Node.path
          importance := 7 / 10 * row.meanImportance
            + 3 / 10 * largest (row.members.map Node.importance)
          radius := directoryRadius share row.members.length 140 })
    .empty

/-- The importance of a node at the step, before it is compared with that of the others. -/
def decayedNode (halfLife step : ℕ) (node : Node R) : Node R :=
  { node with importanceRaw := decayedImportance node step halfLife, importanceStep := step }

def rankedNode (p95 : R) (node : Node R) : Node R :=
  { node with importance := clamp (log1p node.importanceRaw / log1p p95) 0 1 }

def sizedNode (profiles : OrderedMap String (Profile R)) (count : ℕ) (node : Node R) : Node R :=
  match profiles.get (rootArea node.path) with
  | none => node
  | some profile =>
    let node :=
      { node with directoryShare := profile.share, directoryCellScale := profile.cellScale }
    { node with baseSize := baseNodeSize node count }

def refreshImportanceAndDirectories (halfLife : ℕ) (files : Files R) (step : ℕ) :
    Files R × OrderedMap String (Profile R) :=
  let nodes := files.nodes.map fun _ node => decayedNode halfLife step node
  let p95 := percentile95 nodes.values
  let nodes := nodes.map fun _ node => rankedNode p95 node
  let profiles := directoryProfiles nodes.values
  let count := nodes.values.length
  ({ files with nodes := nodes.map fun _ node => sizedNode profiles count node }, profiles)

/-! ### The layout -/

def keepInside (node : Node R) : Node R :=
  let margin := max 4 (nodeRadius node + 1)
  let node :=
    if node.x < margin then { node with x := margin, vx := |node.vx| * (1 / 4) }
    else if node.x > width - margin then
      { node with x := width - margin, vx := -|node.vx| * (1 / 4) }
    else node
  if node.y < margin then { node with y := margin, vy := |node.vy| * (1 / 4) }
  else if node.y > height - margin then
    { node with y := height - margin, vy := -|node.vy| * (1 / 4) }
  else node

def placedNode (place : String → Placement R) (node : Node R) : Node R :=
  let placement := place node.path
  keepInside { node with
    x := placement.x, y := placement.y, vx := placement.vx, vy := placement.vy }

variable (model : Model R) (layout : Layout R)

def runForces (state : State R) (actions : List (Action R)) (step : ℕ) : State R :=
  if state.files.nodes.entries = [] then state
  else
    let (files, profiles) :=
      refreshImportanceAndDirectories model.importanceHalfLife state.files step
    let place := layout
      { repository := model.repository
        step
        nodes := files.nodes.values
        profiles
        transitions := state.directoryTransitions
        actions }
    let nodes :=
      if files.nodes.entries.length = 1 then
        files.nodes.map fun _ node =>
          { node with x := width / 2, y := height / 2, vx := 0, vy := 0 }
      else files.nodes.map fun _ node => placedNode place node
    { state with files := { files with nodes }, refreshedStep := some step }

/-! ### The focus -/

/-- The nodes that an action is on, each with its part of what the action counts for. -/
def focusPoints (files : Files R) (action : Action R) : List (Node R × R × R) :=
  let nodes := if action.isScope then files.scopeMembers action.path
    else (files.nodes.get action.path).toList
  let total := (nodes.map Files.attention).sum
  nodes.map fun node =>
    (node, if total > 0 then mass action * Files.attention node / total else 0,
      action.evidenceScale)

def inactive (state : State R) : State R :=
  { state with visibleFocus := state.focus.map fun focus => { focus with active := false } }

/-- `updateFocus`, with what it returns in `visibleFocus`. -/
def updateFocus (state : State R) (event : Event R) : State R :=
  let points := (event.actions.flatMap (focusPoints state.files)).filter fun row => row.2.1 > 0
  if points = [] then inactive state
  else
    let total := (points.map fun row => row.2.1).sum
    let x := (points.map fun row => row.2.1 * row.1.x).sum / total
    let y := (points.map fun row => row.2.1 * row.1.y).sum / total
    let scale := largest (points.map fun row => row.2.2)
    let previous := state.focus.filter (·.session = event.sessionId)
    let blend := 7 / 10 * scale
    let focus : Focus R :=
      { x := match previous with
          | some previous => (1 - blend) * previous.x + blend * x
          | none => x
        y := match previous with
          | some previous => (1 - blend) * previous.y + blend * y
          | none => y
        lastStep := event.eventStep
        session := event.sessionId
        vendor := event.vendor
        scale }
    { state with focus := some focus, visibleFocus := some { focus with active := true } }

/-! ### Steps -/

def enterSession (state : State R) (event : Event R) : State R :=
  if state.currentSession = some event.sessionId then state
  else
    { state with
      files := { state.files with
        nodes := state.files.nodes.map fun _ node => { node with focusType := none } }
      focus := none
      currentSession := some event.sessionId }

def structural (event : Event R) : Bool :=
  event.actions.any fun action =>
    action.type = .create ∨ action.type = .rename ∨ action.type = .delete

/-- The body of the loop of `advanceTo` up to the layout. -/
def playActions (state : State R) (step : ℕ) (event : Event R) : State R :=
  let state := enterSession state event
  let state := { state with files := state.files.pruneDeleted step }
  let state := recordDirectoryTransition event state
  let (files, scopeCount) := state.files.applyActions model.toSetting event.actions step
  let state := { state with files, scopeCount }
  let state := updateDirectoryRanking model.toSetting event state step
  { state with pendingLayoutWeight := state.pendingLayoutWeight + (event.actions.map mass).sum }

/-- The layout is run after the actions of the event. -/
def layoutDue (state : State R) (step : ℕ) (event : Event R) : Prop :=
  let threshold := max 1 (sqrt (state.files.nodes.entries.length : R))
  event.actions ≠ [] ∧ (structural event ∨ state.pendingLayoutWeight ≥ threshold ∨
    step + 1 = model.events.length)

instance (state : State R) (step : ℕ) (event : Event R) :
    Decidable (layoutDue model state step event) :=
  inferInstanceAs (Decidable (_ ∧ (_ ∨ _ ∨ _)))

/-- The body of the loop of `advanceTo`. -/
def playStep (state : State R) (step : ℕ) (event : Event R) : State R :=
  let state := playActions model state step event
  let state := if layoutDue model state step event then
      { runForces model layout state event.actions step with pendingLayoutWeight := 0 }
    else state
  updateFocus state event

/-! ### Requests -/

/-- The state of a model and the number of steps that were played on it: one more than the
`currentStep` of the source. -/
structure Player (R : Type) where
  state : State R
  played : ℕ

/-- `resetModel` -/
def Player.fresh : Player R where
  state :=
    { files := .empty
      directoryTransitions := .empty
      lastDirectories := .empty
      directoryActivity := .empty
      directoryOrder := []
      focus := none
      visibleFocus := none
      currentSession := none
      pendingLayoutWeight := 0
      scopeCount := 0
      refreshedStep := none }
  played := 0

/-- The steps from `played` on, `count` of them. -/
def playSteps (state : State R) (played : ℕ) : ℕ → State R
  | 0 => state
  | count + 1 =>
    let state := match model.events[played]? with
      | some event => playStep model layout state played event
      | none => state
    playSteps state (played + 1) count

end Numbers

end AgentSight.Nebula
