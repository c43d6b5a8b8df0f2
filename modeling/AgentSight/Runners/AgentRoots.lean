import AgentSight.Lib.NearestMarked
import AgentSight.Runners.ProcessSelect

/-!
# The roots of the agents

`process_select.rs` selects the processes that the agents are shown by: a process that looks like
an agent, unless one of the same kind is above it. A nested `codex exec` is shown by itself unless
a `codex exec` is above it. `proc.rs` collects the family of a root, and leaves out what is below
another one.

On parent links without a cycle each process that looks like an agent is in the family of one root.
-/

namespace AgentSight.Runners

open Forest Relation List

/-! ### Labels -/

def labelFromCommandArgv (command : String) : Option String :=
  match Str.splitWhitespace command with
  | [] => none
  | argv0 :: args =>
    (labelFromExecToken argv0).or ((args.filter looksLikeExecPath).findSome? labelFromExecToken)

def knownAgentLabel (comm command : String) : Option String :=
  (labelFromExecToken comm).or (labelFromCommandArgv command)

def isCodexExecutableToken (token : String) : Bool :=
  let token := trimQuotes token
  if token.isEmpty then false
  else
    let lower := Str.toAsciiLowercase token
    ["codex", "codex.exe", "codex-cli", "codex-cli.exe"].contains (execBasename lower)

/-- The loop of `has_codex_exec_subcommand`, with the token before the one it is at. -/
def hasExecAfter : String → List String → Bool
  | _, [] => false
  | previous, token :: tokens =>
    isCodexExecutableToken previous && token == "exec" || hasExecAfter token tokens

def hasCodexExecSubcommand (command : String) : Bool :=
  hasExecAfter "" (Str.splitWhitespace command)

namespace ProcInfo

def agentLabel (info : ProcInfo) : Option String := knownAgentLabel info.comm info.command

def isCodexExecInvocation (info : ProcInfo) : Bool :=
  info.agentLabel == some "codex" && hasCodexExecSubcommand info.command

end ProcInfo

/-! ### Selection -/

namespace ProcSnapshot

variable (snapshot : ProcSnapshot)

/-- The loop of `has_matching_ancestor`, nothing if it is not done after so many rounds. -/
def ancestorWalk (matching : ProcInfo → Bool) : ℕ → ℕ → List ℕ → Option Bool
  | 0, _, _ => none
  | rounds + 1, parentPid, seen =>
    if parentPid = 0 ∨ parentPid ∈ seen then some false
    else
      match snapshot.get parentPid with
      | none => some false
      | some parent =>
        if matching parent then some true
        else ancestorWalk matching rounds parent.ppid (parentPid :: seen)

/-- One round more than there are processes is enough. -/
def hasMatchingAncestor (info : ProcInfo) (matching : ProcInfo → Bool) : Bool :=
  (snapshot.ancestorWalk matching (snapshot.procs.length + 1) info.ppid []).getD false

/-- Which processes above one with the label keep it from being a root. -/
def hides (info : ProcInfo) (label : String) (parent : ProcInfo) : Bool :=
  let nestedCodexExec := label == "codex" && info.isCodexExecInvocation
  parent.agentLabel == some label && (!nestedCodexExec || parent.isCodexExecInvocation)

def isAgentRoot (info : ProcInfo) : Bool :=
  match info.agentLabel with
  | none => false
  | some label => !snapshot.hasMatchingAncestor info (hides info label)

def rootPidsForKnownAgents : List ℕ :=
  (snapshot.procs.filter snapshot.isAgentRoot).map ProcInfo.pid

/-- The links that a family with these roots left out is collected along. -/
def childrenExcluding (excludedRoots : List ℕ) (pid : ℕ) : List ℕ :=
  (snapshot.childrenByPpid pid).filter (· ∉ excludedRoots)

def processFamilyExcluding (root : ℕ) (excludedRoots : List ℕ) : List ℕ :=
  Worklist.search (snapshot.childrenExcluding excludedRoots) snapshot.pids [root] []

/-! ### Parent links -/

def parentPid (pid : ℕ) : Option ℕ := (snapshot.get pid).map ProcInfo.ppid

/-- No process is above itself. -/
def Acyclic : Prop := ∀ pid, ¬ TransGen (Up snapshot.parentPid) pid pid

variable {snapshot} {info parent : ProcInfo} {pid root : ℕ} {matching : ProcInfo → Bool}

theorem acyclic_of_lt (h : ∀ info ∈ snapshot.procs, info.ppid < info.pid) : snapshot.Acyclic := by
  have hlink {a b : ℕ} (hup : Up snapshot.parentPid a b) : b < a := by
    obtain ⟨info, hget, rfl⟩ := Option.map_eq_some_iff.mp hup
    exact pid_of_get hget ▸ h info (mem_of_get hget)
  have hlt {a b : ℕ} (hup : TransGen (Up snapshot.parentPid) a b) : b < a := by
    induction hup with
    | single hstep => exact hlink hstep
    | tail _ hstep ih => exact (hlink hstep).trans ih
  exact fun pid hpid => Nat.lt_irrefl pid (hlt hpid)

theorem get_of_mem (h : info ∈ snapshot.procs) : snapshot.get info.pid = some info := by
  have hfind : ∃ found, snapshot.get info.pid = some found := by
    rw [← Option.isSome_iff_exists, get, find?_isSome]
    exact ⟨info, h, by simp⟩
  obtain ⟨found, hfound⟩ := hfind
  have hsame := inj_on_of_nodup_map snapshot.nodup_pids (mem_of_get hfound) h
    (pid_of_get hfound)
  rw [hfound, hsame]

theorem parentPid_of_mem (h : info ∈ snapshot.procs) :
    snapshot.parentPid info.pid = some info.ppid := by
  rw [parentPid, get_of_mem h, Option.map_some]

theorem mem_pids : pid ∈ snapshot.pids ↔ ∃ info ∈ snapshot.procs, info.pid = pid := by
  simp [pids]

theorem mem_childrenByPpid {child : ℕ} :
    child ∈ snapshot.childrenByPpid pid ↔ snapshot.parentPid child = some pid := by
  rw [childrenByPpid, mem_map, parentPid, Option.map_eq_some_iff]
  constructor
  · rintro ⟨info, hinfo, rfl⟩
    obtain ⟨hmem, hppid⟩ := mem_filter.mp hinfo
    exact ⟨info, get_of_mem hmem, of_decide_eq_true hppid⟩
  · rintro ⟨info, hget, hppid⟩
    exact ⟨info, mem_filter.mpr ⟨mem_of_get hget, decide_eq_true hppid⟩, pid_of_get hget⟩

/-! ### The walk to the ancestors -/

/-- What the walk finds is above where it begins. -/
theorem exists_of_ancestorWalk {rounds : ℕ} {seen : List ℕ}
    (h : snapshot.ancestorWalk matching rounds pid seen = some true) :
    ∃ parent ∈ snapshot.procs, matching parent = true ∧
      ReflTransGen (Up snapshot.parentPid) pid parent.pid := by
  induction rounds generalizing pid seen with
  | zero => cases h
  | succ rounds ih =>
    rw [ancestorWalk] at h
    split at h
    · cases h
    · split at h
      · cases h
      · next parent hget =>
        have hpid := pid_of_get hget
        split at h
        · next hmatching =>
          exact ⟨parent, mem_of_get hget, hmatching, by rw [hpid]⟩
        · obtain ⟨found, hfound, hmatching, hup⟩ := ih h
          refine ⟨found, hfound, hmatching, .head ?_ hup⟩
          rw [Up, ← hpid, parentPid_of_mem (mem_of_get hget)]

/-- The walk sees another process in each round, so it ends. -/
theorem ancestorWalk_ends (matching : ProcInfo → Bool) {rounds : ℕ} {seen : List ℕ}
    (hseen : seen.Nodup) (hsub : seen ⊆ snapshot.procs.map ProcInfo.pid)
    (hrounds : snapshot.procs.length < rounds + seen.length) (pid : ℕ) :
    ∃ found, ∀ more, snapshot.ancestorWalk matching (rounds + more) pid seen = some found := by
  induction rounds generalizing pid seen with
  | zero =>
    have hle := (subperm_of_subset hseen hsub).length_le
    rw [length_map] at hle
    omega
  | succ rounds ih =>
    have hsucc more : rounds + 1 + more = rounds + more + 1 := by omega
    simp only [hsucc, ancestorWalk]
    split
    · exact ⟨false, fun _ => rfl⟩
    · next hnew =>
      rw [not_or] at hnew
      cases hget : snapshot.get pid with
      | none => exact ⟨false, fun _ => rfl⟩
      | some parent =>
        by_cases hmatching : matching parent = true
        · exact ⟨true, fun _ => if_pos hmatching⟩
        · simp only [hmatching]
          have hmem : pid ∈ snapshot.procs.map ProcInfo.pid :=
            mem_map.mpr ⟨parent, mem_of_get hget, pid_of_get hget⟩
          refine ih (nodup_cons.mpr ⟨hnew.2, hseen⟩) (cons_subset.mpr ⟨hmem, hsub⟩) ?_ _
          rw [length_cons]
          omega

theorem ancestorWalk_eq (info : ProcInfo) (matching : ProcInfo → Bool) {rounds : ℕ}
    (hrounds : snapshot.procs.length < rounds) :
    snapshot.ancestorWalk matching rounds info.ppid [] =
      some (snapshot.hasMatchingAncestor info matching) := by
  obtain ⟨found, hfound⟩ : ∃ found, ∀ more, snapshot.ancestorWalk matching
      (snapshot.procs.length + 1 + more) info.ppid [] = some found :=
    ancestorWalk_ends matching nodup_nil (nil_subset _) (by simp) info.ppid
  obtain ⟨more, rfl⟩ : ∃ more, rounds = snapshot.procs.length + 1 + more :=
    ⟨rounds - (snapshot.procs.length + 1), by omega⟩
  rw [hasMatchingAncestor, hfound more, hfound 0, Option.getD_some]

theorem above_of_hasMatchingAncestor (hinfo : info ∈ snapshot.procs)
    (h : snapshot.hasMatchingAncestor info matching = true) :
    ∃ parent ∈ snapshot.procs, matching parent = true ∧
      TransGen (Up snapshot.parentPid) info.pid parent.pid := by
  have hwalk : snapshot.ancestorWalk matching (snapshot.procs.length + 1) info.ppid [] = _ :=
    ancestorWalk_eq info matching (Nat.lt_succ_self _)
  rw [h] at hwalk
  obtain ⟨parent, hparent, hmatching, hup⟩ := exists_of_ancestorWalk hwalk
  exact ⟨parent, hparent, hmatching, .head' (parentPid_of_mem hinfo) hup⟩

/-! ### Families -/

variable {roots : List ℕ}

/-- The family of a root: the processes that it is the nearest selected one of. -/
theorem mem_processFamilyExcluding (hroot : root ∈ roots) :
    pid ∈ snapshot.processFamilyExcluding root roots ↔
      root ∈ snapshot.pids ∧ Nearest snapshot.parentPid (· ∈ roots) pid root := by
  have hedge : Worklist.Edge (snapshot.childrenExcluding roots) snapshot.pids [] =
      fun parent child => snapshot.parentPid child = some parent ∧ child ∉ roots := by
    funext parent child
    simp only [Worklist.Edge, childrenExcluding, mem_filter, mem_childrenByPpid,
      decide_eq_true_eq, not_mem_nil, not_false_eq_true, and_true, eq_iff_iff,
      and_iff_left_iff_imp]
    rintro ⟨hchild, -⟩
    obtain ⟨info, hget, -⟩ := Option.map_eq_some_iff.mp hchild
    exact mem_pids.mpr ⟨info, mem_of_get hget, pid_of_get hget⟩
  rw [processFamilyExcluding, Worklist.mem_search, nearest_iff_descent hroot]
  simp only [mem_singleton, exists_eq_left, Worklist.Reaches, not_mem_nil,
    not_false_eq_true, true_and, hedge]

theorem nodup_rootPidsForKnownAgents : snapshot.rootPidsForKnownAgents.Nodup :=
  snapshot.nodup_pids_filter _

theorem mem_pids_of_mem_roots (h : root ∈ snapshot.rootPidsForKnownAgents) :
    root ∈ snapshot.pids := by
  obtain ⟨info, hinfo, rfl⟩ := mem_map.mp h
  exact mem_pids.mpr ⟨info, (mem_filter.mp hinfo).1, rfl⟩

/-- An agent that is no root has an agent above it. -/
theorem mem_roots_or_above (hinfo : info ∈ snapshot.procs) (hagent : info.agentLabel.isSome) :
    info.pid ∈ snapshot.rootPidsForKnownAgents ∨ ∃ parent ∈ snapshot.procs,
      parent.agentLabel.isSome ∧ TransGen (Up snapshot.parentPid) info.pid parent.pid := by
  obtain ⟨label, hlabel⟩ := Option.isSome_iff_exists.mp hagent
  cases hancestor : snapshot.hasMatchingAncestor info (hides info label) with
  | false =>
    refine .inl (mem_map.mpr ⟨info, mem_filter.mpr ⟨hinfo, ?_⟩, rfl⟩)
    simp [isAgentRoot, hlabel, hancestor, Bool.not_false]
  | true =>
    obtain ⟨parent, hparent, hhides, habove⟩ := above_of_hasMatchingAncestor hinfo hancestor
    refine .inr ⟨parent, hparent, ?_, habove⟩
    rw [hides, Bool.and_eq_true, beq_iff_eq] at hhides
    rw [hhides.1, Option.isSome_some]

/-- Without a cycle an agent has a root at or above it: going up from agent to agent ends. -/
theorem exists_root_of_agent (hacyclic : snapshot.Acyclic) (hinfo : info ∈ snapshot.procs)
    (hagent : info.agentLabel.isSome) :
    ∃ root ∈ snapshot.rootPidsForKnownAgents,
      ReflTransGen (Up snapshot.parentPid) info.pid root := by
  have hwf := wellFounded_up hacyclic snapshot.pids
  suffices hall : ∀ node : snapshot.pids, ∀ info ∈ snapshot.procs, info.pid = node →
      info.agentLabel.isSome → ∃ root ∈ snapshot.rootPidsForKnownAgents,
        ReflTransGen (Up snapshot.parentPid) info.pid root from
    hall ⟨info.pid, mem_pids.mpr ⟨info, hinfo, rfl⟩⟩ info hinfo rfl hagent
  intro node
  induction node using hwf.induction with
  | _ node ih =>
    intro info hinfo hpid hagent
    obtain hroot | ⟨parent, hparent, hagent', habove⟩ := mem_roots_or_above hinfo hagent
    · exact ⟨info.pid, hroot, .refl⟩
    · obtain ⟨root, hroot, hup⟩ := ih ⟨parent.pid, mem_pids.mpr ⟨parent, hparent, rfl⟩⟩
        (hpid ▸ habove) parent hparent rfl hagent'
      exact ⟨root, hroot, habove.to_reflTransGen.trans hup⟩

end ProcSnapshot

open ProcSnapshot

variable {snapshot : ProcSnapshot}

theorem disjoint_families {root root' : ℕ} (hroot : root ∈ snapshot.rootPidsForKnownAgents)
    (hroot' : root' ∈ snapshot.rootPidsForKnownAgents) (hne : root ≠ root') :
    (snapshot.processFamilyExcluding root snapshot.rootPidsForKnownAgents).Disjoint
      (snapshot.processFamilyExcluding root' snapshot.rootPidsForKnownAgents) := by
  intro pid hpid hpid'
  have hnearest := ((mem_processFamilyExcluding hroot).mp hpid).2
  have hnearest' := ((mem_processFamilyExcluding hroot').mp hpid').2
  exact hne (hnearest.unique hnearest')

/-- The families of the roots have no process in common, and none twice. -/
theorem nodup_families : (snapshot.rootPidsForKnownAgents.flatMap fun root =>
    snapshot.processFamilyExcluding root snapshot.rootPidsForKnownAgents).Nodup := by
  rw [nodup_flatMap]
  exact ⟨fun root _ => Worklist.nodup_search,
    nodup_rootPidsForKnownAgents.imp_of_mem fun hroot hroot' => disjoint_families hroot hroot'⟩

/-- **The agent roots partition the agents.** On parent links without a cycle each agent is in the
family of one root, its nearest one. On any links no process is in two families or in one twice, and
the loops of both functions end: the walk to the ancestors after a round for each process and one
more, the collection of a family after some number of rounds. -/
theorem agent_roots_partition (snapshot : ProcSnapshot) :
    (snapshot.Acyclic → ∀ info ∈ snapshot.procs, info.agentLabel.isSome →
      ∃ root ∈ snapshot.rootPidsForKnownAgents,
        Nearest snapshot.parentPid (· ∈ snapshot.rootPidsForKnownAgents) info.pid root ∧
          ∀ root' ∈ snapshot.rootPidsForKnownAgents,
            info.pid ∈ snapshot.processFamilyExcluding root' snapshot.rootPidsForKnownAgents ↔
              root' = root) ∧
      (∀ root ∈ snapshot.rootPidsForKnownAgents, ∀ root' ∈ snapshot.rootPidsForKnownAgents,
        root ≠ root' →
          (snapshot.processFamilyExcluding root snapshot.rootPidsForKnownAgents).Disjoint
            (snapshot.processFamilyExcluding root' snapshot.rootPidsForKnownAgents)) ∧
      (snapshot.rootPidsForKnownAgents.flatMap fun root =>
        snapshot.processFamilyExcluding root snapshot.rootPidsForKnownAgents).Nodup ∧
      (∀ (info : ProcInfo) (matching : ProcInfo → Bool) (rounds : ℕ),
        snapshot.procs.length < rounds → snapshot.ancestorWalk matching rounds info.ppid [] =
            some (snapshot.hasMatchingAncestor info matching)) ∧
      ∀ (root : ℕ) (excludedRoots : List ℕ), ∃ bound, ∀ rounds, bound ≤ rounds →
        Worklist.searchWithin (snapshot.childrenExcluding excludedRoots) snapshot.pids rounds
          [root] [] = some (snapshot.processFamilyExcluding root excludedRoots) := by
  refine ⟨fun hacyclic info hinfo hagent => ?_,
    fun root hroot root' hroot' hne => disjoint_families hroot hroot' hne, nodup_families,
    fun info matching rounds hrounds => ancestorWalk_eq info matching hrounds,
    fun root excludedRoots => Worklist.exists_searchWithin _ _ _ _⟩
  obtain ⟨top, htop, hup⟩ := exists_root_of_agent hacyclic hinfo hagent
  obtain ⟨root, hnearest⟩ :
      ∃ root, Nearest snapshot.parentPid (· ∈ snapshot.rootPidsForKnownAgents) info.pid root :=
    exists_nearest hup htop
  refine ⟨root, hnearest.isMarked, hnearest, fun root' hroot' => ?_⟩
  rw [mem_processFamilyExcluding hroot']
  constructor
  · rintro ⟨-, hnearest'⟩
    exact hnearest'.unique hnearest
  · rintro rfl
    exact ⟨mem_pids_of_mem_roots hroot', hnearest⟩

/-- An app server, and below it a `codex exec` with the program that it starts. -/
def codexSnapshot : ProcSnapshot where
  uptimeS := 100
  procs :=
    [⟨1, 0, 1, "node", "node /opt/node/bin/codex app-server", 0, 0, 0, 0, 1, 0, 0⟩,
      ⟨2, 1, 1, "node", "node /opt/node/bin/codex exec hello", 0, 0, 0, 0, 1, 0, 0⟩,
      ⟨3, 2, 1, "codex", "/opt/codex/bin/codex exec hello", 0, 0, 0, 0, 1, 0, 0⟩]
  sorted := by decide

example : codexSnapshot.rootPidsForKnownAgents = [1, 2] := by decide +kernel

theorem agent_roots_partition_codex : codexSnapshot.Acyclic ∧
    ∃ root ∈ codexSnapshot.rootPidsForKnownAgents,
      Nearest codexSnapshot.parentPid (· ∈ codexSnapshot.rootPidsForKnownAgents) 3 root := by
  have hacyclic : codexSnapshot.Acyclic := acyclic_of_lt (by decide)
  obtain ⟨root, hroot, hnearest, -⟩ := (agent_roots_partition codexSnapshot).1 hacyclic
    ⟨3, 2, 1, "codex", "/opt/codex/bin/codex exec hello", 0, 0, 0, 0, 1, 0, 0⟩ (by decide)
    (by decide +kernel)
  exact ⟨hacyclic, root, hroot, hnearest⟩

end AgentSight.Runners
