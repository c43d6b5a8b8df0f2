import AgentSight.Lib.KeyedTable
import AgentSight.Lib.Worklist
import AgentSight.View.Row

/-!
# Attribution of a live capture

`apply_live_capture` adds the audit counters of every captured process to the rows of the top
view. A row stands for a live root, and takes what was captured of the processes below it. The
rows themselves leave out what is below another live root; the attribution does not, so where one
agent runs under another the processes of the inner one are counted in both rows.
-/

namespace AgentSight.Collector

open KeyedTable Relation List
open View (AuditEventRow)

/-! ### Process families -/

structure ProcInfo where
  pid : ℕ
  ppid : ℕ

/-- The processes by their pids. -/
structure ProcSnapshot where
  procs : List ProcInfo
  nodup : (procs.map ProcInfo.pid).Nodup

namespace ProcSnapshot

def pids (sample : ProcSnapshot) : Finset ℕ := (sample.procs.map ProcInfo.pid).toFinset

def childrenByPpid (sample : ProcSnapshot) (ppid : ℕ) : List ℕ :=
  (sample.procs.filter (·.ppid = ppid)).map ProcInfo.pid

def processFamilyExcluding (sample : ProcSnapshot) (root : ℕ) (excludedRoots : List ℕ) : List ℕ :=
  Worklist.search (fun pid => (sample.childrenByPpid pid).filter (· ∉ excludedRoots)) sample.pids
    [root] []

def processFamily (sample : ProcSnapshot) (root : ℕ) : List ℕ :=
  sample.processFamilyExcluding root []

end ProcSnapshot

/-! ### Audit counters -/

structure AuditCounters where
  processExecs : ℕ
  processExits : ℕ
  processExitSuccess : ℕ
  processExitFailure : ℕ
  fileEvents : ℕ
  networkEvents : ℕ
  uniqueFiles : Finset String
  deriving DecidableEq

namespace AuditCounters

def default : AuditCounters := ⟨0, 0, 0, 0, 0, 0, ∅⟩

def observe (counters : AuditCounters) (row : AuditEventRow) : AuditCounters :=
  if row.auditType = "process" ∧ row.action = some "exec" then
    { counters with processExecs := counters.processExecs + 1 }
  else if row.auditType = "process" ∧ row.action = some "exit" then
    let counters := { counters with processExits := counters.processExits + 1 }
    if row.status = some "success" then
      { counters with processExitSuccess := counters.processExitSuccess + 1 }
    else if row.status = some "failure" then
      { counters with processExitFailure := counters.processExitFailure + 1 }
    else counters
  else if row.auditType = "file" then
    { counters with
      fileEvents := counters.fileEvents + 1
      uniqueFiles :=
        match row.target with
        | some target => insert target counters.uniqueFiles
        | none => counters.uniqueFiles }
  else if row.auditType = "network" then
    { counters with networkEvents := counters.networkEvents + 1 }
  else counters

/-- A map from pids to counters. -/
abbrev Table := List (ℕ × AuditCounters)

def observeRow (byPid : Table) (row : AuditEventRow) : Table :=
  match row.pid with
  | none => byPid
  | some pid =>
    upsert Prod.fst byPid (pid, default.observe row) fun entry => (entry.1, entry.2.observe row)

def byPid (rows : List AuditEventRow) : Table := rows.foldl observeRow []

def Table.get (byPid : Table) (pid : ℕ) : Option AuditCounters :=
  (find Prod.fst byPid pid).map Prod.snd

/-- Whether anything was counted that a row shows. -/
def counted (counters : AuditCounters) : Bool :=
  0 < counters.processExecs || 0 < counters.processExitFailure || 0 < counters.fileEvents ||
    0 < counters.networkEvents

end AuditCounters

/-! ### Attribution -/

/-- The fields of a row that the attribution reads or writes. -/
structure AgentTopRow where
  pid : Option ℕ
  execs : ℕ
  failures : ℕ
  files : ℕ
  network : ℕ
  unattributed : ℕ
  trace : String
  deriving DecidableEq

namespace AgentTopRow

def traceTokens (row : AgentTopRow) : List String := row.trace.splitOn "+"

/-- `evidence().ebpf`. -/
def ebpf (row : AgentTopRow) : Bool :=
  row.traceTokens.any fun token => token = "ebpf" || token = "ebpf_file"

def addTrace (row : AgentTopRow) (token : String) : AgentTopRow :=
  { row with
    trace :=
      if token ∈ row.traceTokens then row.trace
      else (if row.trace.isEmpty then row.trace else row.trace ++ "+") ++ token }

end AgentTopRow

section Apply

variable (sample : ProcSnapshot) (byPid : AuditCounters.Table)

def addCounters (counters : AuditCounters) (pid : ℕ) : AuditCounters :=
  match byPid.get pid with
  | some pidCounters =>
    { counters with
      processExecs := counters.processExecs + pidCounters.processExecs
      processExitFailure := counters.processExitFailure + pidCounters.processExitFailure
      fileEvents := counters.fileEvents + pidCounters.fileEvents
      networkEvents := counters.networkEvents + pidCounters.networkEvents }
  | none => counters

/-- The processes that a row takes the counters of. -/
def rowFamily (row : AgentTopRow) : List ℕ :=
  match row.pid with
  | none => []
  | some rootPid => sample.processFamily rootPid

/-- One round of the loop over the rows. -/
def attributeRow (row : AgentTopRow) : AgentTopRow :=
  let counters := (rowFamily sample row).foldl (addCounters byPid) .default
  if !counters.counted then row
  else
    { row with
      execs := row.execs + counters.processExecs
      failures := row.failures + counters.processExitFailure
      files := row.files + counters.fileEvents
      network := row.network + counters.networkEvents }.addTrace "ebpf"

def attributed (rows : List AgentTopRow) : List ℕ :=
  rows.flatMap fun row => (rowFamily sample row).filter fun pid => (byPid.get pid).isSome

def unattributedPids (rows : List AgentTopRow) : List ℕ :=
  (byPid.filter fun entry => entry.1 ∉ attributed sample byPid rows && entry.2.counted).map Prod.fst

/-- The first row with eBPF evidence tells how many pids are unattributed. -/
def addUnattributed (unattributed : ℕ) : List AgentTopRow → List AgentTopRow
  | [] => []
  | row :: rows =>
    if row.ebpf then { row with unattributed := row.unattributed + unattributed } :: rows
    else row :: addUnattributed unattributed rows

end Apply

def applyLiveCapture (rows : List AgentTopRow) (sample : ProcSnapshot)
    (auditEvents : List AuditEventRow) : List AgentTopRow :=
  let byPid := AuditCounters.byPid auditEvents
  if byPid.isEmpty then rows
  else
    let unattributed := (unattributedPids sample byPid rows).length
    let rows := rows.map (attributeRow sample byPid)
    if unattributed = 0 then rows else addUnattributed unattributed rows

/-! ### Families as paths -/

namespace ProcSnapshot

variable {sample : ProcSnapshot} {root pid : ℕ} {excludedRoots : List ℕ}

/-- A link down to a process that is no excluded root. -/
def Child (sample : ProcSnapshot) (excludedRoots : List ℕ) (parent child : ℕ) : Prop :=
  child ∈ sample.childrenByPpid parent ∧ child ∉ excludedRoots

theorem mem_pids_of_child {parent child : ℕ} (h : child ∈ sample.childrenByPpid parent) :
    child ∈ sample.pids := by
  obtain ⟨info, hinfo, rfl⟩ := mem_map.mp h
  exact mem_toFinset.mpr (mem_map_of_mem (mem_filter.mp hinfo).1)

theorem mem_processFamilyExcluding : pid ∈ sample.processFamilyExcluding root excludedRoots ↔
    root ∈ sample.pids ∧ ReflTransGen (sample.Child excludedRoots) root pid := by
  rw [processFamilyExcluding, Worklist.mem_search]
  constructor
  · rintro ⟨a, ha, hroot, -, hpath⟩
    obtain rfl := mem_singleton.mp ha
    refine ⟨hroot, hpath.lift id fun a b hedge => ?_⟩
    exact ⟨(mem_filter.mp hedge.1).1, by simpa using (mem_filter.mp hedge.1).2⟩
  · rintro ⟨hroot, hpath⟩
    refine ⟨root, mem_singleton_self _, hroot, not_mem_nil, ?_⟩
    refine hpath.lift id fun a b hchild => ⟨?_, mem_pids_of_child hchild.1, not_mem_nil⟩
    exact mem_filter.mpr ⟨hchild.1, by simpa using hchild.2⟩

theorem nodup_processFamilyExcluding : (sample.processFamilyExcluding root excludedRoots).Nodup :=
  Worklist.nodup_search

theorem processFamilyExcluding_subset :
    sample.processFamilyExcluding root excludedRoots ⊆ sample.processFamily root := by
  intro pid hpid
  obtain ⟨hroot, hpath⟩ := mem_processFamilyExcluding.mp hpid
  exact mem_processFamilyExcluding.mpr
    ⟨hroot, hpath.lift id fun _ _ hchild => ⟨hchild.1, not_mem_nil⟩⟩

/-- A process below a root has a nearest root. -/
theorem exists_nearest (hroot : root ∈ excludedRoots) (h : pid ∈ sample.processFamily root) :
    ∃ nearest ∈ excludedRoots, pid ∈ sample.processFamilyExcluding nearest excludedRoots := by
  obtain ⟨hmem, hpath⟩ := mem_processFamilyExcluding.mp h
  induction hpath with
  | refl => exact ⟨root, hroot, mem_processFamilyExcluding.mpr ⟨hmem, .refl⟩⟩
  | @tail parent child hparent hchild ih =>
    obtain ⟨nearest, hnearest, hpath⟩ := ih (mem_processFamilyExcluding.mpr ⟨hmem, hparent⟩)
    by_cases hexcluded : child ∈ excludedRoots
    · exact ⟨child, hexcluded, mem_processFamilyExcluding.mpr ⟨mem_pids_of_child hchild.1, .refl⟩⟩
    · obtain ⟨hnearestMem, hpath⟩ := mem_processFamilyExcluding.mp hpath
      exact ⟨nearest, hnearest, mem_processFamilyExcluding.mpr
        ⟨hnearestMem, hpath.tail ⟨hchild.1, hexcluded⟩⟩⟩

theorem child_parent_unique {a b child : ℕ} (ha : child ∈ sample.childrenByPpid a)
    (hb : child ∈ sample.childrenByPpid b) : a = b := by
  obtain ⟨info, hinfo, hpid⟩ := mem_map.mp ha
  obtain ⟨info', hinfo', hpid'⟩ := mem_map.mp hb
  rw [mem_filter, decide_eq_true_eq] at hinfo hinfo'
  have heq := inj_on_of_nodup_map sample.nodup hinfo.1 hinfo'.1 (hpid.trans hpid'.symm)
  rw [← hinfo.2, ← hinfo'.2, heq]

/-- It has one only. -/
theorem nearest_unique {root' : ℕ} (hroot : root ∈ excludedRoots) (hroot' : root' ∈ excludedRoots)
    (h : pid ∈ sample.processFamilyExcluding root excludedRoots)
    (h' : pid ∈ sample.processFamilyExcluding root' excludedRoots) : root = root' := by
  obtain ⟨-, hpath⟩ := mem_processFamilyExcluding.mp h
  obtain ⟨-, hpath'⟩ := mem_processFamilyExcluding.mp h'
  clear h h'
  induction hpath with
  | refl =>
    cases hpath' with
    | refl => rfl
    | tail _ hchild => exact absurd hroot hchild.2
  | tail _ hchild ih =>
    cases hpath' with
    | refl => exact absurd hroot' hchild.2
    | tail hpath' hchild' =>
      obtain rfl := child_parent_unique hchild.1 hchild'.1
      exact ih hpath'

end ProcSnapshot

/-! ### What is counted -/

/-- The counters that a row shows. -/
inductive Counter where
  | execs
  | failures
  | files
  | network
  deriving DecidableEq

/-- Whether an audit event counts. -/
def Counter.counts (row : AuditEventRow) : Counter → Bool
  | execs => row.auditType = "process" && row.action = some "exec"
  | failures =>
    row.auditType = "process" && row.action = some "exit" && row.status = some "failure"
  | files => row.auditType = "file"
  | network => row.auditType = "network"

def AuditCounters.count (counters : AuditCounters) : Counter → ℕ
  | .execs => counters.processExecs
  | .failures => counters.processExitFailure
  | .files => counters.fileEvents
  | .network => counters.networkEvents

def AgentTopRow.count (row : AgentTopRow) : Counter → ℕ
  | .execs => row.execs
  | .failures => row.failures
  | .files => row.files
  | .network => row.network

/-- How often a process counts in a capture. -/
def pidCount (auditEvents : List AuditEventRow) (c : Counter) (pid : ℕ) : ℕ :=
  auditEvents.countP fun row => row.pid = some pid && c.counts row

def capturedPids (auditEvents : List AuditEventRow) : Finset ℕ :=
  (auditEvents.filterMap AuditEventRow.pid).toFinset

namespace AuditCounters

variable {auditEvents : List AuditEventRow} {c : Counter} {pid : ℕ} {table : Table}

theorem count_observe (counters : AuditCounters) (row : AuditEventRow) (c : Counter) :
    (counters.observe row).count c = counters.count c + if c.counts row then 1 else 0 := by
  unfold observe
  split
  · next h => cases c <;> simp [count, Counter.counts, h]
  · next hexec =>
    split
    · next h =>
      split
      · next hstatus => cases c <;> simp [count, Counter.counts, h, hstatus]
      · split
        · next hstatus => cases c <;> simp [count, Counter.counts, h, hstatus]
        · next hstatus => cases c <;> simp [count, Counter.counts, h, hstatus]
    · next hexit =>
      have hfailures : ¬ (row.auditType = "process" ∧ row.action = some "exit" ∧
          row.status = some "failure") := fun h => hexit ⟨h.1, h.2.1⟩
      split
      · next h => cases c <;> simp [count, Counter.counts, h]
      · next hfile =>
        split
        · next h => cases c <;> simp [count, Counter.counts, h]
        · next hnetwork =>
          cases c <;> simp [count, Counter.counts, hfile, hnetwork, hexec, and_assoc, hfailures]

theorem get_observeRow (table : Table) (row : AuditEventRow) (pid : ℕ) :
    (observeRow table row).get pid =
      if row.pid = some pid then some (((table.get pid).getD default).observe row)
      else table.get pid := by
  cases hpid : row.pid with
  | none => simp [observeRow, hpid]
  | some k =>
    simp only [observeRow, hpid, Table.get, upsert, Option.some.injEq]
    cases hfind : find Prod.fst table k with
    | none =>
      rw [if_neg (by simp), find_concat]
      by_cases hk : k = pid
      · subst hk
        simp [hfind]
      · simp [hk]
    | some entry =>
      rw [if_pos (show (some entry).isSome = true from rfl),
        find_update (f := fun e : ℕ × AuditCounters => (e.1, e.2.observe row)) fun _ => rfl]
      by_cases hk : k = pid
      · subst hk
        simp [hfind]
      · simp [hk, Ne.symm hk]

theorem get_byPid (auditEvents : List AuditEventRow) (pid : ℕ) :
    ((byPid auditEvents).get pid).isSome = decide (pid ∈ capturedPids auditEvents) ∧
      ∀ c, (((byPid auditEvents).get pid).getD default).count c = pidCount auditEvents c pid := by
  induction auditEvents using List.reverseRecOn with
  | nil =>
    refine ⟨rfl, fun c => ?_⟩
    cases c <;> rfl
  | append_singleton auditEvents row ih =>
    have hstep : byPid (auditEvents ++ [row]) = observeRow (byPid auditEvents) row :=
      foldl_append
    rw [hstep, get_observeRow]
    by_cases hpid : row.pid = some pid
    · rw [if_pos hpid]
      refine ⟨by simp [capturedPids, hpid], fun c => ?_⟩
      rw [Option.getD_some, count_observe, ih.2 c]
      simp [pidCount, countP_append, hpid]
    · rw [if_neg hpid, ih.1]
      refine ⟨?_, fun c => ?_⟩
      · simp only [capturedPids, mem_toFinset, filterMap_append, mem_append]
        simp [hpid]
      · rw [ih.2 c]
        simp [pidCount, countP_append, hpid]

theorem nodup_keys_byPid (auditEvents : List AuditEventRow) :
    ((byPid auditEvents).map Prod.fst).Nodup := by
  induction auditEvents using List.reverseRecOn with
  | nil => exact nodup_nil
  | append_singleton auditEvents row ih =>
    have hstep : byPid (auditEvents ++ [row]) = observeRow (byPid auditEvents) row :=
      foldl_append
    rw [hstep, observeRow]
    cases row.pid with
    | none => exact ih
    | some pid =>
      dsimp only
      rw [upsert]
      split
      · rw [update, List.map_map]
        refine (congrArg List.Nodup (map_congr_left fun entry _ => ?_)).mpr ih
        dsimp only [Function.comp_apply]
        split <;> rfl
      · next hnew =>
        rw [find_isSome] at hnew
        rw [map_append, nodup_append]
        refine ⟨ih, nodup_singleton _, fun a ha b hb hab => hnew ?_⟩
        obtain ⟨entry, hentry, rfl⟩ := mem_map.mp ha
        exact ⟨entry, hentry, hab.trans (mem_singleton.mp hb)⟩

theorem counted_iff (counters : AuditCounters) :
    counters.counted = true ↔ ∃ c, counters.count c ≠ 0 := by
  simp only [counted, Bool.or_eq_true, decide_eq_true_eq, Nat.pos_iff_ne_zero]
  constructor
  · rintro (((h | h) | h) | h)
    · exact ⟨.execs, h⟩
    · exact ⟨.failures, h⟩
    · exact ⟨.files, h⟩
    · exact ⟨.network, h⟩
  · rintro ⟨c, h⟩
    cases c with
    | execs => exact .inl (.inl (.inl h))
    | failures => exact .inl (.inl (.inr h))
    | files => exact .inl (.inr h)
    | network => exact .inr h

end AuditCounters

/-! ### What the rows take -/

section Rows

variable {sample : ProcSnapshot} {auditEvents : List AuditEventRow} {rows : List AgentTopRow}
  {row : AgentTopRow} {c : Counter} {pid : ℕ}

theorem pidCount_eq_zero (h : pid ∉ capturedPids auditEvents) (c : Counter) :
    pidCount auditEvents c pid = 0 := by
  refine countP_eq_zero.mpr fun row hrow hcounts => h ?_
  rw [Bool.and_eq_true, decide_eq_true_eq] at hcounts
  exact mem_toFinset.mpr (mem_filterMap.mpr ⟨row, hrow, hcounts.1⟩)

/-- The counts of all captured processes are those of the capture. -/
theorem sum_pidCount {S : Finset ℕ} (h : ∀ row ∈ auditEvents, ∀ pid, row.pid = some pid → pid ∈ S)
    (c : Counter) : ∑ pid ∈ S, pidCount auditEvents c pid =
      auditEvents.countP fun row => row.pid.isSome && c.counts row := by
  induction auditEvents with
  | nil => simp [pidCount]
  | cons row auditEvents ih =>
    have hrest := ih fun row' hrow' => h row' (mem_cons_of_mem _ hrow')
    have hrow : ∑ pid ∈ S, (if row.pid = some pid && c.counts row then 1 else 0) =
        if row.pid.isSome && c.counts row then 1 else 0 := by
      cases hpid : row.pid with
      | none => simp
      | some pid =>
        have hmem := h row (mem_cons_self ..) pid hpid
        rw [Finset.sum_eq_single_of_mem pid hmem fun other _ hne => by simp [Ne.symm hne]]
        simp
    simp only [pidCount, countP_cons] at hrest ⊢
    rw [Finset.sum_add_distrib, hrest, hrow]

theorem count_foldl_addCounters (family : List ℕ) (counters : AuditCounters) (c : Counter) :
    (family.foldl (addCounters (AuditCounters.byPid auditEvents)) counters).count c =
      counters.count c + (family.map (pidCount auditEvents c)).sum := by
  induction family generalizing counters with
  | nil => rfl
  | cons pid family ih =>
    have hadd : (addCounters (AuditCounters.byPid auditEvents) counters pid).count c =
        counters.count c + pidCount auditEvents c pid := by
      rw [← (AuditCounters.get_byPid auditEvents pid).2 c, addCounters]
      cases AuditCounters.Table.get (AuditCounters.byPid auditEvents) pid with
      | none => cases c <;> rfl
      | some pidCounters => cases c <;> rfl
    rw [foldl_cons, ih, hadd, map_cons, sum_cons, Nat.add_assoc]

/-- A row takes the counts of its family. -/
theorem count_attributeRow (row : AgentTopRow) (c : Counter) :
    (attributeRow sample (AuditCounters.byPid auditEvents) row).count c =
      row.count c + ((rowFamily sample row).map (pidCount auditEvents c)).sum := by
  have hcount c :
      ((rowFamily sample row).foldl (addCounters (AuditCounters.byPid auditEvents)) .default).count
        c = AuditCounters.default.count c +
          ((rowFamily sample row).map (pidCount auditEvents c)).sum :=
    count_foldl_addCounters (rowFamily sample row) .default c
  have hzero c : AuditCounters.default.count c = 0 := by cases c <;> rfl
  simp only [hzero, Nat.zero_add] at hcount
  rw [← hcount c, attributeRow]
  split
  · next hnone =>
    rw [Bool.not_eq_true', Bool.eq_false_iff, Ne, AuditCounters.counted_iff, not_exists] at hnone
    rw [not_not.mp (hnone c), Nat.add_zero]
  · cases c <;> rfl

theorem count_addUnattributed (n : ℕ) (rows : List AgentTopRow) (c : Counter) :
    (addUnattributed n rows).map (AgentTopRow.count · c) = rows.map (AgentTopRow.count · c) := by
  induction rows with
  | nil => rfl
  | cons row rows ih =>
    rw [addUnattributed]
    split
    · cases c <;> rfl
    · rw [map_cons, map_cons, ih]

theorem byPid_eq_nil (h : (AuditCounters.byPid auditEvents).isEmpty = true) :
    capturedPids auditEvents = ∅ := by
  refine Finset.eq_empty_of_forall_notMem fun pid hpid => ?_
  have hget := (AuditCounters.get_byPid auditEvents pid).1
  rw [isEmpty_iff.mp h, decide_eq_true hpid] at hget
  cases hget

/-- **What the attribution adds to every row.** -/
theorem count_applyLiveCapture (rows : List AgentTopRow) (c : Counter) :
    (applyLiveCapture rows sample auditEvents).map (AgentTopRow.count · c) = rows.map fun row =>
        row.count c + ((rowFamily sample row).map (pidCount auditEvents c)).sum := by
  rw [applyLiveCapture]
  split
  · next hempty =>
    have hzero : pidCount auditEvents c = fun _ => 0 :=
      funext fun pid => pidCount_eq_zero (by simp [byPid_eq_nil hempty]) c
    simp [hzero]
  · have hattributed : (rows.map (attributeRow sample (AuditCounters.byPid auditEvents))).map
        (AgentTopRow.count · c) = rows.map fun row =>
          row.count c + ((rowFamily sample row).map (pidCount auditEvents c)).sum := by
      rw [List.map_map]
      exact map_congr_left fun row _ => count_attributeRow row c
    dsimp only
    split
    · exact hattributed
    · rw [count_addUnattributed]
      exact hattributed

theorem mem_attributed {byPid : AuditCounters.Table} : pid ∈ attributed sample byPid rows ↔
    (byPid.get pid).isSome = true ∧ ∃ row ∈ rows, pid ∈ rowFamily sample row := by
  simp only [attributed, mem_flatMap, mem_filter]
  constructor
  · rintro ⟨row, hrow, hfamily, hget⟩
    exact ⟨hget, row, hrow, hfamily⟩
  · rintro ⟨hget, row, hrow, hfamily⟩
    exact ⟨row, hrow, hfamily, hget⟩

/-- The unattributed pids are those that count and are in no family. -/
theorem mem_unattributedPids :
    pid ∈ unattributedPids sample (AuditCounters.byPid auditEvents) rows ↔
      (∃ c, pidCount auditEvents c pid ≠ 0) ∧ ∀ row ∈ rows, pid ∉ rowFamily sample row := by
  obtain ⟨hcaptured, hcount⟩ := AuditCounters.get_byPid auditEvents pid
  have hunique : Unique Prod.fst (AuditCounters.byPid auditEvents) := fun a ha b hb heq =>
    inj_on_of_nodup_map (AuditCounters.nodup_keys_byPid auditEvents) ha hb heq
  simp only [unattributedPids, mem_map, mem_filter, Bool.and_eq_true, decide_eq_true_eq]
  constructor
  · rintro ⟨entry, ⟨hentry, hnot, hcounted⟩, rfl⟩
    have hget : AuditCounters.Table.get (AuditCounters.byPid auditEvents) entry.1 =
        some entry.2 := by
      rw [AuditCounters.Table.get, (find_eq_some hunique).mpr ⟨hentry, rfl⟩]
      rfl
    obtain ⟨c, hc⟩ := (AuditCounters.counted_iff _).mp hcounted
    rw [hget] at hcount
    refine ⟨⟨c, hcount c ▸ hc⟩, fun row hrow hfamily => hnot ?_⟩
    exact mem_attributed.mpr ⟨Option.isSome_of_eq_some hget, row, hrow, hfamily⟩
  · rintro ⟨⟨c, hc⟩, hfree⟩
    have hmem : pid ∈ capturedPids auditEvents := by
      by_contra hnot
      exact hc (pidCount_eq_zero hnot c)
    rw [decide_eq_true hmem] at hcaptured
    obtain ⟨entry, hfind, -⟩ := Option.map_eq_some_iff.mp (Option.some_get hcaptured).symm
    obtain ⟨hentry, rfl⟩ := mem_of_find hfind
    refine ⟨entry, ⟨hentry, fun hattributed => ?_, ?_⟩, rfl⟩
    · obtain ⟨-, row, hrow, hfamily⟩ := mem_attributed.mp hattributed
      exact hfree row hrow hfamily
    · refine (AuditCounters.counted_iff _).mpr ⟨c, ?_⟩
      rw [← hcount c, AuditCounters.Table.get, hfind] at hc
      exact hc

theorem nodup_unattributedPids :
    (unattributedPids sample (AuditCounters.byPid auditEvents) rows).Nodup :=
  (AuditCounters.nodup_keys_byPid auditEvents).sublist (filter_sublist.map _)

theorem nodup_rowFamily : (rowFamily sample row).Nodup := by
  unfold rowFamily
  split
  · exact nodup_nil
  · exact ProcSnapshot.nodup_processFamilyExcluding

/-- The rows together take a process as often as it is in a family. -/
theorem sum_rowFamily {g : ℕ → ℕ} {S : Finset ℕ} (hg : ∀ pid ∉ S, g pid = 0) :
    (rows.map fun row => ((rowFamily sample row).map g).sum).sum =
      ∑ pid ∈ S, rows.countP (fun row => pid ∈ rowFamily sample row) * g pid := by
  induction rows with
  | nil => simp
  | cons row rows ih =>
    have hfamily : ((rowFamily sample row).map g).sum =
        ∑ pid ∈ S, (if pid ∈ rowFamily sample row then g pid else 0) := by
      rw [← sum_toFinset g nodup_rowFamily, ← Finset.sum_filter]
      refine (Finset.sum_subset (fun pid hpid => ?_) fun pid hpid hnot => ?_).symm
      · exact mem_toFinset.mpr (Finset.mem_filter.mp hpid).2
      · refine hg pid fun hS => hnot (Finset.mem_filter.mpr ⟨hS, mem_toFinset.mp hpid⟩)
    rw [map_cons, sum_cons, ih, hfamily, ← Finset.sum_add_distrib]
    refine Finset.sum_congr rfl fun pid _ => ?_
    by_cases hpid : pid ∈ rowFamily sample row
    · simp [hpid, Nat.add_mul, Nat.add_comm]
    · simp [hpid]

/-- What the unattributed processes count together. -/
theorem sum_unattributedPids (c : Counter) :
    ((unattributedPids sample (AuditCounters.byPid auditEvents) rows).map
      (pidCount auditEvents c)).sum =
      ∑ pid ∈ capturedPids auditEvents,
        if rows.countP (fun row => pid ∈ rowFamily sample row) = 0 then pidCount auditEvents c pid
        else 0 := by
  rw [← sum_toFinset _ nodup_unattributedPids, ← Finset.sum_filter]
  refine Finset.sum_subset (fun pid hpid => ?_) fun pid hpid hnot => ?_
  · obtain ⟨⟨c', hc'⟩, hfree⟩ := mem_unattributedPids.mp (mem_toFinset.mp hpid)
    refine Finset.mem_filter.mpr ⟨?_, countP_eq_zero.mpr ?_⟩
    · by_contra hnot
      exact hc' (pidCount_eq_zero hnot c')
    · simpa using hfree
  · by_contra hcount
    have hfree := countP_eq_zero.mp (Finset.mem_filter.mp hpid).2
    exact hnot (mem_toFinset.mpr
      (mem_unattributedPids.mpr ⟨⟨c, hcount⟩, by simpa using hfree⟩))

end Rows

/-! ### Counting once -/

section Once

variable (rows : List AgentTopRow) (sample : ProcSnapshot) (auditEvents : List AuditEventRow)

def liveRoots : List ℕ := rows.filterMap AgentTopRow.pid

/-- The processes whose nearest live root is that of the row, as `live_process_rows` has them. -/
def nearestFamily (row : AgentTopRow) : List ℕ :=
  match row.pid with
  | none => []
  | some rootPid => sample.processFamilyExcluding rootPid (liveRoots rows)

/-- Every row takes the counts of its own processes, and the rows take them together with the
unattributed processes once. -/
def CountsOnce : Prop :=
  let after := applyLiveCapture rows sample auditEvents
  ∀ c : Counter, (after.map (AgentTopRow.count · c) = rows.map fun row =>
      row.count c + ((nearestFamily rows sample row).map (pidCount auditEvents c)).sum) ∧
    (after.map (AgentTopRow.count · c)).sum +
        ((unattributedPids sample (AuditCounters.byPid auditEvents) rows).map
          (pidCount auditEvents c)).sum =
      (rows.map (AgentTopRow.count · c)).sum +
        auditEvents.countP fun row => row.pid.isSome && c.counts row

/-- No process that counts is below two live roots. -/
def Disjoint : Prop :=
  ∀ pid, (∃ c, pidCount auditEvents c pid ≠ 0) →
    rows.countP (fun row => pid ∈ rowFamily sample row) ≤ 1

variable {rows sample auditEvents}

theorem nearestFamily_subset (row : AgentTopRow) :
    nearestFamily rows sample row ⊆ rowFamily sample row := by
  unfold nearestFamily rowFamily
  split
  · exact nil_subset _
  · exact ProcSnapshot.processFamilyExcluding_subset

/-- A process of a family is in the nearest family of some row. -/
theorem exists_nearestFamily {row : AgentTopRow} (hrow : row ∈ rows) {pid : ℕ}
    (hpid : pid ∈ rowFamily sample row) :
    ∃ nearest ∈ rows, pid ∈ nearestFamily rows sample nearest := by
  unfold rowFamily at hpid
  split at hpid
  · cases hpid
  · next rootPid hroot =>
    have hlive : rootPid ∈ liveRoots rows := mem_filterMap.mpr ⟨row, hrow, hroot⟩
    obtain ⟨nearest, hnearest, hmem⟩ := ProcSnapshot.exists_nearest hlive hpid
    obtain ⟨nearestRow, hnearestRow, hpid⟩ := mem_filterMap.mp hnearest
    refine ⟨nearestRow, hnearestRow, ?_⟩
    rw [nearestFamily, hpid]
    exact hmem

/-- No process is in the nearest families of two live roots. -/
theorem pid_eq_of_mem_nearestFamily {row row' : AgentTopRow} (hrow : row ∈ rows)
    (hrow' : row' ∈ rows) {pid : ℕ} (hpid : pid ∈ nearestFamily rows sample row)
    (hpid' : pid ∈ nearestFamily rows sample row') : row.pid = row'.pid := by
  unfold nearestFamily at hpid hpid'
  split at hpid
  · cases hpid
  · next root hroot =>
    split at hpid'
    · cases hpid'
    · next root' hroot' =>
      have hlive : root ∈ liveRoots rows := mem_filterMap.mpr ⟨row, hrow, hroot⟩
      have hlive' : root' ∈ liveRoots rows := mem_filterMap.mpr ⟨row', hrow', hroot'⟩
      rw [hroot, hroot', ProcSnapshot.nearest_unique hlive hlive' hpid hpid']

theorem nodup_nearestFamily (row : AgentTopRow) : (nearestFamily rows sample row).Nodup := by
  unfold nearestFamily
  split
  · exact nodup_nil
  · exact ProcSnapshot.nodup_processFamilyExcluding

theorem eq_of_countP_le_one {α : Type*} {p : α → Bool} {l : List α} {a b : α}
    (h : l.countP p ≤ 1) (ha : a ∈ l) (hb : b ∈ l) (hpa : p a) (hpb : p b) : a = b := by
  rw [countP_eq_length_filter] at h
  have ha' : a ∈ l.filter p := mem_filter.mpr ⟨ha, hpa⟩
  have hb' : b ∈ l.filter p := mem_filter.mpr ⟨hb, hpb⟩
  cases hfilter : l.filter p with
  | nil =>
    rw [hfilter] at ha'
    cases ha'
  | cons x rest =>
    rw [hfilter, length_cons] at h
    obtain rfl : rest = [] := eq_nil_of_length_eq_zero (by omega)
    rw [hfilter, mem_singleton] at ha' hb'
    rw [ha', hb']

theorem sum_nearestFamily (h : Disjoint rows sample auditEvents) {row : AgentTopRow}
    (hrow : row ∈ rows) (c : Counter) :
    ((nearestFamily rows sample row).map (pidCount auditEvents c)).sum =
      ((rowFamily sample row).map (pidCount auditEvents c)).sum := by
  rw [← sum_toFinset _ (nodup_nearestFamily row), ← sum_toFinset _ nodup_rowFamily]
  refine Finset.sum_subset (fun pid hpid => ?_) fun pid hpid hnot => ?_
  · exact mem_toFinset.mpr (nearestFamily_subset row (mem_toFinset.mp hpid))
  · by_contra hcount
    rw [mem_toFinset] at hpid hnot
    obtain ⟨nearest, hnearest, hmem⟩ := exists_nearestFamily hrow hpid
    have heq : nearest = row := eq_of_countP_le_one (h pid ⟨c, hcount⟩) hnearest hrow
      (by simpa using nearestFamily_subset nearest hmem) (by simpa using hpid)
    exact hnot (heq ▸ hmem)

/-- The sums agree if and only if no process that counts is taken twice. -/
theorem total_iff (c : Counter) :
    ((applyLiveCapture rows sample auditEvents).map (AgentTopRow.count · c)).sum +
        ((unattributedPids sample (AuditCounters.byPid auditEvents) rows).map
          (pidCount auditEvents c)).sum =
      (rows.map (AgentTopRow.count · c)).sum +
        (auditEvents.countP fun row => row.pid.isSome && c.counts row) ↔
      ∀ pid, pidCount auditEvents c pid ≠ 0 →
        rows.countP (fun row => pid ∈ rowFamily sample row) ≤ 1 := by
  have hsubset : ∀ row ∈ auditEvents, ∀ pid, row.pid = some pid →
      pid ∈ capturedPids auditEvents := fun row hrow pid hpid =>
    mem_toFinset.mpr (mem_filterMap.mpr ⟨row, hrow, hpid⟩)
  rw [count_applyLiveCapture, sum_map_add,
    sum_rowFamily (S := capturedPids auditEvents) fun pid hpid => pidCount_eq_zero hpid c,
    sum_unattributedPids, ← sum_pidCount hsubset c, Nat.add_assoc, Nat.add_left_cancel_iff,
    ← Finset.sum_add_distrib, eq_comm]
  have hle : ∀ pid ∈ capturedPids auditEvents, pidCount auditEvents c pid ≤
      rows.countP (fun row => pid ∈ rowFamily sample row) * pidCount auditEvents c pid +
        if rows.countP (fun row => pid ∈ rowFamily sample row) = 0 then pidCount auditEvents c pid
        else 0 := by
    intro pid _
    split
    · exact Nat.le_add_left ..
    · next hpos => exact Nat.le_mul_of_pos_left _ (Nat.pos_of_ne_zero hpos)
  rw [Finset.sum_eq_sum_iff_of_le hle]
  constructor
  · intro h pid hcount
    have hmem : pid ∈ capturedPids auditEvents := by
      by_contra hnot
      exact hcount (pidCount_eq_zero hnot c)
    have heq := h pid hmem
    split at heq
    · next hzero => exact hzero.le.trans (Nat.zero_le 1)
    · refine Nat.le_of_mul_le_mul_right ?_ (Nat.pos_of_ne_zero hcount)
      rw [Nat.one_mul]
      exact heq.ge
  · intro h pid _
    by_cases hcount : pidCount auditEvents c pid = 0
    · simp [hcount]
    · obtain hzero | hone := Nat.le_one_iff_eq_zero_or_eq_one.mp (h pid hcount)
      · rw [if_pos hzero, hzero, Nat.zero_mul, Nat.zero_add]
      · rw [if_neg (by simp [hone]), hone, Nat.one_mul, Nat.add_zero]

theorem countsOnce_iff : CountsOnce rows sample auditEvents ↔ Disjoint rows sample auditEvents := by
  constructor
  · rintro h pid ⟨c, hcount⟩
    exact (total_iff c).mp (h c).2 pid hcount
  · intro h c
    refine ⟨?_, (total_iff c).mpr fun pid hcount => h pid ⟨c, hcount⟩⟩
    rw [count_applyLiveCapture]
    exact map_congr_left fun row hrow => by rw [sum_nearestFamily h hrow c]

/-! #### What is shown of the unattributed processes -/

theorem sum_addUnattributed (n : ℕ) (rows : List AgentTopRow) :
    ((addUnattributed n rows).map AgentTopRow.unattributed).sum =
      (rows.map AgentTopRow.unattributed).sum + if rows.any AgentTopRow.ebpf then n else 0 := by
  induction rows with
  | nil => rfl
  | cons row rows ih =>
    rw [addUnattributed]
    split
    · next hebpf =>
      simp only [map_cons, sum_cons, any_cons, hebpf, Bool.true_or, if_true]
      omega
    · next hebpf =>
      rw [map_cons, sum_cons, ih, map_cons, sum_cons, any_cons,
        Bool.eq_false_of_not_eq_true hebpf, Bool.false_or, Nat.add_assoc]

theorem any_ebpf_addUnattributed (n : ℕ) (rows : List AgentTopRow) :
    (addUnattributed n rows).any AgentTopRow.ebpf = rows.any AgentTopRow.ebpf := by
  induction rows with
  | nil => rfl
  | cons row rows ih =>
    rw [addUnattributed]
    split
    · rfl
    · rw [any_cons, any_cons, ih]

/-- The unattributed processes are told where some row has eBPF evidence. -/
theorem unattributed_applyLiveCapture (rows : List AgentTopRow) (sample : ProcSnapshot)
    (auditEvents : List AuditEventRow) :
    let after := applyLiveCapture rows sample auditEvents
    (after.map AgentTopRow.unattributed).sum = (rows.map AgentTopRow.unattributed).sum +
      if after.any AgentTopRow.ebpf then
        (unattributedPids sample (AuditCounters.byPid auditEvents) rows).length
      else 0 := by
  intro after
  have hkept : (rows.map (attributeRow sample (AuditCounters.byPid auditEvents))).map
      AgentTopRow.unattributed = rows.map AgentTopRow.unattributed := by
    rw [List.map_map]
    refine map_congr_left fun row _ => ?_
    rw [Function.comp_apply, attributeRow]
    split <;> rfl
  have hafter : after = applyLiveCapture rows sample auditEvents := rfl
  rw [applyLiveCapture] at hafter
  split at hafter
  · next hempty =>
    rw [hafter, unattributedPids, isEmpty_iff.mp hempty]
    simp
  · dsimp only at hafter
    split at hafter
    · next hzero => rw [hafter, hkept, hzero, ite_self, Nat.add_zero]
    · rw [hafter, sum_addUnattributed, any_ebpf_addUnattributed, hkept]

end Once

/-- **A live capture is counted once if and only if no process that counts is below two live
roots.** Every process has one nearest live root at most, and the unattributed ones are told in a
row with eBPF evidence, where there is one. -/
theorem live_capture_counts_once_iff (rows : List AgentTopRow) (sample : ProcSnapshot)
    (auditEvents : List AuditEventRow) :
    (CountsOnce rows sample auditEvents ↔ Disjoint rows sample auditEvents) ∧
      (∀ row ∈ rows, ∀ row' ∈ rows, ∀ pid, pid ∈ nearestFamily rows sample row →
        pid ∈ nearestFamily rows sample row' → row.pid = row'.pid) ∧
      let after := applyLiveCapture rows sample auditEvents
      (after.map AgentTopRow.unattributed).sum = (rows.map AgentTopRow.unattributed).sum +
        if after.any AgentTopRow.ebpf then
          (unattributedPids sample (AuditCounters.byPid auditEvents) rows).length
        else 0 :=
  ⟨countsOnce_iff,
    fun _ hrow _ hrow' _ hpid hpid' => pid_eq_of_mem_nearestFamily hrow hrow' hpid hpid',
    unattributed_applyLiveCapture rows sample auditEvents⟩

section Example

/-- An agent in process 10 that runs another in process 20, which runs a command. -/
def nestedAgents : ProcSnapshot := ⟨[⟨10, 1⟩, ⟨20, 10⟩, ⟨30, 20⟩], by decide⟩

def agentRow (pid : ℕ) : AgentTopRow := ⟨some pid, 0, 0, 0, 0, 0, "proc"⟩

def commandExec : AuditEventRow :=
  { (Inhabited.default : AuditEventRow) with
    auditType := "process", pid := some 30, action := some "exec" }

/-- Its one exec is counted in both rows. -/
theorem nested_exec_counted_twice :
    (applyLiveCapture [agentRow 10, agentRow 20] nestedAgents [commandExec]).map
        AgentTopRow.execs = [1, 1] ∧
      ¬ CountsOnce [agentRow 10, agentRow 20] nestedAgents [commandExec] := by
  refine ⟨?_, fun h => ?_⟩
  · exact (count_applyLiveCapture _ .execs).trans (by decide +kernel)
  · exact absurd (countsOnce_iff.mp h 30 ⟨.execs, by decide +kernel⟩) (by decide +kernel)

end Example

end AgentSight.Collector
