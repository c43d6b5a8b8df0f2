import AgentSight.Runners.ProcessSelect
import Mathlib.Tactic.FieldSimp
import Mathlib.Tactic.NormNum

/-!
# System metrics

`runners/system.rs`: on every tick the runner takes a snapshot of the processes and emits, for
each of its targets, what the processes of its family use. The processor time of a process is
measured against its last record, and all targets share the records.
-/

namespace AgentSight.Runners

open List

/-! ### The runner -/

structure SystemConfig where
  pid : Option ℕ := none
  comm : Option String := none
  sessionId : Option ℕ := none
  includeChildren : Bool := true
  cpuThreshold : Option ℚ := none
  memoryThreshold : Option ℕ := none

structure ProcessStats where
  ticks : ℕ
  timestamp : ℕ
  deriving DecidableEq

/-- The records of the processes by their pids. -/
abbrev PreviousStats := ℕ → Option ProcessStats

/-- An event of the runner about a target. -/
structure SystemMetrics where
  pid : ℕ
  comm : String
  timestamp : ℕ
  cpuPercent : ℚ
  rssKb : ℕ
  rssMb : ℕ
  vszKb : ℕ
  vszMb : ℕ
  threads : ℕ
  children : ℕ
  alert : Bool
  deriving DecidableEq

def findTargetPids (config : SystemConfig) (snapshot : ProcSnapshot) : List ℕ :=
  match config.pid, config.comm with
  | some pid, _ => if (snapshot.get pid).isSome then [pid] else []
  | none, some comm => pidsMatchingComm snapshot comm
  | none, none => []

def cpuPercent (current : ProcessStats) : Option ProcessStats → ℚ
  | some prev =>
    let timeDelta : ℚ := (current.timestamp - prev.timestamp : ℕ) / 1000000000
    let cpuDelta := current.ticks - prev.ticks
    let userHz := 100
    if 0 < timeDelta then cpuDelta / userHz / timeDelta * 100 else 0
  | none => 0

def calculateCpuPercentage (pid : ℕ) (current : ProcessStats) (previous : PreviousStats) :
    ℚ × PreviousStats :=
  (cpuPercent current (previous pid), Function.update previous pid (some current))

/-- What a target's processes come to, as far as they have been gone through. -/
structure Totals where
  rssKb : ℕ := 0
  vszKb : ℕ := 0
  cpuPercent : ℚ := 0
  threads : ℕ := 0

section Collect

variable (config : SystemConfig) (snapshot : ProcSnapshot) (timestamp : ℕ)

def addProcess (mainPid : ℕ) (state : Totals × PreviousStats) (pid : ℕ) : Totals × PreviousStats :=
  match snapshot.get pid with
  | none => state
  | some info =>
    let (totals, previous) := state
    let (cpu, previous) := calculateCpuPercentage pid ⟨info.ticks, timestamp⟩ previous
    ({ rssKb := totals.rssKb + info.rssKb
       vszKb := totals.vszKb + info.vszKb
       cpuPercent := totals.cpuPercent + cpu
       threads := if pid = mainPid then info.threads else totals.threads }, previous)

def collectProcessMetrics (previous : PreviousStats) (mainPid : ℕ) (allPids : List ℕ) :
    SystemMetrics × PreviousStats :=
  let (totals, previous) := allPids.foldl (addProcess snapshot timestamp mainPid) ({}, previous)
  ({ pid := mainPid
     comm := ((snapshot.get mainPid).map (·.comm)).getD "unknown"
     timestamp
     cpuPercent := totals.cpuPercent
     rssKb := totals.rssKb
     rssMb := totals.rssKb / 1024
     vszKb := totals.vszKb
     vszMb := totals.vszKb / 1024
     threads := totals.threads
     children := allPids.length - 1
     alert := config.cpuThreshold.any (· ≤ totals.cpuPercent) ||
       config.memoryThreshold.any (· ≤ totals.rssKb / 1024) }, previous)

end Collect

/-- The pids whose metrics are emitted. -/
def targets (config : SystemConfig) (snapshot : ProcSnapshot) : List ℕ :=
  match config.sessionId with
  | some sessionId => if (snapshot.pidsInSession sessionId).isEmpty then [] else [sessionId]
  | none => findTargetPids config snapshot

def pidsToMonitor (config : SystemConfig) (snapshot : ProcSnapshot) (pid : ℕ) : List ℕ :=
  match config.sessionId with
  | some sessionId => snapshot.pidsInSession sessionId
  | none => if config.includeChildren then snapshot.processFamily pid else [pid]

def collectTarget (config : SystemConfig) (snapshot : ProcSnapshot) (timestamp : ℕ)
    (state : List SystemMetrics × PreviousStats) (pid : ℕ) : List SystemMetrics × PreviousStats :=
  let (events, previous) := state
  let (event, previous) := collectProcessMetrics config snapshot timestamp previous pid
    (pidsToMonitor config snapshot pid)
  (events ++ [event], previous)

/-- One turn of the loop, for the targets `watched`. The metrics of the whole system, which are
emitted when there is nothing to look for, are left out. -/
def tick (config : SystemConfig) (watched : ProcSnapshot → List ℕ) (previous : PreviousStats)
    (snapshot : ProcSnapshot) : List SystemMetrics × PreviousStats :=
  let timestamp := snapshot.uptimeS * 1000000000
  let previous : PreviousStats := fun pid =>
    if (snapshot.get pid).isSome then previous pid else none
  (watched snapshot).foldl (collectTarget config snapshot timestamp) ([], previous)

/-- The records after the snapshots so far. -/
def records (config : SystemConfig) (watched : ProcSnapshot → List ℕ)
    (snapshots : List ProcSnapshot) : PreviousStats :=
  snapshots.foldl (fun previous snapshot => (tick config watched previous snapshot).2) fun _ => none

/-- What the runner emits on a tick after the snapshots so far. -/
def emitted (config : SystemConfig) (watched : ProcSnapshot → List ℕ)
    (before : List ProcSnapshot) (now : ProcSnapshot) : List SystemMetrics :=
  (tick config watched (records config watched before) now).1

/-! ### What a tick records -/

section Collect

variable {config : SystemConfig} {snapshot : ProcSnapshot} {timestamp mainPid pid : ℕ}
  {previous previous' : PreviousStats} {totals : Totals} {pids : List ℕ}

/-- The record that a process of the snapshot gets. -/
def statsOf (snapshot : ProcSnapshot) (timestamp pid : ℕ) : Option ProcessStats :=
  (snapshot.get pid).map fun info => ⟨info.ticks, timestamp⟩

/-- What a process adds to the processor time of its family. -/
def share (snapshot : ProcSnapshot) (timestamp : ℕ) (previous : PreviousStats) (pid : ℕ) : ℚ :=
  match snapshot.get pid with
  | none => 0
  | some info => cpuPercent ⟨info.ticks, timestamp⟩ (previous pid)

theorem cpuPercent_self (stats : ProcessStats) : cpuPercent stats (some stats) = 0 := by
  simp [cpuPercent]

theorem foldl_addProcess_records :
    (pids.foldl (addProcess snapshot timestamp mainPid) (totals, previous)).2 pid =
      if pid ∈ pids then (statsOf snapshot timestamp pid).or (previous pid) else previous pid := by
  induction pids generalizing totals previous with
  | nil => simp
  | cons first pids ih =>
    rw [foldl_cons, addProcess]
    cases hinfo : snapshot.get first with
    | none =>
      rw [ih]
      by_cases hfirst : pid = first
      · subst hfirst
        simp [statsOf, hinfo]
      · simp [hfirst]
    | some info =>
      rw [ih]
      by_cases hfirst : pid = first
      · subst hfirst
        simp [statsOf, hinfo, calculateCpuPercentage]
      · simp [hfirst, calculateCpuPercentage]

/-- Of the records only the shares of the processes count. -/
theorem foldl_addProcess_congr (hpids : pids.Nodup)
    (h : ∀ pid ∈ pids, share snapshot timestamp previous pid =
      share snapshot timestamp previous' pid) :
    (pids.foldl (addProcess snapshot timestamp mainPid) (totals, previous)).1 =
      (pids.foldl (addProcess snapshot timestamp mainPid) (totals, previous')).1 := by
  induction pids generalizing totals previous previous' with
  | nil => rfl
  | cons first pids ih =>
    obtain ⟨hfirst, hpids⟩ := nodup_cons.mp hpids
    have hrest := fun pid hpid => h pid (mem_cons_of_mem first hpid)
    have hshare := h first mem_cons_self
    rw [foldl_cons, foldl_cons, addProcess, addProcess]
    cases hinfo : snapshot.get first with
    | none => exact ih hpids hrest
    | some info =>
      rw [share, share, hinfo] at hshare
      dsimp only [calculateCpuPercentage] at hshare ⊢
      rw [hshare]
      refine ih hpids fun pid hpid => ?_
      have hne : pid ≠ first := fun hsame => hfirst (hsame ▸ hpid)
      rw [share, share, Function.update_of_ne hne, Function.update_of_ne hne]
      exact hrest pid hpid

theorem foldl_addProcess_cpuPercent (hpids : pids.Nodup) :
    (pids.foldl (addProcess snapshot timestamp mainPid) (totals, previous)).1.cpuPercent =
      totals.cpuPercent + (pids.map (share snapshot timestamp previous)).sum := by
  induction pids generalizing totals previous with
  | nil => simp
  | cons first pids ih =>
    obtain ⟨hfirst, hpids⟩ := nodup_cons.mp hpids
    rw [foldl_cons, addProcess, map_cons, sum_cons]
    cases hinfo : snapshot.get first with
    | none =>
      have hzero : share snapshot timestamp previous first = 0 := by rw [share, hinfo]
      rw [hzero, zero_add]
      exact ih hpids
    | some info =>
      have hshare : share snapshot timestamp previous first =
          cpuPercent ⟨info.ticks, timestamp⟩ (previous first) := by rw [share, hinfo]
      have hrest : pids.map (share snapshot timestamp
          (Function.update previous first (some ⟨info.ticks, timestamp⟩))) =
            pids.map (share snapshot timestamp previous) := by
        refine map_congr_left fun pid hpid => ?_
        have hne : pid ≠ first := fun hsame => hfirst (hsame ▸ hpid)
        rw [share, share, Function.update_of_ne hne]
      dsimp only [calculateCpuPercentage]
      rw [ih hpids, hrest, hshare, add_assoc]

theorem collectProcessMetrics_congr (hpids : pids.Nodup)
    (h : ∀ pid ∈ pids, share snapshot timestamp previous pid =
      share snapshot timestamp previous' pid) :
    (collectProcessMetrics config snapshot timestamp previous mainPid pids).1 =
      (collectProcessMetrics config snapshot timestamp previous' mainPid pids).1 := by
  simp [collectProcessMetrics, foldl_addProcess_congr hpids h]

theorem collectProcessMetrics_records :
    (collectProcessMetrics config snapshot timestamp previous mainPid pids).2 pid =
      if pid ∈ pids then (statsOf snapshot timestamp pid).or (previous pid) else previous pid :=
  foldl_addProcess_records

theorem collectProcessMetrics_cpuPercent (hpids : pids.Nodup) :
    (collectProcessMetrics config snapshot timestamp previous mainPid pids).1.cpuPercent =
      (pids.map (share snapshot timestamp previous)).sum :=
  (foldl_addProcess_cpuPercent hpids).trans (zero_add _)

end Collect

theorem nodup_pidsToMonitor (config : SystemConfig) (snapshot : ProcSnapshot) (pid : ℕ) :
    (pidsToMonitor config snapshot pid).Nodup := by
  rw [pidsToMonitor]
  split
  · exact snapshot.nodup_pids_filter _
  · split_ifs
    · exact Worklist.nodup_search
    · exact nodup_singleton pid

theorem nodup_targets (config : SystemConfig) (snapshot : ProcSnapshot) :
    (targets config snapshot).Nodup := by
  rw [targets]
  split
  · split_ifs
    · exact nodup_nil
    · exact nodup_singleton _
  · rw [findTargetPids]
    split
    · split_ifs
      · exact nodup_singleton _
      · exact nodup_nil
    · exact snapshot.nodup_pids_filter _
    · exact nodup_nil

section Tick

variable {config : SystemConfig} {snapshot : ProcSnapshot} {timestamp pid : ℕ}
  {previous : PreviousStats} {events : List SystemMetrics} {mainPids : List ℕ}

theorem share_of_none (h : previous pid = none) : share snapshot timestamp previous pid = 0 := by
  rw [share, h]
  split <;> rfl

theorem share_recorded (h : previous pid = (statsOf snapshot timestamp pid).or other) :
    share snapshot timestamp previous pid = 0 := by
  rw [share, h, statsOf]
  cases snapshot.get pid with
  | none => rfl
  | some info => exact cpuPercent_self _

theorem foldl_collectTarget_records :
    (mainPids.foldl (collectTarget config snapshot timestamp) (events, previous)).2 pid =
      if ∃ target ∈ mainPids, pid ∈ pidsToMonitor config snapshot target then
        (statsOf snapshot timestamp pid).or (previous pid)
      else previous pid := by
  induction mainPids generalizing events previous with
  | nil => simp
  | cons first rest ih =>
    rw [foldl_cons, collectTarget]
    rw [ih, collectProcessMetrics_records]
    by_cases hfirst : pid ∈ pidsToMonitor config snapshot first
    · simp [hfirst]
      cases statsOf snapshot timestamp pid <;> simp
    · simp [hfirst]

/-- The targets do not disturb each other where nothing that two of them share has a share. -/
theorem foldl_collectTarget_events (hnodup : mainPids.Nodup)
    (hshared : ∀ a ∈ mainPids, ∀ b ∈ mainPids, a ≠ b → ∀ pid ∈ pidsToMonitor config snapshot a,
      pid ∈ pidsToMonitor config snapshot b → share snapshot timestamp previous pid = 0) :
    (mainPids.foldl (collectTarget config snapshot timestamp) (events, previous)).1 =
      events ++ mainPids.map fun target => (collectProcessMetrics config snapshot timestamp previous
        target (pidsToMonitor config snapshot target)).1 := by
  induction mainPids generalizing events previous with
  | nil => simp
  | cons first rest ih =>
    obtain ⟨hfirst, hnodup⟩ := nodup_cons.mp hnodup
    rw [foldl_cons, collectTarget]
    set recorded := (collectProcessMetrics config snapshot timestamp previous first
      (pidsToMonitor config snapshot first)).2 with hrecorded
    have hseen pid (hpid : pid ∈ pidsToMonitor config snapshot first) :
        share snapshot timestamp recorded pid = 0 := by
      have hpid' : recorded pid = (statsOf snapshot timestamp pid).or (previous pid) := by
        rw [hrecorded, collectProcessMetrics_records, if_pos hpid]
      exact share_recorded hpid'
    have hunseen pid (hpid : pid ∉ pidsToMonitor config snapshot first) :
        share snapshot timestamp recorded pid = share snapshot timestamp previous pid := by
      rw [share, share, hrecorded, collectProcessMetrics_records, if_neg hpid]
    have hrest : ∀ a ∈ rest, ∀ b ∈ rest, a ≠ b → ∀ pid ∈ pidsToMonitor config snapshot a,
        pid ∈ pidsToMonitor config snapshot b → share snapshot timestamp recorded pid = 0 := by
      intro a ha b hb hne pid hpid hpid'
      by_cases hmem : pid ∈ pidsToMonitor config snapshot first
      · exact hseen pid hmem
      · rw [hunseen pid hmem]
        exact hshared a (mem_cons_of_mem _ ha) b (mem_cons_of_mem _ hb) hne pid hpid hpid'
    rw [ih hnodup hrest, append_assoc]
    refine congrArg (events ++ _ :: ·) (map_congr_left fun target htarget => ?_)
    refine collectProcessMetrics_congr (nodup_pidsToMonitor config snapshot target) ?_
    intro pid hpid
    by_cases hmem : pid ∈ pidsToMonitor config snapshot first
    · have hne : first ≠ target := fun hsame => hfirst (hsame ▸ htarget)
      rw [hseen pid hmem, hshared first mem_cons_self target (mem_cons_of_mem _ htarget)
        hne pid hmem hpid]
    · exact hunseen pid hmem

end Tick

/-! ### The records of a run -/

section Records

variable {config : SystemConfig} {watched watched' : ProcSnapshot → List ℕ}
  {before : List ProcSnapshot} {last now : ProcSnapshot} {target pid : ℕ}

def ProcSnapshot.timestamp (snapshot : ProcSnapshot) : ℕ := snapshot.uptimeS * 1000000000

theorem records_concat : records config watched (before ++ [now]) pid =
      if (now.get pid).isSome then
        if ∃ target ∈ watched now, pid ∈ pidsToMonitor config now target then
          statsOf now now.timestamp pid
        else records config watched before pid
      else none := by
  have hstep : records config watched (before ++ [now]) =
      (tick config watched (records config watched before) now).2 := foldl_concat ..
  rw [hstep, tick, foldl_collectTarget_records, ← ProcSnapshot.timestamp]
  by_cases hpresent : (now.get pid).isSome = true
  · have hstats : (statsOf now now.timestamp pid).isSome := by rwa [statsOf, Option.isSome_map]
    rw [if_pos hpresent, if_pos hpresent, Option.or_of_isSome hstats]
  · have hstats : statsOf now now.timestamp pid = none := by
      rw [statsOf, Option.not_isSome_iff_eq_none.mp hpresent, Option.map_none]
    rw [if_neg hpresent, if_neg hpresent, hstats, Option.or_none, ite_self]

/-- Who watches fewer targets has fewer records. -/
theorem records_subset (hsub : ∀ snapshot, watched' snapshot ⊆ watched snapshot)
    (h : (records config watched' before pid).isSome) :
    (records config watched before pid).isSome := by
  induction before using List.reverseRecOn with
  | nil => simp [records] at h
  | append_singleton before now ih =>
    rw [records_concat] at h ⊢
    by_cases hpresent : (now.get pid).isSome = true
    · rw [if_pos hpresent] at h ⊢
      by_cases hwatched : ∃ target ∈ watched now, pid ∈ pidsToMonitor config now target
      · rw [if_pos hwatched, statsOf, Option.isSome_map]
        exact hpresent
      · have hwatched' : ¬ ∃ target ∈ watched' now, pid ∈ pidsToMonitor config now target :=
          fun ⟨target, htarget, hpid⟩ => hwatched ⟨target, hsub now htarget, hpid⟩
        rw [if_neg hwatched'] at h
        rw [if_neg hwatched]
        exact ih h
    · rw [if_neg hpresent] at h
      cases h

/-- What was in a family on the last tick has the record of that tick. -/
theorem records_of_last (hlast : last ∈ before.getLast?) (htarget : target ∈ watched last)
    (hpid : pid ∈ pidsToMonitor config last target) (hpresent : (last.get pid).isSome) :
    records config watched before pid = statsOf last last.timestamp pid := by
  have hbefore := dropLast_append_getLast? last hlast
  rw [← hbefore, records_concat, if_pos hpresent, if_pos ⟨target, htarget, hpid⟩]

end Records

/-! ### The processor time of a target -/

section Family

variable (config : SystemConfig) (watched : ProcSnapshot → List ℕ) (before : List ProcSnapshot)
  (last now : ProcSnapshot) (target pid : ℕ)

/-- The pid is that of one and the same process in both snapshots. -/
def SameInstance : Prop :=
  ∃ old new, last.get pid = some old ∧ now.get pid = some new ∧
    old.starttimeTicks = new.starttimeTicks

/-- The pid was in the family of the target on the last tick. -/
def WasInFamily : Prop :=
  target ∈ watched last ∧ pid ∈ pidsToMonitor config last target

instance : Decidable (WasInFamily config watched last target pid) :=
  inferInstanceAs (Decidable (_ ∧ _))

/-- The ticks of a process since the last snapshot by the seconds since then, which is a
percentage at 100 ticks a second. -/
def accrued : ℚ :=
  match last.get pid, now.get pid with
  | some old, some new =>
    if old.starttimeTicks = new.starttimeTicks then
      ((new.ticks - old.ticks : ℕ) : ℚ) / ((now.uptimeS - last.uptimeS : ℕ) : ℚ)
    else 0
  | _, _ => 0

/-- What the processes accrued that were in the family of the target already. -/
def familyCpu : Option ProcSnapshot → ℚ
  | none => 0
  | some last =>
    (((pidsToMonitor config now target).filter (WasInFamily config watched last target ·)).map
      (accrued last now)).sum

/-- The records that are used are those of the last tick, each for one target. -/
structure Steady : Prop where
  apart : ∀ a ∈ watched now, ∀ b ∈ watched now, a ≠ b → ∀ pid ∈ pidsToMonitor config now a,
    pid ∈ pidsToMonitor config now b → records config watched before pid = none
  known : ∀ target ∈ watched now, ∀ pid ∈ pidsToMonitor config now target,
    (records config watched before pid).isSome → ∃ last ∈ before.getLast?,
      WasInFamily config watched last target pid ∧ SameInstance last now pid

end Family

section Steady

variable {config : SystemConfig} {watched watched' : ProcSnapshot → List ℕ}
  {before : List ProcSnapshot} {last now : ProcSnapshot} {target pid : ℕ}

theorem cpuPercent_timestamp (old new : ProcInfo) :
    cpuPercent ⟨new.ticks, now.timestamp⟩ (some ⟨old.ticks, last.timestamp⟩) =
      ((new.ticks - old.ticks : ℕ) : ℚ) / ((now.uptimeS - last.uptimeS : ℕ) : ℚ) := by
  have htime : now.timestamp - last.timestamp = (now.uptimeS - last.uptimeS) * 1000000000 :=
    (Nat.sub_mul ..).symm
  have hseconds : (((now.uptimeS - last.uptimeS) * 1000000000 : ℕ) : ℚ) / 1000000000 =
      ((now.uptimeS - last.uptimeS : ℕ) : ℚ) := by
    push_cast
    field_simp
  rw [cpuPercent]
  rw [htime, hseconds]
  split_ifs with hpos
  · field_simp
  · have hzero : ((now.uptimeS - last.uptimeS : ℕ) : ℚ) = 0 :=
      le_antisymm (not_lt.mp hpos) (Nat.cast_nonneg _)
    rw [hzero, div_zero]

theorem Steady.mono (hsub : ∀ snapshot, watched' snapshot ⊆ watched snapshot)
    (hfamily : ∀ last target pid, target ∈ watched' now →
      WasInFamily config watched last target pid → WasInFamily config watched' last target pid)
    (h : Steady config watched before now) : Steady config watched' before now where
  apart a ha b hb hne pid hpid hpid' := by
    have hnone := h.apart a (hsub now ha) b (hsub now hb) hne pid hpid hpid'
    by_contra hsome
    have := records_subset hsub (Option.isSome_iff_ne_none.mpr hsome)
    rw [hnone] at this
    cases this
  known target htarget pid hpid hsome := by
    obtain ⟨last, hlast, hwas, hsame⟩ := h.known target (hsub now htarget) pid hpid
      (records_subset hsub hsome)
    exact ⟨last, hlast, hfamily last target pid htarget hwas, hsame⟩

section

variable (h : Steady config watched before now)
include h

/-- The share of a process is what it accrued, if it was in the family. -/
theorem Steady.share_eq (htarget : target ∈ watched now)
    (hpid : pid ∈ pidsToMonitor config now target) :
    share now now.timestamp (records config watched before) pid =
      match before.getLast? with
      | none => 0
      | some last =>
        if WasInFamily config watched last target pid then accrued last now pid else 0 := by
  cases hrecord : records config watched before pid with
  | none =>
    rw [share_of_none hrecord]
    cases hlast : before.getLast? with
    | none => rfl
    | some last =>
      dsimp only
      split_ifs with hwas
      · have hgone : last.get pid = none := by
          by_contra hpresent
          rw [records_of_last hlast hwas.1 hwas.2 (Option.isSome_iff_ne_none.mpr hpresent),
            statsOf, Option.map_eq_none_iff] at hrecord
          exact hpresent hrecord
        rw [accrued, hgone]
      · rfl
  | some stats =>
    obtain ⟨last, hlast, hwas, old, new, hold, hnew, hstart⟩ := h.known target htarget pid hpid
      (by rw [hrecord]; rfl)
    have hstats := records_of_last hlast hwas.1 hwas.2 (by rw [hold]; rfl)
    rw [statsOf] at hstats
    rw [Option.mem_def.mp hlast]
    dsimp only
    rw [if_pos hwas, share, hstats, accrued, hold, hnew]
    dsimp only [Option.map_some]
    rw [if_pos hstart, cpuPercent_timestamp]

theorem Steady.emitted_eq (hnodup : (watched now).Nodup) :
    emitted config watched before now = (watched now).map fun target =>
      (collectProcessMetrics config now now.timestamp (records config watched before) target
        (pidsToMonitor config now target)).1 := by
  have hpresent pid : share now now.timestamp
      (fun pid => if (now.get pid).isSome then records config watched before pid else none) pid =
        share now now.timestamp (records config watched before) pid := by
    rw [share, share]
    cases hinfo : now.get pid with
    | none => rfl
    | some info =>
      rw [Option.isSome_some, if_pos rfl]
  rw [emitted, tick, foldl_collectTarget_events hnodup]
  · refine map_congr_left fun target _ => ?_
    exact collectProcessMetrics_congr (nodup_pidsToMonitor ..) fun pid _ => hpresent pid
  · intro a ha b hb hne pid hpid hpid'
    exact (hpresent pid).trans (share_of_none (h.apart a ha b hb hne pid hpid hpid'))

theorem Steady.cpuPercent_eq
    (htarget : target ∈ watched now) :
    (collectProcessMetrics config now now.timestamp (records config watched before) target
      (pidsToMonitor config now target)).1.cpuPercent =
        familyCpu config watched now target before.getLast? := by
  have hshares : (pidsToMonitor config now target).map
      (share now now.timestamp (records config watched before)) =
        (pidsToMonitor config now target).map fun pid =>
          match before.getLast? with
          | none => 0
          | some last =>
            if WasInFamily config watched last target pid then accrued last now pid else 0 :=
    map_congr_left fun pid hpid => h.share_eq htarget hpid
  rw [collectProcessMetrics_cpuPercent (nodup_pidsToMonitor ..), hshares]
  cases before.getLast? with
  | none => simp [familyCpu]
  | some last =>
    rw [familyCpu, sum_map_ite]
    simp

end

/-- The runner with one of its targets only. -/
def only (config : SystemConfig) (target : ℕ) (snapshot : ProcSnapshot) : List ℕ :=
  (targets config snapshot).filter (· = target)

theorem wasInFamily_only : WasInFamily config (only config target) last target pid ↔
      WasInFamily config (targets config) last target pid := by
  simp [WasInFamily, only]

theorem Steady.only (h : Steady config (targets config) before now) (target : ℕ) :
    Steady config (only config target) before now := by
  refine h.mono (fun snapshot => filter_subset_self _) fun last a pid ha hwas => ?_
  obtain rfl : a = target := by simpa using of_mem_filter ha
  exact wasInFamily_only.mpr hwas

/-- **In every run whose ticks are steady, the processor time of a target is what the processes
accrued that were in its family already, and the event is the one the runner emits for this
target alone.** -/
theorem system_metrics_per_target (config : SystemConfig) (snapshots : List ProcSnapshot)
    (hsteady : ∀ before now, before ++ [now] <+: snapshots →
      Steady config (targets config) before now) :
    ∀ before now, before ++ [now] <+: snapshots →
      ∀ event ∈ emitted config (targets config) before now,
        event.cpuPercent = familyCpu config (targets config) now event.pid before.getLast? ∧
          emitted config (Runners.only config event.pid) before now = [event] := by
  intro before now hstart event hevent
  have h := hsteady before now hstart
  have hnodup := nodup_targets config now
  rw [h.emitted_eq hnodup, mem_map] at hevent
  obtain ⟨target, htarget, rfl⟩ := hevent
  refine ⟨h.cpuPercent_eq htarget, ?_⟩
  have hone : Runners.only config target now = [target] := by
    refine perm_singleton.mp ((perm_ext_iff_of_nodup (hnodup.filter _)
      (nodup_singleton target)).mpr fun pid => ?_)
    simp only [mem_filter, decide_eq_true_eq, mem_singleton]
    exact ⟨fun hpid => hpid.2, fun hpid => ⟨hpid ▸ htarget, hpid⟩⟩
  have halone := h.only target
  have hmem : target ∈ Runners.only config target now := by
    rw [hone]
    exact mem_singleton_self target
  change emitted config (Runners.only config target) before now = _
  rw [halone.emitted_eq (hnodup.filter _), hone, map_singleton, singleton_inj]
  refine collectProcessMetrics_congr (nodup_pidsToMonitor ..) fun pid hpid => ?_
  rw [halone.share_eq hmem hpid, h.share_eq htarget hpid]
  simp [wasInFamily_only]

end Steady

section Example

def process (pid ppid : ℕ) (comm : String) (ticks starttimeTicks : ℕ) : ProcInfo where
  pid
  ppid
  sessionId := 0
  comm
  command := comm
  ticks
  starttimeTicks
  rssKb := 0
  vszKb := 0
  threads := 1
  readBytes := 0
  writeBytes := 0

/-- An agent that runs another of its name, which has used `ticks`. -/
def nested (uptimeS ticks : ℕ) : ProcSnapshot where
  uptimeS
  procs := [process 1 0 "claude" 0 100, process 2 1 "claude" ticks 200]
  sorted := by simp [process]

def byPid : SystemConfig := { pid := some 1 }

def byComm : SystemConfig := { comm := some "claude" }

theorem byPid_nested (uptimeS ticks : ℕ) : targets byPid (nested uptimeS ticks) = [1] ∧
    pidsToMonitor byPid (nested uptimeS ticks) 1 = [1, 2] := by
  constructor
  · simp [targets, byPid, findTargetPids, ProcSnapshot.get, nested, process]
  · simp [pidsToMonitor, byPid, ProcSnapshot.processFamily, Worklist.search, nested, process,
      ProcSnapshot.childrenByPpid, ProcSnapshot.pids]

private theorem steady_nested (before : List ProcSnapshot) (now : ProcSnapshot)
    (hstart : before ++ [now] <+: [nested 10 50, nested 20 550]) :
    Steady byPid (targets byPid) before now := by
  have hnow : ∃ uptimeS ticks, now = nested uptimeS ticks := by
    have hmem := hstart.subset mem_concat_self
    simp only [mem_cons, not_mem_nil, or_false] at hmem
    obtain rfl | rfl := hmem
    · exact ⟨_, _, rfl⟩
    · exact ⟨_, _, rfl⟩
  obtain ⟨uptimeS, ticks, rfl⟩ := hnow
  obtain ⟨htargets, hfamily⟩ := byPid_nested uptimeS ticks
  constructor
  · intro a ha b hb hne
    exact absurd ((mem_singleton.mp ha).trans (mem_singleton.mp hb).symm) hne
  · intro target htarget pid hpid hrecord
    obtain rfl := mem_singleton.mp htarget
    rw [hfamily] at hpid
    cases before with
    | nil => cases hrecord
    | cons first rest =>
      obtain ⟨rfl, hrest⟩ := cons_prefix_cons.mp hstart
      obtain rfl : rest = [] := by
        have hlength : (rest ++ [_]).length ≤ 1 := hrest.length_le
        rw [length_append, length_singleton] at hlength
        exact eq_nil_of_length_eq_zero (by omega)
      obtain ⟨htargets', hfamily'⟩ := byPid_nested 10 50
      refine ⟨nested 10 50, rfl, ⟨by exact mem_singleton_self 1,
        by rw [hfamily']; exact hpid⟩, ?_⟩
      obtain rfl | hpid := mem_cons.mp hpid
      · exact ⟨process 1 0 "claude" 0 100, process 1 0 "claude" 0 100, rfl, rfl, rfl⟩
      · obtain rfl := mem_singleton.mp hpid
        exact ⟨process 2 1 "claude" 50 200, process 2 1 "claude" ticks 200, rfl, rfl, rfl⟩

/-- The inner agent counts for the outer one. -/
theorem system_metrics_of_pid :
    ∃ event ∈ emitted byPid (targets byPid) [nested 10 50] (nested 20 550),
      event.cpuPercent = 50 := by
  have hemitted := (steady_nested [nested 10 50] (nested 20 550) prefix_rfl).emitted_eq
    (nodup_targets byPid (nested 20 550))
  obtain ⟨htargets, hfamily⟩ := byPid_nested 20 550
  obtain ⟨htargets', hfamily'⟩ := byPid_nested 10 50
  rw [htargets, map_singleton] at hemitted
  have hmem := mem_singleton_self
    (collectProcessMetrics byPid (nested 20 550) (nested 20 550).timestamp
      (records byPid (targets byPid) [nested 10 50]) 1 (pidsToMonitor byPid (nested 20 550) 1)).1
  rw [← hemitted] at hmem
  refine ⟨_, hmem, ?_⟩
  obtain ⟨hcpu, -⟩ := system_metrics_per_target byPid [nested 10 50, nested 20 550] steady_nested
    [nested 10 50] (nested 20 550) prefix_rfl _ hmem
  rw [hcpu]
  change familyCpu byPid (targets byPid) (nested 20 550) 1 (some (nested 10 50)) = 50
  have houter : accrued (nested 10 50) (nested 20 550) 1 = 0 := by
    change 0 / 10 = 0
    norm_num
  have hinner : accrued (nested 10 50) (nested 20 550) 2 = 50 := by
    change 500 / 10 = 50
    norm_num
  rw [familyCpu, hfamily]
  simp [WasInFamily, htargets', hfamily', houter, hinner]

/-- Both agents are targets, and the inner one is gone through with the outer one first. -/
theorem nested_agent_counts_nothing : ¬ ∀ (config : SystemConfig)
    (snapshots before : List ProcSnapshot) (now : ProcSnapshot), before ++ [now] <+: snapshots →
      ∀ event ∈ emitted config (targets config) before now,
        event.cpuPercent = familyCpu config (targets config) now event.pid before.getLast? := by
  intro h
  have hinner := h byComm [nested 10 50, nested 20 550] [nested 10 50] (nested 20 550)
    prefix_rfl
  revert hinner
  decide +kernel

end Example

end AgentSight.Runners
