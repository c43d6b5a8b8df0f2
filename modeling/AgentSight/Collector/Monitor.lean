import AgentSight.Lib.Windows
import AgentSight.Runners.ProcessSelect
import Mathlib.Data.List.Sort
import Mathlib.Data.Prod.Lex
import Mathlib.Data.Rat.Floor
import Mathlib.Data.String.Basic

/-!
# The monitor

`cmd_monitor.rs`: every two seconds the monitor takes a snapshot of the processes, matches the
sessions to them, and stores for each matched session a window with what its processes used since
the snapshot before. A window is two seconds long and ends when the sessions are matched. Where
it crosses a 30-second boundary of the clock, samples of the processes and of what they have open
are stored with it. The columns that only describe a session or a process are left out.
-/

namespace AgentSight.Monitor

open Runners (ProcInfo ProcSnapshot)
open List

def monitorIntervalSecs : ℕ := 2

def detailEdgeLimit : ℕ := 5

def detailSampleIntervalSecs : ℕ := 30

/-! ### Live samples -/

/-- The pid and the start of a process. -/
abbrev ProcessKey := ℕ × ℕ

def processKey (info : ProcInfo) : ProcessKey := (info.pid, info.starttimeTicks)

/-- A matched session, with what the file descriptors of its processes point to. -/
structure LiveMonitorSession where
  sessionId : String
  rootPid : ℕ
  rootStarttimeTicks : ℕ
  family : List ℕ
  fileTargetCounts : List (String × ℕ)
  networkTargetCounts : List (String × ℕ)

structure LiveMonitorSample where
  atMs : ℕ
  current : ProcSnapshot
  previous : Option ProcSnapshot
  sessions : List LiveMonitorSession

/-! ### Stored samples -/

structure MonitorProcessSample where
  pid : ℕ
  pidStarttimeTicks : ℕ
  ppid : ℕ
  cpuMs : ℕ
  rssBytes : ℕ
  readBytes : ℕ
  writeBytes : ℕ
  deriving DecidableEq

/-- A detail sample with the end of the ranking it is from. -/
structure Ranked (α : Type) where
  rankKind : String
  sample : α

structure MonitorSessionSample where
  sessionId : String
  rootPid : ℕ
  rootStarttimeTicks : ℕ
  processCount : ℕ
  cpuMs : ℕ
  rssBytes : ℕ
  readBytes : ℕ
  writeBytes : ℕ
  fileTargets : ℕ
  networkTargets : ℕ
  processSamples : List (Ranked MonitorProcessSample)
  fileSamples : List (Ranked (String × ℕ))
  networkSamples : List (Ranked (String × ℕ))

structure MonitorSample where
  windowStartMs : ℕ
  windowEndMs : ℕ
  sessions : List MonitorSessionSample

/-- The bytes that the processes of the sessions had read and written. -/
abbrev MonitorIoState := ProcessKey → Option (ℕ × ℕ)

/-! ### The samples of the processes -/

section Sample

variable (ticksPerSecond : ℕ)

/-- Ticks in milliseconds, rounded. -/
def ticksToMs (ticks : ℕ) : ℕ := ⌊(ticks : ℚ) / ticksPerSecond * 1000 + 1 / 2⌋₊

def processCpuMsDelta (info : ProcInfo) (previous : Option ProcSnapshot) : ℕ :=
  match previous.bind (·.get info.pid) with
  | none => 0
  | some prev =>
    if prev.starttimeTicks ≠ info.starttimeTicks then 0
    else ticksToMs ticksPerSecond (info.ticks - prev.ticks)

def processIoDelta (info : ProcInfo) (io currentIo : MonitorIoState) : (ℕ × ℕ) × MonitorIoState :=
  (match io (processKey info) with
    | none => (0, 0)
    | some (read, written) => (info.readBytes - read, info.writeBytes - written),
    Function.update currentIo (processKey info) (some (info.readBytes, info.writeBytes)))

def processSample (previous : Option ProcSnapshot) (info : ProcInfo) (bytes : ℕ × ℕ) :
    MonitorProcessSample where
  pid := info.pid
  pidStarttimeTicks := info.starttimeTicks
  ppid := info.ppid
  cpuMs := processCpuMsDelta ticksPerSecond info previous
  rssBytes := info.rssKb * 1024
  readBytes := bytes.1
  writeBytes := bytes.2

def collectProcessSamples (family : List ℕ) (current : ProcSnapshot)
    (previous : Option ProcSnapshot) (io currentIo : MonitorIoState) :
    List MonitorProcessSample × MonitorIoState :=
  (family.filterMap current.get).foldl (fun (out, currentIo) info =>
      let (bytes, currentIo) := processIoDelta info io currentIo
      (out ++ [processSample ticksPerSecond previous info bytes], currentIo))
    ([], currentIo)

end Sample

/-! ### Detail samples -/

def processSampleScore (sample : MonitorProcessSample) : ℕ ×ₗ ℕ ×ₗ ℕ :=
  toLex (sample.cpuMs, toLex (sample.rssBytes, sample.readBytes + sample.writeBytes))

/-- All samples if they are few, else both ends of their ranking. -/
def boundedSamples {α ρ κ : Type} [LinearOrder ρ] [LinearOrder κ] (score : α → ρ) (key : α → κ)
    (samples : List α) : List (Ranked α) :=
  if samples.length ≤ detailEdgeLimit * 2 then samples.map (⟨"all", ·⟩)
  else
    let top := samples.zipIdx.insertionSort fun left right =>
      toLex (OrderDual.toDual (score left.1), toLex (key left.1, left.2)) ≤
        toLex (OrderDual.toDual (score right.1), toLex (key right.1, right.2))
    let bottom := samples.zipIdx.insertionSort fun left right =>
      toLex (score left.1, toLex (key left.1, left.2)) ≤
        toLex (score right.1, toLex (key right.1, right.2))
    let selected := top.take detailEdgeLimit
    selected.map (fun sample => ⟨"top", sample.1⟩) ++
      ((bottom.filter fun sample => sample.2 ∉ selected.map Prod.snd).take
        (detailEdgeLimit * 2 - selected.length)).map fun sample => ⟨"bottom", sample.1⟩

def boundedProcessSamples (samples : List MonitorProcessSample) :
    List (Ranked MonitorProcessSample) :=
  boundedSamples processSampleScore (·.pid) samples

def boundedTargetSamples (counts : List (String × ℕ)) : List (Ranked (String × ℕ)) :=
  boundedSamples Prod.snd Prod.fst counts

def shouldStoreDetailSamples (windowStartMs windowEndMs : ℕ) : Bool :=
  let intervalMs := detailSampleIntervalSecs * 1000
  windowStartMs / intervalMs != windowEndMs / intervalMs

/-! ### The loop -/

def sessionSample (session : LiveMonitorSession) (processSamples : List MonitorProcessSample)
    (includeDetailSamples : Bool) : MonitorSessionSample where
  sessionId := session.sessionId
  rootPid := session.rootPid
  rootStarttimeTicks := session.rootStarttimeTicks
  processCount := session.family.length
  cpuMs := (processSamples.map (·.cpuMs)).sum
  rssBytes := (processSamples.map (·.rssBytes)).sum
  readBytes := (processSamples.map (·.readBytes)).sum
  writeBytes := (processSamples.map (·.writeBytes)).sum
  fileTargets := session.fileTargetCounts.length
  networkTargets := session.networkTargetCounts.length
  processSamples := if includeDetailSamples then boundedProcessSamples processSamples else []
  fileSamples :=
    if includeDetailSamples then boundedTargetSamples session.fileTargetCounts else []
  networkSamples :=
    if includeDetailSamples then boundedTargetSamples session.networkTargetCounts else []

def addSession (ticksPerSecond : ℕ) (live : LiveMonitorSample) (io : MonitorIoState)
    (includeDetailSamples : Bool) (state : List MonitorSessionSample × MonitorIoState)
    (session : LiveMonitorSession) : List MonitorSessionSample × MonitorIoState :=
  let (processSamples, currentIo) := collectProcessSamples ticksPerSecond session.family
    live.current live.previous io state.2
  (state.1 ++ [sessionSample session processSamples includeDetailSamples], currentIo)

def buildMonitorSample (ticksPerSecond : ℕ) (live : LiveMonitorSample) (io : MonitorIoState) :
    MonitorSample × MonitorIoState :=
  let windowEndMs := live.atMs
  let windowStartMs := windowEndMs - monitorIntervalSecs * 1000
  let includeDetailSamples := shouldStoreDetailSamples windowStartMs windowEndMs
  let (sessions, currentIo) := live.sessions.foldl
    (addSession ticksPerSecond live io includeDetailSamples) ([], fun _ => none)
  (⟨windowStartMs, windowEndMs, sessions⟩, currentIo)

/-- A turn of the loop: when the snapshot is taken, and what is matched at `atMs`. -/
structure Tick where
  collectedMs : ℕ
  atMs : ℕ
  current : ProcSnapshot
  sessions : List LiveMonitorSession

structure MonitorState where
  previous : Option ProcSnapshot := none
  io : MonitorIoState := fun _ => none

def turn (ticksPerSecond : ℕ) (state : MonitorState) (tick : Tick) : MonitorSample × MonitorState :=
  let live : LiveMonitorSample := ⟨tick.atMs, tick.current, state.previous, tick.sessions⟩
  let (sample, io) := buildMonitorSample ticksPerSecond live state.io
  (sample, ⟨some tick.current, io⟩)

/-- The state before the `i`th turn. -/
def stateAt (ticksPerSecond : ℕ) (ticks : ℕ → Tick) : ℕ → MonitorState
  | 0 => {}
  | i + 1 => (turn ticksPerSecond (stateAt ticksPerSecond ticks i) (ticks i)).2

/-- What the `i`th turn stores. -/
def stored (ticksPerSecond : ℕ) (ticks : ℕ → Tick) (i : ℕ) : MonitorSample :=
  (turn ticksPerSecond (stateAt ticksPerSecond ticks i) (ticks i)).1

/-! ### What a turn stores -/

section Turn

variable {ticksPerSecond : ℕ} {family : List ℕ} {current : ProcSnapshot}
  {previous : Option ProcSnapshot} {io currentIo : MonitorIoState} {live : LiveMonitorSample}
  {key : ProcessKey}

/-- The samples of the processes of a family. -/
def processSamples (ticksPerSecond : ℕ) (family : List ℕ) (current : ProcSnapshot)
    (previous : Option ProcSnapshot) (io : MonitorIoState) : List MonitorProcessSample :=
  (family.filterMap current.get).map fun info =>
    processSample ticksPerSecond previous info (processIoDelta info io fun _ => none).1

theorem collectProcessSamples_fst :
    (collectProcessSamples ticksPerSecond family current previous io currentIo).1 =
      processSamples ticksPerSecond family current previous io := by
  have hfold (infos : List ProcInfo) out currentIo : (infos.foldl (fun state info =>
          (state.1 ++ [processSample ticksPerSecond previous info
            (processIoDelta info io state.2).1], (processIoDelta info io state.2).2))
        (out, currentIo)).1 = out ++ infos.map fun info =>
            processSample ticksPerSecond previous info
              (processIoDelta info io fun _ => none).1 := by
    induction infos generalizing out currentIo with
    | nil => simp
    | cons info infos ih =>
      rw [foldl_cons, ih, append_assoc]
      rfl
  exact (hfold _ [] currentIo).trans (nil_append _)

variable {bytes : ProcessKey → ℕ × ℕ}

/-- What is remembered of a process is what it had read and written. -/
theorem collectProcessSamples_snd (hbytes : ∀ info ∈ family.filterMap current.get,
      (info.readBytes, info.writeBytes) = bytes (processKey info)) :
    (collectProcessSamples ticksPerSecond family current previous io currentIo).2 key =
      if key ∈ (family.filterMap current.get).map processKey then some (bytes key)
      else currentIo key := by
  have hfold (infos : List ProcInfo) out currentIo
      (h : ∀ info ∈ infos, (info.readBytes, info.writeBytes) = bytes (processKey info)) :
      (infos.foldl (fun state info =>
          (state.1 ++ [processSample ticksPerSecond previous info
            (processIoDelta info io state.2).1], (processIoDelta info io state.2).2))
        (out, currentIo)).2 key =
          if key ∈ infos.map processKey then some (bytes key) else currentIo key := by
    induction infos generalizing out currentIo with
    | nil => simp
    | cons info infos ih =>
      rw [forall_mem_cons] at h
      rw [foldl_cons, ih _ _ h.2]
      dsimp only [processIoDelta]
      by_cases hkey : key = processKey info
      · subst hkey
        simp [h.1]
      · simp [hkey]
  exact hfold _ [] currentIo hbytes

/-- The keys of the processes that the sessions count. -/
def countedKeys (current : ProcSnapshot) (sessions : List LiveMonitorSession) : List ProcessKey :=
  sessions.flatMap fun session => (session.family.filterMap current.get).map processKey

theorem foldl_addSession_fst {detail : Bool} (sessions : List LiveMonitorSession)
    (out : List MonitorSessionSample) :
    (sessions.foldl (addSession ticksPerSecond live io detail) (out, currentIo)).1 =
      out ++ sessions.map fun session => sessionSample session
        (processSamples ticksPerSecond session.family live.current live.previous io) detail := by
  induction sessions generalizing out currentIo with
  | nil => simp
  | cons session sessions ih =>
    rw [foldl_cons, addSession]
    rw [ih, collectProcessSamples_fst, append_assoc]
    rfl

theorem foldl_addSession_snd {detail : Bool} (hbytes : ∀ info ∈ live.current.procs,
      (info.readBytes, info.writeBytes) = bytes (processKey info))
    (sessions : List LiveMonitorSession) (out : List MonitorSessionSample) :
    (sessions.foldl (addSession ticksPerSecond live io detail) (out, currentIo)).2 key =
      if key ∈ countedKeys live.current sessions then some (bytes key) else currentIo key := by
  induction sessions generalizing out currentIo with
  | nil => simp [countedKeys]
  | cons session sessions ih =>
    have hfamily : ∀ info ∈ session.family.filterMap live.current.get,
        (info.readBytes, info.writeBytes) = bytes (processKey info) := by
      intro info hinfo
      obtain ⟨pid, -, hget⟩ := mem_filterMap.mp hinfo
      exact hbytes info (ProcSnapshot.mem_of_get hget)
    rw [foldl_cons, addSession]
    rw [ih, collectProcessSamples_snd hfamily, countedKeys, countedKeys, flatMap_cons]
    rw [← ite_or]
    exact if_congr (by rw [mem_append, or_comm]) rfl rfl

theorem buildMonitorSample_sessions : (buildMonitorSample ticksPerSecond live io).1.sessions =
      live.sessions.map fun session => sessionSample session
        (processSamples ticksPerSecond session.family live.current live.previous io)
        (shouldStoreDetailSamples (live.atMs - monitorIntervalSecs * 1000) live.atMs) :=
  (foldl_addSession_fst live.sessions []).trans (nil_append _)

variable (live) in
theorem buildMonitorSample_io (hbytes : ∀ info ∈ live.current.procs,
      (info.readBytes, info.writeBytes) = bytes (processKey info)) :
    (buildMonitorSample ticksPerSecond live io).2 key =
      if key ∈ countedKeys live.current live.sessions then some (bytes key) else none :=
  foldl_addSession_snd hbytes live.sessions []

end Turn

/-- Detail samples of a session that has any process are some. -/
theorem boundedSamples_ne_nil {α ρ κ : Type} [LinearOrder ρ] [LinearOrder κ] {score : α → ρ}
    {key : α → κ} {samples : List α} (h : samples ≠ []) : boundedSamples score key samples ≠
    [] := by
  unfold boundedSamples
  split
  · simpa using h
  · refine append_ne_nil_of_left_ne_nil (ne_nil_of_length_pos ?_) _
    simp only [length_map, length_take, length_insertionSort, length_zipIdx]
    exact lt_min (by decide) (length_pos_of_ne_nil h)

/-! ### Runs -/

/-- What a process has used up to an instant. -/
structure Counters where
  ticks : ℕ
  readBytes : ℕ
  writeBytes : ℕ

/-- What each process has used up to each millisecond. -/
abbrev Usage := ProcessKey → ℕ → Counters

/-- The turns up to the `n`th read the counters of the processes, one turn after the other and
with the sleep between them. -/
structure Ran (usage : Usage) (ticks : ℕ → Tick) (n : ℕ) : Prop where
  ticks_mono : ∀ key, Monotone fun ms => (usage key ms).ticks
  readBytes_mono : ∀ key, Monotone fun ms => (usage key ms).readBytes
  writeBytes_mono : ∀ key, Monotone fun ms => (usage key ms).writeBytes
  reads : ∀ i ≤ n, ∀ info ∈ (ticks i).current.procs,
    (⟨info.ticks, info.readBytes, info.writeBytes⟩ : Counters) =
      usage (processKey info) (ticks i).collectedMs
  collectedMs_le : ∀ i ≤ n, (ticks i).collectedMs ≤ (ticks i).atMs
  atMs_le : ∀ i < n, (ticks i).atMs ≤ (ticks (i + 1)).collectedMs
  spaced : Windows.Spaced (fun i => (ticks i).atMs) (monitorIntervalSecs * 1000) n

/-- A session is matched on every turn, to processes of which one at least is in the snapshot. -/
def Matched (ticks : ℕ → Tick) (sessionId : String) (n : ℕ) : Prop :=
  ∀ i ≤ n, ∃ session ∈ (ticks i).sessions, session.sessionId = sessionId ∧
    session.family.filterMap (ticks i).current.get ≠ []

section Run

variable (ticksPerSecond : ℕ) (usage : Usage) (ticks : ℕ → Tick) (sessionId : String) (n i : ℕ)

/-- The window that the `i`th turn stores. -/
def storedWindow : Set ℕ :=
  Set.Ioc (stored ticksPerSecond ticks i).windowStartMs (stored ticksPerSecond ticks i).windowEndMs

/-- The samples of the processes of a session that the `i`th turn sums up. -/
def sessionSamples (session : LiveMonitorSession) : List MonitorProcessSample :=
  processSamples ticksPerSecond session.family (ticks i).current
    (stateAt ticksPerSecond ticks i).previous (stateAt ticksPerSecond ticks i).io

/-- The `i`th turn stores detail samples for the session. -/
def DetailStored : Prop :=
  ∃ session ∈ (stored ticksPerSecond ticks i).sessions,
    session.sessionId = sessionId ∧ session.processSamples ≠ []

/-- What a process had used when its deltas on turn `i + 1` start to count: at the snapshot
before, or at the start of the window if that is later. -/
def usedBefore (key : ProcessKey) : Counters :=
  usage key (max (ticks i).collectedMs (stored ticksPerSecond ticks (i + 1)).windowStartMs)

/-- What a process had used when its deltas on turn `i + 1` stop to count. -/
def usedAfter (key : ProcessKey) : Counters :=
  usage key (min (ticks (i + 1)).collectedMs (stored ticksPerSecond ticks (i + 1)).windowEndMs)

/-- A sample of turn `i + 1` counts only what was used inside the window of that turn. -/
def AccruedInside (sample : MonitorProcessSample) : Prop :=
  let key := (sample.pid, sample.pidStarttimeTicks)
  let before := usedBefore ticksPerSecond usage ticks i key
  let after := usedAfter ticksPerSecond usage ticks i key
  sample.cpuMs ≤ ticksToMs ticksPerSecond (after.ticks - before.ticks) ∧
    sample.readBytes ≤ after.readBytes - before.readBytes ∧
    sample.writeBytes ≤ after.writeBytes - before.writeBytes

/-- The windows of a session tile the time between the first turn and the last. -/
structure Tiled : Prop where
  disjoint : ∀ i ≤ n, ∀ j ≤ n, i ≠ j →
    Disjoint (storedWindow ticksPerSecond ticks i) (storedWindow ticksPerSecond ticks j)
  covers : ∀ ms ∈ Set.Ioc (ticks 0).atMs (ticks n).atMs, ∃ i ≤ n,
    ms ∈ storedWindow ticksPerSecond ticks i ∧
      ∃ session ∈ (stored ticksPerSecond ticks i).sessions, session.sessionId = sessionId
  first : ∀ session ∈ (ticks 0).sessions, session.sessionId = sessionId →
    ∀ sample ∈ sessionSamples ticksPerSecond ticks 0 session,
      sample.cpuMs = 0 ∧ sample.readBytes = 0 ∧ sample.writeBytes = 0
  inside : ∀ i < n, ∀ session ∈ (ticks (i + 1)).sessions, session.sessionId = sessionId →
    ∀ sample ∈ sessionSamples ticksPerSecond ticks (i + 1) session,
      AccruedInside ticksPerSecond usage ticks i sample
  detail : ∀ k, k * (detailSampleIntervalSecs * 1000) ∈ Set.Ioc (ticks 0).atMs (ticks n).atMs →
    ∃! i, i ≤ n ∧ k * (detailSampleIntervalSecs * 1000) ∈ storedWindow ticksPerSecond ticks i ∧
      DetailStored ticksPerSecond ticks sessionId i

/-- The process is in the snapshot of turn `i`. -/
def Seen (info : ProcInfo) : Prop :=
  ∃ prev, (ticks i).current.get info.pid = some prev ∧ prev.starttimeTicks = info.starttimeTicks

/-- Nothing that turn `i + 1` counts for the process was used between the snapshot of turn `i` and
the end of that turn. -/
def QuietProcess (info : ProcInfo) : Prop :=
  let collected := usage (processKey info) (ticks i).collectedMs
  let ended := usage (processKey info) (ticks i).atMs
  (Seen ticks i info → ticksToMs ticksPerSecond (info.ticks - collected.ticks) =
    ticksToMs ticksPerSecond (info.ticks - ended.ticks)) ∧
  (processKey info ∈ countedKeys (ticks i).current (ticks i).sessions →
    collected.readBytes = ended.readBytes ∧ collected.writeBytes = ended.writeBytes)

def Quiet : Prop :=
  ∀ session ∈ (ticks (i + 1)).sessions, session.sessionId = sessionId →
    ∀ info ∈ session.family.filterMap (ticks (i + 1)).current.get,
      QuietProcess ticksPerSecond usage ticks i info

end Run

section Run

variable {ticksPerSecond : ℕ} {usage : Usage} {ticks : ℕ → Tick} {sessionId : String} {n i : ℕ}
  {info : ProcInfo}

theorem stored_sessions :
    (stored ticksPerSecond ticks i).sessions = (ticks i).sessions.map fun session =>
      sessionSample session (sessionSamples ticksPerSecond ticks i session)
        (shouldStoreDetailSamples (stored ticksPerSecond ticks i).windowStartMs
          (stored ticksPerSecond ticks i).windowEndMs) :=
  buildMonitorSample_sessions

theorem stateAt_io (h : Ran usage ticks n) (hi : i ≤ n) (key : ProcessKey) :
    (stateAt ticksPerSecond ticks (i + 1)).io key =
      if key ∈ countedKeys (ticks i).current (ticks i).sessions then
        some ((usage key (ticks i).collectedMs).readBytes,
          (usage key (ticks i).collectedMs).writeBytes)
      else none := by
  let bytes key : ℕ × ℕ := ((usage key (ticks i).collectedMs).readBytes,
    (usage key (ticks i).collectedMs).writeBytes)
  have hbytes : ∀ info ∈ (ticks i).current.procs,
      (info.readBytes, info.writeBytes) = bytes (processKey info) := by
    intro info hinfo
    have hreads := h.reads i hi info hinfo
    exact Prod.ext (congrArg Counters.readBytes hreads) (congrArg Counters.writeBytes hreads)
  exact buildMonitorSample_io
    ⟨(ticks i).atMs, (ticks i).current, (stateAt ticksPerSecond ticks i).previous,
      (ticks i).sessions⟩ hbytes

theorem processCpuMsDelta_of_seen (h : Ran usage ticks n) (hi : i ≤ n) (hseen : Seen ticks i info) :
    processCpuMsDelta ticksPerSecond info (some (ticks i).current) = ticksToMs ticksPerSecond
      (info.ticks - (usage (processKey info) (ticks i).collectedMs).ticks) := by
  obtain ⟨prev, hget, hstart⟩ := hseen
  have hkey : processKey prev = processKey info :=
    Prod.ext (ProcSnapshot.pid_of_get hget) hstart
  have hreads := h.reads i hi prev (ProcSnapshot.mem_of_get hget)
  rw [← hkey, ← congrArg Counters.ticks hreads]
  simp only [processCpuMsDelta, Option.bind_some, hget, hstart, ne_eq, not_true_eq_false, if_false]

theorem processCpuMsDelta_of_not_seen (hseen : ¬ Seen ticks i info) :
    processCpuMsDelta ticksPerSecond info (some (ticks i).current) = 0 := by
  rw [processCpuMsDelta, Option.bind_some]
  cases hget : (ticks i).current.get info.pid with
  | none => rfl
  | some prev => exact if_pos fun hstart => hseen ⟨prev, hget, hstart⟩

theorem ticksToMs_mono : Monotone (ticksToMs ticksPerSecond) := by
  intro a b hab
  unfold ticksToMs
  gcongr

section

variable (h : Ran usage ticks n)
include h

theorem cpuMs_le_iff (hi : i ≤ n) :
    processCpuMsDelta ticksPerSecond info (some (ticks i).current) ≤
        ticksToMs ticksPerSecond (info.ticks - (usage (processKey info) (ticks i).atMs).ticks) ↔
      (Seen ticks i info → ticksToMs ticksPerSecond
            (info.ticks - (usage (processKey info) (ticks i).collectedMs).ticks) =
          ticksToMs ticksPerSecond
            (info.ticks - (usage (processKey info) (ticks i).atMs).ticks)) := by
  by_cases hseen : Seen ticks i info
  · rw [processCpuMsDelta_of_seen h hi hseen]
    have hticks := h.ticks_mono (processKey info) (h.collectedMs_le i hi)
    exact ⟨fun hle _ => hle.antisymm (ticksToMs_mono (Nat.sub_le_sub_left hticks _)),
      fun heq => (heq hseen).le⟩
  · rw [processCpuMsDelta_of_not_seen hseen]
    exact iff_of_true (Nat.zero_le _) fun hseen' => absurd hseen' hseen

theorem bytes_le_iff (hi : i < n)
    (hinfo : info ∈ (ticks (i + 1)).current.procs) :
    ((processIoDelta info (stateAt ticksPerSecond ticks (i + 1)).io fun _ => none).1.1 ≤
          info.readBytes - (usage (processKey info) (ticks i).atMs).readBytes ∧
        (processIoDelta info (stateAt ticksPerSecond ticks (i + 1)).io fun _ => none).1.2 ≤
          info.writeBytes - (usage (processKey info) (ticks i).atMs).writeBytes) ↔
      (processKey info ∈ countedKeys (ticks i).current (ticks i).sessions →
        (usage (processKey info) (ticks i).collectedMs).readBytes =
            (usage (processKey info) (ticks i).atMs).readBytes ∧
          (usage (processKey info) (ticks i).collectedMs).writeBytes =
            (usage (processKey info) (ticks i).atMs).writeBytes) := by
  have hread := h.readBytes_mono (processKey info) (h.collectedMs_le i hi.le)
  have hwritten := h.writeBytes_mono (processKey info) (h.collectedMs_le i hi.le)
  have hread' := h.readBytes_mono (processKey info) (h.atMs_le i hi)
  have hwritten' := h.writeBytes_mono (processKey info) (h.atMs_le i hi)
  have hreads := h.reads (i + 1) hi info hinfo
  simp only [← hreads] at hread hwritten hread' hwritten'
  simp only [processIoDelta, stateAt_io h hi.le]
  by_cases hcounted : processKey info ∈ countedKeys (ticks i).current (ticks i).sessions
  · simp only [hcounted, if_true, forall_const]
    omega
  · simp [hcounted]

/-- Between turns that are the interval apart, a sample counts only what was used in its window
exactly if nothing that it counts was used before. -/
theorem accruedInside_iff (hi : i < n)
    (hexact : (ticks (i + 1)).atMs = (ticks i).atMs + monitorIntervalSecs * 1000)
    (hinfo : info ∈ (ticks (i + 1)).current.procs) :
    AccruedInside ticksPerSecond usage ticks i
        (processSample ticksPerSecond (stateAt ticksPerSecond ticks (i + 1)).previous info
          (processIoDelta info (stateAt ticksPerSecond ticks (i + 1)).io fun _ => none).1) ↔
      QuietProcess ticksPerSecond usage ticks i info := by
  have hbefore : usedBefore ticksPerSecond usage ticks i (processKey info) =
      usage (processKey info) (ticks i).atMs := by
    have hstart : (stored ticksPerSecond ticks (i + 1)).windowStartMs = (ticks i).atMs :=
      Nat.sub_eq_of_eq_add hexact
    rw [usedBefore, hstart, max_eq_right (h.collectedMs_le i hi.le)]
  have hafter : usedAfter ticksPerSecond usage ticks i (processKey info) =
      ⟨info.ticks, info.readBytes, info.writeBytes⟩ := by
    have hend : (stored ticksPerSecond ticks (i + 1)).windowEndMs = (ticks (i + 1)).atMs := rfl
    rw [usedAfter, hend, min_eq_left (h.collectedMs_le (i + 1) hi), h.reads (i + 1) hi info hinfo]
  change (_ ≤ ticksToMs ticksPerSecond
      ((usedAfter ticksPerSecond usage ticks i (processKey info)).ticks -
        (usedBefore ticksPerSecond usage ticks i (processKey info)).ticks) ∧
    _ ≤ (usedAfter ticksPerSecond usage ticks i (processKey info)).readBytes -
        (usedBefore ticksPerSecond usage ticks i (processKey info)).readBytes ∧
    _ ≤ (usedAfter ticksPerSecond usage ticks i (processKey info)).writeBytes -
        (usedBefore ticksPerSecond usage ticks i (processKey info)).writeBytes) ↔ _
  rw [hbefore, hafter]
  exact and_congr (cpuMs_le_iff h hi.le) (bytes_le_iff h hi hinfo)

theorem forall_accruedInside_iff (hi : i < n)
    (hexact : (ticks (i + 1)).atMs = (ticks i).atMs + monitorIntervalSecs * 1000) :
    (∀ session ∈ (ticks (i + 1)).sessions, session.sessionId = sessionId →
        ∀ sample ∈ sessionSamples ticksPerSecond ticks (i + 1) session,
          AccruedInside ticksPerSecond usage ticks i sample) ↔
      Quiet ticksPerSecond usage ticks sessionId i := by
  unfold Quiet sessionSamples processSamples
  simp only [forall_mem_map]
  refine forall₃_congr fun session _ _ => forall₂_congr fun info hinfo => ?_
  obtain ⟨pid, -, hget⟩ := mem_filterMap.mp hinfo
  exact accruedInside_iff h hi hexact (ProcSnapshot.mem_of_get hget)

end

theorem exists_stored (hmatched : Matched ticks sessionId n) (hi : i ≤ n) :
    ∃ session ∈ (stored ticksPerSecond ticks i).sessions, session.sessionId = sessionId := by
  obtain ⟨session, hsession, hid, -⟩ := hmatched i hi
  rw [stored_sessions]
  exact ⟨_, mem_map_of_mem hsession, hid⟩

theorem detailStored (hmatched : Matched ticks sessionId n) (hi : i ≤ n) {k : ℕ}
    (hk : k * (detailSampleIntervalSecs * 1000) ∈ storedWindow ticksPerSecond ticks i) :
    DetailStored ticksPerSecond ticks sessionId i := by
  obtain ⟨session, hsession, hid, hfamily⟩ := hmatched i hi
  have hdetail : shouldStoreDetailSamples (stored ticksPerSecond ticks i).windowStartMs
      (stored ticksPerSecond ticks i).windowEndMs = true :=
    bne_iff_ne.mpr (Windows.div_ne_of_mem (by decide) hk)
  rw [DetailStored, stored_sessions]
  refine ⟨_, mem_map_of_mem hsession, hid, ?_⟩
  simp only [sessionSample, hdetail, if_true]
  exact boundedSamples_ne_nil fun hnil => hfamily (map_eq_nil_iff.mp hnil)

/-- The windows of a session tile the time exactly if the turns are the interval apart, and
nothing that is counted was used between a snapshot and the end of its turn. -/
theorem tiled_iff (h : Ran usage ticks n) (hmatched : Matched ticks sessionId n) :
    Tiled ticksPerSecond usage ticks sessionId n ↔
      ∀ i < n, (ticks (i + 1)).atMs = (ticks i).atMs + monitorIntervalSecs * 1000 ∧
        Quiet ticksPerSecond usage ticks sessionId i := by
  constructor
  · intro htiled
    have hexact := h.spaced.covers_iff.mp fun ms hms =>
      let ⟨i, hi, hmem, _⟩ := htiled.covers ms hms
      ⟨i, hi, hmem⟩
    exact fun i hi =>
      ⟨hexact i hi, (forall_accruedInside_iff h hi (hexact i hi)).mp (htiled.inside i hi)⟩
  · intro hcond
    have hcovers := h.spaced.covers_iff.mpr fun i hi => (hcond i hi).1
    refine ⟨fun i hi j hj hij => h.spaced.disjoint hi hj hij, ?_, ?_, ?_, ?_⟩
    · intro ms hms
      obtain ⟨i, hi, hmem⟩ := hcovers ms hms
      exact ⟨i, hi, hmem, exists_stored hmatched hi⟩
    · intro session _ _ sample hsample
      obtain ⟨info, -, rfl⟩ := mem_map.mp hsample
      exact ⟨rfl, rfl, rfl⟩
    · exact fun i hi => (forall_accruedInside_iff h hi (hcond i hi).1).mpr (hcond i hi).2
    · intro k hk
      obtain ⟨i, ⟨hi, hmem⟩, hunique⟩ := h.spaced.existsUnique hcovers hk
      exact ⟨i, ⟨hi, hmem, detailStored hmatched hi hmem⟩, fun j ⟨hj, hmem', _⟩ =>
        hunique j ⟨hj, hmem'⟩⟩

end Run

/-! ### A slow turn -/

section TwoTurns

variable {laterMs : ℕ}

/-- A process that works for a second. -/
def workerUsage : Usage := fun _ ms => ⟨if ms < 29000 then 0 else 100, 0, 0⟩

def worker (ticks : ℕ) : ProcInfo := ⟨1, 0, 1, "claude", "claude", ticks, 7, 0, 0, 1, 0, 0⟩

/-- Turns at 28 s and at the later time. -/
def twoTicks (laterMs i : ℕ) : Tick :=
  let atMs := if i = 0 then 28000 else laterMs
  ⟨atMs, atMs, ⟨0, [worker (workerUsage (1, 7) atMs).ticks], pairwise_singleton _ _⟩,
    [⟨"session", 1, 7, [1], [], []⟩]⟩

theorem ran_twoTicks (h : 30000 ≤ laterMs) : Ran workerUsage (twoTicks laterMs) 1 where
  ticks_mono _ a b hab := by
    simp only [workerUsage]
    split_ifs <;> omega
  readBytes_mono _ _ _ _ := le_rfl
  writeBytes_mono _ _ _ _ := le_rfl
  reads i _ info hinfo := by
    obtain rfl := mem_singleton.mp hinfo
    rfl
  collectedMs_le _ _ := le_rfl
  atMs_le i hi := by
    obtain rfl := Nat.lt_one_iff.mp hi
    exact (by decide : 28000 ≤ 30000).trans h
  spaced i hi := by
    obtain rfl := Nat.lt_one_iff.mp hi
    exact h

theorem matched_twoTicks : Matched (twoTicks laterMs) "session" 1 := by
  intro i _
  exact ⟨_, mem_singleton_self _, rfl, cons_ne_nil _ _⟩

/-- If the second turn ends five seconds after the first, the windows leave out three of them and
the 30-second boundary, and the second of work in between is counted in a later window. -/
theorem slow_turn_not_tiled :
    Ran workerUsage (twoTicks 33000) 1 ∧ Matched (twoTicks 33000) "session" 1 ∧
      storedWindow 100 (twoTicks 33000) 0 = Set.Ioc 26000 28000 ∧
      storedWindow 100 (twoTicks 33000) 1 = Set.Ioc 31000 33000 ∧
      (∀ i ≤ 1, 30000 ∉ storedWindow 100 (twoTicks 33000) i) ∧
      (stored 100 (twoTicks 33000) 1).sessions.map (·.cpuMs) = [1000] ∧
      ¬ Tiled 100 workerUsage (twoTicks 33000) "session" 1 := by
  have hmissed : ∀ i ≤ 1, 30000 ∉ storedWindow 100 (twoTicks 33000) i := by
    intro i hi hmem
    obtain rfl | rfl := Nat.le_one_iff_eq_zero_or_eq_one.mp hi
    · exact absurd hmem.2 (by decide)
    · exact absurd hmem.1 (by decide)
  refine ⟨ran_twoTicks (by decide), matched_twoTicks, rfl, rfl, hmissed, by decide +kernel, ?_⟩
  intro htiled
  obtain ⟨i, hi, hmem, -⟩ := htiled.covers 30000 ⟨by decide, by decide⟩
  exact hmissed i hi hmem

/-- If it ends two seconds after the first, they tile the time. -/
theorem steady_turns_tiled : Tiled 100 workerUsage (twoTicks 30000) "session" 1 := by
  refine (tiled_iff (ran_twoTicks le_rfl) matched_twoTicks).mpr fun i hi => ?_
  obtain rfl := Nat.lt_one_iff.mp hi
  exact ⟨rfl, fun _ _ _ info _ => ⟨fun _ => rfl, fun _ => ⟨rfl, rfl⟩⟩⟩

end TwoTurns

end AgentSight.Monitor
