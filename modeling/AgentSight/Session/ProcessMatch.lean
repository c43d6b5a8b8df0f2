import Mathlib.Data.List.Sort
import Mathlib.Data.Rat.Defs
import AgentSight.Lib.KeyedTable
import AgentSight.Text

/-!
# Matching sessions to processes

`session/src/process_match.rs`: `match_sessions` links the sessions of a refresh to the processes
that are live in it. A process that has a session log open, or was seen to touch one, is linked to
the session of that log, and the matcher remembers it as a binding of the pid; where there is no
such evidence a binding decides, and what is left over is linked by working directory.

A hash map is a function here, and a path the text of it. What `fs::canonicalize` says is part of
the input of a refresh. The age of a process is of any type, with its rounding to milliseconds.
-/

namespace AgentSight.Session

open Str KeyedTable

/-- `(age_s.max(0.0) * 1000.0).round() as u64`. -/
class Clock (Age : Type) where
  millis : Age → ℕ

/-! ### Paths -/

def normalizePathText (path : String) : String :=
  String.ofList (path.toList.map fun c => if c = '\\' then '/' else c)

/-- A drive letter is one byte. -/
def isAbsolutePathText (path : String) : Bool :=
  let path := normalizePathText path
  startsWith path "/" ||
    match path.toList with
    | drive :: ':' :: '/' :: _ => drive.utf8Size = 1
    | _ => false

/-- `Path::file_name`: the last component unless it is the parent directory. -/
def fileName (path : String) : Option String :=
  (((split path (· = '/')).filter fun part => part ≠ "" ∧ part ≠ ".").getLast?).filter (· ≠ "..")

/-- `Path::extension`. -/
def extension (path : String) : Option String :=
  (fileName path).bind fun name =>
  (rsplitOnce name ".").bind fun (stem, ext) => if stem = "" then none else some ext

def isCursorTranscript (path : String) : Bool :=
  extension path = some "jsonl" && contains (normalizePathText path) "/agent-transcripts/"

def agentSourceForPath (path : String) : Option String :=
  let value := normalizePathText path
  if contains value "/.claude/" && extension path = some "jsonl" then some "claude"
  else if contains value "/.codex/" && extension path = some "jsonl" then some "codex"
  else if contains value "/.gemini/" && extension path = some "json" then some "gemini"
  else if contains value "/.cursor/" && isCursorTranscript path then some "cursor"
  else none

def isAgentSessionFile (path : String) : Bool := (agentSourceForPath path).isSome

/-- `str::trim_end_matches` of a string, for a number of rounds. -/
def trimEndPattern (pat : String) : ℕ → String → String
  | 0, text => text
  | rounds + 1, text =>
    match stripSuffix text pat with
    | some text => trimEndPattern pat rounds text
    | none => text

section Paths

variable (canonicalize : String → Option String)

def normalizeSessionLogPath (path : String) : String := (canonicalize path).getD path

def sessionLogPathFromStr (raw : String) : Option String :=
  let trimmed := trimEndPattern " (deleted)" raw.length (trim raw)
  if trimmed = "" then none
  else if !isAbsolutePathText trimmed || !isAgentSessionFile trimmed then none
  else (agentSourceForPath trimmed).map fun _ => normalizeSessionLogPath canonicalize trimmed

def normalizeCwd (cwd : String) : String :=
  if startsWith cwd "/" then (canonicalize cwd).getD cwd else cwd

end Paths

/-! ### Processes and sessions -/

structure ProcessKey where
  pid : ℕ
  starttimeTicks : ℕ
  deriving DecidableEq

structure ProcessTree where
  root : ProcessKey
  members : List ProcessKey
  deriving DecidableEq

structure LiveProcessCandidate (Age : Type) where
  tree : ProcessTree
  agent : String
  ageS : Option Age
  cwd : Option String
  deriving DecidableEq

structure SessionProcessInput where
  id : String
  agent : String
  path : String
  startTimestampMs : Option ℕ
  endTimestampMs : Option ℕ
  cwd : Option String
  deriving DecidableEq

/-- How a session was linked. -/
inductive Trace where
  | ebpfFile
  | procFd
  | stickyBinding
  | recentCwd
  deriving DecidableEq

def sourceSessionProcessMatch : String := "agent_session.process_match"

def confidenceForEvidence : Trace → ℚ
  | .ebpfFile => 95 / 100
  | .procFd => 90 / 100
  | .stickyBinding => 70 / 100
  | .recentCwd => 55 / 100

structure SessionProcessMatch where
  sessionId : String
  rootPid : ℕ
  matchedPids : List ℕ
  pidStarttimeTicks : ℕ
  source : String
  confidence : ℚ
  evidence : Trace
  deriving DecidableEq

structure SessionProcessMatches where
  bySessionId : String → Option SessionProcessMatch
  byPid : ℕ → Option String
  usedRootPids : List ℕ

def SessionProcessMatches.empty : SessionProcessMatches := ⟨fun _ => none, fun _ => none, []⟩

structure LiveSessionBinding where
  starttimeTicks : ℕ
  sessionPath : String
  deriving DecidableEq

/-- The state of a matcher, by pid. -/
abbrev Bindings := ℕ → Option LiveSessionBinding

/-- The session logs that a process touches, each with how that is known. -/
abbrev Evidence := List (String × Trace)

/-- What a call of `match_sessions` is given. -/
structure Refresh (Age : Type) where
  sessions : List SessionProcessInput
  processes : List (LiveProcessCandidate Age)
  fdPathsByProcess : ProcessKey → List String
  observedPathByProcess : ProcessKey → Option String
  nowMs : ℕ
  canonicalize : String → Option String

variable {Age : Type}

/-! ### Evidence -/

/-- The evidence of one process. What was observed replaces what is open. -/
def processEvidence (r : Refresh Age) (process : LiveProcessCandidate Age) : Evidence :=
  process.tree.members.foldl (fun evidence key =>
    let evidence := (r.fdPathsByProcess key).foldl (fun evidence path =>
      match sessionLogPathFromStr r.canonicalize path with
      | some sessionPath => insertOrIgnore Prod.fst evidence (sessionPath, .procFd)
      | none => evidence) evidence
    match (r.observedPathByProcess key).bind (sessionLogPathFromStr r.canonicalize) with
    | some sessionPath =>
      upsert Prod.fst evidence (sessionPath, .ebpfFile) fun _ => (sessionPath, .ebpfFile)
    | none => evidence) []

def collectPathEvidence (r : Refresh Age) : ℕ → Option Evidence :=
  r.processes.foldl (fun out process =>
    let evidence := processEvidence r process
    if evidence ≠ [] then Function.update out process.tree.root.pid (some evidence) else out)
    fun _ => none

/-! ### Times -/

def u64Max : ℕ := 2 ^ 64 - 1

def sessionProcessStartSkewMs : ℕ := 30000

def sessionEndMs (session : SessionProcessInput) : ℕ :=
  (session.endTimestampMs.or session.startTimestampMs).getD 0

/-- `session_end_ms.saturating_add(SESSION_PROCESS_START_SKEW_MS)`. -/
def latestStartMs (session : SessionProcessInput) : ℕ :=
  min (sessionEndMs session + sessionProcessStartSkewMs) u64Max

def processStartMs [Clock Age] (process : LiveProcessCandidate Age) (nowMs : ℕ) : Option ℕ :=
  process.ageS.map fun ageS => nowMs - Clock.millis ageS

def sessionIsFreshEnoughForProcess [Clock Age] (session : SessionProcessInput)
    (process : LiveProcessCandidate Age) (nowMs : ℕ) : Bool :=
  match processStartMs process nowMs with
  | none => true
  | some start => start ≤ latestStartMs session

def recentCwdDistanceMs [Clock Age] (r : Refresh Age) (session : SessionProcessInput)
    (process : LiveProcessCandidate Age) : Option ℕ :=
  (session.cwd.filter (· ≠ "")).bind fun sessionCwd =>
  (process.cwd.filter (· ≠ "")).bind fun processCwd =>
  if normalizeCwd r.canonicalize sessionCwd ≠ normalizeCwd r.canonicalize processCwd then none
  else
    (processStartMs process r.nowMs).bind fun start =>
    if start ≤ latestStartMs session then
      some (max (sessionEndMs session) start - min (sessionEndMs session) start)
    else none

/-! ### The matcher -/

/-- A binding stays while its process is live. -/
def retainLive (bindings : Bindings) (processes : List (LiveProcessCandidate Age)) : Bindings :=
  fun pid => (bindings pid).filter fun binding => processes.any fun process =>
    process.tree.root = ⟨pid, binding.starttimeTicks⟩

/-- Whether and how the process is linked to a log path, and the bindings after. -/
def linkTrace (evidence : ℕ → Option Evidence) (path : String)
    (process : LiveProcessCandidate Age) (bindings : Bindings) : Option Trace × Bindings :=
  let pid := process.tree.root.pid
  match evidence pid with
  | some paths =>
    match find Prod.fst paths path with
    | some (_, trace) =>
      (some trace, Function.update bindings pid (some ⟨process.tree.root.starttimeTicks, path⟩))
    | none => (none, Function.update bindings pid none)
  | none =>
    (((bindings pid).filter (· = ⟨process.tree.root.starttimeTicks, path⟩)).map fun _ =>
      .stickyBinding, bindings)

section LinkTrace

variable {evidence : ℕ → Option Evidence} {path : String} {process : LiveProcessCandidate Age}
  {paths : Evidence} (bindings : Bindings)

/-- Without evidence the binding decides. -/
theorem linkTrace_of_none (h : evidence process.tree.root.pid = none) :
    linkTrace evidence path process bindings = (((bindings process.tree.root.pid).filter
      (· = ⟨process.tree.root.starttimeTicks, path⟩)).map fun _ => .stickyBinding, bindings) := by
  simp [linkTrace, h]

theorem linkTrace_of_find {entry : String × Trace} (h : evidence process.tree.root.pid = some paths)
    (hfind : find Prod.fst paths path = some entry) :
    linkTrace evidence path process bindings =
      (some entry.2, Function.update bindings process.tree.root.pid
        (some ⟨process.tree.root.starttimeTicks, path⟩)) := by
  simp [linkTrace, h, hfind]

/-- Evidence without the path takes the binding away. -/
theorem linkTrace_of_not_find (h : evidence process.tree.root.pid = some paths)
    (hfind : find Prod.fst paths path = none) :
    linkTrace evidence path process bindings =
      (none, Function.update bindings process.tree.root.pid none) := by
  simp [linkTrace, h, hfind]

end LinkTrace

def canUseCwdTrace (evidence : ℕ → Option Evidence) (bindings : Bindings) (path : String)
    (process : LiveProcessCandidate Age) : Bool :=
  let pid := process.tree.root.pid
  if (evidence pid).isSome then false
  else
    !(bindings pid).any fun binding =>
      binding.starttimeTicks = process.tree.root.starttimeTicks && binding.sessionPath ≠ path

def recordMatch (out : SessionProcessMatches) (session : SessionProcessInput)
    (process : LiveProcessCandidate Age) (evidence : Trace) : SessionProcessMatches :=
  let matchedPids := process.tree.members.map ProcessKey.pid
  { usedRootPids := out.usedRootPids.insert process.tree.root.pid
    byPid := matchedPids.foldl (fun byPid pid => Function.update byPid pid (some session.id))
      out.byPid
    bySessionId := Function.update out.bySessionId session.id (some
      { sessionId := session.id
        rootPid := process.tree.root.pid
        matchedPids
        pidStarttimeTicks := process.tree.root.starttimeTicks
        source := sourceSessionProcessMatch
        confidence := confidenceForEvidence evidence
        evidence }) }

/-- The guards of the search that come before `link_trace`. -/
def mayLink [Clock Age] (r : Refresh Age) (used : List ℕ) (session : SessionProcessInput)
    (process : LiveProcessCandidate Age) : Bool :=
  process.tree.root.pid ∉ used && process.agent = session.agent &&
    sessionIsFreshEnoughForProcess session process r.nowMs

/-- `find_map` over the processes: the search of a session. -/
def search [Clock Age] (r : Refresh Age) (used : List ℕ) (session : SessionProcessInput) :
    List (LiveProcessCandidate Age) → Bindings →
      Option (LiveProcessCandidate Age × Trace) × Bindings
  | [], bindings => (none, bindings)
  | process :: processes, bindings =>
    if mayLink r used session process then
      let path := normalizeSessionLogPath r.canonicalize session.path
      match linkTrace (collectPathEvidence r) path process bindings with
      | (some evidence, bindings) => (some (process, evidence), bindings)
      | (none, bindings) => search r used session processes bindings
    else search r used session processes bindings

/-- The matches of a call so far, and the bindings. -/
structure Pass where
  out : SessionProcessMatches
  bindings : Bindings

/-- The turn of a session. -/
def turn [Clock Age] (r : Refresh Age) (pass : Pass) (session : SessionProcessInput) : Pass :=
  match search r pass.out.usedRootPids session r.processes pass.bindings with
  | (some (process, evidence), bindings) =>
    ⟨recordMatch pass.out session process evidence, bindings⟩
  | (none, bindings) => ⟨pass.out, bindings⟩

/-- A pair that the working directory could link, with what it is sorted by. -/
structure CwdCandidate (Age : Type) where
  distanceMs : ℕ
  endMs : ℕ
  sessionIndex : ℕ
  processIndex : ℕ
  session : SessionProcessInput
  process : LiveProcessCandidate Age

/-- The order of the tuples; the later end comes first. -/
def CwdCandidate.le (a b : CwdCandidate Age) : Bool :=
  if a.distanceMs ≠ b.distanceMs then a.distanceMs < b.distanceMs
  else if a.endMs ≠ b.endMs then b.endMs < a.endMs
  else if a.sessionIndex ≠ b.sessionIndex then a.sessionIndex < b.sessionIndex
  else a.processIndex ≤ b.processIndex

def cwdCandidates [Clock Age] (r : Refresh Age) (pass : Pass) : List (CwdCandidate Age) :=
  r.sessions.zipIdx.flatMap fun (session, sessionIndex) =>
    if (pass.out.bySessionId session.id).isSome then []
    else
      r.processes.zipIdx.filterMap fun (process, processIndex) =>
        let path := normalizeSessionLogPath r.canonicalize session.path
        if process.tree.root.pid ∈ pass.out.usedRootPids || process.agent ≠ session.agent ||
            !canUseCwdTrace (collectPathEvidence r) pass.bindings path process then none
        else
          (recentCwdDistanceMs r session process).map fun distanceMs =>
            ⟨distanceMs, sessionEndMs session, sessionIndex, processIndex, session, process⟩

def linkByCwd (out : SessionProcessMatches) (candidate : CwdCandidate Age) :
    SessionProcessMatches :=
  if (out.bySessionId candidate.session.id).isSome ||
      candidate.process.tree.root.pid ∈ out.usedRootPids then out
  else recordMatch out candidate.session candidate.process .recentCwd

def matchSessions [Clock Age] (bindings : Bindings) (r : Refresh Age) :
    SessionProcessMatches × Bindings :=
  let pass := r.sessions.foldl (turn r) ⟨.empty, retainLive bindings r.processes⟩
  let candidates := (cwdCandidates r pass).insertionSort fun a b => CwdCandidate.le a b
  (candidates.foldl linkByCwd pass.out, pass.bindings)

end AgentSight.Session
