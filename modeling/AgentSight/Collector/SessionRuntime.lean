import AgentSight.Runners.AgentRoots
import AgentSight.Session.ProcessMatch

/-!
# Runtime slots of live sessions

`submit_message`, `session_is_running` and `remove_empty_runtime_slot` of
`collector/src/server/session_runtime.rs`. The map from session ids to slots has a lock of its own,
and each slot is a mutex over an optional runtime. A submission runs from one lock or wait to the
next; the stage it is in says what it owns. A provider process goes on until it exits by itself: to
drop a runtime closes the process's input and nothing else. What finds it then is a look at the
process table, with the matcher of sessions and processes.
-/

namespace AgentSight.Collector

open KeyedTable
open Runners (ProcInfo ProcSnapshot)
open Session (Clock LiveProcessCandidate ProcessKey Refresh SessionProcessInput matchSessions)

/-! ### Whether a session is running -/

/-- What `session_is_running` reads of the machine: the processes with their working directories
and ages, the paths that they have open, and the clock. -/
structure Machine (Age : Type) where
  sample : ProcSnapshot
  cwd : ℕ → Option String
  processAgeS : ProcInfo → Age
  fdPaths : ProcessKey → List String
  canonicalize : String → Option String
  nowMs : ℕ

namespace Machine

variable {Age : Type} (machine : Machine Age)

def processKey (info : ProcInfo) : ProcessKey := ⟨info.pid, info.starttimeTicks⟩

/-- The candidate of a root of the agent, with its family. -/
def candidate (agent : String) (rootPid : ℕ) : Option (LiveProcessCandidate Age) :=
  (machine.sample.get rootPid).bind fun root =>
    if root.agentLabel = some agent then
      let family := machine.sample.processFamilyExcluding rootPid
        machine.sample.rootPidsForKnownAgents
      some
        { tree := ⟨processKey root, family.filterMap fun pid =>
            (machine.sample.get pid).map processKey⟩
          agent
          ageS := some (machine.processAgeS root)
          cwd := machine.cwd rootPid }
    else none

/-- What the matcher is given: the one session, and the roots of its agent. -/
def refresh (session : SessionProcessInput) : Refresh Age where
  sessions := [session]
  processes := machine.sample.rootPidsForKnownAgents.filterMap (machine.candidate session.agent)
  fdPathsByProcess := machine.fdPaths
  observedPathByProcess := fun _ => none
  nowMs := machine.nowMs
  canonicalize := machine.canonicalize

/-- `session_is_running`. `ProcSnapshot::collect` returns a table always. -/
def sessionIsRunning [Clock Age] (session : SessionProcessInput) : Bool :=
  ((matchSessions (fun _ => none) (machine.refresh session)).1.bySessionId session.id).isSome

end Machine

/-! ### Submissions -/

inductive Agent where
  | claude
  | codex
  | gemini
  | other
  deriving DecidableEq

def Agent.ofType (agentType : String) : Agent :=
  if agentType = "claude" then .claude
  else if agentType = "codex" then .codex
  else if agentType = "gemini" then .gemini
  else .other

/-- A provider process that was started for a session. -/
structure Process where
  sessionId : String
  alive : Bool
  deriving DecidableEq

/-- Where a submission is. It owns its clone of a slot from `cloned` on, and the guard of the
slot's mutex from `locked` on until it is `cleaning`. -/
inductive Stage where
  | arriving
  | cloned (slot : ℕ)
  | locked (slot : ℕ)
  /-- The message goes to the runtime that was found in the slot. -/
  | sending (slot process : ℕ)
  /-- No running provider was found; one is to be started. -/
  | starting (slot : ℕ)
  /-- The provider runs and is sent its first message. -/
  | started (slot process : ℕ)
  /-- The guard is dropped; `remove_empty_runtime_slot` is called. -/
  | cleaning (slot : ℕ)
  deriving DecidableEq

/-- The slot that a submission owns a clone of. -/
def Stage.slot : Stage → Option ℕ
  | .arriving => none
  | .cloned slot => some slot
  | .locked slot => some slot
  | .sending slot _ => some slot
  | .starting slot => some slot
  | .started slot _ => some slot
  | .cleaning slot => some slot

/-- The slot that a submission holds the guard of. -/
def Stage.lock : Stage → Option ℕ
  | .locked slot => some slot
  | .sending slot _ => some slot
  | .starting slot => some slot
  | .started slot _ => some slot
  | _ => none

/-- A call of `submit_message`, with what it reads of its session. -/
structure Submission where
  session : SessionProcessInput
  stage : Stage
  deriving DecidableEq

abbrev Submission.sessionId (sub : Submission) : String := sub.session.id

def Submission.agent (sub : Submission) : Agent := .ofType sub.session.agent

inductive SendResult where
  | accepted
  | conflict
  | failed
  deriving DecidableEq

/-- What a submission meets: the machine, whether a provider can be spawned, and how a message is
received. -/
structure Surroundings (Age : Type) where
  machine : Machine Age
  spawns : Bool
  sent : SendResult

structure Runtimes where
  map : List (String × ℕ)
  /-- The contents of the slots that were ever allocated. -/
  slots : List (Option ℕ)
  submissions : List Submission
  processes : List Process
  deriving DecidableEq

namespace Runtimes

def init : Runtimes := ⟨[], [], [], []⟩

variable {Age : Type} [Clock Age] (s : Runtimes)

def isLocked (slot : ℕ) : Bool := s.submissions.any fun sub => sub.stage.lock = some slot

/-- `Arc::strong_count`: the clones in the map and those of the submissions. -/
def strongCount (slot : ℕ) : ℕ :=
  s.map.countP (fun entry => entry.2 = slot) +
    s.submissions.countP fun sub => sub.stage.slot = some slot

def goto (i : ℕ) (sub : Submission) (stage : Stage) : Runtimes :=
  { s with submissions := s.submissions.set i { sub with stage } }

/-- The submission returns or is dropped, with what it owns. -/
def finish (i : ℕ) : Runtimes := { s with submissions := s.submissions.eraseIdx i }

def store (slot : ℕ) (runtime : Option ℕ) : Runtimes :=
  { s with slots := s.slots.set slot runtime }

/-- The entry of the map, which is inserted when there is none. -/
def acquire (i : ℕ) (sub : Submission) : Runtimes :=
  match find Prod.fst s.map sub.sessionId with
  | some entry => s.goto i sub (.cloned entry.2)
  | none =>
    let slot := s.slots.length
    Runtimes.goto { s with
      map := s.map ++ [(sub.sessionId, slot)]
      slots := s.slots ++ [none] } i sub (.cloned slot)

/-- A process is spawned for the submission's session. -/
def spawn (i : ℕ) (sub : Submission) (slot : ℕ) : Runtimes :=
  Runtimes.goto { s with processes := s.processes ++ [⟨sub.sessionId, true⟩] } i sub
    (.started slot s.processes.length)

/-- `remove_empty_runtime_slot`. -/
def removeEmptyRuntimeSlot (sessionId : String) (slot : ℕ) : Runtimes :=
  if (find Prod.fst s.map sessionId).any (·.2 = slot) && s.strongCount slot = 2 &&
      (!s.isLocked slot && s.slots[slot]? = some none) then
    { s with map := delete Prod.fst s.map sessionId }
  else s

/-- What the submission with the number does next. -/
def advance (i : ℕ) (sub : Submission) (env : Surroundings Age) : Runtimes :=
  match sub.stage with
  | .arriving => s.acquire i sub
  | .cloned slot => if s.isLocked slot then s.finish i else s.goto i sub (.locked slot)
  | .locked slot =>
    match s.slots[slot]? with
    | some (some process) => s.goto i sub (.sending slot process)
    | _ =>
      if env.machine.sessionIsRunning sub.session then s.goto i sub (.cleaning slot)
      else s.goto i sub (.starting slot)
  | .sending slot _ =>
    match env.sent with
    | .accepted => s.finish i
    | .conflict => s.finish i
    | .failed => (s.goto i sub (.cleaning slot)).store slot none
  | .starting slot =>
    if sub.agent = .other || !env.spawns then s.goto i sub (.cleaning slot)
    else s.spawn i sub slot
  | .started slot process =>
    if env.sent ≠ .accepted then s.goto i sub (.cleaning slot)
    else if sub.agent = .gemini then s.goto i sub (.cleaning slot)
    else (s.finish i).store slot (some process)
  | .cleaning slot => (s.removeEmptyRuntimeSlot sub.sessionId slot).finish i

inductive Event (Age : Type) where
  | submit (session : SessionProcessInput)
  | advance (i : ℕ) (env : Surroundings Age)
  /-- The request of a submission is dropped while it waits. -/
  | cancel (i : ℕ)
  | exit (process : ℕ)

def step (s : Runtimes) : Event Age → Option Runtimes
  | .submit session => some { s with submissions := s.submissions ++ [⟨session, .arriving⟩] }
  | .advance i env => (s.submissions[i]?).map fun sub => s.advance i sub env
  | .cancel i => if i < s.submissions.length then some (s.finish i) else none
  | .exit process =>
    (s.processes[process]?).map fun p =>
      { s with processes := s.processes.set process { p with alive := false } }

end Runtimes

end AgentSight.Collector
