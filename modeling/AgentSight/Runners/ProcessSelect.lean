import AgentSight.Lib.Worklist
import AgentSight.Text

/-!
# Snapshots of the processes, and the selection by name

`proc.rs`: a snapshot of `/proc` and the family of a process in it. `process_select.rs`: the
processes whose name or executables match a pattern.
-/

namespace AgentSight.Runners

/-! ### Snapshots -/

structure ProcInfo where
  pid : ℕ
  ppid : ℕ
  sessionId : ℕ
  comm : String
  command : String
  ticks : ℕ
  starttimeTicks : ℕ
  rssKb : ℕ
  vszKb : ℕ
  threads : ℕ
  readBytes : ℕ
  writeBytes : ℕ
  deriving DecidableEq

/-- The processes in the order of their pids, and the uptime, which is in whole seconds. -/
structure ProcSnapshot where
  uptimeS : ℕ
  procs : List ProcInfo
  sorted : (procs.map ProcInfo.pid).Pairwise (· < ·)

namespace ProcSnapshot

variable (snapshot : ProcSnapshot)

def get (pid : ℕ) : Option ProcInfo := snapshot.procs.find? (·.pid = pid)

def pids : Finset ℕ := (snapshot.procs.map ProcInfo.pid).toFinset

def childrenByPpid (ppid : ℕ) : List ℕ :=
  (snapshot.procs.filter (·.ppid = ppid)).map ProcInfo.pid

def processFamily (root : ℕ) : List ℕ :=
  Worklist.search snapshot.childrenByPpid snapshot.pids [root] []

def pidsInSession (sessionId : ℕ) : List ℕ :=
  (snapshot.procs.filter (·.sessionId = sessionId)).map ProcInfo.pid

variable {snapshot} in
theorem pid_of_get {pid : ℕ} {info : ProcInfo} (h : snapshot.get pid = some info) :
    info.pid = pid := by
  simpa using List.find?_some h

variable {snapshot} in
theorem mem_of_get {pid : ℕ} {info : ProcInfo} (h : snapshot.get pid = some info) :
    info ∈ snapshot.procs :=
  List.mem_of_find?_eq_some h

theorem nodup_pids : (snapshot.procs.map ProcInfo.pid).Nodup := snapshot.sorted.imp ne_of_lt

theorem nodup_pids_filter (p : ProcInfo → Bool) :
    ((snapshot.procs.filter p).map ProcInfo.pid).Nodup :=
  snapshot.nodup_pids.sublist (List.filter_sublist.map _)

end ProcSnapshot

/-! ### Selection by name -/

/-- `exec_basename`: `rsplit(['/', '\\']).next()`. -/
def execBasename (token : String) : String :=
  (Str.split token fun c => c == '/' || c == '\\').getLastD token

def trimQuotes (token : String) : String :=
  let quote (c : Char) := c == '\x22' || c == '\x27'
  String.ofList (((token.toList.dropWhile quote).reverse.dropWhile quote).reverse)

def labelFromExecName (name : String) : Option String :=
  if name = "claude" ∨ name = "claude-code" then some "claude"
  else if name = "codex" ∨ name = "codex-cli" then some "codex"
  else if name = "gemini" ∨ name = "gemini-cli" then some "gemini"
  else if name = "opencode" then some "opencode"
  else if name = "aider" then some "aider"
  else if name = "goose" then some "goose"
  else if name = "openclaw" then some "openclaw"
  else if Str.startsWith name "openclaw-" then some "openclaw"
  else none

def labelFromKnownPackagePath (path : String) : Option String :=
  let path := String.ofList (path.toList.map fun c => if c == '\\' then '/' else c)
  if Str.contains path "@anthropic-ai/claude-code" || Str.contains path "/claude-code/" then
    some "claude"
  else if Str.contains path "@openai/codex" || Str.contains path "/codex-linux-" then
    some "codex"
  else if Str.contains path "@google/gemini-cli" || Str.contains path "/gemini-cli/" then
    some "gemini"
  else none

def labelFromExecToken (token : String) : Option String :=
  let token := trimQuotes token
  if token.isEmpty then none
  else
    let lower := Str.toAsciiLowercase token
    let basename := execBasename lower
    let executable := (((Str.stripSuffix basename ".exe").or (Str.stripSuffix basename ".cmd")).or
      (Str.stripSuffix basename ".bat")).getD basename
    (labelFromExecName executable).or (labelFromKnownPackagePath lower)

def looksLikeExecPath (token : String) : Bool :=
  let token := trimQuotes token
  Str.containsChar token '/' || Str.containsChar token '\\'

def executableTokens (command : String) : List String :=
  match Str.splitWhitespace command with
  | [] => []
  | first :: rest => first :: rest.filter looksLikeExecPath

def executableTokenMatches (token wanted : String) : Bool :=
  let token := trimQuotes token
  if token.isEmpty then false
  else
    let lower := Str.toAsciiLowercase token
    if (labelFromExecToken lower).any (Str.contains · wanted) then true
    else
      let basename := execBasename lower
      !Str.containsChar basename '.' && Str.contains basename wanted

def processMatchesComm (info : ProcInfo) (wanted : String) : Bool :=
  let wanted := Str.toAsciiLowercase wanted
  Str.contains (Str.toAsciiLowercase info.comm) wanted ||
    (executableTokens info.command).any (executableTokenMatches · wanted)

def pidsMatchingComm (snapshot : ProcSnapshot) (comm : String) : List ℕ :=
  (snapshot.procs.filter (processMatchesComm · comm)).map ProcInfo.pid

/-! ### The start time of a process -/

section StartTime

open Str List

/-- `parse_proc_starttime_ticks`, on the text of `/proc/<pid>/stat`. -/
def parseProcStarttimeTicks (stat : String) : Option ℕ :=
  (rsplitOnce stat ")").bind fun (_, rest) =>
    (splitWhitespace rest)[19]?.bind (parseUnsigned (2 ^ 64 - 1))

/-- The kernel's line: the name of the process, in parentheses, may have any characters. -/
def statLine (pid : ℕ) (comm : List Char) (fields : List (List Char)) : String :=
  String.ofList ((toString pid).toList ++ " (".toList ++ comm ++
    ')' :: (fields.flatMap (' ' :: ·) ++ ['\n']))

variable {field : List Char} {fields : List (List Char)}

theorem splitChars_fields (h : ∀ part ∈ field :: fields, ∀ c ∈ part, isWhitespace c = false) :
    splitChars isWhitespace (field ++ (fields.flatMap (' ' :: ·) ++ ['\n'])) =
      field :: fields ++ [[]] := by
  induction fields generalizing field with
  | nil => exact splitChars_append (h field mem_cons_self) (by decide) []
  | cons next fields ih =>
    rw [flatMap_cons, cons_append, cons_append,
      splitChars_append (h field mem_cons_self) (by decide), append_assoc,
      ih fun part hpart => h part (mem_cons_of_mem _ hpart)]
    rfl

/-- Whatever a process calls itself, its start time is read from the twentieth field after the
name. -/
theorem parseProcStarttimeTicks_statLine (pid : ℕ) (comm : List Char)
    (hfields : ∀ field ∈ fields, field ≠ [] ∧ ∀ c ∈ field, isWhitespace c = false ∧ c ≠ ')') :
    parseProcStarttimeTicks (statLine pid comm fields) =
      fields[19]?.bind fun field => parseUnsigned (2 ^ 64 - 1) (String.ofList field) := by
  let rest := fields.flatMap (' ' :: ·) ++ ['\n']
  have hclose : ')' ∉ rest := by
    intro hmem
    obtain hmem | hmem := mem_append.mp hmem
    · obtain ⟨field, hfield, hmem⟩ := mem_flatMap.mp hmem
      exact ((hfields field hfield).2 _ ((mem_cons.mp hmem).resolve_left (by decide))).2 rfl
    · exact absurd hmem (by decide)
  have hline : (statLine pid comm fields).toList.reverse =
      rest.reverse ++ ')' :: ((toString pid).toList ++ " (".toList ++ comm).reverse := by
    rw [statLine, String.toList_ofList, reverse_append, reverse_cons, append_assoc]
    rfl
  have hplain : ∀ field ∈ [] :: fields, ∀ c ∈ field, isWhitespace c = false := by
    intro field hfield c hc
    obtain rfl | hfield := mem_cons.mp hfield
    · cases hc
    · exact ((hfields field hfield).2 c hc).1
  have hwords : splitWhitespace (String.ofList rest) = fields.map String.ofList := by
    have hkeep : (fields.map String.ofList).filter (! ·.isEmpty) = fields.map String.ofList := by
      rw [filter_eq_self, forall_mem_map]
      exact fun field hfield => by simpa using (hfields field hfield).1
    rw [splitWhitespace, split, String.toList_ofList, ← nil_append rest, splitChars_fields hplain]
    simpa using hkeep
  rw [parseProcStarttimeTicks, rsplitOnce, hline]
  rw [show ")".toList.reverse = [')'] from rfl, splitOnceChars_append (mt mem_reverse.mp hclose)]
  simp only [Option.map_some, Option.bind_some, reverse_reverse, hwords, getElem?_map,
    Option.bind_map]
  rfl

theorem parseProcStarttimeTicks_statLine_paren :
    parseProcStarttimeTicks (statLine 7 "a) S 1 (b".toList (replicate 22 ['5'])) = some 5 :=
  (parseProcStarttimeTicks_statLine 7 "a) S 1 (b".toList (by decide)).trans (by decide)

end StartTime

end AgentSight.Runners
