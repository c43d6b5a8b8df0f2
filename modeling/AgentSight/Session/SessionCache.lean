import AgentSight.Lib.Transition
import AgentSight.Session.ProcessMatch
import AgentSight.Session.TornTail

/-!
# The session cache

`SessionCache` keeps parsed sessions by their path, each stamped with the modification time of the
candidate it was parsed for. The stamp of a candidate from a path is the time of that file, while
a Cursor session is read from the files of its sub-agents, too, whose times discovery takes into
the stamp. An entry is therefore as good as a parse as long as none of the files it was read from
has been written since, and no longer.
-/

namespace AgentSight.Session

open Str KeyedTable Transition List Option
open ByteOffsets (decode)
open Json (Value)

/-! ### Files -/

/-- The components of a path. -/
def components (path : String) : List String :=
  (split path (· = '/')).filter fun part => part ≠ "" ∧ part ≠ "."

/-- `Path::parent`. -/
def parent (path : String) : Option String :=
  match components path with
  | [] => none
  | parts => some ((if startsWith path "/" then "/" else "") ++ "/".intercalate parts.dropLast)

def join (dir child : String) : String := if dir = "" then child else dir ++ "/" ++ child

/-- `Path::file_stem`. -/
def fileStem (path : String) : Option String :=
  (fileName path).map fun name =>
    match rsplitOnce name "." with
    | some (stem, _) => if stem = "" then name else stem
    | none => name

structure File where
  modified : ℕ
  bytes : List UInt8

/-- The files by their paths. -/
abbrev Files := List (String × File)

namespace Files

def get (files : Files) (path : String) : Option File := (find Prod.fst files path).map Prod.snd

def write (files : Files) (path : String) (file : File) : Files :=
  upsert Prod.fst files (path, file) fun _ => (path, file)

/-- The modification time, `UNIX_EPOCH` where there is no file. -/
def updated (files : Files) (path : String) : ℕ := ((files.get path).map File.modified).getD 0

def readToString (files : Files) (path : String) : Option (List Char) :=
  (files.get path).bind fun file => decode file.bytes

end Files

/-- The `.jsonl` files beside a Cursor transcript that its sub-agents write. -/
def isSubagentFile (path child : String) : Bool :=
  (parent path).any fun dir => parent child = some (join dir "subagents") &&
    extension child = some "jsonl"

def readCursorSubagents (files : Files) (path : String) : List (String × List Char) :=
  ((files.filter fun file => isSubagentFile path file.1).filterMap fun file =>
    (decode file.2.bytes).map (file.1, ·)).insertionSort fun left right => left.1 ≤ right.1

/-! ### Candidates -/

structure SessionCandidate where
  agent : String
  path : String
  updated : ℕ

def looseAgentSourceForPath (path : String) : Option String :=
  let value := normalizePathText path
  if contains value "/codex/" && contains value "sessions" then some "codex"
  else if contains value "/claude/" && contains value "projects" then some "claude"
  else if contains value "/cursor/" && contains value "agent-transcripts" then some "cursor"
  else none

def sessionCandidateFromPath (files : Files) (path : String) : Option SessionCandidate :=
  ((agentSourceForPath path).or (looseAgentSourceForPath path)).map fun agent =>
    ⟨agent, path, files.updated path⟩

def cursorCandidateUpdated (files : Files) (path : String) (parentUpdated : ℕ) : ℕ :=
  (files.filter fun file => isSubagentFile path file.1).foldl
    (fun updated file => max updated file.2.modified) parentUpdated

def candidateUpdated (files : Files) (agent path : String) (file : File) : ℕ :=
  if agent = "cursor" then cursorCandidateUpdated files path file.modified else file.modified

def isCursorParentTranscript (path : String) : Bool :=
  isCursorTranscript path &&
    (fileStem path).any fun stem => ((parent path).bind fileName) = some stem

def isAgentFileFor (agent path : String) : Bool :=
  if agent = "claude" || agent = "codex" then extension path = some "jsonl"
  else if agent = "gemini" then
    let normalized := normalizePathText path
    endsWith normalized ".json" &&
      ((split normalized (· = '/')).getLast?.any (startsWith · "session-")) &&
      contains normalized "/chats/"
  else if agent = "cursor" then isCursorParentTranscript path
  else false

/-- `walk_agent_files`, with what discovery makes of every file. -/
def walkAgentFiles (files : Files) (agent dir : String) : List SessionCandidate :=
  (files.filter fun file => startsWith file.1 (dir ++ "/") && isAgentFileFor agent file.1).map
    fun file => ⟨agent, file.1, candidateUpdated files agent file.1 file.2⟩

/-- Whether the project above `agent-transcripts` is `empty-window`. -/
def cursorIsEmptyWindow (path : String) : Bool :=
  match (components path).span (· ≠ "agent-transcripts") with
  | (before, _ :: _) => before.getLast? = some "empty-window"
  | (_, []) => false

/-- One round of `dedupe_cursor_candidates`: the best candidates by their stems, and what is
dropped. -/
def dedupeCandidate (state : List (String × Bool × ℕ × ℕ) × List ℕ)
    (candidate : SessionCandidate × ℕ) : List (String × Bool × ℕ × ℕ) × List ℕ :=
  let (best, drop) := state
  let (candidate, idx) := candidate
  if candidate.agent ≠ "cursor" then state
  else
    match fileStem candidate.path with
    | none => state
    | some stem =>
      let rank := (!cursorIsEmptyWindow candidate.path, candidate.updated, idx)
      match find Prod.fst best stem with
      | none => (best ++ [(stem, rank)], drop)
      | some (_, held) =>
        if held.1 < rank.1 ∨ held.1 = rank.1 ∧ held.2.1 < rank.2.1 then
          (update Prod.fst best stem fun _ => (stem, rank), drop ++ [held.2.2])
        else (best, drop ++ [idx])

def dedupeCursorCandidates (out : List SessionCandidate) : List SessionCandidate :=
  let drop := (out.zipIdx.foldl dedupeCandidate ([], [])).2
  (out.zipIdx.filter fun candidate => candidate.2 ∉ drop).map Prod.fst

/-- `discover_session_files`, below a home directory. -/
def discoverSessionFiles (files : Files) (home : Option String) : List SessionCandidate :=
  match home with
  | none => []
  | some home =>
    dedupeCursorCandidates (walkAgentFiles files "claude" (join home ".claude/projects") ++
        walkAgentFiles files "codex" (join home ".codex/sessions") ++
        walkAgentFiles files "gemini" (join home ".gemini/tmp") ++
        walkAgentFiles files "cursor" (join home ".cursor/projects"))

/-! ### The cache -/

/-- `parse_session_impl`: a session of an agent, read from a path, a time, the content of the file
and those of the sub-agents' files. -/
class SessionParser (σ : Type) where
  parseSessionImpl : String → String → ℕ → List Char → List (String × List Char) → Option σ
  displayId : σ → String

/-- The files, and the paths that were written to, the latest last. -/
structure Disk where
  files : Files
  writes : List String

/-- An entry, with the agent it was parsed for and how many writes there had been. The last two
are not in the source. -/
structure CacheEntry (σ : Type) where
  mtime : ℕ
  session : Option σ
  pinned : Bool
  agent : String
  writes : ℕ

structure SessionCache (σ : Type) where
  entries : List (String × CacheEntry σ)
  cachedSessions : List σ
  lastRefresh : Option ℕ
  lastLimit : ℕ
  lastExcludedAgents : List String

section Parser

variable {σ : Type} [SessionParser σ]

namespace Disk

def write (disk : Disk) (path : String) (file : File) : Disk :=
  ⟨disk.files.write path file, disk.writes ++ [path]⟩

def parseSessionFile (disk : Disk) (candidate : SessionCandidate) : Option σ :=
  (disk.files.readToString candidate.path).bind fun content =>
    let cursorChildren :=
      if candidate.agent = "cursor" then readCursorSubagents disk.files candidate.path else []
    SessionParser.parseSessionImpl candidate.agent candidate.path candidate.updated content
      cursorChildren

def parseSessionPath (disk : Disk) (path : String) : Option σ :=
  (sessionCandidateFromPath disk.files path).bind disk.parseSessionFile

end Disk

namespace SessionCache

def new : SessionCache σ := ⟨[], [], none, 0, []⟩

def get (cache : SessionCache σ) (path : String) : Option (CacheEntry σ) :=
  (find Prod.fst cache.entries path).map Prod.snd

def insert (cache : SessionCache σ) (path : String) (entry : CacheEntry σ) : SessionCache σ :=
  { cache with entries := upsert Prod.fst cache.entries (path, entry) fun _ => (path, entry) }

def maxPinnedDetails : ℕ := 8

/-- The oldest pinned entries leave; those of one time in the order of the map. -/
def trimPinnedDetails (cache : SessionCache σ) : SessionCache σ :=
  let pinned := cache.entries.filter fun entry => entry.2.pinned
  if pinned.length ≤ maxPinnedDetails then cache
  else
    let overflow := pinned.length - maxPinnedDetails
    let oldest := (pinned.insertionSort fun a b => a.2.mtime ≤ b.2.mtime).take overflow
    { cache with
      entries := oldest.foldl (fun entries entry => delete Prod.fst entries entry.1) cache.entries }

/-- The entry of a candidate that is parsed now. -/
def parsedEntry (disk : Disk) (candidate : SessionCandidate) (pinned : Bool) : CacheEntry σ where
  mtime := candidate.updated
  session := disk.parseSessionFile candidate
  pinned
  agent := candidate.agent
  writes := disk.writes.length

def parsePathCached (disk : Disk) (cache : SessionCache σ) (path : String) :
    SessionCache σ × Option σ :=
  match sessionCandidateFromPath disk.files path with
  | none => ({ cache with entries := delete Prod.fst cache.entries path }, none)
  | some candidate =>
    let entry := parsedEntry disk candidate true
    let parsed := ((cache.insert path entry).trimPinnedDetails, entry.session)
    match cache.get path with
    | some entry =>
      if entry.mtime = candidate.updated then
        ((cache.insert path { entry with pinned := true }).trimPinnedDetails, entry.session)
      else parsed
    | none => parsed

/-- The state of the loop in `refresh`. -/
structure Refresh (σ : Type) where
  cache : SessionCache σ
  livePaths : List String
  sessions : List σ
  seen : List String

/-- One round of the loop; the flag ends it. -/
def Refresh.visit (disk : Disk) (target : ℕ) (state : Refresh σ) (candidate : SessionCandidate) :
    Refresh σ × Bool :=
  let entry := parsedEntry disk candidate false
  let (cache, session) :=
    match state.cache.get candidate.path with
    | some held =>
      if held.mtime = candidate.updated then (state.cache, held.session)
      else (state.cache.insert candidate.path entry, entry.session)
    | none => (state.cache.insert candidate.path entry, entry.session)
  let state := { state with cache, livePaths := state.livePaths ++ [candidate.path] }
  match session with
  | none => (state, false)
  | some session =>
    if SessionParser.displayId session ∈ state.seen then (state, false)
    else
      let state := { state with
        seen := state.seen ++ [SessionParser.displayId session]
        sessions := state.sessions ++ [session] }
      (state, target ≤ state.sessions.length)

def Refresh.loop (disk : Disk) (target : ℕ) (state : Refresh σ) : List SessionCandidate → Refresh σ
  | [] => state
  | candidate :: candidates =>
    match state.visit disk target candidate with
    | (state, true) => state
    | (state, false) => state.loop disk target candidates

def refresh (disk : Disk) (home : Option String) (now : ℕ) (cache : SessionCache σ) (limit : ℕ)
    (excludedAgents : List String) : SessionCache σ :=
  let candidates := (discoverSessionFiles disk.files home).filter (·.agent ∉ excludedAgents)
  let candidates := candidates.insertionSort fun a b => b.updated ≤ a.updated
  let target := max 1 (min 25 limit)
  let state := Refresh.loop disk target ⟨cache, [], [], []⟩
    (candidates.take (max 10 (min 75 (target * 3))))
  { entries := state.cache.entries.filter fun entry =>
      entry.1 ∈ state.livePaths || entry.2.pinned && (disk.files.get entry.1).isSome
    cachedSessions := state.sessions
    lastRefresh := some now
    lastLimit := target
    lastExcludedAgents := excludedAgents }

def discoverCachedExcluding (disk : Disk) (home : Option String) (now : ℕ)
    (cache : SessionCache σ) (limit maxAge : ℕ) (excludedAgents : List String) :
    SessionCache σ × List σ :=
  let target := max 1 (min 25 limit)
  let excludedAgents := excludedAgents.insertionSort (· ≤ ·)
  let cache :=
    if cache.lastLimit < target ∨ cache.lastExcludedAgents ≠ excludedAgents ∨
        cache.lastRefresh.all fun last => maxAge ≤ now - last then
      cache.refresh disk home now target excludedAgents
    else cache
  (cache, cache.cachedSessions.take target)

end SessionCache

/-! ### Runs -/

inductive CacheAction where
  | write (path : String) (file : File)
  | parse (path : String)
  | discover (now limit maxAge : ℕ) (excludedAgents : List String)

structure CacheRun (σ : Type) where
  disk : Disk
  cache : SessionCache σ

/-- The files that a session is read from. -/
def ReadsFile (agent path file : String) : Prop :=
  file = path ∨ agent = "cursor" ∧ isSubagentFile path file = true

instance (agent path file : String) : Decidable (ReadsFile agent path file) :=
  inferInstanceAs (Decidable (_ ∨ _))

namespace CacheRun

def init (files : Files) : CacheRun σ := ⟨⟨files, []⟩, .new⟩

def step (home : Option String) (s : CacheRun σ) : CacheAction → Option (CacheRun σ)
  | .write path file => some { s with disk := s.disk.write path file }
  | .parse path => some { s with cache := (s.cache.parsePathCached s.disk path).1 }
  | .discover now limit maxAge excludedAgents =>
    some { s with
      cache := (s.cache.discoverCachedExcluding s.disk home now limit maxAge excludedAgents).1 }

/-- A write changes the modification time of its file. -/
def Touches (s : CacheRun σ) : CacheAction → Prop
  | .write path file => file.modified ≠ s.disk.files.updated path
  | _ => True

/-- A call of `parse_path_cached` returns what `parse_session_path` does. -/
def Transparent (s : CacheRun σ) (path : String) : Prop :=
  (s.cache.parsePathCached s.disk path).2 = s.disk.parseSessionPath path

/-- An entry that the call finds was parsed for the same agent, and no file that the session is
read from has been written since. -/
def Fresh (s : CacheRun σ) (path : String) : Prop :=
  ∀ candidate ∈ sessionCandidateFromPath s.disk.files path, ∀ entry ∈ s.cache.get path,
    entry.mtime = candidate.updated → entry.agent = candidate.agent ∧
        ∀ file ∈ s.disk.writes.drop entry.writes, ¬ ReadsFile entry.agent path file

instance (s : CacheRun σ) (path : String) : Decidable (s.Fresh path) :=
  inferInstanceAs (Decidable (∀ _ ∈ _, ∀ _ ∈ _, _ → _))

instance (s : CacheRun σ) (a : CacheAction) : Decidable (s.Touches a) :=
  match a with
  | .write _ _ => inferInstanceAs (Decidable (_ ≠ _))
  | .parse _ => .isTrue trivial
  | .discover _ _ _ _ => .isTrue trivial

end CacheRun

/-! ### What an entry is worth -/

variable {file : File}

theorem filter_write {files : Files} {path : String} {p : String → Bool} (h : p path = false) :
    (files.write path file).filter (fun row => p row.1) = files.filter fun row => p row.1 := by
  refine filter_upsert h fun row hrow => ⟨?_, h⟩
  rw [hrow]
  exact h

theorem get_write_of_ne {files : Files} {path other : String} (h : other ≠ path) :
    (files.write path file).get other = files.get other := by
  have hfilter : (files.write path file).filter (fun row => decide (row.1 = other)) =
      files.filter fun row => decide (row.1 = other) :=
    filter_write (p := fun path => decide (path = other)) (by simpa using Ne.symm h)
  rw [Files.get, Files.get, find, find, ← head?_filter, ← head?_filter, hfilter]

theorem readCursorSubagents_write {files : Files} {path other : String}
    (h : isSubagentFile other path = false) :
    readCursorSubagents (files.write path file) other = readCursorSubagents files other := by
  rw [readCursorSubagents, readCursorSubagents, filter_write h]

/-- A parse does not see a write to a file that it does not read. -/
theorem parseSessionFile_write {disk : Disk} {agent path written : String} {updated : ℕ}
    (h : ¬ ReadsFile agent path written) :
    (disk.write written file).parseSessionFile (σ := σ) ⟨agent, path, updated⟩ =
      disk.parseSessionFile ⟨agent, path, updated⟩ := by
  obtain ⟨hpath, hagent⟩ := not_or.mp h
  have hcontent : (disk.files.write written file).readToString path =
      disk.files.readToString path := by
    rw [Files.readToString, Files.readToString, get_write_of_ne (Ne.symm hpath)]
  rw [Disk.parseSessionFile, Disk.parseSessionFile]
  dsimp only [Disk.write]
  rw [hcontent]
  by_cases hcursor : agent = "cursor"
  · rw [if_pos hcursor, if_pos hcursor, readCursorSubagents_write]
    exact Bool.eq_false_of_not_eq_true fun hsub => hagent ⟨hcursor, hsub⟩
  · rw [if_neg hcursor, if_neg hcursor]

/-- Unless a file that it was read from has been written since, the entry is what a parse gives. -/
def Sound (disk : Disk) (path : String) (entry : CacheEntry σ) : Prop :=
  entry.writes ≤ disk.writes.length ∧
    ((∀ file ∈ disk.writes.drop entry.writes, ¬ ReadsFile entry.agent path file) →
      entry.session = disk.parseSessionFile ⟨entry.agent, path, entry.mtime⟩)

theorem sound_parsedEntry (disk : Disk) (candidate : SessionCandidate) (pinned : Bool) :
    Sound disk candidate.path (SessionCache.parsedEntry (σ := σ) disk candidate pinned) :=
  ⟨le_rfl, fun _ => rfl⟩

theorem Sound.write {disk : Disk} {path written : String} {entry : CacheEntry σ}
    (h : Sound disk path entry) : Sound (disk.write written file) path entry := by
  obtain ⟨hle, hsession⟩ := h
  refine ⟨?_, fun hunread => ?_⟩
  · rw [Disk.write, length_append]
    omega
  · have hdrop : (disk.write written file).writes.drop entry.writes =
        disk.writes.drop entry.writes ++ [written] := drop_append_of_le_length hle
    rw [hdrop] at hunread
    rw [parseSessionFile_write (hunread written (by simp))]
    exact hsession fun file hfile => hunread file (mem_append_left _ hfile)

namespace SessionCache

/-- Every entry is sound. -/
def Kept (disk : Disk) (cache : SessionCache σ) : Prop :=
  ∀ row ∈ cache.entries, Sound disk row.1 row.2

variable {disk : Disk} {cache : SessionCache σ} {path : String} {entry : CacheEntry σ}

theorem Kept.get (h : cache.Kept disk) (hget : cache.get path = some entry) :
    Sound disk path entry := by
  obtain ⟨row, hfind, rfl⟩ := map_eq_some_iff.mp hget
  obtain ⟨hrow, rfl⟩ := mem_of_find hfind
  exact h row hrow

theorem Kept.of_subset {cache' : SessionCache σ} (h : cache.Kept disk)
    (hsub : cache'.entries ⊆ cache.entries) : cache'.Kept disk := fun row hrow => h row (hsub hrow)

theorem Kept.insert (h : cache.Kept disk) (hentry : Sound disk path entry) :
    (cache.insert path entry).Kept disk := by
  intro row hrow
  rw [SessionCache.insert, upsert] at hrow
  split at hrow
  · obtain ⟨hrow, -⟩ | ⟨_, _, _, rfl⟩ := mem_update.mp hrow
    · exact h row hrow
    · exact hentry
  · obtain hrow | hrow := mem_append.mp hrow
    · exact h row hrow
    · obtain rfl := mem_singleton.mp hrow
      exact hentry

omit [SessionParser σ] in
theorem trimPinnedDetails_subset (cache : SessionCache σ) :
    cache.trimPinnedDetails.entries ⊆ cache.entries := by
  have hfold (oldest entries : List (String × CacheEntry σ)) :
      oldest.foldl (fun entries entry => delete Prod.fst entries entry.1) entries ⊆ entries := by
    induction oldest generalizing entries with
    | nil => exact Subset.refl _
    | cons entry oldest ih =>
      exact Subset.trans (ih _) fun row hrow => (mem_delete.mp hrow).1
  unfold trimPinnedDetails
  dsimp only
  split
  · exact Subset.refl _
  · exact hfold _ _

theorem Kept.parsePathCached (h : cache.Kept disk) (path : String) :
    (cache.parsePathCached disk path).1.Kept disk := by
  unfold SessionCache.parsePathCached
  split
  · exact h.of_subset fun row hrow => (mem_delete.mp hrow).1
  · next candidate hcandidate =>
    have hpath : candidate.path = path := by
      obtain ⟨agent, -, rfl⟩ := map_eq_some_iff.mp hcandidate
      rfl
    have hparsed : ((cache.insert path (parsedEntry disk candidate true)).trimPinnedDetails).Kept
        disk := by
      have hsound := sound_parsedEntry (σ := σ) disk candidate true
      rw [hpath] at hsound
      exact (h.insert hsound).of_subset (trimPinnedDetails_subset _)
    split
    · next entry hget =>
      split
      · obtain ⟨hle, hsession⟩ := h.get hget
        have hsound : Sound disk path { entry with pinned := true } := ⟨hle, hsession⟩
        exact (h.insert hsound).of_subset (trimPinnedDetails_subset _)
      · exact hparsed
    · exact hparsed

theorem kept_visit {target : ℕ} {state : Refresh σ} (h : state.cache.Kept disk)
    (candidate : SessionCandidate) : (state.visit disk target candidate).1.cache.Kept disk := by
  have hparsed := h.insert (sound_parsedEntry disk candidate false)
  unfold Refresh.visit
  cases state.cache.get candidate.path with
  | none =>
    dsimp only
    repeat' split
    all_goals exact hparsed
  | some held =>
    dsimp only
    by_cases hhit : held.mtime = candidate.updated
    · repeat' split
      all_goals exact h
    · rw [if_neg hhit]
      repeat' split
      all_goals exact hparsed

theorem kept_loop {target : ℕ} (candidates : List SessionCandidate) {state : Refresh σ}
    (h : state.cache.Kept disk) : (state.loop disk target candidates).cache.Kept disk := by
  induction candidates generalizing state with
  | nil => exact h
  | cons candidate candidates ih =>
    have hvisit : (state.visit disk target candidate).1.cache.Kept disk := kept_visit h candidate
    rw [Refresh.loop]
    split
    · next state' heq =>
      rw [heq] at hvisit
      exact hvisit
    · next state' heq =>
      rw [heq] at hvisit
      exact ih hvisit

theorem Kept.refresh (h : cache.Kept disk) (home : Option String) (now limit : ℕ)
    (excludedAgents : List String) :
    (cache.refresh disk home now limit excludedAgents).Kept disk :=
  fun row hrow => kept_loop _ h row (mem_filter.mp hrow).1

theorem Kept.discoverCachedExcluding (h : cache.Kept disk) (home : Option String)
    (now limit maxAge : ℕ) (excludedAgents : List String) :
    (cache.discoverCachedExcluding disk home now limit maxAge excludedAgents).1.Kept disk := by
  unfold SessionCache.discoverCachedExcluding
  dsimp only
  split
  · exact h.refresh _ _ _ _
  · exact h

end SessionCache

namespace CacheRun

variable {home : Option String} {s s' : CacheRun σ} {a : CacheAction} {path : String}

theorem kept_step (h : s.cache.Kept s.disk) (hstep : s.step home a = some s') :
    s'.cache.Kept s'.disk := by
  cases a with
  | write path file =>
    cases hstep
    exact fun row hrow => (h row hrow).write
  | parse path =>
    cases hstep
    exact h.parsePathCached path
  | discover now limit maxAge excludedAgents =>
    cases hstep
    exact h.discoverCachedExcluding _ _ _ _ _

/-- A call that finds no stale entry is transparent. -/
theorem transparent_of_fresh (h : s.cache.Kept s.disk) (hfresh : s.Fresh path) :
    s.Transparent path := by
  unfold Transparent SessionCache.parsePathCached Disk.parseSessionPath
  cases hcandidate : sessionCandidateFromPath s.disk.files path with
  | none => rfl
  | some candidate =>
    obtain ⟨agent, hagent, rfl⟩ := map_eq_some_iff.mp hcandidate
    cases hget : s.cache.get path with
    | none => rfl
    | some entry =>
      dsimp only
      split
      · next hhit =>
        obtain ⟨hsame, hunread⟩ := hfresh _ hcandidate _ hget hhit
        rw [(h.get hget).2 hunread, hsame, hhit]
        rfl
      · rfl

end CacheRun

/-- **In every run, a call of `parse_path_cached` that finds no stale entry returns what a parse
of the path does.** -/
theorem session_cache_transparent (home : Option String) (files : Files) (s : CacheRun σ)
    (path : String) (h : Reaches (CacheRun.step home) CacheRun.Touches (.init files) s)
    (hfresh : s.Fresh path) : s.Transparent path := by
  refine CacheRun.transparent_of_fresh ?_ hfresh
  refine h.invariant (I := fun s => s.cache.Kept s.disk) (fun row hrow => ?_)
    fun _ _ _ hkept _ hstep => CacheRun.kept_step hkept hstep
  cases hrow

end Parser

/-! ### A sub-agent that goes on -/

section Example

def delegated : List Value :=
  [cursorMessage "user" "start", cursorMessage "assistant" "one", cursorMessage "assistant" "two"]

local instance delegatedCrates : Crates := .ofRecords delegated [] []

/-- The parser of Cursor sessions. -/
local instance cursorParser : SessionParser AgentSession where
  parseSessionImpl agent _ _ content children :=
    if agent = "cursor" then parseCursorJsonl (fun _ => none) (children.map Prod.snd) content
    else none
  displayId _ := ""

def cursorPath : String := "/h/.cursor/projects/p/agent-transcripts/s/s.jsonl"

def subagentPath : String := "/h/.cursor/projects/p/agent-transcripts/s/subagents/c.jsonl"

def transcriptFile (modified : ℕ) (records : List Value) : File :=
  ⟨modified, ByteOffsets.encode (transcriptOf (records.map printValue))⟩

def cursorFiles : Files :=
  [(cursorPath, transcriptFile 1 [cursorMessage "user" "start"]),
    (subagentPath, transcriptFile 2 [cursorMessage "assistant" "one"])]

def responses (session : Option AgentSession) : Option ℕ :=
  session.map fun session => session.llmResponses.length

/-- The files of a parent and its sub-agent. -/
private def twoFiles (parent child : File) : Files := [(cursorPath, parent), (subagentPath, child)]

private theorem source_and_subagents : agentSourceForPath cursorPath = some "cursor" ∧
    isSubagentFile cursorPath cursorPath = false ∧
      isSubagentFile cursorPath subagentPath = true := by
  decide

private theorem subagentPath_ne : subagentPath ≠ cursorPath := by
  simp [subagentPath, cursorPath]

private theorem candidate_cursorPath (files : Files) : sessionCandidateFromPath files cursorPath =
      some ⟨"cursor", cursorPath, files.updated cursorPath⟩ := by
  rw [sessionCandidateFromPath, source_and_subagents.1]
  rfl

private theorem subagents_twoFiles (parent : File) (modified : ℕ) (records : List Value) :
    readCursorSubagents (twoFiles parent (transcriptFile modified records)) cursorPath =
      [(subagentPath, transcriptOf (records.map printValue))] := by
  obtain ⟨-, hparent, hchild⟩ := source_and_subagents
  simp [readCursorSubagents, twoFiles, hparent, hchild, transcriptFile]

private theorem parse_twoFiles (modified modified' : ℕ) (records delegated : List Value)
    (writes : List String) :
    (Disk.mk (twoFiles (transcriptFile modified records) (transcriptFile modified' delegated))
        writes).parseSessionPath cursorPath =
      parseCursorJsonl (fun _ => none) [transcriptOf (delegated.map printValue)]
        (transcriptOf (records.map printValue)) := by
  have hcontent : (twoFiles (transcriptFile modified records)
      (transcriptFile modified' delegated)).readToString cursorPath =
        some (transcriptOf (records.map printValue)) := by
    simp [Files.readToString, Files.get, find, twoFiles, transcriptFile]
  rw [Disk.parseSessionPath, candidate_cursorPath, bind_some, Disk.parseSessionFile,
    hcontent, subagents_twoFiles]
  rfl

/-- The transcripts of the example read back as their messages. -/
private theorem records_of_messages :
    cursorRecordsOf (transcriptOf ([cursorMessage "user" "start"].map printValue)) =
        [cursorMessage "user" "start"] ∧
      cursorRecordsOf (transcriptOf ([cursorMessage "assistant" "one"].map printValue)) =
        [cursorMessage "assistant" "one"] ∧
      cursorRecordsOf (transcriptOf
          ([cursorMessage "user" "start", cursorMessage "assistant" "two"].map printValue)) =
        [cursorMessage "user" "start", cursorMessage "assistant" "two"] ∧
      cursorRecordsOf (transcriptOf
          ([cursorMessage "assistant" "one", cursorMessage "assistant" "two"].map printValue)) =
        [cursorMessage "assistant" "one", cursorMessage "assistant" "two"] := by
  decide

/-- What the first call leaves in an empty cache. -/
private theorem get_parsed (disk : Disk) :
    ((SessionCache.new (σ := AgentSession)).parsePathCached disk cursorPath).1.get cursorPath =
      some (SessionCache.parsedEntry disk
        ⟨"cursor", cursorPath, disk.files.updated cursorPath⟩ true) := by
  rw [SessionCache.parsePathCached, candidate_cursorPath]
  simp [SessionCache.new, SessionCache.get, SessionCache.insert, SessionCache.trimPinnedDetails,
    SessionCache.parsedEntry, SessionCache.maxPinnedDetails, find, upsert]

/-- The parent is parsed and then written to. -/
theorem session_cache_transparent_of_write : ∃ s : CacheRun AgentSession,
    responses (s.disk.parseSessionPath cursorPath) = some 2 ∧ s.Transparent cursorPath := by
  let file := transcriptFile 3 [cursorMessage "user" "start", cursorMessage "assistant" "two"]
  let s : CacheRun AgentSession :=
    ⟨⟨cursorFiles.write cursorPath file, [cursorPath]⟩,
      (SessionCache.new.parsePathCached ⟨cursorFiles, []⟩ cursorPath).1⟩
  have hfiles : s.disk.files = twoFiles file
      (transcriptFile 2 [cursorMessage "assistant" "one"]) := by
    simp [s, Files.write, upsert, update, find, cursorFiles, twoFiles, subagentPath_ne]
  have hreaches : Reaches (CacheRun.step none) CacheRun.Touches (.init cursorFiles) s :=
    .tail (.tail .refl trivial (a := .parse cursorPath) rfl) (a := .write cursorPath file)
      (by decide) rfl
  refine ⟨s, ?_, session_cache_transparent none cursorFiles s cursorPath hreaches ?_⟩
  · have hdisk : s.disk = ⟨twoFiles file
        (transcriptFile 2 [cursorMessage "assistant" "one"]), [cursorPath]⟩ := by
      rw [← hfiles]
    obtain ⟨-, hone, htwo, -⟩ := records_of_messages
    rw [hdisk, parse_twoFiles, parseCursorJsonl, cursorTranscript, htwo, foldl_cons, hone]
    decide
  · -- The stamp of the entry is the time before the write.
    intro candidate hcandidate entry hentry htime
    rw [candidate_cursorPath, mem_some_iff] at hcandidate
    rw [get_parsed, mem_some_iff] at hentry
    rw [← hcandidate, ← hentry] at htime
    exact absurd htime (by decide)

/-- The parent is parsed, and then its sub-agent writes: the next call returns the session as it
was. -/
theorem subagent_write_is_missed : ¬ ∀ (s : CacheRun AgentSession) (path : String),
    Reaches (CacheRun.step none) CacheRun.Touches (.init cursorFiles) s → s.Transparent path := by
  intro h
  let file := transcriptFile 3 [cursorMessage "assistant" "one", cursorMessage "assistant" "two"]
  let s : CacheRun AgentSession :=
    ⟨⟨cursorFiles.write subagentPath file, [subagentPath]⟩,
      (SessionCache.new.parsePathCached ⟨cursorFiles, []⟩ cursorPath).1⟩
  have hfiles : s.disk.files = twoFiles (transcriptFile 1 [cursorMessage "user" "start"]) file := by
    simp [s, Files.write, upsert, update, find, cursorFiles, twoFiles, subagentPath_ne.symm]
  have hdisk : s.disk = ⟨twoFiles (transcriptFile 1 [cursorMessage "user" "start"]) file,
      [subagentPath]⟩ := by
    rw [← hfiles]
  have htouches : file.modified ≠ cursorFiles.updated subagentPath := by decide
  have hreaches : Reaches (CacheRun.step none) CacheRun.Touches (.init cursorFiles) s :=
    .tail (.tail .refl trivial (a := .parse cursorPath) rfl) (a := .write subagentPath file)
      htouches rfl
  have hcached : (s.cache.parsePathCached s.disk cursorPath).2 =
      (Disk.mk cursorFiles []).parseSessionPath cursorPath := by
    have hupdated : s.disk.files.updated cursorPath = cursorFiles.updated cursorPath := by
      rfl
    rw [SessionCache.parsePathCached, candidate_cursorPath]
    rw [get_parsed, hupdated]
    dsimp only [SessionCache.parsedEntry]
    rw [if_pos rfl, Disk.parseSessionPath, candidate_cursorPath, bind_some]
  obtain ⟨hstart, hone, -, honeTwo⟩ := records_of_messages
  have hbefore : responses ((Disk.mk cursorFiles []).parseSessionPath cursorPath) = some 1 := by
    rw [show cursorFiles = twoFiles _ _ from rfl, parse_twoFiles, parseCursorJsonl,
      cursorTranscript, hstart, foldl_cons, hone]
    decide
  have hafter : responses (s.disk.parseSessionPath cursorPath) = some 2 := by
    rw [hdisk, parse_twoFiles, parseCursorJsonl, cursorTranscript, hstart, foldl_cons, honeTwo]
    decide
  rw [← h s cursorPath hreaches, hcached, hbefore] at hafter
  cases hafter

end Example

end AgentSight.Session
