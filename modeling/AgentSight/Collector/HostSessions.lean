import AgentSight.Session.Discovery
import AgentSight.Session.Reimport

/-!
# Host session rows

`host_sessions.rs` makes the rows that a consumer outside of the process gets of the sessions on a
machine. The rows of the top view are built from a snapshot of the sessions, and are joined with it
once more by the display id. The full session id is only carried along, so what a row tells is the
session's own exactly when no two sessions have one display id.
-/

namespace AgentSight.HostSessions

open AgentNative
open Json (Value)
open KeyedTable
open View hiding TokenUsage

/-! ### The rows of the top view -/

/-- `sessions` of a view. -/
def sessions {σ : Type} (view : MaterializedView σ) : List SessionRow :=
  view.sessions.values.insertionSort fun a b =>
    a.startTimestampMs < b.startTimestampMs ∨ a.startTimestampMs = b.startTimestampMs ∧ a.id ≤ b.id

/-- The fields of a row that tell whose it is and count its tokens. -/
structure AgentTopRow where
  sessionId : Option String
  session : String
  agent : String
  pid : Option ℕ
  model : Option String
  tokens : Option ℤ
  deriving DecidableEq

def sessionAttr (session : SessionRow) (key : String) : Option String :=
  ((session.attributes.get key).bind (·.asStr)).filter (· ≠ "")

/-- The row of a session that is bound to a live process, or to none. -/
def sessionTopRow (pid : Option ℕ) (session : SessionRow) : AgentTopRow where
  sessionId := sessionAttr session "session_id"
  session := (sessionAttr session "display_id").getD session.id
  agent := session.agentType
  pid
  model := session.model
  tokens := if 0 < session.totalTokens then some session.totalTokens else none

/-- The row of a live process that no session is bound to. -/
def liveProcessRow (agent : String) (pid : ℕ) : AgentTopRow where
  sessionId := none
  session := "proc:" ++ toString pid
  agent
  pid := some pid
  model := none
  tokens := none

/-- The live processes: those that sessions are bound to, by the id of the session row, the agents
and pids of the others, and their start in ticks and in milliseconds. -/
structure LiveSample where
  bound : String → Option ℕ
  remaining : List (String × ℕ)
  startTicks : ℕ → Option ℕ
  processStartTimestampMs : ℕ → Option ℕ

def buildTop (live : LiveSample) (sessions : List SessionRow) : List AgentTopRow :=
  sessions.map (fun session => sessionTopRow (live.bound session.id) session) ++
    live.remaining.map fun process => liveProcessRow process.1 process.2

/-! ### The projection -/

/-- The fields of a row that tell whose it is, when it started and what it used. -/
structure HostSessionRow where
  sessionKey : String
  agentKind : String
  startedMs : Option ℕ
  model : Option String
  inputTokens : Option ℤ
  outputTokens : Option ℤ
  totalTokens : Option ℤ
  pid : Option ℕ
  startTicks : Option ℕ
  deriving DecidableEq

def hostSessionLimit : ℕ := 25

def displayKey (session : SessionRow) : String := (sessionAttr session "display_id").getD session.id

def positive (n : ℤ) : Option ℤ := if 0 < n then some n else none

def sessionKey (row : AgentTopRow) (startTicks : Option ℕ) : String :=
  match row.sessionId.filter (· ≠ "") with
  | some sessionId => sessionId
  | none =>
    match row.pid, startTicks with
    | some pid, some startTicks => "proc:" ++ toString pid ++ ":" ++ toString startTicks
    | _, _ => row.session

def projectRow (live : LiveSample) (row : AgentTopRow) (session : Option SessionRow) :
    HostSessionRow :=
  let startTicks := (row.pid.bind live.startTicks).filter (0 < ·)
  { sessionKey := sessionKey row startTicks
    agentKind := row.agent
    startedMs :=
      (session.map (·.startTimestampMs)).or (startTicks.bind live.processStartTimestampMs)
    model := row.model
    inputTokens := session.bind fun session => positive session.inputTokens
    outputTokens := session.bind fun session => positive session.outputTokens
    totalTokens := row.tokens
    pid := row.pid
    startTicks }

/-- A `HashMap` by the display keys has the last session of each. -/
def projectRows (rows : List AgentTopRow) (sessions : List SessionRow) (live : LiveSample) :
    List HostSessionRow :=
  (rows.take hostSessionLimit).map fun row =>
    projectRow live row (latest displayKey sessions row.session)

section Machine

variable [External] [TranscriptParser] (machine : Machine) (limit maxAge : ℕ)

/-- The sessions of the snapshot that the rows are built from. -/
def snapshotSessions : List SessionRow :=
  sessions (materializedView (machine.discoverSessions limit maxAge none none) :
    MaterializedView NullSink)

def hostSessions (live : LiveSample) : List HostSessionRow :=
  let sessions := snapshotSessions machine limit maxAge
  projectRows (buildTop live sessions) sessions live

/-- The sessions that are on the machine. -/
def known : List LocalSession := (machine.found limit maxAge).map machine.enrich

/-- The row tells what there is to tell of the session that its key names. -/
structure TakesFrom (row : HostSessionRow) (session : LocalSession) : Prop where
  sessionKey : row.sessionKey = session.sessionId
  agentKind : row.agentKind = session.agentType
  startedMs : row.startedMs = some session.startedMs
  model : row.model = session.model
  inputTokens : row.inputTokens = positive session.usage.inputTokens.toInt
  outputTokens : row.outputTokens = positive session.usage.outputTokens.toInt
  totalTokens : row.totalTokens = positive session.usage.totalTokens.toInt

/-- The three places that tell sessions apart tell all of them apart. -/
structure Identified (live : LiveSample) : Prop where
  discovered : ∀ pidFilter textFilter,
    (machine.discoverSessions limit maxAge pidFilter textFilter).Perm
      ((known machine limit maxAge).filter (matchesFilter pidFilter textFilter))
  imported : (sessions (materializedView (known machine limit maxAge) :
    MaterializedView NullSink)).Perm ((known machine limit maxAge).map LocalSession.sessionRow)
  projected : ∀ (i : ℕ) (row : HostSessionRow) (stored : SessionRow),
    (hostSessions machine limit maxAge live)[i]? = some row →
    (snapshotSessions machine limit maxAge)[i]? = some stored →
    ∃ session ∈ known machine limit maxAge, session.sessionRow = stored ∧ TakesFrom row session

end Machine

/-! ### Names -/

section Names

variable {session other : LocalSession}

theorem colon_notMem (session : LocalSession) : ':' ∉ session.agentType.toList := by
  have hnone : ∀ agent ∈ agentTypes, ':' ∉ agent.toList := by decide
  exact hnone _ session.agentType_mem

theorem exists_displayId (session : LocalSession) :
    ∃ short, session.displayId = session.agentType ++ ":" ++ short :=
  session.displayId_eq.elim (⟨_, ·⟩) (⟨_, ·⟩)

theorem displayId_ne_empty (session : LocalSession) : session.displayId ≠ "" := by
  obtain ⟨short, hshort⟩ := exists_displayId session
  rw [hshort]
  intro hempty
  simpa using congrArg String.toList hempty

/-- The view id and the display id tell the same sessions apart. -/
theorem viewId_eq_iff : session.viewId = other.viewId ↔ session.displayId = other.displayId := by
  constructor
  · intro h
    rw [LocalSession.viewId, LocalSession.viewId, String.append_assoc, String.append_assoc,
      String.append_assoc, String.append_assoc, String.append_right_inj, ← String.append_assoc,
      ← String.append_assoc] at h
    exact (Str.split_colon (colon_notMem session) (colon_notMem other) h).2
  · intro h
    obtain ⟨short, hshort⟩ := exists_displayId session
    obtain ⟨short', hshort'⟩ := exists_displayId other
    have hagent := (Str.split_colon (colon_notMem session) (colon_notMem other)
      (hshort.symm.trans (h.trans hshort'))).1
    rw [LocalSession.viewId, LocalSession.viewId, h, hagent]

theorem sessionAttr_displayId (session : LocalSession) :
    sessionAttr session.sessionRow "display_id" = some session.displayId := by
  simp [sessionAttr, LocalSession.sessionRow, LocalSession.attributes, Value.get, Value.asStr,
    displayId_ne_empty]

theorem sessionAttr_sessionId (session : LocalSession) :
    sessionAttr session.sessionRow "session_id" = (some session.sessionId).filter (· ≠ "") := by
  simp [sessionAttr, LocalSession.sessionRow, LocalSession.attributes, Value.get, Value.asStr]

theorem displayKey_sessionRow (session : LocalSession) :
    displayKey session.sessionRow = session.displayId := by
  rw [displayKey, sessionAttr_displayId, Option.getD_some]

end Names

section Enrich

variable (machine : Machine) (session : LocalSession)

/-- Both are of one agent, and have the ids of one session. -/
def SameIds (a b : LocalSession) : Prop :=
  a.agentType = b.agentType ∧ a.sessionId = b.sessionId ∧ a.displayId = b.displayId

theorem sameIds_enrich : SameIds (machine.enrich session) session := by
  have hheader state s : SameIds (s.enrichHeader state) s := by
    rw [LocalSession.enrichHeader]
    split <;> exact ⟨rfl, rfl, rfl⟩
  have hdata state s : SameIds (s.enrichData state) s := by
    rw [LocalSession.enrichData]
    split <;> exact ⟨rfl, rfl, rfl⟩
  have husage state s : SameIds (s.enrichUsage state) s := by
    rw [LocalSession.enrichUsage]
    split
    · cases s.model <;> exact ⟨rfl, rfl, rfl⟩
    · exact ⟨rfl, rfl, rfl⟩
  have htrans {a b c : LocalSession} (hab : SameIds a b) (hbc : SameIds b c) : SameIds a c :=
    ⟨hab.1.trans hbc.1, hab.2.1.trans hbc.2.1, hab.2.2.trans hbc.2.2⟩
  rw [Machine.enrich]
  split
  · split
    · exact htrans (husage _ _) (htrans (hdata _ _) (hheader _ _))
    · exact ⟨rfl, rfl, rfl⟩
  · exact ⟨rfl, rfl, rfl⟩

end Enrich

/-! ### The rows of a view -/

section Rows

variable {σ : Type} [External] {v : MaterializedView σ} {found : List LocalSession}

/-- Sessions of different view ids are put beside each other. -/
theorem sessions_importIntoView (hnodup : (found.map LocalSession.viewId).Nodup)
    (hfresh : ∀ session ∈ found, v.sessions[session.viewId]? = none) (k : String) :
    (importIntoView v found).sessions[k]? = Overlay.put (fun k => v.sessions[k]?)
        (found.map fun session => (session.viewId, session.sessionRow)) k := by
  induction found generalizing v with
  | nil => rfl
  | cons session found ih =>
    rw [List.map_cons, List.nodup_cons] at hnodup
    have hput : (fun k => (importSession v session).sessions[k]?) =
        Function.update (fun k => v.sessions[k]?) session.viewId (some session.sessionRow) := by
      funext k
      rw [sessions_importSession, hfresh session List.mem_cons_self]
      rfl
    have hrest : ∀ other ∈ found, (importSession v session).sessions[other.viewId]? = none := by
      intro other hother
      have hne : other.viewId ≠ session.viewId := fun heq =>
        hnodup.1 (heq ▸ List.mem_map_of_mem hother)
      rw [congrFun hput other.viewId, Function.update_of_ne hne]
      exact hfresh other (List.mem_cons_of_mem _ hother)
    refine (ih hnodup.2 hrest).trans ?_
    rw [hput]
    rfl

/-- Every session row is stored under its id. -/
theorem filed_importIntoView
    (hfiled : ∀ (k : String) (row : SessionRow), v.sessions[k]? = some row → row.id = k)
    (found : List LocalSession) (k : String) (row : SessionRow)
    (hrow : (importIntoView v found).sessions[k]? = some row) : row.id = k := by
  induction found generalizing v with
  | nil => exact hfiled k row hrow
  | cons session found ih =>
    refine ih (fun k row hrow => ?_) hrow
    rw [sessions_importSession] at hrow
    by_cases hk : k = session.viewId
    · subst hk
      rw [Function.update_self] at hrow
      obtain rfl := Option.some.inj hrow
      cases hstored : v.sessions[session.viewId]? with
      | none => rfl
      | some stored => exact hfiled _ stored hstored
    · rw [Function.update_of_ne hk] at hrow
      exact hfiled k row hrow

omit [External] in
theorem perm_sessions (view : MaterializedView σ) :
    (sessions view).Perm (view.sessions.toList.map Prod.snd) := by
  rw [← Retention.values_eq_map_snd_toList]
  exact List.perm_insertionSort _ _

/-- Sessions of different view ids get a row each. -/
theorem perm_sessions_of_nodup (hnodup : (found.map LocalSession.viewId).Nodup) :
    (sessions (materializedView found : MaterializedView σ)).Perm
      (found.map LocalSession.sessionRow) := by
  let pairs := found.map fun session => (session.viewId, session.sessionRow)
  have hkeys : (pairs.map Prod.fst).Nodup := by
    rw [List.map_map]
    exact hnodup
  have htable k row :
      (materializedView found : MaterializedView σ).sessions[k]? = some row ↔ (k, row) ∈ pairs := by
    rw [materializedView, sessions_importIntoView hnodup (by simp [MaterializedView.setSource,
      MaterializedView.new]), Overlay.put_eq_some hkeys]
    simp [MaterializedView.setSource, MaterializedView.new, pairs]
  have hperm := (perm_sessions (materializedView found : MaterializedView σ)).trans
    ((perm_toList hkeys htable).map Prod.snd)
  rw [List.map_map] at hperm
  exact hperm

/-- Only they do. -/
theorem nodup_of_perm_sessions (h : (sessions (materializedView found : MaterializedView σ)).Perm
    (found.map LocalSession.sessionRow)) : (found.map LocalSession.viewId).Nodup := by
  let table := (materializedView found : MaterializedView σ).sessions
  have hids : (table.toList.map Prod.snd).map SessionRow.id = table.keys := by
    rw [← Std.TreeMap.map_fst_toList_eq_keys, List.map_map]
    refine List.map_congr_left fun entry hentry => ?_
    refine filed_importIntoView ?_ found _ _ (Std.TreeMap.mem_toList_iff_getElem?_eq_some.mp hentry)
    simp [MaterializedView.setSource, MaterializedView.new]
  have hperm := ((perm_sessions _).symm.trans h).map SessionRow.id
  rw [hids, List.map_map] at hperm
  exact hperm.nodup_iff.mp Std.TreeMap.nodup_keys

end Rows

/-! ### The join -/

section Join

variable {live : LiveSample} {stored : List SessionRow} {row : SessionRow}

/-- Where the display keys differ, a row of a session is joined with the session. -/
theorem getElem?_projectRows (hkeys : (stored.map displayKey).Nodup)
    (hlimit : stored.length ≤ hostSessionLimit) {i : ℕ} (hrow : stored[i]? = some row) :
    (projectRows (buildTop live stored) stored live)[i]? =
      some (projectRow live (sessionTopRow (live.bound row.id) row) (some row)) := by
  obtain ⟨hi, -⟩ := List.getElem?_eq_some_iff.mp hrow
  have htop : (buildTop live stored)[i]? = some (sessionTopRow (live.bound row.id) row) := by
    rw [buildTop, List.getElem?_append_left (by rwa [List.length_map]), List.getElem?_map, hrow]
    rfl
  have hunique : Unique displayKey stored.reverse := by
    intro a ha b hb heq
    exact List.inj_on_of_nodup_map hkeys (List.mem_reverse.mp ha) (List.mem_reverse.mp hb) heq
  have hjoin : latest displayKey stored (displayKey row) = some row :=
    (find_eq_some hunique).mpr ⟨List.mem_reverse.mpr (List.mem_of_getElem? hrow), rfl⟩
  rw [projectRows, List.getElem?_map, List.getElem?_take_of_lt (by omega), htop, Option.map_some]
  congr 2

/-- Then it takes from it all that it tells. -/
theorem takesFrom_projectRow (pid : Option ℕ) (session : LocalSession)
    (hid : session.sessionId ≠ "") :
    TakesFrom (projectRow live (sessionTopRow pid session.sessionRow) (some session.sessionRow))
      session where
  sessionKey := by
    have hkey : (sessionTopRow pid session.sessionRow).sessionId.filter (· ≠ "") =
        some session.sessionId := by
      rw [sessionTopRow, sessionAttr_sessionId]
      simp [Option.filter, hid]
    unfold projectRow HostSessions.sessionKey
    rw [hkey]
  agentKind := rfl
  startedMs := rfl
  model := rfl
  inputTokens := rfl
  outputTokens := rfl
  totalTokens := rfl

theorem sessionKey_ne_empty {top : AgentTopRow} (h : top.session ≠ "") (startTicks : Option ℕ) :
    sessionKey top startTicks ≠ "" := by
  unfold sessionKey
  split
  · next sessionId hid => simpa using (Option.filter_eq_some_iff.mp hid).2
  · split
    · intro hempty
      simpa using congrArg String.toList hempty
    · exact h

end Join

/-! ### Identity -/

section Identity

variable [External] [TranscriptParser] {machine : Machine} {limit maxAge : ℕ} {live : LiveSample}

omit [External] [TranscriptParser] in
theorem map_viewId_nodup_iff {found : List LocalSession} :
    (found.map LocalSession.viewId).Nodup ↔ (found.map LocalSession.displayId).Nodup := by
  unfold List.Nodup
  simp [List.pairwise_map, ne_eq, viewId_eq_iff]

omit [External] in
theorem map_displayId_known : (known machine limit maxAge).map LocalSession.displayId =
    (machine.found limit maxAge).map LocalSession.displayId := by
  rw [known, List.map_map]
  exact List.map_congr_left fun session _ => (sameIds_enrich machine session).2.2

section

variable (hnodup : ((machine.found limit maxAge).map LocalSession.displayId).Nodup)
include hnodup

theorem perm_snapshotSessions
    (hlimit : (machine.found limit maxAge).length ≤ target limit) :
    (snapshotSessions machine limit maxAge).Perm
      ((known machine limit maxAge).map LocalSession.sessionRow) := by
  have hall : (known machine limit maxAge).filter (matchesFilter none none) =
      known machine limit maxAge := List.filter_eq_self.mpr fun _ _ => rfl
  have hdiscovered := discoverSessions_of_nodup hnodup hlimit none none
  rw [← known, hall] at hdiscovered
  have hviews : ((machine.discoverSessions limit maxAge none none).map
      LocalSession.viewId).Nodup := by
    rw [map_viewId_nodup_iff, (hdiscovered.map _).nodup_iff, map_displayId_known]
    exact hnodup
  exact (perm_sessions_of_nodup hviews).trans (hdiscovered.map _)

/-- The row of a session is where its row in the snapshot is. -/
theorem getElem?_hostSessions
    (hlimit : (machine.found limit maxAge).length ≤ target limit) {i : ℕ} {stored : SessionRow}
    (hstored : (snapshotSessions machine limit maxAge)[i]? = some stored) :
    (hostSessions machine limit maxAge live)[i]? =
      some (projectRow live (sessionTopRow (live.bound stored.id) stored) (some stored)) := by
  have hperm := perm_snapshotSessions hnodup hlimit
  refine getElem?_projectRows ?_ ?_ hstored
  · rw [(hperm.map displayKey).nodup_iff, List.map_map]
    have hkeys : displayKey ∘ LocalSession.sessionRow = LocalSession.displayId :=
      funext displayKey_sessionRow
    rw [hkeys, map_displayId_known]
    exact hnodup
  · have htarget : target limit ≤ hostSessionLimit := by
      unfold target hostSessionLimit
      omega
    rw [hperm.length_eq, List.length_map, known, List.length_map]
    exact hlimit.trans htarget

end

/-- The sessions are told apart, whatever processes run, exactly when their display ids differ and
each has an id. -/
theorem identified_iff (hlimit : (machine.found limit maxAge).length ≤ target limit) :
    Identified machine limit maxAge live ↔
      ((machine.found limit maxAge).map LocalSession.displayId).Nodup ∧
        ∀ session ∈ machine.found limit maxAge, session.sessionId ≠ "" := by
  constructor
  · intro h
    have hviews := nodup_of_perm_sessions h.imported
    have hnodup : ((machine.found limit maxAge).map LocalSession.displayId).Nodup := by
      rw [← map_displayId_known, ← map_viewId_nodup_iff]
      exact hviews
    refine ⟨hnodup, fun session hsession hid => ?_⟩
    -- The key of a row is never empty, so the row of a session without an id has another key.
    have hknown : machine.enrich session ∈ known machine limit maxAge :=
      List.mem_map_of_mem hsession
    have hstored : (machine.enrich session).sessionRow ∈ snapshotSessions machine limit maxAge :=
      (perm_snapshotSessions hnodup hlimit).mem_iff.mpr (List.mem_map_of_mem hknown)
    obtain ⟨i, hi⟩ := List.mem_iff_getElem?.mp hstored
    obtain ⟨other, hother, hsame, htakes⟩ :=
      h.projected i _ _ (getElem?_hostSessions hnodup hlimit hi) hi
    obtain rfl := List.inj_on_of_nodup_map hviews hother hknown (congrArg SessionRow.id hsame)
    refine sessionKey_ne_empty ?_ _ (htakes.sessionKey.trans
      ((sameIds_enrich machine session).2.1.trans hid))
    rw [sessionTopRow, sessionAttr_displayId]
    exact displayId_ne_empty _
  · rintro ⟨hnodup, hids⟩
    have hviews : ((known machine limit maxAge).map LocalSession.viewId).Nodup := by
      rw [map_viewId_nodup_iff, map_displayId_known]
      exact hnodup
    refine ⟨discoverSessions_of_nodup hnodup hlimit, perm_sessions_of_nodup hviews, ?_⟩
    intro i row stored hrow hstored
    rw [getElem?_hostSessions hnodup hlimit hstored] at hrow
    obtain rfl := Option.some.inj hrow
    obtain ⟨session, hsession, rfl⟩ := List.mem_map.mp
      ((perm_snapshotSessions hnodup hlimit).mem_iff.mp (List.mem_of_getElem? hstored))
    refine ⟨session, hsession, rfl, takesFrom_projectRow _ session ?_⟩
    obtain ⟨original, horiginal, rfl⟩ := List.mem_map.mp hsession
    rw [(sameIds_enrich machine original).2.1]
    exact hids original horiginal

end Identity

section Example

local instance instNoRowDigests : External where
  fromStr _ := none
  valueToString _ := ""
  toVec _ := ""
  sha256Hex _ := ""
  parseF64 _ := none

local instance instNoTranscripts : TranscriptParser where
  parse _ _ _ _ _ := none

/-- A session of the Codex index whose id is cut in the middle when it is displayed. -/
def codexSession (sessionId displayId : String)
    (h : displayId = "codex" ++ ":" ++ shortSessionId sessionId) : LocalSession :=
  { freshSession with
    agentType := "codex"
    sessionId
    displayId
    agentType_mem := by decide
    displayId_eq := .inr h }

def morning : LocalSession :=
  codexSession "019f49aa-7c11-7b02-a1f0-0b1c2d3fd456" "codex:019f49.fd456" (by decide +kernel)

def evening : LocalSession :=
  codexSession "019f49e3-1d40-7d9a-b3c2-9a8b7c6fd456" "codex:019f49.fd456" (by decide +kernel)

def night : LocalSession :=
  codexSession "019f49f8-52ce-7c43-8e1b-5d6e7f8a0b1c" "codex:019f49.a0b1c" (by decide +kernel)

/-- A machine without transcripts. -/
def indexedMachine (indexed : List LocalSession) : Machine :=
  ⟨⟨[], []⟩, none, 0, .new, indexed, none⟩

def idle : LiveSample := ⟨fun _ => none, [], fun _ => none, fun _ => none⟩

/-- Two sessions of one agent that are displayed apart. -/
theorem identified_of_two_sessions :
    ((indexedMachine [morning, night]).found 25 0).length = 2 ∧
      Identified (indexedMachine [morning, night]) 25 0 idle := by
  refine ⟨by decide, (identified_iff ?_).mpr ?_⟩
  · decide
  · exact ⟨by decide, by decide⟩

/-- Of two sessions that are displayed alike, one is dropped. -/
theorem displayed_alike_not_identified :
    (((indexedMachine [morning, evening]).found 25 0).map LocalSession.ident).Nodup ∧
      ((indexedMachine [morning, evening]).found 25 0).length ≤ target 25 ∧
      ¬Identified (indexedMachine [morning, evening]) 25 0 idle := by
  refine ⟨by decide, by decide, fun h => ?_⟩
  have hlength := (h.discovered none none).length_eq
  exact absurd hlength (by decide +kernel)

end Example

end AgentSight.HostSessions
