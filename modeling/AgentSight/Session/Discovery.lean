import AgentSight.Session.AgentNative
import AgentSight.Session.SessionCache

/-!
# Discovery of sessions

`discover_sessions` puts together the sessions of the Codex index and those that the cache reads off
the transcripts, keeps the first session of every display id, and completes the Cursor sessions from
the editor's database. The cache keeps the first session of every display id as well.
-/

namespace AgentSight.Session

open KeyedTable List

/-! ### What the cache keeps -/

section Cache

variable {σ : Type} [SessionParser σ] {disk : Disk} {target : ℕ}

namespace SessionCache

/-- The session that `refresh` has for a candidate, and the cache after it. -/
def look (disk : Disk) (cache : SessionCache σ) (candidate : SessionCandidate) :
    SessionCache σ × Option σ :=
  let entry := parsedEntry disk candidate false
  match cache.get candidate.path with
  | some held =>
    if held.mtime = candidate.updated then (cache, held.session)
    else (cache.insert candidate.path entry, entry.session)
  | none => (cache.insert candidate.path entry, entry.session)

/-- The sessions that `refresh` reads, in the order of their candidates. -/
def reads (disk : Disk) (cache : SessionCache σ) : List SessionCandidate → List σ
  | [] => []
  | candidate :: candidates =>
    (look disk cache candidate).2.toList ++ reads disk (look disk cache candidate).1 candidates

theorem prefix_foldl_insertOrIgnore (sessions found : List σ) :
    sessions <+: found.foldl (insertOrIgnore SessionParser.displayId) sessions := by
  induction found generalizing sessions with
  | nil => exact prefix_rfl
  | cons session found ih =>
    refine IsPrefix.trans ?_ (ih _)
    rw [insertOrIgnore]
    split
    · exact prefix_rfl
    · exact prefix_append _ _

theorem visit_eq (state : Refresh σ) (candidate : SessionCandidate) :
    state.visit disk target candidate =
      let looked := look disk state.cache candidate
      let state := { state with
        cache := looked.1, livePaths := state.livePaths ++ [candidate.path] }
      match looked.2 with
      | none => (state, false)
      | some session =>
        if SessionParser.displayId session ∈ state.seen then (state, false)
        else
          ({ state with
              seen := state.seen ++ [SessionParser.displayId session]
              sessions := state.sessions ++ [session] },
            target ≤ (state.sessions ++ [session]).length) := by
  rfl

theorem sessions_loop (candidates : List SessionCandidate) (state : Refresh σ)
    (hseen : state.seen = state.sessions.map SessionParser.displayId)
    (hroom : state.sessions.length < target) :
    (Refresh.loop disk target state candidates).sessions =
      ((reads disk state.cache candidates).foldl (insertOrIgnore SessionParser.displayId)
        state.sessions).take target := by
  induction candidates generalizing state with
  | nil => exact (take_of_length_le hroom.le).symm
  | cons candidate candidates ih =>
    rw [Refresh.loop, visit_eq, reads, foldl_append]
    dsimp only
    cases hlook : (look disk state.cache candidate).2 with
    | none => exact ih _ hseen hroom
    | some session =>
      have hknown : (find SessionParser.displayId state.sessions
            (SessionParser.displayId session)).isSome = true ↔
          SessionParser.displayId session ∈ state.seen := by
        rw [find_isSome, hseen, mem_map]
      dsimp only [Option.toList, foldl_cons, foldl_nil]
      by_cases hmem : SessionParser.displayId session ∈ state.seen
      · rw [if_pos hmem, insertOrIgnore, if_pos (hknown.mpr hmem)]
        exact ih _ hseen hroom
      · rw [if_neg hmem, insertOrIgnore, if_neg (mt hknown.mp hmem)]
        by_cases hfull : target ≤ (state.sessions ++ [session]).length
        · -- The loop ends: what is read after it is cut off.
          obtain ⟨rest, hrest⟩ := prefix_foldl_insertOrIgnore (state.sessions ++ [session])
            (reads disk (look disk state.cache candidate).1 candidates)
          rw [decide_eq_true hfull, ← hrest, take_left']
          rw [length_append, length_singleton] at hfull ⊢
          omega
        · rw [decide_eq_false hfull]
          refine ih _ ?_ (Nat.lt_of_not_le hfull)
          rw [hseen, map_append, map_singleton]

/-- The files that `refresh` goes through. -/
def candidates (disk : Disk) (home : Option String) (limit : ℕ) (excludedAgents : List String) :
    List SessionCandidate :=
  (((discoverSessionFiles disk.files home).filter (·.agent ∉ excludedAgents)).insertionSort
    fun a b => b.updated ≤ a.updated).take (max 10 (min 75 (max 1 (min 25 limit) * 3)))

/-- The cache keeps the first sessions of their display ids, as many as it may. -/
theorem cachedSessions_refresh (home : Option String) (now : ℕ) (cache : SessionCache σ) (limit : ℕ)
    (excludedAgents : List String) :
    (cache.refresh disk home now limit excludedAgents).cachedSessions =
      (firsts SessionParser.displayId
        (reads disk cache (candidates disk home limit excludedAgents))).take
          (max 1 (min 25 limit)) :=
  sessions_loop _ _ rfl (by simp)

end SessionCache

end Cache

end AgentSight.Session

namespace AgentSight.AgentNative

open KeyedTable
open Session (Disk SessionCache SessionParser TokenUsage)

/-- `parse_session_impl`, for the sessions that the analysis reads. -/
class TranscriptParser where
  parse : String → String → ℕ → List Char → List (String × List Char) → Option LocalSession

instance [TranscriptParser] : SessionParser LocalSession :=
  ⟨TranscriptParser.parse, LocalSession.displayId⟩

/-! ### Cursor -/

/-- What the editor's database says of a composer, the token counts of its bubbles, and the
sub-agents beside a transcript. -/
structure CursorState where
  composerHeader : String → Option (Option ℕ × Option ℕ)
  composerData : String → Option (Option String × Option String)
  bubbleTokens : String → TokenUsage
  subagentIds : String → List String
  isoUtcFromMs : ℕ → String

namespace LocalSession

theorem nodup_insert {usages : List (String × TokenUsage)} (h : (usages.map Prod.fst).Nodup)
    (model : String) (usage : TokenUsage) :
    (((delete Prod.fst usages model ++ [(model, usage)]).insertionSort fun a b =>
      a.1 ≤ b.1).map Prod.fst).Nodup := by
  rw [((List.perm_insertionSort _ _).map Prod.fst).nodup_iff, List.map_append, List.nodup_append]
  refine ⟨h.sublist (List.filter_sublist.map _), List.nodup_singleton _, ?_⟩
  rintro name hname name' hname' rfl
  obtain ⟨entry, hentry, rfl⟩ := List.mem_map.mp hname
  exact (mem_delete.mp hentry).2 (List.mem_singleton.mp hname')

/-- `model_usage.insert`. -/
def withModelUsage (session : LocalSession) (model : String) (usage : TokenUsage) : LocalSession :=
  { session with
    modelUsage := (delete Prod.fst session.modelUsage model ++ [(model, usage)]).insertionSort
      fun a b => a.1 ≤ b.1
    nodup_models := nodup_insert session.nodup_models model usage }

def enrichHeader (state : CursorState) (session : LocalSession) : LocalSession :=
  match state.composerHeader session.sessionId with
  | none => session
  | some (createdAtMs, updatedAtMs) =>
    let startTimestampMs := createdAtMs.or session.startTimestampMs
    let endTimestampMs := updatedAtMs.or session.endTimestampMs
    { session with
      startTimestampMs
      endTimestampMs
      lastMessageAt := (updatedAtMs.map state.isoUtcFromMs).or session.lastMessageAt
      durationMs :=
        match startTimestampMs, endTimestampMs with
        | some start, some stop => stop - start
        | _, _ => session.durationMs }

def enrichData (state : CursorState) (session : LocalSession) : LocalSession :=
  match state.composerData session.sessionId with
  | none => session
  | some (model, workspacePath) =>
    { session with model := model.or session.model, cwd := workspacePath.or session.cwd }

/-- The tokens of a composer and of the runs that it delegated. -/
def rolledUpTokens (state : CursorState) (session : LocalSession) : TokenUsage :=
  (state.subagentIds session.path).foldl (fun usage child =>
      { usage with
        inputTokens := usage.inputTokens + (state.bubbleTokens child).inputTokens
        outputTokens := usage.outputTokens + (state.bubbleTokens child).outputTokens
        totalTokens := usage.totalTokens + (state.bubbleTokens child).totalTokens })
    (state.bubbleTokens session.sessionId)

def enrichUsage (state : CursorState) (session : LocalSession) : LocalSession :=
  let usage := session.rolledUpTokens state
  if 0 < usage.totalTokens then
    let session :=
      match session.model with
      | some model => session.withModelUsage model usage
      | none => session
    { session with usage }
  else session

def enrichCursorSession (state : CursorState) (session : LocalSession) : LocalSession :=
  ((session.enrichHeader state).enrichData state).enrichUsage state

end LocalSession

/-- What is on a machine: the files and the cache over them, the rows that the Codex index gives for
the limit, and the database of Cursor. -/
structure Machine where
  disk : Disk
  home : Option String
  now : ℕ
  cache : SessionCache LocalSession
  indexed : List LocalSession
  cursorState : Option CursorState

def Machine.enrich (machine : Machine) (session : LocalSession) : LocalSession :=
  match machine.cursorState with
  | some state =>
    if session.agentType = "cursor" then session.enrichCursorSession state else session
  | none => session

def matchesFilter (pidFilter : Option ℕ) (textFilter : Option String) (session : LocalSession) :
    Bool :=
  pidFilter.isSome ||
    textFilter.all fun filter =>
      let filter := Str.toAsciiLowercase filter
      Str.contains (Str.toAsciiLowercase session.agentType) filter ||
        session.promptPreview.any
          (fun prompt => Str.contains (Str.toAsciiLowercase prompt) filter) ||
        session.model.any (fun model => Str.contains (Str.toAsciiLowercase model) filter) ||
        Str.contains (Str.toAsciiLowercase session.path) filter

section Discover

variable [TranscriptParser] (machine : Machine) (limit maxAge : ℕ)

def target (limit : ℕ) : ℕ := max 1 (min 25 limit)

def Machine.discoverCached (excludedAgents : List String) : List LocalSession :=
  (machine.cache.discoverCachedExcluding machine.disk machine.home machine.now limit maxAge
    excludedAgents).2

def Machine.discoverSessions (pidFilter : Option ℕ) (textFilter : Option String) :
    List LocalSession :=
  let sessions :=
    if machine.indexed.isEmpty then machine.discoverCached limit maxAge []
    else
      ((machine.indexed ++ machine.discoverCached limit maxAge ["codex"]).insertionSort fun a b =>
        b.updated ≤ a.updated).take (target limit)
  ((firsts LocalSession.displayId sessions).map machine.enrich).filter
    (matchesFilter pidFilter textFilter)

/-- The sessions that `discover_cached_excluding` has before it drops any. -/
def Machine.read (excludedAgents : List String) : List LocalSession :=
  let excludedAgents := excludedAgents.insertionSort (· ≤ ·)
  if machine.cache.lastLimit < target limit ∨ machine.cache.lastExcludedAgents ≠ excludedAgents ∨
      machine.cache.lastRefresh.all fun last => maxAge ≤ machine.now - last then
    SessionCache.reads machine.disk machine.cache
      (SessionCache.candidates machine.disk machine.home (target limit) excludedAgents)
  else machine.cache.cachedSessions

/-- The sessions that `discover_sessions` has before it drops any. -/
def Machine.found : List LocalSession :=
  if machine.indexed.isEmpty then machine.read limit maxAge []
  else machine.indexed ++ machine.read limit maxAge ["codex"]

variable {machine limit maxAge}

theorem discoverCached_of_nodup {excludedAgents : List String}
    (hnodup : ((machine.read limit maxAge excludedAgents).map LocalSession.displayId).Nodup)
    (hlimit : (machine.read limit maxAge excludedAgents).length ≤ target limit) :
    machine.discoverCached limit maxAge excludedAgents =
      machine.read limit maxAge excludedAgents := by
  have htarget : max 1 (min 25 (target limit)) = target limit := by
    unfold target
    omega
  rw [Machine.discoverCached, SessionCache.discoverCachedExcluding]
  rw [Machine.read] at hnodup hlimit ⊢
  rw [← target]
  split
  · next hrefresh =>
    rw [if_pos hrefresh] at hnodup hlimit
    rw [SessionCache.cachedSessions_refresh, htarget]
    rw [show SessionParser.displayId = LocalSession.displayId from rfl, firsts_of_nodup hnodup,
      List.take_take, min_self, List.take_of_length_le hlimit]
  · next hrefresh =>
    rw [if_neg hrefresh] at hlimit
    exact List.take_of_length_le hlimit

/-- Where no two sessions have one display id, discovery drops none. -/
theorem discoverSessions_of_nodup
    (hnodup : ((machine.found limit maxAge).map LocalSession.displayId).Nodup)
    (hlimit : (machine.found limit maxAge).length ≤ target limit) (pidFilter : Option ℕ)
    (textFilter : Option String) :
    (machine.discoverSessions limit maxAge pidFilter textFilter).Perm
      (((machine.found limit maxAge).map machine.enrich).filter
        (matchesFilter pidFilter textFilter)) := by
  refine List.Perm.filter _ (List.Perm.map _ ?_)
  rw [Machine.found] at hnodup hlimit ⊢
  split
  · next hempty =>
    rw [if_pos hempty] at hnodup hlimit
    rw [discoverCached_of_nodup hnodup hlimit, firsts_of_nodup hnodup]
  · next hindexed =>
    rw [if_neg hindexed] at hnodup hlimit
    have hread : machine.discoverCached limit maxAge ["codex"] =
        machine.read limit maxAge ["codex"] := by
      rw [List.map_append] at hnodup
      rw [List.length_append] at hlimit
      exact discoverCached_of_nodup hnodup.of_append_right (by omega)
    have hsorted := List.perm_insertionSort (fun a b : LocalSession => b.updated ≤ a.updated)
      (machine.indexed ++ machine.read limit maxAge ["codex"])
    rw [hread, List.take_of_length_le (hsorted.length_eq.trans_le hlimit),
      firsts_of_nodup ((hsorted.map _).nodup_iff.mpr hnodup)]
    exact hsorted

end Discover

end AgentSight.AgentNative
