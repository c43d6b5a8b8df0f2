import AgentSight.Lib.GreedyMatching
import AgentSight.Session.ProcessMatch

/-!
# The matching of a refresh

A session and a process that could be linked are a `Link`. Both passes of `match_sessions` choose
links greedily: the first takes them session by session, each with the processes in their order
(`links`), the second from the nearest on. What makes the first pass a greedy matching of one list
is that the bindings of processes without evidence do not change in it (`Agrees`), and the other
processes are linked by their evidence alone. So the result is read off the chosen links, which
share no session and no process and leave nothing over.
-/

namespace AgentSight.Session

open KeyedTable GreedyMatching List Option

variable {Age : Type}

structure Link (Age : Type) where
  session : SessionProcessInput
  process : LiveProcessCandidate Age
  trace : Trace

namespace Link

def sessionId (l : Link Age) : String := l.session.id

def rootPid (l : Link Age) : ℕ := l.process.tree.root.pid

/-- The record of the link. -/
def result (l : Link Age) : SessionProcessMatch where
  sessionId := l.session.id
  rootPid := l.process.tree.root.pid
  matchedPids := l.process.tree.members.map ProcessKey.pid
  pidStarttimeTicks := l.process.tree.root.starttimeTicks
  source := sourceSessionProcessMatch
  confidence := confidenceForEvidence l.trace
  evidence := l.trace

end Link

/-! ### The maps of the chosen links -/

/-- Record the links one after the other. -/
def matchesOf (links : List (Link Age)) : SessionProcessMatches :=
  links.foldl (fun out l => recordMatch out l.session l.process l.trace) .empty

theorem matchesOf_concat (links : List (Link Age)) (l : Link Age) :
    matchesOf (links ++ [l]) = recordMatch (matchesOf links) l.session l.process l.trace := by
  rw [matchesOf, foldl_concat]
  rfl

theorem foldl_update_eq (pids : List ℕ) (id : String) (byPid : ℕ → Option String) (pid : ℕ) :
    pids.foldl (fun byPid pid => Function.update byPid pid (some id)) byPid pid =
      if pid ∈ pids then some id else byPid pid := by
  induction pids generalizing byPid with
  | nil => rfl
  | cons a pids ih =>
    rw [foldl_cons, ih]
    by_cases ha : pid = a
    · simp [ha]
    · simp [ha]

section Maps

variable {links : List (Link Age)}

theorem mem_usedRootPids {pid : ℕ} :
    pid ∈ (matchesOf links).usedRootPids ↔ ∃ l ∈ links, l.rootPid = pid := by
  induction links using List.reverseRecOn with
  | nil => simp [matchesOf, SessionProcessMatches.empty]
  | append_singleton links l ih =>
    rw [matchesOf_concat, recordMatch, mem_insert_iff, ih]
    simp only [mem_append, mem_singleton, or_and_right, exists_or, exists_eq_left]
    rw [or_comm, eq_comm (a := pid)]
    rfl

theorem bySessionId_isSome {id : String} :
    ((matchesOf links).bySessionId id).isSome ↔ ∃ l ∈ links, l.sessionId = id := by
  induction links using List.reverseRecOn with
  | nil => simp [matchesOf, SessionProcessMatches.empty]
  | append_singleton links l ih =>
    rw [matchesOf_concat, recordMatch]
    simp only [mem_append, mem_singleton, or_and_right, exists_or, exists_eq_left, ← ih]
    by_cases hid : id = l.session.id
    · simp [hid, Link.sessionId]
    · have hne : ¬ l.sessionId = id := fun h => hid h.symm
      simp [hid, hne]

variable (hmatching : IsMatching Link.sessionId Link.rootPid links)
include hmatching

theorem bySessionId_eq_some {id : String} {m : SessionProcessMatch} :
    (matchesOf links).bySessionId id = some m ↔ ∃ l ∈ links, l.sessionId = id ∧ l.result = m := by
  induction links using List.reverseRecOn with
  | nil => simp [matchesOf, SessionProcessMatches.empty]
  | append_singleton links l ih =>
    obtain ⟨hlinks, -, hfree⟩ := pairwise_append.mp hmatching
    rw [matchesOf_concat, recordMatch]
    dsimp only
    rw [Function.update_apply]
    split
    · next hid =>
      constructor
      · intro hm
        exact ⟨l, by simp, hid.symm, some.inj hm⟩
      · rintro ⟨l', hl', hid', rfl⟩
        rcases mem_append.mp hl' with hl' | hl'
        · exact absurd (hid'.trans hid) (hfree l' hl' l (mem_singleton_self l)).1
        · rw [mem_singleton.mp hl']
          rfl
    · next hid =>
      rw [ih hlinks]
      constructor
      · rintro ⟨l', hl', h⟩
        exact ⟨l', mem_append_left _ hl', h⟩
      · rintro ⟨l', hl', hid', h⟩
        rcases mem_append.mp hl' with hl' | hl'
        · exact ⟨l', hl', hid', h⟩
        · rw [mem_singleton.mp hl'] at hid'
          exact absurd hid'.symm hid

/-- With disjoint trees, a pid is of the session whose tree it is in. -/
theorem byPid_eq_some (htrees : links.Pairwise fun l l' =>
      ∀ pid ∈ l.result.matchedPids, pid ∉ l'.result.matchedPids) {pid : ℕ} {id : String} :
    (matchesOf links).byPid pid = some id ↔
      ∃ l ∈ links, l.sessionId = id ∧ pid ∈ l.result.matchedPids := by
  induction links using List.reverseRecOn with
  | nil => simp [matchesOf, SessionProcessMatches.empty]
  | append_singleton links l ih =>
    obtain ⟨hlinks, -, -⟩ := pairwise_append.mp hmatching
    obtain ⟨hbefore, -, hdisjoint⟩ := pairwise_append.mp htrees
    rw [matchesOf_concat, recordMatch]
    dsimp only
    rw [foldl_update_eq]
    split
    · next hpid =>
      constructor
      · intro hid
        exact ⟨l, by simp, some.inj hid, hpid⟩
      · rintro ⟨l', hl', hid', hpid'⟩
        rcases mem_append.mp hl' with hl' | hl'
        · exact absurd hpid (hdisjoint l' hl' l (mem_singleton_self l) pid hpid')
        · rw [mem_singleton.mp hl'] at hid'
          exact congrArg some hid'
    · next hpid =>
      rw [ih hlinks hbefore]
      constructor
      · rintro ⟨l', hl', h⟩
        exact ⟨l', mem_append_left _ hl', h⟩
      · rintro ⟨l', hl', hid', hpid'⟩
        rcases mem_append.mp hl' with hl' | hl'
        · exact ⟨l', hl', hid', hpid'⟩
        · rw [mem_singleton.mp hl'] at hpid'
          exact absurd hpid' hpid

end Maps

/-! ### The first pass -/

/-- The bindings of processes without evidence are the same. -/
def Agrees (evidence : ℕ → Option Evidence) (bindings bindings' : Bindings) : Prop :=
  ∀ pid, evidence pid = none → bindings pid = bindings' pid

variable {l : Link Age}

section FirstPass

variable {evidence : ℕ → Option Evidence} {bindings bindings' : Bindings} {path : String}
  {process : LiveProcessCandidate Age}

theorem linkTrace_of_agrees (h : Agrees evidence bindings bindings') :
    (linkTrace evidence path process bindings).1 =
      (linkTrace evidence path process bindings').1 := by
  cases hevidence : evidence process.tree.root.pid with
  | none => rw [linkTrace_of_none _ hevidence, linkTrace_of_none _ hevidence, h _ hevidence]
  | some paths =>
    cases hfind : find Prod.fst paths path with
    | none => rw [linkTrace_of_not_find _ hevidence hfind, linkTrace_of_not_find _ hevidence hfind]
    | some entry => rw [linkTrace_of_find _ hevidence hfind, linkTrace_of_find _ hevidence hfind]

theorem agrees_linkTrace :
    Agrees evidence bindings (linkTrace evidence path process bindings).2 := by
  intro pid hpid
  cases hevidence : evidence process.tree.root.pid with
  | none => rw [linkTrace_of_none _ hevidence]
  | some paths =>
    have hne : pid ≠ process.tree.root.pid := by
      rintro rfl
      rw [hevidence] at hpid
      cases hpid
    cases hfind : find Prod.fst paths path with
    | none =>
      rw [linkTrace_of_not_find _ hevidence hfind]
      exact (Function.update_of_ne hne _ _).symm
    | some entry =>
      rw [linkTrace_of_find _ hevidence hfind]
      exact (Function.update_of_ne hne _ _).symm

theorem Agrees.trans {bindings'' : Bindings} (h : Agrees evidence bindings bindings')
    (h' : Agrees evidence bindings' bindings'') : Agrees evidence bindings bindings'' :=
  fun pid hpid => (h pid hpid).trans (h' pid hpid)

variable [Clock Age] {r : Refresh Age} {session : SessionProcessInput}

/-- The link of a session and a process that the first pass could choose, for the bindings before
it. -/
def link (r : Refresh Age) (bindings : Bindings) (session : SessionProcessInput)
    (process : LiveProcessCandidate Age) : Option (Link Age) :=
  if process.agent = session.agent && sessionIsFreshEnoughForProcess session process r.nowMs then
    (linkTrace (collectPathEvidence r) (normalizeSessionLogPath r.canonicalize session.path)
      process bindings).1.map (Link.mk session process)
  else none

/-- The links that the first pass could choose, in its order. -/
def links (r : Refresh Age) (bindings : Bindings) : List (Link Age) :=
  r.sessions.flatMap fun session => r.processes.filterMap (link r bindings session)

theorem link_eq_some {process : LiveProcessCandidate Age} :
    link r bindings session process = some l ↔ process.agent = session.agent ∧
        sessionIsFreshEnoughForProcess session process r.nowMs = true ∧
        ∃ trace, (linkTrace (collectPathEvidence r)
          (normalizeSessionLogPath r.canonicalize session.path) process bindings).1 = some trace ∧
          ⟨session, process, trace⟩ = l := by
  unfold link
  by_cases h : (process.agent = session.agent &&
      sessionIsFreshEnoughForProcess session process r.nowMs) = true
  · rw [if_pos h, map_eq_some_iff]
    rw [Bool.and_eq_true, decide_eq_true_eq] at h
    exact ⟨fun hl => ⟨h.1, h.2, hl⟩, fun hl => hl.2.2⟩
  · rw [if_neg h]
    rw [Bool.and_eq_true, decide_eq_true_eq] at h
    exact ⟨nofun, fun hl => absurd ⟨hl.1, hl.2.1⟩ h⟩

/-- The search finds the first link whose process is not used. -/
theorem search_spec (used : List ℕ) (session : SessionProcessInput)
    (processes : List (LiveProcessCandidate Age))
    (h : Agrees (collectPathEvidence r) bindings bindings') :
    Agrees (collectPathEvidence r) bindings (search r used session processes bindings').2 ∧
      (search r used session processes bindings').1 =
        ((processes.filterMap (link r bindings session)).find? (·.rootPid ∉ used)).map
          fun l => (l.process, l.trace) := by
  induction processes generalizing bindings' with
  | nil => exact ⟨h, rfl⟩
  | cons process processes ih =>
    rw [search, filterMap_cons]
    by_cases hmay : mayLink r used session process = true
    · rw [if_pos hmay]
      obtain ⟨⟨hfree, hagent⟩, hfresh⟩ : ((process.tree.root.pid ∉ used) ∧
          process.agent = session.agent) ∧
          sessionIsFreshEnoughForProcess session process r.nowMs = true := by
        simpa [mayLink] using hmay
      have hlink : link r bindings session process =
          (linkTrace (collectPathEvidence r) (normalizeSessionLogPath r.canonicalize session.path)
            process bindings').1.map (Link.mk session process) := by
        rw [← linkTrace_of_agrees h]
        exact if_pos (by simp [hagent, hfresh])
      have hafter : Agrees (collectPathEvidence r) bindings (linkTrace (collectPathEvidence r)
          (normalizeSessionLogPath r.canonicalize session.path) process bindings').2 :=
        h.trans agrees_linkTrace
      rw [hlink]
      dsimp only
      generalize linkTrace (collectPathEvidence r)
        (normalizeSessionLogPath r.canonicalize session.path) process bindings' = result at hafter ⊢
      obtain ⟨_ | trace, bindings''⟩ := result
      · exact ih hafter
      · refine ⟨hafter, ?_⟩
        simp [Link.rootPid, hfree]
    · rw [if_neg hmay]
      obtain ⟨hagrees, hfirst⟩ := ih h
      refine ⟨hagrees, ?_⟩
      rw [hfirst]
      -- A process that the guards keep out is no link, or one whose process is used.
      cases hlink : link r bindings session process with
      | none => rfl
      | some l =>
        obtain ⟨hagent, hfresh, trace, -, rfl⟩ := link_eq_some.mp hlink
        have hused : process.tree.root.pid ∈ used := by
          simpa [mayLink, hagent, hfresh] using hmay
        simp [Link.rootPid, hused]

/-- The turn of a session that is not linked yet chooses greedily among its links. -/
theorem turn_spec {pass : Pass} {chosen : List (Link Age)} (hout : pass.out = matchesOf chosen)
    (hnew : ∀ l ∈ chosen, l.sessionId ≠ session.id)
    (h : Agrees (collectPathEvidence r) bindings pass.bindings) :
    (turn r pass session).out = matchesOf (greedy Link.sessionId Link.rootPid chosen
        (r.processes.filterMap (link r bindings session))) ∧
      Agrees (collectPathEvidence r) bindings (turn r pass session).bindings := by
  have hleft : ∀ l ∈ r.processes.filterMap (link r bindings session), l.sessionId = session.id := by
    intro l hl
    obtain ⟨process, -, hlink⟩ := mem_filterMap.mp hl
    obtain ⟨-, -, trace, -, rfl⟩ := link_eq_some.mp hlink
    rfl
  have hfree (l : Link Age) : decide (l.rootPid ∉ pass.out.usedRootPids) =
      decide (∀ c ∈ chosen, c.rootPid ≠ l.rootPid) := by
    refine decide_eq_decide.mpr ?_
    rw [hout, mem_usedRootPids]
    push Not
    rfl
  obtain ⟨hagrees, hfirst⟩ := search_spec pass.out.usedRootPids session r.processes h
  rw [greedy_of_left hnew hleft, ← funext hfree]
  unfold turn
  cases hfind : (r.processes.filterMap (link r bindings session)).find?
      (fun l => decide (l.rootPid ∉ pass.out.usedRootPids)) with
  | none =>
    rw [hfind] at hfirst
    generalize search r pass.out.usedRootPids session r.processes pass.bindings = found at *
    obtain ⟨first, bindings'⟩ := found
    obtain rfl : first = none := hfirst
    exact ⟨hout.trans (by simp), hagrees⟩
  | some l =>
    obtain rfl : l.session = session := by
      obtain ⟨process, -, hlink⟩ := mem_filterMap.mp (mem_of_find?_eq_some hfind)
      obtain ⟨-, -, trace, -, rfl⟩ := link_eq_some.mp hlink
      rfl
    rw [hfind] at hfirst
    generalize search r pass.out.usedRootPids l.session r.processes pass.bindings = found at *
    obtain ⟨first, bindings'⟩ := found
    obtain rfl : first = some (l.process, l.trace) := hfirst
    refine ⟨?_, hagrees⟩
    rw [toList_some, matchesOf_concat, ← hout]

/-- The first pass chooses greedily among the links. -/
theorem firstPass_spec {sessions : List SessionProcessInput} {pass : Pass}
    {chosen : List (Link Age)} (hids : (sessions.map SessionProcessInput.id).Nodup)
    (hout : pass.out = matchesOf chosen)
    (hnew : ∀ session ∈ sessions, ∀ l ∈ chosen, l.sessionId ≠ session.id)
    (h : Agrees (collectPathEvidence r) bindings pass.bindings) :
    (sessions.foldl (turn r) pass).out = matchesOf (greedy Link.sessionId Link.rootPid chosen
        (sessions.flatMap fun session => r.processes.filterMap (link r bindings session))) ∧
      Agrees (collectPathEvidence r) bindings (sessions.foldl (turn r) pass).bindings := by
  induction sessions generalizing pass chosen with
  | nil => exact ⟨hout, h⟩
  | cons session sessions ih =>
    obtain ⟨hid, hids⟩ := nodup_cons.mp hids
    obtain ⟨hthis, hrest⟩ := forall_mem_cons.mp hnew
    obtain ⟨hturn, hagrees⟩ := turn_spec hout hthis h
    rw [flatMap_cons, greedy_append]
    refine ih hids hturn (fun session' hsession' l hl => ?_) hagrees
    rcases mem_of_mem_greedy hl with hl | hl
    · exact hrest session' hsession' l hl
    · obtain ⟨process, -, hlink⟩ := mem_filterMap.mp hl
      obtain ⟨-, -, trace, -, rfl⟩ := link_eq_some.mp hlink
      intro heq
      exact hid (mem_map.mpr ⟨session', hsession', heq.symm⟩)

end FirstPass

/-! ### The second pass -/

def CwdCandidate.link (candidate : CwdCandidate Age) : Link Age :=
  ⟨candidate.session, candidate.process, .recentCwd⟩

theorem linkByCwd_spec {chosen : List (Link Age)} {candidates : List (CwdCandidate Age)} :
    candidates.foldl linkByCwd (matchesOf chosen) =
      matchesOf (greedy Link.sessionId Link.rootPid chosen (candidates.map CwdCandidate.link)) := by
  induction candidates generalizing chosen with
  | nil => rfl
  | cons candidate candidates ih =>
    rw [foldl_cons, map_cons, greedy_cons, ← ih]
    unfold linkByCwd
    by_cases hfree : Free Link.sessionId Link.rootPid chosen candidate.link
    · rw [add_of_free hfree, matchesOf_concat, if_neg]
      · rfl
      · rw [Bool.or_eq_true, decide_eq_true_eq, bySessionId_isSome, mem_usedRootPids]
        rintro (⟨l, hl, hid⟩ | ⟨l, hl, hroot⟩)
        · exact (hfree l hl).1 hid
        · exact (hfree l hl).2 hroot
    · rw [add_of_not_free hfree, if_pos]
      rw [Bool.or_eq_true, decide_eq_true_eq, bySessionId_isSome, mem_usedRootPids]
      unfold Free at hfree
      push Not at hfree
      obtain ⟨l, hl, hends⟩ := hfree
      by_cases hid : l.sessionId = candidate.session.id
      · exact .inl ⟨l, hl, hid⟩
      · exact .inr ⟨l, hl, hends hid⟩

theorem mem_cwdCandidates [Clock Age] {r : Refresh Age} {pass : Pass} :
    l ∈ (cwdCandidates r pass).map CwdCandidate.link ↔
      l.trace = .recentCwd ∧ l.session ∈ r.sessions ∧ l.process ∈ r.processes ∧
        pass.out.bySessionId l.sessionId = none ∧ l.rootPid ∉ pass.out.usedRootPids ∧
        l.process.agent = l.session.agent ∧
        canUseCwdTrace (collectPathEvidence r) pass.bindings
          (normalizeSessionLogPath r.canonicalize l.session.path) l.process = true ∧
        (recentCwdDistanceMs r l.session l.process).isSome = true := by
  constructor
  · intro hl
    obtain ⟨candidate, hcandidate, rfl⟩ := mem_map.mp hl
    obtain ⟨⟨session, i⟩, hsession, hcandidate⟩ := mem_flatMap.mp hcandidate
    dsimp only at hcandidate
    split at hcandidate
    · exact absurd hcandidate not_mem_nil
    · next hunmatched =>
      obtain ⟨⟨process, j⟩, hprocess, hcandidate⟩ := mem_filterMap.mp hcandidate
      split at hcandidate
      · cases hcandidate
      · next hguards =>
        obtain ⟨distance, hdistance, rfl⟩ := map_eq_some_iff.mp hcandidate
        simp only [Bool.or_eq_true, decide_eq_true_eq, Bool.not_eq_true', not_or,
          Bool.not_eq_false, ne_eq, not_not] at hguards
        exact ⟨rfl, fst_mem_of_mem_zipIdx hsession, fst_mem_of_mem_zipIdx hprocess,
          not_isSome_iff_eq_none.mp hunmatched, hguards.1.1, hguards.1.2, hguards.2,
          isSome_iff_exists.mpr ⟨distance, hdistance⟩⟩
  · rintro ⟨htrace, hsession, hprocess, hunmatched, hunused, hagent, hcwd, hdistance⟩
    obtain ⟨session, process, trace⟩ := l
    obtain ⟨i, hi⟩ := mem_iff_getElem?.mp hsession
    obtain ⟨j, hj⟩ := mem_iff_getElem?.mp hprocess
    obtain ⟨distance, hdistance⟩ := isSome_iff_exists.mp hdistance
    obtain rfl : trace = .recentCwd := htrace
    refine mem_map.mpr ⟨⟨distance, sessionEndMs session, i, j, session, process⟩, ?_, rfl⟩
    refine mem_flatMap.mpr ⟨(session, i), mk_mem_zipIdx_iff_getElem?.mpr hi, ?_⟩
    have hnone : pass.out.bySessionId session.id = none := hunmatched
    have hfree : process.tree.root.pid ∉ pass.out.usedRootPids := hunused
    simp only [hnone, isSome_none, Bool.false_eq_true, if_false]
    refine mem_filterMap.mpr ⟨(process, j), mk_mem_zipIdx_iff_getElem?.mpr hj, ?_⟩
    dsimp only at hagent hcwd hdistance
    simp [hfree, hagent, hcwd, hdistance]

/-! ### Evidence by pid -/

section Evidence

variable {r : Refresh Age} {process : LiveProcessCandidate Age}

theorem foldl_evidence_of_ne {processes : List (LiveProcessCandidate Age)} {pid : ℕ}
    (h : ∀ q ∈ processes, q.tree.root.pid ≠ pid) (out : ℕ → Option Evidence) :
    processes.foldl (fun out process =>
      let evidence := processEvidence r process
      if evidence ≠ [] then Function.update out process.tree.root.pid (some evidence) else out)
      out pid = out pid := by
  induction processes generalizing out with
  | nil => rfl
  | cons q processes ih =>
    obtain ⟨hq, hrest⟩ := forall_mem_cons.mp h
    rw [foldl_cons, ih hrest]
    split
    · exact Function.update_of_ne hq.symm _ _
    · rfl

/-- With one process for each pid, the evidence of a pid is that of its process. -/
theorem collectPathEvidence_of_mem
    (hroots : r.processes.Pairwise fun p q => p.tree.root.pid ≠ q.tree.root.pid)
    (hprocess : process ∈ r.processes) :
    collectPathEvidence r process.tree.root.pid =
      if processEvidence r process = [] then none else some (processEvidence r process) := by
  unfold collectPathEvidence
  have hout : (fun _ => none : ℕ → Option Evidence) process.tree.root.pid = none := rfl
  generalize (fun _ => none : ℕ → Option Evidence) = out at hout ⊢
  generalize r.processes = processes at *
  induction processes generalizing out with
  | nil => cases hprocess
  | cons q processes ih =>
    obtain ⟨hq, hrest⟩ := pairwise_cons.mp hroots
    rw [foldl_cons]
    rcases mem_cons.mp hprocess with rfl | hmem
    · rw [foldl_evidence_of_ne fun p hp => (hq p hp).symm]
      by_cases hnil : processEvidence r process = []
      · simp [hnil, hout]
      · simp [hnil]
    · refine ih _ ?_ hrest hmem
      have hne := (hq process hmem).symm
      by_cases hnil : processEvidence r q = []
      · simpa [hnil] using hout
      · simpa [hnil, hne] using hout

end Evidence

/-! ### What a matching is -/

def LiveProcessCandidate.pids (process : LiveProcessCandidate Age) : List ℕ :=
  process.tree.root.pid :: process.tree.members.map ProcessKey.pid

/-- No two processes have a pid in common. -/
def Refresh.DisjointTrees (r : Refresh Age) : Prop :=
  r.processes.Pairwise fun p q => ∀ pid ∈ p.pids, pid ∉ q.pids

def Refresh.logPath (r : Refresh Age) (session : SessionProcessInput) : String :=
  normalizeSessionLogPath r.canonicalize session.path

/-- The process has path evidence for the path. -/
def Refresh.Touches (r : Refresh Age) (process : LiveProcessCandidate Age) (path : String) : Prop :=
  ∃ trace, (path, trace) ∈ processEvidence r process

/-- One of the three rules allows the pair. -/
inductive Eligible [Clock Age] (r : Refresh Age) (bindings : Bindings)
    (session : SessionProcessInput) (process : LiveProcessCandidate Age) : Prop
  | path (agent : process.agent = session.agent)
      (fresh : sessionIsFreshEnoughForProcess session process r.nowMs = true)
      (touches : r.Touches process (r.logPath session))
  | sticky (agent : process.agent = session.agent)
      (fresh : sessionIsFreshEnoughForProcess session process r.nowMs = true)
      (unknown : processEvidence r process = [])
      (bound : bindings process.tree.root.pid =
        some ⟨process.tree.root.starttimeTicks, r.logPath session⟩)
  | recentCwd (agent : process.agent = session.agent) (unknown : processEvidence r process = [])
      (unbound : ∀ binding ∈ bindings process.tree.root.pid,
        binding.starttimeTicks = process.tree.root.starttimeTicks →
          binding.sessionPath = r.logPath session)
      (recent : (recentCwdDistanceMs r session process).isSome = true)

/-- The matches are those of a maximal matching. -/
structure ConsistentMatching [Clock Age] (r : Refresh Age) (bindings : Bindings)
    (out : SessionProcessMatches) : Prop where
  /-- A match is between a session and exactly one process of the refresh, with all its tree. -/
  process : ∀ id m, out.bySessionId id = some m → ∃ session ∈ r.sessions, ∃ process ∈ r.processes,
    session.id = id ∧ m.sessionId = id ∧ m.rootPid = process.tree.root.pid ∧
      m.matchedPids = process.tree.members.map ProcessKey.pid ∧
      ∀ q ∈ r.processes, q.tree.root.pid = m.rootPid → q = process
  session : ∀ id id' m m', out.bySessionId id = some m → out.bySessionId id' = some m' →
    m.rootPid = m'.rootPid → id = id'
  used : ∀ pid, pid ∈ out.usedRootPids ↔ ∃ id m, out.bySessionId id = some m ∧ m.rootPid = pid
  byPid : ∀ pid id, out.byPid pid = some id ↔ ∃ m, out.bySessionId id = some m ∧ pid ∈ m.matchedPids
  evidence : ∀ session ∈ r.sessions, ∀ process ∈ r.processes, ∀ m,
    out.bySessionId session.id = some m → m.rootPid = process.tree.root.pid →
      processEvidence r process ≠ [] → r.Touches process (r.logPath session)
  maximal : ∀ session ∈ r.sessions, ∀ process ∈ r.processes,
    out.bySessionId session.id = none → process.tree.root.pid ∉ out.usedRootPids →
      ¬ Eligible r bindings session process

section Result

variable {r : Refresh Age} {bindings bindings' : Bindings} {session : SessionProcessInput}
  {process : LiveProcessCandidate Age}

section

variable (h : r.DisjointTrees)
include h

theorem Refresh.DisjointTrees.roots :
    r.processes.Pairwise fun p q => p.tree.root.pid ≠ q.tree.root.pid := by
  refine h.imp ?_
  intro p q hpq heq
  exact hpq p.tree.root.pid mem_cons_self (heq ▸ mem_cons_self)

section

variable (hprocess : process ∈ r.processes)
include hprocess

theorem Refresh.DisjointTrees.disjoint {q : LiveProcessCandidate Age} (hq : q ∈ r.processes)
    (hne : process ≠ q) :
    ∀ pid ∈ process.pids, pid ∉ q.pids := by
  have hsymm : Std.Symm fun p q : LiveProcessCandidate Age => ∀ pid ∈ p.pids, pid ∉ q.pids :=
    ⟨fun _ _ hpq pid hq hp => hpq pid hp hq⟩
  exact Pairwise.forall h hprocess hq hne

theorem Refresh.DisjointTrees.eq_of_root {q : LiveProcessCandidate Age} (hq : q ∈ r.processes)
    (heq : q.tree.root.pid = process.tree.root.pid) : q = process := by
  by_contra hne
  exact h.disjoint hq hprocess hne q.tree.root.pid mem_cons_self (heq ▸ mem_cons_self)

theorem collectPathEvidence_eq_none :
    collectPathEvidence r process.tree.root.pid = none ↔ processEvidence r process = [] := by
  rw [collectPathEvidence_of_mem h.roots hprocess]
  split <;> simp_all

/-- What `link_trace` returns. -/
theorem linkTrace_eq_some {path : String} :
    (∃ trace, (linkTrace (collectPathEvidence r) path process bindings).1 = some trace) ↔
      r.Touches process path ∨ processEvidence r process = [] ∧
        bindings process.tree.root.pid = some ⟨process.tree.root.starttimeTicks, path⟩ := by
  by_cases hnil : processEvidence r process = []
  · rw [linkTrace_of_none _ ((collectPathEvidence_eq_none h hprocess).mpr hnil)]
    simp [hnil, Refresh.Touches, filter_eq_some_iff]
  · have hevidence : collectPathEvidence r process.tree.root.pid =
        some (processEvidence r process) := by
      rw [collectPathEvidence_of_mem h.roots hprocess, if_neg hnil]
    simp only [hnil, false_and, or_false]
    have hsome := find_isSome Prod.fst (processEvidence r process) path
    cases hfind : find Prod.fst (processEvidence r process) path with
    | none =>
      rw [linkTrace_of_not_find _ hevidence hfind]
      rw [hfind] at hsome
      constructor
      · rintro ⟨trace, htrace⟩
        cases htrace
      · rintro ⟨trace, htouches⟩
        cases hsome.mpr ⟨_, htouches, rfl⟩
    | some entry =>
      rw [linkTrace_of_find _ hevidence hfind]
      obtain ⟨hmem, rfl⟩ := mem_of_find hfind
      exact ⟨fun _ => ⟨entry.2, hmem⟩, fun _ => ⟨entry.2, rfl⟩⟩

theorem canUseCwdTrace_iff
    {path : String} : canUseCwdTrace (collectPathEvidence r) bindings path process = true ↔
      processEvidence r process = [] ∧ ∀ binding ∈ bindings process.tree.root.pid,
        binding.starttimeTicks = process.tree.root.starttimeTicks → binding.sessionPath = path := by
  rw [← collectPathEvidence_eq_none h hprocess]
  unfold canUseCwdTrace
  cases hevidence : collectPathEvidence r process.tree.root.pid with
  | some paths => simp [hevidence]
  | none =>
    cases hbinding : bindings process.tree.root.pid with
    | none => simp [hevidence, hbinding]
    | some binding =>
      simp only [hevidence, hbinding, mem_some_iff, forall_eq']
      simp [imp_iff_not_or]

end

end

variable [Clock Age]

/-- The links of the first pass are the pairs that evidence or a binding allows. -/
theorem mem_links (h : r.DisjointTrees) (hl : l ∈ links r bindings) :
    l.session ∈ r.sessions ∧ l.process ∈ r.processes ∧
      (r.Touches l.process (r.logPath l.session) ∨ processEvidence r l.process = []) := by
  obtain ⟨session, hsession, hl⟩ := mem_flatMap.mp hl
  obtain ⟨process, hprocess, hlink⟩ := mem_filterMap.mp hl
  obtain ⟨-, -, trace, htrace, rfl⟩ := link_eq_some.mp hlink
  refine ⟨hsession, hprocess, ?_⟩
  rcases (linkTrace_eq_some h hprocess).mp ⟨trace, htrace⟩ with htouches | ⟨hunknown, -⟩
  · exact .inl htouches
  · exact .inr hunknown

theorem exists_link (h : r.DisjointTrees) (hsession : session ∈ r.sessions)
    (hprocess : process ∈ r.processes) (hagent : process.agent = session.agent)
    (hfresh : sessionIsFreshEnoughForProcess session process r.nowMs = true)
    (hallowed : r.Touches process (r.logPath session) ∨ processEvidence r process = [] ∧
      bindings process.tree.root.pid = some ⟨process.tree.root.starttimeTicks, r.logPath session⟩) :
    ∃ trace, ⟨session, process, trace⟩ ∈ links r bindings := by
  obtain ⟨trace, htrace⟩ := (linkTrace_eq_some h hprocess).mpr hallowed
  refine ⟨trace, mem_flatMap.mpr ⟨session, hsession, ?_⟩⟩
  exact mem_filterMap.mpr
    ⟨process, hprocess, link_eq_some.mpr ⟨hagent, hfresh, trace, htrace, rfl⟩⟩

/-- The state after the first pass. -/
def firstPass (bindings : Bindings) (r : Refresh Age) : Pass :=
  r.sessions.foldl (turn r) ⟨.empty, retainLive bindings r.processes⟩

/-- The links that the first pass chooses. -/
def firstChosen (bindings : Bindings) (r : Refresh Age) : List (Link Age) :=
  greedy Link.sessionId Link.rootPid [] (links r (retainLive bindings r.processes))

/-- The links that a call chooses. -/
def chosen (bindings : Bindings) (r : Refresh Age) : List (Link Age) :=
  greedy Link.sessionId Link.rootPid (firstChosen bindings r)
    (((cwdCandidates r (firstPass bindings r)).insertionSort fun a b => CwdCandidate.le a b).map
      CwdCandidate.link)

theorem isMatching_chosen : IsMatching Link.sessionId Link.rootPid (chosen bindings r) := by
  exact IsMatching.greedy (IsMatching.greedy Pairwise.nil)

section

variable (hids : (r.sessions.map SessionProcessInput.id).Nodup)
include hids

theorem firstPass_out :
    (firstPass bindings r).out = matchesOf (firstChosen bindings r) :=
  (firstPass_spec hids rfl (fun _ _ _ hl => absurd hl not_mem_nil) fun _ _ => rfl).1

theorem agrees_firstPass :
    Agrees (collectPathEvidence r) (retainLive bindings r.processes)
      (firstPass bindings r).bindings :=
  (@firstPass_spec Age _ _ r r.sessions ⟨.empty, _⟩ [] hids rfl
    (fun _ _ _ hl => absurd hl not_mem_nil) fun _ _ => rfl).2

theorem matchSessions_out :
    (matchSessions bindings r).1 = matchesOf (chosen bindings r) := by
  rw [chosen, ← linkByCwd_spec, ← firstPass_out hids]
  rfl

end

theorem matchSessions_bindings :
    (matchSessions bindings r).2 = (firstPass bindings r).bindings := rfl

theorem mem_candidates : l ∈ ((cwdCandidates r (firstPass bindings r)).insertionSort
      fun a b => CwdCandidate.le a b).map CwdCandidate.link ↔
      l ∈ (cwdCandidates r (firstPass bindings r)).map CwdCandidate.link :=
  ((perm_insertionSort _ _).map CwdCandidate.link).mem_iff

/-- What is chosen is a session and a process of the refresh, the process with evidence for the
session or with none. -/
theorem mem_chosen (h : r.DisjointTrees) (hl : l ∈ chosen bindings r) :
    l.session ∈ r.sessions ∧ l.process ∈ r.processes ∧
      (r.Touches l.process (r.logPath l.session) ∨ processEvidence r l.process = []) := by
  rcases mem_of_mem_greedy hl with hl | hl
  · rcases mem_of_mem_greedy hl with hl | hl
    · exact absurd hl not_mem_nil
    · exact mem_links h hl
  · obtain ⟨-, hsession, hprocess, -, -, -, hcwd, -⟩ := mem_cwdCandidates.mp (mem_candidates.mp hl)
    exact ⟨hsession, hprocess, .inr ((canUseCwdTrace_iff h hprocess).mp hcwd).1⟩

/-- An eligible pair is not left over. -/
theorem not_free_of_eligible (hids : (r.sessions.map SessionProcessInput.id).Nodup)
    (h : r.DisjointTrees) (hsession : session ∈ r.sessions) (hprocess : process ∈ r.processes)
    (heligible : Eligible r (matchSessions bindings r).2 session process) (trace : Trace) :
    ¬ Free Link.sessionId Link.rootPid (chosen bindings r) ⟨session, process, trace⟩ := by
  intro hfree
  have hfirst : Free Link.sessionId Link.rootPid (firstChosen bindings r)
      ⟨session, process, trace⟩ := hfree.mono fun c hc => mem_greedy_of_mem hc
  have hlinked : ∀ trace, ⟨session, process, trace⟩ ∉
      links r (retainLive bindings r.processes) := fun trace' hmem => greedy_maximal hmem hfirst
  rw [matchSessions_bindings] at heligible
  have hagrees : Agrees _ _ (firstPass bindings r).bindings := agrees_firstPass hids
  cases heligible with
  | path agent fresh touches =>
    obtain ⟨trace, hmem⟩ := exists_link h hsession hprocess agent fresh (.inl touches)
    exact hlinked trace hmem
  | sticky agent fresh unknown bound =>
    rw [← hagrees _ ((collectPathEvidence_eq_none h hprocess).mpr unknown)] at bound
    obtain ⟨trace, hmem⟩ :=
      exists_link h hsession hprocess agent fresh (.inr ⟨unknown, bound⟩)
    exact hlinked trace hmem
  | recentCwd agent unknown unbound recent =>
    -- After the first pass both are free, so the pair is one of the candidates.
    have hout : (firstPass bindings r).out = _ := firstPass_out hids
    have hcandidate : (⟨session, process, .recentCwd⟩ : Link Age) ∈
        (cwdCandidates r (firstPass bindings r)).map CwdCandidate.link := by
      refine mem_cwdCandidates.mpr ⟨rfl, hsession, hprocess, ?_, ?_, agent,
        (canUseCwdTrace_iff h hprocess).mpr ⟨unknown, unbound⟩, recent⟩
      · rw [← not_isSome_iff_eq_none, hout, bySessionId_isSome]
        rintro ⟨l, hl, hid⟩
        exact (hfirst l hl).1 hid
      · rw [hout, mem_usedRootPids]
        rintro ⟨l, hl, hroot⟩
        exact (hfirst l hl).2 hroot
    exact greedy_maximal (mem_candidates.mpr hcandidate) hfree

/-- A call of `match_sessions` makes a maximal matching, for every state of the matcher. -/
theorem matchSessions_consistent (bindings : Bindings) (r : Refresh Age)
    (hids : (r.sessions.map SessionProcessInput.id).Nodup) (htrees : r.DisjointTrees) :
    ConsistentMatching r (matchSessions bindings r).2 (matchSessions bindings r).1 := by
  have hmatching : IsMatching Link.sessionId Link.rootPid (chosen bindings r) := isMatching_chosen
  have hmem : ∀ l ∈ chosen bindings r, _ := fun l hl => mem_chosen htrees hl
  have hlookup : ∀ {id m}, (matchSessions bindings r).1.bySessionId id = some m ↔ _ :=
    fun {id m} => by rw [matchSessions_out hids, bySessionId_eq_some hmatching]
  constructor
  case process =>
    intro id m hm
    obtain ⟨l, hl, hid, rfl⟩ := hlookup.mp hm
    obtain ⟨hsession, hprocess, -⟩ := hmem l hl
    exact ⟨l.session, hsession, l.process, hprocess, hid, hid, rfl, rfl,
      fun q hq heq => htrees.eq_of_root hprocess hq heq⟩
  case session =>
    intro id id' m m' hm hm' heq
    obtain ⟨l, hl, rfl, rfl⟩ := hlookup.mp hm
    obtain ⟨l', hl', rfl, rfl⟩ := hlookup.mp hm'
    rw [hmatching.eq_of_shared hl hl' (.inr heq)]
  case used =>
    intro pid
    rw [matchSessions_out hids, mem_usedRootPids]
    constructor
    · rintro ⟨l, hl, rfl⟩
      exact ⟨l.sessionId, l.result, (bySessionId_eq_some hmatching).mpr ⟨l, hl, rfl, rfl⟩, rfl⟩
    · rintro ⟨id, m, hm, rfl⟩
      obtain ⟨l, hl, -, rfl⟩ := (bySessionId_eq_some hmatching).mp hm
      exact ⟨l, hl, rfl⟩
  case byPid =>
    intro pid id
    have hdisjoint : (chosen bindings r).Pairwise fun l l' =>
        ∀ pid ∈ l.result.matchedPids, pid ∉ l'.result.matchedPids := by
      refine hmatching.imp_of_mem fun {l l'} hl hl' hends pid hpid hpid' => ?_
      have hne : l.process ≠ l'.process := fun heq => hends.2 (by rw [Link.rootPid, heq]; rfl)
      exact htrees.disjoint (hmem l hl).2.1 (hmem l' hl').2.1 hne pid
        (mem_cons_of_mem _ hpid) (mem_cons_of_mem _ hpid')
    rw [matchSessions_out hids, byPid_eq_some hmatching hdisjoint]
    constructor
    · rintro ⟨l, hl, rfl, hpid⟩
      exact ⟨l.result, (bySessionId_eq_some hmatching).mpr ⟨l, hl, rfl, rfl⟩, hpid⟩
    · rintro ⟨m, hm, hpid⟩
      obtain ⟨l, hl, hid, rfl⟩ := (bySessionId_eq_some hmatching).mp hm
      exact ⟨l, hl, hid, hpid⟩
  case evidence =>
    intro session hsession process hprocess m hm hroot hknown
    obtain ⟨l, hl, hid, rfl⟩ := hlookup.mp hm
    obtain ⟨hlsession, hlprocess, hallowed⟩ := hmem l hl
    obtain rfl : l.process = process := htrees.eq_of_root hprocess hlprocess hroot
    obtain rfl : l.session = session := inj_on_of_nodup_map hids hlsession hsession hid
    exact hallowed.resolve_right hknown
  case maximal =>
    intro session hsession process hprocess hunmatched hunused heligible
    refine not_free_of_eligible hids htrees hsession hprocess heligible .recentCwd ?_
    rw [matchSessions_out hids] at hunmatched hunused
    rw [mem_usedRootPids] at hunused
    rw [← not_isSome_iff_eq_none, bySessionId_isSome] at hunmatched
    intro l hl
    constructor
    · intro hid
      exact hunmatched ⟨l, hl, hid⟩
    · intro hroot
      exact hunused ⟨l, hl, hroot⟩

end Result

section Example

instance (r : Refresh Age) : Decidable r.DisjointTrees :=
  inferInstanceAs (Decidable (r.processes.Pairwise fun p q => ∀ pid ∈ p.pids, pid ∉ q.pids))

/-- An age in seconds. -/
instance : Clock ℕ := ⟨fun seconds => 1000 * seconds⟩

def codexSession (id path : String) : SessionProcessInput :=
  ⟨id, "codex", path, some 1000, some 90000, some "/work"⟩

def codexProcess (pid : ℕ) : LiveProcessCandidate ℕ :=
  ⟨⟨⟨pid, 7⟩, [⟨pid, 7⟩, ⟨pid + 1, 8⟩]⟩, "codex", some 20, some "/work"⟩

/-- One process has a log open, the other works where the other session does. -/
def desk : Refresh ℕ where
  sessions := [codexSession "a" "/h/.codex/a.jsonl", codexSession "b" "/h/.codex/b.jsonl"]
  processes := [codexProcess 10, codexProcess 20]
  fdPathsByProcess key := if key.pid = 21 then ["/h/.codex/a.jsonl", "/etc/hosts"] else []
  observedPathByProcess _ := none
  nowMs := 100000
  canonicalize _ := none

theorem matchSessions_consistent_desk :
    ConsistentMatching desk (matchSessions (fun _ => none) desk).2
        (matchSessions (fun _ => none) desk).1 ∧
      (matchSessions (fun _ => none) desk).1.byPid 21 = some "a" ∧
      (matchSessions (fun _ => none) desk).1.byPid 10 = some "b" := by
  refine ⟨matchSessions_consistent _ desk (by decide) (by decide), ?_, ?_⟩
  · decide +kernel
  · decide +kernel

end Example

end AgentSight.Session
