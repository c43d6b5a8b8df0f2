import AgentSight.Session.Matching

/-!
# What a binding stands for

A binding says that a process was seen to touch a log. It should hold until the process exits or is
seen with other logs (`Supported`). But `link_trace` drops a binding only where the search of a
session comes to its process, so evidence against it counts only in a call in which some search
does (`Noticed`). And a search stops at the first process that is linked to its session, bound or
seen with the log, so direct evidence comes first only where it is listed first (`DirectFirst`).
Runs of calls are listed with the newest call first.
-/

namespace AgentSight.Session

open KeyedTable List Option

variable {Age : Type}

/-! ### What a call sees -/

namespace Refresh

variable (r : Refresh Age)

/-- The process instance is live. -/
def Live (key : ProcessKey) : Prop := ∃ process ∈ r.processes, process.tree.root = key

/-- There is direct evidence of the path for the pid. -/
def Shows (pid : ℕ) (path : String) : Prop :=
  ∃ paths ∈ collectPathEvidence r pid, (find Prod.fst paths path).isSome

/-- There is evidence for the pid, and it lacks the path. -/
def Lacks (pid : ℕ) (path : String) : Prop :=
  ∃ paths ∈ collectPathEvidence r pid, find Prod.fst paths path = none

instance (key : ProcessKey) : Decidable (r.Live key) :=
  inferInstanceAs (Decidable (∃ process ∈ r.processes, process.tree.root = key))

instance (pid : ℕ) (path : String) : Decidable (r.Shows pid path) :=
  inferInstanceAs (Decidable (∃ paths ∈ collectPathEvidence r pid, _))

instance (pid : ℕ) (path : String) : Decidable (r.Lacks pid path) :=
  inferInstanceAs (Decidable (∃ paths ∈ collectPathEvidence r pid, _))

end Refresh

/-- A call saw the process touch the path; since then it was live in every call, and none showed
evidence for it that lacks the path. -/
def Supported (key : ProcessKey) (path : String) : List (Refresh Age) → Prop
  | [] => False
  | r :: earlier =>
    r.Live key ∧ (r.Shows key.pid path ∨ ¬ r.Lacks key.pid path ∧ Supported key path earlier)

instance decidableSupported (key : ProcessKey) (path : String) :
    (history : List (Refresh Age)) → Decidable (Supported key path history)
  | [] => inferInstanceAs (Decidable False)
  | r :: earlier =>
    have := decidableSupported key path earlier
    inferInstanceAs (Decidable (r.Live key ∧ (r.Shows key.pid path ∨ ¬ r.Lacks key.pid path ∧
      Supported key path earlier)))

/-! ### Turns and runs -/

variable [Clock Age]

/-- The state before a turn: the sessions that have had theirs. -/
def passBefore (bindings : Bindings) (r : Refresh Age) (done : List SessionProcessInput) : Pass :=
  done.foldl (turn r) ⟨.empty, retainLive bindings r.processes⟩

/-- What the search of the session finds. -/
def Pass.finds (pass : Pass) (r : Refresh Age) (session : SessionProcessInput) :
    Option (LiveProcessCandidate Age × Trace) :=
  (search r pass.out.usedRootPids session r.processes pass.bindings).1

/-- The bindings after a run. -/
def bindingsAfter : List (Refresh Age) → Bindings
  | [] => fun _ => none
  | r :: earlier => (matchSessions (bindingsAfter earlier) r).2

/-- What should hold of the links that the last call of a run makes by the sticky rule. -/
def FollowsEvidence (r : Refresh Age) (earlier : List (Refresh Age)) : Prop :=
  ∀ done session rest, r.sessions = done ++ session :: rest → ∀ process,
    (passBefore (bindingsAfter earlier) r done).finds r session = some (process, .stickyBinding) →
      Supported process.tree.root (r.logPath session) (r :: earlier) ∧
      ∀ q ∈ r.processes,
        mayLink r (passBefore (bindingsAfter earlier) r done).out.usedRootPids session q = true →
          ¬ r.Shows q.tree.root.pid (r.logPath session)

/-! ### The condition -/

/-- The search comes to the process: it may be linked, and no process before it is. -/
def ComesTo (r : Refresh Age) (pass : Pass) (session : SessionProcessInput)
    (process : LiveProcessCandidate Age) : Prop :=
  ∃ front back, r.processes = front ++ process :: back ∧
    mayLink r pass.out.usedRootPids session process = true ∧
    ∀ q ∈ front, mayLink r pass.out.usedRootPids session q = true →
      (linkTrace (collectPathEvidence r) (r.logPath session) q pass.bindings).1 = none

/-- To each process whose evidence lacks the path that it is bound to, some search comes. -/
def Noticed (bindings : Bindings) (r : Refresh Age) : Prop :=
  ∀ process ∈ r.processes, ∀ binding ∈ bindings process.tree.root.pid,
    binding.starttimeTicks = process.tree.root.starttimeTicks →
      r.Lacks process.tree.root.pid binding.sessionPath →
        ∃ done session rest, r.sessions = done ++ session :: rest ∧
          ComesTo r (passBefore bindings r done) session process

/-- The traces of the processes that could be linked at the turn, in the order of the list. -/
def Pass.offers (pass : Pass) (r : Refresh Age) (session : SessionProcessInput) : List Trace :=
  (r.processes.filter (mayLink r pass.out.usedRootPids session)).filterMap fun process =>
    (linkTrace (collectPathEvidence r) (r.logPath session) process pass.bindings).1

/-- If a process with direct evidence could be linked, the first that could be has some. -/
def DirectFirst (bindings : Bindings) (r : Refresh Age) : Prop :=
  ∀ done session rest, r.sessions = done ++ session :: rest →
    (∃ trace ∈ (passBefore bindings r done).offers r session, trace ≠ .stickyBinding) →
      ((passBefore bindings r done).offers r session).head? ≠ some .stickyBinding

/-- The condition holds in every call of the run. -/
def Attentive : List (Refresh Age) → Prop
  | [] => True
  | r :: earlier =>
    Noticed (bindingsAfter earlier) r ∧ DirectFirst (bindingsAfter earlier) r ∧ Attentive earlier

variable {process : LiveProcessCandidate Age} {path : String}

/-! ### What a search does to the bindings -/

section Search

variable {r : Refresh Age} {bindings : Bindings} {session : SessionProcessInput}

omit [Clock Age] in
/-- A binding after `link_trace` was there before, or is what the evidence shows. -/
theorem binding_linkTrace {pid : ℕ} {binding : LiveSessionBinding}
    (h : (linkTrace (collectPathEvidence r) path process bindings).2 pid = some binding) :
    bindings pid = some binding ∧ (pid = process.tree.root.pid → collectPathEvidence r pid = none) ∨
      pid = process.tree.root.pid ∧ binding = ⟨process.tree.root.starttimeTicks, path⟩ ∧
        r.Shows pid path := by
  cases hevidence : collectPathEvidence r process.tree.root.pid with
  | none =>
    rw [linkTrace_of_none _ hevidence] at h
    exact .inl ⟨h, fun heq => heq ▸ hevidence⟩
  | some paths =>
    by_cases hpid : pid = process.tree.root.pid
    · subst hpid
      cases hfind : find Prod.fst paths path with
      | none =>
        rw [linkTrace_of_not_find _ hevidence hfind] at h
        simp at h
      | some entry =>
        rw [linkTrace_of_find _ hevidence hfind] at h
        refine .inr ⟨rfl, ?_, paths, hevidence, by rw [hfind]; rfl⟩
        simpa using h.symm
    · cases hfind : find Prod.fst paths path with
      | none =>
        rw [linkTrace_of_not_find _ hevidence hfind] at h
        simpa [hpid] using h
      | some entry =>
        rw [linkTrace_of_find _ hevidence hfind] at h
        simpa [hpid] using h

/-- A property of bindings that no `link_trace` of the call breaks. -/
def Keeps (r : Refresh Age) (P : Bindings → Prop) : Prop :=
  ∀ bindings path, ∀ process ∈ r.processes, P bindings →
    P (linkTrace (collectPathEvidence r) path process bindings).2

variable {P : Bindings → Prop}

theorem Keeps.search (hP : Keeps r P) (used : List ℕ)
    {processes : List (LiveProcessCandidate Age)}
    (hsub : ∀ process ∈ processes, process ∈ r.processes)
    (h : P bindings) : P (search r used session processes bindings).2 := by
  induction processes generalizing bindings with
  | nil => exact h
  | cons process processes ih =>
    obtain ⟨hprocess, hrest⟩ := forall_mem_cons.mp hsub
    have hlink := hP bindings (r.logPath session) process hprocess h
    rw [Session.search]
    split
    · unfold Refresh.logPath at hlink
      dsimp only
      generalize linkTrace (collectPathEvidence r) _ process bindings = result at hlink ⊢
      obtain ⟨_ | trace, bindings'⟩ := result
      · exact ih hrest hlink
      · exact hlink
    · exact ih hrest h

theorem turn_bindings (r : Refresh Age) (pass : Pass) (session : SessionProcessInput) :
    (turn r pass session).bindings =
      (Session.search r pass.out.usedRootPids session r.processes pass.bindings).2 := by
  unfold turn
  generalize Session.search r pass.out.usedRootPids session r.processes pass.bindings = found
  obtain ⟨_ | ⟨process, trace⟩, bindings⟩ := found <;> rfl

theorem Keeps.turns (hP : Keeps r P) (sessions : List SessionProcessInput) {pass : Pass}
    (h : P pass.bindings) : P (sessions.foldl (turn r) pass).bindings := by
  induction sessions generalizing pass with
  | nil => exact h
  | cons session sessions ih =>
    refine ih ?_
    rw [turn_bindings]
    exact hP.search _ (fun _ hprocess => hprocess) h

/-- A search that comes to a process does to the bindings what `link_trace` does there. -/
theorem search_of_comesTo (hP : Keeps r P) {used : List ℕ} (hprocess : ∀ bindings,
      P (linkTrace (collectPathEvidence r) (r.logPath session) process bindings).2)
    (hmay : mayLink r used session process = true) {front back : List (LiveProcessCandidate Age)}
    (hback : ∀ q ∈ back, q ∈ r.processes) {bindings' : Bindings}
    (hfront : ∀ q ∈ front, mayLink r used session q = true →
      (linkTrace (collectPathEvidence r) (r.logPath session) q bindings).1 = none)
    (hagrees : Agrees (collectPathEvidence r) bindings bindings') :
    P (Session.search r used session (front ++ process :: back) bindings').2 := by
  induction front generalizing bindings' with
  | nil =>
    have hlink := hprocess bindings'
    unfold Refresh.logPath at hlink
    rw [nil_append, Session.search, if_pos hmay]
    dsimp only
    generalize linkTrace (collectPathEvidence r) _ process bindings' = result at hlink ⊢
    obtain ⟨_ | trace, bindings''⟩ := result
    · exact hP.search used hback hlink
    · exact hlink
  | cons q front ih =>
    obtain ⟨hq, hrest⟩ := forall_mem_cons.mp hfront
    rw [cons_append, Session.search]
    split
    · next hmayq =>
      -- No process before is linked, so the search goes on.
      have hnone := hq hmayq
      rw [linkTrace_of_agrees hagrees] at hnone
      have hafter : Agrees _ bindings
          (linkTrace (collectPathEvidence r) (r.logPath session) q bindings').2 :=
        hagrees.trans agrees_linkTrace
      unfold Refresh.logPath at hnone hafter
      dsimp only
      generalize linkTrace (collectPathEvidence r) _ q bindings' = result at hnone hafter ⊢
      obtain ⟨first, bindings''⟩ := result
      obtain rfl : first = none := hnone
      exact ih hrest hafter
    · exact ih hrest hagrees

/-- Every binding of the pid is to a path that the call shows. -/
def Shown (r : Refresh Age) (pid : ℕ) (bindings : Bindings) : Prop :=
  ∀ binding ∈ bindings pid, r.Live ⟨pid, binding.starttimeTicks⟩ ∧ r.Shows pid binding.sessionPath

omit [Clock Age] in
theorem shown_of_evidence
    (hprocess : process ∈ r.processes)
    (hevidence : collectPathEvidence r process.tree.root.pid ≠ none) :
    Shown r process.tree.root.pid (linkTrace (collectPathEvidence r) path process bindings).2 := by
  intro binding hbinding
  rcases binding_linkTrace hbinding with ⟨-, hnone⟩ | ⟨-, rfl, hshows⟩
  · exact absurd (hnone rfl) hevidence
  · exact ⟨⟨process, hprocess, rfl⟩, hshows⟩

omit [Clock Age] in
theorem keeps_shown (pid : ℕ) : Keeps r (Shown r pid) := by
  intro bindings path process hprocess h binding hbinding
  rcases binding_linkTrace hbinding with ⟨hold, -⟩ | ⟨rfl, rfl, hshows⟩
  · exact h binding hold
  · exact ⟨⟨process, hprocess, rfl⟩, hshows⟩

omit [Clock Age] in
/-- A binding was there before the call, or is to a path that the call shows. -/
theorem keeps_old (before : Bindings) (pid : ℕ) : Keeps r fun bindings =>
    ∀ binding ∈ bindings pid, before pid = some binding ∨
      r.Live ⟨pid, binding.starttimeTicks⟩ ∧ r.Shows pid binding.sessionPath := by
  intro bindings path process hprocess h binding hbinding
  rcases binding_linkTrace hbinding with ⟨hold, -⟩ | ⟨rfl, rfl, hshows⟩
  · exact h binding hold
  · exact .inr ⟨⟨process, hprocess, rfl⟩, hshows⟩

end Search

/-! ### Runs -/

section Runs

variable {r : Refresh Age} {bindings : Bindings} {earlier history : List (Refresh Age)}

theorem passBefore_bindings (bindings : Bindings) (r : Refresh Age)
    (done rest : List SessionProcessInput) {P : Bindings → Prop} (hP : Keeps r P)
    (h : P (passBefore bindings r done).bindings) :
    P (passBefore bindings r (done ++ rest)).bindings := by
  unfold passBefore at h ⊢
  rw [foldl_append]
  exact hP.turns rest h

variable {session : SessionProcessInput}

/-- Whatever the evidence says, a binding that a search comes to is shown after the call. -/
theorem shown_of_comesTo {done rest : List SessionProcessInput}
    (hsessions : r.sessions = done ++ session :: rest)
    (hcomes : ComesTo r (passBefore bindings r done) session process)
    (hevidence : collectPathEvidence r process.tree.root.pid ≠ none) :
    Shown r process.tree.root.pid (matchSessions bindings r).2 := by
  obtain ⟨front, back, hprocesses, hmay, hfront⟩ := hcomes
  have hmem : process ∈ r.processes := by simp [hprocesses]
  have hback : ∀ q ∈ back, q ∈ r.processes := fun q hq => by simp [hprocesses, hq]
  have hturn : Shown r process.tree.root.pid
      (passBefore bindings r (done ++ [session])).bindings := by
    have hsearch := search_of_comesTo (keeps_shown _)
      (fun _ => shown_of_evidence hmem hevidence) hmay hback hfront fun _ _ => rfl
    rw [← hprocesses] at hsearch
    unfold passBefore
    rw [foldl_concat, turn_bindings]
    exact hsearch
  have hfinal := passBefore_bindings bindings r (done ++ [session]) rest (keeps_shown _) hturn
  rw [append_assoc, singleton_append, ← hsessions] at hfinal
  exact hfinal

/-- Every binding is supported by the run. -/
def Grounded (history : List (Refresh Age)) (bindings : Bindings) : Prop :=
  ∀ pid, ∀ binding ∈ bindings pid,
    Supported ⟨pid, binding.starttimeTicks⟩ binding.sessionPath history

omit [Clock Age] in
theorem retainLive_eq_some {pid : ℕ} {binding : LiveSessionBinding}
    (h : retainLive bindings r.processes pid = some binding) :
    bindings pid = some binding ∧ r.Live ⟨pid, binding.starttimeTicks⟩ := by
  obtain ⟨hold, hlive⟩ := filter_eq_some_iff.mp h
  obtain ⟨process, hprocess, hroot⟩ := any_eq_true.mp hlive
  exact ⟨hold, process, hprocess, of_decide_eq_true hroot⟩

/-- Where a binding comes from, at every turn of a call. -/
theorem binding_origin {done : List SessionProcessInput} {pid : ℕ} {binding : LiveSessionBinding}
    (h : (passBefore bindings r done).bindings pid = some binding) :
    r.Live ⟨pid, binding.starttimeTicks⟩ ∧
      (bindings pid = some binding ∨ r.Shows pid binding.sessionPath) := by
  have horigin := passBefore_bindings bindings r [] done
    (keeps_old (retainLive bindings r.processes) pid) (fun binding hbinding => .inl hbinding)
  rcases horigin binding h with hold | ⟨hlive, hshows⟩
  · obtain ⟨hbefore, hlive⟩ := retainLive_eq_some hold
    exact ⟨hlive, .inl hbefore⟩
  · exact ⟨hlive, .inr hshows⟩

/-- A call in which the evidence is noticed keeps the bindings supported. -/
theorem Grounded.step (h : Grounded earlier bindings) (hnoticed : Noticed bindings r) :
    Grounded (r :: earlier) (matchSessions bindings r).2 := by
  intro pid binding hbinding
  obtain ⟨⟨process, hprocess, hroot⟩, horigin⟩ :=
    @binding_origin Age _ r bindings r.sessions _ _ hbinding
  obtain rfl : pid = process.tree.root.pid := (congrArg ProcessKey.pid hroot).symm
  have hticks : binding.starttimeTicks = process.tree.root.starttimeTicks :=
    (congrArg ProcessKey.starttimeTicks hroot).symm
  rcases horigin with hold | hshows
  · by_cases hlacks : r.Lacks process.tree.root.pid binding.sessionPath
    · -- The evidence is against the binding, and a search has come to the process.
      obtain ⟨done, session, rest, hsessions, hcomes⟩ :=
        hnoticed process hprocess binding hold hticks hlacks
      have hevidence : collectPathEvidence r process.tree.root.pid ≠ none := by
        obtain ⟨paths, hpaths, -⟩ := hlacks
        rw [mem_def.mp hpaths]
        exact nofun
      obtain ⟨hlive, hshows⟩ := shown_of_comesTo hsessions hcomes hevidence binding hbinding
      exact ⟨hlive, .inl hshows⟩
    · exact ⟨⟨process, hprocess, hroot⟩, .inr ⟨hlacks, h _ binding hold⟩⟩
  · exact ⟨⟨process, hprocess, hroot⟩, .inl hshows⟩

theorem grounded_of_attentive (h : Attentive history) :
    Grounded history (bindingsAfter history) := by
  induction history with
  | nil => exact fun _ _ hbinding => nomatch hbinding
  | cons r earlier ih => exact (ih h.2.2).step h.1

/-! ### Links -/

theorem finds_eq (pass : Pass) (r : Refresh Age) (session : SessionProcessInput) :
    pass.finds r session = ((r.processes.filterMap (link r pass.bindings session)).find?
      (·.rootPid ∉ pass.out.usedRootPids)).map fun l => (l.process, l.trace) :=
  (search_spec pass.out.usedRootPids session r.processes fun _ _ => rfl).2

/-- The search finds the first offer. -/
theorem finds_trace (pass : Pass) (r : Refresh Age) (session : SessionProcessInput) :
    (pass.finds r session).map Prod.snd = (pass.offers r session).head? := by
  rw [finds_eq]
  unfold Pass.offers
  induction r.processes with
  | nil => rfl
  | cons process processes ih =>
    rw [filterMap_cons, filter_cons]
    by_cases hmay : mayLink r pass.out.usedRootPids session process = true
    · obtain ⟨⟨hfree, hagent⟩, hfresh⟩ : ((process.tree.root.pid ∉ pass.out.usedRootPids) ∧
          process.agent = session.agent) ∧
          sessionIsFreshEnoughForProcess session process r.nowMs = true := by
        simpa [mayLink] using hmay
      have hlink : link r pass.bindings session process =
          (linkTrace (collectPathEvidence r) (r.logPath session) process pass.bindings).1.map
            (Link.mk session process) := if_pos (by simp [hagent, hfresh])
      rw [hlink, if_pos hmay, filterMap_cons]
      cases (linkTrace (collectPathEvidence r) (r.logPath session) process pass.bindings).1 with
      | none => exact ih
      | some trace => simp [Link.rootPid, hfree]
    · rw [if_neg hmay, ← ih]
      cases hlink : link r pass.bindings session process with
      | none => rfl
      | some l =>
        obtain ⟨hagent, hfresh, trace, -, rfl⟩ := link_eq_some.mp hlink
        have hused : process.tree.root.pid ∈ pass.out.usedRootPids := by
          simpa [mayLink, hagent, hfresh] using hmay
        simp [Link.rootPid, hused]

/-- What is found may be linked, for the bindings before the turn. -/
theorem of_finds {pass : Pass} {trace : Trace} (h : pass.finds r session = some (process, trace)) :
    process ∈ r.processes ∧
      (linkTrace (collectPathEvidence r) (r.logPath session) process pass.bindings).1 =
        some trace := by
  rw [finds_eq] at h
  obtain ⟨l, hl, heq⟩ := map_eq_some_iff.mp h
  obtain ⟨q, hq, hlink⟩ := mem_filterMap.mp (mem_of_find?_eq_some hl)
  obtain ⟨-, -, trace', htrace, rfl⟩ := link_eq_some.mp hlink
  cases heq
  exact ⟨hq, htrace⟩

theorem direct_upsert {evidence : Evidence} (h : ∀ entry ∈ evidence, entry.2 ≠ .stickyBinding)
    (path : String) : ∀ entry ∈ upsert Prod.fst evidence (path, .ebpfFile)
      fun _ => (path, .ebpfFile), entry.2 ≠ .stickyBinding := by
  intro entry hentry
  unfold upsert at hentry
  split at hentry
  · rcases mem_update.mp hentry with ⟨hentry, -⟩ | ⟨_, -, -, rfl⟩
    · exact h entry hentry
    · simp
  · rcases mem_append.mp hentry with hentry | hentry
    · exact h entry hentry
    · simp [mem_singleton.mp hentry]

omit [Clock Age] in
/-- Evidence is direct. -/
theorem direct_of_evidence (r : Refresh Age) (pid : ℕ) :
    ∀ paths ∈ collectPathEvidence r pid, ∀ entry ∈ paths, entry.2 ≠ .stickyBinding := by
  have hprocess : ∀ process : LiveProcessCandidate Age,
      ∀ entry ∈ processEvidence r process, entry.2 ≠ .stickyBinding := by
    intro process
    refine List.foldlRecOn
      (motive := fun evidence : Evidence => ∀ entry ∈ evidence, entry.2 ≠ .stickyBinding)
      _ _ (by simp) fun evidence hevidence key _ => ?_
    dsimp only
    split
    on_goal 1 => refine direct_upsert ?_ _
    all_goals
      refine List.foldlRecOn
        (motive := fun evidence : Evidence => ∀ entry ∈ evidence, entry.2 ≠ .stickyBinding)
        _ _ hevidence fun evidence hevidence path _ => ?_
      split
      · intro entry hentry
        rcases mem_insertOrIgnore hentry with hentry | rfl
        · exact hevidence entry hentry
        · simp
      · exact hevidence
  refine List.foldlRecOn (motive := fun out : ℕ → Option Evidence =>
    ∀ paths ∈ out pid, ∀ entry ∈ paths, entry.2 ≠ .stickyBinding)
    r.processes _ (by simp) fun out hout process _ => ?_
  by_cases hnil : processEvidence r process = []
  · simpa [hnil] using hout
  · intro paths hpaths
    by_cases hpid : pid = process.tree.root.pid
    · obtain rfl : processEvidence r process = paths := by simpa [hnil, hpid] using hpaths
      exact hprocess process
    · exact hout paths (by simpa [hnil, hpid] using hpaths)

omit [Clock Age] in
/-- A binding decides only without evidence. -/
theorem linkTrace_sticky
    (h : (linkTrace (collectPathEvidence r) path process bindings).1 = some .stickyBinding) :
    collectPathEvidence r process.tree.root.pid = none ∧
      bindings process.tree.root.pid = some ⟨process.tree.root.starttimeTicks, path⟩ := by
  cases hevidence : collectPathEvidence r process.tree.root.pid with
  | none =>
    rw [linkTrace_of_none _ hevidence] at h
    simpa using h
  | some paths =>
    cases hfind : find Prod.fst paths path with
    | none =>
      rw [linkTrace_of_not_find _ hevidence hfind] at h
      cases h
    | some entry =>
      rw [linkTrace_of_find _ hevidence hfind] at h
      exact absurd (some.inj h)
        (direct_of_evidence r _ paths hevidence entry (mem_of_find hfind).1)

/-- A process that shows the path offers a direct link. -/
theorem exists_offer {pass : Pass} (hprocess : process ∈ r.processes)
    (hmay : mayLink r pass.out.usedRootPids session process = true)
    (hshows : r.Shows process.tree.root.pid (r.logPath session)) :
    ∃ trace ∈ pass.offers r session, trace ≠ .stickyBinding := by
  obtain ⟨paths, hpaths, hfind⟩ := hshows
  obtain ⟨entry, hentry⟩ := isSome_iff_exists.mp hfind
  refine ⟨entry.2, ?_, direct_of_evidence r _ paths hpaths entry (mem_of_find hentry).1⟩
  refine mem_filterMap.mpr ⟨process, mem_filter.mpr ⟨hprocess, hmay⟩, ?_⟩
  rw [linkTrace_of_find _ hpaths hentry]

omit [Clock Age] in
/-- A link that is not by a binding is by direct evidence. -/
theorem shows_of_linkTrace {trace : Trace}
    (h : (linkTrace (collectPathEvidence r) path process bindings).1 = some trace)
    (hdirect : trace ≠ .stickyBinding) : r.Shows process.tree.root.pid path := by
  cases hevidence : collectPathEvidence r process.tree.root.pid with
  | none =>
    rw [linkTrace_of_none _ hevidence] at h
    obtain ⟨_, -, rfl⟩ := map_eq_some_iff.mp h
    exact absurd rfl hdirect
  | some paths =>
    cases hfind : find Prod.fst paths path with
    | none =>
      rw [linkTrace_of_not_find _ hevidence hfind] at h
      cases h
    | some entry => exact ⟨paths, hevidence, by rw [hfind]; rfl⟩

/-- At every turn of a call direct evidence comes first if and only if it does in the list. -/
theorem directFirst_iff : DirectFirst bindings r ↔
    ∀ done session rest, r.sessions = done ++ session :: rest → ∀ process,
      (passBefore bindings r done).finds r session = some (process, .stickyBinding) →
        ∀ q ∈ r.processes,
          mayLink r (passBefore bindings r done).out.usedRootPids session q = true →
            ¬ r.Shows q.tree.root.pid (r.logPath session) := by
  constructor
  · intro hdirect done session rest hsessions process hfinds q hq hmay hshows
    refine hdirect done session rest hsessions (exists_offer hq hmay hshows) ?_
    rw [← finds_trace, hfinds]
    rfl
  · intro hpreferred done session rest hsessions ⟨trace, htrace, hne⟩ hhead
    rw [← finds_trace] at hhead
    obtain ⟨⟨process, _⟩, hfinds, rfl⟩ := map_eq_some_iff.mp hhead
    obtain ⟨q, hq, hlink⟩ := mem_filterMap.mp htrace
    obtain ⟨hmem, hmay⟩ := mem_filter.mp hq
    exact hpreferred done session rest hsessions process hfinds q hmem hmay
      (shows_of_linkTrace hlink hne)

/-- In a run in which every call meets the condition, each link by the sticky rule follows the
evidence. -/
theorem sticky_followsEvidence (r : Refresh Age) (earlier : List (Refresh Age))
    (h : Attentive (r :: earlier)) : FollowsEvidence r earlier := by
  obtain ⟨-, hdirect, hearlier⟩ := h
  intro done session rest hsessions process hfinds
  obtain ⟨hprocess, htrace⟩ := of_finds hfinds
  obtain ⟨hnone, hbinding⟩ := linkTrace_sticky htrace
  have hquiet : ∀ paths, paths ∉ collectPathEvidence r process.tree.root.pid := by
    rw [hnone]
    exact fun _ => nofun
  constructor
  · -- Without evidence in this call the binding is from an earlier one.
    obtain ⟨hlive, horigin⟩ := binding_origin hbinding
    refine ⟨hlive, .inr ⟨fun ⟨paths, hpaths, _⟩ => hquiet paths hpaths, ?_⟩⟩
    rcases horigin with hold | ⟨paths, hpaths, -⟩
    · exact grounded_of_attentive hearlier _ _ hold
    · exact absurd hpaths (hquiet paths)
  · exact directFirst_iff.mp hdirect done session rest hsessions process hfinds

end Runs

section Example

/-- One session, and which logs the processes have open. -/
def watched (logs : ℕ → List String) (pids : List ℕ) : Refresh ℕ where
  sessions := [codexSession "a" "/h/.codex/a.jsonl"]
  processes := pids.map codexProcess
  fdPathsByProcess key := logs key.pid
  observedPathByProcess _ := none
  nowMs := 100000
  canonicalize _ := none

/-- The process has the log of the session open. -/
def opened : Refresh ℕ := watched (fun pid => if pid = 10 then ["/h/.codex/a.jsonl"] else []) [10]

/-- It has another log open, and a process listed before it has this one. -/
def moved : Refresh ℕ :=
  watched (fun pid => if pid = 10 then ["/h/.codex/b.jsonl"] else
    if pid = 20 then ["/h/.codex/a.jsonl"] else []) [20, 10]

/-- Nothing is open. -/
def quiet : Refresh ℕ := watched (fun _ => []) [10]

/-- A process listed after it has the log of the session open. -/
def taken : Refresh ℕ :=
  watched (fun pid => if pid = 20 then ["/h/.codex/a.jsonl"] else []) [10, 20]

theorem sticky_followsEvidence_quiet :
    FollowsEvidence quiet [opened] ∧ (passBefore (bindingsAfter [opened]) quiet []).finds quiet
        (codexSession "a" "/h/.codex/a.jsonl") = some (codexProcess 10, .stickyBinding) := by
  have hturns : ∀ {done rest : List SessionProcessInput} {session},
      [codexSession "a" "/h/.codex/a.jsonl"] = done ++ session :: rest →
        done = [] ∧ session = codexSession "a" "/h/.codex/a.jsonl" := by
    intro done rest session hsessions
    cases done with
    | nil => exact ⟨rfl, (cons.inj hsessions).1.symm⟩
    | cons first done => simp at hsessions
  refine ⟨sticky_followsEvidence quiet [opened] ⟨?_, ?_, ?_, ?_, trivial⟩, by decide⟩
  · -- No evidence, so none that is against a binding.
    rintro process hprocess binding - - ⟨paths, hpaths, -⟩
    have hnone : collectPathEvidence quiet 10 = none := by decide
    cases hnone.symm.trans hpaths
  · intro done session rest hsessions
    obtain ⟨rfl, rfl⟩ := hturns hsessions
    decide
  · intro process _ binding hbinding
    cases hbinding
  · intro done session rest hsessions
    obtain ⟨rfl, rfl⟩ := hturns hsessions
    decide

/-- A binding outlives evidence against it that no search comes to, and wins over evidence that is
listed after it. -/
theorem sticky_links_stale :
    ¬ FollowsEvidence quiet [moved, opened] ∧ ¬ FollowsEvidence taken [opened] := by
  constructor
  · intro h
    have hlink := h [] _ [] rfl (codexProcess 10) (by decide)
    exact absurd hlink.1 (by decide)
  · intro h
    have hlink := h [] _ [] rfl (codexProcess 10) (by decide)
    exact hlink.2 (codexProcess 20) (by decide) (by decide) (by decide)

end Example

end AgentSight.Session
