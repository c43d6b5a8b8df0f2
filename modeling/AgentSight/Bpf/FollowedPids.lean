import AgentSight.Bpf.RateLimit

/-!
# Following a process

In filter mode the tracer reports the processes that it tracks. A process is followed from the event
that it is tracked by up to its exit, and so is every process started under it. The exit of a
followed process is reported in every case; an exec is asked again who its parent is and what its
name is, and is not reported where neither says so.
-/

namespace AgentSight.Bpf

open LinearProbing Transition List

/-! ### Lines -/

namespace ProcessTracer

variable {t : ProcessTracer}

/-- The line that an event of a process calls for. -/
def lineOf (e : Event) : Option Line :=
  match e.body with
  | .exec filename => some (.exec e filename)
  | .exit => some (.exit e)
  | _ => none

section

variable (t : ProcessTracer)

theorem printed_dropExpired (timestampNs : UInt64) :
    t.printed <+: (t.dropExpired timestampNs).printed := prefix_append _ _

theorem printed_countOpen (e : Event) (op : FileOp) :
    t.printed <+: (t.countOpen e op).1.printed := by
  rw [countOpen]
  split
  · exact prefix_rfl
  · split_ifs
    · exact prefix_rfl
    · exact prefix_append _ _
    · exact prefix_rfl

theorem printed_getFileOpenCount (e : Event) (op : FileOp) :
    t.printed <+: (t.getFileOpenCount e op).1.printed := by
  rw [getFileOpenCount]
  dsimp only
  split_ifs
  · exact prefix_rfl
  · exact prefix_rfl
  · refine IsPrefix.trans ?_ (printed_countOpen _ e op)
    exact printed_dropExpired _ _

theorem printed_flushPidFileOpens (pid : Int32) (timestampNs : UInt64) :
    t.printed <+: (t.flushPidFileOpens pid timestampNs).printed := prefix_append _ _

end

/-- A tracked process is reported when it exits. -/
theorem printed_exit {e : Event} (hbody : e.body = .exit)
    (htracked : pidTrackerIsTracked t.tracker e.pid = true) (sid : Int32) :
    t.printed ++ [.exit e] <+: (t.handleEvent e sid).printed := by
  simp only [handleEvent, hbody, htracked, Bool.not_true, Bool.false_and, Bool.false_eq_true,
    if_false]
  refine IsPrefix.trans ?_ (printed_flushPidFileOpens _ _ _)
  split_ifs
  · exact prefix_append _ _
  · exact prefix_rfl

/-- In filter mode a process is reported when it starts if it is to be tracked. -/
theorem printed_exec {e : Event} {filename : CString maxFilenameLen}
    (hbody : e.body = .exec filename) (hmode : t.tracker.filterMode = .filter) (sid : Int32) :
    (t.handleEvent e sid).printed = t.printed ++
      if shouldTrackEventProcess t.env t.tracker e.comm.bytes e.pid e.ppid sid then
        [.exec e filename]
      else [] := by
  simp only [handleEvent, hbody, hmode]
  split_ifs
  · rfl
  · exact (append_nil _).symm

/-- What is printed stays. -/
theorem printed_handleEvent (t : ProcessTracer) (e : Event) (sid : Int32) :
    t.printed <+: (t.handleEvent e sid).printed := by
  cases hbody : e.body with
  | exec filename =>
    simp only [handleEvent, hbody]
    split
    · exact prefix_append _ _
    · split
      · exact prefix_rfl
      · exact prefix_append _ _
      · exact prefix_append _ _
  | exit =>
    simp only [handleEvent, hbody]
    split
    · exact prefix_rfl
    · refine IsPrefix.trans ?_ (printed_flushPidFileOpens _ _ _)
      split_ifs
      · exact (prefix_append _ _).trans (prefix_append _ _)
      · exact prefix_append _ _
  | bashReadline command =>
    simp only [handleEvent, hbody]
    split
    · exact prefix_rfl
    · exact prefix_append _ _
  | unknown type =>
    simp only [handleEvent, hbody]
    exact prefix_append _ _
  | fileOperation op =>
    simp only [handleEvent, hbody]
    split
    · exact prefix_rfl
    · split
      · exact prefix_rfl
      · have hcount := printed_getFileOpenCount t e op
        split
        · exact hcount
        · exact hcount.trans (prefix_append _ _)

end ProcessTracer

/-! ### Runs -/

/-- A set gains the pid that is added, or is full. -/
theorem PidSet.pids_add (S : PidSet) (pid : Int32) : (S.add pid).1.pids =
      if decide (pid ∈ (S.add pid).1.pids) = true then insert pid S.pids else S.pids := by
  rw [PidSet.add]
  split_ifs with hmem hroom hfull hfull hfull
  · exact (Finset.insert_eq_of_mem hmem).symm
  · exact absurd (decide_eq_true hmem) hroom
  · rfl
  · exact absurd (decide_eq_true (Finset.mem_insert_self pid S.pids)) hfull
  · exact absurd (of_decide_eq_true hfull) hmem
  · rfl

theorem filterMode_seedInitialPids (tracker : PidTracker) (map : TrackedPidsMap)
    (seeds : List SeedPid) :
    (seedInitialPids tracker map seeds).1.filterMode = tracker.filterMode := by
  have hseed state seed : (seedPid state seed).1.filterMode = state.1.filterMode := by
    rw [seedPid]
    dsimp only
    split_ifs
    · exact filterMode_pidTrackerAdd _ _ _
    · exact filterMode_pidTrackerAdd _ _ _
  have hseeds state : (seeds.foldl seedPid state).1.filterMode = state.1.filterMode := by
    induction seeds generalizing state with
    | nil => rfl
    | cons seed seeds ih =>
      rw [foldl_cons, ih, hseed]
  exact hseeds (tracker, map, 0)

/-- The tracer with the pids that it has tracked and that have not exited since, and with the lines
that their events call for. -/
structure FollowedPids where
  tracer : ProcessTracer
  followed : Finset Int32
  owed : List Line

namespace FollowedPids

/-- In filter mode, after the seeds. -/
def start (env : Env) (commandFilters : List String) (targetPid : Int32) (seeds : List SeedPid) :
    FollowedPids where
  tracer := (TrackedPids.start env commandFilters .filter targetPid seeds).tracer
  followed := (seeds.map SeedPid.pid).toFinset
  owed := []

/-- An event, with what `getsid` returns for its pid. -/
def step (s : FollowedPids) (a : Event × Int32) : Option FollowedPids :=
  let (e, sid) := a
  let tracer := s.tracer.handleEvent e sid
  some
    { tracer
      followed :=
        match e.body with
        | .exec _ => if pidTrackerIsTracked tracer.tracker e.pid then insert e.pid s.followed
          else s.followed
        | .exit => s.followed.erase e.pid
        | _ => s.followed
      owed := s.owed ++ if e.pid ∈ s.followed then (ProcessTracer.lineOf e).toList else [] }

/-- A followed process that starts a program is in the session, or, where there is none, it is the
target, or its parent is followed, or its name is one of the filters. -/
def StaysInPlace (s : FollowedPids) (a : Event × Int32) : Prop :=
  let (e, sid) := a
  (∃ filename, e.body = .exec filename) → e.pid ∈ s.followed →
    (0 < s.tracer.env.sessionId ∧ sid = s.tracer.env.sessionId) ∨
    (¬0 < s.tracer.env.sessionId ∧
      ((0 < s.tracer.tracker.targetPid ∧ e.pid = s.tracer.tracker.targetPid) ∨ e.ppid ∈ s.followed ∨
        ∃ filter ∈ s.tracer.tracker.commandFilters, filter.toUTF8.toList = e.comm.bytes))

/-- The tracker has the followed pids, and what their events call for has been reported. -/
structure Reported (s : FollowedPids) : Prop where
  tracked : ∀ pid, pidTrackerIsTracked s.tracer.tracker pid = true ↔ pid ∈ s.followed
  owed : s.owed.Sublist s.tracer.printed

/-- What holds in every run. -/
structure Following (s : FollowedPids) : Prop where
  mode : s.tracer.tracker.filterMode = .filter
  simulates : ∃ S, Simulates s.tracer.tracker S ∧ S.pids = s.followed

variable {s s' : FollowedPids} {a : Event × Int32} {e : Event} {sid : Int32}

namespace Following

theorem tracked (h : s.Following) (pid : Int32) :
    pidTrackerIsTracked s.tracer.tracker pid = true ↔ pid ∈ s.followed := by
  obtain ⟨S, hsimulates, hpids⟩ := h.simulates
  rw [hsimulates.isTracked, decide_eq_true_eq, hpids]

theorem start (env : Env) (commandFilters : List String) (targetPid : Int32)
    {seeds : List SeedPid} (hlength : seeds.length ≤ maxTrackedPids) :
    (start env commandFilters targetPid seeds).Following := by
  obtain ⟨S, hseeded⟩ := exists_seeded commandFilters .filter targetPid hlength
  exact ⟨filterMode_seedInitialPids _ _ _, S, hseeded.simulates, hseeded.pids⟩

theorem step (h : s.Following) (hstep : s.step a = some s') : s'.Following := by
  obtain ⟨e, sid⟩ := a
  obtain rfl := Option.some_inj.mp hstep
  obtain ⟨S, hsimulates, hpids⟩ := h.simulates
  have htracker := handleEvent_tracker s.tracer e sid
  have hquiet (hsame : (s.tracer.handleEvent e sid).tracker = s.tracer.tracker) :
      (s.tracer.handleEvent e sid).tracker.filterMode = .filter ∧
        ∃ S, Simulates (s.tracer.handleEvent e sid).tracker S ∧ S.pids = s.followed := by
    rw [hsame]
    exact ⟨h.mode, S, hsimulates, hpids⟩
  cases hbody : e.body with
  | exec filename =>
    rw [hbody] at htracker
    dsimp only at htracker
    split_ifs at htracker with hadd
    · have hsimulates' := (hsimulates.add e.pid e.ppid).1
      rw [← htracker] at hsimulates'
      refine ⟨?_, (S.add e.pid).1, hsimulates', ?_⟩
      · rw [htracker, filterMode_pidTrackerAdd]
        exact h.mode
      · rw [hsimulates'.isTracked, ← hpids]
        exact PidSet.pids_add S e.pid
    · obtain ⟨hmode, S', hsimulates', hpids'⟩ := hquiet htracker
      refine ⟨hmode, S', hsimulates', ?_⟩
      dsimp only
      rw [hsimulates'.isTracked, hpids']
      split_ifs with hmem
      · exact (Finset.insert_eq_of_mem (of_decide_eq_true hmem)).symm
      · rfl
  | exit =>
    rw [hbody] at htracker
    refine ⟨?_, S.remove e.pid, ?_, ?_⟩
    · rw [htracker, filterMode_pidTrackerRemove]
      exact h.mode
    · rw [htracker]
      exact hsimulates.remove e.pid
    · rw [← hpids]
      rfl
  | bashReadline command | fileOperation op | unknown type =>
    rw [hbody] at htracker
    obtain ⟨hmode, hsimulates⟩ := hquiet htracker
    exact ⟨hmode, by simpa using hsimulates⟩

/-- An exec of a followed process is reported when it stays in place, and in no other case. -/
theorem shouldTrack_iff (h : s.Following) {filename : CString maxFilenameLen}
    (hbody : e.body = .exec filename) (hpid : e.pid ∈ s.followed) (sid : Int32) :
    shouldTrackEventProcess s.tracer.env s.tracer.tracker e.comm.bytes e.pid e.ppid sid = true ↔
      s.StaysInPlace (e, sid) := by
  have hplace : s.StaysInPlace (e, sid) ↔ _ :=
    ⟨fun hplace => hplace ⟨filename, hbody⟩ hpid, fun hplace _ _ => hplace⟩
  rw [hplace, shouldTrackEventProcess, processInTargetSession, shouldTrackProcess, h.mode,
    commandMatchesAnyFilter]
  have hparent := h.tracked e.ppid
  by_cases hsession : 0 < s.tracer.env.sessionId
  · simp [hsession]
  · simp [hsession, hparent, or_assoc]

/-- One event of a followed process that stays in place. -/
theorem reported (h : s.Following) (hreported : s.Reported) (hplace : s.StaysInPlace a)
    (hstep : s.step a = some s') : s'.Reported := by
  refine ⟨(h.step hstep).tracked, ?_⟩
  obtain ⟨e, sid⟩ := a
  obtain rfl := Option.some_inj.mp hstep
  have hstays : s.owed.Sublist (s.tracer.handleEvent e sid).printed :=
    hreported.owed.trans (s.tracer.printed_handleEvent e sid).sublist
  have hline line (hgrows : s.tracer.printed ++ [line] <+: (s.tracer.handleEvent e sid).printed) :
      (s.owed ++ [line]).Sublist (s.tracer.handleEvent e sid).printed :=
    (hreported.owed.append_right [line]).trans hgrows.sublist
  by_cases hpid : e.pid ∈ s.followed
  · rw [if_pos hpid, ProcessTracer.lineOf]
    cases hbody : e.body with
    | exec filename =>
      have hprinted := ProcessTracer.printed_exec hbody h.mode sid
      rw [if_pos ((h.shouldTrack_iff hbody hpid sid).mpr hplace)] at hprinted
      refine hline _ ?_
      rw [hprinted]
    | exit => exact hline _ (ProcessTracer.printed_exit hbody ((h.tracked e.pid).mpr hpid) sid)
    | bashReadline command => exact (append_nil s.owed).symm ▸ hstays
    | fileOperation op => exact (append_nil s.owed).symm ▸ hstays
    | unknown type => exact (append_nil s.owed).symm ▸ hstays
  · rw [if_neg hpid, append_nil]
    exact hstays

end Following

theorem following_of_reaches {ok : FollowedPids → Event × Int32 → Prop} {env : Env}
    {commandFilters : List String} {targetPid : Int32} {seeds : List SeedPid}
    (hlength : seeds.length ≤ maxTrackedPids)
    (h : Reaches step ok (start env commandFilters targetPid seeds) s) : s.Following :=
  h.invariant (I := Following) (.start env commandFilters targetPid hlength)
    fun _ _ _ hs _ hstep => hs.step hstep

end FollowedPids

open FollowedPids

/-- **A followed process is tracked up to its exit, and its events are reported** in every run whose
followed processes stay in place when they start a program; the start of a program is reported in no
other case. -/
theorem followedPids_reported (env : Env) (commandFilters : List String) (targetPid : Int32)
    (args : List (List UInt8)) :
    ∀ seeds ∈ parseSeedPids args,
      (∀ s, Reaches step StaysInPlace (start env commandFilters targetPid seeds) s → s.Reported) ∧
      ∀ s, Reaches step always (start env commandFilters targetPid seeds) s →
        ∀ (e : Event) (filename : CString maxFilenameLen) (sid : Int32),
          e.body = .exec filename → e.pid ∈ s.followed →
            ((s.tracer.handleEvent e sid).printed = s.tracer.printed ++ [.exec e filename] ↔
              s.StaysInPlace (e, sid)) := by
  intro seeds hseeds
  have hlength := length_parseSeedPids hseeds
  refine ⟨fun s h => ?_, fun s h e filename sid hbody hpid => ?_⟩
  · refine (h.invariant (I := fun s => s.Following ∧ s.Reported) ?_ ?_).2
    · have hstart := Following.start env commandFilters targetPid hlength
      exact ⟨hstart, hstart.tracked, nil_sublist _⟩
    · exact fun _ _ _ hs hplace hstep => ⟨hs.1.step hstep, hs.1.reported hs.2 hplace hstep⟩
  · have hfollowing := following_of_reaches hlength h
    rw [ProcessTracer.printed_exec hbody hfollowing.mode sid,
      ← hfollowing.shouldTrack_iff hbody hpid sid, append_cancel_left_eq]
    split_ifs with htrack
    · exact iff_of_true rfl htrack
    · exact iff_of_false not_false htrack

/-! ### Two runs -/

open FileOpenRun (shellEvent slashA)

/-- The shell 7, which was started by process 1, starts a program. -/
def shellStarts : Event × Int32 := (shellEvent 5 (.exec slashA), 7)

/-- The process that the shell was started by is followed. -/
theorem shellStarts_reported :
    ∃ s, Reaches step StaysInPlace (start ⟨false, -1⟩ ["claude"] 0 [⟨1, 0⟩, ⟨7, 1⟩]) s ∧
      s.owed = [.exec shellStarts.1 slashA] ∧ s.Reported := by
  have hreach : Reaches step StaysInPlace (start ⟨false, -1⟩ ["claude"] 0 [⟨1, 0⟩, ⟨7, 1⟩]) _ :=
    .tail (a := shellStarts) .refl (fun _ _ => .inr ⟨by decide, .inr (.inl (by decide))⟩) rfl
  exact ⟨_, hreach, rfl, (followedPids_reported ⟨false, -1⟩ ["claude"] 0
    [bytesOf "1:0".toList, bytesOf "7:1".toList] [⟨1, 0⟩, ⟨7, 1⟩] (by decide)).1 _ hreach⟩

/-- A child of the target whose parent is process 1 by now: its program is not reported. -/
theorem shellStarts_not_reported :
    ¬∀ s, Reaches step always (start ⟨false, -1⟩ [] 4242 [⟨7, 4242⟩]) s → s.Reported := by
  intro h
  have hreported := h _ (.tail (a := shellStarts) .refl trivial rfl)
  have hprinted : ((start ⟨false, -1⟩ [] 4242 [⟨7, 4242⟩]).tracer.handleEvent
      shellStarts.1 7).printed = [] := by decide
  have howed : [Line.exec shellStarts.1 slashA].Sublist _ := hreported.owed
  cases sublist_nil.mp (hprinted ▸ howed)

end AgentSight.Bpf
