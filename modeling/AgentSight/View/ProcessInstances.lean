import AgentSight.View.SinkIsolation

/-!
# Instances of processes

A pid is used by one process after the other. An instance of a pid begins with the first exec the
view takes and ends with the exit, or is the exit alone when its exec was missed. The events of an
instance are stored under one id, which has the pid and the time the instance begins: two instances
of a pid have one id when they begin at the same time, and in no other case. Execs of a pid with
no exit between them belong to one instance, also when their `start_ticks` differ.
-/

namespace AgentSight.View

open Effectful Transition List

variable {action : String} {pid : ℕ}

/-! ### Deeds -/

section Deeds

variable [External]

/-- The id of the process node that a row is. -/
def Row.nodeId? : Row → Option String
  | .processNode row => some row.id
  | _ => none

/-- The id of the process node that a deed writes. -/
def Deed.nodeId? : Deed → Option String
  | .emit row => row.nodeId?
  | _ => none

/-- The deed leaves the processes alone. -/
def Deed.IsQuiet : Deed → Prop
  | .emit row => row.nodeId? = none
  | .await _ => True
  | .track _ => False

omit [External] in
theorem Deed.IsQuiet.nodeId? {deed : Deed} (h : deed.IsQuiet) : deed.nodeId? = none := by
  cases deed with
  | emit row => exact h
  | await pending => rfl
  | track activeProcesses => rfl

/-- The action of `ingest_process_audit` that the event calls for. -/
def CanonicalEvent.processAction (c : CanonicalEvent) : Option String :=
  match c.kind with
  | .processExec => some "exec"
  | .processExit => some "exit"
  | _ => none

variable {c : CanonicalEvent} {pending : Pending} {active : ℕ → Option String}

theorem nodeId?_commonRows : ∀ row ∈ commonRows c, row.nodeId? = none := by
  have hclaude item idx : ∀ row ∈ claudeItemRows c item idx, row.nodeId? = none := by
    intro row hrow
    rw [claudeItemRows] at hrow
    dsimp only at hrow
    split_ifs at hrow
    · cases hrow
    · rw [mem_singleton.mp hrow]
      rfl
    · rw [mem_singleton.mp hrow]
      rfl
    · cases hrow
  have hgemini model stats : ∀ row ∈ geminiModelRows c model stats, row.nodeId? = none := by
    intro row hrow
    rw [geminiModelRows] at hrow
    split_ifs at hrow
    · cases hrow
    · rw [mem_singleton.mp hrow]
      rfl
  intro row hrow
  simp only [commonRows, mem_append, mem_map] at hrow
  rcases hrow with (⟨row, -, rfl⟩ | ⟨row, -, rfl⟩) | hrow | hrow
  · rfl
  · rfl
  · rw [claudeRows] at hrow
    split at hrow
    · cases hrow
    · split at hrow
      · obtain ⟨⟨item, idx⟩, -, hrow⟩ := mem_flatMap.mp hrow
        exact hclaude item idx row hrow
      · cases hrow
  · rw [geminiRows] at hrow
    split at hrow
    · cases hrow
    · dsimp only at hrow
      split at hrow
      · cases hrow
      · obtain ⟨⟨model, stats⟩, -, hrow⟩ := mem_flatMap.mp hrow
        exact hgemini model stats row hrow

omit [External] in
theorem isQuiet_of_rows {rows : List Row} (h : ∀ row ∈ rows, row.nodeId? = none) :
    ∀ deed ∈ rows.map Deed.emit, deed.IsQuiet := by
  intro deed hdeed
  obtain ⟨row, hrow, rfl⟩ := mem_map.mp hdeed
  exact h row hrow

/-- What an event of another kind calls for leaves the processes alone. -/
theorem isQuiet_kindDeeds (h : c.processAction = none) :
    ∀ deed ∈ kindDeeds c pending active, deed.IsQuiet := by
  have htools id pid confidence (usage : Option TokenUsageRow) audit call :
      ∀ row ∈ usage.toList.map Row.tokenUsage ++
        (toolRows c id pid confidence).map Row.toolCall ++ [.auditEvent audit, .llmCall call],
        row.nodeId? = none := by
    intro row hrow
    simp only [mem_append, mem_map, mem_cons, not_mem_nil, or_false] at hrow
    rcases hrow with (⟨row, -, rfl⟩ | ⟨row, -, rfl⟩) | rfl | rfl <;> rfl
  have hresponse : ∀ deed ∈ responseDeeds c pending, deed.IsQuiet := by
    rw [responseDeeds]
    split
    · simp
    · split
      · exact forall_mem_cons.mpr ⟨trivial, isQuiet_of_rows (htools _ _ _ _ _ _)⟩
      · exact isQuiet_of_rows (htools _ _ _ _ _ _)
  have hrequest : ∀ deed ∈ requestDeeds c pending, deed.IsQuiet := by
    rw [requestDeeds]
    split
    · dsimp only
      split_ifs
      · simp
      · simp [requestRows, Deed.IsQuiet, Row.nodeId?]
    · simp
  have hfile : (Deed.emit (fileAuditRow c)).IsQuiet := rfl
  have hnetwork : (Deed.emit (networkAuditRow c)).IsQuiet := rfl
  rw [CanonicalEvent.processAction] at h
  rw [kindDeeds]
  cases hkind : c.kind
  case llmRequest => exact hrequest
  case llmResponse | llmError => exact hresponse
  case httpResponse =>
    dsimp only
    split_ifs
    · exact hresponse
    · simp
  case processExec | processExit =>
    rw [hkind] at h
    cases h
  case fsOpen =>
    dsimp only
    split_ifs
    · exact forall_mem_singleton.mpr hfile
    · simp
  case fsWrite | fsMutation => exact forall_mem_singleton.mpr hfile
  case unknown =>
    dsimp only
    split_ifs
    · exact forall_mem_singleton.mpr hfile
    · exact forall_mem_singleton.mpr hnetwork
    · simp
  all_goals simp

/-- An event of another kind leaves the processes alone. -/
theorem isQuiet_plan (h : c.processAction = none) :
    ∀ deed ∈ plan c pending active, deed.IsQuiet := by
  refine forall_mem_cons.mpr ⟨trivial, fun deed hdeed => ?_⟩
  rcases mem_append.mp hdeed with hdeed | hdeed
  · exact isQuiet_of_rows nodeId?_commonRows deed hdeed
  · exact isQuiet_kindDeeds h deed hdeed

/-- An event of no process leaves the processes alone. -/
theorem isQuiet_plan_of_pid (h : c.pid = none) : ∀ deed ∈ plan c pending active, deed.IsQuiet := by
  cases haction : c.processAction with
  | none => exact isQuiet_plan haction
  | some action =>
    have hprocess action : ∀ deed ∈ processDeeds c action active, deed.IsQuiet := by
      rw [processDeeds, h]
      exact forall_mem_singleton.mpr rfl
    refine forall_mem_cons.mpr ⟨trivial, fun deed hdeed => ?_⟩
    rcases mem_append.mp hdeed with hdeed | hdeed
    · exact isQuiet_of_rows nodeId?_commonRows deed hdeed
    · rw [CanonicalEvent.processAction] at haction
      split at haction
      · next hkind =>
        rw [kindDeeds, hkind] at hdeed
        exact hprocess _ deed hdeed
      · next hkind =>
        rw [kindDeeds, hkind] at hdeed
        exact hprocess _ deed hdeed
      · cases haction

/-- The id of a process that begins at the time. -/
def nodeName (begin : ℕ × ℕ) : String :=
  "process-" ++ toString begin.1 ++ "-" ++ toString begin.2

/-- The processes that run after an exec or an exit. -/
def runningAfter (action : String) (active : ℕ → Option String) (pid : ℕ) (id : String) :
    ℕ → Option String := Function.update active pid (if action == "exec" then some id else none)

/-- An exec and an exit end with the process that runs from then on and with its node. -/
theorem plan_eq (pending : Pending) (active : ℕ → Option String)
    (haction : c.processAction = some action) (hpid : c.pid = some pid) :
    ∃ quiet row, (∀ deed ∈ quiet, deed.IsQuiet) ∧
      row.id = (active pid).getD (nodeName (pid, c.timestampMs)) ∧
      plan c pending active = quiet ++
        [.track (runningAfter action active pid row.id), .emit (.processNode row)] := by
  obtain ⟨row, hrow, hid⟩ : ∃ row, processNodeFromEvent c action
      ((active pid).getD (nodeName (pid, c.timestampMs))) = some row ∧
        row.id = (active pid).getD (nodeName (pid, c.timestampMs)) := by
    rw [processNodeFromEvent, hpid]
    exact ⟨_, rfl, rfl⟩
  have hdeeds : ∃ audit, kindDeeds c (prunePending pending c.timestampMs) active =
      .emit (.auditEvent audit) ::
        [.track (runningAfter action active pid row.id), .emit (.processNode row)] := by
    rw [hid]
    have hprocess action (h : action = "exec" ∨ action = "exit")
        (hrow : processNodeFromEvent c action
          ((active pid).getD (nodeName (pid, c.timestampMs))) = some row) :
        ∃ audit, processDeeds c action active = .emit (.auditEvent audit) ::
          [.track (runningAfter action active pid
            ((active pid).getD (nodeName (pid, c.timestampMs)))), .emit (.processNode row)] := by
      refine ⟨auditRow c "process" action (processAuditStatus action c.attributes)
        ((c.attributes.get "filename").bind (·.asStr)), ?_⟩
      rw [processDeeds, hpid]
      dsimp only
      rw [nodeName] at hrow
      rw [hrow]
      obtain rfl | rfl := h
      · rfl
      · rfl
    rw [CanonicalEvent.processAction] at haction
    split at haction
    · next hkind =>
      cases haction
      rw [kindDeeds, hkind]
      exact hprocess "exec" (.inl rfl) hrow
    · next hkind =>
      cases haction
      rw [kindDeeds, hkind]
      exact hprocess "exit" (.inr rfl) hrow
    · cases haction
  obtain ⟨audit, hdeeds⟩ := hdeeds
  refine ⟨.await (prunePending pending c.timestampMs) ::
    ((commonRows c).map .emit ++ [.emit (.auditEvent audit)]), row, ?_, hid, ?_⟩
  · refine forall_mem_cons.mpr ⟨trivial, fun deed hdeed => ?_⟩
    rcases mem_append.mp hdeed with hdeed | hdeed
    · exact isQuiet_of_rows nodeId?_commonRows deed hdeed
    · rw [mem_singleton.mp hdeed]
      rfl
  · rw [plan, hdeeds]
    simp

end Deeds

/-! ### Processes -/

section Processes

variable {σ : Type} [ViewSink σ] [External]

/-- What the view knows of processes. -/
def MaterializedView.processes (v : MaterializedView σ) :
    Std.TreeMap String ProcessNodeRow × (ℕ → Option String) :=
  (v.processNodes, v.activeProcesses)

theorem keeps_processNodes_emit {row : Row} (h : row.nodeId? = none) :
    Keeps MaterializedView.processNodes (emit row : ViewM σ Unit) := by
  intro v
  have hobs t t' : ((v.observe t).observe t').processNodes = v.processNodes := by
    obtain ⟨start, stop, h⟩ := v.observe_observe_eq t t'
    rw [h]
  cases row with
  | processNode row => cases h
  | llmCall row => exact hobs (some row.startTimestampMs) row.endTimestampMs
  | tokenUsage row | toolCall row | auditEvent row | resourceSample row =>
    exact hobs (some row.timestampMs) none
  | session row =>
    change (v.upsertSession row).processNodes = _
    unfold MaterializedView.upsertSession
    dsimp only
    split <;> exact hobs (some row.startTimestampMs) row.endTimestampMs
  | networkTarget row =>
    change (v.upsertNetworkTarget row).processNodes = _
    unfold MaterializedView.upsertNetworkTarget
    dsimp only
    split <;> exact hobs row.firstTimestampMs row.lastTimestampMs

theorem keeps_processes_perform {deed : Deed} (h : deed.IsQuiet) (v : MaterializedView σ) :
    (exec deed.perform v).2.processes = v.processes := by
  cases deed with
  | emit row =>
    have hactive : (exec (emit row) v).2.activeProcesses = v.activeProcesses :=
      congrArg Prod.snd (keeps_memory_emit row v)
    exact Prod.ext (keeps_processNodes_emit h v) hactive
  | await pending => rfl
  | track activeProcesses => cases h

/-- A node that is emitted is stored, and no other. -/
theorem exec_emit_processNode (row : ProcessNodeRow) (v : MaterializedView σ) :
    row.id ∈ (exec (emit (.processNode row)) v).2.processNodes ∧ (∀ id ≠ row.id,
        (exec (emit (.processNode row)) v).2.processNodes[id]? = v.processNodes[id]?) ∧
      (exec (emit (.processNode row)) v).2.activeProcesses = v.activeProcesses := by
  have hnodes : (exec (emit (.processNode row)) v).2.processNodes =
      v.processNodes.insert row.id (merged ProcessNodeRow.merge v.processNodes[row.id]? row) := by
    obtain ⟨counts, start, stop, hstored⟩ := stores_upsertProcessNode (v := v) row
    change (v.upsertProcessNode row).processNodes = _
    rw [hstored]
    rfl
  refine ⟨?_, fun id hid => ?_, congrArg Prod.snd (keeps_memory_emit (.processNode row) v)⟩
  · rw [hnodes]
    exact Std.TreeMap.mem_insert_self
  · rw [hnodes, Std.TreeMap.getElem?_insert,
      if_neg fun h => hid (Std.LawfulEqCmp.eq_of_compare h).symm]

theorem keeps_processes_performAll {deeds : List Deed} (h : ∀ deed ∈ deeds, deed.IsQuiet)
    (v : MaterializedView σ) : (exec (performAll deeds) v).2.processes = v.processes := by
  induction deeds generalizing v with
  | nil => rfl
  | cons deed deeds ih =>
    have hdeed := keeps_processes_perform (h deed mem_cons_self) v
    cases hdeliver : (deed.deliver v.sinks).1 with
    | none =>
      rw [exec_performAll_cons_of_none hdeliver,
        ih (fun deed hdeed => h deed (mem_cons_of_mem _ hdeed)), hdeed]
    | some error => rw [exec_performAll_cons_of_some hdeliver, hdeed]

/-- What sinks that report no error let be done after quiet deeds. -/
theorem exec_performAll_quiet {quiet : List Deed} (h : ∀ deed ∈ quiet, deed.IsQuiet)
    (active : ℕ → Option String) (row : ProcessNodeRow) (v : MaterializedView σ) :
    (Endures v.sinks (quiet ++ [.track active, .emit (.processNode row)]) →
      ∃ w : MaterializedView σ, w.processes = v.processes ∧
        (exec (performAll (quiet ++ [.track active, .emit (.processNode row)])) v).2 =
          (exec (emit (.processNode row)) { w with activeProcesses := active }).2) ∧
    (¬Endures v.sinks (quiet ++ [.track active, .emit (.processNode row)]) →
      (exec (performAll (quiet ++ [.track active, .emit (.processNode row)])) v).2.processes =
        v.processes) := by
  induction quiet generalizing v with
  | nil =>
    refine ⟨fun _ => ⟨v, rfl, ?_⟩, fun hendures => absurd ⟨rfl, trivial⟩ hendures⟩
    rw [nil_append, exec_performAll_cons_of_none rfl, exec_performAll_singleton]
    rfl
  | cons deed quiet ih =>
    have hkept := keeps_processes_perform (h deed mem_cons_self) v
    have hrest := ih (fun deed hdeed => h deed (mem_cons_of_mem _ hdeed))
      (exec deed.perform v).2
    rw [(carries deed v).sinks, hkept] at hrest
    have hcons : Endures v.sinks ((deed :: quiet) ++ [.track active, .emit (.processNode row)]) ↔
        (deed.deliver v.sinks).1 = none ∧ Endures (deed.deliver v.sinks).2
          (quiet ++ [.track active, .emit (.processNode row)]) := by
      cases quiet <;> exact Iff.rfl
    rw [hcons]
    cases hdeliver : (deed.deliver v.sinks).1 with
    | none =>
      rw [cons_append, exec_performAll_cons_of_none hdeliver]
      simpa using hrest
    | some error =>
      rw [cons_append, exec_performAll_cons_of_some hdeliver]
      exact ⟨fun hendures => (nomatch hendures.1), fun _ => hkept⟩

/-! ### Runs -/

omit [External] in
theorem nodeName_injective : Function.Injective nodeName := by
  intro begin begin' h
  have htime : begin.2 = begin'.2 := Str.numbered_injective h
  have hstem : "process" ++ "-" ++ toString begin.1 = "process" ++ "-" ++ toString begin'.1 := by
    rw [nodeName, nodeName, htime, String.append_left_inj, String.append_left_inj] at h
    exact h
  exact Prod.ext (Str.numbered_injective hstem) htime

/-- A view with the instances of processes whose events it has taken. -/
structure ProcessLog (σ : Type) where
  view : MaterializedView σ
  /-- The instance of a pid that has begun and not ended. -/
  current : ℕ → Option ℕ
  /-- A number no instance has yet. -/
  next : ℕ
  /-- Each instance with its pid and the time of its first event that is stored. -/
  begun : List (ℕ × ℕ × ℕ)
  /-- Each event that is stored: the instance it is of and the id it has. -/
  stored : List (ℕ × String)
  /-- What the last event of an instance left of its node. -/
  rows : ℕ → Option ProcessNodeRow

namespace ProcessLog

def start (sinks : List σ) (maxAuditEvents maxResourceSamples : Option ℕ)
    (mutations : Option Bridge.MutationEmitter) : ProcessLog σ where
  view := { MaterializedView.new sinks with maxAuditEvents, maxResourceSamples, mutations }
  current _ := none
  next := 0
  begun := []
  stored := []
  rows _ := none

def canonical (s : ProcessLog σ) (event : Event) : CanonicalEvent :=
  canonicalAt event (s.view.nextSeq + 1)

/-- What the event calls for. -/
def deeds (s : ProcessLog σ) (event : Event) : List Deed :=
  plan (s.canonical event) s.view.pending s.view.activeProcesses

/-- The instance that an event of the pid is of. -/
def instanceOf (s : ProcessLog σ) (pid : ℕ) : ℕ := (s.current pid).getD s.next

/-- No event of the instance is stored. -/
def IsUnseen (s : ProcessLog σ) (n : ℕ) : Prop := ∀ x ∈ s.begun, x.1 ≠ n

instance (s : ProcessLog σ) (n : ℕ) : Decidable (s.IsUnseen n) :=
  inferInstanceAs (Decidable (∀ x ∈ s.begun, x.1 ≠ n))

/-- An exec or an exit, whether or not it is stored. -/
def occur (s : ProcessLog σ) (event : Event) (action : String) (pid : ℕ) : ProcessLog σ :=
  { s with
    view := (exec (ingestEvent event) s.view).2
    current :=
      Function.update s.current pid (if action == "exec" then some (s.instanceOf pid) else none)
    next := s.next + 1 }

/-- An exec or an exit that is stored. -/
def store (s : ProcessLog σ) (event : Event) (action : String) (pid : ℕ) : ProcessLog σ :=
  let n := s.instanceOf pid
  let ids := (s.deeds event).filterMap Deed.nodeId?
  let view := (exec (ingestEvent event) s.view).2
  { s.occur event action pid with
    begun :=
      if s.IsUnseen n then s.begun ++ [(n, pid, (s.canonical event).timestampMs)] else s.begun
    stored := s.stored ++ ids.map (n, ·)
    rows := Function.update s.rows n (ids.head?.bind (view.processNodes[·]?)) }

/-- An event. The sinks may report an error before it is stored. -/
def step (s : ProcessLog σ) (event : Event) : Option (ProcessLog σ) :=
  match (s.canonical event).processAction, (s.canonical event).pid with
  | some action, some pid =>
    if Endures s.view.sinks (s.deeds event) then some (s.store event action pid)
    else some (s.occur event action pid)
  | _, _ => some { s with view := (exec (ingestEvent event) s.view).2 }

/-- When the first event of an instance is stored, the view has no process of the pid running, and
no instance of the pid has begun at the same time. -/
def BeginsApart (s : ProcessLog σ) (event : Event) : Prop :=
  (s.canonical event).processAction.isSome → ∀ pid ∈ (s.canonical event).pid,
    Endures s.view.sinks (s.deeds event) → s.IsUnseen (s.instanceOf pid) →
      s.view.activeProcesses pid = none ∧
        ∀ x ∈ s.begun, x.2 ≠ (pid, (s.canonical event).timestampMs)

instance (s : ProcessLog σ) (event : Event) : Decidable (s.BeginsApart event) :=
  inferInstanceAs (Decidable (_ → ∀ pid ∈ (s.canonical event).pid, _ → _ → _ ∧ _))

/-- Each instance has an id of its own, and its row is what its own events made it. -/
structure Identified (s : ProcessLog σ) : Prop where
  one : ∀ x ∈ s.stored, ∀ y ∈ s.stored, x.1 = y.1 → x.2 = y.2
  apart : ∀ x ∈ s.stored, ∀ y ∈ s.stored, x.2 = y.2 → x.1 = y.1
  kept : ∀ x ∈ s.stored, ∃ row, s.rows x.1 = some row ∧ s.view.processNodes[x.2]? = some row

/-! ### One event -/

variable {s s' : ProcessLog σ} {event : Event}

/-- What an event does. -/
inductive Course (s : ProcessLog σ) (event : Event) : ProcessLog σ → Prop
  | idle {view : MaterializedView σ} (hview : view.processes = s.view.processes) :
      Course s event { s with view }
  | missed {action : String} {pid : ℕ}
      (hview : (s.occur event action pid).view.processes = s.view.processes) :
      Course s event (s.occur event action pid)
  | stored {action : String} {pid : ℕ} {id : String}
      (haction : (s.canonical event).processAction = some action)
      (hpid : (s.canonical event).pid = some pid)
      (hendures : Endures s.view.sinks (s.deeds event))
      (hid : id = (s.view.activeProcesses pid).getD
        (nodeName (pid, (s.canonical event).timestampMs)))
      (hids : (s.deeds event).filterMap Deed.nodeId? = [id])
      (hmem : id ∈ (s.store event action pid).view.processNodes)
      (hother : ∀ other ≠ id, (s.store event action pid).view.processNodes[other]? =
        s.view.processNodes[other]?)
      (hactive : (s.store event action pid).view.activeProcesses =
        runningAfter action s.view.activeProcesses pid id) :
      Course s event (s.store event action pid)

omit [ViewSink σ] in
/-- An exec and an exit write one node. -/
theorem filterMap_nodeId?_deeds (haction : (s.canonical event).processAction = some action)
    (hpid : (s.canonical event).pid = some pid) :
    (s.deeds event).filterMap Deed.nodeId? = [(s.view.activeProcesses pid).getD
      (nodeName (pid, (s.canonical event).timestampMs))] := by
  obtain ⟨quiet, row, hrest, hid, hplan⟩ := plan_eq s.view.pending
    s.view.activeProcesses haction hpid
  have hnone : quiet.filterMap Deed.nodeId? = [] :=
    filterMap_eq_nil_iff.mpr fun deed hdeed => (hrest deed hdeed).nodeId?
  rw [deeds, hplan, filterMap_append, hnone, ← hid]
  rfl

theorem course_of_step (h : s.step event = some s') : Course s event s' := by
  have hexec := exec_ingestEvent_eq_plan event s.view
  have hquiet (hdeeds : ∀ deed ∈ s.deeds event, deed.IsQuiet) :
      (exec (ingestEvent event) s.view).2.processes = s.view.processes := by
    rw [hexec]
    exact keeps_processes_performAll hdeeds _
  rw [step] at h
  cases haction : (s.canonical event).processAction with
  | none =>
    rw [haction] at h
    obtain rfl := Option.some_inj.mp h
    exact .idle (hquiet (isQuiet_plan haction))
  | some action =>
    cases hpid : (s.canonical event).pid with
    | none =>
      rw [haction, hpid] at h
      obtain rfl := Option.some_inj.mp h
      exact .idle (hquiet (isQuiet_plan_of_pid hpid))
    | some pid =>
      rw [haction, hpid] at h
      dsimp only at h
      obtain ⟨quiet, row, hrest, hid, hplan⟩ := plan_eq s.view.pending
        s.view.activeProcesses haction hpid
      obtain ⟨hdone, hleft⟩ := exec_performAll_quiet hrest
        (runningAfter action s.view.activeProcesses pid row.id) row
        { s.view with nextSeq := s.view.nextSeq + 1 }
      rw [← hplan] at hdone hleft
      split at h
      · next hendures =>
        obtain rfl := Option.some_inj.mp h
        obtain ⟨w, hw, hperformed⟩ := hdone hendures
        have hresult : (exec (ingestEvent event) s.view).2 =
            (exec (emit (.processNode row)) { w with
              activeProcesses := runningAfter action s.view.activeProcesses pid row.id }).2 :=
          (congrArg Prod.snd hexec).trans hperformed
        have hnodes : w.processNodes = s.view.processNodes := congrArg Prod.fst hw
        obtain ⟨hmem, hother, hactive⟩ := exec_emit_processNode row { w with
          activeProcesses := runningAfter action s.view.activeProcesses pid row.id }
        rw [← hresult] at hmem hother hactive
        have hids : (s.deeds event).filterMap Deed.nodeId? = [row.id] := by
          rw [hid]
          exact filterMap_nodeId?_deeds haction hpid
        refine .stored haction hpid hendures hid hids hmem (fun other hne => ?_) hactive
        exact (hother other hne).trans (congrArg (·[other]?) hnodes)
      · next hendures =>
        obtain rfl := Option.some_inj.mp h
        exact .missed ((congrArg (·.2.processes) hexec).trans (hleft hendures))

/-! ### What holds throughout -/

/-- Instances have numbers of their own. -/
structure Numbered (s : ProcessLog σ) : Prop where
  current_lt (pid n : ℕ) : s.current pid = some n → n < s.next
  begun_lt : ∀ x ∈ s.begun, x.1 < s.next
  owner (pid pid' n : ℕ) : s.current pid = some n → s.current pid' = some n → pid = pid'

/-- An instance has the id of its first event that is stored. -/
structure Tidy (s : ProcessLog σ) : Prop extends Numbered s where
  once : ∀ x ∈ s.begun, ∀ y ∈ s.begun, x.1 = y.1 → x = y
  apart : ∀ x ∈ s.begun, ∀ y ∈ s.begun, x.2 = y.2 → x = y
  running (pid : ℕ) : ∀ x ∈ s.begun, s.current pid = some x.1 →
    x.2.1 = pid ∧ s.view.activeProcesses pid = some (nodeName x.2)
  mem_stored (y : ℕ × String) : y ∈ s.stored ↔ ∃ x ∈ s.begun, y = (x.1, nodeName x.2)
  held (pid : ℕ) (id : String) : s.view.activeProcesses pid = some id → ∃ n, (n, id) ∈ s.stored
  kept : ∀ y ∈ s.stored, ∃ row, s.rows y.1 = some row ∧ s.view.processNodes[y.2]? = some row

omit [ViewSink σ] [External] in
theorem tidy_start (sinks : List σ) (maxAuditEvents maxResourceSamples : Option ℕ)
    (mutations : Option Bridge.MutationEmitter) :
    (start sinks maxAuditEvents maxResourceSamples mutations).Tidy := by
  refine ⟨⟨?_, ?_, ?_⟩, ?_, ?_, ?_, ?_, ?_, ?_⟩ <;> simp [start, MaterializedView.new]

omit [ViewSink σ] [External] in
theorem instanceOf_cases (s : ProcessLog σ) (pid : ℕ) :
    s.current pid = some (s.instanceOf pid) ∨ s.current pid = none ∧ s.instanceOf pid = s.next := by
  rw [instanceOf]
  cases s.current pid with
  | none => exact .inr ⟨rfl, rfl⟩
  | some n => exact .inl rfl

omit [ViewSink σ] [External] in
theorem Numbered.instanceOf_lt (h : s.Numbered) (pid : ℕ) : s.instanceOf pid < s.next + 1 := by
  rcases s.instanceOf_cases pid with hcurrent | ⟨-, hnext⟩
  · exact Nat.lt_succ_of_lt (h.current_lt _ _ hcurrent)
  · omega

omit [ViewSink σ] [External] in
/-- The instance of a pid is the instance of no other. -/
theorem Numbered.pid_eq (h : s.Numbered) {pid' : ℕ}
    (hcurrent : s.current pid' = some (s.instanceOf pid)) : pid' = pid := by
  rcases s.instanceOf_cases pid with hpid | ⟨-, hnext⟩
  · exact h.owner _ _ _ hcurrent hpid
  · have hlt := h.current_lt _ _ hcurrent
    omega

omit [ViewSink σ] [External] in
/-- An instance some of whose events are stored has begun before. -/
theorem Numbered.current_of_mem (h : s.Numbered) {x : ℕ × ℕ × ℕ} (hx : x ∈ s.begun)
    (hpid : x.1 = s.instanceOf pid) : s.current pid = some x.1 := by
  rcases s.instanceOf_cases pid with hcurrent | ⟨-, hnext⟩
  · rw [hpid, hcurrent]
  · have hlt := h.begun_lt x hx
    omega

theorem occur_current {pid' n : ℕ} (h : (s.occur event action pid).current pid' = some n) :
    pid' = pid ∧ n = s.instanceOf pid ∧ action = "exec" ∨ pid' ≠ pid ∧ s.current pid' = some n := by
  simp only [occur, Function.update_apply] at h
  split_ifs at h with hpid haction
  · exact .inl ⟨hpid, (Option.some_inj.mp h).symm, by simpa using haction⟩
  · exact .inr ⟨hpid, h⟩

theorem Numbered.occur (h : s.Numbered) : (s.occur event action pid).Numbered where
  current_lt pid' n hcurrent := by
    rcases occur_current hcurrent with ⟨-, rfl, -⟩ | ⟨-, hcurrent⟩
    · exact h.instanceOf_lt pid
    · exact Nat.lt_succ_of_lt (h.current_lt _ _ hcurrent)
  begun_lt x hx := Nat.lt_succ_of_lt (h.begun_lt x hx)
  owner pid₁ pid₂ n h₁ h₂ := by
    rcases occur_current h₁ with ⟨rfl, rfl, -⟩ | ⟨-, hkept₁⟩ <;>
      rcases occur_current h₂ with ⟨rfl, hn, -⟩ | ⟨-, hkept₂⟩
    · rfl
    · exact (h.pid_eq hkept₂).symm
    · rw [hn] at hkept₁
      exact h.pid_eq hkept₁
    · exact h.owner _ _ _ hkept₁ hkept₂

omit [ViewSink σ] [External] in
theorem Tidy.idle (h : s.Tidy) {view : MaterializedView σ}
    (hview : view.processes = s.view.processes) : ({ s with view } : ProcessLog σ).Tidy := by
  have hnodes : view.processNodes = s.view.processNodes := congrArg Prod.fst hview
  have hactive : view.activeProcesses = s.view.activeProcesses := congrArg Prod.snd hview
  refine ⟨⟨h.current_lt, h.begun_lt, h.owner⟩, h.once, h.apart, ?_, h.mem_stored, ?_, ?_⟩
  · rw [hactive]
    exact h.running
  · rw [hactive]
    exact h.held
  · rw [hnodes]
    exact h.kept

theorem Tidy.missed (h : s.Tidy)
    (hview : (s.occur event action pid).view.processes = s.view.processes) :
    (s.occur event action pid).Tidy := by
  have hidle := h.idle hview
  refine ⟨h.toNumbered.occur, h.once, h.apart, fun pid' x hx hcurrent => ?_, h.mem_stored,
    hidle.held, hidle.kept⟩
  rcases occur_current hcurrent with ⟨rfl, hn, -⟩ | ⟨-, hcurrent⟩
  · exact hidle.running _ x hx (h.current_of_mem hx hn)
  · exact hidle.running _ x hx hcurrent

/-- The first event of the instance that an event is of: another one before it, or itself. -/
theorem Tidy.first (h : s.Tidy) (action : String)
    (hbegins : s.IsUnseen (s.instanceOf pid) → s.view.activeProcesses pid = none ∧
      ∀ x ∈ s.begun, x.2 ≠ (pid, (s.canonical event).timestampMs)) :
    ∃ x, x.1 = s.instanceOf pid ∧ x.2.1 = pid ∧
      (s.view.activeProcesses pid).getD (nodeName (pid, (s.canonical event).timestampMs)) =
        nodeName x.2 ∧
      (∀ y, y ∈ (s.store event action pid).begun ↔ y ∈ s.begun ∨ y = x) ∧
      ∀ y ∈ s.begun, y.1 = x.1 ∨ y.2 = x.2 → y = x := by
  by_cases hunseen : s.IsUnseen (s.instanceOf pid)
  · obtain ⟨hactive, hapart⟩ := hbegins hunseen
    refine ⟨(s.instanceOf pid, pid, (s.canonical event).timestampMs), rfl, rfl, ?_, ?_, ?_⟩
    · rw [hactive]
      rfl
    · simp [store, hunseen]
    · rintro y hy (hn | hbegin)
      · exact absurd hn (hunseen y hy)
      · exact absurd hbegin (hapart y hy)
  · obtain ⟨x, hx, hn⟩ : ∃ x ∈ s.begun, x.1 = s.instanceOf pid := by
      simpa [IsUnseen] using hunseen
    obtain ⟨hpid, hactive⟩ := h.running pid x hx (h.current_of_mem hx hn)
    refine ⟨x, hn, hpid, by rw [hactive]; rfl, fun y => ?_, ?_⟩
    · simp only [store, if_neg hunseen]
      exact ⟨.inl, fun hy => hy.elim id fun hyx => hyx ▸ hx⟩
    · rintro y hy (hn | hbegin)
      · exact h.once y hy x hx hn
      · exact h.apart y hy x hx hbegin

theorem Tidy.stored (h : s.Tidy) {id : String}
    (hbegins : s.IsUnseen (s.instanceOf pid) → s.view.activeProcesses pid = none ∧
      ∀ x ∈ s.begun, x.2 ≠ (pid, (s.canonical event).timestampMs))
    (hid : id = (s.view.activeProcesses pid).getD (nodeName (pid, (s.canonical event).timestampMs)))
    (hids : (s.deeds event).filterMap Deed.nodeId? = [id])
    (hmem : id ∈ (s.store event action pid).view.processNodes)
    (hother : ∀ other ≠ id, (s.store event action pid).view.processNodes[other]? =
      s.view.processNodes[other]?)
    (hactive : (s.store event action pid).view.activeProcesses =
      runningAfter action s.view.activeProcesses pid id) :
    (s.store event action pid).Tidy := by
  obtain ⟨x, hn, hpid, hname, hbegun, hsame⟩ := h.first action hbegins
  rw [← hid] at hname
  have hstored y : y ∈ (s.store event action pid).stored ↔ y ∈ s.stored ∨ y = (x.1, id) := by
    simp [store, hids, hn]
  have hunique : ∀ y ∈ (s.store event action pid).begun, y.1 = x.1 ∨ y.2 = x.2 → y = x := by
    intro y hy hyx
    rcases (hbegun y).mp hy with hy | rfl
    · exact hsame y hy hyx
    · rfl
  have hmem_stored y : y ∈ (s.store event action pid).stored ↔
      ∃ z ∈ (s.store event action pid).begun, y = (z.1, nodeName z.2) := by
    simp only [hstored, hbegun, h.mem_stored, hname]
    constructor
    · rintro (⟨z, hz, rfl⟩ | rfl)
      · exact ⟨z, .inl hz, rfl⟩
      · exact ⟨x, .inr rfl, rfl⟩
    · rintro ⟨z, hz | rfl, rfl⟩
      · exact .inl ⟨z, hz, rfl⟩
      · exact .inr rfl
  constructor
  case toNumbered =>
    have hnumbered : (s.occur event action pid).Numbered := h.toNumbered.occur
    refine ⟨hnumbered.current_lt, fun y hy => ?_, hnumbered.owner⟩
    rcases (hbegun y).mp hy with hy | rfl
    · exact Nat.lt_succ_of_lt (h.begun_lt y hy)
    · rw [hn]
      exact h.instanceOf_lt pid
  case once =>
    intro y hy z hz hyz
    rcases (hbegun y).mp hy with hy' | rfl
    · rcases (hbegun z).mp hz with hz' | rfl
      · exact h.once y hy' z hz' hyz
      · exact hunique y hy (.inl hyz)
    · exact (hunique z hz (.inl hyz.symm)).symm
  case apart =>
    intro y hy z hz hyz
    rcases (hbegun y).mp hy with hy' | rfl
    · rcases (hbegun z).mp hz with hz' | rfl
      · exact h.apart y hy' z hz' hyz
      · exact hunique y hy (.inr hyz)
    · exact (hunique z hz (.inr hyz.symm)).symm
  case running =>
    intro pid' y hy hcurrent
    rw [hactive, runningAfter]
    have hoccur : (s.occur event action pid).current pid' = some y.1 := hcurrent
    rcases occur_current hoccur with ⟨rfl, hy', rfl⟩ | ⟨hne, hcurrent⟩
    · obtain rfl := hunique y hy (.inl (hy'.trans hn.symm))
      exact ⟨hpid, by simp [hname]⟩
    · rw [Function.update_of_ne hne]
      rcases (hbegun y).mp hy with hy' | rfl
      · exact h.running pid' y hy' hcurrent
      · rw [hn] at hcurrent
        exact absurd (h.pid_eq hcurrent) hne
  case mem_stored => exact hmem_stored
  case held =>
    intro pid' id' hrunning
    simp only [hactive, runningAfter, Function.update_apply] at hrunning
    simp only [hstored]
    split_ifs at hrunning
    · obtain rfl := Option.some_inj.mp hrunning
      exact ⟨x.1, .inr rfl⟩
    · obtain ⟨n, hstored'⟩ := h.held pid' id' hrunning
      exact ⟨n, .inl hstored'⟩
  case kept =>
    intro y hy
    have hrows : (s.store event action pid).rows =
        Function.update s.rows x.1 (s.store event action pid).view.processNodes[id]? := by
      rw [hn]
      simp only [store, hids]
      rfl
    obtain ⟨z, hz, rfl⟩ := (hmem_stored y).mp hy
    rw [hrows]
    by_cases hzx : z = x
    · obtain rfl := hzx
      rw [Function.update_self, ← hname]
      have hrow := Std.TreeMap.getElem?_eq_some_getElem hmem
      exact ⟨_, hrow, hrow⟩
    · have hne : z.1 ≠ x.1 := fun hzn => hzx (hunique z hz (.inl hzn))
      have hneName : nodeName z.2 ≠ id := by
        rw [hname]
        exact fun hname => hzx (hunique z hz (.inr (nodeName_injective hname)))
      rw [Function.update_of_ne hne, hother _ hneName]
      rcases (hstored _).mp hy with hy | hy
      · exact h.kept _ hy
      · exact absurd (congrArg Prod.fst hy) hne

theorem Tidy.step (h : s.Tidy) (hbegins : s.BeginsApart event) (hstep : s.step event = some s') :
    s'.Tidy := by
  cases course_of_step hstep with
  | idle hview => exact h.idle hview
  | missed hview => exact h.missed hview
  | stored haction hpid hendures hid hids hmem hother hactive =>
    exact h.stored (hbegins (by rw [haction]; rfl) _ hpid hendures) hid hids hmem hother hactive

omit [ViewSink σ] [External] in
theorem Tidy.identified (h : s.Tidy) : s.Identified := by
  refine ⟨fun y hy z hz hyz => ?_, fun y hy z hz hyz => ?_, h.kept⟩
  · obtain ⟨x, hx, rfl⟩ := (h.mem_stored y).mp hy
    obtain ⟨x', hx', rfl⟩ := (h.mem_stored z).mp hz
    rw [h.once x hx x' hx' hyz]
  · obtain ⟨x, hx, rfl⟩ := (h.mem_stored y).mp hy
    obtain ⟨x', hx', rfl⟩ := (h.mem_stored z).mp hz
    rw [h.apart x hx x' hx' (nodeName_injective hyz)]

/-- When each id is that of one instance, the first events of instances are apart. -/
theorem Tidy.beginsApart (h : s.Tidy) (hstep : s.step event = some s')
    (hapart : ∀ x ∈ s'.stored, ∀ y ∈ s'.stored, x.2 = y.2 → x.1 = y.1) : s.BeginsApart event := by
  intro haction pid hpid hendures hunseen
  obtain ⟨action, haction⟩ := Option.isSome_iff_exists.mp haction
  have hstored : s'.stored = s.stored ++ [(s.instanceOf pid, (s.view.activeProcesses pid).getD
      (nodeName (pid, (s.canonical event).timestampMs)))] := by
    rw [ProcessLog.step, haction, Option.mem_def.mp hpid] at hstep
    dsimp only at hstep
    rw [if_pos hendures] at hstep
    obtain rfl := Option.some_inj.mp hstep
    change s.stored ++ ((s.deeds event).filterMap Deed.nodeId?).map _ = _
    rw [filterMap_nodeId?_deeds haction hpid]
    rfl
  -- An id that the new instance shares makes the other instance the new one.
  have hfresh n : (n, (s.view.activeProcesses pid).getD
      (nodeName (pid, (s.canonical event).timestampMs))) ∉ s.stored := by
    intro hmem
    have hn : n = s.instanceOf pid := by
      rw [hstored] at hapart
      exact hapart _ (mem_append_left _ hmem) _
        (mem_append_right _ (mem_singleton_self _)) rfl
    obtain ⟨x, hx, heq⟩ := (h.mem_stored _).mp hmem
    exact hunseen x hx ((congrArg Prod.fst heq).symm.trans hn)
  have hactive : s.view.activeProcesses pid = none := by
    cases hheld : s.view.activeProcesses pid with
    | none => rfl
    | some id =>
      obtain ⟨n, hmem⟩ := h.held pid id hheld
      rw [hheld] at hfresh
      exact absurd hmem (hfresh n)
  refine ⟨hactive, fun x hx hbegin => hfresh x.1 ?_⟩
  rw [hactive, ← hbegin]
  exact (h.mem_stored _).mpr ⟨x, hx, rfl⟩

theorem stored_mono (hstep : s.step event = some s') : s.stored ⊆ s'.stored := by
  cases course_of_step hstep with
  | idle hview => exact Subset.refl _
  | missed hview => exact Subset.refl _
  | stored => exact subset_append_left _ _

/-- **The instances of processes.** -/
theorem instances_identified (sinks : List σ) (maxAuditEvents maxResourceSamples : Option ℕ)
    (mutations : Option Bridge.MutationEmitter) :
    (∀ s, Reaches step BeginsApart (start sinks maxAuditEvents maxResourceSamples mutations) s →
      s.Identified) ∧
    ∀ s, Reaches step always (start sinks maxAuditEvents maxResourceSamples mutations) s →
      s.Identified →
        Reaches step BeginsApart (start sinks maxAuditEvents maxResourceSamples mutations) s := by
  have htidy s
      (h : Reaches step BeginsApart (start sinks maxAuditEvents maxResourceSamples mutations) s) :
      s.Tidy :=
    h.invariant (I := Tidy) (tidy_start _ _ _ _) fun _ _ _ htidy hbegins hstep =>
      htidy.step hbegins hstep
  refine ⟨fun s h => (htidy s h).identified, fun s h hidentified => ?_⟩
  replace hidentified := hidentified.apart
  induction h with
  | refl => exact .refl
  | tail hreach _ hstep ih =>
    have hmono := stored_mono hstep
    have hbefore := ih fun x hx y hy => hidentified x (hmono hx) y (hmono hy)
    exact .tail hbefore ((htidy _ hbefore).beginsApart hstep hidentified) hstep

end ProcessLog

end Processes

/-! ### Two runs -/

section Example

local instance bodyOnlyIdentity : External := modelBodyOnly

/-- An exec of a pid. -/
def execOf (timestamp : ℕ) : Event where
  timestamp
  source := "process"
  pid := 42
  comm := "sh"
  data := .object [("event", .string "EXEC"), ("filename", .string "/bin/sh")]

/-- An exit of the pid. -/
def exitOf (timestamp : ℕ) : Event where
  timestamp
  source := "process"
  pid := 42
  comm := "sh"
  data := .object [("event", .string "EXIT"), ("exit_code", .number (.posInt 0))]

open ProcessLog

/-- Two instances of a pid, one after the other. -/
theorem instances_of_execs :
    ∃ s : ProcessLog NullSink, Reaches step BeginsApart (start [.null] none none none) s ∧
      s.stored = [(0, "process-42-1000"), (0, "process-42-1000"), (2, "process-42-1001")] ∧
        s.Identified := by
  obtain ⟨s, hs, hstored⟩ := exists_reaches_of_run (Q := fun s => s.stored =
      [(0, "process-42-1000"), (0, "process-42-1000"), (2, "process-42-1001")])
    step BeginsApart (start [NullSink.null] none none none)
    [execOf 1000, exitOf 1000, execOf 1001] (by decide)
  exact ⟨s, hs, hstored, (instances_identified [.null] none none none).1 s hs⟩

/-- An instance that begins when the one before it has begun takes its id and its row. -/
theorem instances_of_execs_at_once :
    ∃ s : ProcessLog NullSink, Reaches step always (start [.null] none none none) s ∧
      ¬s.Identified := by
  obtain ⟨s, hs, hstored⟩ := exists_reaches_of_run (Q := fun s => s.stored =
      [(0, "process-42-1000"), (0, "process-42-1000"), (2, "process-42-1000")])
    step always (start [NullSink.null] none none none)
    [execOf 1000, exitOf 1000, execOf 1000] (by decide)
  refine ⟨s, hs, fun hidentified => ?_⟩
  have hsame := hidentified.apart (0, "process-42-1000") (by simp [hstored])
    (2, "process-42-1000") (by simp [hstored]) rfl
  cases hsame

end Example

end AgentSight.View
