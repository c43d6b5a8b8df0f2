import AgentSight.View.Convergence
import AgentSight.View.Pairing
import AgentSight.View.Plan

/-!
# Failing sinks

A sink that reports an error on a row keeps neither the row from being stored nor the mutation
from being published, but the caller returns the error at once, and with it leaves undone
whatever the event still calls for. So a view with failing sinks stays the view it is with
sinks that accept everything as long as errors fall on what an event calls for last; before
that, a response loses rows whose request is pending no more.
-/

namespace AgentSight.View

open Effectful Transition List
open MaterializedView (receiveAll)

/-! ### A view and its healthy twin -/

section Healed

variable {σ : Type}

/-- The same view with sinks that never fail. -/
def MaterializedView.healed (v : MaterializedView σ) : MaterializedView NullSink :=
  { v with sinks := v.sinks.map fun _ => .null }

namespace MaterializedView

section

variable (v : MaterializedView σ)

theorem healed_observe (t : Option ℕ) :
    (v.observe t).healed = v.healed.observe t := by
  cases t <;> rfl

theorem healed_applyLlmCall (row : LlmCallRow) :
    (v.applyLlmCall row).healed = v.healed.applyLlmCall row := by
  rw [applyLlmCall, applyLlmCall, ← healed_observe, ← healed_observe]
  rfl

theorem healed_applyTokenUsage (row : TokenUsageRow) :
    (v.applyTokenUsage row).healed = v.healed.applyTokenUsage row := by
  rfl

theorem healed_applyAuditEvent (row : AuditEventRow) :
    (v.applyAuditEvent row).healed = v.healed.applyAuditEvent row := by
  rfl

theorem healed_applyToolCall (row : ToolCallRow) :
    (v.applyToolCall row).healed = v.healed.applyToolCall row := by
  rfl

theorem healed_applyResourceSample (row : ResourceSampleRow) :
    (v.applyResourceSample row).healed = v.healed.applyResourceSample row := by
  rfl

theorem healed_upsertSession (row : SessionRow) :
    (v.upsertSession row).healed = v.healed.upsertSession row := by
  rw [upsertSession, upsertSession, ← healed_observe, ← healed_observe]
  generalize (v.observe (some row.startTimestampMs)).observe row.endTimestampMs = v'
  have hsame : v'.healed.sessions = v'.sessions := rfl
  rw [hsame]
  cases v'.sessions[row.id]? <;> rfl

theorem healed_upsertNetworkTarget [External] (row : NetworkTargetRow) :
    (v.upsertNetworkTarget row).healed = v.healed.upsertNetworkTarget row := by
  rw [upsertNetworkTarget, upsertNetworkTarget, ← healed_observe, ← healed_observe]
  generalize (v.observe row.firstTimestampMs).observe row.lastTimestampMs = v'
  have hsame : v'.healed.networkTargets = v'.networkTargets := rfl
  rw [hsame]
  cases v'.networkTargets[networkTargetKey row]? <;> rfl

theorem healed_upsertProcessNode (row : ProcessNodeRow) :
    (v.upsertProcessNode row).healed = v.healed.upsertProcessNode row := by
  rw [upsertProcessNode, upsertProcessNode, ← healed_observe, ← healed_observe]
  generalize (v.observe row.startTimestampMs).observe row.endTimestampMs = v'
  have hsame : v'.healed.processNodes = v'.processNodes := rfl
  rw [hsame]
  cases v'.processNodes[row.id]? <;> rfl

end

end MaterializedView

end Healed

/-! ### One deed -/

section Deeds

variable {σ : Type} [ViewSink σ]

/-- What the sinks make of a deed. Sessions, and what the view remembers, are not theirs. -/
def Deed.deliver : Deed → List σ → Option String × List σ
  | .emit (.session _), sinks => (none, sinks)
  | .emit row, sinks => receiveAll row sinks
  | _, sinks => (none, sinks)

theorem receiveAll_nullSink (row : Row) (sinks : List NullSink) :
    receiveAll row sinks = (none, sinks) := by
  induction sinks with
  | nil => rfl
  | cons sink sinks ih =>
    rw [receiveAll, ih]
    rfl

theorem Deed.deliver_nullSink (deed : Deed) (sinks : List NullSink) :
    deed.deliver sinks = (none, sinks) := by
  rcases deed with row | pending | activeProcesses
  · cases row <;> first | rfl | exact receiveAll_nullSink _ sinks
  · rfl
  · rfl

theorem healed_receiveAll (row : Row) (sinks : List σ) :
    (receiveAll row sinks).2.map (fun _ => NullSink.null) = sinks.map fun _ => .null := by
  induction sinks with
  | nil => rfl
  | cons sink sinks ih => exact congrArg (NullSink.null :: ·) ih

theorem healed_publish (v : MaterializedView σ) (row : Row) :
    (v.publish row).2.healed = v.healed := by
  unfold MaterializedView.publish MaterializedView.healed
  rw [healed_receiveAll]

theorem publish_nullSink (v : MaterializedView NullSink) (row : Row) :
    v.publish row = (.ok (), v) := by
  rw [MaterializedView.publish, receiveAll_nullSink]

theorem exec_emitRow (store : MaterializedView σ → MaterializedView σ) (row : Row)
    (emit : MaterializedView σ → Bridge.MutationEmitter → Bridge.MutationEmitter)
    (v : MaterializedView σ) :
    (exec (emitRow store row emit) v).2 =
      ((store v).publish row).2.mutate (emit ((store v).publish row).2) := rfl

/-- What a program reports. -/
def reported : Option String → Except String Unit
  | some error => .error error
  | none => .ok ()

variable [External]

/-- The program reports what the sinks make of the deed and does to the view what it does to the
healed one. -/
structure Carries (deed : Deed) (m : ViewM σ Unit) (m' : ViewM NullSink Unit)
    (v : MaterializedView σ) : Prop where
  result : (exec m v).1 = reported (deed.deliver v.sinks).1
  sinks : (exec m v).2.sinks = (deed.deliver v.sinks).2
  healed : (exec m v).2.healed = (exec m' v.healed).2

omit [External] in
theorem carries_emitRow {v : MaterializedView σ} (row : Row)
    (store : MaterializedView σ → MaterializedView σ)
    (store' : MaterializedView NullSink → MaterializedView NullSink)
    {emit : MaterializedView σ → Bridge.MutationEmitter → Bridge.MutationEmitter}
    {emit' : MaterializedView NullSink → Bridge.MutationEmitter → Bridge.MutationEmitter}
    (hrow : (Deed.emit row).deliver v.sinks = receiveAll row v.sinks)
    (hsinks : (store v).sinks = v.sinks) (hstore : (store v).healed = store' v.healed)
    (hemit : ∀ w : MaterializedView σ, emit w = emit' w.healed) :
    Carries (.emit row) (emitRow store row emit) (emitRow store' row emit') v where
  result := by
    change (match (receiveAll row (store v).sinks).1 with
      | some error => Except.error error
      | none => .ok ()) = _
    rw [hsinks, hrow]
    cases (receiveAll row v.sinks).1 <;> rfl
  sinks := by
    rw [hrow, ← hsinks]
    rfl
  healed := by
    have hpublished := healed_publish (store v) row
    rw [exec_emitRow, exec_emitRow, publish_nullSink, ← hstore, hemit]
    exact congrArg (fun w : MaterializedView NullSink => w.mutate _) hpublished

omit [ViewSink σ] [External] in
theorem sinks_of_stores {kind : RowKind} {v stored : MaterializedView σ} {k : String}
    {row : kind.RowOf} (h : kind.Stores v stored k row) : stored.sinks = v.sinks := by
  obtain ⟨counts, start, stop, rfl⟩ := h
  cases kind <;> rfl

omit [ViewSink σ] [External] in
theorem observe_sinks (v : MaterializedView σ) (t : Option ℕ) : (v.observe t).sinks = v.sinks := by
  cases t <;> rfl

/-- **One deed.** -/
theorem carries (deed : Deed) (v : MaterializedView σ) :
    Carries deed deed.perform deed.perform v := by
  rcases deed with row | pending | activeProcesses
  · cases row with
    | session row =>
      have hsinks : (v.upsertSession row).sinks = v.sinks :=
        sinks_of_stores (stores_upsertSession row)
      refine ⟨rfl, hsinks, ?_⟩
      change ((v.upsertSession row).mutate _).healed = (v.healed.upsertSession row).mutate _
      rw [← MaterializedView.healed_upsertSession]
      rfl
    | llmCall row =>
      simp only [Deed.perform, emit, emitLlmCall]
      exact carries_emitRow _ _ _ rfl (sinks_of_stores (stores_applyLlmCall row))
        (v.healed_applyLlmCall row) fun _ => rfl
    | tokenUsage row =>
      simp only [Deed.perform, emit, emitTokenUsage]
      exact carries_emitRow _ _ _ rfl (sinks_of_stores (stores_applyTokenUsage row))
        (v.healed_applyTokenUsage row) fun _ => rfl
    | toolCall row =>
      simp only [Deed.perform, emit, emitToolCall]
      exact carries_emitRow _ _ _ rfl (sinks_of_stores (stores_applyToolCall row))
        (v.healed_applyToolCall row) fun _ => rfl
    | processNode row =>
      simp only [Deed.perform, emit, emitProcessNode]
      exact carries_emitRow _ _ _ rfl (sinks_of_stores (stores_upsertProcessNode row))
        (v.healed_upsertProcessNode row) fun _ => rfl
    | networkTarget row =>
      simp only [Deed.perform, emit, emitNetworkTarget]
      exact carries_emitRow _ _ _ rfl (sinks_of_stores (stores_upsertNetworkTarget row))
        (v.healed_upsertNetworkTarget row) fun _ => rfl
    | auditEvent row =>
      simp only [Deed.perform, emit, emitAuditEvent]
      exact carries_emitRow _ _ _ rfl (observe_sinks v _)
        (v.healed_applyAuditEvent row) fun _ => rfl
    | resourceSample row =>
      simp only [Deed.perform, emit, emitResourceSample]
      exact carries_emitRow _ _ _ rfl (observe_sinks v _)
        (v.healed_applyResourceSample row) fun _ => rfl
  · exact ⟨rfl, rfl, rfl⟩
  · exact ⟨rfl, rfl, rfl⟩

end Deeds

/-! ### Many deeds -/

section Plans

variable {σ : Type} [ViewSink σ]

/-- The sinks report no error on a deed that others follow. -/
def Endures (sinks : List σ) : List Deed → Prop
  | [] => True
  | [_] => True
  | deed :: next :: deeds =>
    (deed.deliver sinks).1 = none ∧ Endures (deed.deliver sinks).2 (next :: deeds)

def decidableEndures (sinks : List σ) : (deeds : List Deed) → Decidable (Endures sinks deeds)
  | [] => .isTrue trivial
  | [_] => .isTrue trivial
  | deed :: next :: deeds =>
    have := decidableEndures (deed.deliver sinks).2 (next :: deeds)
    inferInstanceAs (Decidable (_ ∧ _))

instance (sinks : List σ) (deeds : List Deed) : Decidable (Endures sinks deeds) :=
  decidableEndures sinks deeds

variable [External] {v : MaterializedView σ}

theorem exec_performAll_cons_of_none {deed : Deed} (h : (deed.deliver v.sinks).1 = none)
    (deeds : List Deed) :
    exec (performAll (deed :: deeds)) v = exec (performAll deeds) (exec deed.perform v).2 := by
  have hresult := (carries deed v).result
  rw [h] at hresult
  exact exec_bind_of_ok (Prod.ext hresult rfl)

theorem exec_performAll_cons_of_some {deed : Deed} {error : String}
    (h : (deed.deliver v.sinks).1 = some error) (deeds : List Deed) :
    exec (performAll (deed :: deeds)) v = (.error error, (exec deed.perform v).2) := by
  have hresult := (carries deed v).result
  rw [h] at hresult
  exact exec_bind_of_error (Prod.ext hresult rfl)

theorem exec_performAll_singleton (deed : Deed) (v : MaterializedView σ) :
    exec (performAll [deed]) v = exec deed.perform v :=
  congrArg (exec · v) (bind_pure (m := ViewM σ) _)

/-- Sinks that never fail let everything be done. -/
theorem exec_performAll_append_nullSink (deeds deeds' : List Deed) (v : MaterializedView NullSink) :
    exec (performAll (deeds ++ deeds')) v =
      exec (performAll deeds') (exec (performAll deeds) v).2 := by
  induction deeds generalizing v with
  | nil => rfl
  | cons deed deeds ih =>
    have hnone : (deed.deliver v.sinks).1 = none := by rw [deed.deliver_nullSink]
    rw [cons_append, exec_performAll_cons_of_none hnone, exec_performAll_cons_of_none hnone,
      ih]

/-- **Many deeds.** What errors there are come too late to matter. -/
theorem healed_performAll {deeds : List Deed} (h : Endures v.sinks deeds) :
    (exec (performAll deeds) v).2.healed = (exec (performAll deeds) v.healed).2 := by
  induction deeds generalizing v with
  | nil => rfl
  | cons deed deeds ih =>
    have hcarries := carries deed v
    have hhealed : (deed.deliver v.healed.sinks).1 = none := by rw [deed.deliver_nullSink]
    cases deeds with
    | nil =>
      rw [exec_performAll_singleton, exec_performAll_singleton]
      exact hcarries.healed
    | cons next deeds =>
      obtain ⟨hnone, hrest⟩ := h
      rw [exec_performAll_cons_of_none hnone, exec_performAll_cons_of_none hhealed,
        ← hcarries.healed]
      rw [← hcarries.sinks] at hrest
      exact ih hrest

end Plans

/-! ### Pairs -/

section Pairs

variable [External]

/-- The request that an event takes as its response, how sure the match is, and the requests
that still wait. -/
def pairOf (c : CanonicalEvent) (pending : Pending) : Option (PendingRequest × ℚ × Pending) :=
  if c.answers pending then taken c pending else none

/-- The view has the call, the token usage and the tool calls of a response with its request. -/
def pairApplied {σ : Type} (v : MaterializedView σ) (req : PendingRequest)
    (resp : CanonicalEvent) (confidence : ℚ) : Bool :=
  v.llmCalls["llm-" ++ req.eventId]? = some (pairRow req resp) &&
    (pairUsageRow req resp confidence).all (fun row => v.tokenUsage[row.id]? = some row) &&
    (pairToolRows req resp confidence).all fun row => v.toolCalls.contains row.id

theorem kindDeeds_of_answers {c : CanonicalEvent} {pending : Pending}
    (h : c.answers pending = true) (activeProcesses : ℕ → Option String) :
    kindDeeds c pending activeProcesses = responseDeeds c pending := by
  simp only [CanonicalEvent.answers, Bool.and_eq_true, Bool.or_eq_true, beq_iff_eq] at h
  obtain ⟨-, (hkind | hkind) | ⟨hkind, hpending⟩⟩ := h
  · simp [kindDeeds, hkind]
  · simp [kindDeeds, hkind]
  · simp only [kindDeeds, hkind, hpending, if_true]

/-- The rows of a pair are the last an event with one calls for. -/
theorem plan_of_pairOf {c : CanonicalEvent} {pending rest : Pending} {req : PendingRequest}
    {confidence : ℚ}
    (h : pairOf c (prunePending pending c.timestampMs) = some (req, confidence, rest))
    (activeProcesses : ℕ → Option String) :
    ∃ deeds, plan c pending activeProcesses = deeds ++ (pairRows req c confidence).map .emit := by
  unfold pairOf at h
  split at h
  · next hanswers =>
    have hpid : c.pid.isSome = true := by
      simp only [CanonicalEvent.answers, Bool.and_eq_true] at hanswers
      exact hanswers.1
    obtain ⟨pid, hpid⟩ := Option.isSome_iff_exists.mp hpid
    refine ⟨.await (prunePending pending c.timestampMs) ::
      ((commonRows c).map .emit ++ [.await rest]), ?_⟩
    rw [plan, kindDeeds_of_answers hanswers, responseDeeds, hpid]
    simp [h]
  · cases h

theorem exec_emitAll_append_nullSink (rows rows' : List Row) (v : MaterializedView NullSink) :
    exec (emitAll (rows ++ rows')) v = exec (emitAll rows') (exec (emitAll rows) v).2 := by
  have happend := exec_performAll_append_nullSink (rows.map .emit) (rows'.map .emit) v
  rwa [← map_append, performAll_emit, performAll_emit, performAll_emit] at happend

theorem exec_emitAll_cons_nullSink (row : Row) (rows : List Row) (v : MaterializedView NullSink) :
    exec (emitAll (row :: rows)) v = exec (emitAll rows) (exec (emit row) v).2 := by
  have happend := exec_emitAll_append_nullSink [row] rows v
  rwa [emitAll_singleton] at happend

theorem mem_toolCalls_emitAll {tools : List ToolCallRow} {id : String}
    {v : MaterializedView NullSink} (h : id ∈ v.toolCalls ∨ ∃ row ∈ tools, row.id = id) :
    id ∈ (exec (emitAll (tools.map .toolCall)) v).2.toolCalls := by
  induction tools generalizing v with
  | nil =>
    obtain h | ⟨row, hrow, -⟩ := h
    · exact h
    · cases hrow
  | cons tool tools ih =>
    have hstored : (exec (emit (.toolCall tool)) v).2.toolCalls =
        v.toolCalls.insert tool.id tool := rfl
    rw [map_cons, exec_emitAll_cons_nullSink]
    refine ih ?_
    rw [hstored, Std.TreeMap.mem_insert]
    obtain h | ⟨row, hrow, rfl⟩ := h
    · exact .inl (.inr h)
    · obtain rfl | hrow := mem_cons.mp hrow
      · exact .inl (.inl Std.ReflCmp.compare_self)
      · exact .inr ⟨row, hrow, rfl⟩

theorem tokenUsage_emitAll (tools : List ToolCallRow) (v : MaterializedView NullSink) :
    (exec (emitAll (tools.map .toolCall)) v).2.tokenUsage = v.tokenUsage := by
  induction tools generalizing v with
  | nil => rfl
  | cons tool tools ih =>
    rw [map_cons, exec_emitAll_cons_nullSink, ih]
    rfl

theorem emitLlmCall_keeps (row : LlmCallRow) (v : MaterializedView NullSink) :
    (exec (emit (.llmCall row)) v).2.tokenUsage = v.tokenUsage ∧
      (exec (emit (.llmCall row)) v).2.toolCalls = v.toolCalls := by
  obtain ⟨counts, start, stop, h⟩ := stores_applyLlmCall (v := v) row
  refine ⟨?_, ?_⟩
  · change (v.applyLlmCall row).tokenUsage = _
    rw [h]
    rfl
  · change (v.applyLlmCall row).toolCalls = _
    rw [h]
    rfl

/-- Once all its rows are emitted, a pair is applied. -/
theorem pairApplied_emitAll (v : MaterializedView NullSink) (req : PendingRequest)
    (resp : CanonicalEvent) (confidence : ℚ) :
    pairApplied (exec (emitAll (pairRows req resp confidence)) v).2 req resp confidence = true := by
  rw [pairRows, exec_emitAll_append_nullSink, exec_emitAll_append_nullSink,
    exec_emitAll_cons_nullSink, emitAll_singleton]
  -- the usage and the tool calls come first, and neither the audit nor the call touches them
  let v₁ := (exec (emitAll ((pairUsageRow req resp confidence).toList.map .tokenUsage)) v).2
  let v₂ := (exec (emitAll ((pairToolRows req resp confidence).map .toolCall)) v₁).2
  let v₃ := (exec (emit (.auditEvent (pairAuditRow req resp))) v₂).2
  have hcall : (exec (emit (.llmCall (pairRow req resp))) v₃).2.llm.1.llmCalls =
      v₃.llmCalls.insert (pairRow req resp).id (pairRow req resp) :=
    congrArg (·.1.llmCalls) (emitLlmCall_llm (pairRow req resp) v₃)
  obtain ⟨husages, htools⟩ := emitLlmCall_keeps (pairRow req resp) v₃
  have hv₃ : v₃.tokenUsage = v₁.tokenUsage := tokenUsage_emitAll _ v₁
  simp only [pairApplied, Bool.and_eq_true, decide_eq_true_eq, all_eq_true, Option.all_eq_true]
  refine ⟨⟨?_, fun row husage => ?_⟩, fun tool htool => ?_⟩
  · change (exec (emit (.llmCall (pairRow req resp))) v₃).2.llm.1.llmCalls[_]? = _
    rw [hcall, pairRow_id, Std.TreeMap.getElem?_insert_self]
  · have hv₁ : v₁.tokenUsage = v.tokenUsage.insert row.id row := by
      dsimp only [v₁]
      rw [husage, Option.toList_some, map_singleton, emitAll_singleton]
      rfl
    rw [husages, hv₃, hv₁, Std.TreeMap.getElem?_insert_self]
  · rw [htools]
    exact mem_toolCalls_emitAll (v := v₁) (.inr ⟨tool, htool, rfl⟩)

end Pairs

/-! ### Runs -/

/-- A view beside the view it would be if its sinks never failed, and the responses after whose
ingestion the request was pending no more though the pair was not applied. -/
structure Shadowed (σ : Type) where
  view : MaterializedView σ
  healthy : MaterializedView NullSink
  halfApplied : List CanonicalEvent

namespace Shadowed

variable {σ : Type} [ViewSink σ] [External] {s s' : Shadowed σ} {event : Event}

omit [ViewSink σ] [External] in
/-- A view with whatever sinks, rows and requests. -/
def init (view : MaterializedView σ) : Shadowed σ where
  view
  healthy := view.healed
  halfApplied := []

def canonical (s : Shadowed σ) (event : Event) : CanonicalEvent :=
  canonicalAt event (s.view.nextSeq + 1)

/-- The event took a request from those that wait, and its rows are not all stored. -/
def halfApplies (s : Shadowed σ) (event : Event) (view : MaterializedView σ) : Bool :=
  let c := s.canonical event
  match pairOf c (prunePending s.view.pending c.timestampMs) with
  | none => false
  | some (req, confidence, rest) =>
    c.stream.all (fun stream => view.pending stream = rest stream) &&
      !pairApplied view req c confidence

def step (s : Shadowed σ) (event : Event) : Option (Shadowed σ) :=
  let view := (exec (ingestEvent event) s.view).2
  some
    { view
      healthy := (exec (ingestEvent event) s.healthy).2
      halfApplied :=
        if s.halfApplies event view then s.halfApplied ++ [s.canonical event]
        else s.halfApplied }

/-- No sink reports an error on a row of the event, except perhaps on what the event calls for
last. -/
def Endures (s : Shadowed σ) (event : Event) : Prop :=
  View.Endures s.view.sinks (plan (s.canonical event) s.view.pending s.view.activeProcesses)

instance (s : Shadowed σ) (event : Event) : Decidable (s.Endures event) :=
  inferInstanceAs (Decidable (View.Endures _ _))

theorem healed_ingestEvent (hok : s.Endures event) :
    (exec (ingestEvent event) s.view).2.healed = (exec (ingestEvent event) s.view.healed).2 := by
  rw [exec_ingestEvent_eq_plan, exec_ingestEvent_eq_plan]
  exact healed_performAll (v := { s.view with nextSeq := s.view.nextSeq + 1 }) hok

theorem halfApplies_eq_false (hok : s.Endures event) :
    s.halfApplies event (exec (ingestEvent event) s.view).2 = false := by
  unfold halfApplies
  dsimp only
  split
  · rfl
  · next req confidence rest hpair =>
    obtain ⟨deeds, hplan⟩ := plan_of_pairOf hpair s.view.activeProcesses
    have happlied : pairApplied (exec (ingestEvent event) s.view).2.healed req
        (s.canonical event) confidence = true := by
      rw [healed_ingestEvent hok, exec_ingestEvent_eq_plan]
      change pairApplied (exec (performAll (plan (s.canonical event) s.view.pending
        s.view.activeProcesses)) _).2 req (s.canonical event) confidence = true
      rw [hplan, exec_performAll_append_nullSink, performAll_emit]
      exact pairApplied_emitAll ..
    rw [Bool.and_eq_false_iff, Bool.not_eq_false']
    exact .inr happlied

/-- The view is what it would be, and no pair is applied by half. -/
structure Isolated (s : Shadowed σ) : Prop where
  view : s.view.healed = s.healthy
  pairs : s.halfApplied = []

theorem Isolated.step (h : s.Isolated) (hok : s.Endures event) (hstep : s.step event = some s') :
    s'.Isolated := by
  obtain rfl := Option.some_inj.mp hstep
  refine ⟨?_, ?_⟩
  · rw [← h.view]
    exact healed_ingestEvent hok
  · rw [halfApplies_eq_false hok]
    exact h.pairs

/-- **Sink isolation.** In every run of events on a view with any sinks, in which no sink fails
on a row of an event that calls for more after it, the view and its stream of mutations are
those of sinks that never fail, and no pair is applied by half. -/
theorem sinks_isolated (view : MaterializedView σ)
    (h : Reaches Shadowed.step Endures (.init view) s) : s.Isolated :=
  h.invariant ⟨rfl, rfl⟩ fun _ _ _ hs hok hstep => hs.step hok hstep

end Shadowed

/-! ### An exchange with a sink that refuses audits -/

section Example

local instance instModelBodyOnly' : External := modelBodyOnly

/-- A sink that cannot write the rows of some kinds. -/
structure PickySink where
  refuses : Row → Bool

instance : ViewSink PickySink where
  receive sink row := (if sink.refuses row then some "database is locked" else none, sink)

/-- The sink refuses the call row of a finished exchange, which is its last. -/
theorem sinks_isolated_of_last_row : ∃ s : Shadowed PickySink,
    Reaches Shadowed.step Shadowed.Endures (.init (MaterializedView.new
      [⟨fun | .llmCall row => row.endTimestampMs.isSome | _ => false⟩])) s ∧
      s.view.llmCalls.size = 1 ∧ s.Isolated := by
  obtain ⟨s, hs, hcalls⟩ := exists_reaches_of_run (Q := fun s => s.view.llmCalls.size = 1)
    Shadowed.step Shadowed.Endures (.init (MaterializedView.new
      [(⟨fun | .llmCall row => row.endTimestampMs.isSome | _ => false⟩ : PickySink)]))
    [modelRequest, modelResponse []] (by decide)
  exact ⟨s, hs, hcalls, Shadowed.sinks_isolated _ hs⟩

/-- The sink refuses the audit of the response: the request is pending no more, but its call
row stays that of a request without a response. -/
theorem failing_sink_halves_pair : ∃ s : Shadowed PickySink,
    Reaches Shadowed.step always (.init (MaterializedView.new
      [⟨fun | .auditEvent row => row.action = some "call" | _ => false⟩])) s ∧
      s.halfApplied.length = 1 ∧
      s.view.llmCalls.values.map (·.status) = ["pending"] ∧
      s.healthy.llmCalls.values.map (·.status) = ["complete"] := by
  refine exists_reaches_of_run _ _ _ [modelRequest, modelResponse []] ?_
  decide

end Example

end AgentSight.View
