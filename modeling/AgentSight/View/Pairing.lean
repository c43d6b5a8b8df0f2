import AgentSight.Lib.Transition
import AgentSight.View.Conservation

/-!
# Sequential pairing

Runs in which every stream takes turns: a request, its response, the next request. The view
gives each request the status and end time of its response as long as no response carries
a request id that its request does not have: such a response is looked up by that id alone,
is not found, and leaves its request pending for ever.
-/

namespace AgentSight.View

open Effectful Transition List CanonicalEvent

section Sinks

variable {σ : Type} [ViewSink σ] [External]

omit [External] in
theorem MaterializedView.publish_of_accepting
    (hsinks : ∀ (sink : σ) row, (ViewSink.receive sink row).1 = none)
    (v : MaterializedView σ) (row : Row) : (v.publish row).1 = .ok () := by
  have hnone (sinks : List σ) : (receiveAll row sinks).1 = none := by
    induction sinks with
    | nil => rfl
    | cons sink sinks ih => simp [receiveAll, hsinks, ih]
  simp [publish, hnone]

/-- When no sink reports an error, no program of the projection fails. -/
theorem emissions_succeed (hsinks : ∀ (sink : σ) row, (ViewSink.receive sink row).1 = none) :
    AllEmissions fun _ (m : ViewM σ _) => Succeeds m := by
  have hemit store row emit : Succeeds (emitRow store row emit) := fun v =>
    ⟨(), _, Prod.ext ((store v).publish_of_accepting hsinks row) rfl⟩
  exact
    { pure := Succeeds.pure
      bind := Succeeds.bind
      tokenUsage := fun _ => hemit _ _ _
      auditEvent := fun _ => hemit _ _ _
      processNode := fun _ => hemit _ _ _
      toolCall := fun _ => hemit _ _ _
      networkTarget := fun _ => hemit _ _ _
      resourceSample := fun _ => hemit _ _ _
      processes := fun _ => Succeeds.transact _
      llmCall := fun _ => hemit _ _ _
      bookkeeping := fun _ => Succeeds.transact _ }

end Sinks

/-! ### Dialogues -/

namespace CanonicalEvent

def isRequest (c : CanonicalEvent) : Bool := c.kind == .llmRequest

/-- Responses of the LLM kinds, and plain HTTP responses: those answer a request only while
one waits on their stream. -/
def isResponse (c : CanonicalEvent) : Bool :=
  c.kind == .llmResponse || c.kind == .llmError || c.kind == .httpResponse

end CanonicalEvent

section Run

variable {σ : Type} [ViewSink σ] [External]

/-- A view with what its streams have said: the request each waits for an answer to, all
requests, and the requests with their responses. -/
structure Dialogue (σ : Type) where
  view : MaterializedView σ
  waiting : Stream → Option CanonicalEvent
  requests : List CanonicalEvent
  exchanges : List (CanonicalEvent × CanonicalEvent)

namespace Dialogue

def start (sinks : List σ) (maxAuditEvents maxResourceSamples : Option ℕ)
    (mutations : Option Bridge.MutationEmitter) : Dialogue σ where
  view := { MaterializedView.new sinks with maxAuditEvents, maxResourceSamples, mutations }
  waiting := fun _ => none
  requests := []
  exchanges := []

def canonical (s : Dialogue σ) (event : Event) : CanonicalEvent :=
  canonicalAt event (s.view.nextSeq + 1)

/-- The request an event's stream waits for an answer to. -/
def waitingFor (s : Dialogue σ) (c : CanonicalEvent) : Option CanonicalEvent :=
  c.stream.bind s.waiting

def step (s : Dialogue σ) (event : Event) : Option (Dialogue σ) :=
  let c := s.canonical event
  let view := (exec (ingestEvent event) s.view).2
  match c.stream with
  | none => some { s with view }
  | some k =>
    if c.isRequest then
      some { s with
        view
        waiting := Function.update s.waiting k (some c)
        requests := s.requests ++ [c] }
    else
      match s.waiting k with
      | some q =>
        if c.isResponse then
          some { s with
            view
            waiting := Function.update s.waiting k none
            exchanges := s.exchanges ++ [(q, c)] }
        else some { s with view }
      | none => some { s with view }

/-- The streams take turns: a request comes when none waits on its stream, and a response of
an LLM kind when one does, within the time to live. -/
def InTurn (s : Dialogue σ) (event : Event) : Prop :=
  let c := s.canonical event
  (c.isRequest = true → c.stream.isSome = true ∧ s.waitingFor c = none) ∧
  (c.kind = .llmResponse ∨ c.kind = .llmError → (s.waitingFor c).isSome = true) ∧
  (c.isResponse = true → ∀ q ∈ s.waitingFor c, c.timestampMs ≤ q.timestampMs + pendingRequestTtlMs)

/-- What else the code needs: the view takes every request, no event is so late that it ages a
request that waits, and a response carries no request id that its request does not have. -/
def Matched (s : Dialogue σ) (event : Event) : Prop :=
  let c := s.canonical event
  (c.isRequest = true → c.accepts = true) ∧
  (∀ q ∈ s.requests, s.waitingFor q = some q →
    c.timestampMs ≤ q.timestampMs + pendingRequestTtlMs) ∧
  (c.isResponse = true → ∀ q ∈ s.waitingFor c, c.requestId = none ∨ c.requestId = q.requestId)

instance (s : Dialogue σ) (event : Event) : Decidable (s.InTurn event) := by
  unfold InTurn
  infer_instance

instance (s : Dialogue σ) (event : Event) : Decidable (s.Matched event) := by
  unfold Matched
  infer_instance

/-- Every request that has its response ends complete with the status and end time of that
response; every other request still waits; and no other row exists, so no orphan. -/
structure Complete (s : Dialogue σ) : Prop where
  exchanged (q r : CanonicalEvent) : (q, r) ∈ s.exchanges →
    ∃ row, s.view.llmCalls["llm-" ++ q.eventId]? = some row ∧
      row.status = llmCallStatus (some r.timestampMs) r.statusCode ∧
      row.statusCode = r.statusCode ∧ row.endTimestampMs = some r.timestampMs
  settled : ∀ q ∈ s.requests, (∃ r, (q, r) ∈ s.exchanges) ∨ s.waitingFor q = some q
  no_orphan (id : String) (row : LlmCallRow) : s.view.llmCalls[id]? = some row →
    ∃ q ∈ s.requests, id = "llm-" ++ q.eventId

/-- What is preserved from event to event: a stream's queue is the request it waits on. -/
structure Paired (s : Dialogue σ) : Prop where
  queue (k : Stream) : s.view.pending k = (s.waiting k).map fun q => [q.toPending]
  waiting_stream (k : Stream) : ∀ q ∈ s.waiting k, q.stream = some k ∧ q ∈ s.requests
  issued : ∀ q ∈ s.requests, Issued s.view.nextSeq q
  waiting_inj (k k' : Stream) : ∀ q ∈ s.waiting k, ∀ q' ∈ s.waiting k',
    q.eventId = q'.eventId → k = k'
  exchanged (q r : CanonicalEvent) : (q, r) ∈ s.exchanges →
    q ∈ s.requests ∧ (∀ k, ∀ q' ∈ s.waiting k, q.eventId ≠ q'.eventId) ∧
      s.view.llmCalls["llm-" ++ q.eventId]? = some (pairRow q.toPending r)
  settled : ∀ q ∈ s.requests, (∃ r, (q, r) ∈ s.exchanges) ∨ s.waitingFor q = some q
  no_orphan (id : String) (row : LlmCallRow) : s.view.llmCalls[id]? = some row →
    ∃ q ∈ s.requests, id = "llm-" ++ q.eventId

omit [ViewSink σ] in
theorem Paired.complete {s : Dialogue σ} (h : s.Paired) : s.Complete where
  exchanged q r hqr := ⟨_, (h.exchanged q r hqr).2.2, by simp, by simp, by simp⟩
  settled := h.settled
  no_orphan := h.no_orphan

omit [ViewSink σ] in
/-- Requests that are not older than the time to live are not pruned. -/
theorem Paired.pruneWithin {s : Dialogue σ} (h : s.Paired) {now ttl : ℕ}
    (hnow : ∀ k, ∀ q ∈ s.waiting k, now ≤ q.timestampMs + ttl) :
    prunePendingWithin ttl s.view.pending now = s.view.pending := by
  funext k
  rw [prunePendingWithin, h.queue k]
  rcases hk : s.waiting k with _ | q
  · rfl
  · have hcutoff : ¬ q.toPending.timestampMs < now - ttl := by
      have : q.toPending.timestampMs = q.timestampMs := rfl
      have := hnow k q hk
      omega
    simp [hcutoff]

/-! ### One event -/

variable {s : Dialogue σ} {event : Event}

/-- What an event of a matched run can do to the LLM projection, once nothing is pruned and
nothing fails. -/
theorem Paired.effect (h : s.Paired) (hmatched : s.Matched event)
    (hsinks : ∀ (sink : σ) row, (ViewSink.receive sink row).1 = none) :
    LlmEffect (s.canonical event) s.view.llm.1 (.ok ()) (exec (ingestEvent event) s.view).2.llm.1 ∧
      (exec (ingestEvent event) s.view).2.nextSeq = s.view.nextSeq + 1 := by
  obtain ⟨heff, hseq⟩ := exec_ingestEvent event s.view
  obtain ⟨⟨⟩, v, hok⟩ := (emissions_succeed hsinks).ingestEvent event s.view
  have hprune : prunePending s.view.pending event.timestamp = s.view.pending := by
    refine h.pruneWithin fun k q hq => ?_
    obtain ⟨hk, hmem⟩ := h.waiting_stream k q hq
    exact hmatched.2.1 q hmem (by rw [waitingFor, hk]; exact hq)
  rw [hprune, hok] at heff
  rw [hok] at hseq ⊢
  exact ⟨heff, hseq⟩

variable {q c : CanonicalEvent}

omit [ViewSink σ] in
/-- The event is not one of a request that was taken before. -/
theorem Paired.eventId_ne (h : s.Paired) (hq : q ∈ s.requests) :
    q.eventId ≠ (s.canonical event).eventId := (h.issued q hq).eventId_ne event

omit [ViewSink σ] in
theorem Paired.answers_iff (h : s.Paired) (c : CanonicalEvent) : c.answers s.view.pending = true ↔
      c.pid.isSome = true ∧ (c.kind = .llmResponse ∨ c.kind = .llmError ∨
        (c.kind = .httpResponse ∧ (s.waitingFor c).isSome = true)) := by
  have hpending : hasPendingLlmRequest s.view.pending c = (s.waitingFor c).isSome := by
    simp only [hasPendingLlmRequest, waitingFor, stream]
    rcases c.pid with _ | pid
    · rfl
    · rcases c.tid with _ | tid
      · rfl
      · simp only [h.queue, Option.bind_some, Option.map_some]
        rcases s.waiting (pid, tid) <;> rfl
  simp [answers, hpending, or_assoc]

variable {k : Stream}

omit [ViewSink σ] in
/-- A response of a matched run takes the request its stream waits on. -/
theorem Paired.take (h : s.Paired) (hk : c.stream = some k)
    (hq : s.waiting k = some q) (hid : c.requestId = none ∨ c.requestId = q.requestId) :
    ∃ confidence, s.view.llm.1.take c =
      some (q.toPending, confidence, Function.update s.view.pending k none) := by
  have hqueue : s.view.llm.1.pending k = some [q.toPending] := by
    change s.view.pending k = _
    rw [h.queue k, hq]
    rfl
  have htake : ∃ confidence, takeFrom [q.toPending] c.requestId =
      some (q.toPending, confidence, []) := by
    rcases hcid : c.requestId with _ | id
    · exact ⟨_, rfl⟩
    · have hqid : q.toPending.requestId = some id := by
        rcases hid with hid | hid
        · rw [hcid] at hid
          cases hid
        · exact hid.symm.trans hcid
      exact ⟨confidenceById, by simp [takeFrom, hqid]⟩
  obtain ⟨confidence, htake⟩ := htake
  refine ⟨confidence, ?_⟩
  simp only [LlmState.take, hk, Option.bind_eq_bind, Option.bind_some, takeMatchingRequest,
    hqueue, htake]
  rfl

/-! ### Steps -/

variable {l l' : LlmState}

omit [ViewSink σ] in
theorem effect_of_request
    (heff : LlmEffect c l (.ok ()) l') (hask : c.accepts = true) (hk : c.stream = some k) :
    l' = ⟨pushPending l.pending k c.toPending,
      l.llmCalls.insert ("llm-" ++ c.eventId) (orphanRequestRow c.toPending)⟩ := by
  have hnot : c.answers l.pending = false := c.answers_of_accepts hask
  generalize hr : Except.ok () = r at heff
  rcases heff with hquiet | ⟨-, hk'⟩ | _ | ⟨hans, -⟩ | ⟨hans, -⟩ | ⟨hans, -⟩
  · simp [(hquiet hr.symm).1] at hask
  · rw [Option.some.inj (hk.symm.trans hk')]
  · cases hr
  all_goals simp [hnot] at hans

omit [ViewSink σ] in
theorem effect_of_response {req : PendingRequest}
    {confidence : ℚ} {pending : Pending} (heff : LlmEffect c l (.ok ()) l')
    (hans : c.answers l.pending = true)
    (htake : l.take c = some (req, confidence, pending)) :
    l' = ⟨pending, l.llmCalls.insert ("llm-" ++ req.eventId) (pairRow req c)⟩ := by
  have hnot := c.accepts_of_answers hans
  generalize hr : Except.ok () = r at heff
  rcases heff with hquiet | ⟨hask, -⟩ | hask | ⟨-, htake'⟩ | ⟨-, htake'⟩ | ⟨-, htake'⟩
  · simp [(hquiet hr.symm).2] at hans
  · simp [hnot] at hask
  · simp [hnot] at hask
  · rw [htake] at htake'
    cases htake'
    rfl
  · cases hr
  · rw [htake] at htake'
    cases htake'

omit [ViewSink σ] in
theorem effect_of_neither (heff : LlmEffect c l (.ok ()) l') (hask : c.accepts = false)
    (hans : c.answers l.pending = false) : l' = l := by
  rcases heff with _ | ⟨h, -⟩ | _ | ⟨h, -⟩ | _ | ⟨h, -⟩
  · rfl
  all_goals simp [hask, hans] at h

variable {view : MaterializedView σ}

omit [ViewSink σ] in
/-- A request is queued alone on its stream and gets its row. -/
theorem Paired.request (h : s.Paired) (hc : c = s.canonical event) (hk : c.stream = some k)
    (hfree : s.waiting k = none) (hseq : view.nextSeq = s.view.nextSeq + 1)
    (hpending : view.pending = pushPending s.view.pending k c.toPending)
    (hcalls : view.llmCalls =
      s.view.llmCalls.insert ("llm-" ++ c.eventId) (orphanRequestRow c.toPending)) :
    Paired
      { view
        waiting := Function.update s.waiting k (some c)
        requests := s.requests ++ [c]
        exchanges := s.exchanges } := by
  have hne (q : CanonicalEvent) hq : q.eventId ≠ c.eventId :=
    hc ▸ h.eventId_ne hq
  have hold k' hk' :
      Function.update s.waiting k (some c) k' = s.waiting k' := Function.update_of_ne hk' _ _
  constructor
  -- the stream was free, so its queue is the new request alone
  case queue =>
    intro k'
    rw [hpending]
    by_cases heq : k' = k
    · subst heq
      have hnone : s.view.pending k' = none := by rw [h.queue, hfree]; rfl
      simp [pushPending, hnone, maxPendingRequestsPerStream]
    · rw [pushPending, Function.update_of_ne heq]
      dsimp only
      rw [hold k' heq]
      exact h.queue k'
  case waiting_stream =>
    intro k' q hq
    by_cases heq : k' = k
    · subst heq
      obtain rfl : c = q := by simpa using hq
      exact ⟨hk, by simp⟩
    · obtain ⟨hstream, hmem⟩ := h.waiting_stream k' q (by simpa [hold k' heq] using hq)
      exact ⟨hstream, mem_append_left _ hmem⟩
  case issued =>
    intro q hq
    rw [hseq]
    rcases mem_append.mp hq with hq | hq
    · exact (h.issued q hq).mono (Nat.le_succ _)
    · exact ⟨event, _, le_rfl, (mem_singleton.mp hq).trans hc⟩
  case waiting_inj =>
    intro k₁ k₂ q₁ h₁ q₂ h₂ hid
    by_cases heq₁ : k₁ = k <;> by_cases heq₂ : k₂ = k
    · rw [heq₁, heq₂]
    · -- a request taken before has another id than this one
      obtain rfl : c = q₁ := by simpa [heq₁] using h₁
      have hmem := (h.waiting_stream k₂ q₂ (by simpa [hold k₂ heq₂] using h₂)).2
      exact absurd hid.symm (hne q₂ hmem)
    · obtain rfl : c = q₂ := by simpa [heq₂] using h₂
      have hmem := (h.waiting_stream k₁ q₁ (by simpa [hold k₁ heq₁] using h₁)).2
      exact absurd hid (hne q₁ hmem)
    · exact h.waiting_inj k₁ k₂ q₁ (by simpa [hold k₁ heq₁] using h₁) q₂
        (by simpa [hold k₂ heq₂] using h₂) hid
  case exchanged =>
    intro q r hqr
    obtain ⟨hmem, hwait, hrow⟩ := h.exchanged q r hqr
    refine ⟨mem_append_left _ hmem, fun k' q' hq' => ?_, ?_⟩
    · by_cases heq : k' = k
      · obtain rfl : c = q' := by simpa [heq] using hq'
        exact hne q hmem
      · exact hwait k' q' (by simpa [hold k' heq] using hq')
    · rw [hcalls, Std.TreeMap.getElem?_insert]
      have : "llm-" ++ c.eventId ≠ "llm-" ++ q.eventId := by simpa using (hne q hmem).symm
      simpa [this] using hrow
  case settled =>
    intro q hq
    rcases mem_append.mp hq with hq | hq
    · refine (h.settled q hq).imp id fun hwait => ?_
      obtain ⟨k', hk', hwait⟩ := Option.bind_eq_some_iff.mp hwait
      refine Option.bind_eq_some_iff.mpr ⟨k', hk', (hold k' ?_).trans hwait⟩
      rintro rfl
      rw [hfree] at hwait
      cases hwait
    · obtain rfl := mem_singleton.mp hq
      exact .inr (by simp [waitingFor, hk])
  case no_orphan =>
    intro id row hrow
    rw [hcalls, Std.TreeMap.getElem?_insert] at hrow
    split at hrow
    · next heq => exact ⟨c, by simp, by simpa using (Std.LawfulEqCmp.eq_of_compare heq).symm⟩
    · obtain ⟨q, hq, hid⟩ := h.no_orphan id row hrow
      exact ⟨q, mem_append_left _ hq, hid⟩

omit [ViewSink σ] in
/-- The response completes the row of the request its stream waits on. -/
theorem Paired.response (h : s.Paired) (hq : s.waiting k = some q)
    (hseq : view.nextSeq = s.view.nextSeq + 1)
    (hpending : view.pending = Function.update s.view.pending k none)
    (hcalls : view.llmCalls =
      s.view.llmCalls.insert ("llm-" ++ q.eventId) (pairRow q.toPending c)) :
    Paired
      { view
        waiting := Function.update s.waiting k none
        requests := s.requests
        exchanges := s.exchanges ++ [(q, c)] } := by
  obtain ⟨hqk, hqmem⟩ := h.waiting_stream k q hq
  -- What waits now waited before, on another stream.
  have hold k' q' (hq' : Function.update s.waiting k none k' = some q') :
      k' ≠ k ∧ s.waiting k' = some q' := by
    by_cases heq : k' = k
    · simp [heq] at hq'
    · exact ⟨heq, by simpa [heq] using hq'⟩
  have hother k' q'
      (hq' : Function.update s.waiting k none k' = some q') : q.eventId ≠ q'.eventId := by
    obtain ⟨hne, hq'⟩ := hold k' q' hq'
    exact fun hid => hne (h.waiting_inj k k' q hq q' hq' hid).symm
  constructor
  case queue =>
    intro k'
    rw [hpending]
    by_cases heq : k' = k
    · simp [heq]
    · simpa [heq] using h.queue k'
  case waiting_stream => exact fun k' q' hq' => h.waiting_stream k' q' (hold k' q' hq').2
  case issued =>
    intro q' hq'
    exact hseq ▸ (h.issued q' hq').mono (Nat.le_succ _)
  case waiting_inj =>
    exact fun k₁ k₂ q₁ h₁ q₂ h₂ => h.waiting_inj k₁ k₂ q₁ (hold k₁ q₁ h₁).2 q₂ (hold k₂ q₂ h₂).2
  case exchanged =>
    intro q' r hqr
    rw [hcalls, Std.TreeMap.getElem?_insert]
    rcases mem_append.mp hqr with hqr | hqr
    · obtain ⟨hmem, hwait, hrow⟩ := h.exchanged q' r hqr
      refine ⟨hmem, fun k' q'' hq'' => hwait k' q'' (hold k' q'' hq'').2, ?_⟩
      have : "llm-" ++ q.eventId ≠ "llm-" ++ q'.eventId := by simpa using (hwait k q hq).symm
      simpa [this] using hrow
    · cases mem_singleton.mp hqr
      exact ⟨hqmem, fun k' q'' hq'' => hother k' q'' hq'', by simp⟩
  case settled =>
    intro q' hq'
    by_cases heq : q' = q
    · exact .inl ⟨c, by simp [heq]⟩
    · rcases h.settled q' hq' with ⟨r, hr⟩ | hwait
      · exact .inl ⟨r, mem_append_left _ hr⟩
      · obtain ⟨k', hk', hwait⟩ := Option.bind_eq_some_iff.mp hwait
        refine .inr (Option.bind_eq_some_iff.mpr ⟨k', hk', ?_⟩)
        refine (Function.update_of_ne ?_ _ _).trans hwait
        rintro rfl
        exact heq (Option.some.inj (hwait.symm.trans hq))
  case no_orphan =>
    intro id row hrow
    rw [hcalls, Std.TreeMap.getElem?_insert] at hrow
    split at hrow
    · next heq => exact ⟨q, hqmem, (Std.LawfulEqCmp.eq_of_compare heq).symm⟩
    · exact h.no_orphan id row hrow

omit [ViewSink σ] in
/-- An event that leaves the LLM projection alone. -/
theorem Paired.neither (h : s.Paired)
    (hseq : view.nextSeq = s.view.nextSeq + 1) (hllm : view.llm.1 = s.view.llm.1) :
    Paired { s with view } := by
  have hpending : view.pending = s.view.pending := congrArg LlmState.pending hllm
  have hcalls : view.llmCalls = s.view.llmCalls := congrArg LlmState.llmCalls hllm
  exact
    { queue := fun k => (congrFun hpending k).trans (h.queue k)
      waiting_stream := h.waiting_stream
      issued := fun q hq => hseq ▸ (h.issued q hq).mono (Nat.le_succ _)
      waiting_inj := h.waiting_inj
      exchanged := fun q r hqr => by
        obtain ⟨hmem, hwait, hrow⟩ := h.exchanged q r hqr
        exact ⟨hmem, hwait, hcalls ▸ hrow⟩
      settled := h.settled
      no_orphan := fun id row hrow => h.no_orphan id row (hcalls ▸ hrow) }

/-- **One event** of a run that takes turns and is matched. -/
theorem Paired.step {s' : Dialogue σ} (h : s.Paired) (hturn : s.InTurn event)
    (hmatched : s.Matched event)
    (hsinks : ∀ (sink : σ) row, (ViewSink.receive sink row).1 = none)
    (hstep : s.step event = some s') : s'.Paired := by
  obtain ⟨heff, hseq⟩ := h.effect hmatched hsinks
  obtain ⟨hreqTurn, hrespTurn, -⟩ := hturn
  obtain ⟨haccept, -, hid⟩ := hmatched
  unfold Dialogue.step at hstep
  generalize hc : s.canonical event = c at *
  generalize (exec (ingestEvent event) s.view).2 = view at *
  -- An event that is neither a request nor answers one leaves the projection alone.
  have hquiet (hreq : ¬c.isRequest = true)
      (hresp : ¬(c.isResponse = true ∧ (s.waitingFor c).isSome = true)) :
      view.llm.1 = s.view.llm.1 := by
    refine effect_of_neither heff ?_ ?_
    · simp only [isRequest] at hreq
      simp [accepts, hreq]
    · rw [Bool.eq_false_iff]
      intro hans
      obtain ⟨-, hkind⟩ := (h.answers_iff c).mp hans
      refine hresp ⟨?_, ?_⟩
      · rcases hkind with hkind | hkind | hkind <;> simp [isResponse, hkind]
      · rcases hkind with hkind | hkind | hkind
        · exact hrespTurn (.inl hkind)
        · exact hrespTurn (.inr hkind)
        · exact hkind.2
  rcases hstream : c.stream with _ | k
  · simp only [hstream, Option.some.injEq] at hstep
    subst hstep
    refine h.neither hseq (hquiet (fun hreq => ?_) fun hresp => ?_)
    · simp [hstream] at hreqTurn
      simp [hreqTurn] at hreq
    · simp [waitingFor, hstream] at hresp
  · simp only [hstream] at hstep
    split at hstep
    · next hreq =>
      obtain rfl := Option.some.inj hstep
      have hfree : s.waiting k = none := by
        have := (hreqTurn hreq).2
        rwa [waitingFor, hstream] at this
      have heq := effect_of_request heff (haccept hreq) hstream
      exact h.request hc.symm hstream hfree hseq (congrArg LlmState.pending heq)
        (congrArg LlmState.llmCalls heq)
    · next hreq =>
      rcases hq : s.waiting k with _ | q
      · simp only [hq] at hstep
        obtain rfl := Option.some.inj hstep
        exact h.neither hseq (hquiet hreq (by simp [waitingFor, hstream, hq]))
      · simp only [hq] at hstep
        split at hstep
        · next hresp =>
          obtain rfl := Option.some.inj hstep
          have hwait : s.waitingFor c = some q := by simp [waitingFor, hstream, hq]
          obtain ⟨confidence, htake⟩ := h.take hstream hq (hid hresp q hwait)
          have hans : c.answers s.view.pending = true := by
            refine (h.answers_iff c).mpr ⟨?_, ?_⟩
            · rcases hp : c.pid with _ | pid
              · simp [stream, hp] at hstream
              · rfl
            · simpa [isResponse, hwait, or_assoc] using hresp
          have heq := effect_of_response heff hans htake
          exact h.response hq hseq (congrArg LlmState.pending heq) (congrArg LlmState.llmCalls heq)
        · next hresp =>
          obtain rfl := Option.some.inj hstep
          exact h.neither hseq (hquiet hreq fun hboth => hresp hboth.1)

end Dialogue

/-! ### Runs -/

open Dialogue

/-- **Sequential pairing.** In every run that takes turns and whose events are matched, every
request that has its response ends complete with it, and no orphan row exists. -/
theorem exchanges_complete (hsinks : ∀ (sink : σ) row, (ViewSink.receive sink row).1 = none)
    (sinks : List σ) (maxAuditEvents maxResourceSamples : Option ℕ)
    (mutations : Option Bridge.MutationEmitter) {s : Dialogue σ}
    (h : Reaches Dialogue.step (fun s event => s.InTurn event ∧ s.Matched event)
      (Dialogue.start sinks maxAuditEvents maxResourceSamples mutations) s) :
    s.Complete := by
  refine Paired.complete (h.invariant ?_ ?_)
  · constructor <;> simp [Dialogue.start, MaterializedView.new]
  · intro s event s' hs hok hstep
    exact hs.step hok.1 hok.2 hsinks hstep

end Run

/-! ### Two runs of one exchange -/

section Example

/-- A `serde_json` for runs whose only JSON text is one body. -/
@[reducible] def modelBodyOnly : External where
  fromStr text :=
    if text = "\x7b\"model\":\"m\"\x7d" then some (.object [("model", .string "m")]) else none
  valueToString _ := ""
  toVec _ := ""
  sha256Hex _ := ""
  parseF64 _ := none

local instance instModelBodyOnly : External := modelBodyOnly

/-- An HTTP message of one stream whose body names a model, with further fields. -/
def modelMessage (timestamp : ℕ) (fields : List (String × Json.Value)) : Event where
  timestamp
  source := "http_parser"
  pid := 1
  comm := "agent"
  data := .object ([("tid", .number (.posInt 7)), ("body", .string "\x7b\"model\":\"m\"\x7d")] ++
    fields)

def modelRequest : Event :=
  modelMessage 1000 [("message_type", .string "request"), ("path", .string "/v1/messages")]

/-- A response, with the response headers given. -/
def modelResponse (headers : List (String × Json.Value)) : Event :=
  modelMessage 2000 [("message_type", .string "response"), ("status_code", .number (.posInt 200)),
      ("headers", .object headers)]

open Dialogue

/-- A matched run with a finished exchange. -/
theorem exchanges_complete_of_plain_response :
    ∃ s : Dialogue NullSink, Reaches Dialogue.step (fun s event => s.InTurn event ∧ s.Matched event)
        (Dialogue.start [.null] none none none) s ∧ s.exchanges ≠ [] ∧ s.Complete := by
  obtain ⟨s, hs, hne⟩ := exists_reaches_of_run (Q := fun s => s.exchanges ≠ []) Dialogue.step
    (fun s event => s.InTurn event ∧ s.Matched event)
    (Dialogue.start [NullSink.null] none none none) [modelRequest, modelResponse []]
    (by decide +kernel)
  exact ⟨s, hs, hne, exchanges_complete (fun _ _ => rfl) _ _ _ _ hs⟩

/-- The response carries the `request-id` header its server put there and its request has no
id: the request waits for ever and the response gets an orphan row. -/
theorem response_id_orphans_exchange : ∃ s : Dialogue NullSink,
      Reaches Dialogue.step InTurn (Dialogue.start [.null] none none none) s ∧ ¬s.Complete := by
  obtain ⟨s, hs, horphan⟩ := exists_reaches_of_run
    (Q := fun s => (s.view.llmCalls["llm-orphan-canon-event-2000-http-parser-1-2"]?).isSome = true ∧
      ∀ q ∈ s.requests, "llm-orphan-canon-event-2000-http-parser-1-2" ≠ "llm-" ++ q.eventId)
    Dialogue.step InTurn (Dialogue.start [NullSink.null] none none none)
    [modelRequest, modelResponse [("request-id", .string "req_1")]] (by decide)
  refine ⟨s, hs, fun hcomplete => ?_⟩
  obtain ⟨row, hrow⟩ := Option.isSome_iff_exists.mp horphan.1
  obtain ⟨q, hq, hid⟩ := hcomplete.no_orphan _ row hrow
  exact horphan.2 q hq hid

end Example

end AgentSight.View
