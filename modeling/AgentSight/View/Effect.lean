import AgentSight.View.Emissions

/-!
# What an event does to the LLM projection

The LLM projection of a view is its pending requests and its call rows. Everything else an
event does goes through emissions that leave these two alone, so one case analysis,
`exec_ingestCanonical`, says all that an event can do to them; the results about requests and
responses use nothing else of the projection's code.
-/

namespace AgentSight.View

open Effectful CanonicalEvent MaterializedView LlmCallRow
open Std (TreeMap)

/-! ### Footprints of the emissions -/

/-- The part of a view that requests and responses are projected onto. -/
structure LlmState where
  pending : Pending
  llmCalls : TreeMap String LlmCallRow

section Footprint

variable {σ : Type} [ViewSink σ] [External]

/-- The LLM projection of a view, with the number of events it has taken. -/
def MaterializedView.llm (v : MaterializedView σ) : LlmState × ℕ :=
  (⟨v.pending, v.llmCalls⟩, v.nextSeq)

omit [ViewSink σ] [External] in
@[simp] theorem MaterializedView.observe_llm (v : MaterializedView σ) (t : Option ℕ) :
    (v.observe t).llm = v.llm := by
  rcases t with _ | t <;> rfl

omit [External] in
theorem keeps_emitRow {store : MaterializedView σ → MaterializedView σ} {row : Row}
    {emit : MaterializedView σ → Bridge.MutationEmitter → Bridge.MutationEmitter}
    (h : ∀ v, (store v).llm = v.llm) :
    Keeps MaterializedView.llm (emitRow store row emit) := fun v => h v

theorem keeps_emitTokenUsage (row : TokenUsageRow) :
    Keeps MaterializedView.llm (emitTokenUsage row : ViewM σ Unit) :=
  keeps_emitRow fun v => v.observe_llm _

theorem keeps_emitAuditEvent (row : AuditEventRow) :
    Keeps MaterializedView.llm (emitAuditEvent row : ViewM σ Unit) :=
  keeps_emitRow fun v => v.observe_llm _

theorem keeps_emitToolCall (row : ToolCallRow) :
    Keeps MaterializedView.llm (emitToolCall row : ViewM σ Unit) :=
  keeps_emitRow fun v => v.observe_llm _

omit [External] in
theorem keeps_emitResourceSample (row : ResourceSampleRow) :
    Keeps MaterializedView.llm (emitResourceSample row : ViewM σ Unit) :=
  keeps_emitRow fun v => v.observe_llm _

theorem keeps_emitProcessNode (row : ProcessNodeRow) :
    Keeps MaterializedView.llm (emitProcessNode row : ViewM σ Unit) := by
  refine keeps_emitRow fun v => ?_
  have hobs : ((v.observe row.startTimestampMs).observe row.endTimestampMs).llm = v.llm := by simp
  unfold upsertProcessNode
  dsimp only
  split <;> exact hobs

theorem keeps_emitNetworkTarget (row : NetworkTargetRow) :
    Keeps MaterializedView.llm (emitNetworkTarget row : ViewM σ Unit) := by
  refine keeps_emitRow fun v => ?_
  have hobs : ((v.observe row.firstTimestampMs).observe row.lastTimestampMs).llm = v.llm := by
    simp
  unfold upsertNetworkTarget
  dsimp only
  split <;> exact hobs

/-- The one emission that writes a call row. -/
theorem emitLlmCall_llm (row : LlmCallRow) (v : MaterializedView σ) :
    (exec (emitLlmCall row) v).2.llm = (⟨v.pending, v.llmCalls.insert row.id row⟩, v.nextSeq) := by
  -- Storing the row first observes its two timestamps.
  let v' := (v.observe (some row.startTimestampMs)).observe row.endTimestampMs
  have hobs : v'.llm = v.llm := by simp [v']
  simp only [llm, Prod.mk.injEq, LlmState.mk.injEq] at hobs
  obtain ⟨⟨hpending, hcalls⟩, hseq⟩ := hobs
  change (LlmState.mk v'.pending (v'.llmCalls.insert row.id row), v'.nextSeq) = _
  rw [hpending, hcalls, hseq]

/-- Only `emitLlmCall` and the bookkeeping of requests touch the LLM projection. -/
theorem emissions_keep_llm : Emissions fun _ (m : ViewM σ _) => Keeps MaterializedView.llm m where
  pure := Keeps.pure
  bind := Keeps.bind
  tokenUsage := keeps_emitTokenUsage
  auditEvent := keeps_emitAuditEvent
  processNode := keeps_emitProcessNode
  toolCall := keeps_emitToolCall
  networkTarget := keeps_emitNetworkTarget
  resourceSample := keeps_emitResourceSample
  processes h v := by
    obtain ⟨activeProcesses, hv⟩ := h v
    rw [exec_transact, hv]
    rfl

end Footprint

/-! ### The rows a response writes -/

section Rows

variable [External]

/-- A call row with the counts of a usage, unless the usage is empty. -/
def LlmCallRow.withTokens (row : LlmCallRow) (usage : TokenUsage) : LlmCallRow :=
  if usage.isEmpty then row
  else
    { row with
      inputTokens := usage.inputTokens
      outputTokens := usage.outputTokens
      totalTokens := usage.totalTokens }

/-- The row of a request with its response. -/
def pairRow (req : PendingRequest) (resp : CanonicalEvent) : LlmCallRow :=
  let body := responseBodyJson resp
  (llmCallRow ("llm-" ++ req.eventId) req.timestampMs (some resp.timestampMs) req.pid req.comm
    (providerOr req.provider req.host)
    (some ((req.model.or ((body.bind extractModel).or resp.model)).getD "unknown"))
    req.host req.path resp.statusCode req.bodyJson body).withTokens (responseUsage resp body)

/-- The row of a response that no pending request was found for. -/
def orphanResponseRow (resp : CanonicalEvent) : LlmCallRow :=
  let body := responseBodyJson resp
  (llmCallRow ("llm-orphan-" ++ resp.eventId) resp.timestampMs (some resp.timestampMs)
    (resp.pid.getD 0) (resp.comm.getD "") (providerOr resp.provider resp.host)
    (some ((resp.model.or (body.bind extractModel)).getD "unknown")) resp.host resp.path
    resp.statusCode none body).withTokens (responseUsage resp body)

omit [External] in
@[simp] theorem LlmCallRow.withTokens_id (row : LlmCallRow) (usage : TokenUsage) :
    (row.withTokens usage).id = row.id := by
  unfold withTokens
  split <;> rfl

omit [External] in
@[simp] theorem LlmCallRow.withTokens_status (row : LlmCallRow) (usage : TokenUsage) :
    (row.withTokens usage).status = row.status := by
  unfold withTokens
  split <;> rfl

omit [External] in
@[simp] theorem LlmCallRow.withTokens_endTimestampMs (row : LlmCallRow) (usage : TokenUsage) :
    (row.withTokens usage).endTimestampMs = row.endTimestampMs := by
  unfold withTokens
  split <;> rfl

omit [External] in
@[simp] theorem LlmCallRow.withTokens_statusCode (row : LlmCallRow) (usage : TokenUsage) :
    (row.withTokens usage).statusCode = row.statusCode := by
  unfold withTokens
  split <;> rfl

variable (req : PendingRequest)

variable (resp : CanonicalEvent)

@[simp] theorem pairRow_id :
    (pairRow req resp).id = "llm-" ++ req.eventId := LlmCallRow.withTokens_id _ _

@[simp] theorem pairRow_status :
    (pairRow req resp).status = llmCallStatus (some resp.timestampMs) resp.statusCode :=
  LlmCallRow.withTokens_status _ _

@[simp] theorem pairRow_endTimestampMs :
    (pairRow req resp).endTimestampMs = some resp.timestampMs :=
  LlmCallRow.withTokens_endTimestampMs _ _

@[simp] theorem pairRow_statusCode :
    (pairRow req resp).statusCode = resp.statusCode := LlmCallRow.withTokens_statusCode _ _

@[simp] theorem orphanResponseRow_id :
    (orphanResponseRow resp).id = "llm-orphan-" ++ resp.eventId := LlmCallRow.withTokens_id _ _

end Rows

/-! ### The effect of an event -/

namespace CanonicalEvent

/-- The stream an event belongs to. -/
def stream (c : CanonicalEvent) : Option Stream :=
  c.pid.bind fun pid => c.tid.map fun tid => (pid, tid)

/-- The pending request an LLM request becomes. -/
def toPending [External] (c : CanonicalEvent) : PendingRequest :=
  pendingRequestOf c (c.pid.getD 0)

/-- Whether the event is an LLM request that the view takes: it belongs to a stream and has a
JSON body or a model. -/
def accepts [External] (c : CanonicalEvent) : Bool :=
  c.kind == .llmRequest && c.stream.isSome && ((bodyJson c.attributes).isSome || c.model.isSome)

/-- Whether the event is treated as a response while these requests are pending. -/
def answers (c : CanonicalEvent) (pending : Pending) : Bool :=
  c.pid.isSome && (c.kind == .llmResponse || c.kind == .llmError ||
      (c.kind == .httpResponse && hasPendingLlmRequest pending c))

/-- A request is not treated as a response. -/
theorem answers_of_accepts [External] (c : CanonicalEvent) {pending : Pending}
    (h : c.accepts = true) : c.answers pending = false := by
  have hkind : c.kind = .llmRequest := by
    simp only [accepts, Bool.and_eq_true, beq_iff_eq] at h
    exact h.1.1
  simp [answers, hkind]

theorem accepts_of_answers [External] (c : CanonicalEvent) {pending : Pending}
    (h : c.answers pending = true) : c.accepts = false := by
  by_contra hask
  simp [c.answers_of_accepts (by simpa using hask)] at h

end CanonicalEvent

section Effect

variable {σ : Type} [External]

/-- The pending request a response takes, if any. -/
def LlmState.take (l : LlmState) (c : CanonicalEvent) : Option (PendingRequest × ℚ × Pending) :=
  c.stream.bind fun k => takeMatchingRequest l.pending k c

/-- Everything an event can do to the LLM projection, with what `ingest` returns. A sink that
reports an error ends the event early, before or after its row is written. -/
inductive LlmEffect (c : CanonicalEvent) (l : LlmState) : Except String Unit → LlmState → Prop
  | ignored {r : Except String Unit}
      (h : r = .ok () → c.accepts = false ∧ c.answers l.pending = false) : LlmEffect c l r l
  | asked {k : Stream} (h : c.accepts = true) (hk : c.stream = some k) :
      LlmEffect c l (.ok ()) ⟨pushPending l.pending k c.toPending,
          l.llmCalls.insert ("llm-" ++ c.eventId) (orphanRequestRow c.toPending)⟩
  | askedUnqueued {e : String} (h : c.accepts = true) : LlmEffect c l (.error e)
        ⟨l.pending, l.llmCalls.insert ("llm-" ++ c.eventId) (orphanRequestRow c.toPending)⟩
  | paired {req : PendingRequest} {confidence : ℚ} {pending : Pending}
      {r : Except String Unit} (h : c.answers l.pending = true)
      (htake : l.take c = some (req, confidence, pending)) :
      LlmEffect c l r ⟨pending, l.llmCalls.insert ("llm-" ++ req.eventId) (pairRow req c)⟩
  | pairLost {req : PendingRequest} {confidence : ℚ} {pending : Pending} {e : String}
      (h : c.answers l.pending = true) (htake : l.take c = some (req, confidence, pending)) :
      LlmEffect c l (.error e) ⟨pending, l.llmCalls⟩
  | orphaned {r : Except String Unit} (h : c.answers l.pending = true) (htake : l.take c = none) :
      LlmEffect c l r
        ⟨l.pending, l.llmCalls.insert ("llm-orphan-" ++ c.eventId) (orphanResponseRow c)⟩

/-- The program does to the LLM projection what `c` can do to it, and takes no other event. -/
def Projects (c : CanonicalEvent) (m : ViewM σ Unit) : Prop := ∀ v : MaterializedView σ,
  LlmEffect c v.llm.1 (exec m v).1 (exec m v).2.llm.1 ∧ (exec m v).2.llm.2 = v.llm.2

variable {c : CanonicalEvent}

theorem Projects.after {α : Type} {m : ViewM σ α} {f : α → ViewM σ Unit}
    (hm : Keeps MaterializedView.llm m) (hf : ∀ a, Projects c (f a)) : Projects c (m >>= f) := by
  intro v
  have hkeep := hm v
  rcases hr : exec m v with ⟨e | a, v'⟩ <;> rw [hr] at hkeep <;> dsimp only at hkeep
  · rw [exec_bind_of_error hr, hkeep]
    exact ⟨.ignored (fun h => by cases h), rfl⟩
  · rw [exec_bind_of_ok hr]
    have := hf a v'
    rwa [hkeep] at this

/-- An event that neither asks nor answers may run any program that leaves the LLM projection
alone. -/
theorem Projects.of_keeps {m : ViewM σ Unit} (hm : Keeps MaterializedView.llm m)
    (hask : c.accepts = false) (hkind : c.kind ≠ .llmResponse ∧ c.kind ≠ .llmError ∧
      c.kind ≠ .httpResponse) : Projects c m := by
  intro v
  rw [hm v]
  refine ⟨.ignored fun _ => ⟨hask, ?_⟩, rfl⟩
  simp [answers, hkind]

variable [ViewSink σ]

/-- The program writes one call row, unless it ends early. -/
def Stores (row : LlmCallRow) (m : ViewM σ Unit) : Prop := ∀ v : MaterializedView σ,
  ((∃ e, (exec m v).1 = .error e) ∧ (exec m v).2.llm = v.llm) ∨
    (exec m v).2.llm = (⟨v.pending, v.llmCalls.insert row.id row⟩, v.nextSeq)

omit [External] [ViewSink σ] in
theorem Stores.after {α : Type} {row : LlmCallRow} {m : ViewM σ α} {f : α → ViewM σ Unit}
    (hm : Keeps MaterializedView.llm m)
    (hf : ∀ a, (∃ v v', exec m v = (.ok a, v')) → Stores row (f a)) :
    Stores row (m >>= f) := by
  intro v
  have hkeep := hm v
  rcases hr : exec m v with ⟨e | a, v'⟩ <;> rw [hr] at hkeep <;> dsimp only at hkeep
  · rw [exec_bind_of_error hr]
    exact .inl ⟨⟨e, rfl⟩, hkeep⟩
  · rw [exec_bind_of_ok hr]
    have hrest := hf a ⟨v, v', hr⟩ v'
    simp only [llm, Prod.mk.injEq, LlmState.mk.injEq] at hkeep
    obtain ⟨⟨hpending, hcalls⟩, hseq⟩ := hkeep
    rw [hpending, hcalls, hseq] at hrest
    refine hrest.imp (fun h => ⟨h.1, h.2.trans ?_⟩) id
    simp [llm, hpending, hcalls, hseq]

theorem stores_emitLlmCall (row : LlmCallRow) : Stores row (emitLlmCall row : ViewM σ Unit) :=
  fun v => .inr (emitLlmCall_llm row v)

theorem stores_insertOrphanLlmRequest (req : PendingRequest) :
    Stores (orphanRequestRow req) (insertOrphanLlmRequest req : ViewM σ Unit) :=
  .after (keeps_emitAuditEvent _) fun _ _ => stores_emitLlmCall _

/-- The usage row a response yields carries the counts of its usage into the call row. -/
theorem withUsage_of_exec {llmCallId : String} {pid : ℕ} {comm : String}
    {provider : Option String} {model : String} {body : Option Json.Value} {confidence : ℚ}
    {v v' : MaterializedView σ} {usage : Option TokenUsageRow}
    (h : exec (ingestResponseUsageAndTools c llmCallId pid comm provider model body confidence) v
      = (.ok usage, v')) (row : LlmCallRow) :
    row.withUsage usage = row.withTokens (responseUsage c body) := by
  unfold ingestResponseUsageAndTools at h
  dsimp only at h
  split at h
  · next hempty =>
    obtain ⟨_, _, _, hpure⟩ := exec_bind_eq_ok h
    obtain rfl : none = usage := by simpa using congrArg Prod.fst hpure
    simp [withTokens, withUsage, hempty]
  · next hempty =>
    obtain ⟨_, _, _, hrest⟩ := exec_bind_eq_ok h
    obtain ⟨_, _, _, hpure⟩ := exec_bind_eq_ok hrest
    obtain rfl := Except.ok.inj (congrArg Prod.fst hpure)
    simp only [withTokens, if_neg hempty]
    rfl

theorem stores_upsertLlmPair (req : PendingRequest) (confidence : ℚ) :
    Stores (pairRow req c) (upsertLlmPair req c confidence : ViewM σ Unit) := by
  refine .after (emissions_keep_llm.ingestResponseUsageAndTools _ _ _ _ _ _ _ _)
    fun usage ⟨_, _, h⟩ => ?_
  refine .after (keeps_emitAuditEvent _) fun _ _ => ?_
  rw [withUsage_of_exec h]
  exact stores_emitLlmCall _

theorem stores_insertOrphanLlmResponse :
    Stores (orphanResponseRow c) (insertOrphanLlmResponse c : ViewM σ Unit) := by
  refine .after (emissions_keep_llm.ingestResponseUsageAndTools _ _ _ _ _ _ _ _)
    fun usage ⟨_, _, h⟩ => ?_
  refine .after (keeps_emitAuditEvent _) fun _ _ => ?_
  rw [withUsage_of_exec h]
  exact stores_emitLlmCall _

/-- A request that ends well was stored and queued. -/
theorem projects_ingestLlmRequest (hkind : c.kind = .llmRequest) :
    Projects c (ingestLlmRequest c : ViewM σ Unit) := by
  have hanswers l : c.answers l = false := by
    simp [answers, hkind]
  intro v
  unfold ingestLlmRequest
  split
  · next pid tid hpid htid =>
    have hstream : c.stream = some (pid, tid) := by simp [stream, hpid, htid]
    have hreq : pendingRequestOf c pid = c.toPending := by
      simp [toPending, hpid]
    -- a request with neither body nor model is not accepted
    have hbody : (c.toPending.bodyJson.isNone && c.toPending.model.isNone) = !c.accepts := by
      simp [toPending, pendingRequestOf, accepts, hkind, hstream]
    simp only [hreq, hbody]
    split
    · next hnot => exact ⟨.ignored fun _ => ⟨by simpa using hnot, hanswers _⟩, rfl⟩
    · next hnot =>
      have haccepts : c.accepts = true := by simpa using hnot
      have hstored := stores_insertOrphanLlmRequest (σ := σ) c.toPending v
      rcases hr : exec (insertOrphanLlmRequest c.toPending) v with ⟨e | u, v'⟩ <;>
        rw [hr] at hstored
      · rw [exec_bind_of_error hr]
        rcases hstored with ⟨-, hkept⟩ | hstored
        · exact ⟨hkept ▸ .ignored (fun h => by cases h), (congrArg Prod.snd hkept :)⟩
        · exact ⟨hstored ▸ .askedUnqueued haccepts, (congrArg Prod.snd hstored :)⟩
      · rw [exec_bind_of_ok hr, exec_update]
        rcases hstored with ⟨⟨e, he⟩, -⟩ | hstored
        · cases he
        · simp only [llm, Prod.mk.injEq, LlmState.mk.injEq] at hstored
          obtain ⟨⟨hpending, hcalls⟩, hseq⟩ := hstored
          refine ⟨?_, hseq⟩
          simp only [llm, hpending, hcalls]
          exact .asked haccepts hstream
  · next hnone =>
    refine ⟨.ignored fun _ => ⟨?_, hanswers _⟩, rfl⟩
    rcases hp : c.pid with _ | pid
    · simp [accepts, stream, hp]
    · rcases ht : c.tid with _ | tid
      · simp [accepts, stream, hp, ht]
      · exact absurd ht (hnone pid tid hp)

/-- A response takes the request it matches, whose row it completes, or else gets a row of its
own. -/
theorem ingestLlmResponse_effect {v : MaterializedView σ} (h : c.answers v.pending = true) :
    LlmEffect c v.llm.1 (exec (ingestLlmResponse c) v).1 (exec (ingestLlmResponse c) v).2.llm.1 ∧
      (exec (ingestLlmResponse c) v).2.llm.2 = v.llm.2 := by
  unfold ingestLlmResponse
  split
  · next hpid => simp [answers, hpid] at h
  · next pid hpid =>
    have hmatch : (c.tid.bind fun tid => takeMatchingRequest v.pending (pid, tid) c) =
        v.llm.1.take c := by
      rcases htid : c.tid <;>
        simp [LlmState.take, stream, llm, hpid, htid]
    rcases htake : v.llm.1.take c with _ | ⟨req, confidence, pending⟩
    · -- nothing matches: no stream, no queue, or no request in it
      simp only [exec_transact_bind, hmatch, htake]
      rcases stores_insertOrphanLlmResponse (c := c) v with ⟨⟨e, he⟩, hkept⟩ | hstored
      · exact ⟨by rw [hkept, he]; exact .ignored (fun h => by cases h), by rw [hkept]⟩
      · refine ⟨?_, by rw [hstored]; rfl⟩
        rw [hstored]
        exact orphanResponseRow_id c ▸ .orphaned h htake
    · simp only [exec_transact_bind, hmatch, htake]
      rcases stores_upsertLlmPair (c := c) req confidence { v with pending } with
        ⟨⟨e, he⟩, hkept⟩ | hstored
      · refine ⟨?_, by rw [hkept]; rfl⟩
        rw [hkept, he]
        exact .pairLost h htake
      · refine ⟨?_, by rw [hstored]; rfl⟩
        rw [hstored]
        exact pairRow_id req c ▸ .paired h htake

theorem ingestByKind_effect (v : MaterializedView σ) :
    LlmEffect c v.llm.1 (exec (ingestByKind c v.pending) v).1
        (exec (ingestByKind c v.pending) v).2.llm.1 ∧
      (exec (ingestByKind c v.pending) v).2.llm.2 = v.llm.2 := by
  have hask (h : c.kind ≠ .llmRequest) : c.accepts = false := by
    simp [accepts, h]
  have hpid (h : c.kind = .llmResponse ∨ c.kind = .llmError) (hnot : ¬c.answers v.pending = true) :
      c.pid = none := by
    rcases h with h | h <;> simpa [answers, h] using hnot
  -- the kinds that touch no call
  have hquiet (hkind : c.kind ≠ .llmRequest) (hkind' : c.kind ≠ .llmResponse ∧
      c.kind ≠ .llmError ∧ c.kind ≠ .httpResponse) {m : ViewM σ Unit}
      (hm : Keeps MaterializedView.llm m) := Projects.of_keeps hm (hask hkind) hkind' v
  have hfile : Keeps MaterializedView.llm (ingestFileAudit c : ViewM σ Unit) :=
    keeps_emitAuditEvent _
  have hresp (h : c.kind = .llmResponse ∨ c.kind = .llmError) :
      LlmEffect c v.llm.1 (exec (ingestLlmResponse c) v).1
        (exec (ingestLlmResponse c) v).2.llm.1 ∧
      (exec (ingestLlmResponse c) v).2.llm.2 = v.llm.2 := by
    by_cases ha : c.answers v.pending = true
    · exact ingestLlmResponse_effect ha
    · have hnone := hpid h ha
      simp only [ingestLlmResponse, hnone]
      refine ⟨.ignored fun _ => ⟨hask ?_, Bool.eq_false_iff.mpr ha⟩, rfl⟩
      rcases h with h | h <;> simp [h]
  unfold ingestByKind
  rcases hkind : c.kind <;> dsimp only
  case llmRequest => exact projects_ingestLlmRequest hkind v
  case llmResponse => exact hresp (.inl hkind)
  case llmError => exact hresp (.inr hkind)
  case httpResponse =>
    split
    · next hp =>
      refine ingestLlmResponse_effect ?_
      have : c.pid.isSome := by
        rcases h : c.pid with _ | pid
        · simp [hasPendingLlmRequest, h] at hp
        · rfl
      simp [answers, hkind, this, hp]
    · next hp =>
      refine ⟨.ignored fun _ => ⟨hask (by simp [hkind]), ?_⟩, rfl⟩
      have hp' : hasPendingLlmRequest v.llm.1.pending c = false := Bool.eq_false_iff.mpr hp
      simp [answers, hkind, hp']
  case processExec | processExit =>
    exact hquiet (by simp [hkind]) (by simp [hkind]) (emissions_keep_llm.ingestProcessAudit _ _)
  case fsOpen =>
    refine hquiet (by simp [hkind]) (by simp [hkind]) ?_
    split
    · exact hfile
    · exact Keeps.pure _
  case fsWrite | fsMutation => exact hquiet (by simp [hkind]) (by simp [hkind]) hfile
  case unknown =>
    refine hquiet (by simp [hkind]) (by simp [hkind]) ?_
    split
    · exact hfile
    · split
      · exact keeps_emitAuditEvent _
      · exact Keeps.pure _
  all_goals exact hquiet (by simp [hkind]) (by simp [hkind]) (Keeps.pure _)

/-- **The effect of an event.** After the event's pruning, one of the cases of `LlmEffect`. -/
theorem exec_ingestCanonical (c : CanonicalEvent) (v : MaterializedView σ) :
    LlmEffect c ⟨prunePending v.pending c.timestampMs, v.llmCalls⟩
        (exec (ingestCanonical c) v).1 (exec (ingestCanonical c) v).2.llm.1 ∧
      (exec (ingestCanonical c) v).2.nextSeq = v.nextSeq := by
  unfold ingestCanonical
  rw [exec_update_bind]
  have hingest : Projects c (ingest c : ViewM σ Unit) := by
    refine Projects.after (emissions_keep_llm.ingestAgentSpecificEvent c) fun _ v => ?_
    exact ingestByKind_effect v
  exact Projects.after (emissions_keep_llm.emitSampleOf c)
    (fun _ => Projects.after (emissions_keep_llm.emitTargetOf c) fun _ => hingest)
    { v with pending := prunePending v.pending c.timestampMs }

/-- The same for a captured event, which also takes the next sequence number. -/
theorem exec_ingestEvent (event : Event) (v : MaterializedView σ) :
    LlmEffect (canonicalAt event (v.nextSeq + 1))
        ⟨prunePending v.pending event.timestamp, v.llmCalls⟩
        (exec (ingestEvent event) v).1 (exec (ingestEvent event) v).2.llm.1 ∧
      (exec (ingestEvent event) v).2.nextSeq = v.nextSeq + 1 := by
  unfold ingestEvent
  rw [exec_transact_bind]
  exact exec_ingestCanonical _ { v with nextSeq := v.nextSeq + 1 }

end Effect

end AgentSight.View
