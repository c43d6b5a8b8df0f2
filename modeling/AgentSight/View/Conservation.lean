import AgentSight.View.Effect

/-!
# Conservation of requests and responses

The abstract account of the call table: every row is a call that waits for its response, a
call that was answered, or a response without a request. `llm_calls_conserved` says that after
every sequence of events such an account exists in which each accepted request and each
ingested response has exactly one row, and that the pending queues hold only calls that
wait.
-/

namespace AgentSight.View

open Effectful List Option

variable {c : CanonicalEvent} {e : Event}

/-! ### Event ids -/

section EventIds

variable [External]

/-- An event id determines the sequence number of its event. -/
theorem canonicalAt_eventId_injective {e' : Event} {n n' : ℕ}
    (h : (canonicalAt e n).eventId = (canonicalAt e' n').eventId) : n = n' := by
  simp only [canonicalAt, normalizeEvent_eventId, rawEventId, String.append_right_inj] at h
  exact Str.numbered_injective h

/-- The event was taken by a view that has taken `n` events. -/
def Issued (n : ℕ) (c : CanonicalEvent) : Prop := ∃ e k, k ≤ n ∧ c = canonicalAt e k

theorem Issued.mono {m n : ℕ} (h : Issued m c) (hmn : m ≤ n) : Issued n c := by
  obtain ⟨e, k, hk, rfl⟩ := h
  exact ⟨e, k, hk.trans hmn, rfl⟩

theorem Issued.eventId_ne {n : ℕ} (h : Issued n c) (e : Event) :
    c.eventId ≠ (canonicalAt e (n + 1)).eventId := by
  obtain ⟨e', k, hk, rfl⟩ := h
  intro heq
  have := canonicalAt_eventId_injective heq
  omega

/-- The row ids of requests and of orphaned responses never meet. -/
theorem requestRowId_ne_orphanRowId (e : Event) (n : ℕ) (id : String) :
    "llm-" ++ (canonicalAt e n).eventId ≠ "llm-orphan-" ++ id := by
  intro h
  have h := congrArg String.toList h
  simp [canonicalAt] at h

end EventIds

/-! ### What a response takes -/

variable {req : PendingRequest} {confidence : ℚ}

theorem takeFrom_perm {requests rest : List PendingRequest} {id : Option String}
    (h : takeFrom requests id = some (req, confidence, rest)) :
    requests.Perm (req :: rest) ∧ rest.Sublist requests := by
  -- Both ways that search the queue take one position out of it.
  have hpos {pos : ℕ} (hreq : requests[pos]? = some req) :
      requests.Perm (req :: requests.eraseIdx pos) ∧ (requests.eraseIdx pos).Sublist requests := by
    obtain ⟨hlt, rfl⟩ := List.getElem?_eq_some_iff.mp hreq
    exact ⟨(getElem_cons_eraseIdx_perm hlt).symm, eraseIdx_sublist ..⟩
  unfold takeFrom at h
  split at h
  · obtain ⟨pos, -, h⟩ := bind_eq_some_iff.mp h
    obtain ⟨req', hreq, h⟩ := bind_eq_some_iff.mp h
    cases h
    exact hpos hreq
  · split at h
    · cases h
      simp
    · obtain ⟨pos, -, h⟩ := bind_eq_some_iff.mp h
      obtain ⟨req', hreq, h⟩ := bind_eq_some_iff.mp h
      split at h
      · cases h
      · cases h
        exact hpos hreq

variable {pending : Pending}

/-- A response takes one request out of the queue of its own stream. -/
theorem LlmState.take_spec {l : LlmState} (h : l.take c = some (req, confidence, pending)) :
    ∃ k requests rest, c.stream = some k ∧ l.pending k = some requests ∧
      requests.Perm (req :: rest) ∧ rest.Sublist requests ∧
      ∀ k' requests', pending k' = some requests' →
        (k' = k ∧ requests' = rest) ∨ (k' ≠ k ∧ l.pending k' = some requests') := by
  obtain ⟨k, hk, h⟩ := bind_eq_some_iff.mp h
  obtain ⟨requests, hrequests, h⟩ := bind_eq_some_iff.mp h
  obtain ⟨⟨req', confidence', rest⟩, htake, h⟩ := bind_eq_some_iff.mp h
  cases h
  refine ⟨k, requests, rest, hk, hrequests, (takeFrom_perm htake).1, (takeFrom_perm htake).2,
    fun k' requests' hk' => ?_⟩
  by_cases heq : k' = k
  · by_cases hempty : rest.isEmpty = true
    · simp [heq, hempty] at hk'
    · simpa [heq, hempty] using hk'.symm
  · exact .inr ⟨heq, by simpa [heq] using hk'⟩

/-! ### Calls -/

/-- What a row of the call table accounts for. -/
inductive Call where
  | waiting (req : CanonicalEvent)
  | answered (req resp : CanonicalEvent)
  | orphaned (resp : CanonicalEvent)

namespace Call

def request : Call → Option CanonicalEvent
  | waiting req | answered req _ => some req
  | orphaned _ => none

def response : Call → Option CanonicalEvent
  | waiting _ => none
  | answered _ resp | orphaned resp => some resp

def rowId : Call → String
  | waiting req | answered req _ => "llm-" ++ req.eventId
  | orphaned resp => "llm-orphan-" ++ resp.eventId

def row [External] : Call → LlmCallRow
  | waiting req => orphanRequestRow req.toPending
  | answered req resp => pairRow req.toPending resp
  | orphaned resp => orphanResponseRow resp

theorem rowId_of_request {call : Call} {req : CanonicalEvent} (h : call.request = some req) :
    call.rowId = "llm-" ++ req.eventId := by
  rcases call with _ | _ | _ <;> simp_all [request, rowId]

end Call

/-- The calls of a view, by row id. -/
abbrev Calls := String → Option Call

/-- From one account to a later one a call never changes, except that one that waits may be
answered. -/
def Calls.Settle (calls calls' : Calls) : Prop := ∀ id call, calls id = some call →
  calls' id = some call ∨ ∃ req resp, call = .waiting req ∧ calls' id = some (.answered req resp)

variable {id : String}

namespace Calls.Settle

variable {calls calls' calls'' : Calls}

theorem refl (calls : Calls) : calls.Settle calls := fun _ _ h => .inl h

theorem trans (h : calls.Settle calls') (h' : calls'.Settle calls'') : calls.Settle calls'' := by
  intro id call hcall
  rcases h id call hcall with hcall' | ⟨req, resp, rfl, hcall'⟩
  · exact h' id call hcall'
  · rcases h' id _ hcall' with hcall'' | ⟨_, _, hwait, -⟩
    · exact .inr ⟨req, resp, rfl, hcall''⟩
    · cases hwait

/-- A call at a new row changes no other. -/
theorem insert (hnew : calls id = none) (call : Call) :
    calls.Settle (Function.update calls id (some call)) := by
  intro id' call' hcall
  refine .inl ?_
  rw [Function.update_of_ne, hcall]
  rintro rfl
  rw [hnew] at hcall
  cases hcall

/-- A call that waits may be answered. -/
theorem answer {req : CanonicalEvent} (hwait : calls id = some (.waiting req))
    (resp : CanonicalEvent) :
    calls.Settle (Function.update calls id (some (.answered req resp))) := by
  intro id' call' hcall
  by_cases heq : id' = id
  · subst heq
    obtain rfl := some.inj (hwait.symm.trans hcall)
    exact .inr ⟨req, resp, rfl, by simp⟩
  · exact .inl (by simpa [heq] using hcall)

end Calls.Settle

section Run

variable {σ : Type} [ViewSink σ] [External]

/-- A view with the requests it has accepted and the responses it has ingested so far. An
event counts when `ingest_event` returned `Ok` for it. -/
structure Ingestion (σ : Type) where
  view : MaterializedView σ
  accepted : List CanonicalEvent
  answered : List CanonicalEvent

namespace Ingestion

/-- A view that has taken no event yet, with any sinks, bounds and bridge emitter. -/
def start (sinks : List σ) (maxAuditEvents maxResourceSamples : Option ℕ)
    (mutations : Option Bridge.MutationEmitter) : Ingestion σ where
  view := { MaterializedView.new sinks with maxAuditEvents, maxResourceSamples, mutations }
  accepted := []
  answered := []

/-- The canonical form of an event the view takes next. -/
def canonical (s : Ingestion σ) (event : Event) : CanonicalEvent :=
  canonicalAt event (s.view.nextSeq + 1)

/-- The requests that still wait when the event is looked at. -/
def waitingAt (s : Ingestion σ) (event : Event) : Pending :=
  prunePending s.view.pending event.timestamp

def step (s : Ingestion σ) (event : Event) : Ingestion σ :=
  let (result, view) := exec (ingestEvent event) s.view
  let c := s.canonical event
  { view
    accepted := if result.isOk && c.accepts then s.accepted ++ [c] else s.accepted
    answered :=
      if result.isOk && c.answers (s.waitingAt event) then s.answered ++ [c] else s.answered }

/-- The state after a sequence of events. -/
def after (s : Ingestion σ) (events : List Event) : Ingestion σ := events.foldl step s

end Ingestion

/-! ### The account of a view -/

/-- `calls` accounts for the call table of a view: each accepted request and each ingested
response is in exactly one row, and what is pending still waits. -/
structure Accounts (calls : Calls) (s : Ingestion σ) : Prop where
  /-- The table holds the row of each call, and nothing else. -/
  row (id : String) : s.view.llmCalls[id]? = (calls id).map Call.row
  rowId (id : String) (call : Call) : calls id = some call → call.rowId = id
  request : ∀ req ∈ s.accepted, ∃! id, (calls id).bind Call.request = some req
  response : ∀ resp ∈ s.answered, ∃! id, (calls id).bind Call.response = some resp
  /-- A request is answered by a response of its own stream. -/
  stream (id : String) (req resp : CanonicalEvent) :
    calls id = some (.answered req resp) → req.stream = resp.stream
  capped (k : Stream) (requests : List PendingRequest) :
    s.view.pending k = some requests → requests.length ≤ maxPendingRequestsPerStream
  /-- A pending entry is a call of its stream that waits, and its row says so. -/
  pending (k : Stream) (requests : List PendingRequest) (req : PendingRequest) :
    s.view.pending k = some requests → req ∈ requests →
      ∃ c row, calls ("llm-" ++ req.eventId) = some (.waiting c) ∧ c.toPending = req ∧
        c.stream = some k ∧ s.view.llmCalls["llm-" ++ req.eventId]? = some row ∧
        row.status = "pending"

/-- What is preserved from event to event. Uniqueness rests on two facts besides: every
event in a call was issued, and a queue never holds one request twice. -/
structure Ledger (calls : Calls) (l : LlmState) (issued : ℕ)
    (accepted answered : List CanonicalEvent) : Prop where
  row (id : String) : l.llmCalls[id]? = (calls id).map Call.row
  rowId (id : String) (call : Call) : calls id = some call → call.rowId = id
  issuedRequest (id : String) (c : CanonicalEvent) :
    (calls id).bind Call.request = some c → Issued issued c
  issuedResponse (id : String) (c : CanonicalEvent) :
    (calls id).bind Call.response = some c → Issued issued c
  response_unique (id id' : String) (c : CanonicalEvent) :
    (calls id).bind Call.response = some c → (calls id').bind Call.response = some c → id = id'
  stream (id : String) (req resp : CanonicalEvent) :
    calls id = some (.answered req resp) → req.stream = resp.stream
  accepted_mem : ∀ req ∈ accepted, (calls ("llm-" ++ req.eventId)).bind Call.request = some req
  answered_mem : ∀ resp ∈ answered, ∃ id, (calls id).bind Call.response = some resp
  capped (k : Stream) (requests : List PendingRequest) :
    l.pending k = some requests → requests.length ≤ maxPendingRequestsPerStream
  waiting (k : Stream) (requests : List PendingRequest) (req : PendingRequest) :
    l.pending k = some requests → req ∈ requests →
      ∃ c, calls ("llm-" ++ req.eventId) = some (.waiting c) ∧ c.toPending = req ∧ c.stream = some k
  nodup (k : Stream) (requests : List PendingRequest) :
    l.pending k = some requests → (requests.map (·.eventId)).Nodup

namespace Ledger

variable {calls : Calls} {l : LlmState} {n : ℕ} {accepted answered : List CanonicalEvent}

omit [ViewSink σ] in
theorem accounts {s : Ingestion σ}
    (h : Ledger calls s.view.llm.1 n s.accepted s.answered) : Accounts calls s where
  row := h.row
  rowId := h.rowId
  request req hreq := by
    refine ⟨_, h.accepted_mem req hreq, fun id hid => ?_⟩
    obtain ⟨call, hcall, hreq'⟩ := bind_eq_some_iff.mp hid
    rw [← h.rowId id call hcall, Call.rowId_of_request hreq']
  response resp hresp := by
    obtain ⟨id, hid⟩ := h.answered_mem resp hresp
    exact ⟨id, hid, fun id' hid' => h.response_unique id' id resp hid' hid⟩
  stream := h.stream
  capped := h.capped
  pending k requests req hk hreq := by
    obtain ⟨c, hcall, hc, hstream⟩ := h.waiting k requests req hk hreq
    exact ⟨c, _, hcall, hc, hstream, (h.row _).trans (by rw [hcall]; rfl), rfl⟩

section

variable (h : Ledger calls l n accepted answered)
include h

/-- Queues may lose entries. -/
theorem shrink
    (hsub : ∀ k requests, pending k = some requests →
      ∃ requests', l.pending k = some requests' ∧ requests.Sublist requests') :
    Ledger calls ⟨pending, l.llmCalls⟩ n accepted answered where
  row := h.row
  rowId := h.rowId
  issuedRequest := h.issuedRequest
  issuedResponse := h.issuedResponse
  response_unique := h.response_unique
  stream := h.stream
  accepted_mem := h.accepted_mem
  answered_mem := h.answered_mem
  capped k requests hk := by
    obtain ⟨requests', hk', hs⟩ := hsub k requests hk
    exact hs.length_le.trans (h.capped k requests' hk')
  waiting k requests req hk hreq := by
    obtain ⟨requests', hk', hs⟩ := hsub k requests hk
    exact h.waiting k requests' req hk' (hs.subset hreq)
  nodup k requests hk := by
    obtain ⟨requests', hk', hs⟩ := hsub k requests hk
    exact (h.nodup k requests' hk').sublist (hs.map _)

/-- A request that was taken leaves its queue. -/
theorem release
    (htake : l.take c = some (req, confidence, pending)) :
    Ledger calls ⟨pending, l.llmCalls⟩ n accepted answered := by
  obtain ⟨k, requests, rest, -, hrequests, -, hsub, hleft⟩ := LlmState.take_spec htake
  refine h.shrink fun k' requests' hk' => ?_
  rcases hleft k' requests' hk' with ⟨rfl, rfl⟩ | ⟨-, hk'⟩
  · exact ⟨requests, hrequests, hsub⟩
  · exact ⟨requests', hk', .refl _⟩

theorem prune (now : ℕ) :
    Ledger calls ⟨prunePending l.pending now, l.llmCalls⟩ n accepted answered := by
  refine h.shrink fun k requests hk => ?_
  obtain ⟨requests', hk', h⟩ := bind_eq_some_iff.mp hk
  dsimp only at h
  split at h
  · cases h
  · cases h
    exact ⟨requests', hk', dropWhile_sublist _⟩

theorem issue {m : ℕ} (hnm : n ≤ m) :
    Ledger calls l m accepted answered :=
  { h with
    issuedRequest := fun id c hc => (h.issuedRequest id c hc).mono hnm
    issuedResponse := fun id c hc => (h.issuedResponse id c hc).mono hnm }

/-- Write the row of a call: a new one, or the answer to a call that waits at that row and in
no queue. -/
theorem record (call : Call)
    (hid : call.rowId = id) (hreq : ∀ c, call.request = some c → Issued n c)
    (hresp : ∀ c, call.response = some c →
      Issued n c ∧ ∀ id', (calls id').bind Call.response ≠ some c)
    (hstream : ∀ req resp, call = .answered req resp → req.stream = resp.stream)
    (hkeep : ∀ c, (calls id).bind Call.request = some c → call.request = some c)
    (hfree : (calls id).bind Call.response = none)
    (hgone : ∀ k requests req, l.pending k = some requests → req ∈ requests →
      "llm-" ++ req.eventId ≠ id) :
    Ledger (Function.update calls id (some call)) ⟨l.pending, l.llmCalls.insert id call.row⟩ n
      accepted answered where
  row id' := by
    rw [Std.TreeMap.getElem?_insert]
    by_cases heq : id' = id
    · simp [heq]
    · simpa [heq, Ne.symm heq] using h.row id'
  rowId id' call' hcall := by
    by_cases heq : id' = id
    · subst heq
      obtain rfl : call = call' := by simpa using hcall
      exact hid
    · exact h.rowId id' call' (by simpa [heq] using hcall)
  issuedRequest id' c hc := by
    by_cases heq : id' = id
    · exact hreq c (by simpa [heq] using hc)
    · exact h.issuedRequest id' c (by simpa [heq] using hc)
  issuedResponse id' c hc := by
    by_cases heq : id' = id
    · exact (hresp c (by simpa [heq] using hc)).1
    · exact h.issuedResponse id' c (by simpa [heq] using hc)
  response_unique id₁ id₂ c h₁ h₂ := by
    by_cases heq₁ : id₁ = id <;> by_cases heq₂ : id₂ = id
    · rw [heq₁, heq₂]
    · -- the new response is in no other row
      exact absurd (by simpa [heq₂] using h₂) ((hresp c (by simpa [heq₁] using h₁)).2 id₂)
    · exact absurd (by simpa [heq₁] using h₁) ((hresp c (by simpa [heq₂] using h₂)).2 id₁)
    · exact h.response_unique id₁ id₂ c (by simpa [heq₁] using h₁) (by simpa [heq₂] using h₂)
  stream id' req resp hcall := by
    by_cases heq : id' = id
    · exact hstream req resp (by simpa [heq] using hcall)
    · exact h.stream id' req resp (by simpa [heq] using hcall)
  accepted_mem req hmem := by
    have hold := h.accepted_mem req hmem
    by_cases heq : "llm-" ++ req.eventId = id
    · rw [heq] at hold
      simpa [heq] using hkeep req hold
    · simpa [heq] using hold
  answered_mem resp hmem := by
    obtain ⟨id', hid'⟩ := h.answered_mem resp hmem
    refine ⟨id', ?_⟩
    rw [Function.update_of_ne, hid']
    rintro rfl
    rw [hfree] at hid'
    cases hid'
  capped := h.capped
  waiting k requests req hk hmem := by
    rw [Function.update_of_ne (hgone k requests req hk hmem)]
    exact h.waiting k requests req hk hmem
  nodup := h.nodup

/-- Queue a call that waits and is in no queue yet. -/
theorem enqueue {k : Stream}
    (hcall : calls ("llm-" ++ c.eventId) = some (.waiting c)) (hk : c.stream = some k)
    (hnew : ∀ k requests req, l.pending k = some requests → req ∈ requests →
      req.eventId ≠ c.eventId) :
    Ledger calls ⟨pushPending l.pending k c.toPending, l.llmCalls⟩ n accepted answered := by
  -- A queue after the push is an old queue or the end of the pushed one.
  have hqueue k' requests (hk' : pushPending l.pending k c.toPending k' = some requests) :
      l.pending k' = some requests ∨ k' = k ∧ requests.length ≤ maxPendingRequestsPerStream ∧
        requests.Sublist ((l.pending k).getD [] ++ [c.toPending]) := by
    by_cases heq : k' = k
    · refine .inr ⟨heq, ?_⟩
      obtain rfl := by simpa [pushPending, heq] using hk'
      exact ⟨by simp only [length_drop, length_append, length_singleton]; omega,
        drop_sublist ..⟩
    · exact .inl (by simpa [pushPending, heq] using hk')
  have hold req (hreq : req ∈ (l.pending k).getD []) :
      ∃ requests, l.pending k = some requests ∧ req ∈ requests := by
    rcases hp : l.pending k with _ | requests
    · simp [hp] at hreq
    · exact ⟨requests, rfl, by simpa [hp] using hreq⟩
  refine { h with capped := ?_, waiting := ?_, nodup := ?_ }
  · intro k' requests hk'
    rcases hqueue k' requests hk' with hk' | ⟨-, hlen, -⟩
    · exact h.capped k' requests hk'
    · exact hlen
  · intro k' requests req hk' hreq
    rcases hqueue k' requests hk' with hk' | ⟨rfl, -, hsub⟩
    · exact h.waiting k' requests req hk' hreq
    · rcases mem_append.mp (hsub.subset hreq) with hreq | hreq
      · obtain ⟨requests', hk'', hreq⟩ := hold req hreq
        exact h.waiting k' requests' req hk'' hreq
      · obtain rfl : req = c.toPending := by simpa using hreq
        exact ⟨c, hcall, rfl, hk⟩
  · intro k' requests hk'
    rcases hqueue k' requests hk' with hk' | ⟨rfl, -, hsub⟩
    · exact h.nodup k' requests hk'
    · refine Nodup.sublist (hsub.map _) ?_
      rw [map_append, nodup_append]
      refine ⟨?_, by simp, ?_⟩
      · rcases hp : l.pending k' with _ | requests'
        · simp
        · exact h.nodup k' requests' hp
      · intro id hid id' hid' heq
        obtain ⟨req, hreq, rfl⟩ := mem_map.mp hid
        obtain ⟨requests', hk'', hreq⟩ := hold req hreq
        obtain rfl : id' = c.toPending.eventId := mem_singleton.mp hid'
        exact hnew k' requests' req hk'' hreq heq

end

/-! ### One event -/

section Event

variable {c : CanonicalEvent}

section

variable (h : Ledger calls l n accepted answered)
include h

/-- Nothing in the account of a view mentions an event it has not taken. -/
theorem no_row_of_fresh (hc : c = canonicalAt e (n + 1)) :
    calls ("llm-" ++ c.eventId) = none ∧ calls ("llm-orphan-" ++ c.eventId) = none ∧
      ∀ id, (calls id).bind Call.response ≠ some c := by
  subst hc
  have hne x (hx : Issued n x) := hx.eventId_ne e
  have hcall id call (hcall : calls id = some call) :
      id ≠ "llm-" ++ (canonicalAt e (n + 1)).eventId ∧
        id ≠ "llm-orphan-" ++ (canonicalAt e (n + 1)).eventId := by
    have hid := h.rowId id call hcall
    rcases call with req | ⟨req, resp⟩ | resp <;> subst hid <;> simp only [Call.rowId] at hcall ⊢
    · have hreq := hne req (h.issuedRequest _ req (by rw [hcall]; rfl))
      obtain ⟨e', k, -, rfl⟩ := h.issuedRequest _ req (by rw [hcall]; rfl)
      exact ⟨by simpa using hreq, requestRowId_ne_orphanRowId _ _ _⟩
    · have hreq := hne req (h.issuedRequest _ req (by rw [hcall]; rfl))
      obtain ⟨e', k, -, rfl⟩ := h.issuedRequest _ req (by rw [hcall]; rfl)
      exact ⟨by simpa using hreq, requestRowId_ne_orphanRowId _ _ _⟩
    · have hresp := hne resp (h.issuedResponse _ resp (by rw [hcall]; rfl))
      exact ⟨(requestRowId_ne_orphanRowId _ _ _).symm, by simpa using hresp⟩
  refine ⟨?_, ?_, fun id hid => hne _ (h.issuedResponse id _ hid) rfl⟩
  · by_contra hsome
    obtain ⟨call, hcall'⟩ := ne_none_iff_exists'.mp hsome
    exact (hcall _ call hcall').1 rfl
  · by_contra hsome
    obtain ⟨call, hcall'⟩ := ne_none_iff_exists'.mp hsome
    exact (hcall _ call hcall').2 rfl

/-- A queued request belongs to a call that waits, so its row is not the row of an event the
view has not taken. -/
theorem queued_ne (hid : calls id = none)
    (k : Stream) (requests : List PendingRequest) (req : PendingRequest)
    (hk : l.pending k = some requests) (hreq : req ∈ requests) :
    "llm-" ++ req.eventId ≠ id := by
  rintro rfl
  obtain ⟨q, hq, -⟩ := h.waiting k requests req hk hreq
  rw [hid] at hq
  cases hq

theorem accept
    (hc : (calls ("llm-" ++ c.eventId)).bind Call.request = some c) :
    Ledger calls l n (accepted ++ [c]) answered :=
  { h with
    accepted_mem := by
      intro req hreq
      rcases mem_append.mp hreq with hreq | hreq
      · exact h.accepted_mem req hreq
      · rwa [mem_singleton.mp hreq] }

theorem answer
    (hc : (calls id).bind Call.response = some c) :
    Ledger calls l n accepted (answered ++ [c]) :=
  { h with
    answered_mem := by
      intro resp hresp
      rcases mem_append.mp hresp with hresp | hresp
      · exact h.answered_mem resp hresp
      · exact ⟨id, by rwa [mem_singleton.mp hresp]⟩ }

section

variable (hc : c = canonicalAt e (n + 1))
include hc

/-- The request is stored as a call that waits. -/
theorem ask :
    Ledger (Function.update calls ("llm-" ++ c.eventId) (some (.waiting c)))
      ⟨l.pending, l.llmCalls.insert ("llm-" ++ c.eventId) (orphanRequestRow c.toPending)⟩ (n + 1)
      accepted answered := by
  obtain ⟨hrow, -, -⟩ := h.no_row_of_fresh hc
  refine (h.issue (Nat.le_succ n)).record (.waiting c) rfl ?_ ?_ ?_ ?_ ?_ ?_
  · intro x hx
    obtain rfl : c = x := by simpa [Call.request] using hx
    exact ⟨e, n + 1, le_rfl, hc⟩
  · simp [Call.response]
  · simp
  · simp [hrow]
  · simp [hrow]
  · exact fun k requests req hk hreq => h.queued_ne hrow k requests req hk hreq

/-- The response completes the call it was taken for, and nothing else waits at that row. -/
theorem pair
    (htake : l.take c = some (req, confidence, pending)) :
    ∃ q, calls ("llm-" ++ req.eventId) = some (.waiting q) ∧
      Ledger (Function.update calls ("llm-" ++ req.eventId) (some (.answered q c)))
        ⟨pending, l.llmCalls.insert ("llm-" ++ req.eventId) (pairRow req c)⟩ (n + 1)
        accepted answered := by
  obtain ⟨-, -, hnew⟩ := h.no_row_of_fresh hc
  obtain ⟨k, requests, rest, hk, hrequests, hperm, -, hleft⟩ := LlmState.take_spec htake
  obtain ⟨q, hcall, rfl, hq⟩ := h.waiting k requests req hrequests (hperm.symm.subset (by simp))
  -- the request waits once in its queue
  have hunique : q.eventId ∉ rest.map (·.eventId) := by
    have := (hperm.map (·.eventId)).nodup_iff.mp (h.nodup k requests hrequests)
    exact (nodup_cons.mp this).1
  refine ⟨q, hcall, ((h.issue (Nat.le_succ n)).release htake).record (.answered q c) rfl
    ?_ ?_ ?_ ?_ ?_ ?_⟩
  · intro x hx
    obtain rfl : q = x := by simpa [Call.request] using hx
    exact (h.issuedRequest _ q (by rw [hcall]; rfl)).mono (Nat.le_succ n)
  · intro x hx
    obtain rfl : c = x := by simpa [Call.response] using hx
    exact ⟨⟨e, n + 1, le_rfl, hc⟩, hnew⟩
  · intro req resp heq
    cases heq
    rw [hq, hk]
  · intro x hx
    simpa [hcall, Call.request] using hx
  · simp [hcall, Call.response]
  · intro k' requests' req' hk' hreq' hid
    have hid : req'.eventId = q.eventId := (String.append_right_inj _).mp hid
    rcases hleft k' requests' hk' with ⟨rfl, rfl⟩ | ⟨hne, hk'⟩
    · exact hunique (mem_map.mpr ⟨req', hreq', hid⟩)
    · obtain ⟨q', hcall', -, hq'⟩ := h.waiting k' requests' req' hk' hreq'
      rw [hid] at hcall'
      obtain rfl : q = q' := by simpa using hcall.symm.trans hcall'
      exact hne (some.inj (hq'.symm.trans hq))

/-- The response gets a row of its own. -/
theorem orphan :
    Ledger (Function.update calls ("llm-orphan-" ++ c.eventId) (some (.orphaned c)))
      ⟨l.pending, l.llmCalls.insert ("llm-orphan-" ++ c.eventId) (orphanResponseRow c)⟩ (n + 1)
      accepted answered := by
  obtain ⟨-, hrow, hnew⟩ := h.no_row_of_fresh hc
  refine (h.issue (Nat.le_succ n)).record (.orphaned c) rfl ?_ ?_ ?_ ?_ ?_ ?_
  · simp [Call.request]
  · intro x hx
    obtain rfl : c = x := by simpa [Call.response] using hx
    exact ⟨⟨e, n + 1, le_rfl, hc⟩, hnew⟩
  · simp
  · simp [hrow]
  · simp [hrow]
  · exact fun k requests req hk hreq => h.queued_ne hrow k requests req hk hreq

/-- **One event.** Whatever an event does, the account settles into one that has the event in
it if it was accepted or ingested. -/
theorem step {r : Except String Unit} {l' : LlmState}
    (heff : LlmEffect c l r l') :
    ∃ calls', calls.Settle calls' ∧ Ledger calls' l' (n + 1)
      (if r.isOk && c.accepts then accepted ++ [c] else accepted)
      (if r.isOk && c.answers l.pending then answered ++ [c] else answered) := by
  obtain ⟨hrow, horphan, -⟩ := h.no_row_of_fresh hc
  have hissue := h.issue (Nat.le_succ n)
  -- An error adds nothing to what was accepted or ingested.
  rcases r with e' | u
  · rcases heff with _ | _ | hask | ⟨_, htake⟩ | ⟨_, htake⟩ | ⟨_, htake⟩
    · exact ⟨calls, .refl _, hissue⟩
    · exact ⟨_, .insert hrow _, h.ask hc⟩
    · obtain ⟨q, hwait, hpair⟩ := h.pair hc htake
      exact ⟨_, .answer hwait _, hpair⟩
    · exact ⟨calls, .refl _, hissue.release htake⟩
    · exact ⟨_, .insert horphan _, h.orphan hc⟩
  · simp only [Except.isOk, Except.toBool, Bool.true_and]
    rcases heff with hquiet | ⟨hask, hk⟩ | _ | @⟨req, _, _, _, hans, htake⟩ | _ | ⟨hans, htake⟩
    · obtain ⟨hask, hans⟩ := hquiet rfl
      exact ⟨calls, .refl _, by simpa [hask, hans] using hissue⟩
    · have hnone : c.answers l.pending = false := c.answers_of_accepts hask
      have hqueued := (h.ask hc).enqueue (by simp) hk fun k requests req hk hreq heq =>
        h.queued_ne hrow k requests req hk hreq (by rw [heq])
      have hreq : (Function.update calls ("llm-" ++ c.eventId) (some (.waiting c))
          ("llm-" ++ c.eventId)).bind Call.request = some c := by simp [Call.request]
      exact ⟨_, .insert hrow _, by simpa [hask, hnone] using hqueued.accept hreq⟩
    · obtain ⟨q, hwait, hpair⟩ := h.pair hc htake
      have hresp : (Function.update calls ("llm-" ++ req.eventId) (some (.answered q c))
          ("llm-" ++ req.eventId)).bind Call.response = some c := by simp [Call.response]
      refine ⟨_, .answer hwait c, ?_⟩
      simpa [c.accepts_of_answers hans, hans] using hpair.answer hresp
    · have hresp : (Function.update calls ("llm-orphan-" ++ c.eventId) (some (.orphaned c))
          ("llm-orphan-" ++ c.eventId)).bind Call.response = some c := by simp [Call.response]
      refine ⟨_, .insert horphan (.orphaned c), ?_⟩
      simpa [c.accepts_of_answers hans, hans] using (h.orphan hc).answer hresp

end

end

end Event

end Ledger

/-! ### Every run -/

theorem ledger_after (s : Ingestion σ) {calls : Calls} (events : List Event)
    (h : Ledger calls s.view.llm.1 s.view.nextSeq s.accepted s.answered) :
    ∃ calls', calls.Settle calls' ∧
      Ledger calls' (s.after events).view.llm.1 (s.after events).view.nextSeq
        (s.after events).accepted (s.after events).answered := by
  induction events generalizing s calls with
  | nil => exact ⟨calls, .refl _, h⟩
  | cons event events ih =>
    obtain ⟨heff, hseq⟩ := exec_ingestEvent event s.view
    obtain ⟨calls', hsettle, hstep⟩ :=
      (h.prune event.timestamp).step (c := s.canonical event) rfl heff
    have hnext : Ledger calls' (s.step event).view.llm.1 (s.step event).view.nextSeq
        (s.step event).accepted (s.step event).answered := by
      change Ledger calls' (exec (ingestEvent event) s.view).2.llm.1
        (exec (ingestEvent event) s.view).2.nextSeq _ _
      rw [hseq]
      exact hstep
    obtain ⟨calls'', hsettle', hrest⟩ := ih (s.step event) hnext
    exact ⟨calls'', hsettle.trans hsettle', hrest⟩

/-- **Request and response conservation.** After every sequence of events, whatever the sinks
report, the call table has an account in which every accepted request and every ingested
response has exactly one row, and whatever is ingested later only settles that account. -/
theorem llm_calls_conserved (sinks : List σ) (maxAuditEvents maxResourceSamples : Option ℕ)
    (mutations : Option Bridge.MutationEmitter) (events later : List Event) :
    let s := Ingestion.start sinks maxAuditEvents maxResourceSamples mutations
    ∃ calls calls', Accounts calls (s.after events) ∧ Accounts calls' (s.after (events ++ later)) ∧
      calls.Settle calls' := by
  intro s
  have hstart : Ledger (fun _ => none) s.view.llm.1 s.view.nextSeq s.accepted s.answered := by
    constructor <;> simp [s, Ingestion.start, MaterializedView.new, MaterializedView.llm]
  obtain ⟨calls, -, h⟩ := ledger_after s events hstart
  obtain ⟨calls', hsettle, h'⟩ := ledger_after (s.after events) later h
  refine ⟨calls, calls', h.accounts, ?_, hsettle⟩
  simpa [Ingestion.after] using h'.accounts

end Run

end AgentSight.View
