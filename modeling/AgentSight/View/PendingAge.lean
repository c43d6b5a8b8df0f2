import AgentSight.View.SinkIsolation

/-!
# The age of pending requests

A request that waits longer than the time to live is stale. Every event drops the stale requests
from the front of each queue, so that a stale request is left when the one before it is not. A
response without a request id takes the only request of its stream, which is the front; one with a
request id may take a stale request that came out of order.
-/

namespace AgentSight.View

open Effectful Transition List Option

/-! ### Queues -/

namespace PendingRequest

/-- Older than the time to live. -/
def IsStale (now : ℕ) (req : PendingRequest) : Prop :=
  req.timestampMs + pendingRequestTtlMs < now

/-- What a request needs to wait for its response. -/
def isAwaited (req : PendingRequest) : Bool := req.bodyJson.isSome || req.model.isSome

end PendingRequest

/-- A stale request with the id stands behind one that is not stale, and behind none that is not
stale and has the id. -/
def Overtaken (now : ℕ) (id : Option String) (requests : List PendingRequest) : Prop :=
  ∃ front req back, requests = front ++ req :: back ∧ req.IsStale now ∧ id.isSome = true ∧
    req.requestId = id ∧ (∃ other ∈ front, ¬other.IsStale now) ∧
    ∀ other ∈ front, ¬other.IsStale now → other.requestId ≠ id

variable {confidence : ℚ}

section Queue

variable {requests : List PendingRequest} {req : PendingRequest} {now : ℕ} {id : Option String}

/-- The test of `prune_pending`. -/
def isPruned (now : ℕ) (req : PendingRequest) : Bool :=
  req.timestampMs < now - pendingRequestTtlMs

theorem isPruned_iff : isPruned now req = true ↔ req.IsStale now := by
  rw [isPruned, decide_eq_true_eq, PendingRequest.IsStale]
  omega

/-- No request within the time to live is dropped. -/
theorem mem_dropWhile_isPruned (hreq : req ∈ requests) (h : ¬req.IsStale now) :
    req ∈ requests.dropWhile (isPruned now) := by
  rw [← takeWhile_append_dropWhile (p := isPruned now) (l := requests)] at hreq
  refine (mem_append.mp hreq).resolve_left fun htaken => h ?_
  exact isPruned_iff.mp (mem_takeWhile_imp htaken)

variable {rest : List PendingRequest}

theorem not_isStale_head
    (h : requests.dropWhile (isPruned now) = req :: rest) : ¬req.IsStale now := by
  have hhead := head?_dropWhile_not (isPruned now) requests
  rw [h] at hhead
  rw [← isPruned_iff, Bool.not_eq_true]
  exact hhead

theorem takeFrom_ne_nil
    (h : takeFrom requests id = some (req, confidence, rest)) : requests ≠ [] := by
  rintro rfl
  simpa using (takeFrom_perm h).1.length_eq

/-- A response without a request id takes the front of the queue, when the whole queue is
awaited. -/
theorem takeFrom_none (hawaited : ∀ req ∈ requests, req.isAwaited = true)
    (h : takeFrom requests none = some (req, confidence, rest)) : requests = [req] := by
  rcases requests with _ | ⟨first, _ | ⟨second, requests⟩⟩
  · cases h
  · cases h
    rfl
  · -- two that are awaited are one too many
    have hfirst : (first.bodyJson.isSome || first.model.isSome) = true :=
      hawaited first (by simp)
    have hsecond : (second.bodyJson.isSome || second.model.isSome) = true :=
      hawaited second (by simp)
    simp [takeFrom, findIdx?_cons, hfirst] at h
    simp [h.1.1] at hsecond

section

variable (requests : List PendingRequest)

/-- A response with a request id takes the first request with it. -/
theorem takeFrom_some (id : String) :
    (takeFrom requests (some id)).map Prod.fst = requests.find? (·.requestId == some id) := by
  have hfind : (requests.findIdx? (·.requestId == some id)).bind (requests[·]?) =
      requests.find? (·.requestId == some id) := by
    induction requests with
    | nil => rfl
    | cons req requests ih =>
      rw [findIdx?_cons, find?_cons]
      cases hid : req.requestId == some id with
      | true => rfl
      | false =>
        rw [if_neg Bool.false_ne_true, bind_map]
        exact ih
  rw [← hfind, takeFrom]
  rcases hidx : requests.findIdx? (·.requestId == some id) with _ | pos
  · simp [hidx]
  · rcases hpos : requests[pos]? with _ | req
    · simp [hidx, hpos]
    · simp [hidx, hpos]

/-- The first request with the id that pruning leaves is stale, when it is overtaken and in no
other case. -/
theorem find?_isStale_iff (now : ℕ) (id : String) :
    (∃ req, (requests.dropWhile (isPruned now)).find? (·.requestId == some id) = some req ∧
        req.IsStale now) ↔ Overtaken now (some id) requests := by
  constructor
  · rintro ⟨req, hfind, hstale⟩
    obtain ⟨hid, before, back, hqueue, hbefore⟩ := find?_eq_some_iff_append.mp hfind
    have hrequests := takeWhile_append_dropWhile (p := isPruned now) (l := requests)
    rw [hqueue, ← append_assoc] at hrequests
    refine ⟨_, req, back, hrequests.symm, hstale, rfl, beq_iff_eq.mp hid, ?_, ?_⟩
    · rcases before with _ | ⟨other, before⟩
      · exact absurd hstale (not_isStale_head hqueue)
      · exact ⟨other, by simp, not_isStale_head hqueue⟩
    · intro other hother hfresh
      rcases mem_append.mp hother with hother | hother
      · exact absurd (isPruned_iff.mp (mem_takeWhile_imp hother)) hfresh
      · simpa using hbefore other hother
  · rintro ⟨front, req, back, rfl, hstale, -, hid, ⟨other, hother, hfresh⟩, hfront⟩
    have hqueue : (front ++ req :: back).dropWhile (isPruned now) =
        front.dropWhile (isPruned now) ++ req :: back := by
      rw [dropWhile_append, if_neg]
      rw [List.isEmpty_iff]
      exact ne_nil_of_mem (mem_dropWhile_isPruned hother hfresh)
    rw [hqueue, find?_append]
    rcases hfound : (front.dropWhile (isPruned now)).find? (·.requestId == some id) with _ | found
    · refine ⟨req, ?_, hstale⟩
      rw [hfound, none_or, find?_cons_of_pos]
      exact beq_iff_eq.mpr hid
    · refine ⟨found, by rw [hfound]; rfl, by_contra fun hfresh => ?_⟩
      have hmem := (dropWhile_suffix _).subset (mem_of_find?_eq_some hfound)
      exact hfront found hmem hfresh (by simpa using find?_some hfound)

theorem not_overtaken_none : ¬Overtaken now none requests := by
  rintro ⟨-, -, -, -, -, hsome, -⟩
  cases hsome

end

instance : Decidable (req.IsStale now) := Nat.decLt _ _

instance : Decidable (Overtaken now id requests) :=
  match id with
  | none => isFalse (not_overtaken_none requests)
  | some id => decidable_of_iff _ (find?_isStale_iff requests now id)

/-- **What pruning leaves to a response**: a stale request, when it is overtaken and in no other
case. -/
theorem takeFrom_isStale_iff (hawaited : ∀ req ∈ requests, req.isAwaited = true) :
    (∃ req confidence rest, takeFrom (requests.dropWhile (isPruned now)) id =
        some (req, confidence, rest) ∧ req.IsStale now) ↔ Overtaken now id requests := by
  rcases id with _ | id
  · refine iff_of_false ?_ (not_overtaken_none requests)
    rintro ⟨req, confidence, rest, htake, hstale⟩
    have hleft := takeFrom_none
      (fun req hreq => hawaited req ((dropWhile_suffix _).subset hreq)) htake
    exact not_isStale_head hleft hstale
  · have hfind := takeFrom_some (requests.dropWhile (isPruned now)) id
    rw [← find?_isStale_iff, ← hfind]
    constructor
    · rintro ⟨req, confidence, rest, htake, hstale⟩
      exact ⟨req, by rw [htake]; rfl, hstale⟩
    · rintro ⟨req, htake, hstale⟩
      obtain ⟨⟨_, confidence, rest⟩, htaken, rfl⟩ := map_eq_some_iff.mp htake
      exact ⟨_, confidence, rest, htaken, hstale⟩

end Queue

/-! ### What waits -/

section Waiting

variable [External] {l l' : LlmState} {c : CanonicalEvent} {r : Except String Unit}
  {pending : Pending} {k : Stream} {requests : List PendingRequest} {req : PendingRequest}

omit [External] in
theorem prunePending_eq (pending : Pending) (now : ℕ) (k : Stream) :
    prunePending pending now k = (pending k).bind fun requests =>
      if (requests.dropWhile (isPruned now)).isEmpty then none
      else some (requests.dropWhile (isPruned now)) := rfl

omit [External] in
/-- What pruning leaves is the rest of a queue. -/
theorem prunePending_eq_some {now : ℕ} (h : prunePending pending now k = some requests) :
    ∃ before, pending k = some before ∧ requests = before.dropWhile (isPruned now) := by
  rw [prunePending_eq] at h
  obtain ⟨before, hbefore, h⟩ := bind_eq_some_iff.mp h
  split at h
  · cases h
  · exact ⟨before, hbefore, (some_inj.mp h).symm⟩

omit [External] in
theorem prunePending_of_mem {now : ℕ} (hk : pending k = some requests) (hreq : req ∈ requests)
    (h : ¬req.IsStale now) :
    prunePending pending now k = some (requests.dropWhile (isPruned now)) := by
  rw [prunePending_eq, hk, bind_some, if_neg]
  rw [List.isEmpty_iff]
  exact List.ne_nil_of_mem (mem_dropWhile_isPruned hreq h)

/-- What waits after an event has waited before it, or is its request. -/
theorem LlmEffect.mem_pending (h : LlmEffect c l r l') (hk : l'.pending k = some requests)
    (hreq : req ∈ requests) :
    (∃ before, l.pending k = some before ∧ req ∈ before) ∨
      c.accepts = true ∧ c.stream = some k ∧ req = c.toPending := by
  have hleft {confidence : ℚ} {taken : PendingRequest} {pending : Pending}
      (htake : l.take c = some (taken, confidence, pending)) (hk : pending k = some requests) :
      ∃ before, l.pending k = some before ∧ req ∈ before := by
    obtain ⟨k', before, rest, -, hbefore, -, hsub, hleft⟩ := LlmState.take_spec htake
    rcases hleft k requests hk with ⟨rfl, rfl⟩ | ⟨-, hk⟩
    · exact ⟨before, hbefore, hsub.subset hreq⟩
    · exact ⟨requests, hk, hreq⟩
  cases h with
  | ignored | askedUnqueued | orphaned => exact .inl ⟨requests, hk, hreq⟩
  | paired _ htake => exact .inl (hleft htake hk)
  | pairLost _ htake => exact .inl (hleft htake hk)
  | @asked k' hask hk' =>
    by_cases heq : k = k'
    · subst heq
      simp only [pushPending, Function.update_self, some_inj] at hk
      subst hk
      rcases mem_append.mp (mem_of_mem_drop hreq) with hreq | hreq
      · rcases hp : l.pending k with _ | before
        · simp [hp] at hreq
        · exact .inl ⟨before, rfl, by simpa [hp] using hreq⟩
      · exact .inr ⟨hask, hk', mem_singleton.mp hreq⟩
    · simp only [pushPending, Function.update_of_ne heq] at hk
      exact .inl ⟨requests, hk, hreq⟩

omit [External] in
/-- A response takes a request that waits on its stream, if any does. -/
theorem pairOf_eq_some {rest : Pending} (h : pairOf c pending = some (req, confidence, rest)) :
    c.answers pending = true ∧ ∃ k requests left, c.stream = some k ∧ pending k = some requests ∧
      takeFrom requests c.requestId = some (req, confidence, left) := by
  rw [pairOf] at h
  split at h
  · next hanswers =>
    obtain ⟨k, hk, h⟩ := bind_eq_some_iff.mp h
    obtain ⟨requests, hrequests, h⟩ := bind_eq_some_iff.mp h
    obtain ⟨⟨req', confidence', left⟩, htake, h⟩ := bind_eq_some_iff.mp h
    cases h
    exact ⟨hanswers, k, requests, left, hk, hrequests, htake⟩
  · cases h

end Waiting

/-! ### Runs -/

section Run

variable {σ : Type} [ViewSink σ] [External]

/-- A view with the events it has taken and the requests that responses have taken. -/
structure PairLog (σ : Type) where
  view : MaterializedView σ
  taken : List (Event × CanonicalEvent)
  pairs : List (PendingRequest × CanonicalEvent)

namespace PairLog

def start (sinks : List σ) (maxAuditEvents maxResourceSamples : Option ℕ)
    (mutations : Option Bridge.MutationEmitter) : PairLog σ where
  view := { MaterializedView.new sinks with maxAuditEvents, maxResourceSamples, mutations }
  taken := []
  pairs := []

def canonical (s : PairLog σ) (event : Event) : CanonicalEvent :=
  canonicalAt event (s.view.nextSeq + 1)

/-- The request that the event takes, if it is a response that takes one. A sink that reports an
error before may end the event earlier. -/
def request? (s : PairLog σ) (event : Event) : Option PendingRequest :=
  (pairOf (s.canonical event) (prunePending s.view.pending event.timestamp)).map Prod.fst

def step (s : PairLog σ) (event : Event) : Option (PairLog σ) :=
  let c := s.canonical event
  some
    { view := (exec (ingestEvent event) s.view).2
      taken := s.taken ++ [(event, c)]
      pairs := s.pairs ++ ((s.request? event).map fun req => (req, c)).toList }

/-- No request that a response would have to take out of turn is stale. -/
def InOrder (s : PairLog σ) (event : Event) : Prop :=
  let c := s.canonical event
  c.isResponse = true → ∀ k ∈ c.stream, ∀ requests ∈ s.view.pending k,
    ¬Overtaken event.timestamp c.requestId requests

instance (s : PairLog σ) (event : Event) : Decidable (s.InOrder event) := by
  unfold InOrder
  infer_instance

/-- No response has a request that is stale, and nothing but stale requests is pruned. -/
structure AgeBound (s : PairLog σ) : Prop where
  paired : ∀ pair ∈ s.pairs, ¬pair.1.IsStale pair.2.timestampMs
  kept (now : ℕ) (k : Stream) (requests : List PendingRequest) (req : PendingRequest) :
    s.view.pending k = some requests → req ∈ requests → ¬req.IsStale now →
      ∃ left, prunePending s.view.pending now k = some left ∧ req ∈ left

/-- Where the queues and the pairs come from. -/
structure Traced (s : PairLog σ) : Prop where
  issued : ∀ x ∈ s.taken, ∃ n ≤ s.view.nextSeq, x.2 = canonicalAt x.1 n
  unique : ∀ x ∈ s.taken, ∀ y ∈ s.taken, x.2.eventId = y.2.eventId → x = y
  queued (k : Stream) (requests : List PendingRequest) (req : PendingRequest) :
    s.view.pending k = some requests → req ∈ requests →
      ∃ x ∈ s.taken, x.2.accepts = true ∧ x.2.toPending = req ∧ x.2.stream = some k
  paired : ∀ pair ∈ s.pairs, ∃ x ∈ s.taken, ∃ y ∈ s.taken,
    x.2.toPending = pair.1 ∧ y.2 = pair.2 ∧ x.2.stream = y.2.stream

/-! ### One event -/

variable {s s' : PairLog σ} {event : Event}

theorem step_view (s : PairLog σ) (event : Event) :
    LlmEffect (s.canonical event) ⟨prunePending s.view.pending event.timestamp, s.view.llmCalls⟩
        (exec (ingestEvent event) s.view).1 (exec (ingestEvent event) s.view).2.llm.1 ∧
      (exec (ingestEvent event) s.view).2.nextSeq = s.view.nextSeq + 1 :=
  exec_ingestEvent event s.view

omit [ViewSink σ] in
/-- The request that is taken has waited on the stream of the event. -/
theorem request?_eq_some {req : PendingRequest} (h : s.request? event = some req) :
    ∃ k requests confidence left, (s.canonical event).stream = some k ∧
      (s.canonical event).isResponse = true ∧ s.view.pending k = some requests ∧
      req ∈ requests ∧ takeFrom (requests.dropWhile (isPruned event.timestamp))
        (s.canonical event).requestId = some (req, confidence, left) := by
  obtain ⟨⟨req', confidence, rest⟩, hpair, rfl⟩ := map_eq_some_iff.mp h
  obtain ⟨hanswers, k, requests, left, hk, hrequests, htake⟩ := pairOf_eq_some hpair
  obtain ⟨before, hbefore, rfl⟩ := prunePending_eq_some hrequests
  have hresponse : (s.canonical event).isResponse = true := by
    simp only [CanonicalEvent.answers, Bool.and_eq_true, Bool.or_eq_true, beq_iff_eq] at hanswers
    simp only [CanonicalEvent.isResponse, Bool.or_eq_true, beq_iff_eq]
    tauto
  have hmem := (takeFrom_perm htake).1.symm.subset mem_cons_self
  exact ⟨k, before, confidence, left, hk, hresponse, hbefore,
    (dropWhile_suffix _).subset hmem, htake⟩

omit [ViewSink σ] in
theorem request?_of_takeFrom {k : Stream} {requests left : List PendingRequest}
    {req : PendingRequest} (hresponse : (s.canonical event).isResponse = true)
    (hk : (s.canonical event).stream = some k)
    (hwait : prunePending s.view.pending event.timestamp k = some requests)
    (htake : takeFrom requests (s.canonical event).requestId = some (req, confidence, left)) :
    s.request? event = some req := by
  have hpending : hasPendingLlmRequest (prunePending s.view.pending event.timestamp)
      (s.canonical event) = true := by
    obtain ⟨pid, hpid, hk⟩ := bind_eq_some_iff.mp hk
    obtain ⟨tid, htid, rfl⟩ := map_eq_some_iff.mp hk
    rw [hasPendingLlmRequest, hpid, htid]
    dsimp only
    rw [hwait, any_some, Bool.not_eq_true', isEmpty_eq_false_iff]
    exact takeFrom_ne_nil htake
  have hanswers :
      (s.canonical event).answers (prunePending s.view.pending event.timestamp) = true := by
    simp only [CanonicalEvent.isResponse, Bool.or_eq_true, beq_iff_eq] at hresponse
    simp only [CanonicalEvent.answers, hpending, Bool.and_eq_true, Bool.or_eq_true, beq_iff_eq]
    exact ⟨rfl, by tauto⟩
  rw [request?, pairOf, if_pos hanswers, View.taken, hk, bind_some, takeMatchingRequest, hwait]
  simp [htake]

theorem Traced.step (h : s.Traced) (hstep : s.step event = some s') : s'.Traced := by
  obtain ⟨heffect, hseq⟩ := s.step_view event
  obtain rfl := some_inj.mp hstep
  have hnew x (hx : x ∈ s.taken) :
      x.2.eventId ≠ (s.canonical event).eventId := by
    obtain ⟨n, hn, hcanonical⟩ := h.issued x hx
    exact Issued.eventId_ne ⟨x.1, n, hn, hcanonical⟩ event
  constructor
  case issued =>
    intro x hx
    rw [hseq]
    rcases mem_append.mp hx with hx | hx
    · obtain ⟨n, hn, hcanonical⟩ := h.issued x hx
      exact ⟨n, Nat.le_succ_of_le hn, hcanonical⟩
    · rw [mem_singleton.mp hx]
      exact ⟨_, le_rfl, rfl⟩
  case unique =>
    intro x hx y hy hid
    rcases mem_append.mp hx with hx | hx <;> rcases mem_append.mp hy with hy | hy
    · exact h.unique x hx y hy hid
    · rw [mem_singleton.mp hy] at hid
      exact absurd hid (hnew x hx)
    · rw [mem_singleton.mp hx] at hid
      exact absurd hid.symm (hnew y hy)
    · rw [mem_singleton.mp hx, mem_singleton.mp hy]
  case queued =>
    intro k requests req hk hreq
    rcases heffect.mem_pending hk hreq with ⟨before, hbefore, hreq⟩ | ⟨haccepts, hstream, rfl⟩
    · obtain ⟨whole, hwhole, rfl⟩ := prunePending_eq_some hbefore
      obtain ⟨x, hx, hrest⟩ :=
        h.queued k whole req hwhole ((dropWhile_suffix _).subset hreq)
      exact ⟨x, mem_append_left _ hx, hrest⟩
    · exact ⟨(event, s.canonical event), by simp, haccepts, rfl, hstream⟩
  case paired =>
    intro pair hpair
    rcases mem_append.mp hpair with hpair | hpair
    · obtain ⟨x, hx, y, hy, hrest⟩ := h.paired pair hpair
      exact ⟨x, mem_append_left _ hx, y, mem_append_left _ hy, hrest⟩
    · rw [mem_toList] at hpair
      obtain ⟨req, hreq, rfl⟩ := map_eq_some_iff.mp hpair
      obtain ⟨k, requests, -, -, hk, -, hrequests, hmem, -⟩ := request?_eq_some hreq
      obtain ⟨x, hx, -, htoPending, hstream⟩ := h.queued k requests req hrequests hmem
      exact ⟨x, mem_append_left _ hx, (event, s.canonical event), by simp, htoPending, rfl,
        hstream.trans hk.symm⟩

omit [ViewSink σ] in
theorem traced_start (sinks : List σ) (maxAuditEvents maxResourceSamples : Option ℕ)
    (mutations : Option Bridge.MutationEmitter) :
    (start sinks maxAuditEvents maxResourceSamples mutations).Traced := by
  constructor <;> simp [start, MaterializedView.new]

omit [ViewSink σ] in
theorem Traced.isAwaited (h : s.Traced) {k : Stream} {requests : List PendingRequest}
    (hk : s.view.pending k = some requests) : ∀ req ∈ requests, req.isAwaited = true := by
  intro req hreq
  obtain ⟨x, -, haccepts, rfl, -⟩ := h.queued k requests req hk hreq
  simp only [CanonicalEvent.accepts, Bool.and_eq_true] at haccepts
  exact haccepts.2

omit [ViewSink σ] in
/-- **An event takes a stale request when it is out of order, and in no other case.** -/
theorem Traced.request?_isStale_iff (h : s.Traced) (event : Event) :
    (∀ req ∈ s.request? event, ¬req.IsStale event.timestamp) ↔ s.InOrder event := by
  constructor
  · intro hfresh hresponse k hk requests hrequests hovertaken
    obtain ⟨req, confidence, rest, htake, hstale⟩ :=
      (takeFrom_isStale_iff (h.isAwaited hrequests)).mpr hovertaken
    have hne : ¬(requests.dropWhile (isPruned event.timestamp)).isEmpty = true := by
      rw [List.isEmpty_iff]
      exact takeFrom_ne_nil htake
    have hwait : prunePending s.view.pending event.timestamp k =
        some (requests.dropWhile (isPruned event.timestamp)) := by
      rw [prunePending_eq, hrequests, bind_some, if_neg hne]
    exact hfresh req (request?_of_takeFrom hresponse hk hwait htake) hstale
  · intro horder req hreq hstale
    obtain ⟨k, requests, confidence, left, hk, hresponse, hrequests, -, htake⟩ :=
      request?_eq_some hreq
    exact horder hresponse k hk requests hrequests
      ((takeFrom_isStale_iff (h.isAwaited hrequests)).mp ⟨req, confidence, left, htake, hstale⟩)

/-! ### All events -/

theorem traced_of_reaches {ok : PairLog σ → Event → Prop} {sinks : List σ}
    {maxAuditEvents maxResourceSamples : Option ℕ} {mutations : Option Bridge.MutationEmitter}
    (h : Reaches step ok (start sinks maxAuditEvents maxResourceSamples mutations) s) :
    s.Traced :=
  h.invariant (I := Traced) (traced_start _ _ _ _) fun _ _ _ htraced _ => htraced.step

omit [ViewSink σ] [External] in
theorem ageBound_of_pairs
    (hpairs : ∀ pair ∈ s.pairs, ¬pair.1.IsStale pair.2.timestampMs) : s.AgeBound where
  paired := hpairs
  kept _ _ _ _ hk hreq hfresh :=
    ⟨_, prunePending_of_mem hk hreq hfresh, mem_dropWhile_isPruned hreq hfresh⟩

/-- **The age of pending requests.** In every run whose responses come in order, no response has a
request older than the time to live, and no younger request is pruned; a response that is not in
order has such a request in every run. -/
theorem pending_age_bound (sinks : List σ) (maxAuditEvents maxResourceSamples : Option ℕ)
    (mutations : Option Bridge.MutationEmitter) :
    (∀ s, Reaches step InOrder (start sinks maxAuditEvents maxResourceSamples mutations) s →
      s.AgeBound) ∧
    ∀ s, Reaches step always (start sinks maxAuditEvents maxResourceSamples mutations) s →
      ∀ event s', s.step event = some s' → s'.AgeBound → s.InOrder event := by
  constructor
  · intro s h
    refine ageBound_of_pairs ?_
    refine (h.invariant
      (I := fun s => s.Traced ∧ ∀ pair ∈ s.pairs, ¬pair.1.IsStale pair.2.timestampMs) ?_ ?_).2
    · exact ⟨traced_start _ _ _ _, by simp [start]⟩
    · intro s event s' hs horder hstep
      refine ⟨hs.1.step hstep, ?_⟩
      obtain rfl := some_inj.mp hstep
      intro pair hpair
      rcases mem_append.mp hpair with hpair | hpair
      · exact hs.2 pair hpair
      · rw [mem_toList] at hpair
        obtain ⟨req, hreq, rfl⟩ := map_eq_some_iff.mp hpair
        exact (hs.1.request?_isStale_iff event).mpr horder req hreq
  · intro s h event s' hstep hbound
    refine ((traced_of_reaches h).request?_isStale_iff event).mp fun req hreq => ?_
    obtain rfl := some_inj.mp hstep
    refine hbound.paired (req, s.canonical event) (mem_append_right _ ?_)
    rw [mem_toList, mem_def.mp hreq]
    rfl

end PairLog

end Run

/-! ### Two runs -/

section Example

local instance : External := modelBodyOnly

/-- A request with an id. -/
def namedRequest (timestamp : ℕ) (id : String) : Event :=
  modelMessage timestamp [("message_type", .string "request"), ("path", .string "/v1/messages"),
      ("request_id", .string id)]

/-- A response with the id of its request. -/
def namedResponse (timestamp : ℕ) (id : String) : Event :=
  modelMessage timestamp
    [("message_type", .string "response"), ("status_code", .number (.posInt 200)),
      ("request_id", .string id)]

open PairLog

/-- A response that comes in time. -/
theorem namedResponse_in_time :
    ∃ s : PairLog NullSink, Reaches step InOrder (start [.null] none none none) s ∧
      s.pairs ≠ [] ∧ s.AgeBound := by
  obtain ⟨s, hs, hne⟩ := exists_reaches_of_run (Q := fun s => s.pairs ≠ []) step InOrder
    (start [NullSink.null] none none none)
    [namedRequest 400000 "b", namedRequest 50000 "a", namedResponse 400000 "b"] (by decide)
  exact ⟨s, hs, hne, (pending_age_bound [.null] none none none).1 s hs⟩

/-- A request that came out of order is taken after its time. -/
theorem namedResponse_too_late :
    ∃ s : PairLog NullSink, Reaches step always (start [.null] none none none) s ∧ ¬s.AgeBound := by
  obtain ⟨s, hs, pair, hpair, hstale⟩ := exists_reaches_of_run
    (Q := fun s => ∃ pair ∈ s.pairs, pair.1.IsStale pair.2.timestampMs) step always
    (start [NullSink.null] none none none)
    [namedRequest 400000 "b", namedRequest 50000 "a", namedResponse 400000 "a"] (by decide)
  exact ⟨s, hs, fun hbound => hbound.paired pair hpair hstale⟩

end Example

end AgentSight.View
