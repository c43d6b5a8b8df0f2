import AgentSight.Bridge.Link
import AgentSight.Bridge.Resume

/-!
# The handshake of a connection

`serve_connection` registers a connection for broadcasts before its hello is read, the answer
to the hello goes through the same bounded queue as everything else, and heartbeats and gap
notices are written past the queue. So the answer comes first only in the runs whose steps
wait for it: nothing is pushed or written ahead of it, and no push evicts it. `Respects` is
that condition, one clause for each kind of step, and `handshake_ordered` the result.

`Unnegotiated`, `Agreeing` and `Agreed` are the phases of a connection in such a run.
-/

namespace AgentSight.Bridge

open Transition List Option OutboundQueue

/-- The message accepts or refuses a hello. -/
def BridgeMessage.isAnswer : BridgeMessage → Bool
  | .agreement _ | .helloRejected _ => true
  | _ => false

/-- The writer has a gap notice to write. -/
def Writer.announces : Writer → Bool
  | .writing (some _) _ | .notice .. => true
  | _ => false

/-- The piece belongs to the end of `serve_connection`. -/
def ReaderOp.tearsDown : ReaderOp → Bool
  | .closeQueue | .unregister => true
  | _ => false

namespace Link

variable (l : Link)

/-- What the connection has been given so far, in order. -/
def front : List BridgeMessage := l.peer.sent ++ l.peer.writer.messages ++ l.queue.items

/-- The queue takes what is sent to the connection. -/
def Accepts : Prop := l.registered = true ∧ l.queue.closed = false

/-- A push does not evict the first message given to the connection. -/
def Roomy : Prop :=
  l.peer.sent = [] → l.peer.writer.messages = [] → l.queue.items.length < l.queue.capacity

/-- The order of a handshake, as the client sees it. -/
structure HandshakeOrdered : Prop where
  first : ∀ m, l.peer.sent.head? = some m → m.isAnswer = true
  agreed : ∀ pre envelope post, l.peer.sent = pre ++ .mutation envelope :: post →
    ∃ agreement, .agreement agreement ∈ pre
  kept : l.peer.negotiated = true → (∃ agreement, .agreement agreement ∈ l.peer.sent) ∨
    l.peer.writer ≠ .done ∧ ∃ agreement, .agreement agreement ∈ l.front ++ sends l.peer.reader

/-- The step does not get ahead of the answer to the hello of the connection `i`. -/
def Respects (bodyBytes : BridgeMessage → ℕ) (maxFrameBytes i : ℕ) : Action → Prop
  | .broadcast _ => l.Accepts → (∃ agreement, .agreement agreement ∈ l.front) ∧ l.Roomy
  | .shutdown _ => l.Accepts → l.front ≠ [] ∧ l.Roomy
  | .read id _ => id = i →
    match l.peer.reader.head? with
    | some (.sendTo _) | some (.pushShutdown _) => l.Roomy
    | _ => True
  | .hostSessions id _ => id = i → l.Roomy
  | .idleTimeout id => id = i → l.peer.negotiated = true
  | .heartbeat id _ | .writeFails id => id = i → l.peer.sent ≠ []
  | .write id => id = i → l.peer.sent = [] →
    ∀ message writer, l.peer.writer.next = some (message, writer) →
      bodyBytes message ≤ maxFrameBytes
  | .checkClosed id => id = i → l.queue.closed = true → l.peer.sent = [] → l.queue.items = []
  | _ => True

end Link

/-! ### Pushes -/

namespace OutboundQueue

theorem evict_of_lt {capacity : ℕ} {items : List BridgeMessage} (gap : Option (ℕ × ℕ))
    (h : items.length < capacity) : evict capacity items gap = (items, gap, 0) := by
  cases items with
  | nil => rfl
  | cons message items => rw [evict, if_neg (not_le.mpr h)]

/-- Evicting messages that are no mutations leaves the range as it is. -/
theorem evict_gap_of_isControl {capacity : ℕ} {items : List BridgeMessage}
    (gap : Option (ℕ × ℕ)) (h : ∀ m ∈ items, m.IsControl) :
    (evict capacity items gap).2.1 = gap := by
  induction items generalizing gap with
  | nil => rfl
  | cons message items ih =>
    rw [evict]
    split_ifs
    · have hwiden : widen gap message = gap := by
        cases message with
        | mutation envelope => exact absurd rfl (h _ mem_cons_self envelope)
        | _ => rfl
      rw [hwiden]
      exact ih gap fun m hm => h m (mem_cons_of_mem _ hm)
    · rfl

end OutboundQueue

namespace Link

variable {l l' : Link} {message : BridgeMessage}

theorem deliver_of_not_accepts (h : ¬l.Accepts) : l.deliver message = l := by
  cases hreg : l.registered with
  | false =>
    cases l
    simp_all [deliver]
  | true =>
    have hclosed : l.queue.closed = true := by
      by_contra hopen
      exact h ⟨hreg, by simpa using hopen⟩
    cases l
    simp_all [deliver, push_of_closed]

/-- What a push to the queue of an open connection with room leaves in place. -/
structure Pushed (l : Link) (message : BridgeMessage) (q : OutboundQueue) : Prop where
  closed : q.closed = l.queue.closed
  head : l.front ≠ [] → (l.peer.sent ++ l.peer.writer.messages ++ q.items).head? = l.front.head?
  mem : ∀ m ∈ q.items, m ∈ l.queue.items ∨ m = message
  empty : l.front = [] → q.items = [message]
  ne_nil : q.items ≠ []
  gap : l.peer.sent = [] → l.peer.writer.messages = [] → q.pendingGap = l.queue.pendingGap
  control : (∀ m ∈ l.queue.items, m.IsControl) → q.pendingGap = l.queue.pendingGap

theorem pushed (hopen : l.queue.closed = false) (hroom : l.Roomy) :
    Pushed l message (l.queue.push message).1 := by
  obtain ⟨hitems, hgap⟩ := @OutboundQueue.push_of_open _ message hopen
  have hkept hsent hmsgs :=
    OutboundQueue.evict_of_lt l.queue.pendingGap (hroom hsent hmsgs)
  refine ⟨OutboundQueue.push_closed, fun hfront => ?_, fun m hm => OutboundQueue.mem_push hm,
    fun hfront => ?_, by simp [hitems], fun hsent hmsgs => ?_, fun hctl => ?_⟩
  · by_cases hfirst : l.peer.sent = [] ∧ l.peer.writer.messages = []
    · have hne : l.queue.items ≠ [] := by simpa [front, hfirst] using hfront
      rw [hitems, hkept hfirst.1 hfirst.2, front, hfirst.1]
      simp only [nil_append, head?_append, head?_eq_some_head hne, some_or]
    · have hne : l.peer.sent ++ l.peer.writer.messages ≠ [] := by
        simpa using hfirst
      rw [front, head?_append, @head?_append _ l.queue.items (_ ++ _),
        head?_eq_some_head hne, some_or, some_or]
  · simp only [front, append_eq_nil_iff] at hfront
    obtain ⟨⟨hsent, hmsgs⟩, hnil⟩ := hfront
    rw [hitems, hkept hsent hmsgs, hnil, nil_append]
  · rw [hgap, hkept hsent hmsgs]
  · rw [hgap, evict_gap_of_isControl _ hctl]

@[simp]
theorem deliver_closed : (l.deliver message).queue.closed = l.queue.closed := by
  rw [deliver]
  split_ifs <;> simp

theorem deliver_of_accepts (h : l.Accepts) :
    l.deliver message = { l with queue := (l.queue.push message).1 } := by
  rw [deliver, if_pos h.1]

/-! ### Open and ended connections -/

/-- The connection is open, and what the reader has left ends in `tearDown` when it serves no
more. -/
structure Open (l : Link) : Prop where
  accepts : l.Accepts
  reader : ∃ ops, (∀ op ∈ ops, op.tearsDown = false) ∧
    l.peer.reader = ops ++ if l.peer.serving = true then [] else tearDown

/-- The queue is closed and nothing is left to send. -/
structure Ended (l : Link) : Prop where
  serving : l.peer.serving = false
  closed : l.queue.closed = true
  reader : l.peer.reader = [.unregister] ∨ l.peer.reader = []

theorem tearsDown_handleMessage (config : BridgeServerConfig) (negotiated : Bool)
    (message : BridgeMessage) :
    ∀ op ∈ (handleMessage config negotiated message).1, op.tearsDown = false := by
  cases negotiated <;> cases message <;> simp only [handleMessage, Bool.not_true, Bool.not_false,
    if_true, if_false, Bool.false_eq_true] <;> try split
  all_goals simp [ReaderOp.tearsDown]

variable {op : ReaderOp} {ops : List ReaderOp}

theorem tearsDown_exec {h h' : BridgeHub} {id : ℕ} {viewFree : Bool} {input : ReaderInput}
    (hexec : op.exec h id viewFree input = some (h', ops)) :
    ∀ op' ∈ ops, op'.tearsDown = false := by
  cases ReaderOp.exec_leaves hexec <;> simp [ReaderOp.tearsDown]

/-- A change of the writer only. -/
private theorem openOrEnded_of_peer {peer : Peer} {queue : OutboundQueue}
    (hl : l.Open ∨ l.Ended) (hclosed : queue.closed = l.queue.closed)
    (hreader : peer.reader = l.peer.reader) (hserving : peer.serving = l.peer.serving) :
    Open ⟨l.registered, queue, peer⟩ ∨ Ended ⟨l.registered, queue, peer⟩ := by
  obtain ⟨⟨hreg, hopen⟩, hops⟩ | ⟨hserv, hend, hops⟩ := hl
  · refine .inl ⟨⟨hreg, hclosed.trans hopen⟩, ?_⟩
    rwa [hreader, hserving]
  · refine .inr ⟨hserving.trans hserv, hclosed.trans hend, ?_⟩
    rwa [hreader]

/-- One piece of the reader's work. -/
private theorem openOrEnded_worked {ops' : List ReaderOp}
    (hl : l.Open ∨ l.Ended) (hreader : l.peer.reader = op :: ops)
    (hops' : ∀ op' ∈ ops', op'.tearsDown = false)
    (hend : op.tearsDown = true → ops' = []) :
    (l.worked op (ops' ++ ops)).Open ∨ (l.worked op (ops' ++ ops)).Ended := by
  obtain ⟨⟨hreg, hopen⟩, ⟨pre, hpre, hsplit⟩⟩ | ⟨hserving, hclosed, hend'⟩ := hl
  · rw [hreader] at hsplit
    cases pre with
    | nil =>
      -- the reader is at the end of `serve_connection`
      cases hserving : l.peer.serving with
      | true => simp [hserving] at hsplit
      | false =>
        rw [hserving] at hsplit
        obtain ⟨rfl, rfl⟩ : op = .closeQueue ∧ ops = [.unregister] := by
          simpa [tearDown] using hsplit
        rw [hend rfl]
        exact .inr ⟨hserving, OutboundQueue.close_closed, .inl rfl⟩
    | cons first pre =>
      obtain ⟨rfl, hops⟩ := cons.inj (hsplit.trans (cons_append ..))
      refine .inl ⟨?_, ops' ++ pre, ?_, ?_⟩
      · cases op <;> simp_all [worked, Accepts, ReaderOp.tearsDown]
      · intro op' hop'
        obtain hop' | hop' := mem_append.mp hop'
        · exact hops' op' hop'
        · exact hpre op' (mem_cons_of_mem _ hop')
      · rw [hops, ← append_assoc]
        cases op <;> rfl
  · rw [hreader] at hend'
    obtain ⟨rfl, rfl⟩ : op = .unregister ∧ ops = [] := by simpa using hend'
    rw [hend rfl]
    exact .inr ⟨hserving, hclosed, .inr rfl⟩

/-- A connection is open until its reader closes the queue. -/
theorem Step.openOrEnded {bodyBytes : BridgeMessage → ℕ} {s : Server} {i : ℕ} {a : Action}
    (h : Link.Step bodyBytes s i l a l') (hl : l.Open ∨ l.Ended) : l'.Open ∨ l'.Ended := by
  cases h with
  | untouched | passedOver => exact hl
  | opened => exact .inl ⟨⟨rfl, rfl⟩, [], by simp, rfl⟩
  | fanned | notified | answered => exact openOrEnded_of_peer (l := l) hl deliver_closed rfl rfl
  | @received message ops negotiated flow hpeer hserving hreader hhandle =>
    obtain ⟨haccepts, -⟩ | ⟨hserv, -, -⟩ := hl
    · refine .inl ⟨haccepts, ops, ?_, ?_⟩
      · have hops := tearsDown_handleMessage s.hub.config l.peer.negotiated message
        rwa [hhandle] at hops
      · cases flow <;> rfl
    · rw [hserving] at hserv
      cases hserv
  | hungUp hpeer hserving hreader =>
    obtain ⟨haccepts, -⟩ | ⟨hserv, -, -⟩ := hl
    · exact .inl ⟨haccepts, [], by simp, rfl⟩
    · rw [hserving] at hserv
      cases hserv
  | timedOut hpeer hserving hreader =>
    obtain ⟨haccepts, -⟩ | ⟨hserv, -, -⟩ := hl
    · exact .inl ⟨haccepts, [.pushShutdown "bridge idle timeout"], by simp [ReaderOp.tearsDown],
        rfl⟩
    · rw [hserving] at hserv
      cases hserv
  | @read input op ops hub ops' hreader hexec =>
    refine openOrEnded_worked hl hreader (tearsDown_exec hexec) fun hop => ?_
    cases op <;> simp_all [ReaderOp.tearsDown, ReaderOp.exec]
  | wrote | beat | reported =>
    rw [finishWrite]
    split_ifs <;> exact openOrEnded_of_peer hl rfl rfl rfl
  | _ => exact openOrEnded_of_peer hl rfl rfl rfl

/-! ### The phases -/

/-- No agreement has been made; what comes first, if anything does, is a refusal. -/
structure Unnegotiated (l : Link) : Prop where
  negotiated : l.peer.negotiated = false
  queries : l.peer.hostQueries = 0
  gap : l.queue.pendingGap = none
  announces : l.peer.writer.announces = false
  control : ∀ m ∈ l.front, m.IsControl ∧ ∀ agreement, m ≠ .agreement agreement
  head : ∀ m, l.front.head? = some m → m.isAnswer = true
  reader : ∀ op ∈ l.peer.reader,
    op.tearsDown = true ∨ ∃ reason, op = .sendTo (.helloRejected reason)
  serving : l.peer.serving = true → l.peer.reader = [] ∧ l.front = [] ∧ l.peer.writer ≠ .done

/-- The reader is about to send the agreement, and nothing was sent before. -/
structure Agreeing (l : Link) : Prop where
  negotiated : l.peer.negotiated = true
  queries : l.peer.hostQueries = 0
  gap : l.queue.pendingGap = none
  announces : l.peer.writer.announces = false
  front : l.front = []
  reader : ∃ agreement, l.peer.reader = [.sendTo (.agreement agreement), .sendHealth]
  writer : l.peer.writer ≠ .done

/-- The agreement comes first. -/
structure Agreed (l : Link) : Prop where
  negotiated : l.peer.negotiated = true
  head : ∃ agreement, l.front.head? = some (.agreement agreement)
  unsent : l.peer.sent = [] → l.peer.writer.announces = false ∧ l.peer.writer ≠ .done
  gap : l.peer.sent = [] → l.peer.writer.messages = [] → l.queue.pendingGap = none

def Phase (l : Link) : Prop := l.Unnegotiated ∨ l.Agreeing ∨ l.Agreed

theorem unnegotiated_new (capacity since : ℕ) : Unnegotiated ⟨true, .new capacity, .new since⟩ where
  negotiated := rfl
  queries := rfl
  gap := rfl
  announces := rfl
  control := by simp [front, Peer.new, Writer.messages, new]
  head := by simp [front, Peer.new, Writer.messages, new]
  reader := by simp [Peer.new]
  serving := fun _ => ⟨rfl, rfl, by simp [Peer.new]⟩

/-- A refusal, or a message after one, is pushed. -/
theorem Unnegotiated.push {registered : Bool} {q : OutboundQueue}
    {resumes : List ℕ} (h : l.Unnegotiated) (hq : Pushed l message q)
    (hserving : l.peer.serving = false)
    (hmsg : message.IsControl ∧ ∀ agreement, message ≠ .agreement agreement)
    (hfirst : l.front = [] → message.isAnswer = true) (hops : ∀ op ∈ ops, op ∈ l.peer.reader) :
    Unnegotiated ⟨registered, q, { l.peer with reader := ops, resumes := resumes }⟩ where
  negotiated := h.negotiated
  queries := h.queries
  gap := by
    rw [← h.gap]
    exact hq.control fun m hm => (h.control m (mem_append_right _ hm)).1
  announces := h.announces
  control m hm := by
    obtain hm | hm := mem_append.mp hm
    · exact h.control m (mem_append_left _ hm)
    · obtain hm | rfl := hq.mem m hm
      · exact h.control m (mem_append_right _ hm)
      · exact hmsg
  head m hm := by
    by_cases hfront : l.front = []
    · have hnil : l.peer.sent ++ l.peer.writer.messages = [] := by
        simp only [front, append_eq_nil_iff] at hfront ⊢
        exact hfront.1
      have hm' : (l.peer.sent ++ l.peer.writer.messages ++ q.items).head? = some m := hm
      rw [hnil, hq.empty hfront] at hm'
      rw [← some.inj hm']
      exact hfirst hfront
    · exact h.head m ((hq.head hfront).symm.trans hm)
  reader op hop := h.reader op (hops op hop)
  serving hs := by
    have hs' : l.peer.serving = true := hs
    rw [hserving] at hs'
    cases hs'

/-- A message is pushed after the agreement. -/
theorem Agreed.push {registered : Bool} {q : OutboundQueue} {peer : Peer} (h : l.Agreed)
    (hq : Pushed l message q) (hsent : peer.sent = l.peer.sent)
    (hwriter : peer.writer = l.peer.writer) (hneg : peer.negotiated = l.peer.negotiated) :
    Agreed ⟨registered, q, peer⟩ where
  negotiated := hneg.trans h.negotiated
  head := by
    obtain ⟨agreement, hhead⟩ := h.head
    refine ⟨agreement, ?_⟩
    rw [front]
    rw [hsent, hwriter, hq.head fun hnil => by simp [hnil] at hhead, hhead]
  unsent := by
    rw [hsent, hwriter]
    exact h.unsent
  gap := by
    rw [hsent, hwriter]
    intro hs hm
    rw [hq.gap hs hm, h.gap hs hm]

/-- The writer moves what a connection without an agreement has been given. -/
theorem Unnegotiated.write (h : l.Unnegotiated) (hreg : l'.peer.negotiated = l.peer.negotiated)
    (hqueries : l'.peer.hostQueries = l.peer.hostQueries)
    (hreader : l'.peer.reader = l.peer.reader) (hserving : l'.peer.serving = l.peer.serving)
    (hgap : l'.queue.pendingGap = none) (hann : l'.peer.writer.announces = false)
    (hmem : ∀ m ∈ l'.front, m ∈ l.front ∨ m.IsControl ∧ ∀ agreement, m ≠ .agreement agreement)
    (hhead : l'.front.head? = l.front.head?)
    (hdone : l.peer.serving = true → l'.peer.writer ≠ .done) : l'.Unnegotiated where
  negotiated := hreg.trans h.negotiated
  queries := hqueries.trans h.queries
  gap := hgap
  announces := hann
  control m hm := (hmem m hm).elim (h.control m) id
  head m hm := h.head m (hhead ▸ hm)
  reader := by
    rw [hreader]
    exact h.reader
  serving hs := by
    rw [hserving] at hs
    obtain ⟨hnil, hfront, -⟩ := h.serving hs
    refine ⟨hreader.trans hnil, ?_, hdone hs⟩
    rw [← head?_eq_none_iff, hhead, hfront]
    rfl

theorem head_front (h : l.peer.sent ≠ []) : l.front.head? = l.peer.sent.head? := by
  rw [front, append_assoc, head?_append, head?_eq_some_head h, some_or]

/-- Once something has been written to it, the head of a connection stays. -/
theorem head_front_of_sent (h : l.peer.sent ≠ []) {more : List BridgeMessage}
    (hsent : l'.peer.sent = l.peer.sent ++ more) : l'.front.head? = l.front.head? := by
  have hne : l'.peer.sent ≠ [] := by simp [hsent, h]
  rw [head_front h, head_front hne, hsent, head?_append, head?_eq_some_head h,
    some_or]

/-- Once something has been written to it, an agreed connection stays agreed. -/
theorem Agreed.of_sent (h : l.Agreed) (hne : l.peer.sent ≠ []) {more : List BridgeMessage}
    (hsent : l'.peer.sent = l.peer.sent ++ more)
    (hneg : l'.peer.negotiated = l.peer.negotiated) : l'.Agreed where
  negotiated := hneg.trans h.negotiated
  head := by
    rw [head_front_of_sent hne hsent]
    exact h.head
  unsent hnil := by simp [hsent, hne] at hnil
  gap hnil := by simp [hsent, hne] at hnil

theorem Agreed.of_front (h : l.Agreed) (hfront : l'.front = l.front)
    (hneg : l'.peer.negotiated = l.peer.negotiated)
    (hunsent : l'.peer.sent = [] → l'.peer.writer.announces = false ∧ l'.peer.writer ≠ .done)
    (hgap : l'.peer.sent = [] → l'.peer.writer.messages = [] → l'.queue.pendingGap = none) :
    l'.Agreed where
  negotiated := hneg.trans h.negotiated
  head := by
    rw [hfront]
    exact h.head
  unsent := hunsent
  gap := hgap

theorem handleMessage_negotiated {config : BridgeServerConfig} {message : BridgeMessage} :
    (handleMessage config true message).2.1 = true := by
  cases message <;> rfl

/-- What the first message of a client is answered with. -/
theorem handleMessage_first (config : BridgeServerConfig) (message : BridgeMessage) :
    (∃ agreement, handleMessage config false message =
      ([.sendTo (.agreement agreement), .sendHealth], true, .continue)) ∨
    ∃ reason, handleMessage config false message =
      ([.sendTo (.helloRejected reason)], false, .close) := by
  cases message with
  | hello hello =>
    simp only [handleMessage, Bool.not_false, if_true]
    split_ifs
    · exact .inl ⟨_, rfl⟩
    · exact .inr ⟨_, rfl⟩
  | _ => exact .inr ⟨_, rfl⟩

/-! ### One step -/

section Step

variable {bodyBytes : BridgeMessage → ℕ} {s : Server} {i : ℕ} {a : Action}

/-- A message that finds room is sent to an agreed connection. -/
private theorem Agreed.deliver {peer : Peer} (h : l.Agreed) (hroom : l.Accepts → l.Roomy)
    (hsent : peer.sent = l.peer.sent) (hwriter : peer.writer = l.peer.writer)
    (hneg : peer.negotiated = l.peer.negotiated) :
    Agreed { l.deliver message with peer } := by
  by_cases hacc : l.Accepts
  · rw [deliver_of_accepts hacc]
    exact h.push (pushed hacc.2 (hroom hacc)) hsent hwriter hneg
  · rw [deliver_of_not_accepts hacc]
    refine ⟨hneg.trans h.negotiated, ?_, ?_, ?_⟩ <;> (dsimp only [front]; rw [hsent, hwriter])
    · exact h.head
    · exact h.unsent
    · exact h.gap

/-- The reader of an agreed connection does a piece of its work. -/
private theorem Agreed.worked (h : l.Agreed)
    (hsend : ∀ message, op = .sendTo message → l.Accepts → l.Roomy)
    (hpush : ∀ reason, op = .pushShutdown reason → l.queue.closed = false → l.Roomy) :
    (l.worked op ops).Agreed := by
  cases op with
  | sendTo message => exact h.deliver (hsend message rfl) rfl rfl rfl
  | pushShutdown reason =>
    cases hclosed : l.queue.closed with
    | false => exact h.push (pushed hclosed (hpush reason rfl hclosed)) rfl rfl rfl
    | true =>
      rw [Link.worked, push_of_closed hclosed]
      exact ⟨h.negotiated, h.head, h.unsent, h.gap⟩
  | _ => exact ⟨h.negotiated, h.head, h.unsent, h.gap⟩

variable {writer : Writer}

/-- The writer of an agreed connection writes a message, or stops because it does not fit. -/
private theorem Agreed.finishWrite {fits : Prop} [Decidable fits]
    (h : l.Agreed) (hsent : l.peer.sent ≠ []) : (l.finishWrite fits message writer).Agreed := by
  rw [Link.finishWrite]
  split_ifs
  · exact h.of_sent hsent rfl rfl
  · exact h.of_sent hsent (append_nil _).symm rfl

theorem Agreed.step (h : l.Agreed) (hok : l.Respects bodyBytes s.hub.config.maxFrameBytes i a)
    (hstep : Link.Step bodyBytes s i l a l') : l'.Phase := by
  have hfront : l.front ≠ [] := by
    obtain ⟨agreement, hhead⟩ := h.head
    rintro hnil
    simp [hnil] at hhead
  cases hstep with
  | untouched | passedOver => exact .inr (.inr h)
  | opened => exact .inl (unnegotiated_new _ _)
  | fanned | notified => exact .inr (.inr (h.deliver (fun hacc => (hok hacc).2) rfl rfl rfl))
  | @received message ops negotiated flow hpeer hserving hreader hhandle =>
    have hneg : negotiated = true := by
      rw [h.negotiated] at hhandle
      have := @handleMessage_negotiated s.hub.config message
      rwa [hhandle] at this
    exact .inr (.inr ⟨hneg, h.head, h.unsent, h.gap⟩)
  | hungUp | timedOut | unanswered => exact .inr (.inr ⟨h.negotiated, h.head, h.unsent, h.gap⟩)
  | @read input op ops hub ops' hreader hexec =>
    have hok' := hok rfl
    rw [hreader] at hok'
    refine .inr (.inr (h.worked ?_ ?_))
    · rintro message rfl _
      exact hok'
    · rintro reason rfl _
      exact hok'
  | answered => exact .inr (.inr (h.deliver (fun _ => hok rfl) rfl rfl rfl))
  | took hpeer hwriter =>
    have hmsgs : l.peer.writer.messages = [] := by rw [hwriter]; rfl
    by_cases hsent : l.peer.sent = []
    · have hgap := h.gap hsent hmsgs
      have hitems : l.queue.items ≠ [] := by simpa [front, hsent, hmsgs] using hfront
      -- the first thing taken is the agreement
      have htaken : Writer.ofTaken l.queue.pendingGap l.queue.items =
          .writing none l.queue.items := by simp [Writer.ofTaken, hitems, hgap]
      refine .inr (.inr (h.of_front ?_ rfl (fun _ => ?_) fun _ _ => rfl))
      · simp [front, htaken, hwriter, Writer.messages, OutboundQueue.take]
      · simp [htaken, Writer.announces]
    · exact .inr (.inr (h.of_sent hsent (append_nil _).symm rfl))
  | checked hwriter =>
    have hmsgs : l.peer.writer.messages = [] := by rw [hwriter]; rfl
    by_cases hsent : l.peer.sent = []
    · -- the writer does not stop before the agreement is written
      have hopen : l.queue.closed = false := by
        by_contra hclosed
        have hitems := hok rfl (by simpa using hclosed) hsent
        simp [front, hsent, hmsgs, hitems] at hfront
      refine .inr (.inr (h.of_front ?_ rfl (fun _ => ?_) fun _ _ => h.gap hsent hmsgs))
      · simp [front, hopen, hwriter, Writer.messages]
      · simp [hopen, Writer.announces]
    · exact .inr (.inr (h.of_sent hsent (append_nil _).symm rfl))
  | woke hwriter =>
    have hmsgs : l.peer.writer.messages = [] := by rw [hwriter]; rfl
    refine .inr (.inr (h.of_front ?_ rfl (fun _ => ?_) fun hsent _ => h.gap hsent hmsgs))
    · simp [front, hwriter, Writer.messages]
    · simp [Writer.announces]
  | numbered hwriter =>
    -- no gap is announced before the agreement is written
    have hsent : l.peer.sent ≠ [] := by
      intro hnil
      have := (h.unsent hnil).1
      simp [hwriter, Writer.announces] at this
    exact .inr (.inr (h.of_sent hsent (append_nil _).symm rfl))
  | @wrote message writer hwriter =>
    by_cases hsent : l.peer.sent = []
    · have hfits := hok rfl hsent message writer hwriter
      rw [Link.finishWrite, if_pos hfits]
      obtain ⟨envelope, messages, hw, -, -⟩ | ⟨messages, hw, rfl⟩ := Writer.next_eq_some hwriter
      · have := (h.unsent hsent).1
        simp [hw, Writer.announces] at this
      · refine .inr (.inr (h.of_front ?_ rfl (fun hnil => ?_) fun hnil => ?_))
        · simp [front, hw, Writer.messages]
        · simp at hnil
        · simp at hnil
    · exact .inr (.inr (h.finishWrite hsent))
  | beat | reported => exact .inr (.inr (h.finishWrite (hok rfl)))
  | failed =>
    have hsent : l.peer.sent ≠ [] := hok rfl
    exact .inr (.inr (h.of_sent hsent (append_nil _).symm rfl))

theorem Agreeing.step (h : l.Agreeing) (hl : l.Open ∨ l.Ended)
    (hok : l.Respects bodyBytes s.hub.config.maxFrameBytes i a)
    (hstep : Link.Step bodyBytes s i l a l') : l'.Phase := by
  obtain ⟨agreement, hreader⟩ := h.reader
  obtain ⟨⟨hsent, hmsgs⟩, hitems⟩ : (l.peer.sent = [] ∧ l.peer.writer.messages = []) ∧
      l.queue.items = [] := by
    have hfront := h.front
    rwa [Link.front, append_eq_nil_iff, append_eq_nil_iff] at hfront
  have hacc : l.Accepts := by
    obtain hopen | hend := hl
    · exact hopen.accepts
    · have := hend.reader
      simp [hreader] at this
  cases hstep with
  | untouched | passedOver => exact .inr (.inl h)
  | opened => exact .inl (unnegotiated_new _ _)
  | fanned =>
    obtain ⟨⟨agreement, hmem⟩, -⟩ := hok hacc
    simp [h.front] at hmem
  | notified => exact absurd h.front (hok hacc).1
  | received hpeer hserving hnil => simp [hreader] at hnil
  | hungUp hpeer hserving hnil => simp [hreader] at hnil
  | timedOut hpeer hserving hnil => simp [hreader] at hnil
  | read hread hexec =>
    rw [hreader] at hread
    obtain ⟨rfl, rfl⟩ := cons.inj hread
    have hok' := hok rfl
    rw [hreader] at hok'
    -- the agreement is pushed to an empty queue
    have hpushed := @pushed _ (.agreement agreement) hacc.2 hok'
    rw [worked, deliver_of_accepts hacc]
    refine .inr (.inr ⟨h.negotiated, ⟨agreement, ?_⟩, fun _ => ⟨h.announces, h.writer⟩,
      fun _ _ => ?_⟩)
    · simp [Link.front, hsent, hmsgs, hpushed.empty h.front]
    · rw [hpushed.gap hsent hmsgs, h.gap]
  | answered hquery => simp [h.queries] at hquery
  | unanswered hquery => simp [h.queries] at hquery
  | took =>
    have htaken : Writer.ofTaken l.queue.pendingGap l.queue.items = .emptied := by
      simp [Writer.ofTaken, hitems, h.gap]
    refine .inr (.inl ⟨h.negotiated, h.queries, rfl, ?_, ?_, h.reader, ?_⟩)
    · simp [htaken, Writer.announces]
    · simp [Link.front, hsent, htaken, Writer.messages, OutboundQueue.take]
    · simp [htaken]
  | checked =>
    refine .inr (.inl ⟨h.negotiated, h.queries, h.gap, ?_, ?_, h.reader, ?_⟩)
    · simp [hacc.2, Writer.announces]
    · simp [Link.front, hsent, hitems, hacc.2, Writer.messages]
    · simp [hacc.2]
  | woke =>
    refine .inr (.inl ⟨h.negotiated, h.queries, h.gap, rfl, ?_, h.reader, by simp⟩)
    simp [Link.front, hsent, hitems, Writer.messages]
  | numbered hwriter =>
    have := h.announces
    simp [hwriter, Writer.announces] at this
  | wrote hwriter =>
    obtain ⟨envelope, messages, hw, -, -⟩ | ⟨messages, hw, -⟩ := Writer.next_eq_some hwriter
    · have := h.announces
      simp [hw, Writer.announces] at this
    · simp [hw, Writer.messages] at hmsgs
  | beat | reported | failed => exact absurd hsent (hok rfl)

section

variable (h : l.Unnegotiated)
include h

/-- A connection without an agreement that has been given something is being closed. -/
private theorem Unnegotiated.not_serving (hne : l.front ≠ []) :
    l.peer.serving = false := by
  by_contra hserving
  exact hne (h.serving (by simpa using hserving)).2.1

/-- The writer stops after it has written something. -/
private theorem Unnegotiated.stopped (hsent : l.peer.sent ≠ []) :
    Unnegotiated { l with peer := { l.peer with writer := .done } } := by
  have hserving := h.not_serving (by simp [front, hsent])
  refine h.write rfl rfl rfl rfl h.gap rfl (fun m hm => .inl ?_)
    (head_front_of_sent hsent (append_nil _).symm) fun hs => ?_
  · simp only [front, Writer.messages, append_nil, mem_append] at hm ⊢
    tauto
  · rw [hserving] at hs
    cases hs

/-- The reader does what is left of a refusal or of the end of the connection. -/
private theorem Unnegotiated.read {ops' : List ReaderOp} {h₀ h₁ : BridgeHub}
    {viewFree : Bool} {input : ReaderInput}
    (hreader : l.peer.reader = op :: ops) (hexec : op.exec h₀ i viewFree input = some (h₁, ops'))
    (hroom : ∀ message, op = .sendTo message → l.Roomy) :
    (l.worked op (ops' ++ ops)).Unnegotiated := by
  have hserving : l.peer.serving = false := by
    by_contra hserving
    have := (h.serving (by simpa using hserving)).1
    simp [hreader] at this
  have hops : ∀ op' ∈ ops, op' ∈ l.peer.reader := by simp +contextual [hreader]
  have hrest : ∀ op' ∈ ops, op'.tearsDown = true ∨
      ∃ reason, op' = .sendTo (.helloRejected reason) :=
    fun op' hop' => h.reader op' (hops op' hop')
  obtain hop | ⟨reason, rfl⟩ := h.reader op (by simp [hreader])
  · cases op with
    | closeQueue | unregister =>
      cases hexec
      exact ⟨h.negotiated, h.queries, h.gap, h.announces, h.control, h.head, hrest,
        by simp [worked, hserving]⟩
    | _ => cases hop
  · cases hexec
    by_cases hacc : l.Accepts
    · rw [worked, deliver_of_accepts hacc]
      exact h.push (pushed hacc.2 (hroom _ rfl)) hserving (by simp [BridgeMessage.IsControl])
        (fun _ => rfl) hops
    · rw [worked, deliver_of_not_accepts hacc]
      exact ⟨h.negotiated, h.queries, h.gap, h.announces, h.control, h.head, hrest,
        by simp [hserving]⟩

/-- The writer writes the next message, or stops because it does not fit. -/
private theorem Unnegotiated.wrote {fits : Prop} [Decidable fits]
    (hwriter : l.peer.writer.next = some (message, writer))
    (hfits : l.peer.sent = [] → fits) : (l.finishWrite fits message writer).Unnegotiated := by
  obtain ⟨envelope, messages, hw, -, -⟩ | ⟨messages, hw, rfl⟩ := Writer.next_eq_some hwriter
  · -- gap notices are not written before the agreement
    have := h.announces
    simp [hw, Writer.announces] at this
  · have hserving := h.not_serving (by simp [front, hw, Writer.messages])
    rw [finishWrite]
    split_ifs with hfit
    · have hfront : front { l with
          peer := { l.peer with
            sent := l.peer.sent ++ [message], writer := .writing none messages } } =
          l.front := by
        simp [front, hw, Writer.messages]
      exact h.write rfl rfl rfl rfl h.gap rfl (fun m hm => .inl (hfront ▸ hm)) (by rw [hfront])
        fun hs => absurd (hserving ▸ hs) Bool.false_ne_true
    · exact h.stopped fun hnil => hfit (hfits hnil)

/-- The idle writer writes a message of its own. -/
private theorem Unnegotiated.idled {fits : Prop} [Decidable fits] (hsent : l.peer.sent ≠ [])
    (hmsg : message.IsControl ∧ ∀ agreement, message ≠ .agreement agreement)
    (hmessages : writer.messages = []) (hann : writer.announces = false) :
    (l.finishWrite fits message writer).Unnegotiated := by
  have hserving := h.not_serving (by simp [front, hsent])
  rw [finishWrite]
  split_ifs
  · refine h.write rfl rfl rfl rfl h.gap hann (fun m hm => ?_) (head_front_of_sent hsent rfl)
      fun hs => absurd (hserving ▸ hs) Bool.false_ne_true
    simp only [front, hmessages, append_nil, mem_append, mem_singleton] at hm ⊢
    obtain (hm | rfl) | hm := hm
    · exact .inl (.inl (.inl hm))
    · exact .inr hmsg
    · exact .inl (.inr hm)
  · exact h.stopped hsent

theorem Unnegotiated.step (hl : l.Open ∨ l.Ended)
    (hok : l.Respects bodyBytes s.hub.config.maxFrameBytes i a)
    (hstep : Link.Step bodyBytes s i l a l') : l'.Phase := by
  cases hstep with
  | untouched | passedOver => exact .inl h
  | opened => exact .inl (unnegotiated_new _ _)
  | fanned =>
    by_cases hacc : l.Accepts
    · -- a broadcast has to wait for the agreement
      obtain ⟨⟨agreement, hmem⟩, -⟩ := hok hacc
      exact absurd rfl ((h.control _ hmem).2 agreement)
    · rw [deliver_of_not_accepts hacc]
      exact .inl h
  | notified =>
    by_cases hacc : l.Accepts
    · obtain ⟨hne, hroom⟩ := hok hacc
      rw [deliver_of_accepts hacc]
      refine .inl (h.push (pushed hacc.2 hroom) ?_ (by simp [BridgeMessage.IsControl])
        (fun hnil => absurd hnil hne) fun _ hop => hop)
      by_contra hserving
      exact hne (h.serving (by simpa using hserving)).2.1
    · rw [deliver_of_not_accepts hacc]
      exact .inl h
  | @received message ops negotiated flow hpeer hserving hreader hhandle =>
    obtain ⟨-, hfront, hdone⟩ := h.serving hserving
    rw [h.negotiated] at hhandle
    obtain ⟨agreement, hfirst⟩ | ⟨reason, hfirst⟩ :=
      handleMessage_first s.hub.config message <;> rw [hfirst] at hhandle <;> cases hhandle
    · exact .inr (.inl ⟨rfl, by simp [h.queries, h.negotiated], h.gap, h.announces, hfront,
        ⟨agreement, rfl⟩, hdone⟩)
    · refine .inl ⟨rfl, by simp [h.queries, h.negotiated], h.gap, h.announces, h.control, h.head,
        ?_, by simp⟩
      simp [tearDown, ReaderOp.tearsDown]
  | hungUp hpeer hserving =>
    refine .inl ⟨h.negotiated, h.queries, h.gap, h.announces, h.control, h.head, ?_, by simp⟩
    simp [tearDown, ReaderOp.tearsDown]
  | timedOut =>
    have hneg := hok rfl
    rw [h.negotiated] at hneg
    cases hneg
  | @read input op ops hub ops' hreader hexec =>
    have hok' := hok rfl
    rw [hreader] at hok'
    refine .inl (h.read hreader hexec ?_)
    rintro message rfl
    exact hok'
  | answered hquery => simp [h.queries] at hquery
  | unanswered hquery => simp [h.queries] at hquery
  | took hpeer hwriter =>
    have hfront : front { l with
        queue := l.queue.take.1
        peer := { l.peer with writer := .ofTaken l.queue.pendingGap l.queue.items } } =
        l.front := by
      rw [h.gap]
      by_cases hitems : l.queue.items = [] <;>
        simp [front, hwriter, hitems, Writer.ofTaken, Writer.messages, OutboundQueue.take]
    refine .inl (h.write rfl rfl rfl rfl rfl ?_ (fun m hm => .inl (hfront ▸ hm))
      (by rw [hfront]) fun _ => ?_)
    · rw [h.gap]
      by_cases hitems : l.queue.items = [] <;> simp [Writer.ofTaken, hitems, Writer.announces]
    · rw [Writer.ofTaken]
      split_ifs <;> simp
  | checked hwriter =>
    have hfront : front { l with
        peer := { l.peer with writer := if l.queue.closed then .done else .waiting } } =
        l.front := by
      split_ifs <;> simp [front, hwriter, Writer.messages]
    refine .inl (h.write rfl rfl rfl rfl h.gap ?_ (fun m hm => .inl (hfront ▸ hm))
      (by rw [hfront]) fun hserving => ?_)
    · split_ifs <;> rfl
    · obtain hopen | hend := hl
      · simp [hopen.accepts.2]
      · rw [hend.serving] at hserving
        cases hserving
  | woke hwriter =>
    have hfront : front { l with peer := { l.peer with writer := .writing none [] } } =
        l.front := by
      simp [front, hwriter, Writer.messages]
    exact .inl (h.write rfl rfl rfl rfl h.gap rfl (fun m hm => .inl (hfront ▸ hm))
      (by rw [hfront]) (by simp))
  | numbered hwriter =>
    have := h.announces
    simp [hwriter, Writer.announces] at this
  | wrote hwriter =>
    exact .inl (h.wrote hwriter fun hnil => hok rfl hnil _ _ hwriter)
  | beat | reported =>
    exact .inl (h.idled (hok rfl) (by simp [BridgeMessage.IsControl]) rfl rfl)
  | failed => exact .inl (h.stopped (hok rfl))

end

end Step

/-- What the phases say about the messages written. -/
theorem Phase.handshakeOrdered (h : l.Phase) : l.HandshakeOrdered := by
  have hopening m (hm : l.peer.sent.head? = some m) : l.front.head? = some m := by
    rw [front, append_assoc, head?_append, hm, some_or]
  have hmem m hm : m ∈ l.front :=
    mem_append_left _ (mem_append_left _ hm)
  obtain hun | hing | hagreed := h
  · refine ⟨fun m hm => hun.head m (hopening m hm), fun pre envelope post hsent => ?_,
      fun hneg => ?_⟩
    · exact absurd rfl ((hun.control _ (hmem (.mutation envelope) (by simp [hsent]))).1 envelope)
    · rw [hun.negotiated] at hneg
      cases hneg
  · have hnone m : m ∉ l.peer.sent := by
      intro hm
      have := hmem m hm
      simp [hing.front] at this
    refine ⟨fun m hm => absurd (mem_of_head? hm) (hnone m), fun pre envelope post hsent => ?_,
      fun _ => .inr ⟨hing.writer, ?_⟩⟩
    · exact absurd (by simp [hsent]) (hnone (.mutation envelope))
    · obtain ⟨agreement, hreader⟩ := hing.reader
      exact ⟨agreement, by simp [hreader]⟩
  · obtain ⟨agreement, hhead⟩ := hagreed.head
    have hfirst (m : BridgeMessage) hm : m = .agreement agreement :=
      some.inj ((hopening m hm).symm.trans hhead)
    refine ⟨fun m hm => by rw [hfirst m hm]; rfl, fun pre envelope post hsent => ?_, fun _ => ?_⟩
    · cases pre with
      | nil =>
        have := hfirst (.mutation envelope) (by simp [hsent])
        cases this
      | cons m pre =>
        have hm := hfirst m (by simp [hsent])
        exact ⟨agreement, by simp [hm]⟩
    · by_cases hsent : l.peer.sent = []
      · refine .inr ⟨(hagreed.unsent hsent).2, agreement, ?_⟩
        exact mem_append_left _ (mem_of_head? hhead)
      · have hm := hfirst _ (head?_eq_some_head hsent)
        exact .inl ⟨agreement, hm ▸ head_mem hsent⟩

end Link

/-! ### Runs -/

namespace Server

variable {bodyBytes : BridgeMessage → ℕ} {s s' : Server} {a : Action}

/-- The step gets ahead of no connection's answer. -/
def RespectsHandshakes (bodyBytes : BridgeMessage → ℕ) (s : Server) (a : Action) : Prop :=
  ∀ id, (s.link id).Respects bodyBytes s.hub.config.maxFrameBytes id a

/-- The connection is in one of its phases, or has not been made. -/
def Settled (s : Server) (id : ℕ) : Prop :=
  ((s.link id).Phase ∧ ((s.link id).Open ∨ (s.link id).Ended)) ∨
    s.isPeer id = false ∧ ∃ capacity, s.link id = ⟨false, .new capacity, .new 0⟩

theorem settled_init (config : BridgeServerConfig) (id : ℕ) : (init config).Settled id := by
  refine .inr ⟨?_, config.outboundCapacity, rfl⟩
  rw [isPeer, decide_eq_false_iff_not]
  rintro ⟨hpos, hle⟩
  have hzero : id ≤ 0 := hle
  omega

theorem Settled.step {id : ℕ} (h : s.Settled id) (hok : s.RespectsHandshakes bodyBytes a)
    (hstep : s.step bodyBytes a = some s') : s'.Settled id := by
  have hlink := step_link hstep id
  obtain ⟨hphase, hopen⟩ | ⟨hpeer, capacity, hnew⟩ := h
  · refine .inl ⟨?_, hlink.openOrEnded hopen⟩
    obtain hun | hing | hagreed := hphase
    · exact hun.step hopen (hok id) hlink
    · exact hing.step hopen (hok id) hlink
    · exact hagreed.step (hok id) hlink
  · have hsame (hconnect : a = .connect → id ≠ s.hub.nextConnectionId + 1) :
        s'.isPeer id = false := by
      by_contra hpeer'
      obtain hold | ⟨ha, hid⟩ := isPeer_of_step hstep (by simpa using hpeer')
      · rw [hpeer] at hold
        cases hold
      · exact hconnect ha hid
    rw [hnew] at hlink
    generalize hnext : s'.link id = l' at hlink
    rw [Settled, hnext]
    cases hlink with
    | untouched _ hshared =>
      refine .inr ⟨hsame fun ha => ?_, capacity, rfl⟩
      rw [ha] at hshared
      cases hshared
    | passedOver hid => exact .inr ⟨hsame fun _ => hid, capacity, rfl⟩
    | opened =>
      exact .inl ⟨.inl (Link.unnegotiated_new _ _), .inl ⟨⟨rfl, rfl⟩, [], by simp, rfl⟩⟩
    | fanned | notified => exact .inr ⟨hsame (by simp), capacity, rfl⟩
    | received hid | hungUp hid | timedOut hid | took hid =>
      rw [hpeer] at hid
      cases hid
    | read hreader => simp [Peer.new] at hreader
    | answered hquery => simp [Peer.new] at hquery
    | unanswered hquery => simp [Peer.new] at hquery
    | failed hwriter => simp [Peer.new, Writer.isWriting, Writer.next] at hwriter
    | wrote hwriter => simp [Peer.new, Writer.next] at hwriter
    | checked hwriter | woke hwriter | numbered hwriter | beat hwriter | reported hwriter =>
      simp [Peer.new] at hwriter

/-- **Handshake ordering.** In every run whose steps all wait for the answers to the hellos,
every connection is sent an agreement or a refusal first and no mutation before an agreement,
and the agreement of a completed handshake has been sent or is on its way to a running
writer. -/
theorem handshake_ordered {config : BridgeServerConfig}
    (h : Reaches (step bodyBytes) (RespectsHandshakes bodyBytes) (init config) s) (id : ℕ) :
    (s.link id).HandshakeOrdered := by
  have hsettled : ∀ id, s.Settled id := by
    refine h.invariant (I := fun s => ∀ id, s.Settled id) (settled_init config) ?_
    exact fun s a s' hs hok hstep id => (hs id).step hok hstep
  obtain ⟨hphase, -⟩ | ⟨-, capacity, hnew⟩ := hsettled id
  · exact hphase.handshakeOrdered
  · rw [hnew]
    exact ⟨by simp [Peer.new], by simp [Peer.new], by simp [Peer.new]⟩

def isMutation : BridgeMessage → Bool
  | .mutation _ => true
  | _ => false

private def startsAgreed : List BridgeMessage → Bool
  | .agreement _ :: _ => true
  | _ => false

/-- The steps of one undisturbed handshake, and of broadcasts once its agreement is written. -/
private def Undisturbed (s : Server) : Action → Prop
  | .connect | .receive .. | .take _ | .write _ | .allocate .. => True
  | .broadcast _ => s.hub.connections = [1] ∧ startsAgreed (s.peers 1).sent = true
  | .read id _ => id = 1 ∧ (s.hub.queues 1).items.length < (s.hub.queues 1).capacity
  | _ => False

private instance decidableUndisturbed (s : Server) (a : Action) : Decidable (Undisturbed s a) := by
  unfold Undisturbed
  split <;> infer_instance

private theorem respects_of_undisturbed (s : Server) (a : Action) (h : Undisturbed s a) :
    s.RespectsHandshakes (fun _ => 0) a := by
  intro id
  cases a with
  | read id' input =>
    obtain ⟨rfl, hroom⟩ := h
    rintro rfl
    split
    · exact fun _ _ => hroom
    · exact fun _ _ => hroom
    · trivial
  | write id' => exact fun _ _ _ _ _ => Nat.zero_le _
  | broadcast nowNs =>
    obtain ⟨honly, hagreed⟩ := h
    rintro ⟨hregistered, -⟩
    obtain rfl : id = 1 := by simpa [link, BridgeHub.isRegistered, honly] using hregistered
    unfold startsAgreed at hagreed
    split at hagreed
    · next agreement rest hsent =>
      have hsent : (s.link 1).peer.sent = .agreement agreement :: rest := hsent
      exact ⟨⟨agreement, by simp [Link.front, hsent]⟩, fun hnone => by simp [hsent] at hnone⟩
    · cases hagreed
  | connect | receive | take | allocate => trivial
  | _ => exact h.elim

/-- A connection that is sent its agreement, and then a mutation. -/
theorem handshake_ordered_of_one_client :
    ∃ s, Reaches (step fun _ => 0) (RespectsHandshakes fun _ => 0) (init (smallConfig 8 8)) s ∧
      (s.peers 1).sent.map isMutation = [false, false, true] ∧ (s.link 1).HandshakeOrdered := by
  obtain ⟨s, hs, hsent⟩ := exists_reaches_of_run (step fun _ => 0) Undisturbed
    (init (smallConfig 8 8))
    (Q := fun s => (s.peers 1).sent.map isMutation = [false, false, true])
    (handshake ++ [.take 1, .write 1] ++ emitRow ++ [.write 1, .take 1, .write 1]) (by decide)
  have hrespects := hs.mono respects_of_undisturbed
  exact ⟨s, hrespects, hsent, handshake_ordered hrespects 1⟩

/-- **A mutation comes before the agreement**, when it is broadcast before the hello. -/
theorem mutation_before_agreement : ¬∀ (config : BridgeServerConfig) (s : Server) (id : ℕ),
      Reaches (step fun _ => 0) always (init config) s → (s.link id).HandshakeOrdered := by
  intro hall
  obtain ⟨s, hs, hsent⟩ := exists_reaches_of_run (step fun _ => 0) always (init (smallConfig 8 8))
    (Q := fun s => ((s.peers 1).sent.head?.map BridgeMessage.isAnswer) = some false)
    (.connect :: emitRow ++ [.take 1, .write 1]) (by decide)
  obtain ⟨m, hm, hanswer⟩ := map_eq_some_iff.mp hsent
  have := (hall _ s 1 hs).first m hm
  rw [hanswer] at this
  cases this

end Server

end AgentSight.Bridge
