import AgentSight.Bridge.Link
import AgentSight.Bridge.Resume

/-!
# Reconnecting after a cut

A client that is cut off remembers the greatest sequence it has received, over all its
connections, and resumes after it. Nothing is lost silently as long as sequences reach the client
in increasing order, and the queue keeps live broadcasts in order. Two kinds of message are
numbered on their own, when they are built: the gap notice, which the writer numbers after taking
the queue and writes before what it took, and the rows of a snapshot. Written ahead of an older
broadcast, they move the client's mark past it. So does a live broadcast that is written to a
client that has reconnected ahead of what its resume replays.

`writesInOrder` is the condition on a step that this does not happen to a client;
`reconnect_accounted` shows that in every run that meets it nothing is lost, however often the
client reconnects, and `reconnect_loses_after_overflow` is the run of an ordinary overflow in
which something is.
-/

namespace AgentSight.Bridge

open SequencedStream Transition List Writer

/-! ### What a client has received -/

/-- The range a gap notice announces. -/
def ViewMutation.gapRange : ViewMutation → List (Mark ℕ)
  | .captureGapObserved fromSequence toSequence _ => [.range fromSequence toSequence]
  | _ => []

/-- What a message accounts for once it is received: its own sequence and, if it is a gap
notice, the range it announces. -/
def BridgeMessage.account : BridgeMessage → List (Mark ℕ)
  | .mutation envelope => envelope.mutation.gapRange ++ [.num envelope.sequence]
  | _ => []

def account (messages : List BridgeMessage) : List (Mark ℕ) :=
  messages.flatMap BridgeMessage.account

/-- The sequences received. -/
def received (messages : List BridgeMessage) : List ℕ :=
  messages.filterMap fun
    | .mutation envelope => some envelope.sequence
    | _ => none

/-- The greatest sequence received, 0 before the first. -/
def highest (messages : List BridgeMessage) : ℕ := (received messages).foldr max 0

/-- Some received gap notice announces the sequence. -/
def Announced (messages : List BridgeMessage) (sequence : ℕ) : Prop :=
  ∃ envelope lo hi reason, .mutation envelope ∈ messages ∧
    envelope.mutation = .captureGapObserved lo hi reason ∧ lo ≤ sequence ∧ sequence ≤ hi

/-- The number the envelope carries was taken when it was built, for this connection. -/
def ViewMutationEnvelope.isSynthetic (envelope : ViewMutationEnvelope) : Bool :=
  envelope.mutation.isGap || decide (envelope.operation = .snapshotReconstruction)

@[simp]
theorem account_append (ms ms' : List BridgeMessage) :
    account (ms ++ ms') = account ms ++ account ms' :=
  flatMap_append

@[simp]
theorem account_singleton (m : BridgeMessage) : account [m] = m.account := by
  simp [account]

variable {ms : List BridgeMessage}

theorem account_eq_nil (h : ∀ m ∈ ms, m.IsControl) : account ms = [] := by
  refine flatMap_eq_nil_iff.mpr fun m hm => ?_
  cases m with
  | mutation envelope => exact absurd rfl (h _ hm envelope)
  | _ => rfl

theorem marks_of_isControl {m : BridgeMessage} (h : m.IsControl) : m.marks = [] := by
  cases m with
  | mutation envelope => exact absurd rfl (h envelope)
  | _ => rfl

theorem delivered_account {k : ℕ} (h : Delivered (account ms) k) :
    (∃ envelope, .mutation envelope ∈ ms ∧ envelope.sequence = k) ∨ Announced ms k := by
  obtain ⟨mark, hmark, hcov⟩ := h
  obtain ⟨m, hm, hmark⟩ := mem_flatMap.mp hmark
  cases m with
  | mutation envelope =>
    rw [BridgeMessage.account, mem_append, mem_singleton] at hmark
    rcases hmark with hmark | rfl
    · refine .inr ?_
      cases hg : envelope.mutation with
      | captureGapObserved lo hi reason =>
        rw [hg, ViewMutation.gapRange, mem_singleton] at hmark
        subst hmark
        exact ⟨envelope, lo, hi, reason, hm, hg, hcov⟩
      | _ => simp [hg, ViewMutation.gapRange] at hmark
    · exact .inl ⟨envelope, hm, hcov⟩
  | _ => simp [BridgeMessage.account] at hmark

theorem delivered_of_mem {e : ViewMutationEnvelope}
    (h : .mutation e ∈ ms) : Delivered (account ms) e.sequence :=
  ⟨.num e.sequence, mem_flatMap.mpr ⟨_, h, by simp [BridgeMessage.account]⟩, rfl⟩

theorem Announced.delivered {k : ℕ} (h : Announced ms k) : Delivered (account ms) k := by
  obtain ⟨envelope, lo, hi, reason, hm, hg, hk⟩ := h
  exact ⟨.range lo hi, mem_flatMap.mpr ⟨_, hm, by simp [BridgeMessage.account, hg,
    ViewMutation.gapRange]⟩, hk⟩

/-- The greatest sequence received was received with some message. -/
theorem exists_split_of_le_highest {k : ℕ} (hpos : 0 < k) (hk : k ≤ highest ms) :
    ∃ pre envelope post, ms = pre ++ .mutation envelope :: post ∧ k ≤ envelope.sequence := by
  induction ms with
  | nil => simp [highest, received] at hk; omega
  | cons m ms ih =>
    by_cases hrest : k ≤ highest ms
    · obtain ⟨pre, envelope, post, rfl, hle⟩ := ih hrest
      exact ⟨m :: pre, envelope, post, rfl, hle⟩
    · cases m with
      | mutation envelope =>
        refine ⟨[], envelope, ms, rfl, ?_⟩
        simp only [highest, received, filterMap_cons, foldr_cons] at hk hrest
        omega
      | _ => exact absurd hk hrest

/-! ### The property and the condition -/

/-- A client over all its connections. One whose resume is refused starts over, as another
client. -/
structure Client where
  /-- The connection it has now. -/
  conn : ℕ
  /-- What it received over its earlier connections. -/
  past : List BridgeMessage
  /-- The length of the log when its first connection registered. -/
  since : ℕ

namespace Client

variable (client : Client) (s : Server)

/-- **Reconnecting loses nothing silently.** Whatever part of what was written to its connection
the client has received, a resume after the greatest sequence it ever received is either refused
or leaves every envelope broadcast since it first registered accounted for: received, replayed,
or inside an announced gap. -/
def NoSilentLoss : Prop :=
  ∀ got, got <+: (s.peers client.conn).sent →
    ∀ L, s.hub.resume (highest (client.past ++ got)) = .ok L → ∀ e ∈ s.log.drop client.since,
      .mutation e ∈ client.past ++ got ∨ e ∈ L ∨ Announced (client.past ++ got) e.sequence

/-- What the client has received if it is not cut off before. -/
def heard : List BridgeMessage := client.past ++ (s.peers client.conn).sent

/-- Of the envelopes those that nothing written to the client accounts for. -/
def unheard (envelopes : List ViewMutationEnvelope) : List ViewMutationEnvelope :=
  envelopes.filter fun e => !decide (Delivered (account (client.heard s)) e.sequence)

/-- What the client is still owed of what was broadcast since it first registered or is about to
be. -/
def owed : List ViewMutationEnvelope :=
  client.unheard s (s.log.drop client.since ++ s.emission.toList)

/-- The part of it that was broadcast before the client registered the connection it has now,
which is for a resume to replay. -/
def toReplay : List ViewMutationEnvelope :=
  client.unheard s ((s.log.drop client.since).take ((s.peers client.conn).since - client.since))

/-- Nothing with a smaller sequence, outside the gap that the envelope announces, waits: for a
gap notice or a snapshot row nothing that is owed, for any other mutation nothing that is to be
replayed. -/
def NothingBelow (g : ViewMutationEnvelope) : Prop :=
  ∀ e ∈ if g.isSynthetic then client.owed s else client.toReplay s,
    g.sequence < e.sequence ∨ Delivered (BridgeMessage.account (.mutation g)) e.sequence

instance (g : ViewMutationEnvelope) : Decidable (client.NothingBelow s g) :=
  inferInstanceAs (Decidable (∀ e ∈ ite _ _ _, _))

end Client

/-- A server and a client of it, once that has connected. -/
structure Reconnects where
  server : Server
  client : Option Client

inductive ClientAction where
  | server (a : Action)
  /-- The client connects; if it was connected, it is cut off after that many of the messages
  written to its connection. -/
  | connect (received : ℕ)

namespace Reconnects

def init (config : BridgeServerConfig) : Reconnects := ⟨.init config, none⟩

/-- The client with the connection that the server opens next. -/
def rejoined (t : Reconnects) (received : ℕ) : Client where
  conn := t.server.hub.nextConnectionId + 1
  past := match t.client with
    | none => []
    | some client => client.past ++ (t.server.peers client.conn).sent.take received
  since := match t.client with
    | none => t.server.log.length
    | some client => client.since

def step (bodyBytes : BridgeMessage → ℕ) (t : Reconnects) : ClientAction → Option Reconnects
  | .server a => (t.server.step bodyBytes a).map fun server => { t with server }
  | .connect received =>
    (t.server.step bodyBytes .connect).map fun server => ⟨server, some (t.rejoined received)⟩

/-- The condition on a step: no mutation is written to the client ahead of one with a smaller
sequence. -/
def writesInOrder (t : Reconnects) : ClientAction → Bool
  | .server (.write id) => t.client.all fun client => id ≠ client.conn ||
      match (t.server.peers id).writer.next with
      | some (.mutation g, _) => client.NothingBelow t.server g
      | _ => true
  | _ => true

/-- The claim of a client that has connected. -/
def NoSilentLoss (t : Reconnects) : Prop :=
  ∀ client, t.client = some client → client.NoSilentLoss t.server

end Reconnects

/-! ### The invariant of a connection -/

/-- What the writer's load accounts for when it is written out. -/
def Writer.marks : Writer → List (Mark ℕ)
  | .writing gap messages => gapMarks gap ++ messages.flatMap BridgeMessage.marks
  | .notice envelope messages =>
    envelope.mutation.gapRange ++ messages.flatMap BridgeMessage.marks
  | _ => []

/-- What the writer's load and the queue account for, in the order of writing. -/
def Conn.pipe (c : Conn) : List (Mark ℕ) := c.writer.marks ++ c.queue.marks

/-- The sequences broadcast. -/
def broadcastNums (log : List ViewMutationEnvelope) : Set ℕ := {k | ∃ e ∈ log, e.sequence = k}

/-- The sequences broadcast since the connection registered that nothing written to its client,
over this connection or before it (`past`), accounts for. -/
def Conn.owedNums (past : List BridgeMessage) (log : List ViewMutationEnvelope) (c : Conn) :
    Set ℕ :=
  {k | k ∈ broadcastNums (log.drop c.since) ∧ ¬ Delivered (account (past ++ c.sent)) k}

/-- The account of a connection and its client: what is owed of what was broadcast since the
connection registered is in the pipe, in order, and nothing written to the client ran ahead of
what was broadcast before it since the client first registered. -/
structure Conn.Accounted (past : List BridgeMessage) (first : ℕ) (log : List ViewMutationEnvelope)
    (emission : Option ViewMutationEnvelope) (c : Conn) : Prop where
  since_le : c.since ≤ log.length
  order : c.writer ≠ .done → InOrder (broadcastNums log) (c.owedNums past log) c.pipe
  covers : c.writer ≠ .done → c.registered = true → c.queue.closed = false →
    Covers (c.owedNums past log) c.pipe
  first_le : first ≤ c.since
  written : ∀ pre g post, past ++ c.sent = pre ++ .mutation g :: post →
    ∀ e ∈ log.drop first ++ emission.toList, e.sequence ≤ g.sequence →
      Delivered (account (pre ++ [.mutation g])) e.sequence

variable {g : ViewMutationEnvelope} {writer : Writer} {past : List BridgeMessage} {first : ℕ}

section Account

variable {log : List ViewMutationEnvelope} {emission : Option ViewMutationEnvelope} {c : Conn}

/-- The connection as it is registered. -/
def Conn.opened (capacity since : ℕ) : Conn where
  registered := true
  queue := .new capacity
  sends := []
  writer := .writing none []
  since := since
  resumes := []
  sent := []

/-- The account does not depend on what the reader has still to do. -/
theorem Conn.Accounted.with_sends (h : c.Accounted past first log emission)
    (sends : List BridgeMessage) (resumes : List ℕ) :
    ({ c with sends := sends, resumes := resumes } : Conn).Accounted past first log emission :=
  ⟨h.since_le, h.order, h.covers, h.first_le, h.written⟩

/-- A new connection is owed nothing broadcast since it registered. -/
theorem Conn.accounted_opened (capacity : ℕ) (hfirst : first ≤ log.length)
    (hpast : ∀ pre g post, past = pre ++ .mutation g :: post →
      ∀ e ∈ log.drop first ++ emission.toList, e.sequence ≤ g.sequence →
        Delivered (account (pre ++ [.mutation g])) e.sequence) :
    (Conn.opened capacity log.length).Accounted past first log emission where
  since_le := le_rfl
  order _ := inOrder_of_nothing_owed fun k hk => by simp [owedNums, broadcastNums, opened] at hk
  covers _ _ _ := fun k hk => by simp [owedNums, broadcastNums, opened] at hk
  first_le := hfirst
  written pre g post h := hpast pre g post (by simpa [opened] using h)

section

variable (h : c.Accounted past first log emission)
include h

/-- A message pushed to a connection that is open and registered, or one without a live
number pushed to any, keeps the account. -/
theorem Conn.Accounted.push {m : BridgeMessage}
    (hm : m.IsControl ∨ c.registered = true) :
    ({ c with queue := (c.queue.push m).1 } : Conn).Accounted past first log emission where
  since_le := h.since_le
  order hw := by
    refine OutboundQueue.inOrder_push (h.order hw) fun hc n hn _ k hk _ => ?_
    rcases hm with hctl | hreg
    · simp [marks_of_isControl hctl] at hn
    · exact h.covers hw hreg hc k hk
  covers hw hreg hc := by
    have hc' : c.queue.closed = false := by simpa using hc
    exact OutboundQueue.covers_push hc' fun k hk => .inl (h.covers hw hreg hc' k hk)
  first_le := h.first_le
  written := h.written

theorem Conn.Accounted.deliver (m : BridgeMessage) :
    (c.deliver m).Accounted past first log emission := by
  rw [Conn.deliver]
  split
  · next hreg => exact h.push (.inr hreg)
  · exact h

/-- Control messages written change no account. -/
theorem Conn.Accounted.write_control
    {messages : List BridgeMessage} (hctl : ∀ m ∈ messages, m.IsControl)
    (hmarks : writer.marks = c.writer.marks) (hdone : writer ≠ .done → c.writer ≠ .done) :
    ({ c with writer := writer, sent := c.sent ++ messages } : Conn).Accounted
      past first log emission := by
  have howed : ({ c with writer := writer, sent := c.sent ++ messages } : Conn).owedNums past log =
      c.owedNums past log := by
    simp [owedNums, account_eq_nil hctl]
  refine ⟨h.since_le, fun hw => ?_, fun hw hreg hc => ?_, h.first_le, fun pre g post hsent => ?_⟩
  · rw [howed, pipe, hmarks]
    exact h.order (hdone hw)
  · rw [howed, pipe, hmarks]
    exact h.covers (hdone hw) hreg hc
  · rw [← append_assoc] at hsent
    rcases append_eq_append_iff.mp hsent with ⟨as, rfl, hm⟩ | ⟨bs, hsent', hpost⟩
    · exact absurd rfl (hctl (.mutation g) (by simp [hm]) g)
    · cases bs with
      | nil => exact absurd rfl (hctl (.mutation g) (by simp at hpost; simp [← hpost]) g)
      | cons b bs =>
        obtain ⟨rfl, -⟩ : .mutation g = b ∧ _ := by simpa using hpost
        exact h.written pre g bs hsent'

/-- Writing a mutation keeps the account, when nothing issued below its number is still owed
and the message accounts for what it was in the pipe for. -/
theorem Conn.Accounted.write_mutation {front : List (Mark ℕ)}
    (hdone : c.writer ≠ .done) (hmarks : c.writer.marks = front ++ writer.marks)
    (hfront : ∀ k, Delivered front k → Delivered (BridgeMessage.account (.mutation g)) k)
    (hahead : ∀ e ∈ log.drop first ++ emission.toList, e.sequence ≤ g.sequence →
      ¬ Delivered (account (past ++ c.sent)) e.sequence →
        Delivered (BridgeMessage.account (.mutation g)) e.sequence) :
    ({ c with writer := writer, sent := c.sent ++ [.mutation g] } : Conn).Accounted
      past first log emission := by
  have hpipe : c.pipe =
      front ++ ({ c with writer := writer, sent := c.sent ++ [.mutation g] } : Conn).pipe := by
    simp [pipe, hmarks]
  -- what is written is owed no longer
  have howed : ∀ k ∈ ({ c with writer := writer, sent := c.sent ++ [.mutation g] } :
      Conn).owedNums past log, k ∈ c.owedNums past log ∧ ¬ Delivered front k := by
    rintro k ⟨hk, hnot⟩
    simp only [← append_assoc, account_append, account_singleton, delivered_append, not_or] at hnot
    exact ⟨⟨hk, by simpa using hnot.1⟩, fun hd => hnot.2 (hfront k hd)⟩
  refine ⟨h.since_le, fun _ => ?_, fun _ hreg hc => ?_, h.first_le,
    fun pre g' post hsent e he hle => ?_⟩
  · exact (hpipe ▸ h.order hdone).drop_front howed
  · exact (hpipe ▸ h.covers hdone hreg hc).drop_front howed
  · rw [← append_assoc] at hsent
    rcases append_eq_append_iff.mp hsent with ⟨as, rfl, hm⟩ | ⟨bs, hsent', hpost⟩
    · cases as with
      | nil =>
        obtain ⟨rfl, -⟩ : g = g' ∧ _ := by simpa using hm
        by_cases hd : Delivered (account (past ++ c.sent)) e.sequence
        · exact hd.mono (by simp)
        · exact (hahead e he hle hd).mono (by simp)
      | cons a as => simp at hm
    · cases bs with
      | nil =>
        obtain ⟨rfl, -⟩ : g' = g ∧ _ := by simpa using hpost
        obtain rfl : past ++ c.sent = pre := by simpa using hsent'
        by_cases hd : Delivered (account (past ++ c.sent)) e.sequence
        · exact hd.mono (by simp)
        · exact (hahead e he hle hd).mono (by simp)
      | cons b bs =>
        obtain ⟨rfl, -⟩ : .mutation g' = b ∧ _ := by simpa using hpost
        exact h.written pre g' bs hsent' e he hle

/-- Taking the queue moves its marks to the writer. -/
theorem Conn.Accounted.take (hwriter : c.writer = .writing none []) :
    ({ c with
        queue := c.queue.take.1
        writer := .ofTaken c.queue.pendingGap c.queue.items } : Conn).Accounted
      past first log emission := by
  have hpipe : ({ c with
      queue := c.queue.take.1
      writer := .ofTaken c.queue.pendingGap c.queue.items } : Conn).pipe = c.pipe := by
    rw [pipe, pipe, hwriter, ofTaken, OutboundQueue.take_marks]
    split
    · next hempty => simp [marks, OutboundQueue.marks, hempty.1, hempty.2]
    · simp [marks, OutboundQueue.marks]
  have hdone : c.writer ≠ .done := by simp [hwriter]
  exact ⟨h.since_le, fun _ => hpipe ▸ h.order hdone,
    fun _ hreg hc => hpipe ▸ h.covers hdone hreg hc, h.first_le, h.written⟩

end

/-- A live number in the pipe is the number of a message on its way. -/
theorem Conn.mem_held_of_num_mem_pipe {n : ℕ} (h : Mark.num n ∈ c.pipe) :
    ∃ envelope, .mutation envelope ∈ c.held ∧ envelope.sequence = n := by
  have hflat : ∀ ms : List BridgeMessage, Mark.num n ∈ ms.flatMap BridgeMessage.marks →
      ∃ envelope, .mutation envelope ∈ ms ∧ envelope.sequence = n := by
    intro ms hn
    obtain ⟨m, hm, hn⟩ := mem_flatMap.mp hn
    cases m with
    | mutation envelope => exact ⟨envelope, hm, by simpa [BridgeMessage.marks, eq_comm] using hn⟩
    | _ => simp [BridgeMessage.marks] at hn
  have hgap : ∀ mutation : ViewMutation, Mark.num n ∉ mutation.gapRange := by
    intro mutation
    cases mutation <;> simp [ViewMutation.gapRange]
  rw [pipe, mem_append] at h
  rcases h with h | h
  · cases hw : c.writer with
    | writing gap messages =>
      rw [hw, marks, mem_append] at h
      obtain ⟨e, he, hn⟩ := hflat _ (h.resolve_left (num_notMem_gapMarks gap))
      exact ⟨e, by simp [held, hw, Writer.messages, he], hn⟩
    | notice envelope messages =>
      rw [hw, marks, mem_append] at h
      obtain ⟨e, he, hn⟩ := hflat _ (h.resolve_left (hgap _))
      exact ⟨e, by simp [held, hw, Writer.messages, he], hn⟩
    | _ => simp [hw, marks] at h
  · rw [OutboundQueue.marks, mem_append] at h
    obtain ⟨e, he, hn⟩ := hflat _ (h.resolve_left (num_notMem_gapMarks _))
    exact ⟨e, by simp [held, he], hn⟩

theorem broadcastNums_append (new : ViewMutationEnvelope) :
    broadcastNums (log ++ [new]) = Set.insert new.sequence (broadcastNums log) := by
  ext k
  simp only [broadcastNums, mem_append, mem_singleton, Set.mem_ofPred_eq]
  constructor
  · rintro ⟨e, he | rfl, rfl⟩
    · exact .inr ⟨e, he, rfl⟩
    · exact .inl rfl
  · rintro (rfl | ⟨e, he, rfl⟩)
    · exact ⟨new, .inr rfl, rfl⟩
    · exact ⟨e, .inl he, rfl⟩

/-- A broadcast keeps the account: its number is above every number on its way. -/
theorem Conn.Accounted.broadcast {envelope new : ViewMutationEnvelope}
    (h : c.Accounted past first log (some envelope)) (hseq : new.sequence = envelope.sequence)
    (habove : ∀ e ∈ log, e.sequence < new.sequence)
    (hnew : Mark.num new.sequence ∉ c.pipe) :
    (c.deliver (.mutation new)).Accounted past first (log ++ [new]) none := by
  have hdrop : (log ++ [new]).drop c.since = log.drop c.since ++ [new] :=
    drop_append_of_le_length h.since_le
  -- only the new number becomes owed
  have howed : c.owedNums past (log ++ [new]) ⊆
      Set.insert new.sequence (c.owedNums past log) := by
    rintro k ⟨hk, hnot⟩
    rw [hdrop, broadcastNums_append] at hk
    exact hk.imp_right fun hk => ⟨hk, hnot⟩
  have horder : c.writer ≠ .done →
      InOrder (broadcastNums (log ++ [new])) (c.owedNums past (log ++ [new])) c.pipe := by
    intro hw
    rw [broadcastNums_append]
    refine ((h.order hw).insert hnew ?_).anti howed
    rintro _ ⟨e, he, rfl⟩
    exact habove e he
  have howed_deliver : (c.deliver (.mutation new)).owedNums past (log ++ [new]) =
      c.owedNums past (log ++ [new]) := rfl
  have hfirst : (log ++ [new]).drop first = log.drop first ++ [new] :=
    drop_append_of_le_length (h.first_le.trans h.since_le)
  have hwritten : ∀ pre g post, past ++ c.sent = pre ++ .mutation g :: post →
      ∀ e ∈ (log ++ [new]).drop first ++ (none : Option ViewMutationEnvelope).toList,
        e.sequence ≤ g.sequence → Delivered (account (pre ++ [.mutation g])) e.sequence := by
    intro pre g post hsent e he hle
    simp only [hfirst, Option.toList_none, append_nil, mem_append,
      mem_singleton] at he
    rcases he with he | rfl
    · exact h.written pre g post hsent e (mem_append_left _ he) hle
    · rw [hseq]
      exact h.written pre g post hsent envelope (by simp) (hseq ▸ hle)
  refine ⟨h.since_le.trans (by simp), fun hw => ?_, fun hw hreg hc => ?_, h.first_le, hwritten⟩
  · rw [howed_deliver]
    by_cases hreg : c.registered = true
    · simp only [pipe, Conn.deliver_queue, Conn.deliver_writer, hreg, if_true]
      refine OutboundQueue.inOrder_push (horder hw) fun hc n hn _ k hk hlt => ?_
      obtain rfl : n = new.sequence := by simpa [BridgeMessage.marks] using hn
      exact h.covers hw hreg hc k ((howed hk).resolve_left hlt.ne)
    · simpa [pipe, Conn.deliver_queue, hreg] using horder hw
  · have hreg' : c.registered = true := hreg
    simp only [pipe, Conn.deliver_queue, Conn.deliver_writer, hreg', if_true,
      OutboundQueue.push_closed] at hc ⊢
    refine OutboundQueue.covers_push hc fun k hk => ?_
    rcases howed hk with rfl | hk
    · exact .inr (by simp [BridgeMessage.marks, Mark.Covers])
    · exact .inl (h.covers hw hreg' hc k hk)

/-- An allocation keeps the account: the new number is above every number written. -/
theorem Conn.Accounted.allocate (h : c.Accounted past first log none)
    {envelope : ViewMutationEnvelope}
    (habove : ∀ g, .mutation g ∈ past ++ c.sent → g.sequence < envelope.sequence) :
    c.Accounted past first log (some envelope) := by
  refine ⟨h.since_le, h.order, h.covers, h.first_le, fun pre g post hsent e he hle => ?_⟩
  simp only [Option.toList_some, mem_append, mem_singleton] at he
  rcases he with he | rfl
  · exact h.written pre g post hsent e (by simpa using he) hle
  · have := habove g (hsent ▸ by simp)
    omega

end Account

/-! ### Every step keeps the account -/

section Step

variable {s s' : Server} {a : Action} {i : ℕ} {fresh : Option ViewMutationEnvelope} {c' : Conn}

/-- Nothing in flight has a smaller number than a broadcast. -/
theorem Server.Sequenced.lt_of_emission (hs : s.Sequenced) (hg : g ∈ s.log)
    {e : ViewMutationEnvelope} (he : e ∈ s.emission.toList) : g.sequence < e.sequence := by
  have hinc := hs.increasing
  rw [Server.issued, map_append, pairwise_append] at hinc
  exact hinc.2.2 g.sequence (mem_map_of_mem hg) e.sequence (mem_map_of_mem he)

/-- What the condition says of the mutation about to be written. -/
def Conn.AheadOfNothing (past : List BridgeMessage) (first : ℕ) (s : Server) (i : ℕ)
    (g : ViewMutationEnvelope) : Prop :=
  ∀ e ∈ s.log.drop first ++ s.emission.toList, e.sequence ≤ g.sequence →
    ¬ Delivered (account (past ++ (s.conn i).sent)) e.sequence →
      g.isSynthetic = true ∨ e ∈ (s.log.drop first).take ((s.conn i).since - first) →
        Delivered (BridgeMessage.account (.mutation g)) e.sequence

/-- A broadcast that comes up in the pipe has nothing below it that was broadcast since the
connection registered. -/
theorem Server.delivered_of_mem_log (hs : s.Sequenced)
    (h : (s.conn i).Accounted past first s.log s.emission) {messages : List BridgeMessage}
    (hw : (s.conn i).writer = .writing none (.mutation g :: messages)) (hg : g ∈ s.log)
    (hahead : Conn.AheadOfNothing past first s i g) :
    ∀ e ∈ s.log.drop first ++ s.emission.toList, e.sequence ≤ g.sequence →
      ¬ Delivered (account (past ++ (s.conn i).sent)) e.sequence →
        Delivered (BridgeMessage.account (.mutation g)) e.sequence := by
  intro e he hle hnot
  rcases mem_append.mp he with hlog | hemission
  · have hsplit := hlog
    rw [← take_append_drop ((s.conn i).since - first) (s.log.drop first), drop_drop,
      Nat.add_sub_cancel' h.first_le] at hsplit
    rcases mem_append.mp hsplit with hbefore | hsince
    · exact hahead e he hle hnot (.inr hbefore)
    · have horder := h.order (by simp [hw])
      rw [Conn.pipe, hw] at horder
      have hge : g.sequence ≤ e.sequence :=
        InOrder.head (n := g.sequence) horder ⟨g, hg, rfl⟩ ⟨⟨e, hsince, rfl⟩, hnot⟩
      simp [BridgeMessage.account, Mark.Covers, le_antisymm hge hle]
  · have := hs.lt_of_emission hg hemission
    omega

theorem Conn.Step.accounted (hs : s.Sequenced) (ht : s.Traced)
    (hid : i ≤ s.hub.nextConnectionId)
    (hok : ∀ g writer, a = .write i → (s.conn i).writer.next = some (.mutation g, writer) →
      AheadOfNothing past first s i g)
    (hstep : Conn.Step s a i fresh (s.conn i) c')
    (h : (s.conn i).Accounted past first s.log s.emission) :
    c'.Accounted past first s.log s.emission := by
  cases hstep with
  | same => exact h
  | opened _ hact hnew => omega
  | control _ hctl => exact h.with_sends _ _
  | replay _ hact hop => exact h.with_sends _ _
  | row _ hop => exact h.with_sends _ _
  | @send _ message rest hsends => exact (h.deliver message).with_sends rest _
  | sendControl _ hctl => exact h.deliver _
  | pushControl _ hctl => exact h.push (.inl hctl)
  | closed => exact ⟨h.since_le, h.order, fun _ _ hc => by simp at hc, h.first_le, h.written⟩
  | unregistered =>
    exact ⟨h.since_le, h.order, fun _ hreg => by simp at hreg, h.first_le, h.written⟩
  | took _ hwriter => exact h.take hwriter
  | @numbered _ envelope lo hi reason messages hwriter hgap =>
    have hmarks : (Writer.notice envelope messages).marks = (s.conn i).writer.marks := by
      simp [marks, hwriter, hgap, ViewMutation.gapRange]
    have hctl : ∀ m ∈ ([] : List BridgeMessage), m.IsControl := by simp
    simpa using h.write_control hctl hmarks (fun _ => by simp [hwriter])
  | @wrote _ message writer hact hnext =>
    rcases Writer.next_eq_some hnext with ⟨g, messages, hw, rfl, rfl⟩ | ⟨messages, hw, rfl⟩
    · -- a gap notice: the step writes it in order
      obtain ⟨hgap, -⟩ := ht.notice i g messages hw
      have hmarks : (s.conn i).writer.marks =
          g.mutation.gapRange ++ (Writer.writing none messages).marks := by
        simp [hw, marks]
      refine h.write_mutation (by simp [hw]) hmarks
        (fun k hd => hd.mono (subset_append_left _ _)) fun e he hle hnot => ?_
      exact hok g _ hact hnext e he hle hnot
        (.inl (by simp [ViewMutationEnvelope.isSynthetic, hgap]))
    · cases message with
      | mutation g =>
        have hmarks : (s.conn i).writer.marks =
            [.num g.sequence] ++ (Writer.writing none messages).marks := by
          simp [hw, marks, BridgeMessage.marks]
        refine h.write_mutation (by simp [hw]) hmarks
          (fun k hd => hd.mono (subset_append_right _ _)) ?_
        have hahead := hok g _ hact hnext
        have hheld : .mutation g ∈ (s.conn i).held := by simp [Conn.held, hw, Writer.messages]
        -- a live mutation is in order by its place in the queue, a reconstruction by the step
        rcases ht.held i g hheld with hlog | ⟨hop, -⟩
        · exact Server.delivered_of_mem_log hs h hw hlog hahead
        · intro e he hle hnot
          exact hahead e he hle hnot (.inl (by simp [ViewMutationEnvelope.isSynthetic, hop]))
      | _ =>
        exact h.write_control (by simp [BridgeMessage.IsControl])
          (by simp [hw, marks, BridgeMessage.marks]) (fun _ => by simp [hw])
  | stopped =>
    exact ⟨h.since_le, fun hw => absurd rfl hw, fun hw => absurd rfl hw, h.first_le, h.written⟩
  | idled _ hwriter hctl hold =>
    refine h.write_control hctl ?_ fun _ => ?_
    · rcases hwriter with rfl | rfl | rfl <;> rcases hold with hold | hold | hold <;>
        simp [hold, marks]
    · rcases hold with hold | hold | hold <;> simp [hold]

namespace Server

/-- Every mutation written has a number the counter has passed. -/
theorem Traced.sent_le (hs : s.Sequenced) (ht : s.Traced)
    (hg : .mutation g ∈ (s.conn i).sent) : g.sequence ≤ s.hub.sequence := by
  rcases ht.sent i g hg with hlog | ⟨-, hfresh⟩
  · exact hs.le g (mem_issued_of_mem_log hlog)
  · exact hfresh.1

theorem accounted_of_effect {id : ℕ} (hs : s.Sequenced) (ht : s.Traced)
    (hid : id ≤ s.hub.nextConnectionId)
    (hpast : ∀ g, .mutation g ∈ past → g.sequence ≤ s.hub.sequence)
    (hok : ∀ g writer, a = .write id → (s.conn id).writer.next = some (.mutation g, writer) →
      Conn.AheadOfNothing past first s id g)
    (he : Effect s a s') (h : (s.conn id).Accounted past first s.log s.emission) :
    (s'.conn id).Accounted past first s'.log s'.emission := by
  cases he with
  | allocated envelope hconfig hnone hsome hseq hop hcount hlog hreplay hconn =>
    rw [hconn, hlog, hsome]
    refine (hnone ▸ h).allocate fun g hg => ?_
    have := (mem_append.mp hg).elim (hpast g) (ht.sent_le hs)
    omega
  | broadcast nowNs envelope hact hconfig hsome hnone hcount hlog hreplay hconn =>
    rw [hconn, hlog, hnone]
    have habove : ∀ e ∈ s.log, e.sequence < envelope.sequence := fun e he =>
      hs.lt_of_emission he (by simp [hsome])
    refine (hsome ▸ h).broadcast (by simp) (by simpa using habove) fun hmem => ?_
    -- its number is on no other message of the connection
    obtain ⟨e, he, hseq⟩ := Conn.mem_held_of_num_mem_pipe hmem
    rw [BridgeHub.stamp_sequence] at hseq
    rcases ht.held id e he with hlog | ⟨-, hfresh⟩
    · exact (habove e hlog).ne hseq
    · exact hfresh.2 envelope (by simp [issued, hsome]) hseq.symm
  | notified message hconfig hctl hemission hcount hlog hreplay hconn =>
    rw [hconn, hlog, hemission]
    exact h.deliver message
  | conn j fresh hconfig hemission hcount hfresh hlog hreplay hconn hstep =>
    rw [hlog, hemission]
    rcases eq_or_ne id j with rfl | hj
    · exact hstep.accounted hs ht hid hok h
    · exact hconn id hj ▸ h

variable {bodyBytes : BridgeMessage → ℕ} {config : BridgeServerConfig}

/-- Ids of connections are handed out in order. -/
theorem nextConnectionId_le (h : s.step bodyBytes a = some s') :
    s.hub.nextConnectionId ≤ s'.hub.nextConnectionId := by
  obtain ⟨nowNs, envelope, -, -, hhub⟩ | ⟨-, hnext, -⟩ | ⟨-, hcounts⟩ := counts_of_step h
  · exact hhub ▸ le_rfl
  · omega
  · exact hcounts.nextConnectionId.ge

/-- A new connection, next to what there was. -/
theorem conn_of_connect (h : s.step bodyBytes .connect = some s') :
    s'.log = s.log ∧ s'.emission = s.emission ∧
      s'.hub.nextConnectionId = s.hub.nextConnectionId + 1 ∧
      s'.conn (s.hub.nextConnectionId + 1) =
        .opened s.hub.config.outboundCapacity s.log.length := by
  obtain ⟨⟨hub, id⟩, hreg, rfl⟩ := Option.map_eq_some_iff.mp h
  simp only [BridgeHub.registerConnection, Option.ite_none_left_eq_some, Option.some.injEq,
    Prod.mk.injEq] at hreg
  obtain ⟨-, rfl, rfl⟩ := hreg
  exact ⟨rfl, rfl, rfl, by simp [Conn.opened, Peer.new, BridgeHub.isRegistered]⟩

end Server

/-! ### The account of a client -/

/-- The client's part of the account: its connection's account, and where what it received over
the earlier ones comes from. -/
structure Client.Accounted (client : Client) (s : Server) : Prop where
  conn_le : client.conn ≤ s.hub.nextConnectionId
  past : ∀ g, .mutation g ∈ client.past → g ∈ s.log ∨ s.Fresh g
  account : (s.conn client.conn).Accounted client.past client.since s.log s.emission

namespace Client.Accounted

variable {client : Client} {bodyBytes : BridgeMessage → ℕ}

theorem le (hs : s.Sequenced) (h : client.Accounted s) (hg : .mutation g ∈ client.past) :
    g.sequence ≤ s.hub.sequence :=
  (h.past g hg).elim (fun hlog => hs.le g (Server.mem_issued_of_mem_log hlog))
    fun hfresh => hfresh.1

/-- The condition of the step, for the client's connection. -/
theorem aheadOfNothing {writer : Writer} {t : Reconnects} (ht : t.client = some client)
    (hok : t.writesInOrder (.server (.write client.conn)) = true)
    (hnext : (t.server.conn client.conn).writer.next = some (.mutation g, writer)) :
    Conn.AheadOfNothing client.past client.since t.server client.conn g := by
  have hnext' : (t.server.peers client.conn).writer.next = some (.mutation g, writer) := hnext
  have hbelow : client.NothingBelow t.server g := by
    simpa [Reconnects.writesInOrder, ht, hnext'] using hok
  intro e he hle hnot hcase
  refine (hbelow e ?_).resolve_left (not_lt.mpr hle)
  split
  · exact mem_filter.mpr ⟨he, by simpa [heard, Server.conn] using hnot⟩
  · next hlive =>
    exact mem_filter.mpr ⟨hcase.resolve_left hlive, by simpa [heard, Server.conn] using hnot⟩

/-- A step of the server keeps the account of its client. -/
theorem server_step {t : Reconnects} (ht : t.client = some client) (hs : t.server.Sequenced)
    (htraced : t.server.Traced) (h : client.Accounted t.server)
    (hok : t.writesInOrder (.server a) = true) (hstep : t.server.step bodyBytes a = some s') :
    client.Accounted s' := by
  have he := Server.step_effect hstep
  refine ⟨h.conn_le.trans (Server.nextConnectionId_le hstep), fun g hg => ?_, ?_⟩
  · exact (h.past g hg).imp (Server.log_subset_of_effect he ·) (·.effect he)
  · refine Server.accounted_of_effect hs htraced h.conn_le (fun g hg => h.le hs hg)
      (fun g writer hact hnext => ?_) he h.account
    subst hact
    exact aheadOfNothing ht hok hnext

/-- A client that connects for the first time. -/
theorem first_connect {t : Reconnects} (ht : t.client = none) (received : ℕ)
    (hstep : t.server.step bodyBytes .connect = some s') :
    (t.rejoined received).Accounted s' := by
  obtain ⟨hlog, hemission, hnext, hconn⟩ := Server.conn_of_connect hstep
  refine ⟨hnext.ge, by simp [Reconnects.rejoined, ht], ?_⟩
  simp only [Reconnects.rejoined, ht, hconn, hlog]
  exact Conn.accounted_opened _ le_rfl fun pre g post h => by simp at h

/-- A client that is cut off and connects again. -/
theorem reconnect {t : Reconnects} (ht : t.client = some client) (h : client.Accounted t.server)
    (htraced : t.server.Traced) (received : ℕ)
    (hstep : t.server.step bodyBytes .connect = some s') :
    (t.rejoined received).Accounted s' := by
  obtain ⟨hlog, hemission, hnext, hconn⟩ := Server.conn_of_connect hstep
  have he := Server.step_effect hstep
  refine ⟨hnext.ge, fun g hg => ?_, ?_⟩
  · simp only [Reconnects.rejoined, ht, mem_append] at hg
    have hbefore : g ∈ t.server.log ∨ t.server.Fresh g := hg.elim (h.past g) fun hsent =>
      (htraced.sent client.conn g (mem_of_mem_take hsent)).imp_right And.right
    exact hbefore.imp (Server.log_subset_of_effect he ·) (·.effect he)
  · have hfirst : client.since ≤ s'.log.length := by
      rw [hlog]
      exact h.account.first_le.trans h.account.since_le
    simp only [Reconnects.rejoined, ht, hconn, ← hlog]
    refine Conn.accounted_opened _ hfirst fun pre g post hsplit => ?_
    rw [hlog, hemission]
    -- what it received is the beginning of what was written to it
    refine h.account.written pre g (post ++ (t.server.peers client.conn).sent.drop received) ?_
    rw [← cons_append, ← append_assoc, ← hsplit, append_assoc, take_append_drop]
    rfl

end Client.Accounted

namespace Reconnects

variable {t t' : Reconnects} {bodyBytes : BridgeMessage → ℕ} {config : BridgeServerConfig}

/-- What holds in every state of a run that meets the condition. -/
structure Sound (config : BridgeServerConfig) (t : Reconnects) : Prop where
  config_eq : t.server.hub.config = config
  sequenced : t.server.Sequenced
  traced : t.server.Traced
  accounted : ∀ client, t.client = some client → client.Accounted t.server

theorem sound_init (config : BridgeServerConfig) : (init config).Sound config where
  config_eq := rfl
  sequenced := Server.sequenced_init config
  traced := Server.traced_init config
  accounted _ h := by cases h

theorem Sound.of_server_step (h : t.Sound config)
    (hstep : t.server.step bodyBytes a = some t'.server)
    (haccounted : ∀ client, t'.client = some client → client.Accounted t'.server) :
    t'.Sound config := by
  have he := Server.step_effect hstep
  exact ⟨(Server.config_of_effect he).trans h.config_eq, h.sequenced.effect he,
    h.traced.effect h.sequenced he, haccounted⟩

theorem Sound.step {a : ClientAction} (h : t.Sound config) (hok : t.writesInOrder a = true)
    (hstep : t.step bodyBytes a = some t') : t'.Sound config := by
  cases a with
  | server a =>
    obtain ⟨server, hserver, rfl⟩ := Option.map_eq_some_iff.mp hstep
    refine h.of_server_step hserver fun client hclient => ?_
    exact (h.accounted client hclient).server_step (t := t) hclient h.sequenced h.traced hok hserver
  | connect received =>
    obtain ⟨server, hserver, rfl⟩ := Option.map_eq_some_iff.mp hstep
    refine h.of_server_step hserver fun client hclient => ?_
    obtain rfl := Option.some.inj hclient
    cases ht : t.client with
    | none => exact Client.Accounted.first_connect ht received hserver
    | some client =>
      exact Client.Accounted.reconnect ht (h.accounted client ht) h.traced received hserver

/-! ### Nothing is lost -/

/-- **No silent loss.** In every run whose steps meet `writesInOrder`, on a server that buffers at
least one envelope, however often the client was cut off and connected again and whatever it has
received, resuming after the greatest sequence received leaves nothing broadcast since it first
registered unaccounted for. -/
theorem reconnect_accounted (hcap : 0 < config.replayCapacity)
    (h : Reaches (step bodyBytes) (fun t a => t.writesInOrder a = true) (init config) t) :
    t.NoSilentLoss := by
  have hsound : t.Sound config :=
    h.invariant (sound_init config) fun _ _ _ hi hok hstep => hi.step hok hstep
  intro client hclient got hgot L hL e he
  obtain ⟨-, hpast, hacc⟩ := hsound.accounted client hclient
  have hs := hsound.sequenced
  have hlog : e ∈ t.server.log := mem_of_mem_drop he
  rw [← hsound.config_eq] at hcap
  -- up to the greatest number received the writes account for it, above it the replay does
  by_cases hle : e.sequence ≤ highest (client.past ++ got)
  · have hpos := hs.pos e (Server.mem_issued_of_mem_log hlog)
    obtain ⟨pre, g, post, hsplit, hg⟩ := exists_split_of_le_highest hpos hle
    have hsub := hgot.subset
    obtain ⟨rest, hrest⟩ := hgot
    have hheard : client.past ++ (t.server.conn client.conn).sent =
        pre ++ .mutation g :: (post ++ rest) := by
      rw [← cons_append, ← append_assoc, ← hsplit, append_assoc, hrest]
      rfl
    have hd := hacc.written pre g (post ++ rest) hheard e (mem_append_left _ he) hg
    have hd' : Delivered (account (client.past ++ got)) e.sequence := by
      rw [hsplit, append_cons, account_append]
      exact hd.mono (subset_append_left _ _)
    rcases delivered_account hd' with ⟨e', he', hseq⟩ | hann
    · have hknown : e' ∈ t.server.log ∨ t.server.Fresh e' :=
        (mem_append.mp he').elim (hpast e') fun hsent =>
          (hsound.traced.sent client.conn e' (hsub hsent)).imp_right And.right
      rcases hknown with hlog' | hfresh
      · obtain rfl := hs.eq_of_sequence_eq (Server.mem_issued_of_mem_log hlog')
          (Server.mem_issued_of_mem_log hlog) hseq
        exact .inl he'
      · exact absurd hseq.symm (hfresh.2 e (Server.mem_issued_of_mem_log hlog))
    · exact .inr (.inr hann)
  · obtain ⟨hreach, rfl⟩ := Server.resume_eq_ok hL
    have hkept := hs.nothingDiscarded hcap hreach e hlog (not_le.mp hle)
    exact .inr (.inl (mem_filter.mpr ⟨hkept, by simpa using hle⟩))

/-! ### Runs

A queue of two messages and a replay buffer of eight. Three broadcasts overflow the queue; the
gap notice takes sequence 4 and is written before the broadcasts 2 and 3. -/

open Server (emitRow smallConfig)

def served (actions : List Action) : List ClientAction := actions.map .server

def reads (i n : ℕ) : List Action := replicate n (.read i ⟨0, [], 0⟩)

/-- The first connection ends and the second is agreed with; its resume is answered with 2 and
3, of which 2 is written. -/
def resumesAfterOne : List Action :=
  .receive 2 (.hello { (default : BridgeHello) with supportedVersions := [1] }) :: reads 2 3 ++
    [.take 2, .write 2, .write 2,
      .receive 2 (.resume { nodeId := "", bootId := none, afterSequence := 1 })] ++ reads 2 3 ++
    [.take 2, .write 2]

/-- A client receives one of three broadcasts, resumes and receives another one, and connects a
third time after a fourth broadcast: it is given the last two. -/
theorem reconnect_accounted_after_two_cuts :
    ∃ t, Reaches (step fun _ => 0) (fun t a => t.writesInOrder a = true)
        (init (smallConfig 8 8)) t ∧
      t.server.log.length = 4 ∧ t.client.map (fun client => received client.past) = some [1, 2] ∧
      t.NoSilentLoss := by
  obtain ⟨t, ht, hlog, hpast⟩ := exists_reaches_of_run
    (step fun _ => 0) (fun t a => t.writesInOrder a = true) (init (smallConfig 8 8))
    (Q := fun t => t.server.log.length = 4 ∧
      t.client.map (fun client => received client.past) = some [1, 2])
    (.connect 0 :: served (emitRow ++ emitRow ++ emitRow ++ [.take 1, .write 1, .hangUp 1] ++
      reads 1 2) ++ .connect 1 :: served (resumesAfterOne ++ emitRow ++ [.hangUp 2] ++
      reads 2 2) ++ [.connect 3]) (by decide)
  exact ⟨t, ht, hlog, hpast, reconnect_accounted (by decide) ht⟩

/-- **A loss.** Cut off right after the gap notice, the client resumes after 4 and is replayed
nothing: the broadcasts 2 and 3 are neither received, nor replayed, nor announced. -/
theorem reconnect_loses_after_overflow :
    ∃ t, Reaches (step fun _ => 0) always (init (smallConfig 2 8)) t ∧ ¬ t.NoSilentLoss := by
  obtain ⟨t, ht, client, hclient, hpast, hresume, e, he, hnot⟩ := exists_reaches_of_run
    (step fun _ => 0) always (init (smallConfig 2 8))
    (Q := fun t => ∃ client ∈ t.client, client.past = [] ∧
      t.server.hub.resume (highest (t.server.peers client.conn).sent) = .ok [] ∧
      ∃ e ∈ t.server.log.drop client.since,
        ¬ Delivered (account (t.server.peers client.conn).sent) e.sequence)
    (.connect 0 :: served (emitRow ++ emitRow ++ emitRow ++
      [.take 1, .numberGap 1 0, .write 1])) (by decide)
  refine ⟨t, ht, fun hloss => ?_⟩
  have hlost := hloss client hclient _ prefix_rfl
  rw [hpast] at hlost
  rcases hlost [] hresume e he with h | h | h
  · exact hnot (delivered_of_mem h)
  · cases h
  · exact hnot h.delivered

end Reconnects

end Step

end AgentSight.Bridge
