import AgentSight.Bridge.OutboundQueue

/-!
# The account of an outbound queue

Whatever pushes, takes and a close do to a queue, in whatever order, what went in before the
close is what came out, what is still queued and what was evicted; the first two are in push
order, and the sequence of every evicted mutation lies in a range that a take has returned or
that is still pending. Eviction widens the pending range and nothing else shrinks it but a
take, so one step of the eviction loop, `evict_account`, carries the whole argument.
-/

namespace AgentSight.Bridge

open List

/-- The sequence lies in the range of a gap. -/
def InGap (n : ℕ) (gap : ℕ × ℕ) : Prop := gap.1 ≤ n ∧ n ≤ gap.2

namespace OutboundQueue

/-- Widening keeps what the range had. -/
theorem inGap_widen_of_inGap {gap gap' : ℕ × ℕ} {message : BridgeMessage} {n : ℕ}
    (h : InGap n gap) (hw : widen (some gap) message = some gap') : InGap n gap' := by
  obtain ⟨lo, hi⟩ := gap
  obtain ⟨lo', hi'⟩ := gap'
  cases message with
  | mutation envelope =>
    obtain ⟨rfl, rfl⟩ : min lo envelope.sequence = lo' ∧ max hi envelope.sequence = hi' := by
      simpa [widen, Option.some.injEq, Prod.mk.injEq] using hw
    simp only [InGap] at h ⊢
    omega
  | _ =>
    obtain ⟨rfl, rfl⟩ : lo = lo' ∧ hi = hi' := by simpa [widen] using hw
    exact h

/-- Widening by a mutation takes its sequence in. -/
theorem inGap_widen_mutation (gap : Option (ℕ × ℕ)) (envelope : ViewMutationEnvelope) :
    ∃ gap', widen gap (.mutation envelope) = some gap' ∧ InGap envelope.sequence gap' := by
  rcases gap with _ | ⟨lo, hi⟩
  · exact ⟨_, rfl, le_rfl, le_rfl⟩
  · exact ⟨_, rfl, min_le_right _ _, le_max_right _ _⟩

/-- What the range had, the widened one has. -/
theorem exists_inGap_widen {gap : Option (ℕ × ℕ)} (message : BridgeMessage) {n : ℕ}
    (h : ∃ g ∈ gap, InGap n g) : ∃ g ∈ widen gap message, InGap n g := by
  obtain ⟨g, rfl, hn⟩ := h
  obtain ⟨g', hg'⟩ : ∃ g', widen (some g) message = some g' := by
    cases message <;> exact ⟨_, rfl⟩
  exact ⟨g', hg', inGap_widen_of_inGap hn hg'⟩

/-- **What the eviction loop does.** It takes messages off the front; the range it leaves has
what the old one had, and every mutation taken off. -/
theorem evict_account (capacity : ℕ) (items : List BridgeMessage) (gap : Option (ℕ × ℕ)) :
    ∃ evicted, items = evicted ++ (evict capacity items gap).1 ∧
      (∀ n, (∃ g ∈ gap, InGap n g) → ∃ g ∈ (evict capacity items gap).2.1, InGap n g) ∧
      ∀ envelope, .mutation envelope ∈ evicted →
        ∃ g ∈ (evict capacity items gap).2.1, InGap envelope.sequence g := by
  induction items generalizing gap with
  | nil => exact ⟨[], rfl, fun _ h => h, by simp⟩
  | cons message items ih =>
    rw [evict]
    split_ifs with hfull
    · obtain ⟨evicted, hitems, hkept, hevicted⟩ := ih (widen gap message)
      refine ⟨message :: evicted, ?_, fun n hn => hkept n (exists_inGap_widen message hn), ?_⟩
      · rw [cons_append, ← hitems]
      · intro envelope henvelope
        rcases mem_cons.mp henvelope with rfl | henvelope
        · -- the message evicted in this round
          obtain ⟨g, hg, hin⟩ := inGap_widen_mutation gap envelope
          exact hkept _ ⟨g, hg, hin⟩
        · exact hevicted envelope henvelope
    · exact ⟨[], rfl, fun _ h => h, by simp⟩

end OutboundQueue

/-! ### Runs of a queue -/

/-- One call on a queue, by any task. -/
inductive QueueOp where
  | push (message : BridgeMessage)
  | close
  | take
  deriving DecidableEq

/-- A queue with the history of the calls made on it. -/
structure QueueRun where
  queue : OutboundQueue
  /-- The messages pushed before the close, in order. -/
  pushed : List BridgeMessage
  /-- The messages the takes returned, in order. -/
  taken : List BridgeMessage
  /-- The ranges the takes returned. -/
  gaps : List (ℕ × ℕ)

namespace QueueRun

def new (capacity : ℕ) : QueueRun where
  queue := .new capacity
  pushed := []
  taken := []
  gaps := []

def step (r : QueueRun) : QueueOp → QueueRun
  | .push message =>
    { r with
      queue := (r.queue.push message).1
      pushed := if r.queue.closed then r.pushed else r.pushed ++ [message] }
  | .close => { r with queue := r.queue.close }
  | .take =>
    let (queue, messages, gap) := r.queue.take
    { r with
      queue
      taken := r.taken ++ messages
      gaps := r.gaps ++ gap.toList }

def after (r : QueueRun) (ops : List QueueOp) : QueueRun := ops.foldl step r

/-- The sequence is inside the pending gap or inside one a take has returned. -/
def Announced (r : QueueRun) (n : ℕ) : Prop :=
  (∃ g ∈ r.queue.pendingGap, InGap n g) ∨ ∃ g ∈ r.gaps, InGap n g

/-- Nothing that was pushed is unaccounted for. -/
structure Accounts (capacity : ℕ) (r : QueueRun) : Prop where
  capacity_eq : r.queue.capacity = max capacity 1
  in_order : (r.taken ++ r.queue.items).Sublist r.pushed
  account : ∃ lost, r.pushed.Perm (r.taken ++ r.queue.items ++ lost) ∧
    ∀ envelope, .mutation envelope ∈ lost → r.Announced envelope.sequence

theorem accounts_new (capacity : ℕ) : (new capacity).Accounts capacity :=
  ⟨rfl, Sublist.refl _, [], Perm.refl _, by simp⟩

variable {capacity : ℕ} {r : QueueRun}

section

variable (h : r.Accounts capacity)
include h

theorem Accounts.push (message : BridgeMessage) :
    (r.step (.push message)).Accounts capacity := by
  obtain ⟨hcapacity, horder, lost, hperm, hlost⟩ := h
  by_cases hclosed : r.queue.closed = true
  · have hsame : r.step (.push message) = r := by
      rw [step, OutboundQueue.push_of_closed hclosed, if_pos hclosed]
    rw [hsame]
    exact ⟨hcapacity, horder, lost, hperm, hlost⟩
  · have hopen : r.queue.closed = false := by simpa using hclosed
    obtain ⟨hitems, hgap⟩ := @OutboundQueue.push_of_open _ message hopen
    obtain ⟨evicted, hsplit, hkept, hevicted⟩ :=
      OutboundQueue.evict_account r.queue.capacity r.queue.items r.queue.pendingGap
    have hpushed : (r.step (.push message)).pushed = r.pushed ++ [message] := if_neg hclosed
    refine ⟨?_, ?_, evicted ++ lost, ?_, ?_⟩
    · rw [← hcapacity, step, OutboundQueue.push, if_neg hclosed]
    · rw [hpushed]
      change (r.taken ++ (r.queue.push message).1.items).Sublist _
      rw [hitems, ← append_assoc]
      refine Sublist.append (Sublist.trans ?_ horder) (Sublist.refl _)
      exact (Sublist.refl r.taken).append (OutboundQueue.evict_suffix _ _ _).sublist
    · -- what was evicted moves over to what is lost
      rw [hpushed]
      change (r.pushed ++ [message]).Perm
        (r.taken ++ (r.queue.push message).1.items ++ (evicted ++ lost))
      rw [hitems]
      rw [hsplit] at hperm
      refine (hperm.append_right [message]).trans ?_
      refine perm_iff_count.mpr fun m => ?_
      simp only [count_append]
      omega
    · intro envelope henvelope
      -- a gap only grows while it is pending
      have hgrown n (hn : r.Announced n) : (r.step (.push message)).Announced n := by
        refine hn.imp_left fun hpending => ?_
        rw [step, hgap]
        exact hkept n hpending
      rcases mem_append.mp henvelope with henvelope | henvelope
      · refine .inl ?_
        rw [step, hgap]
        exact hevicted envelope henvelope
      · exact hgrown _ (hlost envelope henvelope)

theorem Accounts.close : (r.step .close).Accounts capacity :=
  ⟨h.capacity_eq, h.in_order, h.account⟩

theorem Accounts.take : (r.step .take).Accounts capacity := by
  obtain ⟨hcapacity, horder, lost, hperm, hlost⟩ := h
  refine ⟨hcapacity, ?_, lost, ?_, fun envelope henvelope => ?_⟩
  · change (r.taken ++ r.queue.items ++ []).Sublist r.pushed
    rwa [append_nil]
  · change r.pushed.Perm (r.taken ++ r.queue.items ++ [] ++ lost)
    rwa [append_nil]
  · -- the pending range becomes a returned one
    refine .inr ?_
    rcases hlost envelope henvelope with ⟨g, hg, hin⟩ | ⟨g, hg, hin⟩
    · exact ⟨g, mem_append_right _ (Option.mem_toList.mpr hg), hin⟩
    · exact ⟨g, mem_append_left _ hg, hin⟩

theorem Accounts.step (op : QueueOp) : (r.step op).Accounts capacity := by
  cases op with
  | push message => exact h.push message
  | close => exact h.close
  | take => exact h.take

theorem Accounts.after (ops : List QueueOp) :
    (r.after ops).Accounts capacity := by
  induction ops generalizing r with
  | nil => exact h
  | cons op ops ih => exact ih (h.step op)

end

/-- **No silent loss inside a connection.** After every run of pushes, takes and closes on a
queue of any capacity, the queue is within its bound; what came out, followed by what is
queued, is in push order; and what was pushed before the close is what came out, what is
queued and what is lost, where the sequence of every lost mutation is inside the pending gap
or inside a gap that a take returned. -/
theorem no_silent_loss (capacity : ℕ) (ops : List QueueOp) :
    let r := (new capacity).after ops
    r.queue.items.length ≤ max capacity 1 ∧ (r.taken ++ r.queue.items).Sublist r.pushed ∧
      (∃ lost, r.pushed.Perm (r.taken ++ r.queue.items ++ lost) ∧
        ∀ envelope, .mutation envelope ∈ lost → r.Announced envelope.sequence) ∧
      ∀ envelope, .mutation envelope ∈ r.pushed →
        .mutation envelope ∈ r.queue.items ∨ .mutation envelope ∈ r.taken ∨
          r.Announced envelope.sequence := by
  intro r
  obtain ⟨hcapacity, horder, lost, hperm, hlost⟩ := (accounts_new capacity).after ops
  refine ⟨hcapacity ▸ r.queue.items_le, horder, ⟨lost, hperm, hlost⟩, ?_⟩
  intro envelope henvelope
  have hmem := hperm.subset henvelope
  simp only [mem_append] at hmem
  rcases hmem with (htaken | hqueued) | hl
  · exact .inr (.inl htaken)
  · exact .inl hqueued
  · exact .inr (.inr (hlost envelope hl))

end QueueRun

end AgentSight.Bridge
