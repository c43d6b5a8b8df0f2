import AgentSight.Bridge.Protocol
import AgentSight.Lib.SequencedStream

/-!
# The bounded outbound queue of a connection

`OutboundQueue` of `collector/src/server/bridge.rs`. Pushing to a full queue evicts from the
front; evicted mutations widen the range `pendingGap`, which the writer takes together with
the queued messages and announces before them. The capacity is at least one and the queue
never exceeds it; both are fields of the structure.

`marks` is what the queue will account for when it is written out: the pending range first,
then the sequence of every queued mutation. `InOrder.push` and `Covers.push` are all later
modules use of the eviction loop.
-/

namespace AgentSight.Bridge

open SequencedStream List

/-! ### What messages account for -/

/-- The sequence of a mutation message. -/
def BridgeMessage.marks : BridgeMessage → List (Mark ℕ)
  | .mutation envelope => [.num envelope.sequence]
  | _ => []

/-- The range a gap, if there is one, will announce. -/
def gapMarks (gap : Option (ℕ × ℕ)) : List (Mark ℕ) :=
  gap.toList.map fun (lo, hi) => .range lo hi

@[simp]
theorem gapMarks_none : gapMarks none = [] := rfl

@[simp]
theorem gapMarks_some (lo hi : ℕ) : gapMarks (some (lo, hi)) = [.range lo hi] := rfl

theorem num_notMem_gapMarks {n : ℕ} (gap : Option (ℕ × ℕ)) : Mark.num n ∉ gapMarks gap := by
  rcases gap with _ | ⟨lo, hi⟩ <;> simp

/-! ### The queue -/

structure OutboundQueue where
  capacity : ℕ
  items : List BridgeMessage
  closed : Bool
  /-- Sequence range dropped since the client last heard about it. -/
  pendingGap : Option (ℕ × ℕ)
  dropped : ℕ
  capacity_pos : 0 < capacity
  items_le : items.length ≤ capacity
  deriving DecidableEq

namespace OutboundQueue

def new (capacity : ℕ) : OutboundQueue where
  capacity := max capacity 1
  items := []
  closed := false
  pendingGap := none
  dropped := 0
  capacity_pos := by omega
  items_le := by simp

instance : Inhabited OutboundQueue := ⟨new 0⟩

/-- The range after evicting a message: only a mutation widens it. -/
def widen (gap : Option (ℕ × ℕ)) : BridgeMessage → Option (ℕ × ℕ)
  | .mutation envelope =>
    match gap with
    | some (lo, hi) => some (min lo envelope.sequence, max hi envelope.sequence)
    | none => some (envelope.sequence, envelope.sequence)
  | _ => gap

/-- The eviction loop of `push`: the items kept, the range, and how many were evicted. -/
def evict (capacity : ℕ) :
    List BridgeMessage → Option (ℕ × ℕ) → List BridgeMessage × Option (ℕ × ℕ) × ℕ
  | [], gap => ([], gap, 0)
  | message :: items, gap =>
    if capacity ≤ (message :: items).length then
      let (kept, gap', evicted) := evict capacity items (widen gap message)
      (kept, gap', evicted + 1)
    else (message :: items, gap, 0)

variable {capacity : ℕ}

theorem length_evict_lt (hpos : 0 < capacity) (items : List BridgeMessage)
    (gap : Option (ℕ × ℕ)) : (evict capacity items gap).1.length < capacity := by
  induction items generalizing gap with
  | nil => simpa [evict] using hpos
  | cons message items ih =>
    rw [evict]
    split
    · exact ih _
    · next h => exact not_le.mp h

/-- What is kept is a suffix of what was queued. -/
theorem evict_suffix (capacity : ℕ) (items : List BridgeMessage) (gap : Option (ℕ × ℕ)) :
    (evict capacity items gap).1 <:+ items := by
  induction items generalizing gap with
  | nil => simp [evict]
  | cons message items ih =>
    rw [evict]
    split
    · exact (ih _).trans (suffix_cons _ _)
    · exact suffix_refl _

/-- Queue a message. A closed queue refuses it; a full one makes room. The second component
is the number of messages dropped. -/
def push (q : OutboundQueue) (message : BridgeMessage) : OutboundQueue × ℕ :=
  if q.closed then (q, 0)
  else
    let r := evict q.capacity q.items q.pendingGap
    ({ q with
        items := r.1 ++ [message]
        pendingGap := r.2.1
        dropped := q.dropped + r.2.2
        items_le := by
          rw [length_append]
          exact length_evict_lt q.capacity_pos q.items q.pendingGap }, r.2.2)

/-- Stop accepting messages; what is queued stays. -/
def close (q : OutboundQueue) : OutboundQueue := { q with closed := true }

/-- Hand the queued messages and the pending range to the writer. -/
def take (q : OutboundQueue) : OutboundQueue × List BridgeMessage × Option (ℕ × ℕ) :=
  ({ q with items := [], pendingGap := none, items_le := by simp }, q.items, q.pendingGap)

/-- What the queue accounts for when it is written out. -/
def marks (q : OutboundQueue) : List (Mark ℕ) :=
  gapMarks q.pendingGap ++ q.items.flatMap BridgeMessage.marks

section Api

variable {q : OutboundQueue} {message : BridgeMessage}

theorem push_of_closed (h : q.closed = true) : q.push message = (q, 0) := by
  simp [push, h]

theorem push_of_open (h : q.closed = false) :
    (q.push message).1.items = (evict q.capacity q.items q.pendingGap).1 ++ [message] ∧
      (q.push message).1.pendingGap = (evict q.capacity q.items q.pendingGap).2.1 := by
  simp [push, h]

@[simp]
theorem push_closed : (q.push message).1.closed = q.closed := by
  rw [push]
  split <;> rfl

theorem mem_push {m : BridgeMessage} (h : m ∈ (q.push message).1.items) :
    m ∈ q.items ∨ m = message := by
  cases hc : q.closed with
  | true =>
    rw [push_of_closed hc] at h
    exact .inl h
  | false =>
    rw [(push_of_open hc).1, mem_append, mem_singleton] at h
    exact h.imp_left fun h => (evict_suffix _ _ _).subset h

@[simp]
theorem close_closed : q.close.closed = true := rfl

@[simp]
theorem close_items : q.close.items = q.items := rfl

@[simp]
theorem close_marks : q.close.marks = q.marks := rfl

@[simp]
theorem take_marks : q.take.1.marks = [] := rfl

@[simp]
theorem take_items : q.take.1.items = [] := rfl

@[simp]
theorem take_closed : q.take.1.closed = q.closed := rfl

@[simp]
theorem new_marks (capacity : ℕ) : (new capacity).marks = [] := rfl

@[simp]
theorem new_items (capacity : ℕ) : (new capacity).items = [] := rfl

@[simp]
theorem new_closed (capacity : ℕ) : (new capacity).closed = false := rfl

end Api

/-! ### Eviction keeps the account

An evicted mutation moves into the range, which is announced no later than the message would
have been written. -/

variable {message : BridgeMessage}

/-- The widened range accounts for the old one and for the evicted message. -/
theorem delivered_widen {gap : Option (ℕ × ℕ)} {k : ℕ}
    (h : Delivered (gapMarks gap ++ message.marks) k) :
    Delivered (gapMarks (widen gap message)) k := by
  cases message with
  | mutation envelope =>
    rcases gap with _ | ⟨lo, hi⟩
    · simp only [widen, BridgeMessage.marks, Mark.Covers, gapMarks_some, gapMarks_none,
        nil_append, delivered_cons, delivered_nil, or_false] at h ⊢
      omega
    · simp only [widen, BridgeMessage.marks, Mark.Covers, gapMarks_some, delivered_append,
        delivered_cons, delivered_nil, or_false] at h ⊢
      omega
  | _ => simpa [widen, BridgeMessage.marks] using h

variable {live owed : Set ℕ} {w : List (Mark ℕ)}

/-- The marks of the queue while the eviction loop runs. -/
private def loopMarks (items : List BridgeMessage) (gap : Option (ℕ × ℕ)) : List (Mark ℕ) :=
  gapMarks gap ++ items.flatMap BridgeMessage.marks

private theorem loopMarks_cons (message : BridgeMessage) (items : List BridgeMessage)
    (gap : Option (ℕ × ℕ)) :
    w ++ loopMarks (message :: items) gap =
      w ++ (gapMarks gap ++ message.marks) ++ items.flatMap BridgeMessage.marks := by
  simp [loopMarks]

private theorem inOrder_evict (items : List BridgeMessage) (gap : Option (ℕ × ℕ))
    (h : InOrder live owed (w ++ loopMarks items gap)) :
    InOrder live owed
      (w ++ loopMarks (evict capacity items gap).1 (evict capacity items gap).2.1) := by
  induction items generalizing gap with
  | nil => exact h
  | cons message items ih =>
    rw [evict]
    split
    · refine ih _ ?_
      rw [loopMarks_cons] at h
      rw [loopMarks, ← append_assoc]
      exact h.replace (fun k => delivered_widen) fun n hn => absurd hn (num_notMem_gapMarks _)
    · exact h

private theorem covers_evict (items : List BridgeMessage) (gap : Option (ℕ × ℕ))
    (h : Covers owed (w ++ loopMarks items gap)) :
    Covers owed (w ++ loopMarks (evict capacity items gap).1 (evict capacity items gap).2.1) := by
  induction items generalizing gap with
  | nil => exact h
  | cons message items ih =>
    rw [evict]
    split
    · refine ih _ ?_
      rw [loopMarks_cons] at h
      rw [loopMarks, ← append_assoc]
      exact h.replace fun k => delivered_widen
    · exact h

variable {q : OutboundQueue}

/-- After a push, the queue's marks are what eviction left, then the message's own. -/
private theorem marks_push (h : q.closed = false) :
    (q.push message).1.marks = loopMarks (evict q.capacity q.items q.pendingGap).1
        (evict q.capacity q.items q.pendingGap).2.1 ++ message.marks := by
  simp [marks, loopMarks, push_of_open h]

private theorem delivered_evict {items : List BridgeMessage}
    {gap : Option (ℕ × ℕ)} {k : ℕ} (h : Delivered (w ++ loopMarks items gap) k) :
    Delivered (w ++ loopMarks (evict capacity items gap).1 (evict capacity items gap).2.1) k := by
  have hone : Covers {k} (w ++ loopMarks items gap) := by
    rintro _ rfl
    exact h
  exact covers_evict _ _ hone k rfl

/-- **A push keeps the order**, when what is owed below a live number the message carries is
accounted for ahead of it. `w` is what the writer already holds. -/
theorem inOrder_push (h : InOrder live owed (w ++ q.marks))
    (hmsg : q.closed = false → ∀ n, Mark.num n ∈ message.marks → n ∈ live →
      ∀ k ∈ owed, k < n → Delivered (w ++ q.marks) k) :
    InOrder live owed (w ++ (q.push message).1.marks) := by
  cases hc : q.closed with
  | true => rwa [push_of_closed hc]
  | false =>
    rw [marks_push hc, ← append_assoc]
    refine (inOrder_evict q.items q.pendingGap h).append fun pre n post hm hn k hk hlt => ?_
    have hd := hmsg hc n (by simp [hm]) hn k hk hlt
    exact (delivered_evict hd).mono (subset_append_left _ _)

/-- A push never uncovers anything, and covers the pushed mutation. -/
theorem covers_push (hc : q.closed = false)
    (h : ∀ k ∈ owed, Delivered (w ++ q.marks) k ∨ Delivered message.marks k) :
    Covers owed (w ++ (q.push message).1.marks) := by
  intro k hk
  rw [marks_push hc, ← append_assoc, delivered_append]
  exact (h k hk).imp_left delivered_evict

end OutboundQueue

end AgentSight.Bridge
