import Mathlib.Data.Set.Insert

/-!
# Streams of numbered messages with announced gaps

A receiver is sent messages that carry numbers of a linear order, and now and then a range of
numbers is announced as lost. What a message or an announcement accounts for is a `Mark`; a
stream is a list of marks. `Delivered u k` says that the stream `u` accounts for `k`.

A sender that keeps a queue owes its receiver the numbers it has not yet accounted for. Two
facts about the queue carry every argument: `Covers` (the queue accounts for everything owed)
and `InOrder` (no *live* number is queued before a smaller owed one is accounted for). The
lemmas say what appending, replacing a stretch by an announcement (which is what a bounded
queue does when it evicts) and handing out the first mark do to them.
-/

namespace SequencedStream

variable {α : Type*} [LinearOrder α]

/-- What one item of a stream accounts for. -/
inductive Mark (α : Type*) where
  | num (n : α)
  | range (lo hi : α)
  deriving DecidableEq

/-- The numbers the mark accounts for. -/
def Mark.Covers : Mark α → α → Prop
  | .num n, k => n = k
  | .range lo hi, k => lo ≤ k ∧ k ≤ hi

instance (m : Mark α) (k : α) : Decidable (m.Covers k) :=
  match m with
  | .num n => inferInstanceAs (Decidable (n = k))
  | .range lo hi => inferInstanceAs (Decidable (lo ≤ k ∧ k ≤ hi))

/-- The stream accounts for `k`. -/
def Delivered (u : List (Mark α)) (k : α) : Prop := ∃ m ∈ u, m.Covers k

instance (u : List (Mark α)) (k : α) : Decidable (Delivered u k) :=
  inferInstanceAs (Decidable (∃ m ∈ u, m.Covers k))

@[simp]
theorem delivered_nil {k : α} : ¬ Delivered [] k := by
  simp [Delivered]

@[simp]
theorem delivered_append {u v : List (Mark α)} {k : α} :
    Delivered (u ++ v) k ↔ Delivered u k ∨ Delivered v k := by
  simp [Delivered, or_and_right, exists_or]

@[simp]
theorem delivered_cons {m : Mark α} {u : List (Mark α)} {k : α} :
    Delivered (m :: u) k ↔ m.Covers k ∨ Delivered u k := by
  simp [Delivered]

theorem Delivered.mono {u v : List (Mark α)} {k : α} (h : Delivered u k) (huv : u ⊆ v) :
    Delivered v k := by
  obtain ⟨m, hm, hk⟩ := h
  exact ⟨m, huv hm, hk⟩

/-! ### What a queue owes -/

/-- The stream accounts for everything owed. -/
def Covers (owed : Set α) (u : List (Mark α)) : Prop := ∀ k ∈ owed, Delivered u k

/-- Before a live number comes up, every smaller owed number has been accounted for. -/
def InOrder (live owed : Set α) (u : List (Mark α)) : Prop :=
  ∀ pre n post, u = pre ++ .num n :: post → n ∈ live → ∀ k ∈ owed, k < n → Delivered pre k

variable {live owed owed' : Set α} {u v w x y : List (Mark α)}

theorem InOrder.anti (h : InOrder live owed u) (hs : owed' ⊆ owed) : InOrder live owed' u :=
  fun pre n post hu hn k hk => h pre n post hu hn k (hs hk)

theorem inOrder_of_nothing_owed (h : ∀ k, k ∉ owed) : InOrder live owed u :=
  fun _ _ _ _ _ k hk => absurd hk (h k)

theorem InOrder.append (hu : InOrder live owed u)
    (hv : ∀ pre n post, v = pre ++ .num n :: post → n ∈ live →
      ∀ k ∈ owed, k < n → Delivered (u ++ pre) k) : InOrder live owed (u ++ v) := by
  intro pre n post h hn k hk hlt
  rcases List.append_eq_append_iff.mp h with ⟨as, rfl, hv'⟩ | ⟨bs, rfl, hpost⟩
  · exact hv as n post hv' hn k hk hlt
  · cases bs with
    | nil => exact (hv [] n post (by simpa using hpost.symm) hn k hk hlt).mono (by simp)
    | cons b bs =>
      obtain ⟨rfl, rfl⟩ : Mark.num n = b ∧ post = bs ++ v := by simpa using hpost
      exact hu pre n bs rfl hn k hk hlt

theorem InOrder.of_append_left (h : InOrder live owed (u ++ v)) : InOrder live owed u := by
  rintro pre n post rfl
  exact h pre n (post ++ v) (by simp)

/-- Appending marks without live numbers keeps the order. -/
theorem InOrder.append_of_forall (hu : InOrder live owed u)
    (hv : ∀ n, Mark.num n ∈ v → n ∉ live) : InOrder live owed (u ++ v) :=
  hu.append fun pre n post h hn => absurd hn (hv n (by simp [h]))

/-- Replacing a stretch of the stream by marks that account for no less and carry no live
number keeps the order. -/
theorem InOrder.replace (h : InOrder live owed (u ++ x ++ v))
    (hcov : ∀ k, Delivered x k → Delivered y k) (hlive : ∀ n, Mark.num n ∈ y → n ∉ live) :
    InOrder live owed (u ++ y ++ v) := by
  have hu : InOrder live owed (u ++ y) := (h.of_append_left.of_append_left).append_of_forall hlive
  refine hu.append fun pre n post hv hn k hk hlt => ?_
  have hd := h (u ++ x ++ pre) n post (by simp [hv]) hn k hk hlt
  simp only [delivered_append] at hd ⊢
  exact hd.imp_left (Or.imp_right (hcov k))

theorem Covers.replace (h : Covers owed (u ++ x ++ v))
    (hcov : ∀ k, Delivered x k → Delivered y k) : Covers owed (u ++ y ++ v) := by
  intro k hk
  have hd := h k hk
  simp only [delivered_append] at hd ⊢
  exact hd.imp_left (Or.imp_right (hcov k))

/-- Handing out the front of the stream settles what it accounts for. -/
theorem InOrder.drop_front (h : InOrder live owed (x ++ u))
    (hs : ∀ k ∈ owed', k ∈ owed ∧ ¬ Delivered x k) : InOrder live owed' u := by
  intro pre n post hu hn k hk hlt
  have hd := h (x ++ pre) n post (by simp [hu]) hn k (hs k hk).1 hlt
  exact (delivered_append.mp hd).resolve_left (hs k hk).2

theorem Covers.drop_front (h : Covers owed (x ++ u))
    (hs : ∀ k ∈ owed', k ∈ owed ∧ ¬ Delivered x k) : Covers owed' u := by
  intro k hk
  exact (delivered_append.mp (h k (hs k hk).1)).resolve_left (hs k hk).2

/-- A live number that comes up first has nothing owed below it. -/
theorem InOrder.head {n k : α} (h : InOrder live owed (.num n :: u)) (hn : n ∈ live)
    (hk : k ∈ owed) : n ≤ k := by
  by_contra hlt
  exact delivered_nil (h [] n u rfl hn k hk (not_le.mp hlt))

/-- A new number, above every live number of the stream, becomes live and owed. -/
theorem InOrder.insert {n₀ : α} (h : InOrder live owed u) (hnew : Mark.num n₀ ∉ u)
    (habove : ∀ n ∈ live, n < n₀) :
    InOrder (Set.insert n₀ live) (Set.insert n₀ owed) u := by
  intro pre n post hu hn k hk hlt
  rcases hn with rfl | hn
  · exact absurd (by simp [hu]) hnew
  · rcases hk with rfl | hk
    · exact absurd hlt (not_lt.mpr (habove n hn).le)
    · exact h pre n post hu hn k hk hlt

end SequencedStream
