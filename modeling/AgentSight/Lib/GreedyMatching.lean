import Mathlib.Data.List.Nodup
import Mathlib.Data.List.Pairwise

/-!
# Greedy matchings

An edge joins what it has on the left to what it has on the right. The greedy matching takes the
edges in the order of a list, each one whose ends are both free. Its edges share no end, and no edge
of the list has two free ends when it is done: it is a maximal matching, whatever the order.
-/

namespace GreedyMatching

open List

variable {ε α β : Type*} [DecidableEq α] [DecidableEq β] (left : ε → α) (right : ε → β)

/-- Neither end of the edge is taken. -/
def Free (chosen : List ε) (e : ε) : Prop := ∀ c ∈ chosen, left c ≠ left e ∧ right c ≠ right e

instance (chosen : List ε) : DecidablePred (Free left right chosen) := fun e =>
  inferInstanceAs (Decidable (∀ c ∈ chosen, left c ≠ left e ∧ right c ≠ right e))

/-- No two edges share an end. -/
def IsMatching (edges : List ε) : Prop :=
  edges.Pairwise fun a b => left a ≠ left b ∧ right a ≠ right b

def add (chosen : List ε) (e : ε) : List ε :=
  if Free left right chosen e then chosen ++ [e] else chosen

def greedy (chosen edges : List ε) : List ε := edges.foldl (add left right) chosen

variable {left right} {chosen edges edges' : List ε} {e : ε}

@[simp] theorem greedy_nil : greedy left right chosen [] = chosen := rfl

theorem greedy_cons :
    greedy left right chosen (e :: edges) = greedy left right (add left right chosen e) edges := rfl

theorem greedy_append : greedy left right chosen (edges ++ edges') =
    greedy left right (greedy left right chosen edges) edges' := foldl_append

theorem add_of_free (h : Free left right chosen e) : add left right chosen e = chosen ++ [e] :=
  if_pos h

theorem add_of_not_free (h : ¬ Free left right chosen e) : add left right chosen e = chosen :=
  if_neg h

omit [DecidableEq α] [DecidableEq β] in
theorem Free.mono (hsub : ∀ c ∈ chosen, c ∈ edges) (h : Free left right edges e) :
    Free left right chosen e := fun c hc => h c (hsub c hc)

theorem mem_add_of_mem {c : ε} (hc : c ∈ chosen) : c ∈ add left right chosen e := by
  unfold add
  split
  · exact mem_append_left _ hc
  · exact hc

/-- What is chosen stays chosen. -/
theorem mem_greedy_of_mem {c : ε} (hc : c ∈ chosen) : c ∈ greedy left right chosen edges := by
  induction edges generalizing chosen with
  | nil => exact hc
  | cons e edges ih => exact ih (mem_add_of_mem hc)

/-- Only edges of the list are chosen. -/
theorem mem_of_mem_greedy {c : ε} (hc : c ∈ greedy left right chosen edges) :
    c ∈ chosen ∨ c ∈ edges := by
  induction edges generalizing chosen with
  | nil => exact .inl hc
  | cons e edges ih =>
    rcases ih hc with hc | hc
    · unfold add at hc
      split at hc
      · rcases mem_append.mp hc with hc | hc
        · exact .inl hc
        · exact .inr (mem_singleton.mp hc ▸ mem_cons_self)
      · exact .inl hc
    · exact .inr (mem_cons_of_mem _ hc)

omit [DecidableEq α] [DecidableEq β] in
/-- Two edges of a matching that share an end are one. -/
theorem IsMatching.eq_of_shared (h : IsMatching left right edges) {e' : ε} (he : e ∈ edges)
    (he' : e' ∈ edges) (hshared : left e = left e' ∨ right e = right e') : e = e' := by
  have hsymm : Std.Symm fun a b => left a ≠ left b ∧ right a ≠ right b :=
    ⟨fun _ _ hne => ⟨hne.1.symm, hne.2.symm⟩⟩
  by_contra hne
  obtain ⟨hleft, hright⟩ := Pairwise.forall h he he' hne
  exact hshared.elim hleft hright

theorem IsMatching.add (h : IsMatching left right chosen) :
    IsMatching left right (add left right chosen e) := by
  unfold GreedyMatching.add
  split
  · next hfree =>
    refine pairwise_append.mpr ⟨h, pairwise_singleton _ _, fun c hc e' he' => ?_⟩
    rw [mem_singleton.mp he']
    exact hfree c hc
  · exact h

theorem IsMatching.greedy (h : IsMatching left right chosen) :
    IsMatching left right (greedy left right chosen edges) := by
  induction edges generalizing chosen with
  | nil => exact h
  | cons e edges ih => exact ih h.add

/-- No edge of the list is left with two free ends. -/
theorem greedy_maximal (he : e ∈ edges) : ¬ Free left right (greedy left right chosen edges) e := by
  induction edges generalizing chosen with
  | nil => exact absurd he not_mem_nil
  | cons e' edges ih =>
    rcases mem_cons.mp he with rfl | he
    · intro hfree
      by_cases hbefore : Free left right chosen e
      · have hmem : e ∈ greedy left right (add left right chosen e) edges :=
          mem_greedy_of_mem (by rw [add_of_free hbefore]; simp)
        exact (hfree e hmem).1 rfl
      · exact hbefore (hfree.mono fun c hc => mem_greedy_of_mem (mem_add_of_mem hc))
    · exact ih he

/-- Edges whose left end is taken are passed over. -/
theorem greedy_of_taken {a : α} (htaken : ∃ c ∈ chosen, left c = a)
    (hleft : ∀ e ∈ edges, left e = a) : greedy left right chosen edges = chosen := by
  induction edges with
  | nil => rfl
  | cons e edges ih =>
    obtain ⟨he, hedges⟩ := forall_mem_cons.mp hleft
    obtain ⟨c, hc, hca⟩ := htaken
    rw [greedy_cons, add_of_not_free fun hfree => (hfree c hc).1 (hca.trans he.symm)]
    exact ih hedges

/-- Of the edges of one left end, the first whose right end is free is taken. -/
theorem greedy_of_left {a : α} (hfree : ∀ c ∈ chosen, left c ≠ a)
    (hleft : ∀ e ∈ edges, left e = a) :
    greedy left right chosen edges =
      chosen ++ (edges.find? fun e => ∀ c ∈ chosen, right c ≠ right e).toList := by
  induction edges with
  | nil => exact (append_nil _).symm
  | cons e edges ih =>
    obtain ⟨he, hedges⟩ := forall_mem_cons.mp hleft
    rw [greedy_cons, find?_cons]
    by_cases hright : ∀ c ∈ chosen, right c ≠ right e
    · have hboth : Free left right chosen e := fun c hc => ⟨he ▸ hfree c hc, hright c hc⟩
      rw [add_of_free hboth, decide_eq_true hright]
      exact greedy_of_taken ⟨e, by simp, he⟩ hedges
    · rw [add_of_not_free fun h => hright fun c hc => (h c hc).2, decide_eq_false hright]
      exact ih hedges

end GreedyMatching
