import Mathlib.Algebra.Order.BigOperators.Group.Finset

/-!
# Depth-first search with a worklist

`search next nodes stack seen` pops a node, skips it if it has been seen or is none of the nodes,
and else visits it and pushes its successors. It visits what is reachable from the stack on paths
through nodes that have not been seen, each node once.
-/

namespace Worklist

open Relation List

variable {α : Type*} [DecidableEq α] (next : α → List α) (nodes : Finset α)

def search : List α → List α → List α
  | [], _ => []
  | a :: stack, seen =>
    if a ∈ seen ∨ a ∉ nodes then search stack (a :: seen)
    else a :: search ((next a).reverse ++ stack) (a :: seen)
termination_by stack seen => stack.length + ∑ b ∈ nodes with b ∉ seen, (next b).length
decreasing_by
  · have hsub : nodes.filter (· ∉ a :: seen) ⊆ nodes.filter (· ∉ seen) := by
      intro b hb
      simp only [Finset.mem_filter, mem_cons, not_or] at hb ⊢
      exact ⟨hb.1, hb.2.2⟩
    have hle := Finset.sum_le_sum_of_subset (f := fun b => (next b).length) hsub
    rw [length_cons]
    omega
  · rename_i h
    rw [not_or, not_not] at h
    have hinsert : insert a (nodes.filter (· ∉ a :: seen)) = nodes.filter (· ∉ seen) := by
      ext b
      simp only [Finset.mem_insert, Finset.mem_filter, mem_cons, not_or]
      constructor
      · rintro (rfl | hb)
        · exact ⟨h.2, h.1⟩
        · exact ⟨hb.1, hb.2.2⟩
      · rintro ⟨hb, hseen⟩
        by_cases heq : b = a
        · exact .inl heq
        · exact .inr ⟨hb, heq, hseen⟩
    have hsum := Finset.sum_insert (f := fun b => (next b).length)
      (s := nodes.filter (· ∉ a :: seen)) (a := a) (by simp)
    rw [hinsert] at hsum
    rw [length_append, length_reverse, length_cons]
    omega

/-- An edge to a node that has not been seen. -/
def Edge (seen : List α) (a b : α) : Prop := b ∈ next a ∧ b ∈ nodes ∧ b ∉ seen

/-- A path through nodes that have not been seen. -/
def Reaches (seen : List α) (a b : α) : Prop :=
  a ∈ nodes ∧ a ∉ seen ∧ ReflTransGen (Edge next nodes seen) a b

variable {next nodes} {stack seen : List α} {a b c : α}

omit [DecidableEq α] in
theorem Reaches.mono (h : Reaches next nodes (c :: seen) a b) : Reaches next nodes seen a b := by
  obtain ⟨hmem, hnot, hpath⟩ := h
  refine ⟨hmem, fun ha => hnot (mem_cons_of_mem _ ha), hpath.lift id fun x y hedge => ?_⟩
  exact ⟨hedge.1, hedge.2.1, fun hy => hedge.2.2 (mem_cons_of_mem _ hy)⟩

omit [DecidableEq α] in
theorem Reaches.target (h : Reaches next nodes seen a b) : b ∈ nodes ∧ b ∉ seen := by
  obtain ⟨hmem, hnot, hpath⟩ := h
  cases hpath with
  | refl => exact ⟨hmem, hnot⟩
  | tail _ hedge => exact hedge.2

omit [DecidableEq α] in
/-- A path avoids the node `c`, or goes through it and on without coming back. -/
theorem Reaches.avoid (c : α) (h : Reaches next nodes seen a b) :
    Reaches next nodes (c :: seen) a b ∨ (c ∈ nodes ∧ c ∉ seen) ∧
      (b = c ∨ ∃ d ∈ next c, Reaches next nodes (c :: seen) d b) := by
  obtain ⟨hmem, hnot, hpath⟩ := h
  induction hpath using ReflTransGen.head_induction_on with
  | refl =>
    by_cases hb : b = c
    · subst hb
      exact .inr ⟨⟨hmem, hnot⟩, .inl rfl⟩
    · exact .inl ⟨hmem, by simp [hb, hnot], .refl⟩
  | @head a d hedge _ ih =>
    obtain h | h := ih hedge.2.1 hedge.2.2
    · by_cases ha : a = c
      · subst ha
        exact .inr ⟨⟨hmem, hnot⟩, .inr ⟨d, hedge.1, h⟩⟩
      · exact .inl ⟨hmem, by simp [ha, hnot], .head ⟨hedge.1, h.1, h.2.1⟩ h.2.2⟩
    · exact .inr h

/-- **The search visits what is reachable from its stack.** -/
theorem mem_search : b ∈ search next nodes stack seen ↔
    ∃ a ∈ stack, Reaches next nodes seen a b := by
  induction stack, seen using search.induct next nodes with
  | case1 seen => simp [search]
  | case2 a stack seen hskip ih =>
    rw [search, if_pos hskip, ih]
    constructor
    · rintro ⟨c, hc, h⟩
      exact ⟨c, mem_cons_of_mem _ hc, h.mono⟩
    · rintro ⟨c, hc, h⟩
      obtain h | ⟨hopen, -⟩ := h.avoid a
      · obtain rfl | hc := mem_cons.mp hc
        · exact absurd (mem_cons_self ..) h.2.1
        · exact ⟨c, hc, h⟩
      · exact absurd hskip (not_or.mpr ⟨hopen.2, not_not.mpr hopen.1⟩)
  | case3 a stack seen hvisit ih =>
    have hopen := not_or.mp hvisit
    rw [not_not] at hopen
    rw [search, if_neg hvisit, mem_cons, ih]
    constructor
    · rintro (rfl | ⟨c, hc, h⟩)
      · exact ⟨b, mem_cons_self .., hopen.2, hopen.1, .refl⟩
      · obtain hc | hc := mem_append.mp hc
        · have hedge : Edge next nodes seen a c :=
            ⟨mem_reverse.mp hc, h.1, fun hseen => h.2.1 (mem_cons_of_mem _ hseen)⟩
          exact ⟨a, mem_cons_self .., hopen.2, hopen.1, .head hedge h.mono.2.2⟩
        · exact ⟨c, mem_cons_of_mem _ hc, h.mono⟩
    · rintro ⟨c, hc, h⟩
      obtain h | ⟨-, rfl | ⟨d, hd, h⟩⟩ := h.avoid a
      · obtain rfl | hc := mem_cons.mp hc
        · exact absurd (mem_cons_self ..) h.2.1
        · exact .inr ⟨c, mem_append_right _ hc, h⟩
      · exact .inl rfl
      · exact .inr ⟨d, mem_append_left _ (mem_reverse.mpr hd), h⟩

/-- No node is visited twice. -/
theorem nodup_search : (search next nodes stack seen).Nodup := by
  induction stack, seen using search.induct next nodes with
  | case1 seen =>
    rw [search]
    exact nodup_nil
  | case2 a stack seen hskip ih =>
    rw [search, if_pos hskip]
    exact ih
  | case3 a stack seen hvisit ih =>
    rw [search, if_neg hvisit, nodup_cons]
    refine ⟨fun ha => ?_, ih⟩
    obtain ⟨c, -, h⟩ := mem_search.mp ha
    exact h.target.2 (mem_cons_self ..)

/-! ### Running out of steps -/

/-- The search with a bound on the rounds of its loop, nothing if it is not done by then. -/
def searchWithin (next : α → List α) (nodes : Finset α) : ℕ → List α → List α → Option (List α)
  | 0, _, _ => none
  | _ + 1, [], _ => some []
  | rounds + 1, a :: stack, seen =>
    if a ∈ seen ∨ a ∉ nodes then searchWithin next nodes rounds stack (a :: seen)
    else (searchWithin next nodes rounds ((next a).reverse ++ stack) (a :: seen)).map (a :: ·)

/-- The loop comes to its end, for any links at all. -/
theorem exists_searchWithin (next : α → List α) (nodes : Finset α) (stack seen : List α) :
    ∃ bound, ∀ rounds, bound ≤ rounds →
      searchWithin next nodes rounds stack seen = some (search next nodes stack seen) := by
  -- Each round takes one off what the rest of the search needs.
  have hround {bound rounds : ℕ} (h : bound + 1 ≤ rounds) :
      ∃ rest, rounds = rest + 1 ∧ bound ≤ rest := ⟨rounds - 1, by omega, by omega⟩
  induction stack, seen using search.induct next nodes with
  | case1 seen =>
    refine ⟨1, fun rounds h => ?_⟩
    obtain ⟨rest, rfl, -⟩ := hround h
    rw [searchWithin, search]
  | case2 a stack seen hskip ih =>
    obtain ⟨bound, hbound⟩ := ih
    refine ⟨bound + 1, fun rounds h => ?_⟩
    obtain ⟨rest, rfl, hrest⟩ := hround h
    rw [searchWithin, if_pos hskip, search, if_pos hskip, hbound rest hrest]
  | case3 a stack seen hvisit ih =>
    obtain ⟨bound, hbound⟩ := ih
    refine ⟨bound + 1, fun rounds h => ?_⟩
    obtain ⟨rest, rfl, hrest⟩ := hround h
    rw [searchWithin, if_neg hvisit, search, if_neg hvisit, hbound rest hrest, Option.map_some]

end Worklist
