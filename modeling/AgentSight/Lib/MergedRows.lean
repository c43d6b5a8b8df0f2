import Mathlib.Data.List.Basic
import Mathlib.Data.List.Induction
import Mathlib.Order.Bounds.Basic
import Mathlib.Order.MinMax

/-!
# Items that are merged into rows

Items come one after the other, and each is merged into a row that is there or becomes the next row.
What the rows are in the end is told by the places that the items went to.
-/

namespace MergedRows

open List

variable {α : Type*} (merge : α → α → α)

/-- Merges an item into the row at the place, or makes it the next row. -/
def put (rows : List α) (place : ℕ) (a : α) : List α :=
  if place < rows.length then rows.modify place (merge · a) else rows ++ [a]

def putAll (placed : List (ℕ × α)) : List α :=
  placed.foldl (fun rows item => put merge rows item.1 item.2) []

/-- The items that went to the place, in their order. -/
def members (placed : List (ℕ × α)) (place : ℕ) : List α :=
  (placed.filter fun item => item.1 = place).map Prod.snd

/-- What the items of a row are merged to. -/
def merged : List α → Option α
  | [] => none
  | a :: as => some (as.foldl merge a)

/-- No place is left out before the next one is taken. -/
def InOrder (places : List ℕ) : Prop := ∀ k, ∀ i ∈ places[k]?, ∀ j < i, j ∈ places.take k

variable {merge} {places : List ℕ} {placed : List (ℕ × α)} {i j : ℕ} {a row : α}

theorem inOrder_nil : InOrder [] := fun k i hi => by
  cases hi

theorem inOrder_concat : InOrder (places ++ [i]) ↔ InOrder places ∧ ∀ j < i, j ∈ places := by
  constructor
  · intro h
    constructor
    · intro k p hp
      have hk := (List.getElem?_eq_some_iff.mp hp).1
      have hlater := h k p (by rwa [getElem?_append_left hk])
      rwa [take_append_of_le_length hk.le] at hlater
    · have hlast := h places.length i (by rw [getElem?_concat_length]; rfl)
      rwa [take_left] at hlast
  · rintro ⟨hplaces, hi⟩ k p hp j hj
    obtain hk | hk := lt_or_ge k places.length
    · rw [getElem?_append_left hk] at hp
      rw [take_append_of_le_length hk.le]
      exact hplaces k p hp j hj
    · rw [getElem?_append_right hk] at hp
      obtain ⟨hzero, rfl⟩ := List.getElem?_eq_some_iff.mp hp
      simp only [length_singleton, Nat.lt_one_iff] at hzero
      have hlength : k = places.length := by omega
      rw [hlength, take_left]
      rw [getElem_singleton] at hj
      exact hi j hj

/-- The rows start in the order of their places. -/
theorem InOrder.idxOf_lt (h : InOrder places) (hj : j ∈ places) (hij : i < j) :
    places.idxOf i < places.idxOf j := by
  have hlt := idxOf_lt_length_of_mem hj
  have hmem : i ∈ places.take (places.idxOf j) :=
    h (places.idxOf j) j (by rw [getElem?_eq_getElem hlt, getElem_idxOf]; rfl) i hij
  have hsplit : places.idxOf i = (places.take (places.idxOf j)).idxOf i := by
    conv_lhs => rw [← take_append_drop (places.idxOf j) places]
    exact idxOf_append_of_mem hmem
  rw [hsplit]
  refine (idxOf_lt_length_of_mem hmem).trans_le ?_
  rw [length_take]
  exact Nat.min_le_left _ _

/-! ### The rows -/

theorem putAll_concat (merge : α → α → α) (placed : List (ℕ × α)) (place : ℕ) (a : α) :
    putAll merge (placed ++ [(place, a)]) = put merge (putAll merge placed) place a := by
  rw [putAll, foldl_append]
  rfl

theorem members_concat (placed : List (ℕ × α)) (place : ℕ) (a : α) (i : ℕ) :
    members (placed ++ [(place, a)]) i = members placed i ++ if place = i then [a] else [] := by
  rw [members, filter_append, map_append]
  split_ifs with h
  · rw [filter_cons_of_pos (by simpa using h)]
    rfl
  · rw [filter_cons_of_neg (by simpa using h)]
    rfl

theorem merged_concat (as : List α) (a : α) :
    merged merge (as ++ [a]) = some (((merged merge as).map (merge · a)).getD a) := by
  cases as with
  | nil => rfl
  | cons first as =>
    rw [cons_append, merged, foldl_append]
    rfl

section

variable (h : InOrder (placed.map Prod.fst))
include h

/-- There is a row for every place that an item went to. -/
theorem lt_length_putAll :
    i < (putAll merge placed).length ↔ i ∈ placed.map Prod.fst := by
  induction placed using List.reverseRecOn generalizing i with
  | nil => exact iff_of_false (Nat.not_lt_zero i) not_mem_nil
  | append_singleton placed item ih =>
    obtain ⟨place, a⟩ := item
    rw [map_append, map_singleton, inOrder_concat] at h
    obtain ⟨hplaced, hplace⟩ := h
    rw [putAll_concat, map_append, map_singleton, mem_append, mem_singleton,
      ← ih hplaced, put]
    have hnext j hj := (ih hplaced).mpr (hplace j hj)
    split_ifs with hthere
    · rw [length_modify]
      constructor
      · exact .inl
      · rintro (hi | rfl)
        · exact hi
        · exact hthere
    · have heq : place = (putAll merge placed).length := by
        refine (not_lt.mp hthere).antisymm' (not_lt.mp fun hlt => ?_)
        exact lt_irrefl _ (hnext _ hlt)
      rw [length_append, length_singleton]
      omega

/-- The next row is at the place after the rows. -/
theorem le_length_putAll
    (hplace : ∀ j < i, j ∈ placed.map Prod.fst) : i ≤ (putAll merge placed).length :=
  not_lt.mp fun hlt => lt_irrefl _ ((lt_length_putAll h).mpr (hplace _ hlt))

/-- **A row is what the items that went to its place are merged to.** -/
theorem getElem?_putAll (i : ℕ) :
    (putAll merge placed)[i]? = merged merge (members placed i) := by
  induction placed using List.reverseRecOn generalizing i with
  | nil => rfl
  | append_singleton placed item ih =>
    obtain ⟨place, a⟩ := item
    rw [map_append, map_singleton, inOrder_concat] at h
    obtain ⟨hplaced, hplace⟩ := h
    have hle : place ≤ (putAll merge placed).length := le_length_putAll hplaced hplace
    rw [putAll_concat, members_concat, put]
    by_cases hi : place = i
    · subst hi
      rw [if_pos rfl, merged_concat, ← ih hplaced]
      split_ifs with hthere
      · rw [getElem?_modify_eq, getElem?_eq_getElem hthere]
        rfl
      · have heq := hle.antisymm (not_lt.mp hthere)
        rw [heq, getElem?_concat_length, getElem?_eq_none le_rfl]
        rfl
    · rw [if_neg hi, append_nil, ← ih hplaced]
      split_ifs with hthere
      · rw [getElem?_modify_ne _ _ hi]
      · obtain hlt | hge := lt_or_ge i (putAll merge placed).length
        · rw [getElem?_append_left hlt]
        · rw [getElem?_eq_none hge, getElem?_eq_none]
          rw [length_append, length_singleton]
          omega

end

/-! ### The largest of the items -/

/-- What a merge takes the larger of is the largest of the items. -/
theorem merged_isGreatest {β : Type*} [LinearOrder β] {f : α → β}
    (hf : ∀ a b, f (merge a b) = max (f a) (f b)) {as : List α}
    (h : merged merge as = some row) : IsGreatest {b | ∃ a ∈ as, f a = b} (f row) := by
  cases as with
  | nil => cases h
  | cons a as =>
    cases h
    induction as using List.reverseRecOn with
    | nil =>
      refine ⟨⟨a, mem_singleton_self a, rfl⟩, ?_⟩
      rintro - ⟨b, hb, rfl⟩
      rw [mem_singleton.mp hb]
      rfl
    | append_singleton as b ih =>
      obtain ⟨⟨c, hc, hcf⟩, hle⟩ := ih
      rw [foldl_append, foldl_cons, foldl_nil, hf, ← cons_append]
      constructor
      · obtain hmax | hmax := max_choice (f (as.foldl merge a)) (f b)
        · exact ⟨c, mem_append_left _ hc, hcf.trans hmax.symm⟩
        · exact ⟨b, mem_append_right _ (mem_singleton_self b), hmax.symm⟩
      · rintro - ⟨d, hd, rfl⟩
        obtain hd | hd := mem_append.mp hd
        · exact (hle ⟨d, hd, rfl⟩).trans (le_max_left _ _)
        · rw [mem_singleton.mp hd]
          exact le_max_right _ _

end MergedRows
