import Mathlib.Data.List.Perm.Basic

/-!
# Removing by swapping

An array that keeps no order removes an item by moving its last one into the gap. `sweep` is
the loop that removes every item satisfying a predicate that way, looking again at a position
it has just refilled. Up to order it is the partition of the array by the predicate.
`CountedArray` is such an array of a fixed capacity with the count of its used positions.
-/

namespace SwapRemove

open List

variable {α : Type*} {p : α → Bool} {l : List α} {i fuel : ℕ} {e : α}

/-- `xs[i] = xs[n - 1]; n--`. -/
def swapRemove (l : List α) (i : ℕ) : List α :=
  match l.getLast? with
  | some last => (l.set i last).dropLast
  | none => l

theorem swapRemove_concat (a : List α) (last : α) (i : ℕ) :
    swapRemove (a ++ [last]) i = ((a ++ [last]).set i last).dropLast := by
  simp [swapRemove]

theorem swapRemove_perm (h : l[i]? = some e) : (e :: swapRemove l i).Perm l := by
  obtain rfl | ⟨a, last, rfl⟩ := l.eq_nil_or_concat
  · simp at h
  rw [concat_eq_append] at h ⊢
  rw [swapRemove_concat]
  by_cases hi : i < a.length
  · rw [getElem?_append_left hi, getElem?_eq_getElem hi, Option.some_inj] at h
    subst h
    rw [set_append_left i last hi, dropLast_concat, set_eq_take_append_cons_drop,
      if_pos hi]
    have hsplit : a = a.take i ++ a[i] :: a.drop (i + 1) := by
      rw [← drop_eq_getElem_cons hi, take_append_drop]
    calc (a[i] :: (a.take i ++ last :: a.drop (i + 1))).Perm
          (a[i] :: last :: (a.take i ++ a.drop (i + 1))) := perm_middle.cons _
      _ |>.Perm (last :: a[i] :: (a.take i ++ a.drop (i + 1))) := Perm.swap _ _ _
      _ |>.Perm (last :: (a.take i ++ a[i] :: a.drop (i + 1))) := perm_middle.symm.cons _
      _ |>.Perm (last :: a) := by rw [← hsplit]
      _ |>.Perm (a ++ [last]) := (perm_append_singleton last a).symm
  · obtain ⟨hlt, hget⟩ := List.getElem?_eq_some_iff.mp h
    rw [length_append, length_singleton] at hlt
    obtain rfl : i = a.length := by omega
    rw [getElem_concat_length rfl] at hget
    subst hget
    rw [set_append_right a.length last (Nat.le_refl _), Nat.sub_self, set_cons_zero,
      dropLast_concat]
    exact (perm_append_singleton last a).symm

theorem length_swapRemove (h : l[i]? = some e) : (swapRemove l i).length + 1 = l.length :=
  (swapRemove_perm h).length_eq

/-- The loop from position `i`: what it removes, in order, and what it leaves. -/
def sweepFrom (p : α → Bool) : ℕ → ℕ → List α → List α × List α
  | 0, _, l => ([], l)
  | fuel + 1, i, l =>
    match l[i]? with
    | none => ([], l)
    | some e =>
      if p e then
        let (removed, left) := sweepFrom p fuel i (swapRemove l i)
        (e :: removed, left)
      else sweepFrom p fuel (i + 1) l

/-- The whole loop. Each turn shortens the array or passes an item, so the length is fuel
enough. -/
def sweep (p : α → Bool) (l : List α) : List α × List α := sweepFrom p l.length 0 l

theorem sweepFrom_perm (fuel i : ℕ) (l : List α) :
    ((sweepFrom p fuel i l).1 ++ (sweepFrom p fuel i l).2).Perm l := by
  induction fuel generalizing i l with
  | zero => exact Perm.refl l
  | succ fuel ih =>
    cases h : l[i]? with
    | none => simp [sweepFrom, h]
    | some e =>
      by_cases hp : p e = true
      · simp only [sweepFrom, h, hp, if_true]
        exact ((ih i (swapRemove l i)).cons e).trans (swapRemove_perm h)
      · simp only [sweepFrom, h, hp]
        exact ih (i + 1) l

theorem sweepFrom_removed (fuel i : ℕ) (l : List α) :
    ∀ e ∈ (sweepFrom p fuel i l).1, p e = true := by
  induction fuel generalizing i l with
  | zero => simp [sweepFrom]
  | succ fuel ih =>
    cases h : l[i]? with
    | none => simp [sweepFrom, h]
    | some e =>
      by_cases hp : p e = true
      · simp only [sweepFrom, h, hp, if_true]
        exact forall_mem_cons.mpr ⟨hp, ih i (swapRemove l i)⟩
      · simp only [sweepFrom, h, hp]
        exact ih (i + 1) l

theorem getElem?_swapRemove_of_lt (h : l[i]? = some e) {j : ℕ} (hj : j < i) :
    (swapRemove l i)[j]? = l[j]? := by
  obtain rfl | ⟨a, last, rfl⟩ := l.eq_nil_or_concat
  · simp at h
  rw [concat_eq_append] at h ⊢
  obtain ⟨hlt, -⟩ := List.getElem?_eq_some_iff.mp h
  rw [length_append, length_singleton] at hlt
  rw [swapRemove_concat, getElem?_dropLast, if_pos (by simp; omega),
    getElem?_set_ne (by omega)]

/-- With fuel for the rest of the array, the items passed and the items left all fail `p`. -/
theorem sweepFrom_left (fuel i : ℕ) (l : List α) (hfuel : l.length ≤ fuel + i)
    (hpassed : ∀ j < i, ∀ e, l[j]? = some e → p e = false) :
    ∀ e ∈ (sweepFrom p fuel i l).2, p e = false := by
  induction fuel generalizing i l with
  | zero =>
    intro e he
    obtain ⟨j, hj⟩ := mem_iff_getElem?.mp he
    obtain ⟨hlt, -⟩ := List.getElem?_eq_some_iff.mp hj
    simp only [sweepFrom] at hj hlt
    exact hpassed j (by omega) e hj
  | succ fuel ih =>
    cases h : l[i]? with
    | none =>
      simp only [sweepFrom, h]
      intro e he
      obtain ⟨j, hj⟩ := mem_iff_getElem?.mp he
      obtain ⟨hlt, -⟩ := List.getElem?_eq_some_iff.mp hj
      rw [getElem?_eq_none_iff] at h
      exact hpassed j (by omega) e hj
    | some e =>
      by_cases hp : p e = true
      · simp only [sweepFrom, h, hp, if_true]
        have hlen := length_swapRemove h
        refine ih i (swapRemove l i) (by omega) fun j hj e' he' => ?_
        rw [getElem?_swapRemove_of_lt h hj] at he'
        exact hpassed j hj e' he'
      · simp only [sweepFrom, h, hp]
        refine ih (i + 1) l (by omega) fun j hj e' he' => ?_
        obtain hlt | rfl := Nat.lt_succ_iff_lt_or_eq.mp hj
        · exact hpassed j hlt e' he'
        · rw [h, Option.some_inj] at he'
          subst he'
          exact Bool.not_eq_true _ |>.mp hp

theorem sweep_perm (p : α → Bool) (l : List α) : ((sweep p l).1 ++ (sweep p l).2).Perm l :=
  sweepFrom_perm l.length 0 l

theorem mem_sweep_left (p : α → Bool) (l : List α) : e ∈ (sweep p l).2 ↔ e ∈ l ∧ p e = false := by
  have hleft := sweepFrom_left l.length 0 l (p := p) (by omega)
    (fun j hj => absurd hj (Nat.not_lt_zero j))
  refine ⟨fun he => ⟨(sweep_perm p l).subset (mem_append_right _ he), hleft e he⟩,
    fun ⟨he, hp⟩ => ?_⟩
  obtain hremoved | hstays := mem_append.mp ((sweep_perm p l).symm.subset he)
  · have hyes := sweepFrom_removed l.length 0 l e hremoved
    exact absurd (hp.symm.trans hyes) (by decide)
  · exact hstays

/-- **The loop partitions the array**, up to order. -/
theorem sweep_partition (p : α → Bool) (l : List α) :
    (sweep p l).1.Perm (l.filter p) ∧ (sweep p l).2.Perm (l.filter (!p ·)) := by
  have hremoved : ∀ e ∈ (sweep p l).1, p e = true := sweepFrom_removed l.length 0 l
  have hleft : ∀ e ∈ (sweep p l).2, p e = false := fun e he => ((mem_sweep_left p l).mp he).2
  constructor
  · have hfilter := (sweep_perm p l).filter p
    rwa [filter_append, filter_eq_self.mpr hremoved,
      filter_eq_nil_iff.mpr fun e he => by simp [hleft e he], append_nil] at hfilter
  · have hfilter := (sweep_perm p l).filter (!p ·)
    rwa [filter_append, filter_eq_nil_iff.mpr fun e he => by simp [hremoved e he],
      filter_eq_self.mpr fun e he => by simp [hleft e he]] at hfilter

/-! ### Counted arrays -/

/-- The used positions of an array of `cap` items. -/
structure CountedArray (α : Type*) (cap : ℕ) where
  items : List α
  fits : items.length ≤ cap

namespace CountedArray

variable {cap : ℕ}

def empty : CountedArray α cap := ⟨[], Nat.zero_le cap⟩

/-- `xs[n++] = e` where there is room; a full array stays. -/
def push (xs : CountedArray α cap) (e : α) : CountedArray α cap :=
  if room : xs.items.length < cap then
    ⟨xs.items ++ [e], by rw [length_append, length_singleton]; exact room⟩
  else xs

def set (xs : CountedArray α cap) (i : ℕ) (e : α) : CountedArray α cap :=
  ⟨xs.items.set i e, by rw [length_set]; exact xs.fits⟩

def removeAt (xs : CountedArray α cap) (i : ℕ) : CountedArray α cap where
  items := swapRemove xs.items i
  fits := by
    refine Nat.le_trans ?_ xs.fits
    unfold swapRemove
    split
    · rw [length_dropLast, length_set]
      exact Nat.sub_le _ 1
    · exact Nat.le_refl _

/-- What the removal loop removes, in order, and the array it leaves. -/
def sweep (xs : CountedArray α cap) (p : α → Bool) : List α × CountedArray α cap :=
  ((SwapRemove.sweep p xs.items).1, ⟨(SwapRemove.sweep p xs.items).2, by
    have hlen := (sweep_perm p xs.items).length_eq
    have hfits := xs.fits
    rw [length_append] at hlen
    omega⟩)

theorem items_push_of_room {xs : CountedArray α cap} (h : xs.items.length < cap) (e : α) :
    (xs.push e).items = xs.items ++ [e] := by
  simp [push, h]

variable (xs : CountedArray α cap)

end CountedArray

end SwapRemove
