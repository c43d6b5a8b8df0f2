import Mathlib.Algebra.BigOperators.Group.Finset.Piecewise
import Mathlib.Tactic.Abel

/-!
# Sums over the items of one key

`total key weight l k` adds up the weights of the items of `l` whose key is `k`. Conservation
laws about a table and a log are equations between such sums, so the lemmas below say how the
sum moves under the list operations a table uses: appending, reordering, dropping a key, and
changing the items one at a time.
-/

namespace KeyedSum

open List

variable {α κ κ' M : Type*} [DecidableEq κ] [DecidableEq κ'] [AddCommMonoid M]
variable {key : α → κ} {weight : α → M}

/-- What the items of key `k` weigh together. -/
def total (key : α → κ) (weight : α → M) (l : List α) (k : κ) : M :=
  (l.map fun a => if key a = k then weight a else 0).sum

@[simp] theorem total_nil (k : κ) : total key weight [] k = 0 := rfl

@[simp] theorem total_cons (a : α) (l : List α) (k : κ) :
    total key weight (a :: l) k = (if key a = k then weight a else 0) + total key weight l k := by
  simp [total]

@[simp] theorem total_zero (l : List α) (k : κ) : total key (fun _ => (0 : M)) l k = 0 := by
  simp [total]

@[simp] theorem total_append (l l' : List α) (k : κ) :
    total key weight (l ++ l') k = total key weight l k + total key weight l' k := by
  simp [total]

variable {l : List α}

theorem total_perm (key : α → κ) (weight : α → M) {l' : List α} (h : l.Perm l') (k : κ) :
    total key weight l k = total key weight l' k :=
  (h.map _).sum_eq

theorem total_eq_zero {k : κ} (h : ∀ a ∈ l, key a = k → weight a = 0) :
    total key weight l k = 0 := by
  apply sum_eq_zero
  intro x hx
  obtain ⟨a, ha, rfl⟩ := mem_map.mp hx
  by_cases hk : key a = k
  · simp [hk, h a ha hk]
  · simp [hk]

/-- Dropping the items of one key leaves the other keys' sums. -/
theorem total_filter_ne (l : List α) (k k' : κ) : total key weight (l.filter (key · ≠ k)) k' =
      if k' = k then 0 else total key weight l k' := by
  induction l with
  | nil => simp
  | cons a l ih =>
    by_cases ha : key a = k
    · have hdrop : (a :: l).filter (key · ≠ k) = l.filter (key · ≠ k) :=
        filter_cons_of_neg (by simp [ha])
      rw [hdrop, ih, total_cons, ha]
      by_cases hk : k' = k
      · simp [hk]
      · simp [hk, Ne.symm hk]
    · have hkeep : (a :: l).filter (key · ≠ k) = a :: l.filter (key · ≠ k) :=
        filter_cons_of_pos (by simp [ha])
      rw [hkeep, total_cons, ih]
      by_cases hk : k' = k
      · subst hk
        simp [ha]
      · simp [hk]

/-- In a table without duplicate keys the sum of a key is its item's weight. -/
theorem total_eq_weight (weight : α → M) (nodup : (l.map key).Nodup) {a : α} (ha : a ∈ l) :
    total key weight l (key a) = weight a := by
  induction l with
  | nil => cases ha
  | cons b l ih =>
    rw [map_cons, nodup_cons] at nodup
    obtain rfl | ha := mem_cons.mp ha
    · have hrest : total key weight l (key a) = 0 := by
        apply total_eq_zero
        intro c hc heq
        exact absurd (heq ▸ mem_map_of_mem hc) nodup.1
      simp [hrest]
    · have hne : key b ≠ key a := by
        intro heq
        exact nodup.1 (heq ▸ mem_map_of_mem ha)
      simp [hne, ih nodup.2 ha]

/-- The sums of all keys together are the sum of all weights. -/
theorem sum_totals {keys : List κ} (nodup : keys.Nodup) (h : ∀ a ∈ l, key a ∈ keys) :
    (keys.map fun k => total key weight l k).sum = (l.map weight).sum := by
  induction l with
  | nil => simp
  | cons a l ih =>
    have ha : total id (fun _ => weight a) keys (key a) = weight a :=
      total_eq_weight _ (by rwa [map_id]) (h a mem_cons_self)
    simp only [total, id, eq_comm (b := key a)] at ha
    simp only [total_cons, sum_map_add, ha, map_cons, sum_cons,
      ih fun b hb => h b (mem_cons_of_mem _ hb)]

/-- Changing every item in place, keys kept, adds what each item gained. -/
theorem total_map (key : α → κ) (weight gain : α → M) (f : α → α) (keeps : ∀ a, key (f a) = key a)
    (gains : ∀ a ∈ l, weight (f a) = weight a + gain a) (k : κ) :
    total key weight (l.map f) k = total key weight l k + total key gain l k := by
  induction l with
  | nil => simp
  | cons a l ih =>
    have hl := ih fun b hb => gains b (mem_cons_of_mem _ hb)
    have ha := gains a mem_cons_self
    rw [map_cons, total_cons, total_cons, total_cons, hl, keeps, ha]
    by_cases hk : key a = k
    · simp only [hk, if_true]
      exact add_add_add_comm _ _ _ _
    · simp [hk]

/-- The weights of one slot, counted at each key, when the slots are distinct: only the
slot's own item weighs. -/
theorem total_slot {slot : α → κ'} (nodup : (l.map slot).Nodup) {a : α}
    (ha : a ∈ l) (d : M) (k : κ) :
    total key (fun b => if slot b = slot a then d else 0) l k = if key a = k then d else 0 := by
  have hswap : total key (fun b => if slot b = slot a then d else 0) l k =
      total slot (fun b => if key b = k then d else 0) l (slot a) := by
    unfold total
    congr 1
    apply map_congr_left
    intro b _
    by_cases hk : key b = k <;> by_cases hs : slot b = slot a <;> simp [hk, hs]
  rw [hswap, total_eq_weight _ nodup ha]

end KeyedSum
