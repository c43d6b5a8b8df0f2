import AgentSight.Lib.KeyedSum
import AgentSight.Lib.Retention

/-!
# Counters

A counter is a table of natural numbers whose entries only grow. What it holds after a run of
additions is said by `KeyedSum.total`: at each key the weights of that key, and over all keys
together the weights of all items.
-/

open Std (TreeMap)

namespace Counter

open List

variable {κ α : Type} [Ord κ]

/-- An entry that is not there counts as zero. -/
def add (counter : TreeMap κ ℕ) (k : κ) (weight : ℕ) : TreeMap κ ℕ :=
  counter.insert k (counter.getD k 0 + weight)

/-- The counter after one addition for each item. -/
def addAll (key : α → κ) (weight : α → ℕ) (counter : TreeMap κ ℕ) (items : List α) : TreeMap κ ℕ :=
  items.foldl (fun counter item => add counter (key item) (weight item)) counter

variable [Std.TransOrd κ] [Std.LawfulEqOrd κ] [DecidableEq κ]
variable {key : α → κ} {weight : α → ℕ} {counter : TreeMap κ ℕ}

theorem getD_add (k k' : κ) (w : ℕ) :
    (add counter k w).getD k' 0 = counter.getD k' 0 + if k = k' then w else 0 := by
  rw [add, TreeMap.getD_insert]
  by_cases hk : k = k'
  · subst hk
    simp
  · simp [hk]

/-- Where the entries are taken away, the key's own goes with them. -/
theorem sum_values_eq (counter : TreeMap κ ℕ) (k : κ) : counter.values.sum = counter.getD k 0 +
      ((counter.toList.filter fun entry => ¬ k = entry.1).map Prod.snd).sum := by
  have hkeys : (counter.toList.map Prod.fst).Nodup := by
    rw [TreeMap.map_fst_toList_eq_keys]
    exact TreeMap.nodup_keys
  rw [Retention.values_eq_map_snd_toList]
  have hother {entries : List (κ × ℕ)} (h : k ∉ entries.map Prod.fst) :
      (entries.filter fun entry => ¬ k = entry.1) = entries := by
    refine filter_eq_self.mpr fun entry hentry => ?_
    have hne : k ≠ entry.1 := fun heq => h (heq ▸ mem_map_of_mem hentry)
    simpa using hne
  cases hget : counter[k]? with
  | none =>
    have hmem : k ∉ counter.toList.map Prod.fst := by
      intro hmem
      obtain ⟨⟨k', n⟩, hentry, rfl⟩ := mem_map.mp hmem
      rw [TreeMap.mem_toList_iff_getElem?_eq_some, hget] at hentry
      cases hentry
    rw [hother hmem, TreeMap.getD_eq_getD_getElem?, hget, Option.getD_none, zero_add]
  | some n =>
    obtain ⟨front, back, hsplit⟩ :=
      append_of_mem (TreeMap.mem_toList_iff_getElem?_eq_some.mpr hget)
    rw [hsplit, map_append, map_cons, nodup_middle, nodup_cons,
      mem_append, not_or] at hkeys
    rw [hsplit, TreeMap.getD_eq_getD_getElem?, hget, Option.getD_some, filter_append,
      hother hkeys.1.1, filter_cons_of_neg (by simp), hother hkeys.1.2]
    simp only [map_append, map_cons, sum_append, sum_cons]
    omega

theorem sum_values_add (k : κ) (w : ℕ) : (add counter k w).values.sum = counter.values.sum + w := by
  have hperm := TreeMap.toList_insert_perm (t := counter) (k := k) (v := counter.getD k 0 + w)
  have hsum := (hperm.map Prod.snd).sum_eq
  rw [add, Retention.values_eq_map_snd_toList, hsum, sum_values_eq counter k]
  simp only [beq_iff_eq, map_cons, sum_cons]
  omega

theorem getD_addAll (items : List α) (k : κ) : (addAll key weight counter items).getD k 0 =
      counter.getD k 0 + KeyedSum.total key weight items k := by
  induction items generalizing counter with
  | nil => rfl
  | cons item items ih =>
    have hstep := @ih (add counter (key item) (weight item))
    rw [addAll] at hstep ⊢
    rw [foldl_cons, hstep, getD_add, KeyedSum.total_cons, add_assoc]

theorem sum_values_addAll (items : List α) :
    (addAll key weight counter items).values.sum = counter.values.sum + (items.map weight).sum := by
  induction items generalizing counter with
  | nil => rfl
  | cons item items ih =>
    have hstep := @ih (add counter (key item) (weight item))
    rw [addAll] at hstep ⊢
    rw [foldl_cons, hstep, sum_values_add, map_cons, sum_cons, add_assoc]

end Counter
