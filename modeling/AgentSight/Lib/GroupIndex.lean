import AgentSight.Lib.OrderedMap

/-!
# Indices

An index has, under each key, a list of what belongs there; no key has an empty list. `Lists` says
that it holds exactly a given relation, each pair once. Adding a pair and removing one keep this,
the relation with the pair more or less.
-/

namespace GroupIndex

open List OrderedMap

variable {κ α : Type*} [DecidableEq κ] [DecidableEq α]

def rows (index : OrderedMap κ (List α)) (k : κ) : List α := (index.get k).getD []

def add (index : OrderedMap κ (List α)) (k : κ) (a : α) : OrderedMap κ (List α) :=
  if a ∈ rows index k then index else index.set k (rows index k ++ [a])

/-- The first occurrence is taken out, and the key with the last one. -/
def remove (index : OrderedMap κ (List α)) (k : κ) (a : α) : OrderedMap κ (List α) :=
  match index.get k with
  | none => index
  | some as => if as.erase a = [] then index.delete k else index.set k (as.erase a)

structure Lists (index : OrderedMap κ (List α)) (rel : κ → α → Prop) : Prop where
  mem_rows : ∀ k a, a ∈ rows index k ↔ rel k a
  nodup : ∀ k, (rows index k).Nodup
  ne_nil : ∀ k, index.get k ≠ some []

variable {index : OrderedMap κ (List α)} {rel rel' : κ → α → Prop} {k : κ} {a : α}

omit [DecidableEq α] in
theorem Lists.congr (h : Lists index rel)
    (hrel : ∀ k a, rel k a ↔ rel' k a) : Lists index rel' where
  mem_rows k a := (h.mem_rows k a).trans (hrel k a)
  nodup := h.nodup
  ne_nil := h.ne_nil

omit [DecidableEq α] in
theorem lists_empty : Lists (.empty : OrderedMap κ (List α)) fun _ _ => False where
  mem_rows _ _ := iff_of_false not_mem_nil id
  nodup _ := nodup_nil
  ne_nil k h := by simp at h

theorem rows_add (index : OrderedMap κ (List α)) (k : κ) (a : α) (k' : κ) :
    rows (add index k a) k' =
      if k' = k ∧ a ∉ rows index k then rows index k ++ [a] else rows index k' := by
  rw [add]
  by_cases ha : a ∈ rows index k
  · rw [if_pos ha, if_neg fun h => h.2 ha]
  · rw [if_neg ha]
    by_cases hk : k' = k
    · rw [if_pos ⟨hk, ha⟩, rows, get_set, if_pos hk, Option.getD_some]
    · rw [if_neg fun h => hk h.1, rows, get_set_of_ne hk, rows]

theorem rows_remove (index : OrderedMap κ (List α)) (k : κ) (a : α) (k' : κ) :
    rows (remove index k a) k' = if k' = k then (rows index k).erase a else rows index k' := by
  rw [remove]
  cases h : index.get k with
  | none =>
    have hrows : rows index k = [] := by rw [rows, h, Option.getD_none]
    dsimp only
    split
    · next hk => rw [hk, hrows, erase_nil]
    · rfl
  | some as =>
    have hrows : rows index k = as := by rw [rows, h, Option.getD_some]
    rw [hrows]
    dsimp only
    split
    · next hnil =>
      rw [rows, get_delete]
      split
      · rw [hnil, Option.getD_none]
      · rw [rows]
    · rw [rows, get_set]
      split
      · rw [Option.getD_some]
      · rw [rows]

section

variable (h : Lists index rel)
include h

theorem Lists.add (k : κ) (a : α) :
    Lists (add index k a) fun k' a' => rel k' a' ∨ k' = k ∧ a' = a where
  mem_rows k' a' := by
    rw [rows_add, ← h.mem_rows]
    split
    · next hk => rw [hk.1, mem_append, mem_singleton, and_iff_right rfl]
    · next hk =>
      refine ⟨Or.inl, ?_⟩
      rintro (hmem | ⟨rfl, rfl⟩)
      · exact hmem
      · exact not_not.mp fun hmem => hk ⟨rfl, hmem⟩
  nodup k' := by
    rw [rows_add]
    split
    · next hk => exact nodup_append.mpr ⟨h.nodup k, nodup_singleton a, by grind⟩
    · exact h.nodup k'
  ne_nil k' := by
    rw [GroupIndex.add]
    split
    · exact h.ne_nil k'
    · rw [get_set]
      split
      · simp
      · exact h.ne_nil k'

theorem Lists.remove (k : κ) (a : α) :
    Lists (remove index k a) fun k' a' => rel k' a' ∧ ¬(k' = k ∧ a' = a) where
  mem_rows k' a' := by
    rw [rows_remove, ← h.mem_rows]
    split
    · next hk => rw [(h.nodup k).mem_erase_iff, hk, and_iff_right rfl, and_comm]
    · next hk => rw [and_iff_left fun hka => hk hka.1]
  nodup k' := by
    rw [rows_remove]
    split
    · exact (h.nodup k).erase a
    · exact h.nodup k'
  ne_nil k' := by
    rw [GroupIndex.remove]
    split
    · exact h.ne_nil k'
    · split
      · rw [get_delete]
        split
        · simp
        · exact h.ne_nil k'
      · next hne =>
        rw [get_set]
        split
        · simpa using hne
        · exact h.ne_nil k'

/-! ### One thing under several keys -/

theorem Lists.addAll (ks : List κ) (a : α) :
    Lists (ks.foldl (fun index k => GroupIndex.add index k a) index)
      fun k' a' => rel k' a' ∨ k' ∈ ks ∧ a' = a := by
  induction ks generalizing index rel with
  | nil => exact h.congr fun k' a' => by simp
  | cons k ks ih =>
    refine (ih (h.add k a)).congr fun k' a' => ?_
    rw [mem_cons]
    tauto

theorem Lists.removeAll (ks : List κ) (a : α) :
    Lists (ks.foldl (fun index k => GroupIndex.remove index k a) index)
      fun k' a' => rel k' a' ∧ ¬(k' ∈ ks ∧ a' = a) := by
  induction ks generalizing index rel with
  | nil => exact h.congr fun k' a' => by simp
  | cons k ks ih =>
    refine (ih (h.remove k a)).congr fun k' a' => ?_
    rw [mem_cons]
    tauto

end

end GroupIndex
