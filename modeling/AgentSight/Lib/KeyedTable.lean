import Mathlib.Data.List.Nodup

/-!
# Tables with a primary key

A table is the list of its rows; `key` is the primary key. The operations are the SQL
statements that name the key: `INSERT`, `INSERT OR IGNORE`, `INSERT ... ON CONFLICT DO UPDATE`,
`UPDATE ... WHERE key` and `DELETE ... WHERE key`. Each comes with what it does to the rows
and with the fact that it keeps the key unique.
-/

namespace KeyedTable

open List

variable {α κ : Type*} [DecidableEq κ] (key : α → κ)

/-- No two rows have one key. -/
def Unique (rows : List α) : Prop := ∀ a ∈ rows, ∀ b ∈ rows, key a = key b → a = b

def find (rows : List α) (k : κ) : Option α := rows.find? fun row => key row = k

/-- `INSERT`: `none` is the constraint error. -/
def insert (rows : List α) (row : α) : Option (List α) :=
  if (find key rows (key row)).isSome then none else some (rows ++ [row])

/-- `INSERT OR IGNORE`. -/
def insertOrIgnore (rows : List α) (row : α) : List α :=
  if (find key rows (key row)).isSome then rows else rows ++ [row]

/-- `UPDATE ... WHERE key = k`. -/
def update (rows : List α) (k : κ) (f : α → α) : List α :=
  rows.map fun row => if key row = k then f row else row

/-- `INSERT ... ON CONFLICT(key) DO UPDATE SET`: the assignments are `merge`. -/
def upsert (rows : List α) (row : α) (merge : α → α) : List α :=
  if (find key rows (key row)).isSome then update key rows (key row) merge else rows ++ [row]

/-- `DELETE ... WHERE key = k`. -/
def delete (rows : List α) (k : κ) : List α := rows.filter fun row => key row ≠ k

variable {key} {rows rows' : List α} {row a : α} {k : κ}

theorem mem_of_find (h : find key rows k = some a) : a ∈ rows ∧ key a = k :=
  ⟨mem_of_find?_eq_some h, by simpa using find?_some h⟩

theorem find_isSome (key : α → κ) (rows : List α) (k : κ) :
    (find key rows k).isSome = true ↔ ∃ a ∈ rows, key a = k := by
  simp [find, find?_isSome]

theorem find_eq_some (unique : Unique key rows) :
    find key rows k = some a ↔ a ∈ rows ∧ key a = k := by
  constructor
  · exact mem_of_find
  · rintro ⟨ha, rfl⟩
    obtain ⟨b, hb⟩ := Option.isSome_iff_exists.mp
      ((find_isSome key rows (key a)).mpr ⟨a, ha, rfl⟩)
    obtain ⟨hmem, hkey⟩ := mem_of_find hb
    rw [hb, unique b hmem a ha hkey]

omit [DecidableEq κ] in
theorem unique_nil : Unique key ([] : List α) := fun a ha => by cases ha

theorem unique_concat (unique : Unique key rows) (h : find key rows (key row) = none) :
    Unique key (rows ++ [row]) := by
  have hnew : ∀ a ∈ rows, key a ≠ key row := by
    intro a ha heq
    have hsome := (find_isSome ..).mpr ⟨a, ha, heq⟩
    rw [h] at hsome
    cases hsome
  intro a ha b hb heq
  obtain ha | ha := mem_append.mp ha <;> obtain hb | hb := mem_append.mp hb
  · exact unique a ha b hb heq
  · rw [mem_singleton.mp hb] at heq
    exact absurd heq (hnew a ha)
  · rw [mem_singleton.mp ha] at heq
    exact absurd heq.symm (hnew b hb)
  · rw [mem_singleton.mp ha, mem_singleton.mp hb]

/-! ### Lookups after a write -/

theorem find_concat {k : κ} :
    find key (rows ++ [row]) k = (find key rows k).or (if key row = k then some row else none) := by
  simp [find, find?_append, find?_singleton, decide_eq_true_eq]

variable {f merge : α → α}

theorem find_update (keeps : ∀ a, key (f a) = key a) (k k' : κ) :
    find key (update key rows k f) k' =
      if k' = k then (find key rows k).map f else find key rows k' := by
  induction rows with
  | nil => simp [find, update]
  | cons a rows ih =>
    simp only [find, update] at ih
    simp only [find, update, map_cons, find?_cons]
    by_cases ha : key a = k
    · by_cases hk : k' = k
      · simp [ha, hk, keeps]
      · have hne : ¬ k = k' := fun h => hk h.symm
        simp [ha, hk, hne, keeps, ih]
    · by_cases hk' : key a = k'
      · have hk : ¬ k' = k := fun h => ha (hk'.trans h)
        simp [hk', hk]
      · by_cases hk : k' = k
        · subst hk
          simp [hk', ih]
        · simp [ha, hk', hk, ih]

theorem find_delete (k k' : κ) :
    find key (delete key rows k) k' = if k' = k then none else find key rows k' := by
  simp only [find, delete, find?_filter]
  by_cases hk : k' = k
  · subst hk
    simp
  · rw [if_neg hk]
    refine congrArg (List.find? · rows) (funext fun a => ?_)
    by_cases ha : key a = k' <;> simp [ha, hk]

/-- Deleting the rows with a property. -/
theorem find_filter (unique : Unique key rows) (p : α → Bool) (k : κ) :
    find key (rows.filter p) k = (find key rows k).filter p := by
  cases hfind : find key rows k with
  | none =>
    have hnone : ∀ a ∈ rows, ¬ key a = k := by simpa [find] using hfind
    simpa [find] using fun a ha _ => hnone a ha
  | some a =>
    obtain ⟨ha, rfl⟩ := mem_of_find hfind
    by_cases hp : p a = true
    · have hfiltered : Unique key (rows.filter p) := fun b hb c hc =>
        unique b (mem_filter.mp hb).1 c (mem_filter.mp hc).1
      simp only [Option.filter_some, hp, if_true]
      exact (find_eq_some hfiltered).mpr ⟨mem_filter.mpr ⟨ha, hp⟩, rfl⟩
    · have hnone : ∀ b ∈ rows.filter p, ¬ key b = key a := by
        intro b hb hkey
        obtain ⟨hb, hpb⟩ := mem_filter.mp hb
        exact hp (unique b hb a ha hkey ▸ hpb)
      simp only [Option.filter_some, hp, Bool.false_eq_true, if_false]
      simpa [find] using hnone

omit [DecidableEq κ] in
theorem unique_filter (unique : Unique key rows) (p : α → Bool) : Unique key (rows.filter p) :=
  fun a ha b hb => unique a (mem_filter.mp ha).1 b (mem_filter.mp hb).1

/-! ### Rows after a write -/

theorem insert_eq_some :
    insert key rows row = some rows' ↔ find key rows (key row) = none ∧ rows' = rows ++ [row] := by
  unfold insert
  cases find key rows (key row) with
  | none => simp [eq_comm]
  | some a => simp

theorem mem_update :
    a ∈ update key rows k f ↔ (a ∈ rows ∧ key a ≠ k) ∨ ∃ b ∈ rows, key b = k ∧ f b = a := by
  simp only [update, mem_map]
  constructor
  · rintro ⟨b, hb, rfl⟩
    by_cases hk : key b = k
    · exact .inr ⟨b, hb, hk, by simp [hk]⟩
    · exact .inl (by simpa [hk] using hb)
  · rintro (⟨ha, hk⟩ | ⟨b, hb, hk, rfl⟩)
    · exact ⟨a, ha, by simp [hk]⟩
    · exact ⟨b, hb, by simp [hk]⟩

theorem unique_update (keeps : ∀ a, key (f a) = key a) (unique : Unique key rows) :
    Unique key (update key rows k f) := by
  intro a ha b hb heq
  obtain ⟨ha', hne⟩ | ⟨a', ha', hak, rfl⟩ := mem_update.mp ha <;>
    obtain ⟨hb', hne'⟩ | ⟨b', hb', hbk, rfl⟩ := mem_update.mp hb
  · exact unique a ha' b hb' heq
  · rw [keeps, hbk] at heq
    exact absurd heq hne
  · rw [keeps, hak] at heq
    exact absurd heq.symm hne'
  · rw [keeps, keeps] at heq
    rw [unique a' ha' b' hb' heq]

/-- A write of the rows with one key does not show in a selection that has none of them. -/
theorem filter_update {p : α → Bool}
    (h : ∀ b, key b = k → p b = false ∧ p (f b) = false) :
    (update key rows k f).filter p = rows.filter p := by
  induction rows with
  | nil => rfl
  | cons b rows ih =>
    simp only [update] at ih
    by_cases hb : key b = k
    · obtain ⟨hold, hnew⟩ := h b hb
      simp [update, hb, hold, hnew, ih]
    · simp [update, hb, filter_cons, ih]

theorem filter_upsert {p : α → Bool} (hrow : p row = false)
    (h : ∀ b, key b = key row → p b = false ∧ p (merge b) = false) :
    (upsert key rows row merge).filter p = rows.filter p := by
  unfold upsert
  split
  · exact filter_update h
  · simp [hrow]

theorem unique_upsert (keeps : ∀ a, key (merge a) = key a)
    (unique : Unique key rows) : Unique key (upsert key rows row merge) := by
  unfold upsert
  split
  · exact unique_update keeps unique
  · next h => exact unique_concat unique (by simpa using h)

theorem mem_insertOrIgnore (h : a ∈ insertOrIgnore key rows row) : a ∈ rows ∨ a = row := by
  unfold insertOrIgnore at h
  split at h
  · exact .inl h
  · exact (mem_append.mp h).imp_right mem_singleton.mp

/-- What an upsert does not leave alone has the key. -/
theorem mem_upsert (keeps : ∀ a, key (merge a) = key a)
    (h : a ∈ upsert key rows row merge) : a ∈ rows ∨ key a = key row := by
  unfold upsert at h
  split at h
  · obtain ⟨ha, -⟩ | ⟨b, -, hkey, rfl⟩ := mem_update.mp h
    · exact .inl ha
    · exact .inr ((keeps b).trans hkey)
  · exact (mem_append.mp h).imp_right fun ha => congrArg key (mem_singleton.mp ha)

theorem mem_insertOrIgnore_of_mem (h : a ∈ rows) : a ∈ insertOrIgnore key rows row := by
  unfold insertOrIgnore
  split
  · exact h
  · exact mem_append_left _ h

/-- An update removes no key. -/
theorem exists_mem_update (keeps : ∀ a, key (f a) = key a) (h : a ∈ rows) :
    ∃ b ∈ update key rows k f, key b = key a := by
  by_cases hk : key a = k
  · exact ⟨f a, mem_update.mpr (.inr ⟨a, h, hk, rfl⟩), keeps a⟩
  · exact ⟨a, mem_update.mpr (.inl ⟨h, hk⟩), rfl⟩

theorem exists_mem_upsert (keeps : ∀ a, key (merge a) = key a) (h : a ∈ rows) :
    ∃ b ∈ upsert key rows row merge, key b = key a := by
  unfold upsert
  split
  · exact exists_mem_update keeps h
  · exact ⟨a, mem_append_left _ h, rfl⟩

theorem mem_delete : a ∈ delete key rows k ↔ a ∈ rows ∧ key a ≠ k := by simp [delete]

/-- Where no key occurs twice, deleting by the key removes the row itself. -/
theorem delete_eq_erase [DecidableEq α] (nodup : (rows.map key).Nodup) (h : a ∈ rows) :
    delete key rows (key a) = rows.erase a := by
  rw [(Nodup.of_map key nodup).erase_eq_filter]
  refine filter_congr fun b hb => ?_
  have hiff : key b = key a ↔ b = a :=
    ⟨fun heq => inj_on_of_nodup_map nodup hb h heq, congrArg key⟩
  exact Bool.eq_iff_iff.mpr (by simp [hiff])

theorem unique_delete (unique : Unique key rows) : Unique key (delete key rows k) :=
  fun a ha b hb => unique a (mem_delete.mp ha).1 b (mem_delete.mp hb).1

/-! ### Counting the rows with a property -/

section Count

/-- Deleting the row of a key takes one from what counts for that key, and adds to nothing. -/
theorem countP_delete_add_le {p : κ → α → Bool} (h : find key rows k = some a)
    (hp : p k a = true) (k' : κ) :
    (if k = k' then 1 else 0) + (delete key rows k).countP (p k') ≤ rows.countP (p k') := by
  obtain ⟨ha, hkey⟩ := mem_of_find h
  rw [countP_eq_countP_filter_add rows (p k') fun row => decide (key row ≠ k), delete]
  split
  · next heq =>
    have hpos : 0 < (rows.filter fun row => !decide (key row ≠ k)).countP (p k') :=
      countP_pos_iff.mpr ⟨a, mem_filter.mpr ⟨ha, by simp [hkey]⟩, heq ▸ hp⟩
    omega
  · omega

/-- A write after which no row with the key counts. -/
theorem countP_update {p : α → Bool} (h : ∀ b, p (f b) = false) :
    (update key rows k f).countP p = (delete key rows k).countP p := by
  rw [update, delete, countP_map, countP_filter]
  refine countP_congr fun b _ => ?_
  by_cases hk : key b = k <;> simp [hk, h]

end Count

end KeyedTable
