import AgentSight.Lib.KeyedTable

/-!
# Maps that keep the order of insertion

The `Map` of JavaScript: a key that is set again keeps its place, a new one goes to the end. The
entries carry that no key is there twice, so what an iteration sees and what `get` returns say the
same.
-/

structure OrderedMap (κ α : Type*) where
  entries : List (κ × α)
  nodup : (entries.map Prod.fst).Nodup

namespace OrderedMap

open List

variable {κ α β : Type*} {m : OrderedMap κ α} {k k' : κ} {a : α}

@[ext] theorem ext {m m' : OrderedMap κ α} (h : m.entries = m'.entries) : m = m' := by
  cases m
  cases m'
  congr

def empty : OrderedMap κ α := ⟨[], nodup_nil⟩

instance : Inhabited (OrderedMap κ α) := ⟨empty⟩

def keys (m : OrderedMap κ α) : List κ := m.entries.map Prod.fst

def values (m : OrderedMap κ α) : List α := m.entries.map Prod.snd

/-- Every value is replaced in its place. -/
def map (f : κ → α → β) (m : OrderedMap κ α) : OrderedMap κ β where
  entries := m.entries.map fun e => (e.1, f e.1 e.2)
  nodup := by
    rw [map_map]
    exact m.nodup

theorem map_map {γ : Type*} (g : κ → β → γ) (f : κ → α → β) (m : OrderedMap κ α) :
    (m.map f).map g = m.map fun k a => g k (f k a) :=
  ext (List.map_map ..)

theorem map_id (m : OrderedMap κ α) : (m.map fun _ a => a) = m := ext (map_id' _)

variable [DecidableEq κ]

def get (m : OrderedMap κ α) (k : κ) : Option α :=
  (KeyedTable.find Prod.fst m.entries k).map Prod.snd

/-- What is under the key is changed in place. -/
def modify (m : OrderedMap κ α) (k : κ) (f : α → α) : OrderedMap κ α :=
  m.map fun k' a => if k' = k then f a else a

def set (m : OrderedMap κ α) (k : κ) (a : α) : OrderedMap κ α :=
  if h : k ∈ m.keys then m.modify k fun _ => a
  else
    { entries := m.entries ++ [(k, a)]
      nodup := by
        rw [map_append, map_cons, map_nil, nodup_append]
        refine ⟨m.nodup, nodup_singleton k, ?_⟩
        intro k' hk' b hb hkb
        rw [mem_singleton] at hb
        rw [hkb, hb] at hk'
        exact h hk' }

def delete (m : OrderedMap κ α) (k : κ) : OrderedMap κ α where
  entries := KeyedTable.delete Prod.fst m.entries k
  nodup := m.nodup.sublist (filter_sublist.map Prod.fst)

/-! ### What is under a key -/

theorem get_eq_some : m.get k = some a ↔ (k, a) ∈ m.entries := by
  have hunique : KeyedTable.Unique Prod.fst m.entries := fun e he e' he' h =>
    inj_on_of_nodup_map m.nodup he he' h
  rw [get, Option.map_eq_some_iff]
  constructor
  · rintro ⟨⟨k', b⟩, hfind, rfl⟩
    obtain ⟨hmem, rfl⟩ := (KeyedTable.find_eq_some hunique).mp hfind
    exact hmem
  · intro h
    exact ⟨(k, a), (KeyedTable.find_eq_some hunique).mpr ⟨h, rfl⟩, rfl⟩

theorem mem_keys : k ∈ m.keys ↔ ∃ a, m.get k = some a := by
  simp only [keys, mem_map, Prod.exists, exists_and_right, exists_eq_right, get_eq_some]

theorem get_eq_none : m.get k = none ↔ k ∉ m.keys := by
  rw [mem_keys, Option.eq_none_iff_forall_ne_some, not_exists]

theorem mem_values : a ∈ m.values ↔ ∃ k, m.get k = some a := by
  simp only [values, mem_map, Prod.exists, exists_eq_right, get_eq_some]

omit [DecidableEq κ] in
@[simp] theorem keys_empty : (empty : OrderedMap κ α).keys = [] := rfl

@[simp] theorem get_empty (k : κ) : (empty : OrderedMap κ α).get k = none := rfl

omit [DecidableEq κ] in
@[simp] theorem keys_map (f : κ → α → β) (m : OrderedMap κ α) : (m.map f).keys = m.keys := by
  rw [keys, map, List.map_map]
  rfl

@[simp] theorem get_map (f : κ → α → β) (m : OrderedMap κ α) (k : κ) :
    (m.map f).get k = (m.get k).map (f k) := by
  cases h : m.get k with
  | none => rwa [Option.map_none, get_eq_none, keys_map, ← get_eq_none]
  | some a =>
    rw [Option.map_some, get_eq_some]
    exact mem_map.mpr ⟨(k, a), get_eq_some.mp h, rfl⟩

theorem get_modify (m : OrderedMap κ α) (k : κ) (f : α → α) (k' : κ) :
    (m.modify k f).get k' = if k' = k then (m.get k').map f else m.get k' := by
  rw [modify, get_map]
  split
  · rfl
  · exact Option.map_id_apply

theorem get_set (m : OrderedMap κ α) (k : κ) (a : α) (k' : κ) :
    (m.set k a).get k' = if k' = k then some a else m.get k' := by
  rw [set]
  split
  · next h =>
    rw [get_modify]
    split
    · next hk =>
      subst hk
      obtain ⟨b, hb⟩ := mem_keys.mp h
      rw [hb, Option.map_some]
    · rfl
  · next h =>
    rw [get, KeyedTable.find_concat]
    split
    · next hk =>
      subst hk
      have hfree := Option.map_eq_none_iff.mp (get_eq_none.mpr h)
      rw [hfree, if_pos rfl, Option.none_or, Option.map_some]
    · next hk => rw [if_neg (Ne.symm hk), Option.or_none, get]

/-- A map that is filled with new keys lists them behind what it has. -/
theorem entries_foldl_set {f : κ → α} {order : List κ} (hnodup : order.Nodup)
    (m : OrderedMap κ α) (hnew : ∀ k ∈ order, k ∉ m.keys) :
    (order.foldl (fun m k => m.set k (f k)) m).entries =
      m.entries ++ order.map fun k => (k, f k) := by
  induction order generalizing m with
  | nil => simp
  | cons k order ih =>
    obtain ⟨hfresh, hnodup⟩ := nodup_cons.mp hnodup
    have hset : (m.set k (f k)).entries = m.entries ++ [(k, f k)] := by
      rw [set, dif_neg (hnew k mem_cons_self)]
    rw [foldl_cons, ih hnodup, hset, append_assoc, map_cons, singleton_append]
    intro k' hk'
    rw [keys, hset, map_append, mem_append, not_or]
    refine ⟨hnew k' (mem_cons_of_mem _ hk'), ?_⟩
    rw [map_singleton, mem_singleton]
    exact fun (heq : k' = k) => hfresh (heq ▸ hk')

theorem get_delete (m : OrderedMap κ α) (k k' : κ) :
    (m.delete k).get k' = if k' = k then none else m.get k' := by
  rw [get, delete, KeyedTable.find_delete]
  split
  · rfl
  · rw [get]

theorem get_set_of_ne (h : k' ≠ k) : (m.set k a).get k' = m.get k' := by rw [get_set, if_neg h]

@[simp] theorem mem_keys_set : k' ∈ (m.set k a).keys ↔ k' = k ∨ k' ∈ m.keys := by
  rw [mem_keys, mem_keys, get_set]
  split
  · next h => exact iff_of_true ⟨a, rfl⟩ (.inl h)
  · next h => rw [or_iff_right h]

@[simp] theorem mem_keys_delete : k' ∈ (m.delete k).keys ↔ k' ∈ m.keys ∧ k' ≠ k := by
  rw [mem_keys, mem_keys, get_delete]
  split
  · next h => exact iff_of_false (by simp) fun hk => hk.2 h
  · next h => rw [and_iff_left h]

end OrderedMap
