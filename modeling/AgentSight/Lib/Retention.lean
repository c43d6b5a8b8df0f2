import Mathlib.Data.List.Induction
import Mathlib.Data.List.Nodup
import Mathlib.Data.List.Perm.Basic

/-!
# Bounded retention of a keyed log

A store that keeps one row per key and only so many of them: a row whose key is already kept
takes the place of the old one, a new row goes to the end, and the oldest rows leave once
there are more than the bound allows. `Holds` relates the kept rows to a table by key.
-/

namespace Retention

open Std (TreeMap)
open List

variable {κ α ρ : Type} [DecidableEq κ]

/-- The newest rows a bound allows. -/
def newest : Option ℕ → List ρ → List ρ
  | none, rows => rows
  | some max, rows => rows.drop (rows.length - max)

/-- A row takes the place of the row with its key, or goes to the end. -/
def place (key : ρ → κ) (kept : List ρ) (row : ρ) : List ρ :=
  if key row ∈ kept.map key then kept.map fun r => if key r = key row then row else r
  else kept ++ [row]

def record (key : ρ → κ) (max : Option ℕ) (kept : List ρ) (row : ρ) : List ρ :=
  newest max (place key kept row)

/-- What is kept of a log. -/
def keep (key : ρ → κ) (max : Option ℕ) (log : List ρ) : List ρ := log.foldl (record key max) []

variable {key : ρ → κ} {max : Option ℕ} {kept log rows : List ρ} {row : ρ}

theorem keep_concat : keep key max (log ++ [row]) = record key max (keep key max log) row := by
  simp [keep]

/-- Rows that have left do not come back. -/
theorem newest_newest_append :
    newest max (newest max rows ++ [row]) = newest max (rows ++ [row]) := by
  rcases max with _ | max
  · rfl
  · simp only [newest, length_append, length_drop, length_singleton]
    rcases Nat.lt_or_ge max rows.length with hlt | hge
    · rw [← drop_append_of_le_length (by omega), drop_drop]
      congr 1
      omega
    · simp [Nat.sub_eq_zero_of_le hge]

theorem map_newest {β : Type} (f : ρ → β) : (newest max rows).map f = newest max (rows.map f) := by
  rcases max with _ | max <;> simp [newest, map_drop]

theorem length_newest_le {n : ℕ} : (newest (some n) rows).length ≤ n := by
  simp only [newest, length_drop]
  omega

theorem newest_suffix : newest max rows <:+ rows := by
  rcases max with _ | max
  · exact suffix_rfl
  · exact drop_suffix _ _

theorem newest_newest : newest max (newest max rows) = newest max rows := by
  rcases max with _ | max
  · rfl
  · rw [newest, newest, drop_drop, length_drop]
    congr 1
    omega

theorem map_key_place : (place key kept row).map key =
    if key row ∈ kept.map key then kept.map key else kept.map key ++ [key row] := by
  rw [place]
  split_ifs
  · rw [map_map]
    refine map_congr_left fun r _ => ?_
    by_cases hr : key r = key row <;> simp [hr]
  · simp

theorem nodup_place (h : (kept.map key).Nodup) : ((place key kept row).map key).Nodup := by
  rw [map_key_place]
  split_ifs with hmem
  · exact h
  · exact Nodup.append h (by simp) (by simpa using hmem)

theorem mem_place {r : ρ} : r ∈ place key kept row ↔ r = row ∨ r ∈ kept ∧ key r ≠ key row := by
  rw [place]
  split_ifs with hmem
  · simp only [mem_map]
    constructor
    · rintro ⟨r', hr', rfl⟩
      by_cases hk : key r' = key row
      · exact .inl (if_pos hk)
      · rw [if_neg hk]
        exact .inr ⟨hr', hk⟩
    · rintro (rfl | ⟨hr, hk⟩)
      · obtain ⟨r', hr', hk⟩ := mem_map.mp hmem
        exact ⟨r', hr', if_pos hk⟩
      · exact ⟨r, hr, if_neg hk⟩
  · simp only [mem_append, mem_singleton]
    constructor
    · rintro (hr | rfl)
      · exact .inr ⟨hr, fun hk => hmem (hk ▸ mem_map_of_mem hr)⟩
      · exact .inl rfl
    · rintro (rfl | ⟨hr, -⟩)
      · exact .inr rfl
      · exact .inl hr

/-! ### Arrivals -/

/-- The keys of a log in the order in which they came in: a key comes in with a row unless it is
kept already. -/
def arrivals (key : ρ → κ) (max : Option ℕ) (log : List ρ) : List κ :=
  log.foldl (fun keys row => if key row ∈ newest max keys then keys else keys ++ [key row]) []

theorem arrivals_concat : arrivals key max (log ++ [row]) =
    if key row ∈ newest max (arrivals key max log) then arrivals key max log
    else arrivals key max log ++ [key row] :=
  foldl_concat ..

theorem map_key_record (keys : List κ) (h : kept.map key = newest max keys) :
    (record key max kept row).map key =
      newest max (if key row ∈ newest max keys then keys else keys ++ [key row]) := by
  rw [record, map_newest, map_key_place, h]
  split_ifs
  · exact newest_newest
  · exact newest_newest_append

/-- What is kept is what came in last. -/
theorem map_key_keep : (keep key max log).map key = newest max (arrivals key max log) := by
  induction log using List.reverseRecOn with
  | nil => cases max <;> simp [keep, arrivals, newest]
  | append_singleton log row ih => rw [keep_concat, arrivals_concat, map_key_record _ ih]

/-! ### Tables -/

variable [Ord κ] [Std.TransOrd κ] [Std.LawfulEqOrd κ]

/-- The table holds the kept rows: `f` reads a row off an entry, whose key is that row's. -/
structure Holds (key : ρ → κ) (f : α → ρ) (table : TreeMap κ α) (kept : List ρ) : Prop where
  nodup : (kept.map key).Nodup
  filed : ∀ (k : κ) (a : α), table[k]? = some a → key (f a) = k
  mem : ∀ r, r ∈ kept ↔ ∃ (k : κ) (a : α), table[k]? = some a ∧ f a = r

omit [DecidableEq κ] [Std.TransOrd κ] [Std.LawfulEqOrd κ] in
theorem values_eq_map_snd_toList (table : TreeMap κ α) :
    table.values = table.toList.map Prod.snd := by
  change table.inner.inner.values =
    (Std.DTreeMap.Internal.Impl.Const.toList table.inner.inner).map Prod.snd
  simp [Std.DTreeMap.Internal.Impl.values_eq_map_snd,
    Std.DTreeMap.Internal.Impl.Const.toList_eq_toListModel_map]

omit [DecidableEq κ] in
theorem mem_values {table : TreeMap κ α} {a : α} :
    a ∈ table.values ↔ ∃ k : κ, table[k]? = some a := by
  rw [values_eq_map_snd_toList, mem_map]
  constructor
  · rintro ⟨⟨k, a'⟩, hmem, rfl⟩
    exact ⟨k, TreeMap.mem_toList_iff_getElem?_eq_some.mp hmem⟩
  · rintro ⟨k, hk⟩
    exact ⟨(k, a), TreeMap.mem_toList_iff_getElem?_eq_some.mpr hk, rfl⟩

namespace Holds

variable {f : α → ρ} {table : TreeMap κ α}

omit [DecidableEq κ] [Std.LawfulEqOrd κ] in
theorem empty : Holds key f (∅ : TreeMap κ α) [] where
  nodup := nodup_nil
  filed := by simp
  mem := by simp

omit [DecidableEq κ] in
/-- The entries of the table, read in the order of their keys, are the kept rows. -/
theorem perm (h : Holds key f table kept) : (table.values.map f).Perm kept := by
  have hkeys : (table.values.map f).map key = table.keys := by
    rw [values_eq_map_snd_toList, ← TreeMap.map_fst_toList_eq_keys, map_map, map_map]
    exact map_congr_left fun p hp =>
      h.filed p.1 p.2 (TreeMap.mem_toList_iff_getElem?_eq_some.mp hp)
  have hnodup : ((table.values.map f).map key).Nodup := hkeys ▸ TreeMap.nodup_keys
  refine (perm_ext_iff_of_nodup hnodup.of_map h.nodup.of_map).mpr fun r => ?_
  rw [h.mem, mem_map]
  constructor
  · rintro ⟨a, ha, rfl⟩
    obtain ⟨k, hk⟩ := mem_values.mp ha
    exact ⟨k, a, hk, rfl⟩
  · rintro ⟨k, a, hk, rfl⟩
    exact ⟨a, mem_values.mpr ⟨k, hk⟩, rfl⟩

omit [DecidableEq κ] in
theorem size_eq (h : Holds key f table kept) : table.size = kept.length := by
  rw [← h.perm.length_eq, length_map, values_eq_map_snd_toList, length_map,
    TreeMap.length_toList]

omit [DecidableEq κ] [Std.LawfulEqOrd κ] in
theorem contains_iff (h : Holds key f table kept) (k : κ) :
    table.contains k = true ↔ k ∈ kept.map key := by
  rw [TreeMap.contains_eq_isSome_getElem?, Option.isSome_iff_exists, mem_map]
  constructor
  · rintro ⟨a, ha⟩
    exact ⟨f a, (h.mem _).mpr ⟨k, a, ha, rfl⟩, h.filed k a ha⟩
  · rintro ⟨r, hr, rfl⟩
    obtain ⟨k, a, ha, rfl⟩ := (h.mem r).mp hr
    exact ⟨a, by rwa [h.filed k a ha]⟩

/-- An entry stored under its row's key. -/
theorem insert (h : Holds key f table kept) (a : α) :
    Holds key f (table.insert (key (f a)) a) (place key kept (f a)) where
  nodup := nodup_place h.nodup
  filed := by
    intro k a' hk
    rw [TreeMap.getElem?_insert] at hk
    split_ifs at hk with heq
    · obtain rfl := Std.LawfulEqCmp.eq_of_compare heq
      rw [Option.some.inj hk]
    · exact h.filed k a' hk
  mem := by
    intro r
    rw [mem_place]
    constructor
    · rintro (rfl | ⟨hr, hne⟩)
      · exact ⟨_, a, TreeMap.getElem?_insert_self, rfl⟩
      · obtain ⟨k, a', hk, rfl⟩ := (h.mem r).mp hr
        refine ⟨k, a', ?_, rfl⟩
        rw [TreeMap.getElem?_insert, if_neg, hk]
        exact fun heq => hne (by rw [h.filed k a' hk, ← Std.LawfulEqCmp.eq_of_compare heq])
    · rintro ⟨k, a', hk, rfl⟩
      rw [TreeMap.getElem?_insert] at hk
      split_ifs at hk with heq
      · exact .inl (congrArg f (Option.some.inj hk).symm)
      · refine .inr ⟨(h.mem _).mpr ⟨k, a', hk, rfl⟩, fun hkey => heq ?_⟩
        rw [← hkey, h.filed k a' hk]
        exact Std.ReflCmp.compare_self

omit [DecidableEq κ] in
/-- The entry of the oldest row leaves. -/
theorem erase (h : Holds key f table (row :: kept)) : Holds key f (table.erase (key row)) kept where
  nodup := (nodup_cons.mp h.nodup).2
  filed := by
    intro k a hk
    rw [TreeMap.getElem?_erase] at hk
    split_ifs at hk
    exact h.filed k a hk
  mem := by
    intro r
    have hnodup : key row ∉ kept.map key := (nodup_cons.mp h.nodup).1
    constructor
    · intro hr
      obtain ⟨k, a, hk, rfl⟩ := (h.mem r).mp (mem_cons_of_mem _ hr)
      refine ⟨k, a, ?_, rfl⟩
      rw [TreeMap.getElem?_erase, if_neg, hk]
      intro heq
      obtain heq := Std.LawfulEqCmp.eq_of_compare heq
      exact hnodup (heq ▸ h.filed k a hk ▸ mem_map_of_mem hr)
    · rintro ⟨k, a, hk, rfl⟩
      rw [TreeMap.getElem?_erase] at hk
      split_ifs at hk with heq
      rcases mem_cons.mp ((h.mem _).mpr ⟨k, a, hk, rfl⟩) with hrow | hr
      · refine absurd ?_ heq
        rw [← hrow, h.filed k a hk]
        exact Std.ReflCmp.compare_self
      · exact hr

end Holds

end Retention
