import AgentSight.Lib.Retention
import Mathlib.Order.Lattice
import Std.Data.TreeMap.Lemmas

/-!
# The best of each key

A table is filled from a list, one entry for each key. Where a later element replaces an entry
only if it ranks higher, the table ends with the best of each key; where it always replaces it
and the keys are distinct, the table ends with the list in the order of the keys.
-/

namespace AgentSight.BestByKey

open Std (TreeMap)
open Retention (mem_values values_eq_map_snd_toList)
open List Option

variable {κ α ρ : Type} [Ord κ] [Std.TransOrd κ] [Std.LawfulEqOrd κ]
  {key : α → κ} {table : TreeMap κ α} {l l' : List α} {a b : α} {k : κ}

/-- Every entry is filed under its key. -/
def Filed (key : α → κ) (table : TreeMap κ α) : Prop :=
  ∀ (k : κ) (a : α), table[k]? = some a → key a = k

theorem Filed.values_pairwise (h : Filed key table) :
    table.values.Pairwise fun a b => key a ≠ key b := by
  rw [values_eq_map_snd_toList, pairwise_map]
  refine (TreeMap.distinct_keys_toList (t := table)).imp_of_mem ?_
  intro entry entry' hentry hentry' hdistinct hsame
  rw [h _ _ (TreeMap.mem_toList_iff_getElem?_eq_some.mp hentry),
    h _ _ (TreeMap.mem_toList_iff_getElem?_eq_some.mp hentry')] at hsame
  exact hdistinct (Std.LawfulEqCmp.compare_eq_iff_eq.mpr hsame)

theorem Filed.mem_values (h : Filed key table) : a ∈ table.values ↔ table[key a]? = some a := by
  rw [Retention.mem_values]
  constructor
  · rintro ⟨k, hk⟩
    rwa [h k a hk]
  · exact fun ha => ⟨key a, ha⟩

/-! ### A table by distinct keys -/

def file (key : α → κ) (l : List α) : TreeMap κ α :=
  l.foldl (fun table a => table.insert (key a) a) ∅

omit [Std.TransOrd κ] [Std.LawfulEqOrd κ] in
theorem file_concat : file key (l ++ [a]) = (file key l).insert (key a) a := by
  rw [file, foldl_concat, file]

section

variable (hkeys : (l.map key).Nodup)
include hkeys

theorem getElem?_file :
    (file key l)[k]? = some a ↔ a ∈ l ∧ key a = k := by
  induction l using List.reverseRecOn with
  | nil => simp [file]
  | append_singleton l last ih =>
    rw [map_append, nodup_append] at hkeys
    obtain ⟨hkeys, -, hapart⟩ := hkeys
    have hnew : ∀ a ∈ l, key a ≠ key last := fun a ha =>
      hapart (key a) (mem_map_of_mem ha) (key last) (mem_singleton_self _)
    rw [file_concat, TreeMap.getElem?_insert]
    split_ifs with hk
    · have hk := Std.LawfulEqCmp.compare_eq_iff_eq.mp hk
      simp only [some.injEq, mem_append, mem_singleton]
      constructor
      · rintro rfl
        exact ⟨.inr rfl, hk⟩
      · rintro ⟨ha | rfl, hka⟩
        · exact absurd (hka.trans hk.symm) (hnew a ha)
        · rfl
    · have hk : key last ≠ k := fun h => hk (Std.LawfulEqCmp.compare_eq_iff_eq.mpr h)
      simp only [ih hkeys, mem_append, mem_singleton]
      constructor
      · exact fun ⟨ha, hka⟩ => ⟨.inl ha, hka⟩
      · rintro ⟨ha | rfl, hka⟩
        · exact ⟨ha, hka⟩
        · exact absurd hka hk

theorem filed_file : Filed key (file key l) :=
  fun _ _ h => ((getElem?_file hkeys).mp h).2

theorem mem_values_file : a ∈ (file key l).values ↔ a ∈ l := by
  rw [(filed_file hkeys).mem_values, getElem?_file hkeys]
  exact and_iff_left rfl

/-- The order in which elements of distinct keys come does not count. -/
theorem values_file_perm (h : l.Perm l') :
    (file key l).values = (file key l').values := by
  refine TreeMap.Equiv.values_eq (TreeMap.Equiv.of_forall_constGet?_eq fun k => ?_)
  refine ext fun a => ?_
  rw [getElem?_file hkeys, getElem?_file ((h.map key).nodup_iff.mp hkeys), h.mem_iff]

end

/-! ### The best entry -/

/-- An element takes the place of the entry of its key that it ranks above. -/
def offer (key : α → κ) (higher : α → α → Bool) (table : TreeMap κ α) (a : α) : TreeMap κ α :=
  match table[key a]? with
  | some current => if higher a current then table.insert (key a) a else table
  | none => table.insert (key a) a

def best (key : α → κ) (higher : α → α → Bool) (l : List α) : TreeMap κ α :=
  l.foldl (offer key higher) ∅

variable [LinearOrder ρ] {higher : α → α → Bool} {rank : α → ρ}

/-- The entries are what the elements so far have best. -/
structure Best (key : α → κ) (rank : α → ρ) (l : List α) (table : TreeMap κ α) : Prop where
  mem : ∀ (k : κ) (a : α), table[k]? = some a → a ∈ l
  filed : Filed key table
  covers : ∀ a ∈ l, ∃ b, table[key a]? = some b ∧ rank b ≤ rank a

theorem Best.concat (h : Best key rank l table) (hrank : ∀ a b, higher a b = true ↔ rank a < rank b)
    (last : α) : Best key rank (l ++ [last]) (offer key higher table last) := by
  have hinsert : ∀ b ∈ l, key b = key last → rank last ≤ rank b →
      ∃ c, (table.insert (key last) last)[key b]? = some c ∧ rank c ≤ rank b := by
    intro b _ hkey hle
    exact ⟨last, by rw [hkey, TreeMap.getElem?_insert_self], hle⟩
  have hother b (hkey : key b ≠ key last) a :
      (table.insert (key last) last)[key b]? = some a ↔ table[key b]? = some a := by
    rw [TreeMap.getElem?_insert, if_neg fun hsame =>
      hkey (Std.LawfulEqCmp.compare_eq_iff_eq.mp hsame).symm]
  have hreplaced (hbest : ∀ b ∈ l, key b = key last → rank last ≤ rank b) :
      Best key rank (l ++ [last]) (table.insert (key last) last) := by
    refine ⟨fun k a hk => ?_, fun k a hk => ?_, fun a ha => ?_⟩
    · rw [TreeMap.getElem?_insert] at hk
      split_ifs at hk with hsame
      · rw [← some.inj hk]
        exact mem_concat_self
      · exact mem_append_left _ (h.mem k a hk)
    · rw [TreeMap.getElem?_insert] at hk
      split_ifs at hk with hsame
      · rw [← some.inj hk]
        exact Std.LawfulEqCmp.compare_eq_iff_eq.mp hsame
      · exact h.filed k a hk
    · obtain ha | ha := mem_append.mp ha
      · by_cases hkey : key a = key last
        · exact hinsert a ha hkey (hbest a ha hkey)
        · obtain ⟨b, hb, hle⟩ := h.covers a ha
          exact ⟨b, (hother a hkey b).mpr hb, hle⟩
      · obtain rfl := mem_singleton.mp ha
        exact ⟨a, TreeMap.getElem?_insert_self, le_rfl⟩
  rw [offer]
  cases hcurrent : table[key last]? with
  | none =>
    refine hreplaced fun b hb hkey => ?_
    obtain ⟨c, hc, -⟩ := h.covers b hb
    rw [hkey, hcurrent] at hc
    cases hc
  | some current =>
    dsimp only
    have hcovers : ∀ b ∈ l, key b = key last → rank current ≤ rank b := by
      intro b hb hkey
      obtain ⟨c, hc, hle⟩ := h.covers b hb
      rw [hkey, hcurrent, some.injEq] at hc
      rwa [hc]
    split_ifs with hhigher
    · exact hreplaced fun b hb hkey => ((hrank _ _).mp hhigher).le.trans (hcovers b hb hkey)
    · refine ⟨fun k a hk => mem_append_left _ (h.mem k a hk), h.filed, fun a ha => ?_⟩
      obtain ha | ha := mem_append.mp ha
      · exact h.covers a ha
      · obtain rfl := mem_singleton.mp ha
        exact ⟨current, hcurrent, not_lt.mp (mt (hrank _ _).mpr hhigher)⟩

section

variable (hrank : ∀ a b, higher a b = true ↔ rank a < rank b)
include hrank

theorem best_best (l : List α) :
    Best key rank l (best key higher l) := by
  induction l using List.reverseRecOn with
  | nil => exact ⟨by simp [best], fun k a h => by simp [best] at h, by simp⟩
  | append_singleton l last ih =>
    rw [best, foldl_concat]
    exact ih.concat hrank last

/-- An entry is an element that ranks above all others of its key. -/
theorem mem_values_best
    (hapart : ∀ a ∈ l, ∀ b ∈ l, rank a = rank b → a = b) :
    a ∈ (best key higher l).values ↔
      a ∈ l ∧ ∀ b ∈ l, key b = key a → b = a ∨ higher a b = true := by
  have hbest := (best_best hrank l : Best key rank l (best key higher l))
  rw [hbest.filed.mem_values]
  constructor
  · refine fun ha => ⟨hbest.mem _ _ ha, fun b hb hkey => ?_⟩
    obtain ⟨c, hc, hle⟩ := hbest.covers b hb
    rw [hkey, ha, some.injEq] at hc
    rw [← hc] at hle
    obtain hlt | heq := hle.lt_or_eq
    · exact .inr ((hrank _ _).mpr hlt)
    · exact .inl (hapart b hb a (hbest.mem _ _ ha) heq.symm)
  · rintro ⟨ha, hhigher⟩
    obtain ⟨c, hc, hle⟩ := hbest.covers a ha
    obtain rfl | hlt := hhigher c (hbest.mem _ _ hc) (hbest.filed _ _ hc)
    · exact hc
    · exact absurd ((hrank _ _).mp hlt) (not_lt.mpr hle)

/-- Every key of the list has an entry. -/
theorem exists_mem_values_best (ha : a ∈ l) :
    ∃ b ∈ (best key higher l).values, key b = key a := by
  have hbest := (best_best hrank l : Best key rank l (best key higher l))
  obtain ⟨b, hb, -⟩ := hbest.covers a ha
  have hkey := hbest.filed _ _ hb
  refine ⟨b, hbest.filed.mem_values.mpr ?_, hkey⟩
  rwa [hkey]

end

end AgentSight.BestByKey
