import Mathlib.Algebra.Order.BigOperators.Group.List
import Mathlib.Data.List.Induction
import AgentSight.Lib.KeyedTable

/-!
# Gathering a list by a key

A list is gone through once. `firsts` keeps the first element of each key, `gather` merges the later
ones into the row of their key, and `latest` is the last element of a key. The rows have the keys of
the first elements, and a quantity that only grows along the elements of a key ends as the latest
one has it (`value_gather`). Where one key decides another, the first elements of the coarser key
are among those of the finer (`sum_firsts`).
-/

namespace KeyedTable

open List

variable {α β κ κ' : Type*} [DecidableEq κ] [DecidableEq κ'] (key : α → κ)

def firsts (l : List α) : List α := l.foldl (insertOrIgnore key) []

def gather (merge : α → α → α) (l : List α) : List α :=
  l.foldl (fun rows a => upsert key rows a (merge · a)) []

/-- The last element of a key. -/
def latest (l : List α) (k : κ) : Option α := l.reverse.find? fun a => key a = k

variable {key} {merge : α → α → α} {l : List α} {a : α} {k : κ}

/-! ### Splits -/

/-- A list that grows by an element splits before it, or at it. -/
theorem exists_split_concat {p q : α → Prop} :
    (∃ before b after, l ++ [a] = before ++ b :: after ∧ p b ∧ ∀ c ∈ after, q c) ↔
      p a ∨ q a ∧ ∃ before b after, l = before ++ b :: after ∧ p b ∧ ∀ c ∈ after, q c := by
  constructor
  · rintro ⟨before, b, after, heq, hb, hafter⟩
    obtain rfl | ⟨rest, c, rfl⟩ := after.eq_nil_or_concat
    · cases append_inj_right' heq rfl
      exact .inl hb
    · rw [concat_eq_append, ← cons_append, ← append_assoc] at heq
      cases append_inj_right' heq rfl
      exact .inr ⟨hafter a (by simp), before, b, rest, append_inj_left' heq rfl, hb,
        fun c hc => hafter c (by simp [hc])⟩
  · rintro (ha | ⟨ha, before, b, after, rfl, hb, hafter⟩)
    · exact ⟨l, a, [], rfl, ha, nofun⟩
    · refine ⟨before, b, after ++ [a], by simp, hb, fun c hc => ?_⟩
      rcases mem_append.mp hc with hc | hc
      · exact hafter c hc
      · exact mem_singleton.mp hc ▸ ha

/-! ### First elements -/

theorem exists_firsts (key : α → κ) (l : List α) (k : κ) :
    (∃ b ∈ firsts key l, key b = k) ↔ ∃ b ∈ l, key b = k := by
  induction l using List.reverseRecOn with
  | nil => exact Iff.rfl
  | append_singleton l a ih =>
    rw [firsts, foldl_append, foldl_cons, foldl_nil, ← firsts, insertOrIgnore]
    split
    · next hfound =>
      rw [find_isSome] at hfound
      rw [ih]
      constructor
      · rintro ⟨b, hb, hkey⟩
        exact ⟨b, mem_append_left _ hb, hkey⟩
      · rintro ⟨b, hb, hkey⟩
        rcases mem_append.mp hb with hb | hb
        · exact ⟨b, hb, hkey⟩
        · obtain rfl := mem_singleton.mp hb
          exact ih.mp (hkey ▸ hfound)
    · simp only [mem_append, mem_singleton, or_and_right, exists_or, ih]

theorem firsts_concat_of_seen (h : ∃ b ∈ l, key b = key a) :
    firsts key (l ++ [a]) = firsts key l := by
  have hfound := (find_isSome key _ _).mpr ((exists_firsts key l (key a)).mpr h)
  rw [firsts, foldl_append, foldl_cons, foldl_nil, ← firsts, insertOrIgnore,
    if_pos hfound]

theorem firsts_concat_of_new (h : ¬ ∃ b ∈ l, key b = key a) :
    firsts key (l ++ [a]) = firsts key l ++ [a] := by
  have hfound := mt (find_isSome key _ _).mp (mt (exists_firsts key l (key a)).mp h)
  rw [firsts, foldl_append, foldl_cons, foldl_nil, ← firsts, insertOrIgnore,
    if_neg hfound]

theorem mem_of_mem_firsts (h : a ∈ firsts key l) : a ∈ l := by
  induction l using List.reverseRecOn with
  | nil => exact h
  | append_singleton l b ih =>
    by_cases hseen : ∃ c ∈ l, key c = key b
    · rw [firsts_concat_of_seen hseen] at h
      exact mem_append_left _ (ih h)
    · rw [firsts_concat_of_new hseen] at h
      exact (mem_append.mp h).elim (fun h => mem_append_left _ (ih h))
        (mem_append_right _)

theorem nodup_firsts (key : α → κ) (l : List α) : ((firsts key l).map key).Nodup := by
  induction l using List.reverseRecOn with
  | nil => exact nodup_nil
  | append_singleton l a ih =>
    by_cases hseen : ∃ b ∈ l, key b = key a
    · rwa [firsts_concat_of_seen hseen]
    · rw [firsts_concat_of_new hseen, map_append, nodup_append]
      refine ⟨ih, nodup_singleton _, ?_⟩
      rintro k hk k' hk' rfl
      obtain ⟨b, hb, rfl⟩ := mem_map.mp hk
      exact hseen ⟨b, mem_of_mem_firsts hb, mem_singleton.mp hk'⟩

theorem firsts_of_nodup (h : (l.map key).Nodup) : firsts key l = l := by
  induction l using List.reverseRecOn with
  | nil => rfl
  | append_singleton l a ih =>
    rw [map_append, nodup_append] at h
    have hnew : ¬∃ b ∈ l, key b = key a := by
      rintro ⟨b, hb, hkey⟩
      exact h.2.2 _ (mem_map_of_mem hb) (key a) (mem_singleton_self _) hkey
    rw [firsts_concat_of_new hnew, ih h.1]

theorem firsts_map (key : α → κ) (f : β → α) (l : List β) :
    firsts key (l.map f) = (firsts (key ∘ f) l).map f := by
  induction l using List.reverseRecOn with
  | nil => rfl
  | append_singleton l a ih =>
    rw [map_append, map_singleton]
    by_cases hseen : ∃ b ∈ l, (key ∘ f) b = (key ∘ f) a
    · rw [firsts_concat_of_seen (by simpa using hseen), ih, firsts_concat_of_seen hseen]
    · rw [firsts_concat_of_new (by simpa using hseen), ih, firsts_concat_of_new hseen,
        map_append, map_singleton]

variable {M : Type*}

/-- Of the first elements of a key, those that are first also of a coarser key carry its sum. -/
theorem sum_firsts [DecidableEq α] [AddCommMonoid M] (coarse : α → κ') (weight : α → M)
    (h : l.Pairwise fun a b => key a = key b → coarse a = coarse b) :
    ((firsts coarse l).map weight).sum =
      ((firsts key l).map fun a => if a ∈ firsts coarse l then weight a else 0).sum := by
  induction l using List.reverseRecOn with
  | nil => rfl
  | append_singleton l a ih =>
    rw [pairwise_append] at h
    have ih := ih h.1
    by_cases hkey : ∃ b ∈ l, key b = key a
    · obtain ⟨b, hb, hbkey⟩ := hkey
      have hcoarse : ∃ b ∈ l, coarse b = coarse a :=
        ⟨b, hb, h.2.2 b hb a (mem_singleton_self a) hbkey⟩
      rw [firsts_concat_of_seen hcoarse, firsts_concat_of_seen ⟨b, hb, hbkey⟩, ih]
    · -- The element is new, so it is none of the first elements so far.
      have hnew : a ∉ l := fun ha => hkey ⟨a, ha, rfl⟩
      rw [firsts_concat_of_new hkey]
      by_cases hcoarse : ∃ b ∈ l, coarse b = coarse a
      · have hfirst : a ∉ firsts coarse l := mt mem_of_mem_firsts hnew
        simp [firsts_concat_of_seen hcoarse, ih, hfirst]
      · have hold :
            (firsts key l).map (fun b => if b ∈ firsts coarse l ∨ b = a then weight b else 0) =
              (firsts key l).map fun b => if b ∈ firsts coarse l then weight b else 0 := by
          refine map_congr_left fun b hb => ?_
          have hne : b ≠ a := by
            rintro rfl
            exact hnew (mem_of_mem_firsts hb)
          simp [hne]
        simp [firsts_concat_of_new hcoarse, ih, hold]

/-! ### Latest elements -/

theorem latest_concat (l : List α) (a : α) (k : κ) :
    latest key (l ++ [a]) k = if key a = k then some a else latest key l k := by
  unfold latest
  by_cases h : key a = k
  · simp [h]
  · simp [h]

theorem mem_of_latest (h : latest key l k = some a) : a ∈ l ∧ key a = k :=
  ⟨mem_reverse.mp (mem_of_find?_eq_some h), by simpa using find?_some h⟩

theorem exists_latest (h : ∃ b ∈ l, key b = k) : ∃ a, latest key l k = some a := by
  obtain ⟨b, hb, hkey⟩ := h
  refine Option.isSome_iff_exists.mp (find?_isSome.mpr ⟨b, mem_reverse.mpr hb, ?_⟩)
  simpa using hkey

theorem latest_map (key : α → κ) (f : β → α) (l : List β) (k : κ) :
    latest key (l.map f) k = (latest (key ∘ f) l k).map f := by
  unfold latest
  rw [← map_reverse, find?_map]
  rfl

/-- What only grows along the elements of a key is at most what the latest one has. -/
theorem le_latest [Preorder M] {value : α → M}
    (h : l.Pairwise fun a b => key a = key b → value a ≤ value b) {last : α} (ha : a ∈ l)
    (hlast : latest key l (key a) = some last) : value a ≤ value last := by
  induction l using List.reverseRecOn generalizing last with
  | nil => cases ha
  | append_singleton l b ih =>
    rw [pairwise_append] at h
    rw [latest_concat] at hlast
    rcases mem_append.mp ha with ha | ha
    · split at hlast
      · next hkey =>
        cases hlast
        exact h.2.2 a ha b (mem_singleton_self b) hkey.symm
      · exact ih h.1 ha hlast
    · obtain rfl := mem_singleton.mp ha
      rw [if_pos rfl] at hlast
      cases hlast
      exact le_rfl

/-! ### Rows -/

theorem map_key_gather (keeps : ∀ a b, key (merge a b) = key a) :
    (gather key merge l).map key = (firsts key l).map key := by
  induction l using List.reverseRecOn with
  | nil => rfl
  | append_singleton l a ih =>
    have hseen : (∃ row ∈ gather key merge l, key row = key a) ↔ ∃ b ∈ l, key b = key a := by
      rw [← exists_firsts key l (key a), ← mem_map, ih, mem_map]
    rw [gather, foldl_append, foldl_cons, foldl_nil, ← gather, upsert]
    by_cases h : ∃ b ∈ l, key b = key a
    · rw [if_pos ((find_isSome key _ _).mpr (hseen.mpr h)), firsts_concat_of_seen h, ← ih, update,
        map_map]
      refine map_congr_left fun row _ => ?_
      rw [Function.comp_apply, apply_ite key, keeps, ite_self]
    · rw [if_neg (mt (find_isSome key _ _).mp (mt hseen.mp h)), firsts_concat_of_new h,
        map_append, map_append, ih]

/-- What merging keeps holds of every row. -/
theorem forall_mem_gather {P : α → Prop} (hmerge : ∀ a b, P a → P b → P (merge a b))
    (h : ∀ a ∈ l, P a) : ∀ row ∈ gather key merge l, P row := by
  refine List.foldlRecOn (motive := fun rows : List α => ∀ row ∈ rows, P row) l _
    (fun _ hrow => by cases hrow) fun rows hrows a ha row hrow => ?_
  unfold upsert at hrow
  split at hrow
  · obtain ⟨hrow, -⟩ | ⟨row', hrow', -, rfl⟩ := mem_update.mp hrow
    · exact hrows row hrow
    · exact hmerge row' a (hrows row' hrow') (h a ha)
  · obtain hrow | hrow := mem_append.mp hrow
    · exact hrows row hrow
    · exact mem_singleton.mp hrow ▸ h a ha

/-- A quantity that only grows along the elements of a key ends as the latest one has it. -/
theorem value_gather [SemilatticeSup M] {value : α → M} (keeps : ∀ a b, key (merge a b) = key a)
    (grows : ∀ a b, value (merge a b) = value a ⊔ value b)
    (h : l.Pairwise fun a b => key a = key b → value a ≤ value b) {row last : α}
    (hrow : row ∈ gather key merge l) (hlast : latest key l (key row) = some last) :
    value row = value last := by
  induction l using List.reverseRecOn generalizing row last with
  | nil => cases hrow
  | append_singleton l a ih =>
    rw [pairwise_append] at h
    rw [gather, foldl_append, foldl_cons, upsert] at hrow
    rw [latest_concat] at hlast
    have hseen : ∀ b ∈ gather key merge l, ∃ c ∈ l, key c = key b := by
      intro b hb
      rw [← exists_firsts key l (key b), ← mem_map, ← map_key_gather keeps]
      exact mem_map_of_mem hb
    split at hrow
    · rcases mem_update.mp hrow with ⟨hrow, hne⟩ | ⟨old, hold, hkey, rfl⟩
      · rw [if_neg (Ne.symm hne)] at hlast
        exact ih h.1 hrow hlast
      · rw [keeps, if_pos hkey.symm] at hlast
        cases hlast
        -- What the row has is what the latest element before had, which is no more than this one.
        obtain ⟨before, hbefore⟩ := exists_latest (hseen old hold)
        obtain ⟨hmem, hbkey⟩ := mem_of_latest hbefore
        rw [grows, ih h.1 hold hbefore]
        exact sup_eq_right.mpr (h.2.2 before hmem a (mem_singleton_self a) (hbkey.trans hkey))
    · next hnew =>
      rcases mem_append.mp hrow with hrow | hrow
      · have hne : key a ≠ key row := by
          intro heq
          exact hnew ((find_isSome key _ _).mpr ⟨row, hrow, heq.symm⟩)
        rw [if_neg hne] at hlast
        exact ih h.1 hrow hlast
      · obtain rfl := mem_singleton.mp hrow
        rw [if_pos rfl] at hlast
        cases hlast
        rfl

/-- Where a merge replaces the row, the row is the latest element of its key. -/
theorem latest_of_mem_gather (replaces : ∀ a b, key a = key b → merge a b = b) {row : α}
    (hrow : row ∈ gather key merge l) : latest key l (key row) = some row := by
  induction l using List.reverseRecOn generalizing row with
  | nil => cases hrow
  | append_singleton l a ih =>
    rw [gather, foldl_append, foldl_cons, upsert] at hrow
    rw [latest_concat]
    split at hrow
    · rcases mem_update.mp hrow with ⟨hrow, hne⟩ | ⟨old, -, hkey, rfl⟩
      · rw [if_neg (Ne.symm hne), ih hrow]
      · rw [replaces old a hkey, if_pos rfl]
    · next hnew =>
      rcases mem_append.mp hrow with hrow | hrow
      · have hne : key a ≠ key row := by
          intro heq
          exact hnew ((find_isSome key _ _).mpr ⟨row, hrow, heq.symm⟩)
        rw [if_neg hne, ih hrow]
      · obtain rfl := mem_singleton.mp hrow
        exact if_pos rfl

/-! ### Sums over a table -/

theorem nodup_upsert {rows : List α} {row : α} {f : α → α} (keeps : ∀ a, key (f a) = key a)
    (h : (rows.map key).Nodup) : ((upsert key rows row f).map key).Nodup := by
  unfold upsert
  split
  · rw [update, map_map]
    convert h using 1
    refine map_congr_left fun a _ => ?_
    rw [Function.comp_apply, apply_ite key, keeps, ite_self]
  · next hnew =>
    rw [map_append, nodup_append]
    refine ⟨h, nodup_singleton _, ?_⟩
    rintro k hk k' hk' rfl
    obtain ⟨a, ha, rfl⟩ := mem_map.mp hk
    exact hnew ((find_isSome key _ _).mpr ⟨a, ha, mem_singleton.mp hk'⟩)

/-- A merge that adds the weight of the row adds it to the sum. -/
theorem sum_upsert [AddCommMonoid M] {rows : List α} {row : α} {f : α → α}
    {weight : α → M} (h : (rows.map key).Nodup)
    (hadd : ∀ a, key a = key row → weight (f a) = weight a + weight row) :
    ((upsert key rows row f).map weight).sum = (rows.map weight).sum + weight row := by
  unfold upsert
  split
  · next hfound =>
    obtain ⟨a, ha, hkey⟩ := (find_isSome key _ _).mp hfound
    obtain ⟨front, back, rfl⟩ := append_of_mem ha
    -- No other row has the key.
    have hothers : ∀ l : List α, (∀ b ∈ l, key b ≠ key row) → update key l (key row) f = l := by
      intro l hl
      exact (map_congr_left fun b hb => if_neg (hl b hb)).trans (map_id l)
    rw [map_append, map_cons, nodup_append, nodup_cons] at h
    have hfront := hothers front fun b hb heq =>
      h.2.2 (key b) (mem_map_of_mem hb) (key a) mem_cons_self (heq.trans hkey.symm)
    have hback := hothers back fun b hb heq =>
      h.2.1.1 (hkey.trans heq.symm ▸ mem_map_of_mem hb)
    have hsplit : update key (front ++ a :: back) (key row) f = front ++ f a :: back := by
      rw [update, map_append, map_cons, if_pos hkey, ← update, ← update, hfront, hback]
    rw [hsplit]
    simp only [map_append, map_cons, sum_append, sum_cons, hadd a hkey]
    rw [add_right_comm (weight a), ← add_assoc]
  · simp

/-- Two sums of which one is at most the other term by term are equal only term by term. -/
theorem sum_eq_sum_iff [AddCommMonoid M] [PartialOrder M] [IsOrderedCancelAddMonoid M]
    {f g : α → M} (h : ∀ a ∈ l, f a ≤ g a) :
    (l.map f).sum = (l.map g).sum ↔ ∀ a ∈ l, f a = g a := by
  induction l with
  | nil => simp
  | cons a l ih =>
    have hl := fun b hb => h b (mem_cons_of_mem a hb)
    rw [forall_mem_cons, ← ih hl]
    exact add_eq_add_iff_eq_and_eq (h a mem_cons_self) (sum_le_sum hl)

end KeyedTable
