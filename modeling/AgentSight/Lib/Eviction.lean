import Mathlib.Data.List.MinMax
import Mathlib.Data.List.Perm.Basic

/-!
# Eviction of the oldest items

`Evicts time n items kept`: of a collection whose items have times, `n` are taken out one after
the other, each one of the oldest that are left. Items of one time may be taken in any order, so
what is kept is not determined; an item may stay when more than `n` items are at most as late,
and may go when fewer than `n` are strictly earlier. Collections are lists up to their order.
-/

namespace Eviction

open List

variable {α β : Type*} [LinearOrder β] {time : α → β} {n : ℕ} {items kept : List α} {a : α}

inductive Evicts (time : α → β) : ℕ → List α → List α → Prop
  | done {items kept : List α} : items.Perm kept → Evicts time 0 items kept
  | evict {n : ℕ} {items rest kept : List α} {item : α} : items.Perm (item :: rest) →
      (∀ other ∈ rest, time item ≤ time other) → Evicts time n rest kept →
      Evicts time (n + 1) items kept

def MayStay (time : α → β) (n : ℕ) (items : List α) (a : α) : Prop :=
  n < items.countP (time · ≤ time a)

def MayGo (time : α → β) (n : ℕ) (items : List α) (a : α) : Prop :=
  items.countP (time · < time a) < n

instance : Decidable (MayStay time n items a) := inferInstanceAs (Decidable (_ < _))

instance : Decidable (MayGo time n items a) := inferInstanceAs (Decidable (_ < _))

/-! ### The order of the items -/

section

variable (h : Evicts time n items kept)
include h

theorem Evicts.perm_left {items' : List α}
    (hperm : items.Perm items') : Evicts time n items' kept := by
  cases h with
  | done hkept => exact .done (hperm.symm.trans hkept)
  | evict hitems holdest hrest => exact .evict (hperm.symm.trans hitems) holdest hrest

theorem Evicts.perm_right {kept' : List α}
    (hperm : kept.Perm kept') : Evicts time n items kept' := by
  induction h with
  | done hkept => exact .done (hkept.trans hperm)
  | evict hitems holdest _ ih => exact .evict hitems holdest (ih hperm)

/-- What was taken out and what is kept make up the collection. -/
theorem Evicts.exists_gone : ∃ gone, items.Perm (gone ++ kept) := by
  induction h with
  | done hkept => exact ⟨[], hkept⟩
  | @evict n items rest kept item hitems _ _ ih =>
    obtain ⟨gone, hgone⟩ := ih
    exact ⟨item :: gone, hitems.trans (hgone.cons item)⟩

theorem Evicts.subset : kept ⊆ items := by
  obtain ⟨gone, hgone⟩ := h.exists_gone
  exact fun a ha => hgone.mem_iff.mpr (mem_append_right gone ha)

/-! ### What a survivor and an evicted item have in common with the rest -/

theorem Evicts.mayStay (ha : a ∈ kept) : MayStay time n items a := by
  induction h with
  | done hkept =>
    exact countP_pos_iff.mpr ⟨a, hkept.mem_iff.mpr ha, by simp⟩
  | evict hitems holdest hrest ih =>
    have hle := holdest a (hrest.subset ha)
    have hcount := ih ha
    unfold MayStay at hcount ⊢
    rw [hitems.countP_eq, countP_cons_of_pos (by simpa using hle)]
    omega

theorem Evicts.mayGo (ha : a ∈ items) (hgone : a ∉ kept) :
    MayGo time n items a := by
  induction h with
  | done hkept => exact absurd (hkept.mem_iff.mp ha) hgone
  | @evict n items rest kept item hitems holdest _ ih =>
    unfold MayGo
    rw [hitems.countP_eq]
    obtain rfl | hrest := mem_cons.mp (hitems.mem_iff.mp ha)
    · have hnone : rest.countP (time · < time a) = 0 :=
        countP_eq_zero.mpr fun other hother => by simpa using holdest other hother
      rw [countP_cons_of_neg (by simp)]
      omega
    · have hcount := ih hrest hgone
      have hle : [item].countP (time · < time a) ≤ 1 := countP_le_length
      unfold MayGo at hcount
      rw [← singleton_append, countP_append]
      omega

end

/-! ### Ways to evict -/

/-- One of the oldest items of a collection that is not empty. -/
theorem exists_oldest (time : α → β) (h : items ≠ []) :
    ∃ item rest, items.Perm (item :: rest) ∧ ∀ other ∈ items, time item ≤ time other := by
  cases hmin : items.argmin time with
  | none => exact absurd (argmin_eq_none.mp hmin) h
  | some item =>
    obtain ⟨front, back, rfl⟩ := append_of_mem (argmin_mem hmin)
    refine ⟨item, front ++ back, perm_middle, fun other hother => ?_⟩
    exact le_of_mem_argmin hother hmin

theorem exists_evicts (time : α → β) (h : n ≤ items.length) : ∃ kept, Evicts time n items kept := by
  induction n generalizing items with
  | zero => exact ⟨items, .done (.refl _)⟩
  | succ n ih =>
    have hne : items ≠ [] := ne_nil_of_length_pos (Nat.zero_lt_of_lt h)
    obtain ⟨item, rest, hperm, holdest⟩ := exists_oldest time hne
    have hlength := hperm.length_eq
    rw [length_cons] at hlength
    obtain ⟨kept, hkept⟩ := ih (show n ≤ rest.length by omega)
    refine ⟨kept, .evict hperm (fun other hother => ?_) hkept⟩
    exact holdest other (hperm.mem_iff.mpr (mem_cons_of_mem _ hother))

/-- An item that may stay stays in some eviction: the others are taken first. -/
theorem exists_stays (ha : a ∈ items) (hstay : MayStay time n items a) :
    ∃ kept, Evicts time n items kept ∧ a ∈ kept := by
  induction n generalizing items with
  | zero => exact ⟨items, .done (.refl _), ha⟩
  | succ n ih =>
    obtain ⟨front, back, rfl⟩ := append_of_mem ha
    have hothers : (front ++ a :: back).Perm (a :: (front ++ back)) := perm_middle
    have hcount : n < (front ++ back).countP (time · ≤ time a) := by
      unfold MayStay at hstay
      rw [hothers.countP_eq, countP_cons_of_pos (by simp)] at hstay
      omega
    obtain ⟨early, hearly, hle⟩ := countP_pos_iff.mp (Nat.zero_lt_of_lt hcount)
    obtain ⟨item, rest, hperm, holdest⟩ := exists_oldest time (ne_nil_of_mem hearly)
    have hitem : time item ≤ time a := (holdest early hearly).trans (by simpa using hle)
    have hrest : MayStay time n (a :: rest) a := by
      rw [hperm.countP_eq, countP_cons_of_pos (by simpa using hitem)] at hcount
      unfold MayStay
      rw [countP_cons_of_pos (by simp)]
      exact hcount
    obtain ⟨kept, hkept, hmem⟩ := ih (mem_cons_self) hrest
    have hitems : (front ++ a :: back).Perm (item :: a :: rest) :=
      hothers.trans ((hperm.cons a).trans (.swap item a rest))
    refine ⟨kept, .evict hitems (fun other hother => ?_) hkept, hmem⟩
    obtain rfl | hother := mem_cons.mp hother
    · exact hitem
    · exact holdest other (hperm.mem_iff.mpr (mem_cons_of_mem _ hother))

/-- An item that may go goes in some eviction: it is taken once it is one of the oldest. -/
theorem exists_goes (hnodup : items.Nodup) (hlength : n ≤ items.length) (ha : a ∈ items)
    (hgo : MayGo time n items a) : ∃ kept, Evicts time n items kept ∧ a ∉ kept := by
  induction n generalizing items with
  | zero => exact absurd hgo (Nat.not_lt_zero _)
  | succ n ih =>
    obtain ⟨item, rest, hperm, holdest⟩ := exists_oldest time (ne_nil_of_mem ha)
    have hrest : ∀ other ∈ rest, time item ≤ time other := fun other hother =>
      holdest other (hperm.mem_iff.mpr (mem_cons_of_mem _ hother))
    have hlen := hperm.length_eq
    rw [length_cons] at hlen
    by_cases hearly : time item < time a
    · have hmem : a ∈ rest := by
        obtain rfl | hmem := mem_cons.mp (hperm.mem_iff.mp ha)
        · exact absurd hearly (lt_irrefl _)
        · exact hmem
      have hcount : MayGo time n rest a := by
        unfold MayGo at hgo ⊢
        rw [hperm.countP_eq, countP_cons_of_pos (by simpa using hearly)] at hgo
        omega
      have hdistinct := (hperm.nodup_iff.mp hnodup).of_cons
      obtain ⟨kept, hkept, hgone⟩ := ih hdistinct (by omega) hmem hcount
      exact ⟨kept, .evict hperm hrest hkept, hgone⟩
    · -- The item itself is one of the oldest.
      obtain ⟨front, back, rfl⟩ := append_of_mem ha
      have hothers : (front ++ a :: back).Perm (a :: (front ++ back)) := perm_middle
      have hfewer : n ≤ (front ++ back).length := by
        rw [hothers.length_eq, length_cons] at hlength
        omega
      obtain ⟨kept, hkept⟩ := exists_evicts time hfewer
      refine ⟨kept, .evict hothers (fun other hother => ?_) hkept, fun hmem => ?_⟩
      · exact (not_lt.mp hearly).trans
          (holdest other (hothers.mem_iff.mpr (mem_cons_of_mem _ hother)))
      · exact (nodup_cons.mp (hothers.nodup_iff.mp hnodup)).1 (hkept.subset hmem)

end Eviction
