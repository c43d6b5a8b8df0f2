import Mathlib.Data.List.Basic
import Mathlib.Order.Bounds.Basic
import Mathlib.Order.MinMax

/-!
# Folds of joins

What a list of reports comes to when each is joined to what came before: the least bound of what
the fold began with and of the reports. The order of the reports and their repetitions do not
count.
-/

namespace AgentSight.JoinFold

variable {α β γ : Type*}

/-! ### The least bound -/

section Semilattice

variable [SemilatticeSup β] [SemilatticeSup γ] {f : α → β} {b c : β} {l l' : List α}

def joins (f : α → β) (b : β) (l : List α) : β := l.foldl (fun b a => b ⊔ f a) b

@[simp] theorem joins_nil : joins f b [] = b := rfl

@[simp] theorem joins_cons (a : α) : joins f b (a :: l) = joins f (b ⊔ f a) l := rfl

theorem joins_append : joins f b (l ++ l') = joins f (joins f b l) l' := List.foldl_append

theorem joins_le_iff : joins f b l ≤ c ↔ b ≤ c ∧ ∀ a ∈ l, f a ≤ c := by
  induction l generalizing b with
  | nil => simp
  | cons a l ih => simp [ih, and_assoc]

theorem isLUB_joins (f : α → β) (b : β) (l : List α) :
    IsLUB (insert b {c | ∃ a ∈ l, f a = c}) (joins f b l) := by
  constructor
  · obtain ⟨hbase, hreports⟩ := joins_le_iff.mp (le_refl (joins f b l))
    rintro c (rfl | ⟨a, ha, rfl⟩)
    · exact hbase
    · exact hreports a ha
  · intro c hc
    refine joins_le_iff.mpr ⟨hc (Set.mem_insert b _), fun a ha => ?_⟩
    exact hc (Set.mem_insert_of_mem b ⟨a, ha, rfl⟩)

/-- Only which reports there are counts. -/
theorem joins_congr (h : ∀ a, a ∈ l ↔ a ∈ l') : joins f b l = joins f b l' := by
  refine (isLUB_joins f b l).unique ?_
  simpa [h] using isLUB_joins f b l'

/-- A fold whose steps join what one of the state's readings has. -/
theorem foldl_eq_joins {σ : Type*} {step : σ → α → σ} {read : σ → β} {Good : σ → Prop}
    (hstep : ∀ s a, Good s → Good (step s a) ∧ read (step s a) = read s ⊔ f a) {s : σ}
    (hs : Good s) : read (l.foldl step s) = joins f (read s) l := by
  induction l generalizing s with
  | nil => rfl
  | cons a l ih =>
    obtain ⟨hgood, hread⟩ := hstep s a hs
    rw [List.foldl_cons, ih hgood, joins_cons, hread]

theorem map_joins (g : β → γ) (hg : ∀ b c, g (b ⊔ c) = g b ⊔ g c) :
    g (joins f b l) = joins (fun a => g (f a)) (g b) l := by
  induction l generalizing b with
  | nil => rfl
  | cons a l ih => rw [joins_cons, ih, hg, joins_cons]

end Semilattice

/-! ### The greatest report -/

section Linear

variable [LinearOrder β] {f : α → β} {b : β} {l : List α}

theorem joins_mem (f : α → β) (b : β) (l : List α) :
    joins f b l = b ∨ ∃ a ∈ l, f a = joins f b l := by
  induction l generalizing b with
  | nil => exact .inl rfl
  | cons a l ih =>
    obtain hbase | ⟨a', ha', hreport⟩ := ih (b := b ⊔ f a)
    · obtain hsup | hsup := max_choice b (f a)
      · exact .inl (hbase.trans hsup)
      · exact .inr ⟨a, List.mem_cons_self, (hbase.trans hsup).symm⟩
    · exact .inr ⟨a', List.mem_cons_of_mem a ha', hreport⟩

/-- Where the reports are no less than what the fold began with, it ends with the greatest of
them. -/
theorem isGreatest_joins (hl : l ≠ []) (h : ∀ a ∈ l, b ≤ f a) :
    IsGreatest {c | ∃ a ∈ l, f a = c} (joins f b l) := by
  obtain ⟨hbase, hreports⟩ := joins_le_iff.mp (le_refl (joins f b l))
  constructor
  · obtain hsame | hreport := joins_mem f b l
    · obtain ⟨a, ha⟩ := List.exists_mem_of_ne_nil l hl
      exact ⟨a, ha, le_antisymm (hreports a ha) (hsame.trans_le (h a ha))⟩
    · exact hreport
  · rintro c ⟨a, ha, rfl⟩
    exact hreports a ha

end Linear

end AgentSight.JoinFold
