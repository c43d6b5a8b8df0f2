import Mathlib.Data.List.Basic

/-!
# Histories

A history is a list that grows at its end. `Lawful P l` says that every item of the history
satisfies `P` of what came before it, which is how a law about a run is stated when each
item is judged by the past alone. A history stays lawful when an item is appended that
satisfies `P` of the whole.
-/

namespace History

open List

variable {α : Type*}

/-- A split of an appended item is a split before it, or at it. -/
theorem split_concat {l pre post : List α} {x y : α} (h : l ++ [x] = pre ++ y :: post) :
    (post = [] ∧ l = pre ∧ x = y) ∨ ∃ post', post = post' ++ [x] ∧ l = pre ++ y :: post' := by
  obtain rfl | ⟨post', last, rfl⟩ := post.eq_nil_or_concat
  · obtain ⟨rfl, hlast⟩ := append_inj' h rfl
    exact .inl ⟨rfl, rfl, (cons.inj hlast).1⟩
  · rw [concat_eq_append, ← cons_append, ← append_assoc] at h
    obtain ⟨hl, hlast⟩ := append_inj' h rfl
    obtain rfl := (cons.inj hlast).1
    exact .inr ⟨post', concat_eq_append, hl⟩

/-- Every item satisfies `P` of what came before it. -/
def Lawful (P : List α → α → Prop) (l : List α) : Prop :=
  ∀ pre x post, l = pre ++ x :: post → P pre x

variable {P : List α → α → Prop} {l : List α} {x : α}

theorem lawful_nil : Lawful P [] := fun pre x post h => by simp at h

theorem lawful_concat : Lawful P (l ++ [x]) ↔ Lawful P l ∧ P l x := by
  constructor
  · intro h
    exact ⟨fun pre y post hl => h pre y (post ++ [x]) (by simp [hl]), h l x [] rfl⟩
  · rintro ⟨hl, hx⟩ pre y post hsplit
    obtain ⟨-, rfl, rfl⟩ | ⟨post', -, hold⟩ := split_concat hsplit
    · exact hx
    · exact hl pre y post' hold

end History
