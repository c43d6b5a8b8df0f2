import Mathlib.Data.List.Basic

/-!
# Lists less some lost elements

`Thinned lost xs ys` says that `ys` is `xs` less some elements, in the same order, and that every
element left out is lost. The elements that are not lost split both lists at the same places.
-/

namespace AgentSight

variable {α : Type*} {lost lost' : α → Prop} {xs xs' ys ys' zs : List α} {x : α}

inductive Thinned (lost : α → Prop) : List α → List α → Prop
  | nil : Thinned lost [] []
  | keep (x : α) {xs ys : List α} (h : Thinned lost xs ys) : Thinned lost (x :: xs) (x :: ys)
  | drop {x : α} {xs ys : List α} (hx : lost x) (h : Thinned lost xs ys) : Thinned lost (x :: xs) ys

namespace Thinned

@[refl]
theorem refl (xs : List α) : Thinned lost xs xs := by
  induction xs with
  | nil => exact .nil
  | cons x xs ih => exact .keep x ih

theorem mono (h : Thinned lost xs ys) (hlost : ∀ x, lost x → lost' x) : Thinned lost' xs ys := by
  induction h with
  | nil => exact .nil
  | keep x _ ih => exact .keep x ih
  | drop hx _ ih => exact .drop (hlost _ hx) ih

theorem append (h : Thinned lost xs ys) (h' : Thinned lost xs' ys') :
    Thinned lost (xs ++ xs') (ys ++ ys') := by
  induction h with
  | nil => exact h'
  | keep x _ ih => exact .keep x ih
  | drop hx _ ih => exact .drop hx ih

theorem trans (h : Thinned lost xs ys) (h' : Thinned lost ys zs) : Thinned lost xs zs := by
  induction h generalizing zs with
  | nil => exact h'
  | keep x _ ih =>
    cases h' with
    | keep _ h' => exact .keep x (ih h')
    | drop hx h' => exact .drop hx (ih h')
  | drop hx _ ih => exact .drop hx (ih h')

/-- What is left of two parts is what is left of each. -/
theorem of_append (h : Thinned lost (xs ++ xs') zs) :
    ∃ ys ys', zs = ys ++ ys' ∧ Thinned lost xs ys ∧ Thinned lost xs' ys' := by
  induction xs generalizing zs with
  | nil => exact ⟨[], zs, rfl, .nil, h⟩
  | cons x xs ih =>
    cases h with
    | keep _ h =>
      obtain ⟨ys, ys', rfl, hys, hys'⟩ := ih h
      exact ⟨x :: ys, ys', rfl, .keep x hys, hys'⟩
    | drop hx h =>
      obtain ⟨ys, ys', rfl, hys, hys'⟩ := ih h
      exact ⟨ys, ys', rfl, .drop hx hys, hys'⟩

theorem of_cons (h : Thinned lost (x :: xs) zs) (hx : ¬ lost x) :
    ∃ ys, zs = x :: ys ∧ Thinned lost xs ys := by
  cases h with
  | keep _ h => exact ⟨_, rfl, h⟩
  | drop hlost => exact absurd hlost hx

/-- An element that is not lost splits what is left. -/
theorem of_append_cons (h : Thinned lost (xs ++ x :: xs') zs) (hx : ¬ lost x) :
    ∃ ys ys', zs = ys ++ x :: ys' ∧ Thinned lost xs ys ∧ Thinned lost xs' ys' := by
  obtain ⟨ys, rest, rfl, hys, hrest⟩ := h.of_append
  obtain ⟨ys', rfl, hys'⟩ := hrest.of_cons hx
  exact ⟨ys, ys', rfl, hys, hys'⟩

/-- Taking off the front what is lost. -/
theorem append_left (hlost : ∀ x ∈ xs, lost x) (h : Thinned lost xs' zs) :
    Thinned lost (xs ++ xs') zs := by
  induction xs with
  | nil => exact h
  | cons x xs ih =>
    rw [List.forall_mem_cons] at hlost
    exact .drop hlost.1 (ih hlost.2)

end Thinned

end AgentSight
