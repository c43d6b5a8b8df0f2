import Mathlib.Data.List.Basic
import Mathlib.Data.Option.Defs

/-!
# Trees in an arena

The nodes of a forest stand in one list, and each names the place of its parent. Where parents
come first, a walk up from any node ends at a root, and what is pushed later changes no walk.
-/

namespace ParentArena

open List

variable {ν : Type*} (parent : ν → Option ℕ)

/-- Parents come before their children. -/
def Ordered (nodes : List ν) : Prop :=
  ∀ (id : ℕ) (node : ν), nodes[id]? = some node → ∀ p ∈ parent node, p < id

/-- The nodes from one up to its root, in at most a number of steps. -/
def walk (nodes : List ν) : ℕ → Option ℕ → List ν
  | _, none => []
  | 0, _ => []
  | steps + 1, some id =>
    match nodes[id]? with
    | none => []
    | some node => node :: walk nodes steps (parent node)

/-- A parent stands before its child, so that the walk has ended after so many steps. -/
def ancestry (nodes : List ν) (id : ℕ) : List ν := walk parent nodes (id + 1) (some id)

variable {parent} {nodes : List ν} {node : ν}

theorem ordered_nil : Ordered parent [] := fun id node h => by simp at h

section

variable (h : Ordered parent nodes)
include h

theorem ordered_concat (hnode : ∀ p ∈ parent node, p < nodes.length) :
    Ordered parent (nodes ++ [node]) := by
  intro id n hn
  obtain hlt | rfl | hgt : id < nodes.length ∨ id = nodes.length ∨ nodes.length < id := by omega
  · rw [getElem?_append_left hlt] at hn
    exact h id n hn
  · rw [getElem?_concat_length, Option.some_inj] at hn
    exact hn ▸ hnode
  · rw [getElem?_eq_none (by simpa using Nat.succ_le_of_lt hgt)] at hn
    cases hn

/-- Steps beyond those that a walk needs do not show. -/
theorem walk_congr {id steps steps' : ℕ} (hsteps : id < steps)
    (hsteps' : id < steps') :
    walk parent nodes steps (some id) = walk parent nodes steps' (some id) := by
  induction steps generalizing id steps' with
  | zero => exact absurd hsteps id.not_lt_zero
  | succ steps ih =>
    obtain ⟨steps', rfl⟩ := Nat.exists_eq_succ_of_ne_zero (Nat.ne_zero_of_lt hsteps')
    rw [walk, walk]
    cases hnode : nodes[id]? with
    | none => rfl
    | some node =>
      dsimp only
      cases hparent : parent node with
      | none => simp [walk]
      | some p =>
        have hp : p < id := h id node hnode p hparent
        rw [ih (by omega) (by omega : p < steps')]

/-- What is pushed later changes no walk. -/
theorem walk_append {id : ℕ} (hid : id < nodes.length) (steps : ℕ)
    (rest : List ν) :
    walk parent (nodes ++ rest) steps (some id) = walk parent nodes steps (some id) := by
  induction steps generalizing id with
  | zero => rfl
  | succ steps ih =>
    simp only [walk]
    rw [getElem?_append_left hid, getElem?_eq_getElem hid]
    dsimp only
    cases hparent : parent nodes[id] with
    | none => simp [walk]
    | some p =>
      have hp : p < id := h id _ (getElem?_eq_getElem hid) p hparent
      rw [ih (by omega)]

theorem ancestry_append {id : ℕ} (hid : id < nodes.length)
    (rest : List ν) : ancestry parent (nodes ++ rest) id = ancestry parent nodes id :=
  walk_append h hid (id + 1) rest

/-- The ancestry of a new node is the node and that of its parent. -/
theorem ancestry_concat (hnode : ∀ p ∈ parent node, p < nodes.length) :
    ancestry parent (nodes ++ [node]) nodes.length =
      node :: ((parent node).map (ancestry parent nodes)).getD [] := by
  rw [ancestry, walk, getElem?_concat_length]
  dsimp only
  cases hparent : parent node with
  | none => simp [walk]
  | some p =>
    have hp := hnode p hparent
    rw [walk_append h hp, walk_congr h hp (Nat.lt_succ_self p)]
    rfl

end

end ParentArena
