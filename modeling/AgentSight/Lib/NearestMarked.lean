import Mathlib.Data.Fintype.EquivFin
import Mathlib.Order.WellFounded

/-!
# Nearest marked ancestors

A forest is given by the parent of each node, and some nodes are marked. `Nearest parent marked a r`
says that `r` is the first marked node on the way up from `a`, which is `a` itself where it is
marked. A node has at most one nearest marked node, whatever the parent links are, and it has one
as soon as there is a marked node above it. Seen from above, the nodes that have a marked node `r`
as their nearest one are those that a descent from `r` reaches when it does not enter marked nodes.
-/

namespace Forest

open Relation

variable {α : Type*} (parent : α → Option α) (marked : α → Prop)

/-- The link from a node to its parent. -/
def Up (a b : α) : Prop := parent a = some b

/-- The nearest marked node at or above a node. -/
inductive Nearest : α → α → Prop
  | here {a : α} (hmarked : marked a) : Nearest a a
  | above {a b r : α} (hmarked : ¬ marked a) (hparent : parent a = some b) (hr : Nearest b r) :
      Nearest a r

variable {parent marked} {a b r r' : α}

theorem Nearest.isMarked (h : Nearest parent marked a r) : marked r := by
  induction h with
  | here hmarked => exact hmarked
  | above _ _ _ ih => exact ih

/-- A node has one nearest marked node at most. -/
theorem Nearest.unique (h : Nearest parent marked a r) (h' : Nearest parent marked a r') :
    r = r' := by
  induction h with
  | here hmarked =>
    cases h' with
    | here _ => rfl
    | above hnot _ _ => exact absurd hmarked hnot
  | above hnot hparent _ ih =>
    cases h' with
    | here hmarked => exact absurd hmarked hnot
    | above _ hparent' hr' =>
      rw [hparent] at hparent'
      cases hparent'
      exact ih hr'

/-- A node below a marked one has a nearest marked node. -/
theorem exists_nearest (h : ReflTransGen (Up parent) a r) (hr : marked r) :
    ∃ r', Nearest parent marked a r' := by
  induction h using ReflTransGen.head_induction_on with
  | refl => exact ⟨r, .here hr⟩
  | @head a b hup _ ih =>
    obtain ⟨r', hr'⟩ := ih
    by_cases ha : marked a
    · exact ⟨a, .here ha⟩
    · exact ⟨r', .above ha hup hr'⟩

/-- The nodes of a marked node are those that a descent reaches that enters no marked node. -/
theorem nearest_iff_descent (hr : marked r) : Nearest parent marked a r ↔
    ReflTransGen (fun b a => parent a = some b ∧ ¬ marked a) r a := by
  constructor
  · intro h
    induction h with
    | here _ => exact .refl
    | above hnot hparent _ ih => exact (ih hr).tail ⟨hparent, hnot⟩
  · intro h
    induction h with
    | refl => exact .here hr
    | tail _ hstep ih => exact .above hstep.2 hstep.1 ih

/-- Without a cycle, going up within a finite set of nodes comes to an end. -/
theorem wellFounded_up (hacyclic : ∀ a, ¬ TransGen (Up parent) a a) (nodes : Finset α) :
    WellFounded fun b a : nodes => TransGen (Up parent) a.1 b.1 := by
  have : Std.Irrefl fun b a : nodes => TransGen (Up parent) a.1 b.1 := ⟨fun a => hacyclic a.1⟩
  exact Finite.wellFounded_of_trans_of_irrefl _

end Forest
