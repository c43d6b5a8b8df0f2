import Mathlib.Data.List.Basic

/-!
# Lexical normalization

A path is walked part by part from the root, without a look at what the names stand for: a part
stays where it is, goes up, or goes down to a name. `resolve` is the list of the names at the end of
the walk. Going up from the root stays there.
-/

namespace LexicalPath

inductive Part (α : Type*) where
  | stay
  | up
  | down (name : α)

variable {α : Type*}

def step (names : List α) : Part α → List α
  | .stay => names
  | .up => names.dropLast
  | .down name => names ++ [name]

def resolve (parts : List (Part α)) : List α := parts.foldl step []

variable {parts : List (Part α)} {name : α}

theorem resolve_append (front back : List (Part α)) :
    resolve (front ++ back) = back.foldl step (resolve front) := List.foldl_append

theorem resolve_append_stay (k : ℕ) : resolve
    (parts ++ List.replicate k .stay) = resolve parts := by
  rw [resolve_append]
  induction k with
  | zero => rfl
  | succ k ih => exact ih

/-- A walk that ends with a step down ends at its name. -/
theorem resolve_concat_down : resolve (parts ++ [.down name]) = resolve parts ++ [name] :=
  resolve_append _ _

end LexicalPath
