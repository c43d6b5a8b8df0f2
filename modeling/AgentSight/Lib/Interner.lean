import Mathlib.Data.List.Basic

/-!
# Interning

An interner keeps one copy of every item that it is given, in the order in which they come, and
hands out the place of that copy. Places stay valid: what is interned later goes behind.
-/

namespace Interner

variable {α : Type*} [DecidableEq α]

/-- The items with the new one, and its place. -/
def intern (items : List α) (item : α) : List α × ℕ :=
  match items.idxOf? item with
  | some place => (items, place)
  | none => (items ++ [item], items.length)

variable {items : List α} {item : α}

theorem prefix_intern (items : List α) (item : α) : items <+: (intern items item).1 := by
  unfold intern
  split
  · exact List.prefix_rfl
  · exact List.prefix_append items [item]

/-- The place is that of the item. -/
theorem getElem?_intern (items : List α) (item : α) :
    (intern items item).1[(intern items item).2]? = some item := by
  unfold intern
  split
  · next place hplace =>
    obtain ⟨hlt, hitem, -⟩ := List.findIdx?_eq_some_iff_getElem.mp hplace
    rw [List.getElem?_eq_getElem hlt]
    exact congrArg some (by simpa using hitem)
  · simp

omit [DecidableEq α] in
/-- Places stay valid. -/
theorem getElem?_of_prefix {items later : List α} {place : ℕ} (h : items <+: later)
    (hplace : items[place]? = some item) : later[place]? = some item := by
  obtain ⟨rest, rfl⟩ := h
  have hlt : place < items.length := (List.getElem?_eq_some_iff.mp hplace).1
  rw [List.getElem?_append_left hlt, hplace]

end Interner
