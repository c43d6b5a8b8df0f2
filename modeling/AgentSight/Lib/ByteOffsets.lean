import Mathlib.Algebra.BigOperators.Group.List.Basic
import Mathlib.Algebra.Ring.Nat

/-!
# Byte offsets in a text

A string slice is given by byte offsets, and an offset that does not stand between two characters
is an error. A text is the list of its characters here. `sliceFrom` and `sliceTo` are the two halves
at an offset, `none` where the offset is inside a character or past the end. At the length of a
prefix they are the rest and the prefix, so a program that only ever steps by the lengths of what it
has read slices without an error.
-/

namespace ByteOffsets

/-- The length of a text in UTF-8. -/
def byteLength (text : List Char) : ℕ := (text.map Char.utf8Size).sum

@[simp] theorem byteLength_nil : byteLength [] = 0 := rfl

@[simp] theorem byteLength_cons (c : Char) (text : List Char) :
    byteLength (c :: text) = c.utf8Size + byteLength text := by
  simp [byteLength]

variable (front back : List Char)

@[simp] theorem byteLength_append :
    byteLength (front ++ back) = byteLength front + byteLength back := by
  simp [byteLength]

variable {text rest : List Char}

theorem byteLength_pos (h : text ≠ []) : 0 < byteLength text := by
  cases text with
  | nil => exact absurd rfl h
  | cons c text =>
    rw [byteLength_cons]
    have hc := c.utf8Size_pos
    omega

theorem byteLength_eq_zero : byteLength text = 0 ↔ text = [] := by
  constructor
  · intro h
    by_contra hne
    have hpos := byteLength_pos hne
    omega
  · rintro rfl
    rfl

/-- `&text[offset..]`. -/
def sliceFrom : List Char → ℕ → Option (List Char)
  | text, 0 => some text
  | [], _ + 1 => none
  | c :: text, offset + 1 =>
    if c.utf8Size ≤ offset + 1 then sliceFrom text (offset + 1 - c.utf8Size) else none

/-- `&text[..offset]`. -/
def sliceTo : List Char → ℕ → Option (List Char)
  | _, 0 => some []
  | [], _ + 1 => none
  | c :: text, offset + 1 =>
    if c.utf8Size ≤ offset + 1 then (sliceTo text (offset + 1 - c.utf8Size)).map (c :: ·) else none

@[simp] theorem sliceFrom_zero (text : List Char) : sliceFrom text 0 = some text := by
  cases text <;> rfl

@[simp] theorem sliceTo_zero (text : List Char) : sliceTo text 0 = some [] := by
  cases text <;> rfl

theorem sliceFrom_cons_add (c : Char) (text : List Char) (offset : ℕ) :
    sliceFrom (c :: text) (c.utf8Size + offset) = sliceFrom text offset := by
  obtain ⟨n, hn⟩ : ∃ n, c.utf8Size + offset = n + 1 :=
    ⟨c.utf8Size + offset - 1, by have hc := c.utf8Size_pos; omega⟩
  rw [hn, sliceFrom, if_pos (by omega), ← hn, Nat.add_sub_cancel_left]

theorem sliceTo_cons_add (c : Char) (text : List Char) (offset : ℕ) :
    sliceTo (c :: text) (c.utf8Size + offset) = (sliceTo text offset).map (c :: ·) := by
  obtain ⟨n, hn⟩ : ∃ n, c.utf8Size + offset = n + 1 :=
    ⟨c.utf8Size + offset - 1, by have hc := c.utf8Size_pos; omega⟩
  rw [hn, sliceTo, if_pos (by omega), ← hn, Nat.add_sub_cancel_left]

/-- After a prefix comes the rest. -/
@[simp] theorem sliceFrom_append :
    sliceFrom (front ++ back) (byteLength front) = some back := by
  induction front with
  | nil => exact sliceFrom_zero back
  | cons c front ih => rw [List.cons_append, byteLength_cons, sliceFrom_cons_add, ih]

@[simp] theorem sliceTo_append :
    sliceTo (front ++ back) (byteLength front) = some front := by
  induction front with
  | nil => exact sliceTo_zero back
  | cons c front ih => rw [List.cons_append, byteLength_cons, sliceTo_cons_add, ih]; rfl

variable {offset : ℕ}

/-- A slice does not go past the end. -/
theorem le_of_sliceFrom (h : sliceFrom text offset = some rest) : offset ≤ byteLength text := by
  induction text generalizing offset with
  | nil =>
    cases offset with
    | zero => exact Nat.zero_le _
    | succ offset => cases h
  | cons c text ih =>
    cases offset with
    | zero => exact Nat.zero_le _
    | succ offset =>
      rw [sliceFrom] at h
      split at h
      · have hrest := ih h
        rw [byteLength_cons]
        omega
      · cases h

end ByteOffsets
