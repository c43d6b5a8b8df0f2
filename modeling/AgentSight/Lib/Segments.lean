import Mathlib.Data.List.Basic
import Mathlib.Data.List.Flatten

/-!
# Segments that end in a terminator

A stream whose records end in a terminator is cut after each one. What is left after the last
terminator is a segment too, if it is not empty, so the segments put together are the stream.
-/

namespace Segments

open List

variable {α : Type*} (isEnd : α → Bool)

/-- The stream cut after each terminator. -/
def segments : List α → List (List α)
  | [] => []
  | a :: stream =>
    if isEnd a then [a] :: segments stream
    else
      match segments stream with
      | [] => [[a]]
      | segment :: rest => (a :: segment) :: rest

variable {isEnd} {front rest : List α} {a : α}

/-- A segment goes up to the first terminator. -/
theorem segments_append (hfront : ∀ b ∈ front, isEnd b = false) (ha : isEnd a = true)
    (rest : List α) :
    segments isEnd (front ++ a :: rest) = (front ++ [a]) :: segments isEnd rest := by
  induction front with
  | nil => rw [nil_append, segments, if_pos ha, nil_append]
  | cons b front ih =>
    rw [forall_mem_cons] at hfront
    rw [cons_append, segments, hfront.1, ih hfront.2]
    rfl

/-- What has no terminator is one segment. -/
theorem segments_of_forall (hfront : ∀ b ∈ front, isEnd b = false) (hne : front ≠ []) :
    segments isEnd front = [front] := by
  induction front with
  | nil => exact absurd rfl hne
  | cons b front ih =>
    rw [forall_mem_cons] at hfront
    cases front with
    | nil => simp [segments, hfront.1]
    | cons c front => rw [segments, hfront.1, ih hfront.2 (cons_ne_nil c front)]; rfl

end Segments
