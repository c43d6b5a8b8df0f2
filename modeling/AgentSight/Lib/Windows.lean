import Mathlib.Order.CompletePartialOrder
import Mathlib.Order.Interval.Set.Disjoint
import Mathlib.Order.SuccPred.Basic

/-!
# Windows of one length

Windows of one length that end at given instants, which are at least that length apart. They are
disjoint, and they cover the time between the first and the last of the instants exactly if the
instants are no further apart.
-/

namespace AgentSight.Windows

variable {ends : ℕ → ℕ} {length n i j t d : ℕ}

/-- The window that ends at the `i`th instant. -/
def window (ends : ℕ → ℕ) (length i : ℕ) : Set ℕ := Set.Ioc (ends i - length) (ends i)

/-- The instants up to the `n`th are at least the length apart. -/
def Spaced (ends : ℕ → ℕ) (length n : ℕ) : Prop := ∀ i < n, ends i + length ≤ ends (i + 1)

section

variable (h : Spaced ends length n)
include h

theorem Spaced.add_le (hij : i < j) (hj : j ≤ n) :
    ends i + length ≤ ends j := by
  induction j, hij using Nat.le_induction with
  | base => exact h i hj
  | succ j hij ih =>
    have hstep := h j hj
    omega

theorem Spaced.le (hij : i ≤ j) (hj : j ≤ n) : ends i ≤ ends j := by
  obtain rfl | hlt := hij.eq_or_lt
  · exact le_rfl
  · exact (Nat.le_add_right _ _).trans (h.add_le hlt hj)

/-- An instant is in one window at most. -/
theorem Spaced.eq_of_mem (hi : i ≤ n) (hj : j ≤ n)
    (hti : t ∈ window ends length i) (htj : t ∈ window ends length j) : i = j := by
  obtain ⟨hti, hti'⟩ := hti
  obtain ⟨htj, htj'⟩ := htj
  obtain hlt | rfl | hlt := lt_trichotomy i j
  · have := h.add_le hlt hj
    omega
  · rfl
  · have := h.add_le hlt hi
    omega

theorem Spaced.disjoint (hi : i ≤ n) (hj : j ≤ n) (hij : i ≠ j) :
    Disjoint (window ends length i) (window ends length j) :=
  Set.disjoint_left.mpr fun _ hti htj => hij (h.eq_of_mem hi hj hti htj)

end

/-- The windows leave no gap between the first instant and the last. -/
def Covers (ends : ℕ → ℕ) (length n : ℕ) : Prop :=
  ∀ t ∈ Set.Ioc (ends 0) (ends n), ∃ i ≤ n, t ∈ window ends length i

theorem Spaced.covers_iff (h : Spaced ends length n) :
    Covers ends length n ↔ ∀ i < n, ends (i + 1) = ends i + length := by
  constructor
  · intro hcovers i hi
    refine (le_antisymm (h i hi) ?_).symm
    by_contra hgap
    -- The instant after the end of the `i`th window is in no window.
    have hlast := h.le (Nat.succ_le_of_lt hi) le_rfl
    have hfirst := h.le (Nat.zero_le i) hi.le
    rw [Nat.succ_eq_add_one] at hlast
    obtain ⟨j, hj, hstart, hend⟩ := hcovers (ends i + 1) ⟨by omega, by omega⟩
    obtain hji | hij := Nat.lt_or_ge i j
    · have := h.le (Nat.succ_le_of_lt hji) hj
      rw [Nat.succ_eq_add_one] at this
      omega
    · have := h.le hij hi.le
      omega
  · intro hexact t ht
    induction n with
    | zero => exact absurd ht.2 (not_le.mpr ht.1)
    | succ n ih =>
      obtain hle | hgt := Nat.lt_or_ge (ends n) t
      · refine ⟨n + 1, le_rfl, ?_, ht.2⟩
        have := hexact n (Nat.lt_succ_self n)
        omega
      · obtain ⟨i, hi, hmem⟩ := ih (fun i hi => h i (hi.trans (Nat.lt_succ_self n)))
          (fun i hi => hexact i (hi.trans (Nat.lt_succ_self n))) ⟨ht.1, hgt⟩
        exact ⟨i, hi.trans (Nat.le_succ n), hmem⟩

/-- Where there is no gap, every instant is in one window. -/
theorem Spaced.existsUnique (h : Spaced ends length n) (hcovers : Covers ends length n)
    (ht : t ∈ Set.Ioc (ends 0) (ends n)) : ∃! i, i ≤ n ∧ t ∈ window ends length i := by
  obtain ⟨i, hi, hmem⟩ := hcovers t ht
  exact ⟨i, ⟨hi, hmem⟩, fun j ⟨hj, hmem'⟩ => h.eq_of_mem hj hi hmem' hmem⟩

/-- The quotients by `d` differ at the ends of a window that a multiple of `d` is in. -/
theorem div_ne_of_mem (hd : 0 < d) {first last k : ℕ} (h : k * d ∈ Set.Ioc first last) :
    first / d ≠ last / d := by
  have hfirst : first / d < k := (Nat.div_lt_iff_lt_mul hd).mpr h.1
  have hlast : k ≤ last / d := (Nat.le_div_iff_mul_le hd).mpr h.2
  omega

end AgentSight.Windows
