import Mathlib.Algebra.Order.BigOperators.Group.List
import Mathlib.Algebra.Ring.Int.Defs

/-!
# Sums of 64-bit integers

A sum of 64-bit integers wraps around. It is what the exact sum is cut to, so its order does not
count, and where nothing is negative it is exact just as long as the exact sum fits.
-/

namespace AgentSight.WrappingSum

instance instAddCommGroupInt64 : AddCommGroup Int64 where
  add_assoc := Int64.add_assoc
  zero_add := Int64.zero_add
  add_zero := Int64.add_zero
  add_comm := Int64.add_comm
  nsmul := nsmulRec
  neg_add_cancel := Int64.add_left_neg
  sub_eq_add_neg := Int64.sub_eq_add_neg
  zsmul := zsmulRec

variable {n : ℤ} {l : List Int64}

theorem toInt_max (a b : Int64) : (max a b).toInt = max a.toInt b.toInt := by
  have hmax : max a b = if a ≤ b then b else a := rfl
  rw [hmax]
  split
  · next h => rw [max_eq_right (Int64.le_iff_toInt_le.mp h)]
  · next h => rw [max_eq_left (le_of_not_ge (mt Int64.le_iff_toInt_le.mpr h))]

/-- What a number is cut to. -/
def wrap (n : ℤ) : ℤ := (Int64.ofInt n).toInt

theorem wrap_lt (n : ℤ) : wrap n < 2 ^ 63 := Int64.toInt_lt _

theorem wrap_of_fits (hle : -2 ^ 63 ≤ n) (hlt : n < 2 ^ 63) : wrap n = n :=
  Int64.toInt_ofInt_of_le hle hlt

/-- Wrapping around never adds to a number that is not negative. -/
theorem wrap_le (h : 0 ≤ n) : wrap n ≤ n := by
  obtain hlt | hge := lt_or_ge n (2 ^ 63)
  · exact (wrap_of_fits (by omega) hlt).le
  · exact (wrap_lt n).le.trans hge

theorem wrap_eq_iff (h : 0 ≤ n) : wrap n = n ↔ n < 2 ^ 63 :=
  ⟨fun heq => heq ▸ wrap_lt n, wrap_of_fits (by omega)⟩

theorem ofInt_sum (l : List ℤ) : (l.map Int64.ofInt).sum = Int64.ofInt l.sum := by
  induction l with
  | nil => rfl
  | cons a l ih => rw [List.map_cons, List.sum_cons, List.sum_cons, ih, Int64.ofInt_add]

/-- A sum is the exact sum, cut to what fits. -/
theorem toInt_sum (l : List Int64) : l.sum.toInt = wrap (l.map Int64.toInt).sum := by
  rw [wrap, ← ofInt_sum, List.map_map]
  congr 2
  exact ((List.map_congr_left fun a _ => Int64.ofInt_toInt a).trans (List.map_id l)).symm

end AgentSight.WrappingSum
