import Mathlib.Tactic.Ring

/-!
# Big-endian words

Numbers as bytes, the most significant one first, and bytes as numbers, for words of any width.
-/

namespace BigEndian

/-- The `k` low bytes of a number. -/
def toBytes : ℕ → ℕ → List UInt8
  | 0, _ => []
  | k + 1, n => UInt8.ofNat (n / 256 ^ k) :: toBytes k n

/-- The number that the bytes are of, after the number that those before them are of. -/
def continued (n : ℕ) (bytes : List UInt8) : ℕ := bytes.foldl (fun n b => 256 * n + b.toNat) n

def ofBytes (bytes : List UInt8) : ℕ := continued 0 bytes

variable {k n m : ℕ} {b : UInt8} {bytes : List UInt8}

@[simp]
theorem length_toBytes (k n : ℕ) : (toBytes k n).length = k := by
  induction k with
  | zero => rfl
  | succ k ih => rw [toBytes, List.length_cons, ih]

theorem continued_eq (n : ℕ) (bytes : List UInt8) :
    continued n bytes = 256 ^ bytes.length * n + ofBytes bytes := by
  induction bytes generalizing n with
  | nil => simp [continued, ofBytes]
  | cons b bytes ih =>
    have hcons n : continued n (b :: bytes) = continued (256 * n + b.toNat) bytes := rfl
    rw [ofBytes, hcons, hcons, ih, ih (256 * 0 + b.toNat), List.length_cons]
    ring

theorem ofBytes_cons (b : UInt8) (bytes : List UInt8) :
    ofBytes (b :: bytes) = 256 ^ bytes.length * b.toNat + ofBytes bytes := by
  rw [← continued_eq, ofBytes, continued, List.foldl_cons, Nat.zero_add]
  rfl

theorem ofBytes_lt (bytes : List UInt8) : ofBytes bytes < 256 ^ bytes.length := by
  induction bytes with
  | nil => exact Nat.one_pos
  | cons b bytes ih =>
    have hb := b.toNat_lt
    rw [ofBytes_cons]
    calc 256 ^ bytes.length * b.toNat + ofBytes bytes
        < 256 ^ bytes.length * b.toNat + 256 ^ bytes.length := by omega
      _ = 256 ^ bytes.length * (b.toNat + 1) := by ring
      _ ≤ 256 ^ bytes.length * 256 := Nat.mul_le_mul_left _ hb

theorem ofBytes_toBytes (k n : ℕ) : ofBytes (toBytes k n) = n % 256 ^ k := by
  induction k with
  | zero => rw [Nat.pow_zero, Nat.mod_one]; rfl
  | succ k ih =>
    rw [toBytes, ofBytes_cons, length_toBytes, ih, Nat.add_comm]
    exact Nat.mod_pow_succ.symm

theorem toBytes_add (k n m : ℕ) : toBytes k (256 ^ k * m + n) = toBytes k n := by
  induction k generalizing m with
  | zero => rfl
  | succ k ih =>
    have hsplit : 256 ^ (k + 1) * m + n = 256 ^ k * (256 * m) + n := by ring
    rw [toBytes, hsplit, ih]
    congr 1
    refine UInt8.toNat_inj.mp ?_
    rw [Nat.mul_add_div (Nat.pow_pos (by decide))]
    exact Nat.mul_add_mod _ _ _

theorem toBytes_ofBytes (bytes : List UInt8) : toBytes bytes.length (ofBytes bytes) = bytes := by
  induction bytes with
  | nil => rfl
  | cons b bytes ih =>
    rw [List.length_cons, toBytes, ofBytes_cons, toBytes_add,
      Nat.mul_add_div (Nat.pow_pos (by decide)), Nat.div_eq_of_lt (ofBytes_lt bytes)]
    congr 1
    exact UInt8.ofNat_toNat

end BigEndian
