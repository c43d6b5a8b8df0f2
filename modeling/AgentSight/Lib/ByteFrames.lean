import Mathlib.Algebra.Ring.Nat
import Mathlib.Data.List.Basic
import Mathlib.Data.List.Flatten

/-!
# Length-prefixed frames in a byte stream

`toLe` and `fromLe` are little-endian words of any width. A reader looks at the front of a
buffer and takes one message off it, waits for more bytes, or fails; `IsFrame` says that a
list of bytes is a frame of a message for such a reader, whatever follows it. `leftover` is
how much of an unfinished frame a reader holds when part of a stream of frames has arrived.
-/

namespace ByteFrames

open List

/-! ### Little-endian words -/

/-- The `k` low bytes of a number, least significant first. -/
def toLe : ℕ → ℕ → List UInt8
  | 0, _ => []
  | k + 1, n => UInt8.ofNat n :: toLe k (n / 256)

def fromLe : List UInt8 → ℕ
  | [] => 0
  | b :: bs => b.toNat + 256 * fromLe bs

@[simp]
theorem length_toLe (k n : ℕ) : (toLe k n).length = k := by
  induction k generalizing n with
  | zero => rfl
  | succ k ih => rw [toLe, length_cons, ih]

theorem fromLe_toLe {k n : ℕ} (h : n < 256 ^ k) : fromLe (toLe k n) = n := by
  induction k generalizing n with
  | zero =>
    have hn : n = 0 := by simpa using h
    rw [hn]
    rfl
  | succ k ih =>
    have hdiv : n / 256 < 256 ^ k := by
      exact Nat.div_lt_of_lt_mul (by omega)
    have hbyte : (UInt8.ofNat n).toNat = n % 256 := UInt8.toNat_ofNat'
    rw [toLe, fromLe, ih hdiv]
    omega

/-! ### Frames -/

variable {β M ε : Type*}

/-- The reader takes `frame` off the front of a buffer as `message`, whatever follows, and
waits as long as it has less than that. -/
structure IsFrame (read : List β → Except ε (Option (M × ℕ))) (message : M)
    (frame : List β) : Prop where
  pos : 0 < frame.length
  whole : ∀ rest, read (frame ++ rest) = .ok (some (message, frame.length))
  waits : ∀ buffer, buffer <+: frame → buffer.length < frame.length → read buffer = .ok none

/-- The bytes of an unfinished frame among the first `n` of a stream of frames. -/
def leftover : List (List β) → ℕ → ℕ
  | [], n => n
  | frame :: frames, n => if frame.length ≤ n then leftover frames (n - frame.length) else n

theorem leftover_append (done frames : List (List β)) (n : ℕ) :
    leftover (done ++ frames) (done.flatten.length + n) = leftover frames n := by
  induction done with
  | nil => simp
  | cons frame done ih =>
    have hle : frame.length ≤ (frame :: done).flatten.length + n := by
      simp only [flatten_cons, length_append]
      omega
    have hsub : (frame :: done).flatten.length + n - frame.length = done.flatten.length + n := by
      simp only [flatten_cons, length_append]
      omega
    rw [cons_append, leftover, if_pos hle, hsub, ih]

/-- Less than one frame is left over. -/
theorem leftover_lt {frames : List (List β)} {n b : ℕ} (hn : n ≤ frames.flatten.length)
    (hb : 0 < b) (hframes : ∀ frame ∈ frames, frame.length ≤ b) : leftover frames n < b := by
  induction frames generalizing n with
  | nil =>
    have hzero : n = 0 := by simpa using hn
    rw [hzero]
    exact hb
  | cons frame frames ih =>
    rw [leftover]
    split_ifs with hle
    · refine ih ?_ fun f hf => hframes f (mem_cons_of_mem _ hf)
      simp only [flatten_cons, length_append] at hn
      omega
    · have := hframes frame mem_cons_self
      omega

end ByteFrames
