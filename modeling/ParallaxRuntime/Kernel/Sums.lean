import Mathlib.Algebra.BigOperators.Intervals

/-!
# Sums by blocks

Window sums that double, sums of blocks, and halving of a power-of-two range.
-/

namespace Parallax.Kernel

variable {M : Type} [AddCommMonoid M]

/-- The last `k` values up to and including position `t`. -/
def window (k : Nat) (x : Nat → M) (t : Nat) : M := ∑ j ∈ Finset.range (min k (t + 1)), x (t - j)

theorem window_one (x : Nat → M) : window 1 x = x := by
  funext t
  simp [window]

theorem window_of_le {k t : Nat} (x : Nat → M) (h : t < k) : window k x t = ∑ i ∈ Finset.range (t + 1), x i := by
  have short : min k (t + 1) = t + 1 := by omega
  unfold window
  rw [short, ← Finset.sum_range_reflect]
  refine Finset.sum_congr rfl fun j hj => ?_
  have := Finset.mem_range.mp hj
  congr 1
  omega

/-- Adding the window that ends `k` positions earlier doubles the width. -/
theorem window_double (k : Nat) (x : Nat → M) (t : Nat) :
    window k x t + (if t ≥ k then window k x (t - k) else 0) = window (2 * k) x t := by
  unfold window
  split
  · next far =>
    have width : min (2 * k) (t + 1) = k + min k (t - k + 1) := by omega
    rw [width, Finset.sum_range_add, show min k (t + 1) = k by omega]
    congr 1
    refine Finset.sum_congr rfl fun j _ => ?_
    congr 1
    omega
  · next near =>
    rw [add_zero, show min (2 * k) (t + 1) = min k (t + 1) by omega]

/-- Values past the end count as zero. -/
def padded (n : Nat) (x : Nat → M) (i : Nat) : M := if i < n then x i else 0

theorem padded_of_lt {n i : Nat} {x : Nat → M} (h : i < n) : padded n x i = x i := if_pos h

theorem sum_padded {n k : Nat} (x : Nat → M) (h : n ≤ k) :
    ∑ i ∈ Finset.range k, padded n x i = ∑ i ∈ Finset.range n, x i := by
  have split : k = n + (k - n) := by omega
  rw [split, Finset.sum_range_add]
  have tail : ∑ j ∈ Finset.range (k - n), padded n x (n + j) = 0 :=
    Finset.sum_eq_zero fun j _ => if_neg (by omega)
  rw [tail, add_zero]
  exact Finset.sum_congr rfl fun i hi => padded_of_lt (Finset.mem_range.mp hi)

/-- The sum of the `b`-th block of `w` values. -/
def blockSum (w : Nat) (x : Nat → M) (b : Nat) : M := ∑ j ∈ Finset.range w, x (b * w + j)

theorem sum_blocks (w k : Nat) (x : Nat → M) :
    ∑ b ∈ Finset.range k, blockSum w x b = ∑ i ∈ Finset.range (k * w), x i := by
  induction k with
  | zero => simp
  | succ k ih => rw [Finset.sum_range_succ, ih, Nat.succ_mul, Finset.sum_range_add, blockSum]

/-- A prefix sum is the blocks before it and the part of its own block. -/
theorem prefix_blocks (w : Nat) (x : Nat → M) (b r : Nat) :
    ∑ i ∈ Finset.range (b * w + r), x i =
      ∑ k ∈ Finset.range b, blockSum w x k + ∑ j ∈ Finset.range r, x (b * w + j) := by
  rw [sum_blocks, Finset.sum_range_add]

theorem sum_halves (s : Nat) (x : Nat → M) :
    ∑ i ∈ Finset.range s, (x i + x (i + s)) = ∑ i ∈ Finset.range (2 * s), x i := by
  rw [Finset.sum_add_distrib, two_mul, Finset.sum_range_add]
  congr 1
  exact Finset.sum_congr rfl fun i _ => by rw [Nat.add_comm]

end Parallax.Kernel
