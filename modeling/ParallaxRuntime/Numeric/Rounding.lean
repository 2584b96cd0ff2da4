import Mathlib.Algebra.Order.Group.Abs
import Mathlib.Algebra.Order.Ring.Nat
import Mathlib.Algebra.Order.Ring.Int
import Mathlib.Data.Nat.Log

/-!
# Rounding to a number of bits

To the nearest number with `p` significant bits, and of two equally near to the even one.
-/

namespace Rounding

/-- The multiple of `ulp` nearest to `n`. -/
def nearest (ulp n : Nat) : Nat :=
  if ulp < 2 * (n % ulp) ∨ 2 * (n % ulp) = ulp ∧ n / ulp % 2 = 1 then (n / ulp + 1) * ulp else n / ulp * ulp

def roundNat (p n : Nat) : Nat := nearest (2 ^ (n.log2 + 1 - p)) n

def roundInt (p : Nat) (x : Int) : Int := if x < 0 then -(roundNat p x.natAbs : Int) else roundNat p x.natAbs

section
variable {ulp a b p n : Nat}

theorem nearest_of_dvd (h : ulp ∣ n) : nearest ulp n = n := by
  have exact : n % ulp = 0 := Nat.mod_eq_zero_of_dvd h
  unfold nearest
  rw [exact, if_neg, Nat.div_mul_cancel h]
  rintro (far | ⟨half, odd⟩)
  · omega
  · obtain rfl : ulp = 0 := by omega
    simp at odd

theorem le_nearest : n / ulp * ulp ≤ nearest ulp n := by
  unfold nearest
  split
  · exact Nat.mul_le_mul_right _ (Nat.le_succ _)
  · exact Nat.le_refl _

theorem nearest_le : nearest ulp n ≤ (n / ulp + 1) * ulp := by
  unfold nearest
  split
  · exact Nat.le_refl _
  · exact Nat.mul_le_mul_right _ (Nat.le_succ _)

theorem nearest_mono (h : a ≤ b) : nearest ulp a ≤ nearest ulp b := by
  rcases Nat.lt_or_eq_of_le (Nat.div_le_div_right (c := ulp) h) with lower | same
  · calc nearest ulp a ≤ (a / ulp + 1) * ulp := nearest_le
      _ ≤ b / ulp * ulp := Nat.mul_le_mul_right _ lower
      _ ≤ nearest ulp b := le_nearest
  · have rest : a % ulp ≤ b % ulp := by
      have := Nat.div_add_mod a ulp
      have := Nat.div_add_mod b ulp
      rw [same] at *
      omega
    unfold nearest
    rw [same]
    split
    · rw [if_pos (by omega)]
    · exact le_nearest

theorem roundNat_of_lt (h : n < 2 ^ p) : roundNat p n = n := by
  unfold roundNat
  apply nearest_of_dvd
  by_cases zero : n = 0
  · rw [zero]
    exact Nat.dvd_zero _
  · have := (Nat.log2_lt zero).mpr h
    rw [Nat.sub_eq_zero_of_le this, Nat.pow_zero]
    exact Nat.one_dvd n

theorem roundNat_mono (pos : 0 < p) (h : a ≤ b) : roundNat p a ≤ roundNat p b := by
  by_cases zero : a = 0
  · rw [zero, roundNat_of_lt (Nat.two_pow_pos p)]
    exact Nat.zero_le _
  have nonzero : b ≠ 0 := by omega
  unfold roundNat
  rcases Nat.lt_or_eq_of_le ((Nat.le_log2 nonzero).mpr ((Nat.log2_self_le zero).trans h)) with fewer | same
  · -- A power of two lies between the two numbers, and neither side crosses it.
    have low : a ≤ 2 ^ b.log2 := ((Nat.log2_lt zero).mp fewer).le
    calc nearest (2 ^ (a.log2 + 1 - p)) a ≤ nearest (2 ^ (a.log2 + 1 - p)) (2 ^ b.log2) := nearest_mono low
      _ = 2 ^ b.log2 := nearest_of_dvd (Nat.pow_dvd_pow 2 (by omega))
      _ = nearest (2 ^ (b.log2 + 1 - p)) (2 ^ b.log2) := (nearest_of_dvd (Nat.pow_dvd_pow 2 (by omega))).symm
      _ ≤ nearest (2 ^ (b.log2 + 1 - p)) b := nearest_mono (Nat.log2_self_le nonzero)
  · rw [same]
    exact nearest_mono h

theorem roundInt_mono {x y : Int} (pos : 0 < p) (h : x ≤ y) : roundInt p x ≤ roundInt p y := by
  unfold roundInt
  split
  · split
    · have := roundNat_mono pos (show y.natAbs ≤ x.natAbs by omega)
      omega
    · omega
  · rw [if_neg (by omega)]
    have := roundNat_mono pos (show x.natAbs ≤ y.natAbs by omega)
    omega

theorem roundInt_of_lt {x : Int} (h : x.natAbs < 2 ^ p) : roundInt p x = x := by
  unfold roundInt
  rw [roundNat_of_lt h]
  split <;> omega

end

/-- To 53 bits, the two neighbours of an odd multiple of the unit are told apart by parity. -/
example : roundInt 53 (2 ^ 53 + 1) = 2 ^ 53 ∧ roundInt 53 (-(2 ^ 53 + 3)) = -(2 ^ 53 + 4) := by decide

end Rounding
