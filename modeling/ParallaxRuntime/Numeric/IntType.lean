import Mathlib.Data.Nat.Bitwise
import Mathlib.Data.ZMod.Basic
import Mathlib.Tactic.LinearCombination
import Mathlib.Tactic.Ring
import Mathlib.Tactic.Positivity

/-!
# Integer types of C++

A conversion reduces modulo the width into the range of the type. Types below `int` are
added in `int` and converted back; the addition of a signed type from `int` on must not
leave its range.
-/

structure IntType where
  signed : Bool
  width : Nat
  pos : 0 < width

namespace IntType

variable (t : IntType)

def lowest : Int := if t.signed then -2 ^ (t.width - 1) else 0

def Fits (x : Int) : Prop := t.lowest ≤ x ∧ x < t.lowest + 2 ^ t.width

instance (x : Int) : Decidable (t.Fits x) := inferInstanceAs (Decidable (_ ∧ _))

/-- The value of the type that `x` is converted to. -/
def wrap (x : Int) : Int := (x - t.lowest) % 2 ^ t.width + t.lowest

/-- Overflow of this type's addition is undefined. -/
def checked : Bool := t.signed && decide (32 ≤ t.width)

/-- `a + b`, converted to the type; `none` where it is undefined. -/
def add (a b : Int) : Option Int :=
  if t.checked then (if t.Fits (a + b) then some (a + b) else none) else some (t.wrap (a + b))

/-- `a + b` before it is converted to anything. The types below `int` have at most 16 bits. -/
def sum (a b : Int) : Option Int := if t.width < 32 then some (a + b) else t.add a b

/-- `a + b` with `b` of the type `u`, no wider, converted to the type. An unsigned `u` of the
same width makes the addition unsigned. -/
def addMixed (u : IntType) (a b : Int) : Option Int :=
  if t.checked && !(u.width == t.width && !u.signed) then (if t.Fits (a + b) then some (a + b) else none)
  else some (t.wrap (a + b))

variable {t} {a b x : Int}

theorem modulus_pos : (0 : Int) < 2 ^ t.width := by positivity

theorem fits_zero : t.Fits 0 := by
  unfold Fits lowest
  cases t.signed with
  | false => simp
  | true =>
    obtain ⟨n, hn⟩ := Nat.exists_eq_succ_of_ne_zero (Nat.ne_of_gt t.pos)
    have half : (0 : Int) < 2 ^ n := by positivity
    rw [hn, if_pos rfl, Nat.succ_sub_one, pow_succ]
    omega

theorem wrap_fits (x : Int) : t.Fits (t.wrap x) := by
  have low := Int.emod_nonneg (x - t.lowest) (Int.ne_of_gt (modulus_pos (t := t)))
  have high := Int.emod_lt_of_pos (x - t.lowest) (modulus_pos (t := t))
  unfold Fits wrap
  omega

theorem wrap_of_fits (h : t.Fits x) : t.wrap x = x := by
  obtain ⟨low, high⟩ := h
  unfold wrap
  rw [Int.emod_eq_of_lt] <;> omega

/-- Conversions agree exactly on values that differ by a multiple of the modulus. -/
theorem wrap_eq_iff : t.wrap a = t.wrap b ↔ (2 ^ t.width : Int) ∣ a - b := by
  have shift : a - t.lowest - (b - t.lowest) = a - b := by ring
  unfold wrap
  rw [add_left_inj, Int.emod_eq_emod_iff_emod_sub_eq_zero, shift, Int.dvd_iff_emod_eq_zero]

theorem dvd_sub_wrap (x : Int) : (2 ^ t.width : Int) ∣ x - t.wrap x := by
  rw [← wrap_eq_iff, wrap_of_fits (wrap_fits x)]

/-- A conversion of `a` gives `b` exactly if `b` is a value of the type that differs from `a` by a
multiple of the modulus. -/
theorem wrap_eq_value_iff : t.wrap a = b ↔ t.Fits b ∧ (2 ^ t.width : Int) ∣ b - a := by
  constructor
  · rintro rfl
    refine ⟨wrap_fits a, ?_⟩
    rw [← wrap_eq_iff, wrap_of_fits (wrap_fits a)]
  · rintro ⟨fits, dvd⟩
    rw [← wrap_of_fits fits, eq_comm, wrap_eq_iff]
    exact dvd

theorem wrap_add_wrap (a b : Int) : t.wrap (a + t.wrap b) = t.wrap (a + b) := by
  rw [wrap_eq_iff]
  have step : a + t.wrap b - (a + b) = -(b - t.wrap b) := by ring
  rw [step]
  exact (dvd_sub_wrap b).neg_right

theorem wrap_wrap_add (a b : Int) : t.wrap (t.wrap a + b) = t.wrap (a + b) := by
  rw [add_comm, wrap_add_wrap, add_comm]

theorem addMixed_of_fits {u : IntType} (h : t.Fits (a + b)) : t.addMixed u a b = some (a + b) := by
  unfold addMixed
  rw [if_pos h, wrap_of_fits h, ite_self]

theorem add_eq_some (h : t.add a b = some x) : t.Fits x ∧ (2 ^ t.width : Int) ∣ a + b - x := by
  unfold add at h
  split at h
  · split at h
    · next fits =>
      cases h
      exact ⟨fits, by simp⟩
    · cases h
  · cases h
    exact ⟨wrap_fits _, dvd_sub_wrap _⟩

theorem addMixed_eq_some {u : IntType} (h : t.addMixed u a b = some x) : t.Fits x ∧ (2 ^ t.width : Int) ∣ a + b - x := by
  unfold addMixed at h
  split at h
  · split at h
    · next fits =>
      cases h
      exact ⟨fits, by simp⟩
    · cases h
  · cases h
    exact ⟨wrap_fits _, dvd_sub_wrap _⟩

theorem add_of_fits (h : t.Fits (a + b)) : t.add a b = some (a + b) := by
  unfold add
  rw [if_pos h, wrap_of_fits h, ite_self]

theorem sum_of_fits (h : t.Fits (a + b)) : t.sum a b = some (a + b) := by
  unfold sum
  rw [add_of_fits h, ite_self]

theorem zmod_wrap (x : Int) : ((t.wrap x : Int) : ZMod (2 ^ t.width)) = (x : ZMod (2 ^ t.width)) := by
  rw [eq_comm, ZMod.intCast_eq_intCast_iff_dvd_sub]
  obtain ⟨k, hk⟩ := dvd_sub_wrap (t := t) x
  exact ⟨-k, by push_cast; linear_combination -hk⟩

end IntType
