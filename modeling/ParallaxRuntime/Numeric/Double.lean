import Mathlib.Algebra.Order.Field.Power
import Mathlib.Algebra.Order.Field.Rat
import Mathlib.Data.Rat.Floor
import Mathlib.Order.WithBot
import Mathlib.Tactic.Linarith
import Mathlib.Tactic.Positivity
import Mathlib.Tactic.Ring
import ParallaxRuntime.Numeric.Rounding

/-!
# Floating-point numbers

A `Double` is the number that a bit pattern stands for, so the two zeros are one. The
narrower formats are values of it as well.
-/

inductive Double where
  | nan
  | num (x : WithBot (WithTop ℚ))

namespace Double

/-- The `<` of the language. -/
def less : Double → Double → Bool
  | num x, num y => x < y
  | _, _ => false

/-- The `==` of the language. -/
def equal : Double → Double → Bool
  | num x, num y => x = y
  | _, _ => false

def finite (q : ℚ) : Double := num ((q : WithTop ℚ) : WithBot (WithTop ℚ))

/-- The conversion of an integer of at most 64 bits. -/
def ofInt (x : Int) : Double := finite (Rounding.roundInt 53 x)

/-- The conversion to `size_t` of a number that one can hold. -/
def toSize : Double → Nat
  | num (some (some q)) => ⌊q⌋.toNat
  | _ => 0

@[simp] theorem less_finite {p q : ℚ} : (finite p).less (finite q) = decide (p < q) := by
  simp [finite, less]

@[simp] theorem equal_finite {p q : ℚ} : (finite p).equal (finite q) = decide (p = q) := by
  simp [finite, equal]

@[simp] theorem less_ofInt {x y : Int} : (ofInt x).less (ofInt y) = decide (Rounding.roundInt 53 x < Rounding.roundInt 53 y) := by
  simp [ofInt]

@[simp] theorem equal_ofInt {x y : Int} : (ofInt x).equal (ofInt y) = decide (Rounding.roundInt 53 x = Rounding.roundInt 53 y) := by
  simp [ofInt]

end Double

/-- A binary interchange format: one sign bit, the exponent, the fraction. -/
structure FloatFormat where
  exponent : Nat
  fraction : Nat

namespace FloatFormat

def half : FloatFormat := ⟨5, 10⟩
def single : FloatFormat := ⟨8, 23⟩
def double : FloatFormat := ⟨11, 52⟩

variable (f : FloatFormat)

/-- The exponent of the last place of a number with the exponent field `e`. -/
def scale (e : Nat) : Int := (max e 1 : Nat) - (2 ^ (f.exponent - 1) - 1 : Nat) - f.fraction

/-- The number of the given sign with the exponent field `e` and the fraction `m`. -/
def magnitude (e m : Nat) : ℚ := ((if e = 0 then m else 2 ^ f.fraction + m : Nat) : ℚ) * 2 ^ f.scale e

def decode (bits : Nat) : Double :=
  let m := bits % 2 ^ f.fraction
  let e := bits / 2 ^ f.fraction % 2 ^ f.exponent
  let negative := bits / 2 ^ (f.fraction + f.exponent) % 2 = 1
  if e = 2 ^ f.exponent - 1 then
    if m ≠ 0 then .nan else if negative then .num ⊥ else .num ((⊤ : WithTop ℚ) : WithBot (WithTop ℚ))
  else .finite (if negative then -f.magnitude e m else f.magnitude e m)

/-! ### The greatest number -/

/-- A magnitude in units of the smallest one. -/
def units (e m : Nat) : Nat := if e = 0 then m else (2 ^ f.fraction + m) * 2 ^ (e - 1)

/-- The bits of `numeric_limits::max()`. -/
def greatest : Nat := (2 ^ f.exponent - 1) * 2 ^ f.fraction - 1

/-- The value of `numeric_limits::max()`. -/
def limit : ℚ := f.magnitude (2 ^ f.exponent - 2) (2 ^ f.fraction - 1)

variable {f} {e m bits : Nat}

theorem magnitude_units : f.magnitude e m = f.units e m * 2 ^ f.scale 0 := by
  unfold magnitude units
  split
  · next zero => rw [zero]
  · next normal =>
    have shift : f.scale e = ((e - 1 : Nat) : Int) + f.scale 0 := by
      unfold scale
      omega
    rw [shift, zpow_add₀ (by decide), zpow_natCast]
    push_cast
    ring

theorem decode_ne_nan (h : bits / 2 ^ f.fraction % 2 ^ f.exponent ≠ 2 ^ f.exponent - 1) : f.decode bits ≠ .nan := by
  unfold decode
  rw [if_neg h]
  exact Double.noConfusion

theorem magnitude_nonneg : 0 ≤ f.magnitude e m := by
  unfold magnitude
  positivity

theorem units_lt {E : Nat} (pos : 1 ≤ E) (he : e ≤ E) (hm : m < 2 ^ f.fraction) (ne : ¬ (e = E ∧ m = 2 ^ f.fraction - 1)) :
    f.units e m < f.units E (2 ^ f.fraction - 1) := by
  have two : 2 ^ f.fraction + (2 ^ f.fraction - 1) + 1 = 2 ^ (f.fraction + 1) := by
    rw [Nat.pow_succ]
    omega
  unfold units
  rw [if_neg (show E ≠ 0 by omega)]
  rcases Nat.lt_or_eq_of_le he with lower | rfl
  · have top : 2 ^ f.fraction * 2 ^ (E - 1) ≤ (2 ^ f.fraction + (2 ^ f.fraction - 1)) * 2 ^ (E - 1) :=
      Nat.mul_le_mul_right _ (Nat.le_add_right _ _)
    split
    · next zero =>
      calc m < 2 ^ f.fraction := hm
        _ ≤ 2 ^ f.fraction * 2 ^ (E - 1) := Nat.le_mul_of_pos_right _ (Nat.two_pow_pos _)
        _ ≤ _ := top
    · next normal =>
      calc (2 ^ f.fraction + m) * 2 ^ (e - 1) < 2 ^ (f.fraction + 1) * 2 ^ (e - 1) :=
            Nat.mul_lt_mul_of_pos_right (by omega) (Nat.two_pow_pos _)
        _ = 2 ^ f.fraction * 2 ^ e := by
          rw [Nat.pow_succ, Nat.mul_assoc, ← Nat.pow_succ', Nat.succ_eq_add_one, Nat.sub_add_cancel (by omega)]
        _ ≤ 2 ^ f.fraction * 2 ^ (E - 1) := Nat.mul_le_mul_left _ (Nat.pow_le_pow_right (by decide) (by omega))
        _ ≤ _ := top
  · rw [if_neg (by omega)]
    exact Nat.mul_lt_mul_of_pos_right (by omega) (Nat.two_pow_pos _)

theorem magnitude_le_limit (wide : 2 ≤ f.exponent) (he : e ≤ 2 ^ f.exponent - 2) (hm : m < 2 ^ f.fraction) :
    f.magnitude e m ≤ f.limit ∧ (f.magnitude e m = f.limit → e = 2 ^ f.exponent - 2 ∧ m = 2 ^ f.fraction - 1) := by
  have four : 2 ^ 2 ≤ 2 ^ f.exponent := Nat.pow_le_pow_right (by decide) wide
  have unit : (0 : ℚ) < 2 ^ f.scale 0 := by positivity
  rw [limit, magnitude_units, magnitude_units]
  by_cases same : e = 2 ^ f.exponent - 2 ∧ m = 2 ^ f.fraction - 1
  · rw [same.1, same.2]
    exact ⟨le_refl _, fun _ => ⟨rfl, rfl⟩⟩
  · have less : (f.units e m : ℚ) < f.units (2 ^ f.exponent - 2) (2 ^ f.fraction - 1) := by
      exact_mod_cast units_lt (by omega) he hm same
    have scaled := mul_lt_mul_of_pos_right less unit
    exact ⟨scaled.le, fun equal => absurd equal scaled.ne⟩

theorem greatest_lt : f.greatest < 2 ^ (f.fraction + f.exponent + 1) := by
  have fraction := Nat.two_pow_pos f.fraction
  have exponent := Nat.two_pow_pos f.exponent
  have product : (2 ^ f.exponent - 1) * 2 ^ f.fraction ≤ 2 ^ f.exponent * 2 ^ f.fraction :=
    Nat.mul_le_mul_right _ (Nat.sub_le _ _)
  rw [Nat.pow_succ, Nat.pow_add, Nat.mul_comm (2 ^ f.fraction)]
  have := Nat.mul_pos exponent fraction
  unfold greatest
  omega

theorem limit_pos (wide : 2 ≤ f.exponent) : 0 < f.limit := by
  have four : 2 ^ 2 ≤ 2 ^ f.exponent := Nat.pow_le_pow_right (by decide) wide
  have pos : 0 < f.units (2 ^ f.exponent - 2) (2 ^ f.fraction - 1) := by
    rw [units, if_neg (by omega)]
    positivity
  rw [limit, magnitude_units]
  positivity

/-- A pattern that is a number is an infinity, or of at most the greatest magnitude; only the
pattern of the greatest number has its value. -/
theorem decode_cases (wide : 2 ≤ f.exponent) (number : f.decode bits ≠ .nan) (size : bits < 2 ^ (f.fraction + f.exponent + 1)) :
    f.decode bits = .num ⊥ ∨ f.decode bits = .num ((⊤ : WithTop ℚ) : WithBot (WithTop ℚ)) ∨
    ∃ q, f.decode bits = .finite q ∧ q ≤ f.limit ∧ (q = f.limit → bits = f.greatest) := by
  have four : 2 ^ 2 ≤ 2 ^ f.exponent := Nat.pow_le_pow_right (by decide) wide
  have fraction := Nat.two_pow_pos f.fraction
  unfold decode at number ⊢
  generalize hm : bits % 2 ^ f.fraction = m at *
  generalize he : bits / 2 ^ f.fraction % 2 ^ f.exponent = e at *
  have lowM : m < 2 ^ f.fraction := hm ▸ Nat.mod_lt _ fraction
  have lowE : e < 2 ^ f.exponent := he ▸ Nat.mod_lt _ (Nat.two_pow_pos _)
  dsimp only at number ⊢
  by_cases special : e = 2 ^ f.exponent - 1
  · rw [if_pos special] at number ⊢
    by_cases quiet : m ≠ 0
    · exact absurd (if_pos quiet) number
    · rw [if_neg quiet]
      split
      · exact Or.inl rfl
      · exact Or.inr (Or.inl rfl)
  · rw [if_neg special]
    obtain ⟨bound, unique⟩ := magnitude_le_limit wide (show e ≤ 2 ^ f.exponent - 2 by omega) lowM
    have pos := limit_pos wide
    have nonneg := f.magnitude_nonneg (e := e) (m := m)
    refine Or.inr (Or.inr ⟨_, rfl, ?_⟩)
    split
    · constructor
      · linarith
      · intro same
        linarith
    · next positive =>
      refine ⟨bound, fun same => ?_⟩
      obtain ⟨topE, topM⟩ := unique same
      have whole := Nat.div_add_mod bits (2 ^ f.fraction)
      have upper := Nat.div_add_mod (bits / 2 ^ f.fraction) (2 ^ f.exponent)
      rw [Nat.div_div_eq_div_mul, ← Nat.pow_add] at upper
      have sign : bits / 2 ^ (f.fraction + f.exponent) < 2 := by
        rw [Nat.div_lt_iff_lt_mul (Nat.two_pow_pos _), ← Nat.pow_succ']
        exact size
      have even : bits / 2 ^ (f.fraction + f.exponent) % 2 ≠ 1 := positive
      have zero : bits / 2 ^ (f.fraction + f.exponent) = 0 := by
        generalize bits / 2 ^ (f.fraction + f.exponent) = s at sign even
        omega
      rw [zero, Nat.mul_zero, Nat.zero_add, he] at upper
      rw [← upper, hm, topE, topM] at whole
      have : 2 ^ f.fraction * (2 ^ f.exponent - 2) + 2 ^ f.fraction = (2 ^ f.exponent - 1) * 2 ^ f.fraction := by
        rw [← Nat.mul_succ, Nat.mul_comm]
        congr 1
        omega
      unfold greatest
      omega

theorem decode_greatest (wide : 2 ≤ f.exponent) : f.decode f.greatest = .finite f.limit := by
  have four : 2 ^ 2 ≤ 2 ^ f.exponent := Nat.pow_le_pow_right (by decide) wide
  have fraction := Nat.two_pow_pos f.fraction
  have split : f.greatest = 2 ^ f.fraction * (2 ^ f.exponent - 2) + (2 ^ f.fraction - 1) := by
    have : 2 ^ f.fraction * (2 ^ f.exponent - 2) + 2 ^ f.fraction = (2 ^ f.exponent - 1) * 2 ^ f.fraction := by
      rw [← Nat.mul_succ, Nat.mul_comm]
      congr 1
      omega
    unfold greatest
    omega
  have low : f.greatest % 2 ^ f.fraction = 2 ^ f.fraction - 1 := by
    rw [split, Nat.mul_add_mod, Nat.mod_eq_of_lt (by omega)]
  have high : f.greatest / 2 ^ f.fraction = 2 ^ f.exponent - 2 := by
    rw [split, Nat.mul_add_div fraction, Nat.div_eq_of_lt (by omega), Nat.add_zero]
  unfold decode
  rw [Nat.pow_add, ← Nat.div_div_eq_div_mul, low, high, Nat.mod_eq_of_lt (by omega), Nat.div_eq_of_lt (by omega)]
  dsimp only
  rw [if_neg (by omega), if_neg (by decide), limit]

end FloatFormat

example : FloatFormat.single.decode 0x40490000 = .finite (201 / 64) := by
  simp [FloatFormat.decode, FloatFormat.single, FloatFormat.magnitude, FloatFormat.scale]
  norm_num
