import Mathlib.Data.Nat.Bitwise

/-!
# Words in a byte memory

A flat byte memory, little-endian 64-bit loads and stores, and 64-bit modular
arithmetic on `Nat`.
-/

namespace Parallax.Memory

/-- Byte contents by address. -/
abbrev Mem := Nat → UInt8

/-- Unsigned 64-bit addition. -/
def wadd (a b : Nat) : Nat := (a + b) % 2 ^ 64

/-- Unsigned 64-bit subtraction. -/
def wsub (a b : Nat) : Nat := (a + (2 ^ 64 - b % 2 ^ 64)) % 2 ^ 64

/-- Unsigned 64-bit product. -/
def wmul (a b : Nat) : Nat := a * b % 2 ^ 64

/-- Bitwise complement of a 64-bit word. -/
def wnot (a : Nat) : Nat := 2 ^ 64 - 1 - a

/-- Unsigned 64-bit left shift. -/
def wshl (a k : Nat) : Nat := a * 2 ^ k % 2 ^ 64

theorem wadd_of_lt {a b : Nat} (h : a + b < 2 ^ 64) : wadd a b = a + b := Nat.mod_eq_of_lt h

theorem wmul_of_lt {a b : Nat} (h : a * b < 2 ^ 64) : wmul a b = a * b := Nat.mod_eq_of_lt h

theorem wsub_of_le {a b : Nat} (ha : a < 2 ^ 64) (h : b ≤ a) : wsub a b = a - b := by
  unfold wsub
  have hb : b % 2 ^ 64 = b := Nat.mod_eq_of_lt (by omega)
  rw [hb]
  omega

theorem wshl_one_of_lt {a : Nat} (h : 2 * a < 2 ^ 64) : wshl a 1 = 2 * a := by
  unfold wshl
  rw [Nat.mod_eq_of_lt] <;> omega

/-- Masking with the complement of `2 ^ k - 1` clears the low `k` bits. -/
theorem and_wnot_two_pow {x : Nat} (k : Nat) (hk : k < 64) (hx : x < 2 ^ 64) :
    x &&& wnot (2 ^ k - 1) = x / 2 ^ k * 2 ^ k := by
  have hpow : 2 ^ k - 1 < 2 ^ 64 := by
    have := Nat.pow_lt_pow_right (a := 2) (by decide) hk
    omega
  apply Nat.eq_of_testBit_eq
  intro i
  have hmask : wnot (2 ^ k - 1) = 2 ^ 64 - (2 ^ k - 1 + 1) := by unfold wnot; omega
  rw [Nat.testBit_and, hmask, Nat.testBit_two_pow_sub_succ hpow, Nat.testBit_two_pow_sub_one,
    Nat.testBit_mul_two_pow, Nat.testBit_div_two_pow]
  by_cases hi : k ≤ i
  · have same : i - k + k = i := by omega
    by_cases h64 : i < 64
    · simp [hi, h64, same]
    · have big : x < 2 ^ i := Nat.lt_of_lt_of_le hx (Nat.pow_le_pow_right (by decide) (by omega))
      simp [hi, h64, same, Nat.testBit_lt_two_pow big]
  · simp [hi, Nat.lt_of_not_le hi]

/-- Masking with the complement of `m` takes at most `m` away. -/
theorem and_wnot_bounds {x m : Nat} (hx : x < 2 ^ 64) (hm : m < 2 ^ 64) :
    x ≤ (x &&& wnot m) + m ∧ x &&& wnot m ≤ x := by
  refine ⟨?_, Nat.and_le_left⟩
  have apart : (BitVec.ofNat 64 x &&& BitVec.ofNat 64 m) &&& (BitVec.ofNat 64 x &&& ~~~BitVec.ofNat 64 m) = 0#64 := by
    ext i
    simp +contextual
  have whole : (BitVec.ofNat 64 x &&& BitVec.ofNat 64 m) + (BitVec.ofNat 64 x &&& ~~~BitVec.ofNat 64 m) =
      BitVec.ofNat 64 x := by
    rw [BitVec.add_eq_or_of_and_eq_zero _ _ apart]
    ext i
    simp
    grind
  have sum := congrArg BitVec.toNat whole
  rw [BitVec.toNat_add_of_and_eq_zero apart, BitVec.toNat_and, BitVec.toNat_and, BitVec.toNat_not, BitVec.toNat_ofNat,
    BitVec.toNat_ofNat, Nat.mod_eq_of_lt hx, Nat.mod_eq_of_lt hm] at sum
  have part : x &&& m ≤ m := Nat.and_le_right
  unfold wnot
  omega

/-- `(x + a - 1) & ~(a - 1)` rounds up to a multiple of the power of two `a`. -/
theorem round_up_eq {x : Nat} (k : Nat) (hk : k < 64) (h : x + 2 ^ k < 2 ^ 64) :
    wsub (wadd x (2 ^ k)) 1 &&& wnot (2 ^ k - 1) = (x + (2 ^ k - 1)) / 2 ^ k * 2 ^ k := by
  have pos : 0 < 2 ^ k := Nat.two_pow_pos k
  rw [wadd_of_lt h, wsub_of_le h (by omega), show x + 2 ^ k - 1 = x + (2 ^ k - 1) by omega]
  exact and_wnot_two_pow k hk (by omega)

theorem div_mul_bounds {x a : Nat} (pos : 0 < a) :
    x ≤ (x + (a - 1)) / a * a ∧ (x + (a - 1)) / a * a < x + a ∧ (x + (a - 1)) / a * a % a = 0 := by
  have low := Nat.div_add_mod (x + (a - 1)) a
  have rest := Nat.mod_lt (x + (a - 1)) pos
  rw [Nat.mul_comm] at low
  exact ⟨by omega, by omega, Nat.mul_mod_left _ _⟩

/-! ### Loads and stores -/

/-- The little-endian 64-bit word at `a`. -/
def load64 (m : Mem) (a : Nat) : Nat :=
  (m a).toNat + 256 * ((m (a + 1)).toNat + 256 * ((m (a + 2)).toNat + 256 * ((m (a + 3)).toNat +
    256 * ((m (a + 4)).toNat + 256 * ((m (a + 5)).toNat + 256 * ((m (a + 6)).toNat +
      256 * (m (a + 7)).toNat))))))

/-- Write the little-endian 64-bit word `v` at `a`. -/
def store64 (m : Mem) (a v : Nat) : Mem := fun x =>
  if a ≤ x ∧ x < a + 8 then UInt8.ofNat (v / 256 ^ (x - a)) else m x

theorem load64_lt (m : Mem) (a : Nat) : load64 m a < 2 ^ 64 := by
  have h (x : Nat) : (m x).toNat < 256 := (m x).toNat_lt
  have h0 := h a
  have h1 := h (a + 1)
  have h2 := h (a + 2)
  have h3 := h (a + 3)
  have h4 := h (a + 4)
  have h5 := h (a + 5)
  have h6 := h (a + 6)
  have h7 := h (a + 7)
  unfold load64
  omega

theorem store64_outside {m : Mem} {a v x : Nat} (h : x < a ∨ a + 8 ≤ x) : store64 m a v x = m x := by
  unfold store64
  rw [if_neg (by omega)]

theorem load64_congr {m m' : Mem} {a : Nat} (h : ∀ x, a ≤ x → x < a + 8 → m' x = m x) :
    load64 m' a = load64 m a := by
  unfold load64
  rw [h a, h (a + 1), h (a + 2), h (a + 3), h (a + 4), h (a + 5), h (a + 6), h (a + 7)] <;> omega

theorem load64_store64_of_disjoint {m : Mem} {a b v : Nat} (h : a + 8 ≤ b ∨ b + 8 ≤ a) :
    load64 (store64 m b v) a = load64 m a :=
  load64_congr fun x _ _ => store64_outside (by omega)

theorem store64_byte {m : Mem} {a v i : Nat} (hi : i < 8) :
    (store64 m a v (a + i)).toNat = v / 256 ^ i % 256 := by
  unfold store64
  rw [if_pos (by omega), Nat.add_sub_cancel_left]
  simp

@[simp] theorem load64_store64 {m : Mem} {a v : Nat} (hv : v < 2 ^ 64) :
    load64 (store64 m a v) a = v := by
  have h0 := store64_byte (m := m) (a := a) (v := v) (i := 0) (by decide)
  rw [Nat.add_zero] at h0
  unfold load64
  rw [h0, store64_byte (by decide), store64_byte (by decide), store64_byte (by decide),
    store64_byte (by decide), store64_byte (by decide), store64_byte (by decide),
    store64_byte (by decide)]
  simp only [Nat.reducePow, Nat.div_one]
  omega

end Parallax.Memory
