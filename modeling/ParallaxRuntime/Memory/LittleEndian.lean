import Mathlib.Algebra.Order.Ring.Nat
import ParallaxRuntime.Memory.Codec

/-!
# Little-endian integers in a memory of bytes
-/

namespace Parallax.Memory

def leNat : (w : Nat) → (Fin w → UInt8) → Nat
  | 0, _ => 0
  | w + 1, f => (f 0).toNat + 256 * leNat w fun k => f k.succ

def leBytes (n k : Nat) : UInt8 := UInt8.ofNat (n / 256 ^ k)

@[simp] theorem leNat_leBytes (w n : Nat) : leNat w (fun k => leBytes n k) = n % 256 ^ w := by
  induction w generalizing n with
  | zero => simp [leNat, Nat.mod_one]
  | succ w ih =>
    have shift : ∀ k : Nat, leBytes n (k + 1) = leBytes (n / 256) k := by
      intro k
      rw [leBytes, leBytes, Nat.pow_succ', Nat.div_div_eq_div_mul]
    have low : (leBytes n 0).toNat = n % 256 := by simp [leBytes]
    simp only [leNat, Fin.val_zero, Fin.val_succ, shift, ih, low]
    rw [Nat.pow_succ', Nat.mod_mul]

theorem leNat_lt (w : Nat) (f : Fin w → UInt8) : leNat w f < 256 ^ w := by
  induction w with
  | zero => simp [leNat]
  | succ w ih =>
    have byte := (f 0).toNat_lt
    have rest := ih fun k => f k.succ
    simp only [leNat]
    rw [Nat.pow_succ']
    omega

theorem two_pow_bytes (w : Nat) : 2 ^ (8 * w) = 256 ^ w := by
  rw [Nat.pow_mul]

theorem four_bytes : 0 < 4 := by decide

/-- Integers of `w` bytes. -/
def Codec.word (w : Nat) (pos : 0 < w) : Codec UInt8 (BitVec (8 * w)) where
  size := w
  pos := pos
  enc x k := leBytes x.toNat k
  dec f := BitVec.ofNat (8 * w) (leNat w f)
  dec_enc x := by
    apply BitVec.eq_of_toNat_eq
    rw [leNat_leBytes, BitVec.toNat_ofNat, ← two_pow_bytes, Nat.mod_mod, Nat.mod_eq_of_lt x.isLt]

@[simp] theorem Codec.word_size {w : Nat} {pos : 0 < w} : (Codec.word w pos).size = w := rfl

theorem Codec.leNat_word {w : Nat} (pos : 0 < w) {m : Nat → UInt8} {p i : Nat} :
    leNat w (fun k => m (p + i * w + k)) = ((Codec.word w pos).get m p i).toNat := by
  have fits : leNat w (fun k => m (p + i * w + k)) < 2 ^ (8 * w) := two_pow_bytes w ▸ leNat_lt w _
  exact (Nat.mod_eq_of_lt fits).symm

/-- The bytes of one integer of `w` bytes after the other, from `p` on. -/
def fill (w p : Nat) (x : Nat → Nat) (a : Nat) : UInt8 := leBytes (x ((a - p) / w)) ((a - p) % w)

theorem Codec.get_fill {w p i : Nat} {pos : 0 < w} {x : Nat → Nat} :
    (Codec.word w pos).get (fill w p x) p i = BitVec.ofNat (8 * w) (x i) := by
  have cells : ∀ k : Fin w, fill w p x (p + i * w + k) = leBytes (x i) k := by
    intro k
    have offset : p + i * w + k - p = k + w * i := by
      have := Nat.mul_comm i w
      omega
    rw [fill, offset, Nat.add_mul_div_left _ _ pos, Nat.add_mul_mod_self_left, Nat.div_eq_of_lt k.isLt,
      Nat.mod_eq_of_lt k.isLt, Nat.zero_add]
  apply BitVec.eq_of_toNat_eq
  rw [← Codec.leNat_word, BitVec.toNat_ofNat, two_pow_bytes]
  simp only [cells, leNat_leBytes]

end Parallax.Memory
