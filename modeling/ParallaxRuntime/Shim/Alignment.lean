import Mathlib.Order.Bounds.Basic
import ParallaxRuntime.Effects.Walk
import ParallaxRuntime.Shim.Capture

/-!
# Rounding the alignment

`px_pool_alloc` doubles 16 until it is no longer below the alignment. Past 2^63 the doubled word is 0, and
stays 0.
-/

namespace Parallax.Shim
open Memory Pool Effects StateTransition

/-- One turn of `while (a < align) a <<= 1;`. -/
def doubling (align a : Nat) : Option Nat := if a < align then some (wshl a 1) else none

/-- The alignment that `px_pool_alloc` goes on with, if its loop takes at most `fuel` turns. -/
def normAlignFor (fuel align : Nat) : Option Nat :=
  let align := if align < ALIGN then ALIGN else align
  if align &&& (align - 1) ≠ 0 then alignLoop align fuel ALIGN else some align

def pxPoolAllocFor (fuel : Nat) (env : Env) (s : State) (size align : Nat) : Option (Nat × State) :=
  match normAlignFor fuel align with
  | none => none
  | some align =>
    let size := if size = 0 then 1 else size
    match ensureInitLocked env s with
    | (false, s) => some (0, s)
    | (true, s) => allocIn s size align

theorem pxPoolAllocFor_eq (env : Env) (s : State) (size align : Nat) :
    pxPoolAllocFor 64 env s size align = pxPoolAlloc env s size align := rfl

/-- The 64-bit powers of two that the alignment may be rounded to. -/
def Candidates (align : Nat) : Set Nat := {p | (∃ k, p = 2 ^ k) ∧ p < 2 ^ 64 ∧ max align ALIGN ≤ p}

/-- The loop ends with the least candidate, or there is none and the request is answered with null. -/
def Normalises (align : Nat) : Prop :=
  (∃ fuel a, normAlignFor fuel align = some a ∧ IsLeast (Candidates align) a) ∨
  Candidates align = ∅ ∧ ∀ env s size, ∃ fuel s', pxPoolAllocFor fuel env s size align = some (0, s')

theorem alignLoop_eq_runFor (align fuel a : Nat) : alignLoop align fuel a = runFor (doubling align) (fuel + 1) a := by
  induction fuel generalizing a with
  | zero =>
    by_cases more : a < align
    · simp [alignLoop, runFor, doubling, more]
    · simp [alignLoop, runFor, doubling, more]
  | succ fuel ih =>
    rw [alignLoop, runFor]
    by_cases more : a < align
    · simp [doubling, more, ih]
    · simp [doubling, more]

/-- A word that a power of two up to 2^63 is doubled to: the next power, or 0. -/
theorem wshl_pow_le {k : Nat} (hk : k ≤ 63) : wshl (2 ^ k) 1 = 0 ∨ ∃ j ≤ 63, wshl (2 ^ k) 1 = 2 ^ j := by
  have step : wshl (2 ^ k) 1 = 2 ^ (k + 1) % 2 ^ 64 := by rw [wshl, ← Nat.pow_add]
  by_cases top : k = 63
  · left
    rw [step, top, Nat.mod_self]
  · right
    have below : 2 ^ (k + 1) < 2 ^ 64 := Nat.pow_lt_pow_right (by decide) (by omega)
    exact ⟨k + 1, by omega, by rw [step, Nat.mod_eq_of_lt below]⟩

/-- No power of two of 64 bits reaches an alignment past 2^63, so the loop doubles for ever. -/
theorem alignLoop_endless {align : Nat} (past : 2 ^ 63 < align) (fuel : Nat) : alignLoop align fuel ALIGN = none := by
  have keeps : ∀ a, (a = 0 ∨ ∃ k ≤ 63, a = 2 ^ k) → ∃ b, doubling align a = some b ∧ (b = 0 ∨ ∃ k ≤ 63, b = 2 ^ k) := by
    intro a word
    have small : a ≤ 2 ^ 63 := by
      rcases word with zero | ⟨k, hk, pow⟩
      · omega
      · rw [pow]
        exact Nat.pow_le_pow_right (by decide) hk
    refine ⟨wshl a 1, if_pos (by omega), ?_⟩
    rcases word with zero | ⟨k, hk, pow⟩
    · simp [zero, wshl]
    · rw [pow]
      exact wshl_pow_le hk
  have start : ALIGN = 0 ∨ ∃ k ≤ 63, ALIGN = 2 ^ k := Or.inr ⟨4, by decide, rfl⟩
  rw [alignLoop_eq_runFor]
  cases run : runFor (doubling align) (fuel + 1) ALIGN with
  | none => rfl
  | some a => exact absurd (mem_eval_of_runFor run) (endless keeps start)

/-- A 64-bit power of two is at most 2^63. -/
theorem power_le {align : Nat} (word : align < 2 ^ 64) (pow : align &&& (align - 1) = 0) : align ≤ 2 ^ 63 := by
  by_cases zero : align = 0
  · omega
  · obtain ⟨k, rfl⟩ := (Nat.and_sub_one_eq_zero_iff_isPowerOfTwo zero).mp pow
    have exponent := (Nat.pow_lt_pow_iff_right (by decide : 1 < 2)).mp word
    exact Nat.pow_le_pow_right (by decide) (by omega)

theorem normAlignFor_endless {align : Nat} (word : align < 2 ^ 64) (past : 2 ^ 63 < align) (fuel : Nat) :
    normAlignFor fuel align = none := by
  have odd : align &&& (align - 1) ≠ 0 := by
    intro pow
    have := power_le word pow
    omega
  have large : ¬ align < ALIGN := by
    unfold ALIGN
    omega
  simp only [normAlignFor, if_neg large, if_pos odd]
  exact alignLoop_endless past fuel

theorem roundedAlign_least {align : Nat} (small : align ≤ 2 ^ 63) : IsLeast (Candidates align) (roundedAlign align) := by
  have exponent : max 4 (Nat.clog 2 align) ≤ 63 := Nat.max_le.mpr ⟨by decide, clog_le small⟩
  constructor
  · refine ⟨⟨_, rfl⟩, ?_, Nat.max_le.mpr ⟨le_roundedAlign align, sixteen_le_roundedAlign align⟩⟩
    exact Nat.pow_lt_pow_right (by decide) (by omega)
  · rintro p ⟨⟨k, rfl⟩, -, large⟩
    obtain ⟨reaches, sixteen⟩ := Nat.max_le.mp large
    have four : 4 ≤ k := (Nat.pow_le_pow_iff_right (a := 2) (by decide)).mp sixteen
    exact Nat.pow_le_pow_right (by decide) (Nat.max_le.mpr ⟨four, Nat.clog_le_of_le_pow reaches⟩)

theorem normalises_of_le {align : Nat} (small : align ≤ 2 ^ 63) : Normalises align :=
  Or.inl ⟨64, _, normAlign_eq small, roundedAlign_least small⟩

theorem not_normalises {align : Nat} (word : align < 2 ^ 64) (past : 2 ^ 63 < align) : ¬ Normalises align := by
  rintro (⟨fuel, a, ends, -⟩ | ⟨-, refused⟩)
  · rw [normAlignFor_endless word past fuel] at ends
    cases ends
  · obtain ⟨fuel, s', null⟩ := refused ⟨none, 0⟩ { mem := fun _ => 0 } 0
    simp [pxPoolAllocFor, normAlignFor_endless word past fuel] at null

/-- `px_pool_alloc` rounds an alignment as it should just when a 64-bit power of two reaches it. -/
theorem normalises_iff (align : UInt64) : Normalises align.toNat ↔ align.toNat ≤ 2 ^ 63 := by
  constructor
  · intro normalises
    by_contra past
    exact not_normalises align.toNat_lt (by omega) normalises
  · exact normalises_of_le

theorem memalign_never_returns :
    (∀ fuel env s n, pxPoolAllocFor fuel env s n (2 ^ 63 + 1) = none) ∧
    (∀ env s n, memalign env s (2 ^ 63 + 1) n = none) ∧ ¬ Normalises (2 ^ 63 + 1) := by
  have hangs (fuel : Nat) (env : Env) (s : State) (n : Nat) : pxPoolAllocFor fuel env s n (2 ^ 63 + 1) = none := by
    rw [pxPoolAllocFor, normAlignFor_endless (by decide) (by decide)]
  refine ⟨hangs, ?_, not_normalises (by decide) (by decide)⟩
  intro env s n
  rw [memalign, alignedAlloc, ← pxPoolAllocFor_eq, hangs]
  rfl

/-- `memalign` and `aligned_alloc` pass on what they are given; `posix_memalign` only what can be rounded. -/
theorem posixMemalign_normalises {env : Env} {s : State} {n : Nat} (align : UInt64)
    (accepted : posixMemalign env s align.toNat n ≠ some ⟨0, s, [], some .einval⟩) : Normalises align.toNat := by
  apply normalises_of_le
  apply power_le align.toNat_lt
  by_contra pow
  exact accepted (if_pos (Or.inr pow))

end Parallax.Shim
