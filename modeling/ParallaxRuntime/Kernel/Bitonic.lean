import Mathlib.Data.Fintype.Perm
import Mathlib.Data.List.FinRange
import Mathlib.Data.List.OfFn
import ParallaxRuntime.Kernel.BitonicNetwork
import ParallaxRuntime.Kernel.Order

/-!
# `bitonic.comp`

One dispatch compares and exchanges each pair of one stage; the invocations may run in
any order because only the lower index of a pair acts.
-/

namespace Parallax.Kernel
open Memory

variable {β α : Type} [LinearOrder α]

/-- An invocation of `bitonic.comp`. -/
def bitonicInvocation (c : Codec β α) (data count k j i : Nat) (m : Nat → β) : Nat → β :=
  if i ≥ count then m
  else
    let l := i ^^^ j
    if l > i ∧ l < count then
      let ascending : Bool := i &&& k = 0
      let a := c.get m data i
      let b := c.get m data l
      -- Out of order for the direction of this segment.
      if decide (a > b) = ascending then c.put (c.put m data i b) data l a else m
    else m

/-- The array of the first `n` elements at `data`. -/
def elements (c : Codec β α) (m : Nat → β) (data n : Nat) : List α := List.ofFn fun i : Fin n => c.get m data i

section
variable {c : Codec β α} {data n s t total i : Nat} {m m' : Nat → β}

theorem partner_back (i t : Nat) : (i ^^^ 2 ^ t) ^^^ 2 ^ t = i := by
  rw [Nat.xor_assoc, Nat.xor_self, Nat.xor_zero]

theorem partner_ne (i t : Nat) : i ^^^ 2 ^ t ≠ i := by
  have := Nat.two_pow_pos t
  rw [xor_two_pow]
  split
  · omega
  · next odd =>
    have : i ≠ 0 := fun zero => odd (by rw [zero, Nat.zero_div])
    omega

theorem lower_acts (hi : i < 2 ^ n) (ht : t < n) :
    min i (i ^^^ 2 ^ t) < 2 ^ n ∧ min i (i ^^^ 2 ^ t) / 2 ^ t % 2 = 0 := by
  have ne := partner_ne i t
  rcases Nat.lt_or_gt_of_ne ne with below | above
  · rw [Nat.min_eq_right below.le]
    exact ⟨partner_lt ht hi, (lt_xor_two_pow _ t).mp (by rwa [partner_back])⟩
  · rw [Nat.min_eq_left above.le]
    exact ⟨hi, (lt_xor_two_pow i t).mp above⟩

theorem partner_odd (low : i / 2 ^ t % 2 = 0) : ¬ (i ^^^ 2 ^ t) / 2 ^ t % 2 = 0 := fun even => by
  have up := (lt_xor_two_pow i t).mpr low
  have down := (lt_xor_two_pow _ t).mpr even
  rw [partner_back] at down
  omega

theorem compareExchange_low (x : Nat → α) (low : i / 2 ^ t % 2 = 0) :
    compareExchange (2 ^ s) (2 ^ t) x i =
      if i / 2 ^ s % 2 = 0 then min (x i) (x (i ^^^ 2 ^ t)) else max (x i) (x (i ^^^ 2 ^ t)) := by
  simp [compareExchange_eq, low]

theorem compareExchange_high (x : Nat → α) (ht : t < s) (low : i / 2 ^ t % 2 = 0) :
    compareExchange (2 ^ s) (2 ^ t) x (i ^^^ 2 ^ t) =
      if i / 2 ^ s % 2 = 0 then max (x i) (x (i ^^^ 2 ^ t)) else min (x i) (x (i ^^^ 2 ^ t)) := by
  rw [compareExchange_eq, partner_back, xor_two_pow_div ht]
  simp only [partner_odd low, false_iff]
  by_cases up : i / 2 ^ s % 2 = 0
  · simp [up, max_comm]
  · simp [up, min_comm]

theorem exchange_values (a b : α) (up : Prop) [Decidable up] :
    (if decide (a > b) = decide up then (b, a) else (a, b)) =
      (if up then min a b else max a b, if up then max a b else min a b) := by
  rcases lt_or_ge b a with above | below
  · by_cases dir : up
    · simp [above, above.le, dir]
    · simp [above, above.le, dir]
  · by_cases dir : up
    · simp [below, not_lt_of_ge below, dir]
    · simp [below, not_lt_of_ge below, dir]

theorem bitonicInvocation_idle (idle : ¬ (i < 2 ^ n ∧ i / 2 ^ t % 2 = 0)) :
    bitonicInvocation c data (2 ^ n) (2 ^ s) (2 ^ t) i m = m := by
  unfold bitonicInvocation
  split
  · rfl
  · next inside => exact if_neg fun act => idle ⟨by omega, (lt_xor_two_pow i t).mp act.1⟩

theorem bitonicInvocation_active (ht : t < n) (lt : i < 2 ^ n) (low : i / 2 ^ t % 2 = 0) :
    bitonicInvocation c data (2 ^ n) (2 ^ s) (2 ^ t) i m =
      if decide (c.get m data i > c.get m data (i ^^^ 2 ^ t)) = decide (i / 2 ^ s % 2 = 0) then
        c.put (c.put m data i (c.get m data (i ^^^ 2 ^ t))) data (i ^^^ 2 ^ t) (c.get m data i)
      else m := by
  unfold bitonicInvocation
  dsimp only
  rw [if_neg (by omega), if_pos ⟨(lt_xor_two_pow i t).mpr low, partner_lt ht lt⟩]
  simp only [and_two_pow_eq_zero]

/-- The lower index of a pair writes what the stage asks for, at both indices. -/
theorem bitonicInvocation_get (ht : t < s) (hs : s ≤ n) (lt : i < 2 ^ n) (low : i / 2 ^ t % 2 = 0) (i' : Nat) :
    c.get (bitonicInvocation c data (2 ^ n) (2 ^ s) (2 ^ t) i m) data i' =
      if i' = i ∨ i' = i ^^^ 2 ^ t then compareExchange (2 ^ s) (2 ^ t) (c.get m data) i' else c.get m data i' := by
  have values := exchange_values (c.get m data i) (c.get m data (i ^^^ 2 ^ t)) (i / 2 ^ s % 2 = 0)
  rw [← compareExchange_low _ low, ← compareExchange_high _ ht low] at values
  rw [bitonicInvocation_active (by omega) lt low]
  split at values
  · next swap =>
    obtain ⟨lower, upper⟩ := Prod.mk.inj values
    rw [if_pos swap, Codec.get_put, Codec.get_put]
    by_cases high : i' = i ^^^ 2 ^ t
    · rw [if_pos high, if_pos (Or.inr high), high, upper]
    · by_cases own : i' = i
      · rw [if_neg high, if_pos own, if_pos (Or.inl own), own, lower]
      · rw [if_neg high, if_neg own, if_neg (by simp [high, own])]
  · next stay =>
    obtain ⟨lower, upper⟩ := Prod.mk.inj values
    rw [if_neg stay]
    by_cases high : i' = i ^^^ 2 ^ t
    · rw [if_pos (Or.inr high), high, upper]
    · by_cases own : i' = i
      · rw [if_pos (Or.inl own), own, lower]
      · rw [if_neg (by simp [high, own])]

theorem bitonicInvocation_outside (ht : t < n) {a : Nat} (out : ¬ c.Covers data (2 ^ n) a) :
    bitonicInvocation c data (2 ^ n) (2 ^ s) (2 ^ t) i m a = m a := by
  by_cases act : i < 2 ^ n ∧ i / 2 ^ t % 2 = 0
  · rw [bitonicInvocation_active ht act.1 act.2]
    split
    · rw [Codec.put_not_covers (partner_lt ht act.1) out, Codec.put_not_covers act.1 out]
    · rfl
  · rw [bitonicInvocation_idle act]

theorem bitonicInvocation_perm (ht : t < n) :
    (elements c (bitonicInvocation c data (2 ^ n) (2 ^ s) (2 ^ t) i m) data (2 ^ n)).Perm (elements c m data (2 ^ n)) := by
  by_cases act : i < 2 ^ n ∧ i / 2 ^ t % 2 = 0
  · rw [bitonicInvocation_active ht act.1 act.2]
    split
    · have swapped := Equiv.Perm.ofFn_comp_perm (Equiv.swap ⟨i, act.1⟩ ⟨i ^^^ 2 ^ t, partner_lt ht act.1⟩)
        fun k : Fin (2 ^ n) => c.get m data k
      refine List.Perm.trans (List.Perm.of_eq ?_) swapped
      unfold elements
      congr 1
      funext k
      rw [Codec.get_put, Codec.get_put, Function.comp_apply, Equiv.swap_apply_def]
      simp only [Fin.ext_iff]
      have up : i < i ^^^ 2 ^ t := (lt_xor_two_pow i t).mpr act.2
      by_cases own : (k : Nat) = i
      · rw [if_neg (by omega), if_pos own, if_pos own]
      · by_cases high : (k : Nat) = i ^^^ 2 ^ t
        · rw [if_pos high, if_neg own, if_pos high]
        · rw [if_neg high, if_neg own, if_neg own, if_neg high]
    · exact List.Perm.refl _
  · rw [bitonicInvocation_idle act]

/-- A dispatch does one stage, whatever the order of its invocations. -/
theorem bitonic_spec (run : InAnyOrder total (bitonicInvocation c data (2 ^ n) (2 ^ s) (2 ^ t)) m m') (ht : t < s)
    (hs : s ≤ n) (enough : 2 ^ n ≤ total) :
    (∀ i < 2 ^ n, c.get m' data i = compareExchange (2 ^ s) (2 ^ t) (c.get m data) i) ∧
    (elements c m' data (2 ^ n)).Perm (elements c m data (2 ^ n)) ∧ ∀ a, ¬ c.Covers data (2 ^ n) a → m' a = m a := by
  have inv := run.invariant (P := fun done w =>
    (∀ i < 2 ^ n, (done (min i (i ^^^ 2 ^ t)) → c.get w data i = compareExchange (2 ^ s) (2 ^ t) (c.get m data) i) ∧
      (¬ done (min i (i ^^^ 2 ^ t)) → c.get w data i = c.get m data i)) ∧
    (elements c w data (2 ^ n)).Perm (elements c m data (2 ^ n)) ∧ ∀ a, ¬ c.Covers data (2 ^ n) a → w a = m a)
    ⟨fun i _ => ⟨fun no => no.elim, fun _ => rfl⟩, List.Perm.refl _, fun _ _ => rfl⟩
    fun done j w hj fresh ⟨elems, perm, frame⟩ => by
      refine ⟨fun i hi => ?_, (bitonicInvocation_perm (by omega)).trans perm, fun a out => ?_⟩
      · by_cases act : j < 2 ^ n ∧ j / 2 ^ t % 2 = 0
        · obtain ⟨lt, low⟩ := act
          have up : j < j ^^^ 2 ^ t := (lt_xor_two_pow j t).mpr low
          rw [bitonicInvocation_get ht hs lt low]
          by_cases pair : i = j ∨ i = j ^^^ 2 ^ t
          · -- The pair was not touched before, and is done now.
            have own : min i (i ^^^ 2 ^ t) = j := by
              rcases pair with rfl | rfl
              · exact Nat.min_eq_left up.le
              · rw [partner_back, Nat.min_eq_right up.le]
            rw [if_pos pair, own]
            refine ⟨fun _ => compareExchange_congr ?_ ?_, fun no => absurd (Or.inl rfl) no⟩
            · exact (elems i hi).2 (by rw [own]; exact fresh)
            · exact (elems _ (partner_lt (by omega) hi)).2 (by rw [partner_back, Nat.min_comm, own]; exact fresh)
          · have other : min i (i ^^^ 2 ^ t) ≠ j := fun own => pair (by
              rcases Nat.le_total i (i ^^^ 2 ^ t) with le | le
              · rw [Nat.min_eq_left le] at own
                exact Or.inl own
              · rw [Nat.min_eq_right le] at own
                exact Or.inr (by rw [← own, partner_back]))
            rw [if_neg pair]
            exact ⟨fun h => (elems i hi).1 (h.resolve_left other), fun h => (elems i hi).2 fun no => h (Or.inr no)⟩
        · rw [bitonicInvocation_idle act]
          have other : min i (i ^^^ 2 ^ t) ≠ j := fun own => act (own ▸ lower_acts hi (by omega))
          exact ⟨fun h => (elems i hi).1 (h.resolve_left other), fun h => (elems i hi).2 fun no => h (Or.inr no)⟩
      · rw [bitonicInvocation_outside (by omega) out, frame a out]
  obtain ⟨elems, perm, frame⟩ := inv
  refine ⟨fun i hi => (elems i hi).1 ?_, perm, frame⟩
  have := Nat.min_le_left i (i ^^^ 2 ^ t)
  omega

end

end Parallax.Kernel
