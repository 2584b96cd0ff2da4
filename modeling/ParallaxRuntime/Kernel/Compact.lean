import Mathlib.Algebra.BigOperators.Intervals
import Mathlib.Data.Nat.Count
import ParallaxRuntime.Kernel.Order

/-!
# `flags.comp` and `scatter.comp`

The flags of the elements that pass, and the scatter of these elements to the slots
that the inclusive scan of the flags gives.
-/

namespace Parallax.Kernel
open Memory

/-- The number type of flags and positions, exact up to some bound. -/
structure Positions (M : Type) [AddCommMonoid M] where
  ofNat : Nat →+ M
  toNat : M → Nat

variable {β α M : Type} [AddCommMonoid M]

/-- An invocation of `flags.comp`, with `pred` for its test. -/
def flagsInvocation (c : Codec β α) (pc : Codec β M) (pos : Positions M) (pred : α → Bool)
    (indata flags count i : Nat) (m : Nat → β) : Nat → β :=
  if i < count then pc.put m flags i (if pred (c.get m indata i) then pos.ofNat 1 else pos.ofNat 0) else m

/-- An invocation of `scatter.comp`. -/
def scatterInvocation (c : Codec β α) (pc : Codec β M) (pos : Positions M)
    (indata outdata positions count i : Nat) (m : Nat → β) : Nat → β :=
  if i ≥ count then m
  else
    let incl := pos.toNat (pc.get m positions i)
    let prev := if i > 0 then pos.toNat (pc.get m positions (i - 1)) else 0
    -- incl - prev > 0.5
    if 2 * incl > 2 * prev + 1 then c.put m outdata (incl - 1) (c.get m indata i) else m

/-! ### Counting -/

section Count
variable {γ : Type} {q : Nat → Bool} {f g : Nat → γ}

theorem sum_flags (pos : Positions M) (q : Nat → Bool) (n : Nat) :
    ∑ j ∈ Finset.range n, (if q j then pos.ofNat 1 else pos.ofNat 0) = pos.ofNat (Nat.count (q ·) n) := by
  induction n with
  | zero => simp
  | succ n ih =>
    rw [Finset.sum_range_succ, ih, Nat.count_succ, ← apply_ite, ← map_add]

/-- Slots filled in order of the counts hold the elements that pass, in their order. -/
theorem map_count (n : Nat) (h : ∀ i < n, q i = true → g (Nat.count (q ·) i) = f i) :
    (List.range (Nat.count (q ·) n)).map g = ((List.range n).filter q).map f := by
  induction n with
  | zero => simp
  | succ n ih =>
    have before := ih fun i hi => h i (by omega)
    rw [List.range_succ, List.filter_append, List.map_append, ← before, Nat.count_succ]
    cases pass : q n with
    | true => simp [List.range_succ, pass, h n (by omega) pass]
    | false => simp [pass]

end Count

/-! ### What the dispatches leave -/

section
variable {c : Codec β α} {pc : Codec β M} {pos : Positions M} {pred : α → Bool}
  {indata outdata flags positions count total : Nat} {m m' : Nat → β}

theorem flags_spec (run : InAnyOrder total (flagsInvocation c pc pos pred indata flags count) m m')
    (apart : ∀ a, c.Covers indata count a → ¬ pc.Covers flags count a) (enough : count ≤ total) :
    (∀ i < count, pc.get m' flags i = if pred (c.get m indata i) then pos.ofNat 1 else pos.ofNat 0) ∧
    ∀ a, ¬ pc.Covers flags count a → m' a = m a := by
  have inv := run.invariant (P := fun done w =>
    (∀ i < count, done i → pc.get w flags i = if pred (c.get m indata i) then pos.ofNat 1 else pos.ofNat 0) ∧
    ∀ a, ¬ pc.Covers flags count a → w a = m a)
    ⟨fun _ _ no => no.elim, fun _ _ => rfl⟩
    fun done j w hj fresh ⟨elems, frame⟩ => by
      unfold flagsInvocation
      split
      · next act =>
        refine ⟨fun i hi h => ?_, fun a out => ?_⟩
        · rw [Codec.get_put]
          split
          · next same => rw [same, Codec.get_frame act fun a ha => frame a (apart a ha)]
          · next other => exact elems i hi (h.resolve_left other)
        · rw [Codec.put_not_covers act out, frame a out]
      · next idle => exact ⟨fun i hi h => elems i hi (h.resolve_left (by omega)), frame⟩
  exact ⟨fun i hi => inv.1 i hi (by omega), inv.2⟩

theorem scatterInvocation_eq {q : Nat → Bool} {j : Nat}
    (scanned : ∀ i < count, pos.toNat (pc.get m positions i) = Nat.count (q ·) (i + 1)) :
    scatterInvocation c pc pos indata outdata positions count j m =
      if j < count ∧ q j = true then c.put m outdata (Nat.count (q ·) j) (c.get m indata j) else m := by
  unfold scatterInvocation
  by_cases lt : j < count
  · have prev : (if j > 0 then pos.toNat (pc.get m positions (j - 1)) else 0) = Nat.count (q ·) j := by
      split
      · next h => rw [scanned (j - 1) (by omega), show j - 1 + 1 = j by omega]
      · next h => rw [show j = 0 by omega, Nat.count_zero]
    rw [if_neg (by omega)]
    dsimp only
    rw [prev, scanned j lt, Nat.count_succ]
    by_cases pass : q j = true
    · rw [if_pos pass, if_pos (by omega), if_pos ⟨lt, pass⟩, Nat.add_sub_cancel]
    · rw [if_neg pass, if_neg (by omega), if_neg fun h => pass h.2]
  · rw [if_pos (by omega), if_neg fun h => lt h.1]

/-- The slot of an element that passes is the number of those before it. -/
theorem scatter_spec {q : Nat → Bool} (run : InAnyOrder total (scatterInvocation c pc pos indata outdata positions count) m m')
    (scanned : ∀ i < count, pos.toNat (pc.get m positions i) = Nat.count (q ·) (i + 1))
    (input : ∀ a, c.Covers indata count a → ¬ c.Covers outdata count a)
    (places : ∀ a, pc.Covers positions count a → ¬ c.Covers outdata count a) (enough : count ≤ total) :
    (∀ i < count, q i = true → c.get m' outdata (Nat.count (q ·) i) = c.get m indata i) ∧
    ∀ a, ¬ c.Covers outdata (Nat.count (q ·) count) a → m' a = m a := by
  have below : Nat.count (q ·) count ≤ count := Nat.count_le _
  have inv := run.invariant (P := fun done w =>
    (∀ i < count, done i → q i = true → c.get w outdata (Nat.count (q ·) i) = c.get m indata i) ∧
    ∀ a, ¬ c.Covers outdata (Nat.count (q ·) count) a → w a = m a)
    ⟨fun _ _ no => no.elim, fun _ _ => rfl⟩
    fun done j w hj fresh ⟨elems, frame⟩ => by
      have unread : ∀ a, ¬ c.Covers outdata count a → w a = m a := fun a out =>
        frame a fun h => out (Codec.covers_mono h below)
      have place : ∀ i < count, pos.toNat (pc.get w positions i) = Nat.count (q ·) (i + 1) := fun i hi => by
        rw [Codec.get_frame hi fun a ha => unread a (places a ha), scanned i hi]
      rw [scatterInvocation_eq place]
      split
      · next act =>
        obtain ⟨lt, pass⟩ := act
        have slot : Nat.count (q ·) j < Nat.count (q ·) count := Nat.count_strict_mono pass lt
        refine ⟨fun i hi h pass' => ?_, fun a out => ?_⟩
        · rw [Codec.get_put]
          split
          · next same =>
            rw [Nat.count_injective pass' pass same]
            exact Codec.get_frame lt fun a ha => unread a (input a ha)
          · next other => exact elems i hi (h.resolve_left fun same => other (by rw [same])) pass'
        · rw [Codec.put_not_covers slot out, frame a out]
      · next idle =>
        refine ⟨fun i hi h pass => elems i hi (h.resolve_left fun same => idle ?_) pass, frame⟩
        rw [← same]
        exact ⟨hi, pass⟩
  exact ⟨fun i hi => inv.1 i hi (by omega), inv.2⟩

end

end Parallax.Kernel
