import ParallaxRuntime.Kernel.Order
import ParallaxRuntime.Kernel.Sums

/-!
# `reduce.comp`

A workgroup adds its 256 elements by halving, and lane 0 writes the total.
-/

namespace Parallax.Kernel
open Memory

variable {β M : Type} [AddCommMonoid M]

/-- One halving: the lanes below `s` add what lies `s` further. -/
def reduceRound (sdata : Nat → M) (s : Nat) : Nat → M := fun tid =>
  if tid < s then sdata tid + sdata (tid + s) else sdata tid

/-- `for (s = 128; s > 0; s >>= 1)` -/
def reduceStrides : List Nat := [128, 64, 32, 16, 8, 4, 2, 1]

def reduceLanes (sdata : Nat → M) : Nat → M := reduceStrides.foldl reduceRound sdata

/-- A workgroup of `reduce.comp`. -/
def reduceGroup (c : Codec β M) (indata partials count wg : Nat) (m : Nat → β) : Nat → β :=
  let sdata := reduceLanes fun tid => if wg * 256 + tid < count then c.get m indata (wg * 256 + tid) else 0
  c.put m partials wg (sdata 0)

theorem sum_reduceRound (s : Nat) (x : Nat → M) :
    ∑ i ∈ Finset.range s, reduceRound x s i = ∑ i ∈ Finset.range (2 * s), x i := by
  rw [← sum_halves]
  exact Finset.sum_congr rfl fun i hi => if_pos (Finset.mem_range.mp hi)

theorem reduceLanes_zero (x : Nat → M) : reduceLanes x 0 = ∑ i ∈ Finset.range 256, x i := by
  have last : reduceLanes x 0 = ∑ i ∈ Finset.range 1, reduceLanes x i := (Finset.sum_range_one _).symm
  rw [last]
  unfold reduceLanes reduceStrides
  simp only [List.foldl_cons, List.foldl_nil]
  -- Each round halves the range that carries the sum.
  rw [sum_reduceRound 1, sum_reduceRound 2, sum_reduceRound 4, sum_reduceRound 8, sum_reduceRound 16,
    sum_reduceRound 32, sum_reduceRound 64, sum_reduceRound 128]

variable {c : Codec β M} {indata partials count groups : Nat} {m m' : Nat → β}

theorem reduceGroup_get {wg k : Nat} :
    c.get (reduceGroup c indata partials count wg m) partials k =
      if k = wg then blockSum 256 (padded count (c.get m indata)) wg else c.get m partials k := by
  unfold reduceGroup
  rw [Codec.get_put]
  split
  · rw [reduceLanes_zero]
    rfl
  · rfl

/-- After `reduce.comp`, `partials` holds the sums of the blocks. -/
theorem reduce_spec (run : InAnyOrder groups (reduceGroup c indata partials count) m m')
    (apart : ∀ a, c.Covers indata count a → ¬ c.Covers partials groups a) :
    (∀ k < groups, c.get m' partials k = blockSum 256 (padded count (c.get m indata)) k) ∧
    ∀ a, ¬ c.Covers partials groups a → m' a = m a := by
  have inv := run.invariant (P := fun done w =>
    (∀ k < groups, done k → c.get w partials k = blockSum 256 (padded count (c.get m indata)) k) ∧
    ∀ a, ¬ c.Covers partials groups a → w a = m a)
    ⟨fun _ _ no => no.elim, fun _ _ => rfl⟩
    fun done wg w hg fresh ⟨totals, frame⟩ => by
      have input : padded count (c.get w indata) = padded count (c.get m indata) := funext fun i => by
        unfold padded
        split
        · next hi => exact Codec.get_frame hi fun a ha => frame a (apart a ha)
        · rfl
      refine ⟨fun k hk h => ?_, fun a out => ?_⟩
      · rw [reduceGroup_get, input]
        split
        · next same => rw [same]
        · next other => exact totals k hk (h.resolve_left other)
      · unfold reduceGroup
        rw [Codec.put_not_covers hg out, frame a out]
  exact ⟨fun k hk => inv.1 k hk hk, inv.2⟩

end Parallax.Kernel
