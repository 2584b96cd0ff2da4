import ParallaxRuntime.Kernel.Order

/-!
# Kernels generated from a functor

One invocation applies the functor to one element, in place or from one array to another.
-/

namespace Parallax.Kernel
open Memory

variable {β α δ : Type}

def mapInvocation (c : Codec β α) (d : Codec β δ) (f : α → δ) (indata outdata count i : Nat) (m : Nat → β) : Nat → β :=
  if i < count then d.put m outdata i (f (c.get m indata i)) else m

theorem map_spec {c : Codec β α} {d : Codec β δ} {f : α → δ} {indata outdata count total : Nat} {m m' : Nat → β}
    (run : InAnyOrder total (mapInvocation c d f indata outdata count) m m')
    (apart : c.Pointwise indata d outdata count) (enough : count ≤ total) :
    (∀ i < count, d.get m' outdata i = f (c.get m indata i)) ∧ ∀ a, ¬ d.Covers outdata count a → m' a = m a := by
  have inv := run.invariant (P := fun done w =>
    (∀ i < count, (done i → d.get w outdata i = f (c.get m indata i)) ∧
      (¬ done i → c.get w indata i = c.get m indata i)) ∧
    ∀ a, ¬ d.Covers outdata count a → w a = m a)
    ⟨fun _ _ => ⟨fun no => no.elim, fun _ => rfl⟩, fun _ _ => rfl⟩
    fun done j w hj fresh ⟨elems, frame⟩ => by
      unfold mapInvocation
      split
      · next act =>
        refine ⟨fun i hi => ⟨fun h => ?_, fun h => ?_⟩, fun a out => ?_⟩
        · rw [Codec.get_put]
          split
          · next same => rw [same, (elems j act).2 fresh]
          · next other => exact (elems i hi).1 (h.resolve_left other)
        · rw [apart.get_put act hi fun same => h (Or.inl same.symm)]
          exact (elems i hi).2 fun no => h (Or.inr no)
        · rw [Codec.put_not_covers act out, frame a out]
      · next idle =>
        refine ⟨fun i hi => ⟨fun h => ?_, fun h => ?_⟩, frame⟩
        · exact (elems i hi).1 (h.resolve_left (by omega))
        · exact (elems i hi).2 fun no => h (Or.inr no)
  obtain ⟨elems, frame⟩ := inv
  exact ⟨fun i hi => (elems i hi).1 (by omega), frame⟩

end Parallax.Kernel
