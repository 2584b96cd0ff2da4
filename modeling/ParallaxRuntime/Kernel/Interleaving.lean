import Mathlib.Data.Fintype.EquivFin
import ParallaxRuntime.Effects.Footprints
import ParallaxRuntime.Kernel.Order

/-!
# Invocations that take turns

Programs that keep apart and take turns at every access end as if they had run one after the other, in any order.
-/

namespace Parallax.Kernel
open Effects

section
variable {κ : Type} {V : κ → Type} {n : Nat} {f : Nat → (∀ k, V k) → ∀ k, V k} {D W : Fin n → κ → Prop} {m m' w : ∀ k, V k}

theorem runAll_merged (own : ∀ i k, W i k → D i k) (apart : ∀ i j k, i ≠ j → W i k → ¬ D j k)
    (contained : ∀ i : Fin n, Contained (D i) (W i) (f i) m) {l : List (Fin n)} (nodup : l.Nodup)
    (same : ∀ i ∈ l, ∀ k, D i k → w k = m k) :
    (∀ i ∈ l, ∀ k, W i k → runAll (fun i : Fin n => f i) l w k = f i m k) ∧
    ∀ k, (∀ i ∈ l, ¬ W i k) → runAll (fun i : Fin n => f i) l w k = w k := by
  induction l generalizing w with
  | nil => exact ⟨fun _ no => absurd no List.not_mem_nil, fun _ _ => rfl⟩
  | cons i l ih =>
    obtain ⟨fresh, nodup⟩ := List.nodup_cons.mp nodup
    obtain ⟨seen, frame⟩ := contained i w (same i List.mem_cons_self)
    have other : ∀ j ∈ l, ∀ k, D j k → ¬ W i k := fun j hj k read wrote =>
      apart i j k (fun eq => fresh (eq ▸ hj)) wrote read
    obtain ⟨later, rest⟩ := ih nodup (w := f i w) fun j hj k read => by
      rw [frame k (other j hj k read), same j (List.mem_cons_of_mem i hj) k read]
    refine ⟨fun j hj k wrote => ?_, fun k none => ?_⟩
    · rcases List.mem_cons.mp hj with rfl | hj
      · have alone := rest k fun j' hj' wrote' => other j' hj' k (own j' k wrote') wrote
        exact alone.trans (seen k wrote)
      · exact later j hj k wrote
    · exact (rest k fun j hj => none j (List.mem_cons_of_mem i hj)).trans (frame k (none i List.mem_cons_self))

/-- Steps that keep apart, in any order, leave what each would write alone. -/
theorem inAnyOrder_merged (own : ∀ i k, W i k → D i k) (apart : ∀ i j k, i ≠ j → W i k → ¬ D j k)
    (contained : ∀ i : Fin n, Contained (D i) (W i) (f i) m) (run : InAnyOrder n f m m') :
    Merged W (fun i : Fin n => f i) m m' := by
  obtain ⟨l, perm, rfl⟩ := run
  have inside : ∀ i ∈ l, i < n := fun i hi => List.mem_range.mp (perm.mem_iff.mp hi)
  obtain ⟨l, rfl⟩ : ∃ l' : List (Fin n), l = l'.map Fin.val := ⟨l.pmap Fin.mk inside, by simp [List.map_pmap]⟩
  have nodup : l.Nodup := List.Nodup.of_map _ (perm.nodup_iff.mpr List.nodup_range)
  have all : ∀ i : Fin n, i ∈ l := fun i => by
    have here : i.val ∈ l.map Fin.val := perm.mem_iff.mpr (List.mem_range.mpr i.isLt)
    obtain ⟨j, hj, eq⟩ := List.mem_map.mp here
    exact Fin.ext eq ▸ hj
  have atomic : runAll f (l.map Fin.val) m = runAll (fun i : Fin n => f i) l m := List.foldl_map
  obtain ⟨each, frame⟩ := runAll_merged own apart contained nodup (w := m) fun _ _ _ _ => rfl
  rw [atomic]
  exact ⟨fun i k wrote => each i (all i) k wrote, fun k none => frame k fun i _ => none i⟩

end

section
variable {α : Type} {S : Sig} {κ : Type} {V : κ → Type} {C : Cells S κ V} {n : Nat} {f : Nat → (∀ k, V k) → ∀ k, V k}
  {D W : Fin n → κ → Prop} {m m' : ∀ k, V k}

/-- To take turns at every access is to run one after the other. -/
theorem interleaved_iff_inAnyOrder (main : Nat → Prog S α) (awake : ∀ o, C.waits o = false) (free : C.RaceFree D W (fun i => main i) m)
    (same : ∀ i < n, ∀ m, C.after (main i) m = f i m) :
    (∃ ps, Prog.Interleaved C.step (fun i : Fin n => main i) m ps m' ∧ Prog.Finished ps) ↔ InAnyOrder n f m m' := by
  have contained : ∀ i : Fin n, Contained (D i) (W i) (f i) m := fun i w seen => by
    rw [← same i i.isLt, ← same i i.isLt]
    exact free.contained i w seen
  have merges : Merged W (fun i : Fin n => C.after (main i)) m = Merged W (fun i : Fin n => f i) m := by
    unfold Merged
    simp only [same _ (Fin.isLt _)]
  constructor
  · rintro ⟨ps, run, ended⟩
    obtain ⟨-, merged⟩ := free.merged run (Cells.still_of_finished ended)
    rw [merges] at merged
    obtain ⟨m₁, order⟩ := InAnyOrder.exists_run n f m
    rwa [← (inAnyOrder_merged free.own free.apart contained order).unique merged] at order
  · intro order
    obtain ⟨ps, m₁, run, still⟩ := Cells.exists_still (C := C) (fun i : Fin n => main i) m
    obtain ⟨-, merged⟩ := free.merged run still
    rw [merges] at merged
    obtain rfl := (inAnyOrder_merged free.own free.apart contained order).unique merged
    refine ⟨ps, run, fun i => ?_⟩
    cases here : ps i with
    | ret a => exact ⟨a, rfl⟩
    | call o k =>
      have waits := still i o k here
      rw [awake o] at waits
      cases waits

end

end Parallax.Kernel
