import Mathlib.Data.List.Nodup
import ParallaxRuntime.Memory.Codec

/-!
# Steps in any order

A dispatch runs its workgroups, or its invocations, one after another in an order
that nobody knows. What holds after it is proved by an invariant over the steps done.
-/

namespace Parallax.Kernel
open Memory

variable {ι μ : Type}

def runAll (f : ι → μ → μ) (l : List ι) (m : μ) : μ := l.foldl (fun m i => f i m) m

/-- `m'` comes from `m` by the steps `0 … n - 1`, each once. -/
def InAnyOrder (n : Nat) (f : Nat → μ → μ) (m m' : μ) : Prop :=
  ∃ l : List Nat, l.Perm (List.range n) ∧ m' = runAll f l m

theorem runAll_invariant {f : ι → μ → μ} {P : List ι → μ → Prop} {l : List ι} (nodup : l.Nodup) {m : μ}
    (start : P [] m) (step : ∀ done i m, i ∈ l → i ∉ done → P done m → P (i :: done) (f i m)) :
    P l.reverse (runAll f l m) := by
  suffices h : ∀ done m, (∀ i ∈ l, i ∉ done) → P done m → P (l.reverse ++ done) (runAll f l m) by
    simpa using h [] m (by simp) start
  clear start
  induction l with
  | nil => exact fun done m _ h => h
  | cons i l ih =>
    intro done m fresh h
    obtain ⟨hi, nodup⟩ := List.nodup_cons.mp nodup
    rw [List.reverse_cons, List.append_assoc]
    refine ih nodup (fun done j m hj => step done j m (List.mem_cons_of_mem i hj)) (i :: done) (f i m) ?_ ?_
    · intro j hj
      simp only [List.mem_cons, not_or]
      exact ⟨fun same => hi (same ▸ hj), fresh j (List.mem_cons_of_mem i hj)⟩
    · exact step done i m List.mem_cons_self (fresh i List.mem_cons_self) h

/-- An invariant over the set of steps done holds for all of them at the end. -/
theorem InAnyOrder.invariant {n : Nat} {f : Nat → μ → μ} {m m' : μ} (h : InAnyOrder n f m m')
    {P : (Nat → Prop) → μ → Prop} (start : P (fun _ => False) m)
    (step : ∀ done i m, i < n → ¬ done i → P done m → P (fun j => j = i ∨ done j) (f i m)) :
    P (fun i => i < n) m' := by
  obtain ⟨l, perm, rfl⟩ := h
  have inv := runAll_invariant (P := fun done m => P (fun i => i ∈ done) m)
    (perm.nodup_iff.mpr List.nodup_range) (m := m) (by simpa using start) fun done i m hi fresh h => by
      simpa using step (· ∈ done) i m (List.mem_range.mp (perm.mem_iff.mp hi)) fresh h
  have mem : ∀ i, i ∈ l.reverse ↔ i < n := fun i => by
    rw [List.mem_reverse, perm.mem_iff, List.mem_range]
  simpa only [mem] using inv

/-- Steps that never change a cell leave it alone. -/
theorem runAll_frame {β : Type} {f : ι → (Nat → β) → Nat → β} {l : List ι} {m : Nat → β} {a : Nat}
    (same : ∀ i ∈ l, ∀ m, f i m a = m a) : runAll f l m a = m a := by
  induction l generalizing m with
  | nil => rfl
  | cons i l ih =>
    exact (ih fun j hj => same j (List.mem_cons_of_mem i hj)).trans (same i List.mem_cons_self m)

theorem InAnyOrder.exists_run (n : Nat) (f : Nat → μ → μ) (m : μ) : ∃ m', InAnyOrder n f m m' :=
  ⟨_, List.range n, List.Perm.refl _, rfl⟩

/-! ### Lanes that store one element each -/

section Store
variable {β α : Type} {c : Codec β α} {p : Nat} {P : Nat → Prop} [DecidablePred P] {index : Nat → Nat} {val : Nat → α}

/-- Lane `t` stores its value, if it is active. -/
def storeLane (c : Codec β α) (p : Nat) (P : Nat → Prop) [DecidablePred P] (index : Nat → Nat) (val : Nat → α)
    (t : Nat) (m : Nat → β) : Nat → β :=
  if P t then c.put m p (index t) (val t) else m

theorem storeLanes_get (P : Nat → Prop) [DecidablePred P] (val : Nat → α) {l : List Nat} {m : Nat → β} (nodup : l.Nodup)
    (inj : ∀ s t, index s = index t → s = t) (i : Nat) :
    (∀ t ∈ l, P t → index t = i → c.get (runAll (storeLane c p P index val) l m) p i = val t) ∧
    ((∀ t ∈ l, P t → index t ≠ i) → c.get (runAll (storeLane c p P index val) l m) p i = c.get m p i) := by
  induction l generalizing m with
  | nil => exact ⟨by simp, fun _ => rfl⟩
  | cons s l ih =>
    obtain ⟨fresh, nodup⟩ := List.nodup_cons.mp nodup
    obtain ⟨hit, miss⟩ := ih (m := storeLane c p P index val s m) nodup
    constructor
    · intro t ht act same
      rcases List.mem_cons.mp ht with rfl | ht
      · have others : ∀ u ∈ l, P u → index u ≠ i := fun u hu _ eq => fresh (inj u t (eq.trans same.symm) ▸ hu)
        change c.get (runAll _ l _) p i = val t
        rw [miss others, storeLane, if_pos act, same, Codec.get_put_same]
      · exact hit t ht act same
    · intro none
      change c.get (runAll _ l _) p i = c.get m p i
      rw [miss fun t ht => none t (List.mem_cons_of_mem s ht), storeLane]
      split
      · next act => exact Codec.get_put_of_ne fun same => none s List.mem_cons_self act same.symm
      · rfl

theorem storeLanes_outside {l : List Nat} {m : Nat → β} {a n : Nat} (bound : ∀ t ∈ l, P t → index t < n)
    (outside : ¬ c.Covers p n a) : runAll (storeLane c p P index val) l m a = m a :=
  runAll_frame fun t ht m => by
    unfold storeLane
    split
    · next act => exact Codec.put_not_covers (bound t ht act) outside
    · rfl

end Store

end Parallax.Kernel
