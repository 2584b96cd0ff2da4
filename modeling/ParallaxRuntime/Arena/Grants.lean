import Mathlib.Logic.Relation
import ParallaxRuntime.Arena.Legacy

/-!
# What an arena can still hand out

Between two requests a caller may write its memory, which decides nothing about the next one
in an arena that can serve both.
-/

namespace Parallax.Arena

section
variable {β : Type} {A : ArenaModel β} {s t u : A.State} {sizes : List Nat}

/-- `t` comes from `s` by writes to callers' memory. -/
def ArenaModel.Rewritten (A : ArenaModel β) : A.State → A.State → Prop :=
  Relation.ReflTransGen fun s t => ∃ m, (∀ a, ¬ A.Usable (A.live s) a → m a = A.mem s a) ∧ t = A.setMem s m

/-- Blocks of these sizes can be handed out one after the other, whatever is written in between. -/
def ArenaModel.Grants (A : ArenaModel β) : List Nat → A.State → Prop
  | [], _ => True
  | size :: sizes, s => ∀ t, A.Rewritten s t → ∃ p t', A.Allocates t size 256 p t' ∧ p ≠ 0 ∧ A.Grants sizes t'

theorem ArenaModel.Rewritten.of_write {m : Nat → β} (outside : ∀ a, ¬ A.Usable (A.live s) a → m a = A.mem s a) :
    A.Rewritten s (A.setMem s m) := .single ⟨m, outside, rfl⟩

theorem ArenaModel.Grants.rewritten (h : A.Grants sizes s) (wrote : A.Rewritten s t) : A.Grants sizes t := by
  cases sizes with
  | nil => exact h
  | cons size sizes => exact fun u later => h u (wrote.trans later)

end

namespace Legacy
variable {β : Type} {c : Config} {base_pos : 0 < c.hostBase} {cap : c.capacity < 2 ^ 62} {sizes : List Nat}

/-- The requests one after the other. -/
def grants (c : Config) : List Nat → State → Bool
  | [], _ => true
  | size :: sizes, s => (allocate c s size 256).1 ≠ 0 && grants c sizes (allocate c s size 256).2

theorem rewritten_alloc {s t : (arena β c base_pos cap).State} (h : (arena β c base_pos cap).Rewritten s t) : t.1 = s.1 := by
  induction h with
  | refl => rfl
  | tail _ last ih =>
    obtain ⟨m, -, rfl⟩ := last
    exact ih

/-- The arena's own blocks are kept apart from the memory, so that writes do not matter. -/
theorem grants_iff {s : (arena β c base_pos cap).State} : (arena β c base_pos cap).Grants sizes s ↔ grants c sizes s.1 = true := by
  induction sizes generalizing s with
  | nil => simp [ArenaModel.Grants, grants]
  | cons size sizes ih =>
    simp only [grants, Bool.and_eq_true, decide_eq_true_eq]
    constructor
    · intro h
      obtain ⟨p, t, ⟨result, -⟩, nonnull, rest⟩ := h s .refl
      rw [result]
      exact ⟨nonnull, ih.mp rest⟩
    · rintro ⟨nonnull, rest⟩ t wrote
      refine ⟨_, ((allocate c s.1 size 256).2, t.2), ⟨?_, rfl⟩, nonnull, ih.mpr rest⟩
      rw [rewritten_alloc wrote]

end Legacy

end Parallax.Arena
