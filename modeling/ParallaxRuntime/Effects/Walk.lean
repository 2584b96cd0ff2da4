import Mathlib.Computability.StateTransition
import Mathlib.Data.Set.Finite.Basic
import Mathlib.Data.Fintype.EquivFin

/-!
# Loops

One turn of a loop gives the next state, or nothing when the loop ends. A loop whose turns can
be undone never visits a state twice, so among finitely many states it ends, unless it comes
back to where it started.
-/

namespace Parallax.Effects
open StateTransition

section
variable {σ : Type*} {f : σ → Option σ} {a b : σ}

/-- The state in which the loop ends, if it takes fewer than `fuel` turns. -/
def runFor (f : σ → Option σ) : Nat → σ → Option σ
  | 0, _ => none
  | fuel + 1, a =>
    match f a with
    | none => some a
    | some b => runFor f fuel b

theorem mem_eval_of_runFor {fuel : Nat} (run : runFor f fuel a = some b) : b ∈ eval f a := by
  induction fuel generalizing a with
  | zero => cases run
  | succ fuel ih =>
    cases turn : f a with
    | none =>
      simp only [runFor, turn] at run
      cases run
      exact mem_eval.mpr ⟨.refl, turn⟩
    | some c =>
      simp only [runFor, turn] at run
      rw [reaches_eval (.single turn)]
      exact ih run

theorem reaches_invariant {I : σ → Prop} (keeps : ∀ a b, I a → f a = some b → I b) (reach : Reaches f a b) (h : I a) :
    I b := by
  induction reach with
  | refl => exact h
  | tail _ turn ih => exact keeps _ _ ih turn

/-- A loop with an invariant under which there always is another turn does not end. -/
theorem endless {I : σ → Prop} (keeps : ∀ a, I a → ∃ b, f a = some b ∧ I b) (h : I a) : b ∉ eval f a := by
  intro ends
  obtain ⟨reach, last⟩ := mem_eval.mp ends
  have here : I b := by
    apply reaches_invariant _ reach h
    intro a b ha turn
    obtain ⟨c, same, hc⟩ := keeps a ha
    rw [turn] at same
    cases same
    exact hc
  obtain ⟨c, turn, -⟩ := keeps b here
  rw [last] at turn
  cases turn

/-- On the finitely many states that it reaches, a loop that does not end permutes them. -/
theorem ends_of_injective (finite : {a | Reaches f b a}.Finite) (undo : ∀ x y z, f x = some z → f y = some z → x = y)
    (once : ∀ a, Reaches f b a → f a ≠ some b) : ∃ a, a ∈ eval f b := by
  by_contra endless
  have goes : ∀ x : {a // Reaches f b a}, ∃ y : {a // Reaches f b a}, f x.1 = some y.1 := by
    intro x
    cases turn : f x.1 with
    | none => exact absurd ⟨x.1, mem_eval.mpr ⟨x.2, turn⟩⟩ endless
    | some y => exact ⟨⟨y, x.2.tail turn⟩, rfl⟩
  choose step turn using goes
  have states : Finite {a // Reaches f b a} := finite.to_subtype
  have injective : Function.Injective step := by
    intro x y same
    apply Subtype.ext
    apply undo x.1 y.1 (step x).1 (turn x)
    rw [same]
    exact turn y
  obtain ⟨x, last⟩ := Finite.surjective_of_injective injective ⟨b, .refl⟩
  apply once x.1 x.2
  rw [turn x, last]

end

end Parallax.Effects
