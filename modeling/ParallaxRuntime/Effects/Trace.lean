import Mathlib.Init

/-!
# Runs of a step relation

A run keeps the state before each event, so that a property may be asked of every step of it.
-/

namespace Parallax.Effects

inductive Trace {σ ε : Type} (step : σ → ε → σ → Prop) (start : σ) : List (σ × ε) → σ → Prop
  | start : Trace step start [] start
  | next {steps : List (σ × ε)} {s s' : σ} {e : ε} (run : Trace step start steps s) (moved : step s e s') :
      Trace step start (steps ++ [(s, e)]) s'

variable {σ ε : Type} {step : σ → ε → σ → Prop} {start s : σ} {steps : List (σ × ε)}

theorem Trace.invariant {I : σ → Prop} (run : Trace step start steps s) (first : I start)
    (keeps : ∀ t e t', (t, e) ∈ steps → I t → step t e t' → I t') : I s := by
  induction run with
  | start => exact first
  | @next steps t t' e run moved ih =>
    apply keeps t e t' (List.mem_append_right _ (List.mem_singleton_self _)) _ moved
    exact ih fun t e t' here => keeps t e t' (List.mem_append_left _ here)

theorem Trace.along {I : σ → Prop} (run : Trace step start steps s) (first : I start)
    (keeps : ∀ t e t', (t, e) ∈ steps → I t → step t e t' → I t') : ∀ t ∈ steps, I t.1 := by
  induction run with
  | start => simp
  | @next steps t t' e run moved ih =>
    have keeps' : ∀ t e t', (t, e) ∈ steps → I t → step t e t' → I t' :=
      fun t e t' here => keeps t e t' (List.mem_append_left _ here)
    intro u here
    rcases List.mem_append.mp here with earlier | last
    · exact ih keeps' u earlier
    · rw [List.mem_singleton.mp last]
      exact run.invariant first keeps'

theorem Trace.moved (run : Trace step start steps s) {t : σ} {e : ε} (here : (t, e) ∈ steps) : ∃ t', step t e t' := by
  induction run with
  | start => cases here
  | @next steps u u' e' run moved ih =>
    rcases List.mem_append.mp here with earlier | last
    · exact ih earlier
    · cases List.mem_singleton.mp last
      exact ⟨u', moved⟩

end Parallax.Effects
