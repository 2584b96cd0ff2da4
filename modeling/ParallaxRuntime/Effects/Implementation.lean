import ParallaxRuntime.Effects.Prog

/-!
# Operations that are programs

Each operation of one signature is carried out by a program over another. Where every
operation keeps a relation between the two machines, so does every program.
-/

namespace Parallax.Effects
namespace Prog

variable {S T : Sig} {α σ τ : Type}

/-- The program with each of its calls carried out. -/
def expand (impl : (o : S.Op) → Prog T (S.Res o)) : Prog S α → Prog T α
  | ret a => ret a
  | call o k => impl o >>= fun x => expand impl (k x)

/-- What `impl` does on one machine is what the operation does on the other. -/
def Implements (H : Handler S σ) (impl : (o : S.Op) → Prog T (S.Res o)) (H' : Handler T τ) (R : σ → τ → Prop) : Prop :=
  ∀ o s t, R s t → H.pre o s → (impl o).Ensures H' (fun x t' => ∃ s', H.step o s x s' ∧ R s' t') t

section
variable {H : Handler S σ} {H' : Handler T τ} {impl : (o : S.Op) → Prog T (S.Res o)} {R : σ → τ → Prop} {Q : α → σ → Prop}
  {p : Prog S α} {s : σ} {t : τ}

theorem Ensures.and_run (h : p.Ensures H Q s) : p.Ensures H (fun r s' => Q r s' ∧ p.Run H.step s r s') s := by
  induction p generalizing s with
  | ret a => exact ⟨h, rfl, rfl⟩
  | call o k ih =>
    refine ⟨h.1, fun x s₁ step => ?_⟩
    apply (ih x (h.2 x s₁ step)).mono
    intro r s' ⟨post, run⟩
    exact ⟨post, x, s₁, step, run⟩

theorem Ensures.expand (each : Implements H impl H' R) (h : p.Ensures H Q s) (rel : R s t) :
    (p.expand impl).Ensures H' (fun r t' => ∃ s', Q r s' ∧ R s' t') t := by
  induction p generalizing s t with
  | ret a => exact ⟨s, h, rel⟩
  | call o k ih =>
    apply (each o s t rel h.1).bind
    intro x t₁ ⟨s₁, step, rel₁⟩
    exact ih x (h.2 x s₁ step) rel₁

/-- Every run with the calls carried out is a run of the program itself. -/
theorem Ensures.expand_run (each : Implements H impl H' R) (h : p.Ensures H Q s) (rel : R s t) :
    (p.expand impl).Ensures H' (fun r t' => ∃ s', p.Run H.step s r s' ∧ R s' t') t := by
  apply (h.and_run.expand each rel).mono
  intro r t' ⟨s', ⟨_, run⟩, rel'⟩
  exact ⟨s', run, rel'⟩

end

end Prog
end Parallax.Effects
