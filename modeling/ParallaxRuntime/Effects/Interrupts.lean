import ParallaxRuntime.Effects.Prog
import Mathlib.Logic.Relation

/-!
# Programs that are interrupted

Before some of its operations a program can be interrupted by others, and these in turn. What
each of them guarantees when the others guarantee it holds at every depth.
-/

namespace Parallax.Effects

variable {S : Sig} {σ α : Type}

/-- Any number of the entries run, one after the other. -/
def Handler.Nested (H : Handler S σ) (entries : List (Prog S Unit)) : σ → σ → Prop :=
  Relation.ReflTransGen fun s t => ∃ p ∈ entries, p.Run H.step s () t

/-- The open operations are those before which the entries may run, interrupted in turn to the depth `n`. -/
def Handler.interrupted (H : Handler S σ) (opens : S.Op → Prop) (entries : List (Prog S Unit)) : Nat → Handler S σ
  | 0 => H
  | n + 1 =>
    { pre := fun o s => ∀ t, (t = s ∨ opens o ∧ (H.interrupted opens entries n).Nested entries s t) →
        H.pre o t ∧ (opens o → ∀ p ∈ entries, p.Ensures (H.interrupted opens entries n) (fun _ _ => True) t)
      step := fun o s x s' => ∃ t, (t = s ∨ opens o ∧ (H.interrupted opens entries n).Nested entries s t) ∧ H.step o t x s' }

/-- Open operations come in the states `I` only, and before them the state may go as `J` says. -/
def Handler.relying (H : Handler S σ) (opens : S.Op → Prop) (I : σ → Prop) (J : σ → σ → Prop) : Handler S σ where
  pre o s := (opens o → I s) ∧ ∀ t, (t = s ∨ opens o ∧ I t ∧ J s t) → H.pre o t
  step o s x s' := ∃ t, (t = s ∨ opens o ∧ I t ∧ J s t) ∧ H.step o t x s'

section
variable {H : Handler S σ} {opens : S.Op → Prop} {entries : List (Prog S Unit)} {I : σ → Prop} {J : σ → σ → Prop}

theorem Handler.Nested.guarantees {K : Handler S σ} (refl : ∀ s, J s s) (trans : ∀ s t u, J s t → J t u → J s u)
    (spec : ∀ p ∈ entries, ∀ s, I s → p.Ensures K (fun _ t => I t ∧ J s t) s) {s t : σ} (start : I s)
    (nested : K.Nested entries s t) : I t ∧ J s t := by
  induction nested with
  | refl => exact ⟨start, refl s⟩
  | tail _ step ih =>
    obtain ⟨p, entry, run⟩ := step
    obtain ⟨good, moved⟩ := (spec p entry _ ih.1).run run
    exact ⟨good, trans _ _ _ ih.2 moved⟩

/-- A machine that can answer every call can answer it with nothing before it. -/
theorem Handler.interrupted_progress {G : σ → Prop} (progress : ∀ o s, G s → H.pre o s → ∃ x s', H.step o s x s' ∧ G s')
    (n : Nat) (o : S.Op) (s : σ) (good : G s) (pre : (H.interrupted opens entries n).pre o s) :
    ∃ x s', (H.interrupted opens entries n).step o s x s' ∧ G s' := by
  cases n with
  | zero => exact progress o s good pre
  | succ n =>
    obtain ⟨x, s', step, good'⟩ := progress o s good (pre s (Or.inl rfl)).1
    exact ⟨x, s', ⟨s, Or.inl rfl, step⟩, good'⟩

/-- What holds whatever the others do holds if they do nothing. -/
theorem Prog.Ensures.alone {p : Prog S α} {Q : α → σ → Prop} {s : σ} (h : p.Ensures (H.relying opens I J) Q s) :
    p.Ensures H Q s := by
  have same : p.Ensures H (fun r t => ∃ s', Q r s' ∧ s' = t) s := h.transport (R := Eq)
    (by rintro o s _ rfl safe; exact safe.2 s (Or.inl rfl))
    (by rintro o s _ x t' rfl _ moved; exact ⟨t', ⟨s, Or.inl rfl, moved⟩, rfl⟩) rfl
  exact same.mono fun r t ⟨_, met, same⟩ => same ▸ met

/-- If each entry guarantees what it relies on, any program may rely on it. -/
theorem Prog.Ensures.interrupted (refl : ∀ s, J s s) (trans : ∀ s t u, J s t → J t u → J s u)
    (spec : ∀ p ∈ entries, ∀ s, I s → p.Ensures (H.relying opens I J) (fun _ t => I t ∧ J s t) s) (n : Nat)
    {p : Prog S α} {Q : α → σ → Prop} {s : σ} (h : p.Ensures (H.relying opens I J) Q s) :
    p.Ensures (H.interrupted opens entries n) Q s := by
  induction n generalizing α s with
  | zero => exact h.alone
  | succ n ih =>
    have nested : ∀ {o s t}, (opens o → I s) → (t = s ∨ opens o ∧ (H.interrupted opens entries n).Nested entries s t) →
        t = s ∨ opens o ∧ I t ∧ J s t := by
      rintro o s t good (same | ⟨opened, nested⟩)
      · exact Or.inl same
      · exact Or.inr ⟨opened, nested.guarantees refl trans (fun p entry s start => ih (spec p entry s start)) (good opened)⟩
    have same : p.Ensures (H.interrupted opens entries (n + 1)) (fun r t => ∃ s', Q r s' ∧ s' = t) s := h.transport (R := Eq)
      (by
        rintro o s _ rfl safe t moved
        have allowed := nested safe.1 moved
        refine ⟨safe.2 t allowed, fun opened p entry => ?_⟩
        have good : I t := by
          rcases allowed with rfl | ⟨_, good, _⟩
          · exact safe.1 opened
          · exact good
        exact (ih (spec p entry t good)).mono fun _ _ _ => trivial)
      (by
        rintro o s _ x t' rfl safe ⟨t, moved, step⟩
        exact ⟨t', ⟨t, nested safe.1 moved, step⟩, rfl⟩) rfl
    exact same.mono fun r t ⟨_, met, same⟩ => same ▸ met

/-- An operation that is not open, or that comes in a state that the others leave as it is. -/
theorem ensures_relying {o : S.Op} {f : S.Res o → Prog S α} {Q : α → σ → Prop} {s : σ} (good : opens o → I s)
    (still : opens o → ∀ t, I t → J s t → t = s) (pre : H.pre o s)
    (rest : ∀ x s', H.step o s x s' → (f x).Ensures (H.relying opens I J) Q s') :
    (Prog.op o >>= f).Ensures (H.relying opens I J) Q s := by
  have stays : ∀ t, (t = s ∨ opens o ∧ I t ∧ J s t) → t = s := by
    rintro t (same | ⟨opened, there, moved⟩)
    · exact same
    · exact still opened t there moved
  refine ⟨⟨good, fun t moved => ?_⟩, fun x s' ⟨t, moved, step⟩ => ?_⟩
  · rw [stays t moved]
    exact pre
  · rw [stays t moved] at step
    exact rest x s' step

/-- A part that works on a piece of the state while the others leave all of it as it is. -/
theorem Prog.Ensures.quiet {T : Sig} {τ : Type} {K : Handler T τ} {h : Sig.Hom T S} {f : τ → σ} {p : Prog T α}
    {Q : α → τ → Prop} {w : τ} (safe : p.Ensures K Q w) (good : ∀ w, I (f w)) (still : ∀ w u, J (f w) u → u = f w)
    (pre : ∀ o w, K.pre o w → H.pre (h.op o) (f w))
    (step : ∀ o w x s, H.step (h.op o) (f w) x s → ∃ w', K.step o w (h.res o x) w' ∧ s = f w') :
    (p.embed h).Ensures (H.relying opens I J) (fun r s => ∃ w', Q r w' ∧ s = f w') (f w) := by
  have same : ∀ {o : S.Op} {w u}, (u = f w ∨ opens o ∧ I u ∧ J (f w) u) → u = f w := by
    rintro o w u (same | ⟨_, _, moved⟩)
    · exact same
    · exact still w u moved
  refine safe.embed (R := fun w u => u = f w) ?_ ?_ rfl
  · rintro o w _ rfl allowed
    refine ⟨fun _ => good w, fun u moved => ?_⟩
    rw [same moved]
    exact pre o w allowed
  · rintro o w _ x s rfl _ ⟨u, moved, next⟩
    rw [same moved] at next
    exact step o w x s next

end

end Parallax.Effects
