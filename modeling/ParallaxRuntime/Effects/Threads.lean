import Mathlib.Data.Finite.Defs
import Mathlib.Logic.Function.Basic
import ParallaxRuntime.Effects.Prog

/-!
# Threads

Parties that take turns over one state, one step at a time and in any order, and programs that do, one call
at a time.
-/

namespace Parallax.Effects
open Function

section
variable {ι σ A : Type} [DecidableEq ι]

/-- The parties can take turns until the second family is left of them. -/
inductive Turns (step : ι → A → σ → A → σ → Prop) : (ι → A) → σ → (ι → A) → σ → Prop where
  | refl (as s) : Turns step as s as s
  | turn {as s as' s' i a s₁} (moved : step i (as i) s a s₁) (rest : Turns step (update as i a) s₁ as' s') :
    Turns step as s as' s'

/-- What one party can do alone. -/
inductive Alone (step : A → σ → A → σ → Prop) : A → σ → A → σ → Prop where
  | refl (a s) : Alone step a s a s
  | step {a s a₁ s₁ a' s'} (moved : step a s a₁ s₁) (rest : Alone step a₁ s₁ a' s') : Alone step a s a' s'

variable {step : ι → A → σ → A → σ → Prop} {as as' as'' : ι → A} {s s' s'' : σ}

theorem Turns.trans (h : Turns step as s as' s') (h' : Turns step as' s' as'' s'') : Turns step as s as'' s'' := by
  induction h with
  | refl as s => exact h'
  | turn moved rest ih => exact .turn moved (ih h')

theorem Alone.trans {step : A → σ → A → σ → Prop} {a a' a'' : A} (h : Alone step a s a' s') (h' : Alone step a' s' a'' s'') :
    Alone step a s a'' s'' := by
  induction h with
  | refl a s => exact h'
  | step moved rest ih => exact .step moved (ih h')

/-- One party goes on while the others wait. -/
theorem Alone.turns {i : ι} {a a' : A} (h : Alone (step i) a s a' s') (here : as i = a) : Turns step as s (update as i a') s' := by
  induction h generalizing as with
  | refl a s =>
    rw [← here, update_eq_self]
    exact .refl as s
  | @step a s a₁ s₁ a' s' moved rest ih =>
    have later := ih (update_self i a₁ as)
    rw [update_idem] at later
    exact .turn (here ▸ moved) later

/-- If each party can always go on alone until it is done, all can be. -/
theorem Turns.exists_done [Finite ι] (good : (ι → A) → σ → Prop) (done : A → Prop)
    (goes : ∀ as s i, good as s → ∃ a s', Alone (step i) (as i) s a s' ∧ done a ∧ good (update as i a) s') (start : good as s) :
    ∃ as' s', Turns step as s as' s' ∧ ∀ i, done (as' i) := by
  obtain ⟨n, ⟨e⟩⟩ := Finite.exists_equiv_fin ι
  have upTo : ∀ m, ∃ as' s', Turns step as s as' s' ∧ good as' s' ∧ ∀ i, (e i).val < m → done (as' i) := by
    intro m
    induction m with
    | zero => exact ⟨as, s, .refl as s, start, fun _ no => absurd no (Nat.not_lt_zero _)⟩
    | succ m ih =>
      obtain ⟨as₁, s₁, run₁, good₁, done₁⟩ := ih
      by_cases more : m < n
      · obtain ⟨a, s₂, alone, ended, good₂⟩ := goes as₁ s₁ (e.symm ⟨m, more⟩) good₁
        refine ⟨_, s₂, run₁.trans (alone.turns rfl), good₂, fun i lt => ?_⟩
        by_cases same : i = e.symm ⟨m, more⟩
        · rw [same, update_self]
          exact ended
        · have ne : (e i).val ≠ m := fun eq => same (by rw [← e.symm_apply_apply i, Fin.ext eq (b := ⟨m, more⟩)])
          rw [update_of_ne same]
          exact done₁ i (by omega)
      · exact ⟨as₁, s₁, run₁, good₁, fun i _ => done₁ i (by omega)⟩
  obtain ⟨as', s', run, -, ended⟩ := upTo n
  exact ⟨as', s', run, fun i => ended i (e i).isLt⟩

end

/-! ### Programs -/

namespace Prog

variable {S T : Sig} {ι α σ τ : Type} [DecidableEq ι]

/-- A program's next call. -/
def moves (step : Step S σ) (p : Prog S α) (s : σ) (p' : Prog S α) (s' : σ) : Prop :=
  ∃ o k x, p = call o k ∧ step o s x s' ∧ p' = k x

/-- The programs can take turns until the second family is left of them. -/
abbrev Interleaved (step : Step S σ) : (ι → Prog S α) → σ → (ι → Prog S α) → σ → Prop := Turns fun _ => moves step

/-- In whatever order the programs take turns, every call is made where it may be. -/
def AllSafe (H : Handler S σ) (ps : ι → Prog S α) (s : σ) : Prop :=
  ∀ ps' s', Interleaved H.step ps s ps' s' → ∀ i o k, ps' i = call o k → H.pre o s'

def Finished (ps : ι → Prog S α) : Prop := ∀ i, ∃ a, ps i = ret a

section
variable {H : Handler S σ} {ps ps' : ι → Prog S α} {s s' : σ}

theorem Interleaved.turn {step : Step S σ} {i : ι} {o : S.Op} {k : S.Res o → Prog S α} {x : S.Res o} {s₁ : σ} (next : ps i = call o k)
    (moved : step o s x s₁) (rest : Interleaved step (update ps i (k x)) s₁ ps' s') : Interleaved step ps s ps' s' :=
  Turns.turn ⟨o, k, x, next, moved, rfl⟩ rest

theorem AllSafe.pre (h : AllSafe H ps s) {i : ι} {o : S.Op} {k : S.Res o → Prog S α} (next : ps i = call o k) : H.pre o s :=
  h ps s (.refl ps s) i o k next

theorem AllSafe.later (h : AllSafe H ps s) (run : Interleaved H.step ps s ps' s') : AllSafe H ps' s' :=
  fun ps'' s'' run' => h ps'' s'' (run.trans run')

theorem AllSafe.turn (h : AllSafe H ps s) {i : ι} {o : S.Op} {k : S.Res o → Prog S α} {x : S.Res o} {s₁ : σ}
    (next : ps i = call o k) (moved : H.step o s x s₁) : AllSafe H (update ps i (k x)) s₁ :=
  h.later (.turn next moved (.refl _ _))

/-- One program can be run to its end while the others wait. -/
theorem AllSafe.run_one (progress : ∀ o s, H.pre o s → ∃ x s₁, H.step o s x s₁) (h : AllSafe H ps s) (i : ι) :
    ∃ p s', Alone (moves H.step) (ps i) s p s' ∧ (∃ a, p = ret a) ∧ AllSafe H (update ps i p) s' := by
  generalize here : ps i = p
  induction p generalizing ps s with
  | ret a => exact ⟨ret a, s, .refl _ s, ⟨a, rfl⟩, by rwa [← here, update_eq_self]⟩
  | call o k ih =>
    obtain ⟨x, s₁, moved⟩ := progress o s (h.pre here)
    obtain ⟨p, s', run, ended, safe⟩ := ih x (h.turn here moved) (update_self i (k x) ps)
    rw [update_idem] at safe
    exact ⟨p, s', .step ⟨o, k, x, rfl, moved, rfl⟩ run, ended, safe⟩

/-- The programs can be run to their ends. -/
theorem AllSafe.exists_finished [Finite ι] (progress : ∀ o s, H.pre o s → ∃ x s₁, H.step o s x s₁) (h : AllSafe H ps s) :
    ∃ ps' s', Interleaved H.step ps s ps' s' ∧ Finished ps' :=
  Turns.exists_done (AllSafe H) (fun p => ∃ a, p = ret a) (fun _ _ i safe => safe.run_one progress i) h

/-! ### Assertions -/

/-- What is asserted of each program's rest: its own calls lead from one assertion to the next, and no call of another
program disturbs it. -/
structure Undisturbed (H : Handler S σ) (J : σ → Prop) (P : ι → Prog S α → σ → Prop) : Prop where
  pre : ∀ {i o k s}, P i (call o k) s → H.pre o s
  own : ∀ {i o k s x s₁}, P i (call o k) s → H.step o s x s₁ → P i (k x) s₁
  other : ∀ {i j o k s x s₁ q}, P i (call o k) s → H.step o s x s₁ → j ≠ i → P j q s → P j q s₁
  keeps : ∀ {i o k s x s₁}, P i (call o k) s → H.step o s x s₁ → J s → J s₁

variable {J : σ → Prop} {P : ι → Prog S α → σ → Prop}

theorem Undisturbed.interleaved (h : Undisturbed H J P) (run : Interleaved H.step ps s ps' s') (start : ∀ i, P i (ps i) s) (all : J s) :
    (∀ i, P i (ps' i) s') ∧ J s' := by
  induction run with
  | refl ps s => exact ⟨start, all⟩
  | @turn ps s ps' s' i _ s₁ turned rest ih =>
    obtain ⟨o, k, x, next, moved, rfl⟩ := turned
    have here : P i (call o k) s := next ▸ start i
    apply ih _ (h.keeps here moved all)
    intro j
    by_cases same : j = i
    · subst same
      rw [update_self]
      exact h.own here moved
    · rw [update_of_ne same]
      exact h.other here moved same (start j)

theorem Undisturbed.allSafe (h : Undisturbed H J P) (start : ∀ i, P i (ps i) s) (all : J s) : AllSafe H ps s := by
  intro ps' s' run i o k next
  exact h.pre (next ▸ (h.interleaved run start all).1 i)

end

/-! ### Threads over another machine -/

section
variable {h : Sig.Hom S T} {H : Handler S σ} {H' : Handler T τ} {R : σ → τ → Prop} {ps ps' : ι → Prog S α} {s s' : σ} {t t' : τ}

theorem embed_eq_call {p : Prog S α} {o' : T.Op} {k' : T.Res o' → Prog T α} (eq : p.embed h = call o' k') :
    ∃ o k, p = call o k ∧ (⟨o', k'⟩ : Σ o : T.Op, T.Res o → Prog T α) = ⟨h.op o, fun x => (k (h.res o x)).embed h⟩ := by
  cases p with
  | ret a => cases eq
  | call o k =>
    cases eq
    exact ⟨o, k, rfl, rfl⟩

theorem update_embed (i : ι) (p : Prog S α) :
    update (fun j => (ps j).embed h) i (p.embed h) = fun j => (update ps i p j).embed h := by
  funext j
  by_cases same : j = i
  · subst same
    rw [update_self, update_self]
  · rw [update_of_ne same, update_of_ne same]

/-- Each way of taking turns on the second machine is one on the first. -/
theorem AllSafe.simulate
    (step : ∀ o s t x t', R s t → H.pre o s → H'.step (h.op o) t x t' → ∃ s', H.step o s (h.res o x) s' ∧ R s' t')
    (safe : AllSafe H ps s) (rel : R s t) {qs : ι → Prog T α} (run : Interleaved H'.step (fun i => (ps i).embed h) t qs t') :
    ∃ ps' s', Interleaved H.step ps s ps' s' ∧ R s' t' ∧ (qs = fun i => (ps' i).embed h) ∧ AllSafe H ps' s' := by
  generalize from_ : (fun i => (ps i).embed h) = qs₀ at run
  induction run generalizing ps s with
  | refl qs t =>
    subst from_
    exact ⟨ps, s, .refl ps s, rel, rfl, safe⟩
  | @turn qs t qs' t' i _ t₁ turned rest ih =>
    subst from_
    obtain ⟨o', k', x, next, moved, rfl⟩ := turned
    obtain ⟨o, k, eq, same⟩ := embed_eq_call next
    cases same
    obtain ⟨s₁, moved', rel₁⟩ := step o s t x t₁ rel (safe.pre eq) moved
    obtain ⟨ps', s', run', rest'⟩ := ih (safe.turn eq moved') rel₁ (update_embed i _).symm
    exact ⟨ps', s', .turn eq moved' run', rest'⟩

theorem AllSafe.embed (pre : ∀ o s t, R s t → H.pre o s → H'.pre (h.op o) t)
    (step : ∀ o s t x t', R s t → H.pre o s → H'.step (h.op o) t x t' → ∃ s', H.step o s (h.res o x) s' ∧ R s' t')
    (safe : AllSafe H ps s) (rel : R s t) : AllSafe H' (fun i => (ps i).embed h) t := by
  intro qs t' run i o' k' next
  obtain ⟨ps', s', _, rel', rfl, safe'⟩ := safe.simulate step rel run
  obtain ⟨o, k, eq, same⟩ := embed_eq_call next
  cases same
  exact pre o s' t' rel' (safe'.pre eq)

/-- Each way of taking turns on the first machine is one on the second. -/
theorem AllSafe.cosimulate
    (lower : ∀ o s t y s', R s t → H.pre o s → H.step o s y s' → ∃ x t', h.res o x = y ∧ H'.step (h.op o) t x t' ∧ R s' t')
    (safe : AllSafe H ps s) (rel : R s t) (run : Interleaved H.step ps s ps' s') :
    ∃ t', Interleaved H'.step (fun i => (ps i).embed h) t (fun i => (ps' i).embed h) t' ∧ R s' t' := by
  induction run generalizing t with
  | refl ps s => exact ⟨t, .refl _ t, rel⟩
  | @turn ps s ps' s' i _ s₁ turned rest ih =>
    obtain ⟨o, k, y, next, moved, rfl⟩ := turned
    obtain ⟨x, t₁, rfl, moved', rel₁⟩ := lower o s t y s₁ rel (safe.pre next) moved
    obtain ⟨t', run', rel'⟩ := ih (safe.turn next moved) rel₁
    rw [← update_embed] at run'
    have next' : (fun j => (ps j).embed h) i = call (h.op o) fun x => (k (h.res o x)).embed h := by
      dsimp only
      rw [next]
      rfl
    exact ⟨t', .turn next' moved' run', rel'⟩

end

end Prog
end Parallax.Effects
