import ParallaxRuntime.Effects.Prog

/-!
# One program over two machines

A ghost handler tracks what a program is allowed to do next. If each call that the
ghost allows keeps a relation between two machines, so does every run of the program.
-/

namespace Parallax.Effects
namespace Prog
variable {S : Sig} {α κ σ τ : Type}

section
variable {K : Handler S κ} {H : Handler S σ} {step : Step S τ} {R : κ → σ → τ → Prop}
  {Q : α → κ → Prop} {Q' : α → σ → Prop} {p : Prog S α} {g : κ} {s : σ} {t : τ} {r : α}

/-- Each run on the second machine is a run on the first. -/
theorem Ensures.simulate (lift : ∀ o g s t x t', K.pre o g → H.pre o s → R g s t → step o t x t' →
      ∃ g' s', K.step o g x g' ∧ H.step o s x s' ∧ R g' s' t')
    (ghost : p.Ensures K Q g) (safe : p.Ensures H Q' s) (rel : R g s t) {t' : τ} (run : p.Run step t r t') :
    ∃ g' s', Q r g' ∧ p.Run H.step s r s' ∧ R g' s' t' := by
  induction p generalizing g s t with
  | ret a =>
    obtain ⟨rfl, rfl⟩ := run
    exact ⟨g, s, ghost, ⟨rfl, rfl⟩, rel⟩
  | call o k ih =>
    obtain ⟨x, t₁, first, rest⟩ := run
    obtain ⟨g₁, s₁, ghostStep, hostStep, rel₁⟩ := lift o g s t x t₁ ghost.1 safe.1 rel first
    obtain ⟨g', s', post, run', rel'⟩ := ih x (ghost.2 x g₁ ghostStep) (safe.2 x s₁ hostStep) rel₁ rest
    exact ⟨g', s', post, ⟨x, s₁, hostStep, run'⟩, rel'⟩

/-- Each run on the first machine is a run on the second. -/
theorem Ensures.cosimulate (lower : ∀ o g s t x s', K.pre o g → H.pre o s → R g s t → H.step o s x s' →
      ∃ g' t', K.step o g x g' ∧ step o t x t' ∧ R g' s' t')
    (ghost : p.Ensures K Q g) (safe : p.Ensures H Q' s) (rel : R g s t) {s' : σ} (run : p.Run H.step s r s') :
    ∃ g' t', Q r g' ∧ p.Run step t r t' ∧ R g' s' t' := by
  induction p generalizing g s t with
  | ret a =>
    obtain ⟨rfl, rfl⟩ := run
    exact ⟨g, t, ghost, ⟨rfl, rfl⟩, rel⟩
  | call o k ih =>
    obtain ⟨x, s₁, first, rest⟩ := run
    obtain ⟨g₁, t₁, ghostStep, step₁, rel₁⟩ := lower o g s t x s₁ ghost.1 safe.1 rel first
    obtain ⟨g', t', post, run', rel'⟩ := ih x (ghost.2 x g₁ ghostStep) (safe.2 x s₁ first) rel₁ rest
    exact ⟨g', t', post, ⟨x, t₁, step₁, run'⟩, rel'⟩

end

/-- Two ways to allow the same calls, both kept. -/
theorem Ensures.both {step : Step S σ} {pre pre' : S.Op → σ → Prop} {Q Q' : α → σ → Prop} {p : Prog S α} {s : σ}
    (h : p.Ensures ⟨pre, step⟩ Q s) (h' : p.Ensures ⟨pre', step⟩ Q' s) :
    p.Ensures ⟨fun o s => pre o s ∧ pre' o s, step⟩ (fun r s => Q r s ∧ Q' r s) s := by
  induction p generalizing s with
  | ret a => exact ⟨h, h'⟩
  | call o k ih => exact ⟨⟨h.1, h'.1⟩, fun x s₁ step => ih x (h.2 x s₁ step) (h'.2 x s₁ step)⟩

theorem Ensures.of_pre {step : Step S σ} {pre pre' : S.Op → σ → Prop} {Q : α → σ → Prop} {p : Prog S α} {s : σ}
    (h : p.Ensures ⟨pre, step⟩ Q s) (weaker : ∀ o s, pre o s → pre' o s) : p.Ensures ⟨pre', step⟩ Q s := by
  induction p generalizing s with
  | ret a => exact h
  | call o k ih => exact ⟨weaker o s h.1, fun x s₁ step => ih x (h.2 x s₁ step)⟩

end Prog

/-! ### Sessions of calls -/

section
variable {S : Sig} {Act σ τ : Type} {Res : Act → Type}

/-- The calls made, each with its answer, lead from one state to the other. -/
def Session (prog : (a : Act) → Prog S (Res a)) (step : Step S σ) : List (Σ a, Res a) → σ → σ → Prop
  | [], s, s' => s' = s
  | ⟨a, r⟩ :: events, s, s' => ∃ s₁, (prog a).Run step s r s₁ ∧ Session prog step events s₁ s'

/-- Every call of the session is made in a state that `ok` allows. -/
def Along (prog : (a : Act) → Prog S (Res a)) (step : Step S σ) (ok : Act → σ → Prop) : List (Σ a, Res a) → σ → Prop
  | [], _ => True
  | ⟨a, r⟩ :: events, s => ok a s ∧ ∀ s₁, (prog a).Run step s r s₁ → Along prog step ok events s₁

/-- A relation kept by every call that is allowed is kept by every session of them. -/
theorem Session.simulate {prog : (a : Act) → Prog S (Res a)} {step : Step S σ} {step' : Step S τ} {ok : Act → σ → Prop}
    {R : σ → τ → Prop} (lift : ∀ a s t r t', ok a s → R s t → (prog a).Run step' t r t' →
      ∃ s', (prog a).Run step s r s' ∧ R s' t') {events : List (Σ a, Res a)} {s : σ} {t t' : τ}
    (along : Along prog step ok events s) (rel : R s t) (run : Session prog step' events t t') :
    ∃ s', Session prog step events s s' ∧ R s' t' := by
  induction events generalizing s t with
  | nil =>
    obtain rfl : t' = t := run
    exact ⟨s, rfl, rel⟩
  | cons e events ih =>
    obtain ⟨t₁, first, rest⟩ := run
    obtain ⟨s₁, first', rel₁⟩ := lift e.1 s t e.2 t₁ along.1 rel first
    obtain ⟨s', rest', rel'⟩ := ih (along.2 s₁ first') rel₁ rest
    exact ⟨s', ⟨s₁, first', rest'⟩, rel'⟩

theorem Session.cosimulate {prog : (a : Act) → Prog S (Res a)} {step : Step S σ} {step' : Step S τ}
    {ok : Act → σ → Prop} {R : σ → τ → Prop} (lower : ∀ a s t r s', ok a s → R s t → (prog a).Run step s r s' →
      ∃ t', (prog a).Run step' t r t' ∧ R s' t') {events : List (Σ a, Res a)} {s s' : σ} {t : τ}
    (along : Along prog step ok events s) (rel : R s t) (run : Session prog step events s s') :
    ∃ t', Session prog step' events t t' ∧ R s' t' := by
  induction events generalizing s t with
  | nil =>
    obtain rfl : s' = s := run
    exact ⟨t, rfl, rel⟩
  | cons e events ih =>
    obtain ⟨s₁, first, rest⟩ := run
    obtain ⟨t₁, first', rel₁⟩ := lower e.1 s t e.2 s₁ along.1 rel first
    obtain ⟨t', rest', rel'⟩ := ih (along.2 s₁ first) rel₁ rest
    exact ⟨t', ⟨t₁, first', rest'⟩, rel'⟩

theorem Along.initial {prog : (a : Act) → Prog S (Res a)} {step : Step S σ} {ok : Act → σ → Prop}
    {done events : List (Σ a, Res a)} {s : σ} (h : Along prog step ok events s) (part : done <+: events) :
    Along prog step ok done s := by
  induction done generalizing events s with
  | nil => trivial
  | cons e done ih =>
    obtain ⟨rest, rfl⟩ := part
    exact ⟨h.1, fun s₁ run => ih (h.2 s₁ run) ⟨rest, rfl⟩⟩

theorem Along.both {prog : (a : Act) → Prog S (Res a)} {step : Step S σ} {ok ok' : Act → σ → Prop}
    {events : List (Σ a, Res a)} {s : σ} (h : Along prog step ok events s) (h' : Along prog step ok' events s) :
    Along prog step (fun a s => ok a s ∧ ok' a s) events s := by
  induction events generalizing s with
  | nil => trivial
  | cons e events ih => exact ⟨⟨h.1, h'.1⟩, fun s₁ run => ih (h.2 s₁ run) (h'.2 s₁ run)⟩

end

end Parallax.Effects
