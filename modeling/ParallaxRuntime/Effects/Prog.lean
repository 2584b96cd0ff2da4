import Mathlib.Init

/-!
# Programs over a signature of operations

A program is a tree of calls. A handler says when an operation may be called, and
which answers and states the call may lead to.
-/

namespace Parallax.Effects

/-- Operations and the types of their answers. -/
structure Sig where
  Op : Type
  Res : Op → Type

inductive Prog (S : Sig) (α : Type) where
  | ret (a : α)
  | call (o : S.Op) (k : S.Res o → Prog S α)

variable {S : Sig} {α γ σ τ κ : Type}

namespace Prog

def bind : Prog S α → (α → Prog S γ) → Prog S γ
  | ret a, f => f a
  | call o k, f => call o fun x => bind (k x) f

instance : Monad (Prog S) where
  pure := ret
  bind := bind

/-- One call as a program. -/
def op (o : S.Op) : Prog S (S.Res o) := call o ret

end Prog

/-- The answers and the states that an operation may lead to. -/
abbrev Step (S : Sig) (σ : Type) := (o : S.Op) → σ → S.Res o → σ → Prop

structure Handler (S : Sig) (σ : Type) where
  pre : S.Op → σ → Prop
  step : Step S σ

namespace Prog

/-- The program can answer `r` and leave `s'`. -/
def Run (step : Step S σ) : Prog S α → σ → α → σ → Prop
  | ret a, s, r, s' => r = a ∧ s' = s
  | call o k, s, r, s' => ∃ x s₁, step o s x s₁ ∧ Run step (k x) s₁ r s'

/-- The program, on its way, can call `o'` in the state `t`. -/
def Calls (step : Step S σ) : Prog S α → σ → S.Op → σ → Prop
  | ret _, _, _, _ => False
  | call o k, s, o', t => (o' = o ∧ t = s) ∨ ∃ x s₁, step o s x s₁ ∧ Calls step (k x) s₁ o' t

/-- Every call is made where it may be, and every run meets `Q`. -/
def Ensures (H : Handler S σ) : Prog S α → (α → σ → Prop) → σ → Prop
  | ret a, Q, s => Q a s
  | call o k, Q, s => H.pre o s ∧ ∀ x s₁, H.step o s x s₁ → Ensures H (k x) Q s₁

theorem bind_assoc {p : Prog S α} {f : α → Prog S γ} {g : γ → Prog S κ} :
    p >>= f >>= g = p >>= fun a => f a >>= g := by
  induction p with
  | ret a => rfl
  | call o k ih => exact congrArg (call o) (funext ih)

section
variable {H : Handler S σ} {Q Q' : α → σ → Prop} {s : σ}

theorem Ensures.run {p : Prog S α} (h : p.Ensures H Q s) {r : α} {s' : σ} (run : p.Run H.step s r s') : Q r s' := by
  induction p generalizing s with
  | ret a =>
    obtain ⟨rfl, rfl⟩ := run
    exact h
  | call o k ih =>
    obtain ⟨x, s₁, step, rest⟩ := run
    exact ih x (h.2 x s₁ step) rest

theorem Ensures.pre {p : Prog S α} (h : p.Ensures H Q s) {o : S.Op} {t : σ} (calls : p.Calls H.step s o t) :
    H.pre o t := by
  induction p generalizing s with
  | ret a => exact calls.elim
  | call o' k ih =>
    rcases calls with ⟨rfl, rfl⟩ | ⟨x, s₁, step, rest⟩
    · exact h.1
    · exact ih x (h.2 x s₁ step) rest

/-- If every call that may be made can answer where `I` holds, and keep `I`, there is a run. -/
theorem Ensures.exists_run_within {p : Prog S α} (h : p.Ensures H Q s) {I : σ → Prop} (start : I s)
    (progress : ∀ o s, I s → H.pre o s → ∃ x s₁, H.step o s x s₁ ∧ I s₁) : ∃ r s', p.Run H.step s r s' ∧ I s' := by
  induction p generalizing s with
  | ret a => exact ⟨a, s, ⟨rfl, rfl⟩, start⟩
  | call o k ih =>
    obtain ⟨x, s₁, step, kept⟩ := progress o s start h.1
    obtain ⟨r, s', rest, good⟩ := ih x (h.2 x s₁ step) kept
    exact ⟨r, s', ⟨x, s₁, step, rest⟩, good⟩

theorem Ensures.exists_run {p : Prog S α} (h : p.Ensures H Q s)
    (progress : ∀ o s, H.pre o s → ∃ x s₁, H.step o s x s₁) : ∃ r s', p.Run H.step s r s' := by
  have within : ∃ r s', p.Run H.step s r s' ∧ True := h.exists_run_within trivial fun o s _ pre => by
    obtain ⟨x, s₁, step⟩ := progress o s pre
    exact ⟨x, s₁, step, trivial⟩
  obtain ⟨r, s', run, -⟩ := within
  exact ⟨r, s', run⟩

/-- A program that is safe on two machines has a run on both, if each call that both allow can have one answer on both. -/
theorem Ensures.exists_run_both {K : Handler S τ} {R : σ → τ → Prop} {P : α → τ → Prop} {p : Prog S α} {t : τ}
    (h : p.Ensures H Q s) (h' : p.Ensures K P t) (rel : R s t)
    (progress : ∀ o s t, R s t → H.pre o s → K.pre o t → ∃ x s₁ t₁, H.step o s x s₁ ∧ K.step o t x t₁ ∧ R s₁ t₁) :
    ∃ r s' t', p.Run H.step s r s' ∧ p.Run K.step t r t' := by
  induction p generalizing s t with
  | ret a => exact ⟨a, s, t, ⟨rfl, rfl⟩, rfl, rfl⟩
  | call o k ih =>
    obtain ⟨x, s₁, t₁, first, second, rel₁⟩ := progress o s t rel h.1 h'.1
    obtain ⟨r, s', t', run, run'⟩ := ih x (h.2 x s₁ first) (h'.2 x t₁ second) rel₁
    exact ⟨r, s', t', ⟨x, s₁, first, run⟩, x, t₁, second, run'⟩

theorem Ensures.mono {p : Prog S α} (h : p.Ensures H Q s) (weaker : ∀ r s', Q r s' → Q' r s') :
    p.Ensures H Q' s := by
  induction p generalizing s with
  | ret a => exact weaker a s h
  | call o k ih => exact ⟨h.1, fun x s₁ step => ih x (h.2 x s₁ step)⟩

@[simp] theorem ensures_ret {a : α} : (ret a : Prog S α).Ensures H Q s ↔ Q a s := Iff.rfl

@[simp] theorem ensures_pure {a : α} : (pure a : Prog S α).Ensures H Q s ↔ Q a s := Iff.rfl

theorem ensures_bind {p : Prog S γ} {f : γ → Prog S α} :
    (p >>= f).Ensures H Q s ↔ p.Ensures H (fun a s' => (f a).Ensures H Q s') s := by
  induction p generalizing s with
  | ret a => exact Iff.rfl
  | call o k ih => exact and_congr Iff.rfl (forall_congr' fun x => forall_congr' fun s₁ => imp_congr Iff.rfl (ih x))

theorem Ensures.bind {p : Prog S γ} {f : γ → Prog S α} {R : γ → σ → Prop} (h : p.Ensures H R s)
    (rest : ∀ a s', R a s' → (f a).Ensures H Q s') : (p >>= f).Ensures H Q s :=
  ensures_bind.mpr (h.mono rest)

theorem ensures_call {o : S.Op} {f : S.Res o → Prog S α} (pre : H.pre o s)
    (rest : ∀ x s₁, H.step o s x s₁ → (f x).Ensures H Q s₁) : (op o >>= f).Ensures H Q s := ⟨pre, rest⟩

theorem ensures_op_bind {o : S.Op} {f : S.Res o → Prog S α} :
    (op o >>= f).Ensures H Q s ↔ H.pre o s ∧ ∀ x s₁, H.step o s x s₁ → (f x).Ensures H Q s₁ := Iff.rfl

theorem Run.bind {step : Step S σ} {p : Prog S γ} {f : γ → Prog S α} {a : γ} {r : α} {s t s' : σ} (h : p.Run step s a t)
    (rest : (f a).Run step t r s') : (p >>= f).Run step s r s' := by
  induction p generalizing s with
  | ret b =>
    obtain ⟨rfl, rfl⟩ := h
    exact rest
  | call o k ih =>
    obtain ⟨x, s₁, first, h⟩ := h
    exact ⟨x, s₁, first, ih x h⟩

theorem Run.op_bind {step : Step S σ} {o : S.Op} {f : S.Res o → Prog S α} {x : S.Res o} {r : α} {s t s' : σ} (h : step o s x t)
    (rest : (f x).Run step t r s') : (op o >>= f).Run step s r s' := ⟨x, t, h, rest⟩

theorem Run.of_bind {step : Step S σ} {p : Prog S γ} {f : γ → Prog S α} {r : α} {s s' : σ} (h : (p >>= f).Run step s r s') :
    ∃ a t, p.Run step s a t ∧ (f a).Run step t r s' := by
  induction p generalizing s with
  | ret a => exact ⟨a, s, ⟨rfl, rfl⟩, h⟩
  | call o k ih =>
    obtain ⟨x, s₁, first, h⟩ := h
    obtain ⟨a, t, part, rest⟩ := ih x h
    exact ⟨a, t, ⟨x, s₁, first, part⟩, rest⟩

/-- What the rest of a program calls after a run of its first part, the program can call. -/
theorem Calls.bind {step : Step S σ} {p : Prog S γ} {f : γ → Prog S α} {a : γ} {s t u : σ} {o : S.Op} (h : p.Run step s a t)
    (rest : (f a).Calls step t o u) : (p >>= f).Calls step s o u := by
  induction p generalizing s with
  | ret b =>
    obtain ⟨rfl, rfl⟩ := h
    exact rest
  | call o' k ih =>
    obtain ⟨x, s₁, first, h⟩ := h
    exact Or.inr ⟨x, s₁, first, ih x h⟩

theorem Calls.bind_left {step : Step S σ} {p : Prog S γ} {f : γ → Prog S α} {s u : σ} {o : S.Op} (h : p.Calls step s o u) :
    (p >>= f).Calls step s o u := by
  induction p generalizing s with
  | ret b => exact h.elim
  | call o' k ih =>
    rcases h with here | ⟨x, s₁, first, h⟩
    · exact Or.inl here
    · exact Or.inr ⟨x, s₁, first, ih x h⟩

/-- Every run with an answer that is `ok` makes a call that `Q` relates to the answer. -/
def Performs (step : Step S σ) (p : Prog S α) (ok : α → Prop) (Q : α → S.Op → σ → Prop) (s : σ) : Prop :=
  ∀ r s', p.Run step s r s' → ok r → ∃ o t, p.Calls step s o t ∧ Q r o t

section
variable {step : Step S σ} {p : Prog S γ} {f : γ → Prog S α} {ok : α → Prop} {M : α → S.Op → σ → Prop}

theorem performs_ret {a : α} (no : ¬ ok a) : Performs step (ret a) ok M s := by
  rintro r s' ⟨rfl, -⟩ yes
  exact absurd yes no

theorem performs_ite {c : Prop} [Decidable c] {p q : Prog S α} (hp : c → Performs step p ok M s) (hq : ¬ c → Performs step q ok M s) :
    Performs step (if c then p else q) ok M s := by
  split
  · next h => exact hp h
  · next h => exact hq h

/-- The call comes after the first part. -/
theorem performs_bind (h : ∀ a t, p.Run step s a t → Performs step (f a) ok M t) : Performs step (p >>= f) ok M s := by
  intro r s' run yes
  obtain ⟨a, t, first, rest⟩ := run.of_bind
  obtain ⟨o, u, calls, made⟩ := h a t first r s' rest yes
  exact ⟨o, u, calls.bind first, made⟩

/-- The call comes in the first part, whose answer is the answer of the whole. -/
theorem performs_bind_left {f : α → Prog S α} {p : Prog S α} (h : Performs step p ok M s)
    (same : ∀ a t r s', (f a).Run step t r s' → r = a) : Performs step (p >>= f) ok M s := by
  intro r s' run yes
  obtain ⟨a, t, first, rest⟩ := run.of_bind
  obtain rfl := same a t r s' rest
  obtain ⟨o, u, calls, made⟩ := h r t first yes
  exact ⟨o, u, calls.bind_left, made⟩

/-- The call is the next one. -/
theorem performs_op {o : S.Op} {f : S.Res o → Prog S α} (h : ∀ r s', (op o >>= f).Run step s r s' → ok r → M r o s) :
    Performs step (op o >>= f) ok M s :=
  fun r s' run yes => ⟨o, s, Or.inl ⟨rfl, rfl⟩, h r s' run yes⟩

end

/-- What a program ensures it ensures on a machine that does no more. -/
theorem Ensures.transport {H : Handler S σ} {H' : Handler S τ} {R : σ → τ → Prop} {t : τ}
    (pre : ∀ o s t, R s t → H.pre o s → H'.pre o t)
    (step : ∀ o s t x t', R s t → H.pre o s → H'.step o t x t' → ∃ s', H.step o s x s' ∧ R s' t')
    {p : Prog S α} (safe : p.Ensures H Q s) (rel : R s t) : p.Ensures H' (fun r t' => ∃ s', Q r s' ∧ R s' t') t := by
  induction p generalizing s t with
  | ret a => exact ⟨s, safe, rel⟩
  | call o k ih =>
    refine ⟨pre o s t rel safe.1, fun x t₁ moved => ?_⟩
    obtain ⟨s₁, moved', rel₁⟩ := step o s t x t₁ rel safe.1 moved
    exact ih _ (safe.2 _ s₁ moved') rel₁

theorem ensures_ite {c : Prop} [Decidable c] {p q : Prog S α} (hp : c → p.Ensures H Q s)
    (hq : ¬ c → q.Ensures H Q s) : (if c then p else q).Ensures H Q s := by
  split
  · next h => exact hp h
  · next h => exact hq h

end

end Prog

/-! ### Programs as parts of programs over more operations -/

/-- The operations of `S` among those of `T`. -/
structure Sig.Hom (S T : Sig) where
  op : S.Op → T.Op
  res : (o : S.Op) → T.Res (op o) → S.Res o

namespace Prog
variable {T : Sig}

def embed (h : Sig.Hom S T) : Prog S α → Prog T α
  | ret a => ret a
  | call o k => call (h.op o) fun x => embed h (k (h.res o x))

/-- What a program ensures it ensures as a part, where its operations do no more there. -/
theorem Ensures.embed {h : Sig.Hom S T} {H : Handler S σ} {H' : Handler T τ} {R : σ → τ → Prop} {Q : α → σ → Prop}
    (pre : ∀ o s t, R s t → H.pre o s → H'.pre (h.op o) t)
    (step : ∀ o s t x t', R s t → H.pre o s → H'.step (h.op o) t x t' → ∃ s', H.step o s (h.res o x) s' ∧ R s' t')
    {p : Prog S α} {s : σ} {t : τ} (safe : p.Ensures H Q s) (rel : R s t) :
    (p.embed h).Ensures H' (fun r t' => ∃ s', Q r s' ∧ R s' t') t := by
  induction p generalizing s t with
  | ret a => exact ⟨s, safe, rel⟩
  | call o k ih =>
    refine ⟨pre o s t rel safe.1, fun x t₁ moved => ?_⟩
    obtain ⟨s₁, moved', rel₁⟩ := step o s t x t₁ rel safe.1 moved
    exact ih _ (safe.2 _ s₁ moved') rel₁

/-- What a program can do it can do as a part, where its operations can do as much there. -/
theorem Run.embed {h : Sig.Hom S T} {step : Step S σ} {step' : Step T τ} (lift : σ → τ)
    (answer : ∀ o s y s₁, step o s y s₁ → ∃ x, h.res o x = y ∧ step' (h.op o) (lift s) x (lift s₁))
    {p : Prog S α} {r : α} {s s' : σ} (run : p.Run step s r s') : (p.embed h).Run step' (lift s) r (lift s') := by
  induction p generalizing s with
  | ret a =>
    obtain ⟨rfl, rfl⟩ := run
    exact ⟨rfl, rfl⟩
  | call o k ih =>
    obtain ⟨y, s₁, first, rest⟩ := run
    obtain ⟨x, rfl, moved⟩ := answer o s y s₁ first
    exact ⟨x, lift s₁, moved, ih _ rest⟩

end Prog

end Parallax.Effects
