import ParallaxRuntime.Effects.Threads

/-!
# Footprints

Parties take turns over one memory of cells. One whose cells nobody else writes goes on as if it were alone, so
programs that keep apart end as they would one after the other.
-/

namespace Parallax.Effects
open Function

/-! ### Parties over cells -/

section
variable {ι A κ : Type} {V : κ → Type} [DecidableEq ι]

/-- Where `good` holds of a party and its view of the memory, it writes only `W` and goes by `D` only. -/
structure Stays (step : A → (∀ k, V k) → A → (∀ k, V k) → Prop) (D W : κ → Prop) (good : A → (∀ k, V k) → Prop) : Prop where
  keeps : ∀ {a m a' m'}, good a m → step a m a' m' → good a' m'
  same : ∀ {a l m}, good a l → (∀ k, D k → m k = l k) → good a m
  frame : ∀ {a m a' m'}, good a m → step a m a' m' → ∀ k, ¬ W k → m' k = m k
  view : ∀ {a l m a' m'}, good a l → (∀ k, D k → m k = l k) → step a m a' m' →
    ∃ l', step a l a' l' ∧ ∀ k, D k → m' k = l' k

variable {step : ι → A → (∀ k, V k) → A → (∀ k, V k) → Prop} {D W : ι → κ → Prop} {good : ι → A → (∀ k, V k) → Prop}
  {as as' : ι → A} {m m' : ∀ k, V k} {l : ι → ∀ k, V k}

section
variable {step : A → (∀ k, V k) → A → (∀ k, V k) → Prop} {D W : κ → Prop} {good : A → (∀ k, V k) → Prop} {a a' : A}
  {l l' : ∀ k, V k}

theorem Stays.alone (h : Stays step D W good) (run : Alone step a m a' m') (start : good a m) : good a' m' := by
  induction run with
  | refl a m => exact start
  | step moved rest ih => exact ih (h.keeps start moved)

/-- What the party can do alone it can do on any memory that it sees the same. -/
theorem Stays.lift (h : Stays step D W good) (run : Alone step a l a' l') (start : good a l) (same : ∀ k, D k → m k = l k) :
    ∃ m', Alone step a m a' m' ∧ (∀ k, D k → m' k = l' k) ∧ ∀ k, ¬ W k → m' k = m k := by
  induction run generalizing m with
  | refl a l => exact ⟨m, .refl a m, same, fun _ _ => rfl⟩
  | step moved rest ih =>
    have here := h.same start same
    obtain ⟨m₁, moved₁, seen⟩ := h.view here (fun k read => (same k read).symm) moved
    obtain ⟨m', run', views, frame⟩ := ih (h.keeps start moved) fun k read => (seen k read).symm
    exact ⟨m', .step moved₁ run', views, fun k out => (frame k out).trans (h.frame here moved₁ k out)⟩

end

/-- Each party does what it could do alone on the memory as it sees it. -/
theorem Turns.project (stays : ∀ i, Stays (step i) (D i) (W i) (good i)) (apart : ∀ i j k, i ≠ j → W i k → ¬ D j k)
    (run : Turns step as m as' m') (start : ∀ i, good i (as i) (l i)) (views : ∀ i k, D i k → m k = l i k) :
    ∃ l' : ι → ∀ k, V k, (∀ i, Alone (step i) (as i) (l i) (as' i) (l' i)) ∧ (∀ i k, D i k → m' k = l' i k) ∧
      ∀ k, (∀ i, ¬ W i k) → m' k = m k := by
  induction run generalizing l with
  | refl as m => exact ⟨l, fun i => .refl _ _, views, fun _ _ => rfl⟩
  | @turn as m as' m' i a m₁ moved rest ih =>
    have frame := (stays i).frame ((stays i).same (start i) (views i)) moved
    obtain ⟨l₁, own, seen⟩ := (stays i).view (start i) (views i) moved
    have next : ∀ j, good j (update as i a j) (update l i l₁ j) := by
      intro j
      by_cases same : j = i
      · subst same
        rw [update_self, update_self]
        exact (stays j).keeps (start j) own
      · rw [update_of_ne same, update_of_ne same]
        exact start j
    have views₁ : ∀ j k, D j k → m₁ k = update l i l₁ j k := by
      intro j k read
      by_cases same : j = i
      · subst same
        rw [update_self]
        exact seen k read
      · rw [update_of_ne same, frame k fun wrote => apart i j k (Ne.symm same) wrote read]
        exact views j k read
    obtain ⟨l', alone, views', frame'⟩ := ih next views₁
    refine ⟨l', fun j => ?_, views', fun k none => (frame' k none).trans (frame k (none i))⟩
    have later := alone j
    by_cases same : j = i
    · subst same
      rw [update_self, update_self] at later
      exact .step own later
    · rw [update_of_ne same, update_of_ne same] at later
      exact later

end

section
variable {ι κ : Type} {V : κ → Type} {W : ι → κ → Prop} {f : ι → (∀ k, V k) → ∀ k, V k} {m m' m₁ : ∀ k, V k}

/-- Each party's writes, as it does them on `m`, and nothing else. -/
def Merged (W : ι → κ → Prop) (f : ι → (∀ k, V k) → ∀ k, V k) (m m' : ∀ k, V k) : Prop :=
  (∀ i k, W i k → m' k = f i m k) ∧ ∀ k, (∀ i, ¬ W i k) → m' k = m k

theorem Merged.unique (h : Merged W f m m₁) (h' : Merged W f m m') : m' = m₁ := by
  funext k
  by_cases written : ∃ i, W i k
  · obtain ⟨i, wrote⟩ := written
    rw [h.1 i k wrote, h'.1 i k wrote]
  · have none : ∀ i, ¬ W i k := fun i wrote => written ⟨i, wrote⟩
    rw [h.2 k none, h'.2 k none]

/-- Wherever `f` sees the memory `m` within `D`, it writes only `W`, and the same. -/
def Contained (D W : κ → Prop) (f : (∀ k, V k) → ∀ k, V k) (m : ∀ k, V k) : Prop :=
  ∀ w : ∀ k, V k, (∀ k, D k → w k = m k) → (∀ k, W k → f w k = f m k) ∧ ∀ k, ¬ W k → f w k = w k

end

/-! ### Programs over cells -/

/-- Operations on cells, with what each reads and what it writes. A waiting one does neither. -/
structure Cells (S : Sig) (κ : Type) (V : κ → Type) where
  act : (o : S.Op) → (∀ k, V k) → S.Res o × (∀ k, V k)
  reads : S.Op → κ → Prop
  writes : S.Op → κ → Prop
  waits : S.Op → Bool
  frame : ∀ {o m k}, ¬ writes o k → (act o m).2 k = m k
  answer : ∀ {o m m'}, (∀ k, reads o k → m' k = m k) → (act o m').1 = (act o m).1
  effect : ∀ {o m m' k}, (∀ k, reads o k → m' k = m k) → writes o k → (act o m').2 k = (act o m).2 k
  silent : ∀ {o k}, waits o = true → ¬ reads o k ∧ ¬ writes o k

namespace Cells
variable {S : Sig} {κ : Type} {V : κ → Type} {ι α γ : Type}

section
variable (C : Cells S κ V)

/-- A waiting operation is not a step of its own. -/
def step : Step S (∀ k, V k) := fun o m x m' => C.waits o = false ∧ x = (C.act o m).1 ∧ m' = (C.act o m).2

/-- Steps that read within `D` and write within `W`. -/
def within (D W : κ → Prop) : Handler S (∀ k, V k) where
  pre o _ := C.waits o = false → (∀ k, C.reads o k → D k) ∧ ∀ k, C.writes o k → W k
  step := C.step

/-- What is left of a program that has run, alone, as far as it can. -/
def rest : Prog S α → (∀ k, V k) → Prog S α
  | .ret a, _ => .ret a
  | .call o k, m => if C.waits o then .call o k else rest (k (C.act o m).1) (C.act o m).2

/-- The memory then. -/
def after : Prog S α → (∀ k, V k) → ∀ k, V k
  | .ret _, m => m
  | .call o k, m => if C.waits o then m else after (k (C.act o m).1) (C.act o m).2

/-- The program has ended, or waits. -/
def Still (p : Prog S α) : Prop := ∀ o k, p = .call o k → C.waits o = true

/-- One of two programs is about to write a cell that the other is about to use. -/
def Conflict (ps : ι → Prog S α) : Prop :=
  ∃ i j o k o' k' c, i ≠ j ∧ ps i = .call o k ∧ ps j = .call o' k' ∧ C.writes o c ∧ (C.reads o' c ∨ C.writes o' c)

end

variable {C : Cells S κ V} {p p' : Prog S α} {m m' m₁ : ∀ k, V k} {D W : κ → Prop}

theorem rest_still (p : Prog S α) (m : ∀ k, V k) : C.Still (C.rest p m) := by
  induction p generalizing m with
  | ret a =>
    intro o k no
    cases no
  | call o k ih =>
    rw [rest]
    split
    · next waits =>
      rintro o' k' same
      cases same
      exact waits
    · exact ih _ _

theorem Still.rest (h : C.Still p) : C.rest p m = p := by
  cases p with
  | ret a => rfl
  | call o k => rw [Cells.rest, if_pos (h o k rfl)]

theorem Still.after (h : C.Still p) : C.after p m = m := by
  cases p with
  | ret a => rfl
  | call o k => rw [Cells.after, if_pos (h o k rfl)]

theorem rest_bind {p : Prog S γ} {f : γ → Prog S α} {a : γ} (ended : C.rest p m = .ret a) :
    C.rest (p >>= f) m = C.rest (f a) (C.after p m) ∧ C.after (p >>= f) m = C.after (f a) (C.after p m) := by
  induction p generalizing m with
  | ret b =>
    cases ended
    exact ⟨rfl, rfl⟩
  | call o k ih =>
    rw [rest] at ended
    split at ended
    · cases ended
    · next awake =>
      obtain ⟨rests, afters⟩ := ih _ ended
      have here : (Prog.call o k >>= f) = .call o fun x => k x >>= f := rfl
      rw [here, rest, after, after, if_neg awake, if_neg awake, if_neg awake]
      exact ⟨rests, afters⟩

theorem moves_rest (h : Prog.moves C.step p m p' m') : C.rest p' m' = C.rest p m ∧ C.after p' m' = C.after p m := by
  obtain ⟨o, k, x, rfl, ⟨free, rfl, rfl⟩, rfl⟩ := h
  simp [rest, after, free]

theorem alone_rest (run : Alone (Prog.moves C.step) p m p' m') : C.rest p' m' = C.rest p m ∧ C.after p' m' = C.after p m := by
  induction run with
  | refl p m => exact ⟨rfl, rfl⟩
  | step moved rest ih =>
    obtain ⟨rest₁, after₁⟩ := moves_rest moved
    exact ⟨ih.1.trans rest₁, ih.2.trans after₁⟩

theorem exists_alone (p : Prog S α) (m : ∀ k, V k) : Alone (Prog.moves C.step) p m (C.rest p m) (C.after p m) := by
  induction p generalizing m with
  | ret a => exact .refl _ _
  | call o k ih =>
    rw [rest, after]
    cases free : C.waits o with
    | true => exact .refl _ _
    | false => exact .step ⟨o, k, _, rfl, ⟨free, rfl, rfl⟩, rfl⟩ (ih _ _)

theorem step_view {o : S.Op} {x : S.Res o} {l : ∀ k, V k} (pre : (C.within D W).pre o l) (same : ∀ k, D k → m k = l k)
    (moved : C.step o m x m') : ∃ l', C.step o l x l' ∧ ∀ k, D k → m' k = l' k := by
  obtain ⟨free, rfl, rfl⟩ := moved
  have known : ∀ k, C.reads o k → m k = l k := fun k read => same k ((pre free).1 k read)
  refine ⟨_, ⟨free, C.answer known, rfl⟩, fun k seen => ?_⟩
  by_cases wrote : C.writes o k
  · exact C.effect known wrote
  · rw [C.frame wrote, C.frame wrote]
    exact same k seen

theorem moves_stays : Stays (Prog.moves C.step) D W fun (p : Prog S α) m => p.Ensures (C.within D W) (fun _ _ => True) m where
  keeps := by
    rintro p m p' m' good ⟨o, k, x, rfl, moved, rfl⟩
    exact good.2 x m' moved
  same := by
    intro p l m good same
    apply (good.transport (R := fun l m => ∀ k, D k → m k = l k) ?_ ?_ same).mono fun _ _ _ => trivial
    · exact fun o l m _ pre => pre
    · exact fun o l m x m' same pre moved => step_view pre same moved
  frame := by
    rintro p m p' m' good ⟨o, k, x, rfl, ⟨free, -, rfl⟩, -⟩ c unwritten
    exact C.frame fun wrote => unwritten ((good.1 free).2 c wrote)
  view := by
    rintro p l m p' m' good same ⟨o, k, x, rfl, moved, rfl⟩
    obtain ⟨l', moved', seen⟩ := step_view good.1 same moved
    exact ⟨l', ⟨o, k, x, rfl, moved', rfl⟩, seen⟩

/-- A program's memory afterwards depends on what it reads, and differs where it writes. -/
theorem after_of_within (h : p.Ensures (C.within D W) (fun _ _ => True) m)
    (same : ∀ k, D k → m₁ k = m k) : (∀ k, D k → C.after p m₁ k = C.after p m k) ∧ ∀ k, ¬ W k → C.after p m₁ k = m₁ k := by
  obtain ⟨m', run, seen, frame⟩ := moves_stays.lift (exists_alone p m) h same
  have ended := (alone_rest run).2
  rw [(rest_still p m).after] at ended
  subst ended
  exact ⟨seen, frame⟩

/-! ### Programs that keep apart -/

/-- No program writes what another one reads or writes, up to where each waits. -/
structure RaceFree (C : Cells S κ V) (D W : ι → κ → Prop) (ps : ι → Prog S α) (m : ∀ k, V k) : Prop where
  own : ∀ i k, W i k → D i k
  apart : ∀ i j k, i ≠ j → W i k → ¬ D j k
  within : ∀ i, (ps i).Ensures (C.within (D i) (W i)) (fun _ _ => True) m

variable {D W : ι → κ → Prop} {ps ps' : ι → Prog S α}

theorem RaceFree.contained (h : C.RaceFree D W ps m) (i : ι) : Contained (D i) (W i) (C.after (ps i)) m := by
  intro w same
  obtain ⟨seen, frame⟩ := after_of_within (h.within i) same
  exact ⟨fun k wrote => seen k (h.own i k wrote), frame⟩

theorem still_of_finished (ended : Prog.Finished ps) (i : ι) : C.Still (ps i) := by
  obtain ⟨a, here⟩ := ended i
  rw [here]
  intro o k no
  cases no

variable [DecidableEq ι]

/-- Every step on the way is within the footprint of its program. -/
theorem RaceFree.pre (h : C.RaceFree D W ps m) (run : Prog.Interleaved C.step ps m ps' m') {i : ι} {o : S.Op}
    {k : S.Res o → Prog S α} (next : ps' i = .call o k) (free : C.waits o = false) :
    (∀ c, C.reads o c → D i c) ∧ ∀ c, C.writes o c → W i c := by
  obtain ⟨l, alone, -, -⟩ := run.project (fun i => moves_stays) h.apart (l := fun _ => m) h.within fun _ _ _ => rfl
  have good := (moves_stays).alone (alone i) (h.within i)
  rw [next] at good
  exact good.1 free

theorem used_awake {o : S.Op} {c : κ} (used : C.reads o c ∨ C.writes o c) : C.waits o = false := by
  cases waits : C.waits o with
  | true => exact absurd used (not_or.mpr (C.silent waits))
  | false => rfl

/-- No two programs ever compete for a cell. -/
theorem RaceFree.no_conflict (h : C.RaceFree D W ps m) (run : Prog.Interleaved C.step ps m ps' m') : ¬ C.Conflict ps' := by
  rintro ⟨i, j, o, k, o', k', c, ne, first, second, wrote, used⟩
  obtain ⟨-, writes⟩ := h.pre run first (used_awake (Or.inr wrote))
  obtain ⟨reads', writes'⟩ := h.pre run second (used_awake used)
  have seen : D j c := used.elim (reads' c) fun wrote' => h.own j c (writes' c wrote')
  exact h.apart i j c ne (writes c wrote) seen

/-- However the programs take turns, when none can go on each is where it would be alone. -/
theorem RaceFree.merged (h : C.RaceFree D W ps m) (run : Prog.Interleaved C.step ps m ps' m') (still : ∀ i, C.Still (ps' i)) :
    (∀ i, ps' i = C.rest (ps i) m) ∧ Merged W (fun i => C.after (ps i)) m m' := by
  obtain ⟨l, alone, views, frame⟩ := run.project (fun i => moves_stays) h.apart (l := fun _ => m) h.within fun _ _ _ => rfl
  refine ⟨fun i => ?_, fun i k wrote => ?_, frame⟩
  · rw [← (alone_rest (alone i)).1, (still i).rest]
  · have ended : l i = C.after (ps i) m := by
      rw [← (alone_rest (alone i)).2, (still i).after]
    rw [views i k (h.own i k wrote), ended]

/-- They can all go on until none can. -/
theorem exists_still [Finite ι] (ps : ι → Prog S α) (m : ∀ k, V k) :
    ∃ ps' m', Prog.Interleaved C.step ps m ps' m' ∧ ∀ i, C.Still (ps' i) :=
  Turns.exists_done (fun _ _ => True) C.Still (fun ps m i _ => ⟨_, _, exists_alone (ps i) m, rest_still _ _, trivial⟩) trivial

end Cells

end Parallax.Effects
