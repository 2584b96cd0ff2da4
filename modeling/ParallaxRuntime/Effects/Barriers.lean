import ParallaxRuntime.Effects.Footprints

/-!
# Barriers

The programs of a group take turns, and wait for each other where they call a waiting operation. If they keep apart
between two barriers, the group is as good as one program.
-/

namespace Parallax.Effects
open Function

namespace Cells
variable {S : Sig} {κ : Type} {V : κ → Type} {ι γ α : Type} [DecidableEq ι]

/-- From a waiting operation to what comes after it. -/
def Leaves (C : Cells S κ V) (m : ∀ k, V k) (p q : Prog S α) : Prop :=
  ∃ o k, C.waits o = true ∧ p = .call o k ∧ q = k (C.act o m).1

/-- A group's next step: that of one program, or all leave where all wait. -/
inductive Grouped (C : Cells S κ V) : (ι → Prog S α) → (∀ k, V k) → (ι → Prog S α) → (∀ k, V k) → Prop where
  | turn {ps m i p m'} (moved : Prog.moves C.step (ps i) m p m') : Grouped C ps m (update ps i p) m'
  | barrier {ps m qs} (arrived : ∀ i, C.Leaves m (ps i) (qs i)) : Grouped C ps m qs m

/-- From one barrier to the next the programs keep apart, within the group's footprint. -/
structure Phase (C : Cells S κ V) (D W : κ → Prop) (E U : ι → κ → Prop) (ps : ι → Prog S α) (m m' : ∀ k, V k) : Prop where
  free : C.RaceFree E U ps m
  reads : ∀ i k, E i k → D k
  writes : ∀ i k, U i k → W k
  merged : Merged U (fun i => C.after (ps i)) m m'

/-- The group goes from phase to phase, and ends with `m'`. -/
inductive Phased (C : Cells S κ V) (D W : κ → Prop) : (ι → Prog S α) → (∀ k, V k) → (∀ k, V k) → Prop where
  | last {ps m m' E U} (phase : C.Phase D W E U ps m m') (ended : ∀ i, ∃ a, C.rest (ps i) m = .ret a) : Phased C D W ps m m'
  | next {ps m qs m₁ m' E U} (phase : C.Phase D W E U ps m m₁) (arrived : ∀ i, C.Leaves m (C.rest (ps i) m) (qs i))
    (later : Phased C D W qs m₁ m') : Phased C D W ps m m'

variable {C : Cells S κ V} {D W : κ → Prop} {ps ps' qs : ι → Prog S α} {m m' m₁ : ∀ k, V k}

theorem Leaves.still {p q : Prog S α} (h : C.Leaves m p q) : C.Still p := by
  obtain ⟨o, k, waits, rfl, -⟩ := h
  rintro o' k' same
  cases same
  exact waits

theorem Leaves.not_ended {p q : Prog S α} (h : C.Leaves m p q) : ¬ ∃ a, p = .ret a := by
  obtain ⟨o, k, -, rfl, -⟩ := h
  rintro ⟨a, no⟩
  cases no

theorem Leaves.unique {p q q' : Prog S α} (h : C.Leaves m p q) (h' : C.Leaves m' p q') : q' = q := by
  obtain ⟨o, k, waits, rfl, rfl⟩ := h
  obtain ⟨o', k', -, same, rfl⟩ := h'
  cases same
  exact congrArg k (C.answer fun c read => absurd read (C.silent waits).1)

theorem alone_of_interleaved (run : Prog.Interleaved C.step ps m ps' m') : Alone C.Grouped ps m ps' m' := by
  induction run with
  | refl ps m => exact .refl ps m
  | turn moved rest ih => exact .step (.turn moved) ih

/-- Up to the first barrier the programs take turns. -/
theorem grouped_cases (run : Alone C.Grouped ps m ps' m') : Prog.Interleaved C.step ps m ps' m' ∨
    ∃ ps₁ m₁ qs, Prog.Interleaved C.step ps m ps₁ m₁ ∧ (∀ i, C.Leaves m₁ (ps₁ i) (qs i)) ∧ Alone C.Grouped qs m₁ ps' m' := by
  induction run with
  | refl ps m => exact Or.inl (.refl ps m)
  | step moved rest ih =>
    cases moved with
    | turn moved =>
      rcases ih with turns | ⟨ps₁, m₁, qs, turns, arrived, later⟩
      · exact Or.inl (Turns.turn moved turns)
      · exact Or.inr ⟨ps₁, m₁, qs, Turns.turn moved turns, arrived, later⟩
    | barrier arrived => exact Or.inr ⟨_, _, _, .refl _ _, arrived, rest⟩

/-! ### Phases -/

variable {E U : ι → κ → Prop}

theorem Phase.pre (h : C.Phase D W E U ps m m') (run : Prog.Interleaved C.step ps m ps' m₁) {i : ι} {o : S.Op}
    {k : S.Res o → Prog S α} (next : ps' i = .call o k) (free : C.waits o = false) :
    (∀ c, C.reads o c → D c) ∧ ∀ c, C.writes o c → W c := by
  obtain ⟨reads, writes⟩ := h.free.pre run next free
  exact ⟨fun c read => h.reads i c (reads c read), fun c wrote => h.writes i c (writes c wrote)⟩

theorem Phase.still (h : C.Phase D W E U ps m m') (run : Prog.Interleaved C.step ps m ps' m₁) (still : ∀ i, C.Still (ps' i)) :
    (∀ i, ps' i = C.rest (ps i) m) ∧ m₁ = m' := by
  obtain ⟨rests, merged⟩ := h.free.merged run still
  exact ⟨rests, h.merged.unique merged⟩

/-- At the barrier each program is where the next phase begins. -/
theorem Phase.leave (h : C.Phase D W E U ps m m') (arrived : ∀ i, C.Leaves m (C.rest (ps i) m) (qs i))
    (run : Prog.Interleaved C.step ps m ps' m₁) {qs' : ι → Prog S α} (left : ∀ i, C.Leaves m₁ (ps' i) (qs' i)) :
    qs' = qs ∧ m₁ = m' := by
  obtain ⟨rests, same⟩ := h.still run fun i => (left i).still
  refine ⟨funext fun i => ?_, same⟩
  have here := left i
  rw [rests i] at here
  exact (arrived i).unique here

omit [DecidableEq ι] in
/-- A phase that ends at a barrier. -/
theorem Phased.barrier {body : ι → Prog S γ} {x : ι → γ} {next : ι → γ → Prog S α} {b : S.Op} (waits : C.waits b = true)
    (free : C.RaceFree E U body m) (ends : ∀ i, C.rest (body i) m = .ret (x i))
    (reads : ∀ i k, E i k → D k) (writes : ∀ i k, U i k → W k) (merged : Merged U (fun i => C.after (body i)) m m₁)
    (later : C.Phased D W (fun i => next i (x i)) m₁ m') :
    C.Phased D W (fun i => body i >>= fun y => Prog.op b >>= fun _ => next i y) m m' := by
  have stops : ∀ i, C.Still (Prog.op b >>= fun _ => next i (x i)) := fun i o k same => by
    cases same
    exact waits
  have rests : ∀ i, C.rest (body i >>= fun y => Prog.op b >>= fun _ => next i y) m = (Prog.op b >>= fun _ => next i (x i)) ∧
      C.after (body i >>= fun y => Prog.op b >>= fun _ => next i y) m = C.after (body i) m := fun i => by
    obtain ⟨rest, after⟩ := rest_bind (f := fun y => Prog.op b >>= fun _ => next i y) (ends i)
    exact ⟨rest.trans (stops i).rest, after.trans (stops i).after⟩
  refine .next (E := E) (U := U) ⟨⟨free.own, free.apart, fun i => ?_⟩, reads, writes, ?_⟩ (fun i => ?_) later
  · refine Prog.ensures_bind.mpr ((free.within i).mono fun _ _ _ => ⟨fun awake => ?_, fun _ _ moved => ?_⟩)
    · rw [waits] at awake
      cases awake
    · have awake := moved.1
      rw [waits] at awake
      cases awake
  · exact ⟨fun i k wrote => (merged.1 i k wrote).trans (congrFun (rests i).2 k).symm, merged.2⟩
  · rw [(rests i).1]
    exact ⟨b, _, waits, rfl, rfl⟩

/-- Whatever the group has done so far, it is in one of its phases. -/
theorem Phased.reaches [Nonempty ι] (h : C.Phased D W ps m m') (run : Alone C.Grouped ps m ps' m₁) :
    ∃ qs m₂, C.Phased D W qs m₂ m' ∧ Prog.Interleaved C.step qs m₂ ps' m₁ := by
  induction h with
  | last phase ended =>
    rcases grouped_cases run with turns | ⟨ps₁, m₁, qs, turns, arrived, -⟩
    · exact ⟨_, _, .last phase ended, turns⟩
    · obtain ⟨rests, -⟩ := phase.still turns fun i => (arrived i).still
      let i := Classical.arbitrary ι
      exact absurd (rests i ▸ ended i) (arrived i).not_ended
  | next phase arrived later ih =>
    rcases grouped_cases run with turns | ⟨ps₁, m₁, qs, turns, left, rest⟩
    · exact ⟨_, _, .next phase arrived later, turns⟩
    · obtain ⟨rfl, rfl⟩ := phase.leave arrived turns left
      exact ih rest

omit [DecidableEq ι] in
theorem Phased.phase (h : C.Phased D W ps m m') : ∃ E U m₁, C.Phase D W E U ps m m₁ := by
  cases h with
  | last phase ended => exact ⟨_, _, _, phase⟩
  | next phase arrived later => exact ⟨_, _, _, phase⟩

/-- No step of the group leaves its footprint. -/
theorem Phased.pre [Nonempty ι] (h : C.Phased D W ps m m') (run : Alone C.Grouped ps m ps' m₁) {i : ι} {o : S.Op}
    {k : S.Res o → Prog S α} (next : ps' i = .call o k) (free : C.waits o = false) :
    (∀ c, C.reads o c → D c) ∧ ∀ c, C.writes o c → W c := by
  obtain ⟨qs, m₂, rest, turns⟩ := h.reaches run
  obtain ⟨E, U, m₃, phase⟩ := rest.phase
  exact phase.pre turns next free

/-- No two programs of the group ever compete for a cell. -/
theorem Phased.no_conflict [Nonempty ι] (h : C.Phased D W ps m m') (run : Alone C.Grouped ps m ps' m₁) : ¬ C.Conflict ps' := by
  obtain ⟨qs, m₂, rest, turns⟩ := h.reaches run
  obtain ⟨E, U, m₃, phase⟩ := rest.phase
  exact phase.free.no_conflict turns

/-- However the programs take turns, the group ends with the same memory. -/
theorem Phased.ends [Nonempty ι] (h : C.Phased D W ps m m') (run : Alone C.Grouped ps m ps' m₁) (ended : Prog.Finished ps') :
    m₁ = m' := by
  obtain ⟨qs, m₂, rest, turns⟩ := h.reaches run
  cases rest with
  | last phase final => exact (phase.still turns (still_of_finished ended)).2
  | next phase arrived later =>
    obtain ⟨rests, -⟩ := phase.still turns (still_of_finished ended)
    let i := Classical.arbitrary ι
    exact absurd (rests i ▸ ended i) (arrived i).not_ended

/-- From the middle of its first phase the group can go on to the end. -/
theorem Phased.finishes [Finite ι] (h : C.Phased D W ps m m') (turns : Prog.Interleaved C.step ps m ps' m₁) :
    ∃ qs, Alone C.Grouped ps' m₁ qs m' ∧ Prog.Finished qs := by
  induction h generalizing ps' m₁ with
  | last phase ended =>
    obtain ⟨qs, m₂, more, still⟩ := exists_still (C := C) ps' m₁
    obtain ⟨rests, rfl⟩ := phase.still (turns.trans more) still
    refine ⟨qs, alone_of_interleaved more, fun i => ?_⟩
    rw [rests i]
    exact ended i
  | @next ps m rs _ _ _ _ phase arrived later ih =>
    obtain ⟨qs, m₂, more, still⟩ := exists_still (C := C) ps' m₁
    obtain ⟨rests, rfl⟩ := phase.still (turns.trans more) still
    obtain ⟨ends, run, ended⟩ := ih (.refl _ _)
    have leave : C.Grouped qs m₂ rs m₂ := .barrier fun i => by
      obtain ⟨o, k, waits, here, there⟩ := arrived i
      exact ⟨o, k, waits, (rests i).trans here, there.trans (congrArg k (C.answer fun c read => absurd read (C.silent waits).1))⟩
    exact ⟨ends, (alone_of_interleaved more).trans (.step leave run), ended⟩

/-! ### Groups beside each other -/

/-- Whatever the group does, it stays in its footprint. -/
def GroupSafe (C : Cells S κ V) (D W : κ → Prop) (ps : ι → Prog S α) (m : ∀ k, V k) : Prop :=
  ∀ ps' m', Alone C.Grouped ps m ps' m' → ∀ i o k, ps' i = .call o k → C.waits o = false →
    (∀ c, C.reads o c → D c) ∧ ∀ c, C.writes o c → W c

theorem grouped_view {l : ∀ k, V k} (pre : ∀ i o k, ps i = .call o k → C.waits o = false →
    (∀ c, C.reads o c → D c) ∧ ∀ c, C.writes o c → W c) (same : ∀ k, D k → m k = l k) (moved : C.Grouped ps m ps' m') :
    ∃ l' : ∀ k, V k, C.Grouped ps l ps' l' ∧ ∀ k, D k → m' k = l' k := by
  cases moved with
  | turn moved =>
    obtain ⟨o, k, x, here, moved, rfl⟩ := moved
    obtain ⟨l', moved', seen⟩ := step_view (pre _ o k here) same moved
    exact ⟨l', .turn ⟨o, k, x, here, moved', rfl⟩, seen⟩
  | barrier arrived =>
    refine ⟨l, .barrier fun i => ?_, same⟩
    obtain ⟨o, k, waits, here, there⟩ := arrived i
    exact ⟨o, k, waits, here, there.trans (congrArg k (C.answer fun c read => absurd read (C.silent waits).1))⟩

theorem grouped_stays : Stays C.Grouped D W fun (ps : ι → Prog S α) m => C.GroupSafe D W ps m where
  keeps safe moved ps'' m'' run := safe ps'' m'' (.step moved run)
  same := by
    intro ps l m safe same ps' m' run
    induction run generalizing l with
    | refl ps m => exact safe ps l (.refl ps l)
    | step moved rest ih =>
      obtain ⟨l', moved', seen⟩ := grouped_view (safe _ _ (.refl _ _)) same moved
      exact ih (fun ps'' l'' run' => safe ps'' l'' (.step moved' run')) seen
  frame := by
    intro ps m ps' m' safe moved c out
    cases moved with
    | turn moved =>
      obtain ⟨o, k, x, here, ⟨free, -, rfl⟩, -⟩ := moved
      exact C.frame fun wrote => out ((safe _ _ (.refl _ _) _ o k here free).2 c wrote)
    | barrier arrived => rfl
  view safe same moved := grouped_view (safe _ _ (.refl _ _)) same moved

section
variable {D W : γ → κ → Prop} {lanes lanes' : γ → ι → Prog S α} {ends : γ → ∀ k, V k} [DecidableEq γ] [Nonempty ι]

theorem Phased.safe {D W : κ → Prop} (h : C.Phased D W ps m m') : C.GroupSafe D W ps m :=
  fun _ _ run _ _ _ next free => h.pre run next free

/-- However the groups and the programs in them take turns, each group's writes are as if it ran alone. -/
theorem Phased.groups (apart : ∀ g g' k, g ≠ g' → W g k → ¬ D g' k) (own : ∀ g k, W g k → D g k)
    (phased : ∀ g, C.Phased (D g) (W g) (lanes g) m (ends g)) (run : Turns (fun _ => C.Grouped) lanes m lanes' m')
    (ended : ∀ g, Prog.Finished (lanes' g)) :
    (∀ g k, W g k → m' k = ends g k) ∧ ∀ k, (∀ g, ¬ W g k) → m' k = m k := by
  obtain ⟨l, alone, views, frame⟩ := run.project (fun _ => grouped_stays) apart (l := fun _ => m) (fun g => (phased g).safe)
    fun _ _ _ => rfl
  refine ⟨fun g k wrote => ?_, frame⟩
  rw [views g k (own g k wrote), (phased g).ends (alone g) (ended g)]

/-- No two programs ever compete for a cell, in one group or in two. -/
theorem Phased.no_conflicts (apart : ∀ g g' k, g ≠ g' → W g k → ¬ D g' k) (own : ∀ g k, W g k → D g k)
    (phased : ∀ g, C.Phased (D g) (W g) (lanes g) m (ends g)) (run : Turns (fun _ => C.Grouped) lanes m lanes' m') :
    ¬ C.Conflict fun p : γ × ι => lanes' p.1 p.2 := by
  obtain ⟨l, alone, -, -⟩ := run.project (fun _ => grouped_stays) apart (l := fun _ => m) (fun g => (phased g).safe)
    fun _ _ _ => rfl
  rintro ⟨⟨g, i⟩, ⟨g', j⟩, o, k, o', k', c, ne, first, second, wrote, used⟩
  by_cases same : g = g'
  · subst same
    exact (phased g).no_conflict (alone g) ⟨i, j, o, k, o', k', c, fun eq => ne (congrArg (g, ·) eq), first, second, wrote, used⟩
  · obtain ⟨-, writes⟩ := (phased g).pre (alone g) first (used_awake (Or.inr wrote))
    obtain ⟨reads', writes'⟩ := (phased g').pre (alone g') second (used_awake used)
    have seen : D g' c := used.elim (reads' c) fun wrote' => own g' c (writes' c wrote')
    exact apart g g' c same (writes c wrote) seen

/-- No group ever waits for good: whatever was done so far, all can go on to their ends. -/
theorem Phased.exists_groups [Finite ι] [Finite γ] (apart : ∀ g g' k, g ≠ g' → W g k → ¬ D g' k)
    (phased : ∀ g, C.Phased (D g) (W g) (lanes g) m (ends g)) (run : Turns (fun _ => C.Grouped) lanes m lanes' m') :
    ∃ lanes'' m'', Turns (fun _ => C.Grouped) lanes' m' lanes'' m'' ∧ ∀ g, Prog.Finished (lanes'' g) := by
  apply Turns.exists_done (fun as m₁ => Turns (fun _ => C.Grouped) lanes m as m₁) Prog.Finished ?_ run
  intro as m₁ g so
  obtain ⟨l, alone, views, -⟩ := so.project (fun _ => grouped_stays) apart (l := fun _ => m) (fun g => (phased g).safe)
    fun _ _ _ => rfl
  obtain ⟨qs, m₂, rest, turns⟩ := (phased g).reaches (alone g)
  obtain ⟨ps', more, ended⟩ := rest.finishes turns
  obtain ⟨m₃, more', -, -⟩ := grouped_stays.lift more (grouped_stays.alone (alone g) (phased g).safe) (views g)
  have turned : Turns (fun _ : γ => C.Grouped) as m₁ (update as g ps') m₃ := Alone.turns (i := g) more' rfl
  exact ⟨ps', m₃, more', ended, so.trans turned⟩

end

end Cells

end Parallax.Effects
