import ParallaxRuntime.Elementwise.Launch

/-!
# Captures of element-wise launches

`launch_with_captures` writes the captures into the descriptor set when it makes the set, and
a later call for the same kernel and buffer finds that set again. A capturing transform makes
a set each time.
-/

namespace Parallax.Elementwise
open Memory Launcher

section
variable {β : Type}

def Call.captures : Call β → List β
  | .launch _ _ _ _ => []
  | .launchWithCaptures _ _ _ captures _ => captures
  | .launchTransform _ _ _ _ _ _ captures => captures

/-- `launch_with_captures`, or `launch_transform` with captures. -/
def Call.Capturing : Call β → Prop
  | .launch _ _ _ _ => False
  | .launchWithCaptures _ _ _ _ _ => True
  | .launchTransform _ _ _ _ _ _ captures => captures ≠ []

/-- What the call would cache under `key`. -/
def Call.caches : Call β → String × Nat → Option (List β)
  | .launchWithCaptures kernel buffer _ captures _, key => if key = (kernel, buffer) then some captures else none
  | _, _ => none

/-- The block starts with the captures of the call. -/
def OwnCaptures (c : Call β) (set : DescriptorSet β) : Prop :=
  set.uniform.take c.captures.length = c.captures.map some

/-- The same call on a launcher that has cached nothing. -/
def rebuild (ctx : Context) (o : Outcome) (s : KernelLauncher β) (c : Call β) : KernelLauncher β × Option (Executed β) :=
  perform ctx { o with allocatesSet := true } { s with cache := fun _ => none } c

/-- Every call of the run dispatches. -/
def Succeed (ctx : Context) : KernelLauncher β → List (Call β × Outcome) → Prop
  | _, [] => True
  | s, c :: calls => (perform ctx c.2 s c.1).2.isSome ∧ Succeed ctx (perform ctx c.2 s c.1).1 calls

/-- Every dispatch of the run has the captures of its own call. -/
def CapturesOwn (ctx : Context) : KernelLauncher β → List (Call β × Outcome) → Prop
  | _, [] => True
  | s, c :: calls => (∀ e, (perform ctx c.2 s c.1).2 = some e → OwnCaptures c.1 e.set) ∧
    CapturesOwn ctx (perform ctx c.2 s c.1).1 calls

/-- Every dispatch of the run has the captures that it has in the run that makes each set anew. -/
def CapturesAgree (ctx : Context) : KernelLauncher β → KernelLauncher β → List (Call β × Outcome) → Prop
  | _, _, [] => True
  | s, t, c :: calls =>
    (∃ e e', (perform ctx c.2 s c.1).2 = some e ∧ (rebuild ctx c.2 t c.1).2 = some e' ∧
      e.set.uniform.take c.1.captures.length = e'.set.uniform.take c.1.captures.length) ∧
    CapturesAgree ctx (perform ctx c.2 s c.1).1 (rebuild ctx c.2 t c.1).1 calls

/-- The captures of the first of the calls that caches under `key`. -/
def firstCaptures (calls : List (Call β × Outcome)) (key : String × Nat) : Option (List β) :=
  calls.findSome? fun c => c.1.caches key

/-- Each call's captures begin those of the first call for its kernel and buffer. -/
def Repeating (calls : List (Call β × Outcome)) : Prop :=
  ∀ c ∈ calls, ∀ key x y, c.1.caches key = some x → firstCaptures calls key = some y → x <+: y

theorem take_map_some {x y : List β} {k : Nat} :
    (y.map some ++ List.replicate k none).take x.length = x.map some ↔ x <+: y := by
  induction x generalizing y with
  | nil => simp
  | cons a x ih =>
    cases y with
    | nil =>
      cases k with
      | zero => simp
      | succ k => simp [List.replicate_succ]
    | cons b y =>
      simp only [List.map_cons, List.cons_append, List.length_cons, List.take_succ_cons, List.cons_prefix_cons]
      rw [List.cons.injEq, ih, Option.some.injEq, eq_comm]

theorem ownCaptures_iff {c : Call β} {set : DescriptorSet β} {y : List β} (block : set.uniform = capturesBlock y) :
    OwnCaptures c set ↔ c.captures <+: y := by
  unfold OwnCaptures
  rw [block]
  exact take_map_some

/-- The cached sets carry the captures in `f`. -/
def Holds (s : KernelLauncher β) (f : String × Nat → Option (List β)) : Prop :=
  ∀ key, (s.cache key).map DescriptorSet.uniform = (f key).map capturesBlock

/-- The captures that a call dispatches with. -/
def used (f : String × Nat → Option (List β)) : Call β → List β
  | .launchWithCaptures kernel buffer _ captures _ => (f (kernel, buffer)).getD captures
  | c => c.captures

variable {ctx : Context} {o : Outcome} {s s' t : KernelLauncher β} {f : String × Nat → Option (List β)}

theorem launchWithCaptures_block {kernel : String} {buffer count es : Nat} {captures : List β} {e : Executed β}
    (holds : Holds s f) (h : launchWithCaptures ctx o s kernel buffer count captures es = (s', some e)) :
    e.set.uniform = capturesBlock ((f (kernel, buffer)).getD captures) ∧
      Holds s' fun key => (f key).or (if key = (kernel, buffer) then some captures else none) := by
  have here := holds (kernel, buffer)
  obtain ⟨b, -, -, ⟨cached, same, -⟩ | ⟨cached, set, written, -⟩⟩ := launchWithCaptures_executed h
  · obtain ⟨y, known, block⟩ : ∃ y, f (kernel, buffer) = some y ∧ capturesBlock y = e.set.uniform :=
      Option.map_eq_some_iff.mp (by rw [← here, cached, Option.map_some])
    refine ⟨by rw [known, ← block, Option.getD_some], fun key => ?_⟩
    rw [same, holds key]
    dsimp only
    by_cases here : key = (kernel, buffer)
    · rw [here, known, Option.some_or]
    · rw [if_neg here, Option.or_none]
  · have absent : f (kernel, buffer) = none := by simpa [cached] using here.symm
    refine ⟨by rw [set, absent, Option.getD_none], fun key => ?_⟩
    rw [written]
    by_cases same : key = (kernel, buffer)
    · subst same
      simp [absent, set]
    · simp [same, holds key]

theorem launchTransform_block {kernel : String} {input output count es outEs : Nat} {captures : List β} {e : Executed β}
    (capturing : captures ≠ []) (holds : Holds s f)
    (h : launchTransform ctx o s kernel input output count es outEs captures = (s', some e)) :
    e.set.uniform = capturesBlock captures ∧ Holds s' f := by
  obtain ⟨b, b', -, -, -, ⟨none, -⟩ | ⟨-, set, same, -⟩⟩ := launchTransform_executed h
  · exact absurd none capturing
  · rw [if_neg capturing] at same
    exact ⟨by rw [set], fun key => by rw [same, holds key]⟩

theorem perform_block {c : Call β} {e : Executed β} (capturing : c.Capturing) (holds : Holds s f)
    (h : perform ctx o s c = (s', some e)) :
    e.set.uniform = capturesBlock (used f c) ∧ Holds s' fun key => (f key).or (c.caches key) := by
  cases c with
  | launch => exact capturing.elim
  | launchWithCaptures => exact launchWithCaptures_block holds h
  | launchTransform =>
    obtain ⟨block, holds'⟩ := launchTransform_block capturing holds h
    exact ⟨block, by simpa only [Call.caches, Option.or_none] using holds'⟩

theorem ownCaptures_perform {c : Call β} {e : Executed β} (capturing : c.Capturing) (holds : Holds s f)
    (h : perform ctx o s c = (s', some e)) :
    OwnCaptures c e.set ↔ ∀ key x y, c.caches key = some x → (f key).or (some x) = some y → x <+: y := by
  rw [ownCaptures_iff (perform_block capturing holds h).1]
  cases c with
  | launch => exact capturing.elim
  | launchWithCaptures kernel buffer count captures es =>
    constructor
    · intro own key x y caches known
      simp only [Call.caches] at caches
      split at caches
      · next same =>
        subst same
        cases caches
        cases held : f (kernel, buffer) with
        | none =>
          rw [held, Option.none_or] at known
          cases known
          exact List.prefix_rfl
        | some y' =>
          rw [held, Option.some_or] at known
          cases known
          simpa [used, Call.captures, held] using own
      · cases caches
    · intro own
      have := own (kernel, buffer) captures ((f (kernel, buffer)).getD captures) (if_pos rfl)
      apply this
      cases f (kernel, buffer) <;> rfl
  | launchTransform kernel input output count es outEs captures =>
    constructor
    · intro _ key x y caches
      cases caches
    · intro _
      exact List.prefix_rfl

/-- The first captures under a key, when the launcher has cached those in `f` before. -/
theorem first_cons {c : Call β × Outcome} {calls : List (Call β × Outcome)} {key : String × Nat} :
    (f key).or (firstCaptures (c :: calls) key) = ((f key).or (c.1.caches key)).or (firstCaptures calls key) := by
  unfold firstCaptures
  rw [List.findSome?_cons, Option.or_assoc]
  cases c.1.caches key <;> rfl

theorem capturesOwn_iff_of_holds {calls : List (Call β × Outcome)} (capturing : ∀ c ∈ calls, c.1.Capturing)
    (succeed : Succeed ctx s calls) (holds : Holds s f) : CapturesOwn ctx s calls ↔
      ∀ c ∈ calls, ∀ key x y, c.1.caches key = some x → (f key).or (firstCaptures calls key) = some y → x <+: y := by
  induction calls generalizing s f with
  | nil => simp [CapturesOwn]
  | cons c calls ih =>
    obtain ⟨first, rest⟩ := succeed
    obtain ⟨e, executed⟩ := Option.isSome_iff_exists.mp first
    have performed : perform ctx c.2 s c.1 = ((perform ctx c.2 s c.1).1, some e) := Prod.ext rfl executed
    have here := ownCaptures_perform (capturing c List.mem_cons_self) holds performed
    have later := ih (fun c' h => capturing c' (List.mem_cons_of_mem _ h)) rest
      (perform_block (capturing c List.mem_cons_self) holds performed).2
    have dispatched : (∀ e, (perform ctx c.2 s c.1).2 = some e → OwnCaptures c.1 e.set) ↔ OwnCaptures c.1 e.set :=
      ⟨fun own => own e executed, fun own e' executed' => by
        rw [executed, Option.some.injEq] at executed'
        rw [← executed']
        exact own⟩
    unfold CapturesOwn
    rw [dispatched, here, later]
    simp only [List.forall_mem_cons, first_cons]
    refine and_congr (forall_congr' fun key => forall_congr' fun x => forall_congr' fun y => ?_) Iff.rfl
    refine imp_congr_right fun caches => ?_
    rw [caches]
    cases f key <;> simp

/-- Where a call dispatches, it does so too with its set made anew, from the same buffers. -/
theorem rebuild_of_perform {c : Call β} {e : Executed β} (capturing : c.Capturing) (same : t.manager = s.manager)
    (h : perform ctx o s c = (s', some e)) :
    ∃ t' e', rebuild ctx o t c = (t', some e') ∧ t'.manager = s'.manager ∧
      e'.set.uniform = capturesBlock c.captures := by
  have succeeded : (perform ctx o s c).2.isSome := by rw [h]; rfl
  have empty : Holds { t with cache := fun _ => none } (fun _ => none) := fun _ => rfl
  have alone : used (fun _ => none) c = c.captures := by cases c <;> rfl
  have again : (rebuild ctx o t c).2.isSome := by
    cases c with
    | launch => exact capturing.elim
    | launchWithCaptures =>
      obtain ⟨loaded, found, -, submits⟩ := launchWithCaptures_isSome.mp succeeded
      rw [← same] at found
      exact launchWithCaptures_isSome.mpr ⟨loaded, found, Or.inr rfl, submits⟩
    | launchTransform =>
      obtain ⟨loaded, foundIn, foundOut, -, submits⟩ := launchTransform_isSome.mp succeeded
      rw [← same] at foundIn foundOut
      exact launchTransform_isSome.mpr ⟨loaded, foundIn, foundOut, Or.inr rfl, submits⟩
  obtain ⟨e', executed⟩ := Option.isSome_iff_exists.mp again
  have rebuilt : rebuild ctx o t c = ((rebuild ctx o t c).1, some e') := Prod.ext rfl executed
  refine ⟨_, e', rebuilt, ?_, by rw [(perform_block capturing empty rebuilt).1, alone]⟩
  cases c with
  | launch => exact capturing.elim
  | launchWithCaptures =>
    obtain ⟨b, -, left, -⟩ := launchWithCaptures_executed h
    obtain ⟨b', -, right, -⟩ := launchWithCaptures_executed rebuilt
    rw [left, right, ← same]
    rfl
  | launchTransform =>
    obtain ⟨b, b', -, -, left, -⟩ := launchTransform_executed h
    obtain ⟨c, c', -, -, right, -⟩ := launchTransform_executed rebuilt
    rw [left, right, ← same]
    rfl

theorem capturesAgree_iff_own {calls : List (Call β × Outcome)} (capturing : ∀ c ∈ calls, c.1.Capturing)
    (succeed : Succeed ctx s calls) (holds : Holds s f) (same : t.manager = s.manager) :
    CapturesAgree ctx s t calls ↔ CapturesOwn ctx s calls := by
  induction calls generalizing s t f with
  | nil => exact Iff.rfl
  | cons c calls ih =>
    obtain ⟨first, rest⟩ := succeed
    obtain ⟨e, executed⟩ := Option.isSome_iff_exists.mp first
    have performed : perform ctx c.2 s c.1 = ((perform ctx c.2 s c.1).1, some e) := Prod.ext rfl executed
    obtain ⟨t', e', rebuilt, manager, block⟩ := rebuild_of_perform (capturing c List.mem_cons_self) same performed
    have own : OwnCaptures c.1 e'.set := (ownCaptures_iff block).mpr List.prefix_rfl
    unfold CapturesAgree CapturesOwn
    rw [rebuilt]
    apply and_congr
    · constructor
      · rintro ⟨e₁, e₂, executed₁, executed₂, agree⟩ e₃ executed₃
        rw [executed₁, Option.some.injEq] at executed₃
        rw [Option.some.injEq] at executed₂
        rw [← executed₃]
        exact agree.trans (executed₂ ▸ own)
      · intro fresh
        exact ⟨e, e', executed, rfl, (fresh e executed).trans own.symm⟩
    · exact ih (fun c' h => capturing c' (List.mem_cons_of_mem _ h)) rest
        (perform_block (capturing c List.mem_cons_self) holds performed).2 manager

/-- From a launcher that has cached nothing: the dispatches have their own captures, and agree with
the run that makes every set anew, exactly when each call repeats, at its start, the captures first
given for its kernel and buffer. -/
theorem captures_fresh_iff {calls : List (Call β × Outcome)} (empty : s.cache = fun _ => none)
    (capturing : ∀ c ∈ calls, c.1.Capturing) (succeed : Succeed ctx s calls) :
    (CapturesOwn ctx s calls ↔ Repeating calls) ∧ (CapturesAgree ctx s s calls ↔ Repeating calls) := by
  have holds : Holds s (fun _ => none) := by
    intro key
    rw [empty]
    rfl
  have own : CapturesOwn ctx s calls ↔ Repeating calls := by
    simpa only [Repeating, Option.none_or] using capturesOwn_iff_of_holds capturing succeed holds
  exact ⟨own, (capturesAgree_iff_own capturing succeed holds rfl).trans own⟩

end

/-- One kernel and one arena buffer, filled twice. -/
def fillTwice (first second : List Nat) : List (Call Nat × Outcome) :=
  [(.launchWithCaptures "kernel_0" 4096 16 first 4, ⟨fun _ => none, true, true⟩),
   (.launchWithCaptures "kernel_0" 4096 16 second 4, ⟨fun _ => none, true, true⟩)]

theorem fillTwice_capturing {first second : List Nat} : ∀ c ∈ fillTwice first second, c.1.Capturing := by
  simp [fillTwice, Call.Capturing]

theorem fillTwice_succeed {first second : List Nat} {m : MemoryManager Nat} :
    Succeed smallArena ⟨m, fun _ => none, 0⟩ (fillTwice first second) := ⟨rfl, rfl, trivial⟩

/-- Filling with 7 and then with 9 runs the second kernel with 7. -/
theorem stale_captures : ¬ ∀ (ctx : Context) (s : KernelLauncher Nat) (calls : List (Call Nat × Outcome)),
    s.cache = (fun _ => none) → (∀ c ∈ calls, c.1.Capturing) → Succeed ctx s calls → CapturesOwn ctx s calls := by
  intro own
  have run := own smallArena ⟨⟨fun _ => none, 0, fun _ => 0, fun _ => 0⟩, fun _ => none, 0⟩ (fillTwice [7] [9]) rfl
    fillTwice_capturing fillTwice_succeed
  have second : [some 7] = [some 9] := run.2.1 _ rfl
  simp at second

theorem captures_fresh_repeated : (CapturesOwn smallArena ⟨⟨fun _ => none, 0, fun _ => 0, fun _ => 0⟩, fun _ => none, 0⟩
      (fillTwice [7, 8] [7]) ↔ Repeating (fillTwice [7, 8] [7])) ∧
    (CapturesAgree smallArena ⟨⟨fun _ => none, 0, fun _ => 0, fun _ => 0⟩, fun _ => none, 0⟩
      ⟨⟨fun _ => none, 0, fun _ => 0, fun _ => 0⟩, fun _ => none, 0⟩ (fillTwice [7, 8] [7]) ↔ Repeating (fillTwice [7, 8] [7])) :=
  captures_fresh_iff rfl fillTwice_capturing fillTwice_succeed

end Parallax.Elementwise
