import ParallaxRuntime.Elementwise.Launch
import ParallaxRuntime.Launcher.Budget

/-!
# The descriptor pool over whole runs

`vkFreeDescriptorSets` is called nowhere, so a run holds every set that it has taken.
-/

namespace Parallax.Elementwise
open Memory Launcher

/-- A call of the launcher, of either kind. -/
inductive Operation (β : Type) where
  | primitive (a : Launcher.Action β)
  | elementwise (c : Call β)

structure Pool (β : Type) where
  launcher : KernelLauncher β
  exceeded : Bool

variable {β : Type}

/-- One operation that finds its kernels, its scratch and the queue, and gets every set it asks for. -/
inductive Ran [Zero β] (hv : HostValues β) (ctx : Context) : Pool β → Operation β → Pool β → Prop
  | primitive {s : Pool β} {a : Launcher.Action β} {r : a.Res} {b : Budget} (ready : a.Ready ctx) (returned : a.Returned r)
      (run : (a.prog hv ctx).Run (grantingStep ctx) ⟨s.launcher.sets, s.exceeded⟩ r b) :
      Ran hv ctx s (.primitive a) ⟨{ s.launcher with sets := b.sets }, b.exceeded⟩
  | elementwise {s : Pool β} {c : Call β} {o : Outcome} {e : Executed β} {launcher : KernelLauncher β}
      (granted : o.allocatesSet = true) (run : perform ctx o s.launcher c = (launcher, some e)) :
      Ran hv ctx s (.elementwise c)
        ⟨launcher, s.exceeded || decide (s.launcher.sets < launcher.sets ∧ maxSets ≤ s.launcher.sets)⟩

inductive Runs [Zero β] (hv : HostValues β) (ctx : Context) : Pool β → List (Operation β) → Pool β → Prop
  | nil (s : Pool β) : Runs hv ctx s [] s
  | cons {s s₁ s' : Pool β} {op : Operation β} {ops : List (Operation β)} (first : Ran hv ctx s op s₁)
      (rest : Runs hv ctx s₁ ops s') : Runs hv ctx s (op :: ops) s'

/-- The key under which a call looks for its set. -/
def Call.cacheKey : Call β → Option (String × Nat)
  | .launch kernel buffer _ _ | .launchWithCaptures kernel buffer _ _ _ => some (kernel, buffer)
  | .launchTransform kernel _ output _ _ _ captures => if captures.isEmpty then some (kernel, output) else none

/-- The sets that a call takes when there are cached ones for `seen`. -/
def Call.sets (seen : List (String × Nat)) (c : Call β) : Nat :=
  c.cacheKey.elim 1 fun key => if key ∈ seen then 0 else 1

/-- The sets that a run takes when there are cached ones for `seen`. -/
def setsFrom (seen : List (String × Nat)) : List (Operation β) → Nat
  | [] => 0
  | .primitive a :: ops => a.sets + setsFrom seen ops
  | .elementwise c :: ops => c.sets seen + setsFrom (c.cacheKey.toList ++ seen) ops

section
variable {ctx : Context} {o : Outcome} {s s' : KernelLauncher β}

/-- There are cached sets for `seen`. -/
def Cached (s : KernelLauncher β) (seen : List (String × Nat)) : Prop := ∀ key, (s.cache key).isSome ↔ key ∈ seen

theorem cached_update {seen : List (String × Nat)} (cached : Cached s seen) {key : String × Nat} {set : DescriptorSet β}
    (written : s'.cache = Function.update s.cache key (some set)) : Cached s' (key :: seen) := by
  intro key'
  rw [written, List.mem_cons]
  by_cases same : key' = key
  · subst same
    simp
  · rw [Function.update_of_ne same]
    simp [same, cached key']

theorem cached_again {seen : List (String × Nat)} (cached : Cached s seen) {key : String × Nat} {set : DescriptorSet β}
    (found : s.cache key = some set) (same : s'.cache = s.cache) : Cached s' (key :: seen) := by
  have here : key ∈ seen := (cached key).mp (by rw [found]; rfl)
  intro key'
  rw [same, cached key', List.mem_cons]
  exact ⟨Or.inr, fun h => h.elim (fun eq => eq ▸ here) id⟩

theorem perform_sets {seen : List (String × Nat)} {c : Call β} {e : Executed β} (cached : Cached s seen)
    (h : perform ctx o s c = (s', some e)) :
    s'.sets = s.sets + c.sets seen ∧ Cached s' (c.cacheKey.toList ++ seen) := by
  cases c with
  | launch kernel buffer count es =>
    obtain ⟨b, -, -, rfl⟩ := launch_executed h
    refine ⟨?_, cached_update cached rfl⟩
    have known := cached (kernel, buffer)
    cases found : s.cache (kernel, buffer) with
    | none =>
      have absent : (kernel, buffer) ∉ seen := by simpa [found] using known
      simp [Call.sets, Call.cacheKey, absent]
    | some set =>
      have here : (kernel, buffer) ∈ seen := by simpa [found] using known
      simp [Call.sets, Call.cacheKey, here]
  | launchWithCaptures kernel buffer count captures es =>
    obtain ⟨b, -, -, ⟨found, same, sets⟩ | ⟨missing, -, written, sets⟩⟩ := launchWithCaptures_executed h
    · have here : (kernel, buffer) ∈ seen := (cached _).mp (by rw [found]; rfl)
      exact ⟨by simp [sets, Call.sets, Call.cacheKey, here], cached_again cached found same⟩
    · have absent : (kernel, buffer) ∉ seen := fun here => by simpa [missing] using (cached _).mpr here
      exact ⟨by simp [sets, Call.sets, Call.cacheKey, absent], cached_update cached written⟩
  | launchTransform kernel input output count es outEs captures =>
    obtain ⟨b, b', -, -, -, ⟨capturing, found, same, sets⟩ | ⟨missing, -, written, sets⟩⟩ := launchTransform_executed h
    · have here : (kernel, output) ∈ seen := (cached _).mp (by rw [found]; rfl)
      subst capturing
      exact ⟨by simp [sets, Call.sets, Call.cacheKey, here], cached_again cached found same⟩
    · by_cases capturing : captures = []
      · have absent : (kernel, output) ∉ seen := fun here => by simpa [missing capturing] using (cached _).mpr here
        subst capturing
        exact ⟨by simp [sets, Call.sets, Call.cacheKey, absent], cached_update cached written⟩
      · rw [if_neg capturing] at written
        have none : (Call.launchTransform kernel input output count es outEs captures).cacheKey = none := by
          simp [Call.cacheKey, capturing]
        refine ⟨by rw [sets, Call.sets, none]; rfl, ?_⟩
        rw [none]
        exact fun key => by rw [written]; exact cached key

variable [Zero β] {hv : HostValues β} {S S' : Pool β}

/-- An operation adds its sets; it exceeds the pool if they go over `maxSets`. -/
theorem ran_sets {seen : List (String × Nat)} {op : Operation β} (cached : Cached S.launcher seen)
    (ran : Ran hv ctx S op S') : ∃ n seen', (∀ ops, setsFrom seen (op :: ops) = n + setsFrom seen' ops) ∧
      Cached S'.launcher seen' ∧ S'.launcher.sets = S.launcher.sets + n ∧
      (S'.exceeded = true ↔ S.exceeded = true ∨ 0 < n ∧ maxSets < S.launcher.sets + n) := by
  cases ran with
  | @primitive a r b ready returned run =>
    obtain rfl := (Action.costs ready).run run returned
    exact ⟨a.sets, seen, fun _ => rfl, cached, charge_sets, charge_exceeded⟩
  | @elementwise c o e launcher granted run =>
    obtain ⟨sets, cached'⟩ := perform_sets cached run
    have one : c.sets seen ≤ 1 := by
      unfold Call.sets
      cases c.cacheKey with
      | none => exact Nat.le_refl 1
      | some key =>
        rw [Option.elim_some]
        split <;> decide
    refine ⟨c.sets seen, _, fun _ => rfl, cached', sets, ?_⟩
    simp only [Bool.or_eq_true, decide_eq_true_eq]
    apply or_congr_right
    omega

theorem runs_sets {seen : List (String × Nat)} {ops : List (Operation β)} (cached : Cached S.launcher seen)
    (fits : S.exceeded = true ↔ maxSets < S.launcher.sets) (runs : Runs hv ctx S ops S') :
    S'.launcher.sets = S.launcher.sets + setsFrom seen ops ∧ (S'.exceeded = true ↔ maxSets < S'.launcher.sets) := by
  induction runs generalizing seen with
  | nil S => exact ⟨rfl, fits⟩
  | @cons S S₁ S' op ops first rest ih =>
    obtain ⟨n, seen', split, cached', sets, exceeded⟩ := ran_sets cached first
    have fits' : S₁.exceeded = true ↔ maxSets < S₁.launcher.sets := by
      rw [exceeded, fits, sets]
      omega
    obtain ⟨total, final⟩ := ih cached' fits'
    rw [split, total, sets]
    exact ⟨Nat.add_assoc _ _ _, by rw [final, total, sets]⟩

/-- No set has been taken. -/
def newPool (m : MemoryManager β) : Pool β := ⟨⟨m, fun _ => none, 0⟩, false⟩

/-- A run from the start keeps to the pool exactly when its reductions, scans, sorts and other
primitives, its first launches on each pointer and its capturing transforms take at most 1024 sets. -/
theorem descriptor_budget_iff {m : MemoryManager β} {ops : List (Operation β)} (runs : Runs hv ctx (newPool m) ops S') :
    S'.exceeded = false ↔ setsFrom [] ops ≤ maxSets := by
  have cached : Cached (newPool m).launcher [] := fun key => by simp [newPool]
  obtain ⟨total, exceeded⟩ := runs_sets cached (by simp [newPool]) runs
  rw [← Bool.not_eq_true, exceeded, total, Nat.not_lt]
  exact iff_of_eq (congrArg (· ≤ maxSets) (Nat.zero_add _))

end

/-- Sixteen elements from one arena buffer to another, with one captured cell. -/
def capturingTransform : Call Nat := .launchTransform "kernel_0" 4096 8192 16 4 4 [7]

theorem capturingTransform_ran (S : Pool Nat) : ∃ S', Ran firstCell smallArena S (.elementwise capturingTransform) S' := by
  have done : (perform smallArena ⟨fun _ => none, true, true⟩ S.launcher capturingTransform).2.isSome :=
    launchTransform_isSome.mpr ⟨rfl, rfl, rfl, Or.inr rfl, rfl⟩
  obtain ⟨e, executed⟩ := Option.isSome_iff_exists.mp done
  exact ⟨_, .elementwise rfl (Prod.ext rfl executed)⟩

theorem capturingTransforms_run (n : Nat) (S : Pool Nat) :
    ∃ S', Runs firstCell smallArena S (List.replicate n (.elementwise capturingTransform)) S' := by
  induction n generalizing S with
  | zero => exact ⟨S, .nil S⟩
  | succ n ih =>
    obtain ⟨S₁, first⟩ := capturingTransform_ran S
    obtain ⟨S', rest⟩ := ih S₁
    exact ⟨S', .cons first rest⟩

theorem capturingTransforms_sets (n : Nat) (seen : List (String × Nat)) :
    setsFrom seen (List.replicate n (.elementwise capturingTransform)) = n := by
  induction n with
  | zero => rfl
  | succ n ih =>
    rw [List.replicate_succ, setsFrom, show capturingTransform.cacheKey = none from rfl, Option.toList_none, List.nil_append,
      ih, Nat.add_comm]
    rfl

/-- After 1024 transforms with captures the next one asks for a set that the pool need not have. -/
theorem descriptor_pool_exhausted : ¬ ∀ (hv : HostValues Nat) (ctx : Context) (m : MemoryManager Nat)
    (ops : List (Operation Nat)) (S' : Pool Nat), Runs hv ctx (newPool m) ops S' → S'.exceeded = false := by
  intro fits
  obtain ⟨S', runs⟩ := capturingTransforms_run 1025 (newPool ⟨fun _ => none, 0, fun _ => 0, fun _ => 0⟩)
  have cached : Cached (newPool (⟨fun _ => none, 0, fun _ => 0, fun _ => 0⟩ : MemoryManager Nat)).launcher [] := fun key => by simp [newPool]
  obtain ⟨total, exceeded⟩ := runs_sets cached (by simp [newPool]) runs
  rw [capturingTransforms_sets] at total
  have beyond : maxSets < S'.launcher.sets := by
    rw [total]
    decide
  rw [fits _ _ _ _ _ runs] at exceeded
  exact absurd (exceeded.mpr beyond) Bool.false_ne_true

theorem descriptor_budget_twice : ∃ S', Runs firstCell smallArena (newPool ⟨fun _ => none, 0, fun _ => 0, fun _ => 0⟩)
    (List.replicate 2 (.elementwise capturingTransform)) S' ∧
    (S'.exceeded = false ↔ setsFrom [] (List.replicate 2 (.elementwise capturingTransform)) ≤ maxSets) := by
  obtain ⟨S', runs⟩ := capturingTransforms_run 2 (newPool ⟨fun _ => none, 0, fun _ => 0, fun _ => 0⟩)
  exact ⟨S', runs, descriptor_budget_iff runs⟩

end Parallax.Elementwise
