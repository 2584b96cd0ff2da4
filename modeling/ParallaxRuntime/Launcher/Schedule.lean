import Mathlib.Data.List.Range
import ParallaxRuntime.Launcher.Primitives

/-!
# The stages of a sort

The loops of `launch_sort` as one list of stages, and for which counts they end with it.
-/

namespace Parallax.Launcher
open Memory Effects

section
variable {β : Type} {kernel : String} {data : Binding} {n groups : Nat}

/-- One dispatch after the other, up to the first that fails. -/
def runStages (kernel : String) (data : Binding) (n groups : Nat) : List (Nat × Nat) → Launch β Bool
  | [] => pure true
  | (k, j) :: stages => do
    let ok ← dispatchSortStage kernel data n k j groups
    if ok then runStages kernel data n groups stages else pure false

/-- The stages of one round. -/
def roundStages (k t : Nat) : List (Nat × Nat) := (List.range t).reverse.map fun b => (k, 2 ^ b)

/-- The stages of the rounds from the `i`-th on. -/
def stagesFrom (i m : Nat) : List (Nat × Nat) := (List.range' i (m - i)).flatMap fun a => roundStages (2 ^ (a + 1)) (a + 1)

def stages (m : Nat) : List (Nat × Nat) := stagesFrom 0 m

@[simp] theorem roundStages_succ (k t : Nat) : roundStages k (t + 1) = (k, 2 ^ t) :: roundStages k t := by
  simp [roundStages, List.range_succ]

@[simp] theorem stagesFrom_self (m : Nat) : stagesFrom m m = [] := by
  simp [stagesFrom]

theorem stagesFrom_of_lt {i m : Nat} (h : i < m) :
    stagesFrom i m = roundStages (2 ^ (i + 1)) (i + 1) ++ stagesFrom (i + 1) m := by
  have more : m - i = (m - (i + 1)) + 1 := by omega
  rw [stagesFrom, more, List.range'_succ, List.flatMap_cons, stagesFrom]

theorem mem_stages {m k j : Nat} : (k, j) ∈ stages m ↔ ∃ a b, 1 ≤ a ∧ a ≤ m ∧ b < a ∧ k = 2 ^ a ∧ j = 2 ^ b := by
  simp only [stages, stagesFrom, roundStages, List.mem_flatMap, List.mem_range'_1, List.mem_map, List.mem_reverse,
    List.mem_range, Prod.mk.injEq]
  constructor
  · rintro ⟨a, ha, b, hb, rfl, rfl⟩
    exact ⟨a + 1, b, by omega, by omega, hb, rfl, rfl⟩
  · rintro ⟨a, b, one, le, hb, rfl, rfl⟩
    exact ⟨a - 1, by omega, b, by omega, by rw [Nat.sub_add_cancel one], rfl⟩

theorem stages_ne_nil {m : Nat} (h : 1 ≤ m) : stages m ≠ [] := by
  intro none
  have first : (2 ^ 1, 2 ^ 0) ∈ stages m := mem_stages.mpr ⟨1, 0, Nat.le_refl 1, h, Nat.one_pos, rfl, rfl⟩
  rw [none] at first
  cases first

/-! ### The loops -/

theorem runStages_append (first rest : List (Nat × Nat)) :
    runStages (β := β) kernel data n groups (first ++ rest) =
      runStages kernel data n groups first >>= fun ok => if ok then runStages kernel data n groups rest else pure false := by
  induction first with
  | nil => rfl
  | cons stage first ih =>
    rw [List.cons_append, runStages, runStages, Prog.bind_assoc]
    congr 1
    funext ok
    cases ok with
    | true => simpa using ih
    | false => rfl

theorem sortInner_stages (k t : Nat) :
    sortInner (β := β) kernel data n k groups (2 ^ t / 2) = runStages kernel data n groups (roundStages k t) := by
  induction t with
  | zero =>
    rw [sortInner]
    rfl
  | succ t ih =>
    have half : 2 ^ (t + 1) / 2 = 2 ^ t := by rw [Nat.pow_succ, Nat.mul_div_cancel _ (by decide)]
    rw [sortInner, half, if_pos (Nat.two_pow_pos t), ih, roundStages_succ, runStages]

/-- Up to `2 ^ 30` the loops run the stages and end. -/
theorem sortOuter_stages {m fuel i : Nat} (small : m ≤ 30) (le : i ≤ m) (rounds : m - i < fuel) :
    sortOuter (β := β) kernel data (2 ^ m) groups fuel (2 ^ (i + 1)) =
      runStages kernel data (2 ^ m) groups (stagesFrom i m) >>= fun ok => pure (some ok) := by
  induction fuel generalizing i with
  | zero => omega
  | succ fuel ih =>
    rw [sortOuter]
    rcases Nat.lt_or_eq_of_le le with more | rfl
    · have next : 2 ^ (i + 1) * 2 % 2 ^ 32 = 2 ^ (i + 1 + 1) := by
        rw [← Nat.pow_succ, Nat.mod_eq_of_lt (Nat.pow_lt_pow_right (by decide) (by omega))]
      rw [if_pos (Nat.pow_le_pow_right (by decide) more), sortInner_stages, next, ih more (by omega), stagesFrom_of_lt more,
        runStages_append, Prog.bind_assoc]
      congr 1
      funext ok
      cases ok with
      | true => rfl
      | false => rfl
    · rw [if_neg (Nat.not_le_of_lt (Nat.pow_lt_pow_right (by decide) (Nat.lt_succ_self i))), stagesFrom_self]
      rfl

/-- From `2 ^ 31` on the doubled `k` is 0 again, and the outer loop goes on. -/
theorem sortOuter_endless {H : Handler (ops β) (List (Nat × Nat))} {fuel k : Nat} {log : List (Nat × Nat)}
    (round : k = 0 ∨ ∃ i ≤ 31, k = 2 ^ i)
    (inner : ∀ k j log, (sortInner (β := β) kernel data (2 ^ 31) k groups j).Ensures H (fun ok _ => ok = true) log) :
    (sortOuter (β := β) kernel data (2 ^ 31) groups fuel k).Ensures H (fun r _ => r = none) log := by
  induction fuel generalizing k log with
  | zero => simp [sortOuter]
  | succ fuel ih =>
    have within : k ≤ 2 ^ 31 := by
      rcases round with rfl | ⟨i, le, rfl⟩
      · exact Nat.zero_le _
      · exact Nat.pow_le_pow_right (by decide) le
    have next : k * 2 % 2 ^ 32 = 0 ∨ ∃ i ≤ 31, k * 2 % 2 ^ 32 = 2 ^ i := by
      rcases round with rfl | ⟨i, le, rfl⟩
      · exact Or.inl rfl
      · rcases Nat.lt_or_eq_of_le le with lt | rfl
        · exact Or.inr ⟨i + 1, lt, by rw [← Nat.pow_succ, Nat.mod_eq_of_lt (Nat.pow_lt_pow_right (by decide) (by omega))]⟩
        · exact Or.inl rfl
    rw [sortOuter, if_pos within]
    apply (inner k (k / 2) log).bind
    intro ok log' on
    rw [if_pos on]
    exact ih next

end

/-! ### Which counts are sorted -/

section
variable {β : Type}

/-- Nothing fails, and the stages submitted are written down. -/
def recordingStep : Step (ops β) (List (Nat × Nat))
  | .submit d, log, ok, log' => ok = true ∧ log' = log ++ [d.push.stage]
  | .allocateDescriptorSet, log, ok, log' => ok = true ∧ log' = log
  | .getBuffer _, log, buffer, log' => @Ne Nat buffer 0 ∧ log' = log
  | _, log, _, log' => log' = log

def recording : Handler (ops β) (List (Nat × Nat)) := ⟨fun _ _ => True, recordingStep⟩

/-- For all rounds that may be needed `launch_sort` comes back, having submitted the stages in their order. -/
def RunsStages (β : Type) [Inhabited β] (ctx : Context) (kernel : String) (data es m : Nat) : Prop :=
  ∃ fuel, (∃ r log, (launchSort (β := β) ctx kernel data (2 ^ m) es fuel).Run recordingStep [] r log) ∧
    ∀ r log, (launchSort (β := β) ctx kernel data (2 ^ m) es fuel).Run recordingStep [] r log →
      r = some true ∧ log = stages m

variable {ctx : Context} {kernel : String} {data es m n groups : Nat} {binding : Binding} {log : List (Nat × Nat)} {α : Type}

theorem recording_progress [Inhabited β] (o : Op β) (log : List (Nat × Nat)) :
    ∃ x log', recordingStep o log x log' := by
  cases o with
  | submit d => exact ⟨true, _, rfl, rfl⟩
  | allocateDescriptorSet => exact ⟨true, log, rfl, rfl⟩
  | getBuffer p => exact ⟨(1 : Nat), log, Nat.one_ne_zero, rfl⟩
  | allocate size align => exact ⟨(0 : Nat), log, rfl⟩
  | read p n => exact ⟨fun _ => default, log, rfl⟩
  | _ => exact ⟨(), log, rfl⟩

theorem records_stage {k j : Nat} :
    (dispatchSortStage (β := β) kernel binding n k j groups).Ensures recording (fun ok log' => ok = true ∧ log' = log ++ [(k, j)])
      log := by
  refine Prog.ensures_op_bind.mpr ⟨trivial, fun (set : Bool) log₁ ⟨made, same⟩ => ?_⟩
  subst made same
  refine ⟨trivial, fun _ log₂ same => ⟨trivial, fun (ok : Bool) log₃ ⟨done, written⟩ => ?_⟩⟩
  obtain rfl : log₂ = log₁ := same
  subst done
  apply Prog.ensures_call trivial
  intro _ log₄ same
  obtain rfl : log₄ = log₃ := same
  exact ⟨rfl, written⟩

theorem records_stages (l : List (Nat × Nat)) :
    (runStages (β := β) kernel binding n groups l).Ensures recording (fun ok log' => ok = true ∧ log' = log ++ l) log := by
  induction l generalizing log with
  | nil => exact ⟨rfl, (List.append_nil log).symm⟩
  | cons stage l ih =>
    apply records_stage.bind
    rintro ok log₁ ⟨done, rfl⟩
    rw [if_pos done]
    apply ih.mono
    rintro r log₂ ⟨done', rfl⟩
    exact ⟨done', by simp⟩

theorem records_inner (k j : Nat) :
    (sortInner (β := β) kernel binding n k groups j).Ensures recording (fun ok _ => ok = true) log := by
  induction j using Nat.strong_induction_on generalizing log with
  | _ j ih =>
    rw [sortInner]
    refine Prog.ensures_ite (fun more => ?_) fun _ => rfl
    apply records_stage.bind
    rintro ok log₁ ⟨done, _⟩
    rw [if_pos done]
    exact ih (j / 2) (by omega)

theorem records_resolve {p range : Nat} {Q : α → List (Nat × Nat) → Prop} {f : Option Binding → Launch β α}
    (h : ∀ b, (f (some b)).Ensures recording Q log) : (ctx.resolve p range true >>= f).Ensures recording Q log := by
  unfold Context.resolve
  split
  · exact h _
  · apply Prog.Ensures.bind (R := fun b log' => (∃ b', b = some b') ∧ log' = log)
    · refine Prog.ensures_op_bind.mpr ⟨trivial, fun (known : Nat) log₁ ⟨found, same⟩ => ?_⟩
      subst same
      dsimp only
      rw [if_neg found]
      exact Prog.ensures_ite (fun null => absurd null found) fun _ => ⟨trivial, fun _ _ same => ⟨⟨_, rfl⟩, same⟩⟩
    · rintro b log' ⟨⟨b', rfl⟩, rfl⟩
      exact h b'

theorem records_launch {fuel : Nat} {Q : Option Bool → List (Nat × Nat) → Prop} (loaded : ctx.loaded kernel = true) (one : 1 ≤ m)
    (loops : ∀ binding, (sortOuter (β := β) kernel binding (2 ^ m % 2 ^ 32) ((2 ^ m % 2 ^ 32 + 255) % 2 ^ 32 / 256) fuel 2).Ensures
      recording Q []) :
    (launchSort ctx kernel data (2 ^ m) es fuel).Ensures (recording (β := β)) Q [] := by
  have many : 2 ^ 1 ≤ 2 ^ m := Nat.pow_le_pow_right (by decide) one
  unfold launchSort
  apply Prog.ensures_call trivial
  intro _ log same
  obtain rfl : log = [] := same
  have leave : ∀ r log, Q r log → (do leave; pure r : Launch β (Option Bool)).Ensures recording Q log := by
    intro r log post
    apply Prog.ensures_call trivial
    intro _ log' same
    obtain rfl : log' = log := same
    exact post
  apply Prog.Ensures.bind (R := Q) _ leave
  rw [if_neg (by simp [loaded]), if_neg (by omega), if_neg (by simp [Nat.and_two_pow_sub_one_eq_mod])]
  apply records_resolve
  intro binding
  apply (loops binding).bind
  intro done log post
  refine Prog.ensures_ite (fun _ => ?_) fun _ => post
  unfold Context.download
  split
  · apply Prog.ensures_call trivial
    intro _ log' same
    obtain rfl : log' = log := same
    exact post
  · exact post

theorem launchSort_endless {fuel : Nat} (loaded : ctx.loaded kernel = true) :
    (launchSort (β := β) ctx kernel data (2 ^ 31) es fuel).Ensures recording (fun r _ => r = none) [] := by
  apply records_launch loaded (by decide)
  intro binding
  rw [Nat.mod_eq_of_lt (by decide)]
  exact sortOuter_endless (Or.inr ⟨1, by decide, rfl⟩) fun k j log => records_inner k j

/-- From `2 ^ 32` elements on the count is 0 to the loops. -/
theorem launchSort_skips {fuel : Nat} (loaded : ctx.loaded kernel = true) (large : 32 ≤ m) :
    (launchSort (β := β) ctx kernel data (2 ^ m) es fuel).Ensures recording (fun _ log => log = []) [] := by
  apply records_launch loaded (by omega)
  intro binding
  have none : 2 ^ m % 2 ^ 32 = 0 := Nat.mod_eq_zero_of_dvd (Nat.pow_dvd_pow 2 large)
  rw [none]
  cases fuel with
  | zero => exact rfl
  | succ fuel =>
    rw [sortOuter, if_neg (by decide)]
    exact rfl

theorem launchSort_stages (loaded : ctx.loaded kernel = true) (one : 1 ≤ m) (small : m ≤ 30) :
    (launchSort (β := β) ctx kernel data (2 ^ m) es (m + 1)).Ensures recording (fun r log => r = some true ∧ log = stages m)
      [] := by
  apply records_launch loaded one
  intro binding
  have whole : 2 ^ m % 2 ^ 32 = 2 ^ m := Nat.mod_eq_of_lt (Nat.pow_lt_pow_right (by decide) (by omega))
  have loops : sortOuter (β := β) kernel binding (2 ^ m) ((2 ^ m + 255) % 2 ^ 32 / 256) (m + 1) 2 =
      runStages kernel binding (2 ^ m) ((2 ^ m + 255) % 2 ^ 32 / 256) (stages m) >>= fun ok => pure (some ok) :=
    sortOuter_stages small (Nat.zero_le m) (by omega)
  rw [whole, loops]
  apply (records_stages _).bind
  rintro ok log ⟨rfl, rfl⟩
  exact ⟨rfl, rfl⟩

variable [Inhabited β]

theorem RunsStages.small (h : RunsStages β ctx kernel data es m) (loaded : ctx.loaded kernel = true) (one : 1 ≤ m) : m ≤ 30 := by
  obtain ⟨fuel, ⟨r, log, run⟩, all⟩ := h
  obtain ⟨rfl, rfl⟩ := all r log run
  by_contra large
  rcases Nat.lt_or_eq_of_le (show 31 ≤ m by omega) with more | rfl
  · exact stages_ne_nil one ((launchSort_skips loaded more).run run)
  · exact Option.some_ne_none _ ((launchSort_endless loaded).run run)

/-- Of the counts that `launch_sort` accepts, those up to `2 ^ 30` are sorted by all their stages. -/
theorem runsStages_iff (loaded : ctx.loaded kernel = true) (one : 1 ≤ m) :
    RunsStages β ctx kernel data es m ↔ m ≤ 30 := by
  constructor
  · intro runs
    exact runs.small loaded one
  · intro small
    have ensures : (launchSort ctx kernel data (2 ^ m) es (m + 1)).Ensures (recording (β := β))
        (fun r log => r = some true ∧ log = stages m) [] := launchSort_stages loaded one small
    exact ⟨m + 1, ensures.exists_run fun o log _ => recording_progress o log, fun r log run => ensures.run run⟩

end

theorem runsStages_iff_twenty : RunsStages Nat ⟨fun _ => true, true, 4096, 0, 2 ^ 33⟩ "sort" 4096 4 20 ↔ 20 ≤ 30 :=
  runsStages_iff rfl (by decide)

/-- Neither `2 ^ 31` nor `2 ^ 32` bytes are sorted. -/
theorem bytes_unsorted : ¬ RunsStages Nat ⟨fun _ => true, true, 4096, 0, 2 ^ 33⟩ "sort" 4096 1 31 ∧
    ¬ RunsStages Nat ⟨fun _ => true, true, 4096, 0, 2 ^ 33⟩ "sort" 4096 1 32 := by
  constructor
  · intro runs
    exact absurd (runs.small rfl (by decide)) (by decide)
  · intro runs
    exact absurd (runs.small rfl (by decide)) (by decide)

end Parallax.Launcher
