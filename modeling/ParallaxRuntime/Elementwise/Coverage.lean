import ParallaxRuntime.Elementwise.DescriptorPool
import ParallaxRuntime.Elementwise.OwnSets
import ParallaxRuntime.Launcher.Machine
import ParallaxRuntime.Launcher.Submissions

/-!
# The ranges of dispatches

A kernel runs for the invocations below the count that is pushed. The host computes that count and
the number of workgroups in 32 bits each.
-/

namespace Parallax.Elementwise
open Memory Launcher Effects

/-- The invocations that pass the guard are `0 … n - 1`, in no more workgroups than any device takes. -/
structure Covers (n pushed groups : Nat) : Prop where
  count : pushed = n
  enough : n ≤ groups * 256
  within : groups ≤ 65535
  invocations : (List.range (groups * 256)).filter (· < pushed) = List.range n

theorem filter_range {n m : Nat} (le : n ≤ m) : (List.range m).filter (· < n) = List.range n := by
  induction m, le using Nat.le_induction with
  | base => exact List.filter_eq_self.mpr fun i member => by simpa using member
  | succ m le ih => simp [List.range_succ, ih, Nat.not_lt.mpr le]

theorem le_blocks (n : Nat) : n ≤ (n + 255) / 256 * 256 := by omega

theorem covers_iff {n : Nat} : Covers n (n % 2 ^ 32) (groupsOf n) ↔ n ≤ 65535 * 256 := by
  constructor
  · intro covers
    have fits : n < 2 ^ 32 := (Nat.mod_eq_iff_lt (by decide)).mp covers.count
    have within := covers.within
    rw [groupsOf_eq fits] at within
    omega
  · intro le
    have small : n < 2 ^ 32 := by omega
    rw [Nat.mod_eq_of_lt small, groupsOf_eq small]
    exact ⟨rfl, le_blocks n, by omega, filter_range (le_blocks n)⟩

/-! ### The steps of an operation -/

/-- The levels of a reduction: each has an element for each 256 of the one before. -/
def reduceSteps (n : Nat) : List Nat := if n > 1 then n :: reduceSteps ((n + 255) / 256) else []
termination_by n
decreasing_by omega

/-- The levels of a scan, and those that take offsets on the way back. -/
def scanSteps (n : Nat) : List Nat :=
  if n ≤ 1 then [] else n :: if (n + 255) / 256 > 1 then scanSteps ((n + 255) / 256) ++ [n] else []
termination_by n
decreasing_by omega

def compactSteps (n : Nat) : List Nat := n :: (scanSteps n ++ [n])

theorem reducePasses_eq {n : Nat} (small : n < 2 ^ 32) : reducePasses n = reduceSteps n := by
  induction n using Nat.strong_induction_on with
  | _ n ih =>
    rw [reducePasses, reduceSteps, groupsOf_eq small]
    split
    · rw [ih _ (by omega) (by omega)]
    · rfl

theorem scanPasses_eq {n : Nat} (small : n < 2 ^ 32) : scanPasses n = scanSteps n := by
  induction n using Nat.strong_induction_on with
  | _ n ih =>
    rw [scanPasses, scanSteps, groupsOf_eq small]
    split
    · rfl
    · rw [ih _ (by omega) (by omega)]

theorem reduceSteps_le {n m : Nat} (h : m ∈ reduceSteps n) : m ≤ n := by
  induction n using Nat.strong_induction_on with
  | _ n ih =>
    rw [reduceSteps] at h
    split at h
    · rcases List.mem_cons.mp h with rfl | h
      · exact Nat.le_refl m
      · have := ih _ (by omega) h
        omega
    · cases h

theorem scanSteps_le {n m : Nat} (h : m ∈ scanSteps n) : m ≤ n := by
  induction n using Nat.strong_induction_on with
  | _ n ih =>
    rw [scanSteps] at h
    split at h
    · cases h
    · rcases List.mem_cons.mp h with rfl | h
      · exact Nat.le_refl m
      · split at h
        · rcases List.mem_append.mp h with h | h
          · have := ih _ (by omega) h
            omega
          · rw [List.mem_singleton.mp h]
        · cases h

/-! ### What an operation submits -/

section
variable {β : Type}

/-- The elements of an operation, and of each of its dispatches in their order. -/
def Operation.steps : Operation β → Option (Nat × List Nat)
  | .elementwise c => some (c.count, [c.count])
  | .primitive (.reduce _ _ count _ _) => some (count, reduceSteps count)
  | .primitive (.scan _ _ _ count _) => some (count, scanSteps count)
  | .primitive (.compact _ _ _ _ _ _ count _ _ _) => some (count, compactSteps count)
  | .primitive (.find _ _ count _ _ _) | .primitive (.mismatch _ _ _ count _) => some (count, [count])
  | .primitive _ => none

/-- The counts that are pushed and the workgroups, one pair for each dispatch that is submitted. -/
inductive Submits [Zero β] (hv : HostValues β) (ctx : Context) : Operation β → List (Nat × Nat) → Prop
  | primitive {a : Launcher.Action β} {r : a.Res} {log : List (Dispatch β)} (run : (a.prog hv ctx).Run submissionsStep [] r log) :
      Submits hv ctx (.primitive a) (log.map fun d => (d.push.count, d.groups))
  | elementwise {c : Call β} {o : Outcome} {s s' : KernelLauncher β} {e : Option (Executed β)} (run : perform ctx o s c = (s', e)) :
      Submits hv ctx (.elementwise c) (e.toList.map fun e => (e.push.count, e.groups))

variable {ctx : Context} {o : Outcome} {s : KernelLauncher β} {c : Call β} {kernel : String} {count : Nat} {set : DescriptorSet β}

/-- Each pair is what the code computes from the length of its pass. -/
def Computes (passes : List Nat) (log : List (Nat × Nat)) : Prop :=
  List.Forall₂ (fun n p => p = (n % 2 ^ 32, groupsOf n)) (passes.take log.length) log

/-- `passes` are the steps as the code computes them. -/
structure Passes (count : Nat) (passes steps : List Nat) : Prop where
  same : count < 2 ^ 32 → passes = steps
  bounded : ∀ n ∈ steps, n ≤ count
  first : passes = [] ∨ passes.head? = some count ∧ steps.head? = some count

theorem passes_single : Passes count [count] [count] :=
  ⟨fun _ => rfl, by simp, Or.inr ⟨rfl, rfl⟩⟩

theorem passes_reduce : Passes count (reducePasses count) (reduceSteps count) where
  same := reducePasses_eq
  bounded _ := reduceSteps_le
  first := by
    rw [reducePasses, reduceSteps]
    split
    · exact Or.inr ⟨rfl, rfl⟩
    · exact Or.inl rfl

theorem passes_scan : Passes count (scanPasses count) (scanSteps count) where
  same := scanPasses_eq
  bounded _ := scanSteps_le
  first := by
    rw [scanPasses, scanSteps]
    split
    · exact Or.inl rfl
    · exact Or.inr ⟨rfl, rfl⟩

theorem passes_compact : Passes count (compactPasses count) (compactSteps count) where
  same small := by simp [compactPasses, compactSteps, scanPasses_eq small]
  bounded n member := by
    rcases List.mem_cons.mp member with rfl | member
    · exact Nat.le_refl n
    · rcases List.mem_append.mp member with member | member
      · exact scanSteps_le member
      · rw [List.mem_singleton.mp member]
  first := Or.inr ⟨rfl, rfl⟩

theorem Computes.covers_iff {passes steps : List Nat} {log : List (Nat × Nat)} (h : Computes passes log) (made : Passes count passes steps) :
    List.Forall₂ (fun n p => Covers n p.1 p.2) (steps.take log.length) log ↔ log = [] ∨ count ≤ 65535 * 256 := by
  unfold Computes at h
  constructor
  · intro covered
    cases log with
    | nil => exact Or.inl rfl
    | cons p log =>
      rcases made.first with rfl | ⟨head, head'⟩
      · cases h
      · obtain ⟨passes, rfl⟩ := List.head?_eq_some_iff.mp head
        obtain ⟨steps, rfl⟩ := List.head?_eq_some_iff.mp head'
        rw [List.length_cons, List.take_succ_cons, List.forall₂_cons] at h covered
        rw [h.1] at covered
        exact Or.inr (Elementwise.covers_iff.mp covered.1)
  · intro condition
    rcases condition with rfl | le
    · simp
    · have small : count < 2 ^ 32 := by omega
      rw [made.same small] at h
      apply ((List.forall₂_and_left _ _).mpr ⟨fun n member => made.bounded n (List.mem_of_mem_take member), h⟩).imp
      intro n p ⟨below, computed⟩
      rw [computed]
      exact Elementwise.covers_iff.mpr (Nat.le_trans below le)

theorem computes_of_makes {α : Type} {ok : α → Prop} {passes : List Nat} {p : Launch β α} {r : α} {log : List (Dispatch β)}
    (makes : Makes ok passes p) (run : p.Run submissionsStep [] r log) :
    Computes passes (log.map fun d => (d.push.count, d.groups)) := by
  obtain ⟨more, rfl, follows, _⟩ := (makes []).run run
  unfold Computes
  rw [List.length_map, List.forall₂_map_right_iff]
  apply follows.imp
  intro n d ⟨pushed, groups⟩
  rw [pushed, groups]

theorem computes_of_perform {s' : KernelLauncher β} {e : Option (Executed β)} (run : perform ctx o s c = (s', e)) :
    Computes [c.count] (e.toList.map fun e => (e.push.count, e.groups)) := by
  have ranged : Ranged c.count (perform ctx o s c) := perform_ranged
  rw [run] at ranged
  cases e with
  | none => simp [Computes]
  | some e =>
    obtain ⟨pushed, groups⟩ := ranged e rfl
    simp [Computes, pushed, groups]

variable [Zero β] {hv : HostValues β} {op : Operation β} {log : List (Nat × Nat)} {steps : List Nat}

/-- Whatever an operation submits, each dispatch covers the elements of its step exactly when
all elements fit into 65535 workgroups. -/
theorem submits_covers_iff (submits : Submits hv ctx op log) (ranged : op.steps = some (count, steps)) :
    List.Forall₂ (fun n p => Covers n p.1 p.2) (steps.take log.length) log ↔ log = [] ∨ count ≤ 65535 * 256 := by
  cases submits with
  | elementwise run =>
    cases ranged
    exact (computes_of_perform run).covers_iff passes_single
  | @primitive a r log run =>
    cases a with
    | reduce =>
      cases ranged
      exact (computes_of_makes makes_launchReduce run).covers_iff passes_reduce
    | scan =>
      cases ranged
      exact (computes_of_makes (makes_launchScan _ _) run).covers_iff passes_scan
    | compact =>
      cases ranged
      exact (computes_of_makes makes_launchCompact run).covers_iff passes_compact
    | find =>
      cases ranged
      exact (computes_of_makes makes_launchFind run).covers_iff passes_single
    | mismatch =>
      cases ranged
      exact (computes_of_makes makes_launchMismatch run).covers_iff passes_single
    | _ => cases ranged

end

/-- An arena of 8 GiB, and every kernel loaded. -/
def largeArena : Context := ⟨fun _ => true, true, 4096, 0, 2 ^ 33⟩

theorem submits_covers_iff_reduce :
    ∃ log, Submits firstCell largeArena (.primitive (.reduce "sum" 4096 100000 4 8)) log ∧
      (List.Forall₂ (fun n p => Covers n p.1 p.2) ((reduceSteps 100000).take log.length) log ↔ log = [] ∨ 100000 ≤ 65535 * 256) := by
  obtain ⟨r, log, run⟩ : ∃ r log, ((Action.reduce "sum" 4096 100000 4 8).prog firstCell largeArena).Run submissionsStep [] r log :=
    (makes_launchReduce []).exists_run fun o log _ => submissions_progress o log
  have submits := Submits.primitive run
  exact ⟨_, submits, submits_covers_iff submits rfl⟩

/-- One element more than 65535 workgroups take. -/
theorem workgroups_exceeded : ∃ log, Submits firstCell largeArena (.elementwise (.launch "square" 4096 16776961 4)) log ∧
    ¬ List.Forall₂ (fun n p => Covers n p.1 p.2) ([16776961].take log.length) log := by
  let launcher : KernelLauncher Nat := ⟨⟨fun _ => none, 0, fun _ => 0, fun _ => 0⟩, fun _ => none, 0⟩
  have run : ∃ s', perform largeArena ⟨fun _ => none, true, true⟩ launcher (.launch "square" 4096 16776961 4) =
      (s', some ⟨"square", ⟨some ⟨.arena, 0, some 67107844⟩, none, capturesBlock []⟩, .block 16776961 4096 0, 65536⟩) := ⟨_, rfl⟩
  obtain ⟨s', run⟩ := run
  refine ⟨_, Submits.elementwise run, fun covers => ?_⟩
  have within := (List.forall₂_cons.mp covers).1.within
  exact absurd within (by decide)

end Parallax.Elementwise
