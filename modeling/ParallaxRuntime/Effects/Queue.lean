import Mathlib.Data.List.Basic
import Mathlib.Logic.Function.Basic
import Mathlib.Logic.Relation

/-!
# A queue of jobs ordered by fences only

The host submits jobs and waits for them. A job is a list of steps on a shared memory. Jobs
that are in flight together take their steps in any order of the jobs.
-/

namespace Parallax.Effects

/-- What the host does. Submissions are counted from 0. -/
inductive Command (μ : Type) where
  | submit (job : List (μ → μ))
  | wait (i : Nat)

/-- The commands to come, and what is left of each submission. -/
structure Queue (μ : Type) where
  todo : List (Command μ)
  submitted : Nat
  left : Nat → List (μ → μ)
  memory : μ

variable {μ : Type}

/-- The memory after a whole job. -/
def runJob (job : List (μ → μ)) (m : μ) : μ := job.foldl (fun m f => f m) m

/-- One step of the host, or one of a job in flight. -/
inductive Queue.Next : Queue μ → Queue μ → Prop
  | submit {q : Queue μ} {job : List (μ → μ)} {todo : List (Command μ)} (next : q.todo = .submit job :: todo) :
      Next q ⟨todo, q.submitted + 1, Function.update q.left q.submitted job, q.memory⟩
  | wait {q : Queue μ} {i : Nat} {todo : List (Command μ)} (next : q.todo = .wait i :: todo) (done : q.left i = []) :
      Next q { q with todo := todo }
  | work {q : Queue μ} {i : Nat} {f : μ → μ} {rest : List (μ → μ)} (found : q.left i = f :: rest) :
      Next q { q with left := Function.update q.left i rest, memory := f q.memory }

abbrev Queue.Reaches : Queue μ → Queue μ → Prop := Relation.ReflTransGen Queue.Next

/-- A queue on which nothing is in flight. -/
def Queue.idle (todo : List (Command μ)) (submitted : Nat) (m : μ) : Queue μ := ⟨todo, submitted, fun _ => [], m⟩

@[simp] theorem runJob_nil {m : μ} : runJob [] m = m := rfl

@[simp] theorem runJob_cons {f : μ → μ} {job : List (μ → μ)} {m : μ} : runJob (f :: job) m = runJob job (f m) := rfl

theorem runJob_append {job job' : List (μ → μ)} {m : μ} : runJob (job ++ job') m = runJob job' (runJob job m) :=
  List.foldl_append

theorem runJob_concat {job : List (μ → μ)} {f : μ → μ} {m : μ} : runJob (job ++ [f]) m = f (runJob job m) := runJob_append

/-- A job in flight may take its next steps before anything else happens. -/
theorem Queue.reaches_work {q : Queue μ} (i : Nat) (done rest : List (μ → μ)) (found : q.left i = done ++ rest) :
    q.Reaches { q with left := Function.update q.left i rest, memory := runJob done q.memory } := by
  induction done generalizing q with
  | nil =>
    have same : Function.update q.left i rest = q.left := by
      rw [show rest = q.left i from found.symm, Function.update_eq_self]
    rw [same]
    exact Relation.ReflTransGen.refl
  | cons f done ih =>
    have first : q.Next { q with left := Function.update q.left i (done ++ rest), memory := f q.memory } := Next.work found
    have later := ih (q := { q with left := Function.update q.left i (done ++ rest), memory := f q.memory })
      (Function.update_self ..)
    simp only [Function.update_idem] at later
    exact Relation.ReflTransGen.head first later

/-- Everything reachable from a submission that is waited for at once, on an idle queue: the job is
still to come, on its way, or done with nothing in between. -/
theorem Queue.reaches_waited {todo : List (Command μ)} {n : Nat} {job : List (μ → μ)} {m : μ} {q : Queue μ}
    (reaches : (Queue.idle (.submit job :: .wait n :: todo) n m).Reaches q) :
    q = Queue.idle (.submit job :: .wait n :: todo) n m ∨
      (∃ done rest, job = done ++ rest ∧
        q = ⟨.wait n :: todo, n + 1, Function.update (fun _ => []) n rest, runJob done m⟩) ∨
      (Queue.idle todo (n + 1) (runJob job m)).Reaches q := by
  induction reaches with
  | refl => exact Or.inl rfl
  | tail _ step ih =>
    rcases ih with rfl | ⟨done, rest, split, rfl⟩ | later
    · cases step with
      | submit next =>
        cases next
        exact Or.inr (Or.inl ⟨[], job, rfl, rfl⟩)
      | wait next => cases next
      | work found => cases found
    · cases step with
      | submit next => cases next
      | wait next finished =>
        cases next
        have none : rest = [] := by simpa using finished
        subst none
        rw [List.append_nil] at split
        subst split
        refine Or.inr (Or.inr ?_)
        rw [show Function.update (fun _ => ([] : List (μ → μ))) n [] = fun _ => [] from Function.update_eq_self n _]
        exact Relation.ReflTransGen.refl
      | @work i f rest' found =>
        dsimp only at found ⊢
        have here : i = n := by
          by_contra other
          rw [Function.update_of_ne other] at found
          cases found
        subst here
        rw [Function.update_self] at found
        subst found
        refine Or.inr (Or.inl ⟨done ++ [f], rest', by rw [split, List.append_assoc]; rfl, ?_⟩)
        rw [runJob_concat, Function.update_idem]
    · exact Or.inr (Or.inr (later.tail step))

/-- And the job may indeed be done with nothing in between. -/
theorem Queue.waited_reaches {todo : List (Command μ)} {n : Nat} {job : List (μ → μ)} {m : μ} :
    (Queue.idle (.submit job :: .wait n :: todo) n m).Reaches (Queue.idle todo (n + 1) (runJob job m)) := by
  apply Relation.ReflTransGen.head (Next.submit rfl)
  refine (Queue.reaches_work n job [] (by simp [Queue.idle])).trans ?_
  apply Relation.ReflTransGen.head (Next.wait rfl (Function.update_self ..))
  have none : Function.update (Function.update (fun _ => ([] : List (μ → μ))) n job) n [] = fun _ => [] := by
    rw [Function.update_idem]
    exact Function.update_eq_self n _
  simp only [Queue.idle, none]
  exact Relation.ReflTransGen.refl

end Parallax.Effects
