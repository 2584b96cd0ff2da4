import Mathlib.Data.List.Forall2
import ParallaxRuntime.Launcher.Dispatches

/-!
# The dispatches of a primitive, in their order

`submissions` answers calls in any way and writes the dispatches down. A primitive that fails has
submitted the first of its dispatches only.
-/

namespace Parallax.Launcher
open Memory Effects

section
variable {β : Type}

def submissionsStep : Step (ops β) (List (Dispatch β))
  | .submit d, log, _, log' => log' = log ++ [d]
  | _, log, _, log' => log' = log

def submissions : Handler (ops β) (List (Dispatch β)) := ⟨fun _ _ => True, submissionsStep⟩

theorem submissions_progress [Inhabited β] (o : Op β) (log : List (Dispatch β)) :
    ∃ x log', submissionsStep o log x log' := by
  cases o with
  | submit d => exact ⟨true, _, rfl⟩
  | allocateDescriptorSet => exact ⟨true, log, rfl⟩
  | getBuffer p => exact ⟨(0 : Nat), log, rfl⟩
  | allocate size align => exact ⟨(0 : Nat), log, rfl⟩
  | read p n => exact ⟨fun _ => default, log, rfl⟩
  | _ => exact ⟨(), log, rfl⟩

theorem submissionsStep_quiet {o : Op β} {x : o.Res} {log log' : List (Dispatch β)} (quiet : o.Quiet)
    (h : submissionsStep o log x log') : log' = log := by
  cases o with
  | submit d => exact quiet.elim
  | _ => exact h

/-- One dispatch for each of the first passes. -/
def Follows (passes : List Nat) (log : List (Dispatch β)) : Prop :=
  List.Forall₂ (fun n d => d.For n) (passes.take log.length) log

/-- A program makes its passes in order, and all of them if it answers `ok`. -/
def Makes {α : Type} (ok : α → Prop) (passes : List Nat) (p : Launch β α) : Prop :=
  ∀ log, p.Ensures submissions (fun r log' => ∃ more, log' = log ++ more ∧ Follows passes more ∧
    (ok r → more.length = passes.length)) log

/-- It submits nothing more, and does not answer `ok`. -/
def Stops {α : Type} (ok : α → Prop) (p : Launch β α) : Prop :=
  ∀ log, p.Ensures submissions (fun r log' => log' = log ∧ ¬ ok r) log

variable {α γ : Type} {ok : α → Prop} {ok' : γ → Prop} {passes passes' : List Nat} {p : Launch β α} {f : α → Launch β γ} {n : Nat}
  {log log' : List (Dispatch β)}

/-! ### Following -/

@[simp] theorem follows_nil : Follows passes ([] : List (Dispatch β)) := by
  simp [Follows]

theorem Follows.append_left (h : Follows passes log) : Follows (passes ++ passes') log := by
  unfold Follows at *
  have le : log.length ≤ passes.length := by
    have := h.length_eq
    rw [List.length_take] at this
    omega
  rwa [List.take_append_of_le_length le]

theorem Follows.append (h : Follows passes log) (all : log.length = passes.length) (h' : Follows passes' log') :
    Follows (passes ++ passes') (log ++ log') := by
  unfold Follows at *
  rw [all, List.take_length] at h
  rw [List.length_append, all, List.take_length_add_append]
  exact List.rel_append h h'

/-! ### Composition -/

theorem makes_pure {r : α} : Makes ok [] (pure r : Launch β α) := by
  intro log
  exact ⟨[], by simp⟩

theorem makes_none {r : α} (no : ¬ ok r) : Makes ok passes (pure r : Launch β α) := by
  intro log
  exact ⟨[], by simp [no]⟩

theorem stops_pure {r : α} (no : ¬ ok r) : Stops ok (pure r : Launch β α) := fun _ => ⟨rfl, no⟩

theorem Makes.bind (h : Makes ok passes p) (rest : ∀ a, ok a → Makes ok' passes' (f a)) (stop : ∀ a, ¬ ok a → Stops ok' (f a)) :
    Makes ok' (passes ++ passes') (p >>= f) := by
  intro log
  apply (h log).bind
  intro a log₁ ⟨more, same, follows, all⟩
  by_cases done : ok a
  · apply (rest a done log₁).mono
    intro r log₂ ⟨more', same', follows', all'⟩
    refine ⟨more ++ more', by rw [same', same, List.append_assoc], follows.append (all done) follows', fun hr => ?_⟩
    rw [List.length_append, List.length_append, all done, all' hr]
  · apply (stop a done log₁).mono
    intro r log₂ ⟨same', no⟩
    exact ⟨more, same'.trans same, follows.append_left, fun hr => absurd hr no⟩

theorem Makes.after (h : Makes (fun _ => True) [] p) (rest : ∀ a, Makes ok' passes (f a)) : Makes ok' passes (p >>= f) := by
  have both := h.bind (fun a _ => rest a) fun a no => absurd trivial no
  simpa using both

theorem makes_op (o : Op β) (quiet : o.Quiet) : Makes (fun _ => True) [] (Prog.op (S := ops β) o) := by
  intro log
  refine ⟨trivial, fun x log' step => ⟨[], ?_⟩⟩
  rw [submissionsStep_quiet quiet step]
  simp

theorem Stops.op {o : Op β} {q : Launch β γ} (quiet : o.Quiet) (h : Stops ok' q) :
    Stops ok' (Prog.op (S := ops β) o >>= fun _ => q) := by
  intro log
  apply Prog.ensures_call trivial
  intro x log' step
  rw [submissionsStep_quiet quiet step]
  exact h log

theorem makes_ite {c : Prop} [Decidable c] {p q : Launch β α} (hp : c → Makes ok passes p) (hq : ¬ c → Makes ok passes q) :
    Makes ok passes (if c then p else q) := by
  split
  · next h => exact hp h
  · next h => exact hq h

theorem makes_elim {o : Option α} {q : Launch β γ} (none : Makes ok' passes q) (some : ∀ a, Makes ok' passes (f a)) :
    Makes ok' passes (o.elim q f) := by
  cases o with
  | none => exact none
  | some a => exact some a

theorem makes_dispatch {d : Dispatch β} (h : d.For n) : Makes (fun ok => ok = true) [n] (dispatch d) := by
  intro log
  apply Prog.ensures_call trivial
  intro (set : Bool) log₁ same
  obtain rfl : log₁ = log := same
  change Prog.Ensures _ (if set = false then _ else _) _ _
  refine Prog.ensures_ite (fun _ => ⟨[], by simp⟩) fun _ => ⟨trivial, fun _ log₂ same => ⟨trivial, fun (ok : Bool) log₃ written => ?_⟩⟩
  obtain rfl : log₂ = log₁ := same
  obtain rfl : log₃ = log₂ ++ [d] := written
  change Prog.Ensures _ (if ok = false then _ else _) _ _
  refine Prog.ensures_ite (fun _ => ⟨[d], by simp [Follows, h]⟩) fun _ => ⟨trivial, fun _ log₄ same => ?_⟩
  obtain rfl : log₄ = log₂ ++ [d] := same
  exact ⟨[d], by simp [Follows, h]⟩

theorem makes_scope (h : Makes ok passes p) : Makes ok passes (withArenaSync p) := by
  apply (makes_op .enter trivial).after
  intro _
  have body : Makes ok (passes ++ []) (p >>= fun r => leave >>= fun _ => pure r) :=
    h.bind (fun r _ => (makes_op .leave trivial).after fun _ => makes_pure) fun r no => Stops.op trivial (stops_pure no)
  simpa using body

theorem makes_resolve {ctx : Context} {q range : Nat} {upload : Bool} :
    Makes (fun _ => True) [] (ctx.resolve (β := β) q range upload) := by
  unfold Context.resolve
  apply makes_ite fun _ => makes_pure
  intro _
  apply (makes_op (.getBuffer q) trivial).after
  intro (known : Nat)
  apply Makes.after
  · apply makes_ite
    · intro _
      exact (makes_op (.registerExternalBuffer q range) trivial).after fun _ => makes_op (.getBuffer q) trivial
    · intro _
      exact makes_pure
  · intro (reg : Nat)
    apply makes_ite fun _ => makes_pure
    intro _
    apply Makes.after
    · exact makes_ite (fun _ => makes_op (.syncBeforeKernel q) trivial) fun _ => makes_pure
    · intro _
      exact makes_pure

theorem makes_download {ctx : Context} {q : Nat} : Makes (fun _ => True) [] (ctx.download (β := β) q) :=
  makes_ite (fun _ => makes_op (.syncAfterKernel q) trivial) fun _ => makes_pure

end

/-! ### The passes of the primitives -/

/-- The lengths in the loop of `launch_reduce`. -/
def reducePasses (n : Nat) : List Nat := if n > 1 then n :: reducePasses (groupsOf n) else []
termination_by n
decreasing_by
  have := groupsOf_le n
  omega

/-- The lengths in the recursion of `launch_scan`; the offsets of a level are added on the way back. -/
def scanPasses (n : Nat) : List Nat :=
  if n ≤ 1 then [] else n :: if groupsOf n > 1 then scanPasses (groupsOf n) ++ [n] else []
termination_by n
decreasing_by
  have := groupsOf_le n
  omega

section
variable {β : Type} {ctx : Context} {count es : Nat}

theorem makes_reduceLevels {kernel : String} {scratch : Bool → Nat} (src n : Nat) (toggle : Bool) :
    Makes (fun r => r ≠ none) (reducePasses n) (reduceLevels (β := β) ctx kernel es scratch src n toggle) := by
  induction n using Nat.strong_induction_on generalizing src toggle with
  | _ n ih =>
    rw [reduceLevels, reducePasses]
    split
    · next more =>
      apply makes_resolve.after
      intro bound
      apply makes_elim (makes_none (by simp))
      intro srcBinding
      apply (makes_dispatch (n := n) ⟨rfl, rfl⟩).bind
      · intro done on
        rw [if_pos on]
        have less := groupsOf_le n
        exact ih _ (by omega) _ _
      · intro done off
        rw [if_neg off]
        exact stops_pure (by simp)
    · exact makes_pure

theorem makes_launchReduce [Zero β] {kernel : String} {data outResult : Nat} :
    Makes (fun _ => False) (reducePasses count) (launchReduce (β := β) ctx kernel data count es outResult) := by
  unfold launchReduce
  apply makes_scope
  apply makes_ite fun _ => makes_none id
  intro _
  apply makes_ite fun _ => (makes_op (.write _ _) trivial).after fun _ => makes_none id
  intro _
  apply makes_ite fun _ => (makes_op (.read _ _) trivial).after fun _ => (makes_op (.write _ _) trivial).after fun _ => makes_none id
  intro _
  apply makes_ite fun _ => makes_none id
  intro _
  apply (makes_op (.allocate _ _) trivial).after
  intro (scratch0 : Nat)
  apply (makes_op (.allocate _ _) trivial).after
  intro (scratch1 : Nat)
  apply makes_ite fun _ => makes_none id
  intro _
  rw [← List.append_nil (reducePasses count)]
  apply (makes_reduceLevels _ _ _).bind
  · intro result found
    obtain ⟨src, rfl⟩ := Option.ne_none_iff_exists'.mp found
    apply (makes_op .invalidateFromDevice trivial).after
    intro _
    apply (makes_op (.read _ _) trivial).after
    intro x
    apply (makes_op (.write _ _) trivial).after
    intro _
    exact (makes_op (.deallocate _) trivial).after fun _ => (makes_op (.deallocate _) trivial).after fun _ => makes_none id
  · intro result lost
    rw [not_not.mp lost]
    exact stops_pure id

theorem makes_launchScan {scanKernel addKernel : String} (data count : Nat) :
    Makes (fun ok => ok = true) (scanPasses count) (launchScan (β := β) ctx scanKernel addKernel data count es) := by
  induction count using Nat.strong_induction_on generalizing data with
  | _ count ih =>
    rw [launchScan]
    apply makes_scope
    apply makes_ite fun _ => makes_none (by simp)
    intro _
    split
    · next few =>
      rw [scanPasses, if_pos few]
      exact makes_pure
    · next many =>
      have pass : ∀ kernel a b, Makes (fun ok => ok = true) [count] (dispatchReduceLevel (β := β) ctx kernel a b count (groupsOf count)) :=
        fun kernel a b => makes_dispatch ⟨rfl, rfl⟩
      have shape : scanPasses count = [count] ++ ((if groupsOf count > 1 then scanPasses (groupsOf count) ++ [count] else []) ++ []) := by
        rw [scanPasses, if_neg many]
        simp
      rw [shape]
      apply makes_ite fun _ => makes_none (by simp)
      intro _
      apply makes_resolve.after
      intro bound
      apply makes_elim (makes_none (by simp))
      intro dataBinding
      apply (makes_op (.allocate _ _) trivial).after
      intro (blocksums : Nat)
      apply makes_ite fun _ => makes_none (by simp)
      intro _
      apply (pass _ _ _).bind
      · intro done on
        rw [if_neg (show ¬ done = false by simp [on])]
        apply Makes.bind
        · split
          · have less := groupsOf_le count
            apply (ih _ (by omega) blocksums).bind
            · intro done on
              rw [if_neg (by simp [on])]
              exact pass _ _ _
            · intro done off
              rw [if_pos (by simpa using off)]
              exact stops_pure (by simp)
          · exact makes_pure
        · intro done on
          rw [if_neg (by simp [on])]
          exact makes_download.after fun _ => (makes_op (.deallocate _) trivial).after fun _ => makes_pure
        · intro done off
          rw [if_pos (by simpa using off)]
          exact stops_pure (by simp)
      · intro done off
        rw [if_pos (by simpa using off)]
        exact stops_pure (by simp)

theorem makes_leastWinner {hv : HostValues β} {outi : Nat} (blocks : List Nat) (best : Nat) :
    Makes (fun _ => True) [] (leastWinner hv outi blocks best) := by
  induction blocks generalizing best with
  | nil => exact makes_pure
  | cons b blocks ih => exact (makes_op (.read _ _) trivial).after fun word => ih _

theorem makes_findFirst {hv : HostValues β} {kernel : String} {input : Binding} {other : Option Binding} {push : Push β}
    (pushed : push.count = count % 2 ^ 32) :
    Makes (fun _ => False) [count] (findFirst hv ctx kernel input other push count) := by
  unfold findFirst
  apply (makes_op (.allocate _ _) trivial).after
  intro (outi : Nat)
  apply makes_ite fun _ => makes_none id
  intro _
  rw [← List.append_nil [count]]
  apply (makes_dispatch ⟨pushed, rfl⟩).bind
  · intro done on
    rw [if_neg (by simp [on])]
    apply (makes_op .invalidateFromDevice trivial).after
    intro _
    apply (makes_leastWinner _ _).after
    intro best
    exact (makes_op (.deallocate _) trivial).after fun _ => makes_none id
  · intro done off
    rw [if_pos (by simpa using off)]
    exact stops_pure id

theorem makes_launchFind {hv : HostValues β} {kernel : String} {data : Nat} {negate : Bool} {value : Option (List β)} :
    Makes (fun _ => False) [count] (launchFind hv ctx kernel data count es negate value) := by
  unfold launchFind
  apply makes_scope
  apply makes_ite fun _ => makes_none id
  intro _
  apply makes_ite fun _ => makes_none id
  intro _
  apply makes_ite fun _ => makes_none id
  intro _
  apply makes_resolve.after
  intro bound
  apply makes_elim (makes_none id)
  intro dataBinding
  exact makes_findFirst rfl

theorem makes_launchMismatch {hv : HostValues β} {kernel : String} {a b : Nat} :
    Makes (fun _ => False) [count] (launchMismatch hv ctx kernel a b count es) := by
  unfold launchMismatch
  apply makes_scope
  apply makes_ite fun _ => makes_none id
  intro _
  apply makes_ite fun _ => makes_none id
  intro _
  apply makes_ite fun _ => makes_none id
  intro _
  apply makes_resolve.after
  intro bound
  apply makes_elim (makes_none id)
  intro aBinding
  apply makes_resolve.after
  intro bound
  apply makes_elim (makes_none id)
  intro bBinding
  exact makes_findFirst rfl

theorem makes_storeKept {hv : HostValues β} {out : Option Nat} {kept : Nat} : Makes (fun _ => True) [] (storeKept hv out kept) := by
  cases out with
  | none => exact makes_pure
  | some p => exact makes_op (.write _ _) trivial

/-- The flags, the scan of the flags, and the scatter. -/
def compactPasses (n : Nat) : List Nat := [n] ++ (scanPasses n ++ ([n] ++ []))

theorem makes_launchCompact {hv : HostValues β} {flagsKernel scanKernel addKernel scatterKernel : String} {input output : Nat}
    {elemIsFloat : Bool} {outKept : Option Nat} :
    Makes (fun _ => False) (compactPasses count)
      (launchCompact hv ctx flagsKernel scanKernel addKernel scatterKernel input output count es elemIsFloat outKept) := by
  have freed : ∀ (positions : Nat) (r : Bool × Option Nat), Stops (fun _ => False)
      (deallocate positions >>= fun _ => (pure r : Launch β (Bool × Option Nat))) :=
    fun positions r => Stops.op (o := .deallocate positions) trivial (stops_pure id)
  unfold launchCompact compactPasses
  apply makes_scope
  apply makes_ite fun _ => makes_none id
  intro _
  apply makes_storeKept.after
  intro _
  apply makes_ite fun _ => makes_none id
  intro _
  apply makes_ite fun _ => makes_none id
  intro _
  apply makes_resolve.after
  intro bound
  apply makes_elim (makes_none id)
  intro inBinding
  apply makes_resolve.after
  intro bound
  apply makes_elim (makes_none id)
  intro outBinding
  apply (makes_op (.allocate _ _) trivial).after
  intro (positions : Nat)
  apply makes_ite fun _ => makes_none id
  intro _
  apply (makes_dispatch (n := count) ⟨rfl, rfl⟩).bind
  · intro done on
    rw [if_neg (show ¬ done = false by simp [on])]
    apply (makes_launchScan positions count).bind
    · intro done on
      rw [if_neg (show ¬ done = false by simp [on])]
      apply (makes_op .invalidateFromDevice trivial).after
      intro _
      apply (makes_op (.read _ _) trivial).after
      intro last
      apply makes_storeKept.after
      intro _
      apply (makes_dispatch (n := count) ⟨rfl, rfl⟩).bind
      · intro done on
        rw [if_neg (show ¬ done = false by simp [on])]
        exact makes_download.after fun _ => (makes_op (.deallocate _) trivial).after fun _ => makes_none id
      · intro done off
        rw [if_pos (by simpa using off)]
        exact freed _ _
    · intro done off
      rw [if_pos (by simpa using off)]
      exact freed _ _
  · intro done off
    rw [if_pos (by simpa using off)]
    exact freed _ _

end

end Parallax.Launcher
