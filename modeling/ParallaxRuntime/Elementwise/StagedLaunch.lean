import ParallaxRuntime.Effects.Queue
import ParallaxRuntime.Elementwise.Launch

/-!
# Element-wise launches on a staged arena

`~ArenaSyncScope` copies the device buffer back when `launch`, `launch_with_captures` or
`launch_transform` returns, and waits for that copy. The kernel's own fence is waited for by
the C function that called it, afterwards.
-/

namespace Parallax.Elementwise
open Memory Launcher Effects

/-- The arena by offset: the host's mapping of the staging buffer, and the device's buffer. -/
structure TwoCopies (β : Type) where
  host : Nat → β
  device : Nat → β

variable {β : Type}

def copyIn (a : Nat) (m : TwoCopies β) : TwoCopies β := { m with device := Function.update m.device a (m.host a) }

def copyOut (a : Nat) (m : TwoCopies β) : TwoCopies β := { m with host := Function.update m.host a (m.device a) }

def onDevice (f : (Nat → β) → Nat → β) (m : TwoCopies β) : TwoCopies β := { m with device := f m.device }

/-- `copy_range`: the submission number `n`, and the wait for its fence. -/
def copyRange (n : Nat) (job : List (TwoCopies β → TwoCopies β)) : List (Command (TwoCopies β)) := [.submit job, .wait n]

/-- `parallax_kernel_launch`, `parallax_kernel_launch_with_captures` and the `_transform` calls, on an
idle queue: the flush, the kernel, the copy back at the end of the scope, and the call of `sync()`.
The copies go over the cells in the orders given. -/
def stagedLaunch (kernel : List ((Nat → β) → Nat → β)) (orderIn orderOut : List Nat) : List (Command (TwoCopies β)) :=
  copyRange 0 (orderIn.map copyIn) ++ .submit (kernel.map onDevice) :: copyRange 2 (orderOut.map copyOut) ++ [.wait 1]

/-- The offsets that a call writes. -/
def Call.Writes (ctx : Context) (c : Call β) (a : Nat) : Prop :=
  ctx.offsetOf c.output.1 ≤ a ∧ a < ctx.offsetOf c.output.1 + c.output.2

/-- `flush_to_device` of the cells below the high-water mark. -/
def flushed (highWater : Nat) (m : TwoCopies β) : Nat → β := fun a => if a < highWater then m.host a else m.device a

/-- Whatever the queue does, the host has the kernel's results when the C function returns. -/
def Delivers (ctx : Context) (c : Call β) (kernel : List ((Nat → β) → Nat → β)) (highWater : Nat) (m : TwoCopies β) :
    Prop :=
  ∀ orderIn orderOut : List Nat, orderIn.Perm (List.range highWater) → orderOut.Perm (List.range highWater) →
    ∀ q, (Queue.idle (stagedLaunch kernel orderIn orderOut) 0 m).Reaches q → q.todo = [] →
      ∀ a, c.Writes ctx a → q.memory.host a = runJob kernel (flushed highWater m) a

/-- While the kernel runs it changes nothing that the call writes to. -/
def LeavesOutput (ctx : Context) (c : Call β) (kernel : List ((Nat → β) → Nat → β)) (memory : Nat → β) : Prop :=
  ∀ done rest, kernel = done ++ rest → ∀ a, c.Writes ctx a → runJob done memory a = runJob kernel memory a

section
variable {m : TwoCopies β}

theorem runJob_copyIn {order : List Nat} : runJob (order.map copyIn) m =
    ⟨m.host, fun a => if a ∈ order then m.host a else m.device a⟩ := by
  induction order generalizing m with
  | nil => simp
  | cons b order ih =>
    rw [List.map_cons, runJob_cons, ih]
    simp only [copyIn, TwoCopies.mk.injEq, true_and]
    funext a
    by_cases same : a = b
    · simp [same]
    · simp [same]

theorem runJob_copyOut {order : List Nat} : runJob (order.map copyOut) m =
    ⟨fun a => if a ∈ order then m.device a else m.host a, m.device⟩ := by
  induction order generalizing m with
  | nil => simp
  | cons b order ih =>
    rw [List.map_cons, runJob_cons, ih]
    simp only [copyOut, TwoCopies.mk.injEq, and_true]
    funext a
    by_cases same : a = b
    · simp [same]
    · simp [same]

theorem runJob_onDevice {kernel : List ((Nat → β) → Nat → β)} : runJob (kernel.map onDevice) m =
    ⟨m.host, runJob kernel m.device⟩ := by
  induction kernel generalizing m with
  | nil => rfl
  | cons f kernel ih =>
    rw [List.map_cons, runJob_cons, ih]
    rfl

theorem runJob_flush {order : List Nat} {highWater : Nat} (all : order.Perm (List.range highWater)) :
    runJob (order.map copyIn) m = ⟨m.host, flushed highWater m⟩ := by
  rw [runJob_copyIn]
  simp only [TwoCopies.mk.injEq, true_and]
  funext a
  simp [flushed, all.mem_iff]

end

/-! ### The kernel and the copy back, side by side -/

section
variable {ctx : Context} {c : Call β} {kernel : List ((Nat → β) → Nat → β)} {highWater : Nat} {m : TwoCopies β}

/-- What is to come once the flush is done. -/
def afterFlush (kernel : List ((Nat → β) → Nat → β)) (orderOut : List Nat) : List (Command (TwoCopies β)) :=
  .submit (kernel.map onDevice) :: .submit (orderOut.map copyOut) :: [.wait 2, .wait 1]

/-- Where a launch can be after the flush. `host` is asked of the cells that have been copied back. -/
inductive Overlap (kernel : List ((Nat → β) → Nat → β)) (orderOut : List Nat) (m : TwoCopies β)
    (host : Nat → β → Prop) : Queue (TwoCopies β) → Prop
  | start : Overlap kernel orderOut m host (Queue.idle (afterFlush kernel orderOut) 1 m)
  | launched (done rest : List ((Nat → β) → Nat → β)) (split : kernel = done ++ rest) :
      Overlap kernel orderOut m host ⟨[.submit (orderOut.map copyOut), .wait 2, .wait 1], 2,
        Function.update (fun _ => []) 1 (rest.map onDevice), ⟨m.host, runJob done m.device⟩⟩
  | copying (q : Queue (TwoCopies β)) (done rest : List ((Nat → β) → Nat → β)) (copied left : List Nat)
      (split : kernel = done ++ rest) (part : orderOut = copied ++ left) (device : q.memory.device = runJob done m.device)
      (back : ∀ a ∈ copied, host a (q.memory.host a)) (kernelLeft : q.left 1 = rest.map onDevice)
      (copyLeft : q.left 2 = left.map copyOut) (others : ∀ i, i ≠ 1 → i ≠ 2 → q.left i = [])
      (todo : q.todo = [.wait 2, .wait 1] ∨ q.todo = [.wait 1] ∧ left = [] ∨ q.todo = [] ∧ left = []) :
      Overlap kernel orderOut m host q

theorem Overlap.next {orderOut : List Nat} {host : Nat → β → Prop} {q q' : Queue (TwoCopies β)}
    (h : Overlap kernel orderOut m host q) (step : q.Next q')
    (any : ∀ done rest, kernel = done ++ rest → ∀ a, host a (runJob done m.device a)) :
    Overlap kernel orderOut m host q' := by
  cases h with
  | start =>
    cases step with
    | submit next =>
      cases next
      exact .launched [] kernel rfl
    | wait next => cases next
    | work found => cases found
  | launched done rest split =>
    cases step with
    | submit next =>
      cases next
      refine .copying _ done rest [] orderOut split rfl rfl (by simp) ?_ ?_ ?_ (Or.inl rfl)
      · simp
      · simp
      · intro i h1 h2
        simp [h1, h2]
    | wait next => cases next
    | @work i f rest' found =>
      dsimp only at found ⊢
      have here : i = 1 := by
        by_contra other
        rw [Function.update_of_ne other] at found
        cases found
      subst here
      rw [Function.update_self] at found
      obtain ⟨g, rest₁, rfl, rfl, rfl⟩ := List.map_eq_cons_iff.mp found
      have longer : kernel = (done ++ [g]) ++ rest₁ := by rw [split, List.append_assoc]; rfl
      have next : Overlap kernel orderOut m host _ := .launched (done ++ [g]) rest₁ longer
      rw [runJob_concat] at next
      rw [Function.update_idem]
      exact next
  | copying _ done rest copied left split part device back kernelLeft copyLeft others todo =>
    cases step with
    | submit next => rcases todo with todo | ⟨todo, -⟩ | ⟨todo, -⟩ <;> rw [todo] at next <;> cases next
    | wait next finished =>
      rcases todo with todo | ⟨todo, none⟩ | ⟨todo, none⟩
      · rw [todo] at next
        cases next
        rw [copyLeft, List.map_eq_nil_iff] at finished
        exact .copying _ done rest copied left split part device back kernelLeft copyLeft others (Or.inr (Or.inl ⟨rfl, finished⟩))
      · rw [todo] at next
        cases next
        exact .copying _ done rest copied left split part device back kernelLeft copyLeft others (Or.inr (Or.inr ⟨rfl, none⟩))
      · rw [todo] at next
        cases next
    | @work i f rest' found =>
      by_cases first : i = 1
      · subst first
        rw [kernelLeft] at found
        obtain ⟨g, rest₁, rfl, rfl, rfl⟩ := List.map_eq_cons_iff.mp found
        refine .copying _ (done ++ [g]) rest₁ copied left ?_ part ?_ back ?_ ?_ ?_ todo
        · rw [split, List.append_assoc]
          rfl
        · rw [runJob_concat, ← device]
          rfl
        · simp
        · simpa using copyLeft
        · intro j h1 h2
          simpa [h1] using others j h1 h2
      · by_cases second : i = 2
        · subst second
          rw [copyLeft] at found
          obtain ⟨a, left₁, rfl, rfl, rfl⟩ := List.map_eq_cons_iff.mp found
          have pending : q.todo = [.wait 2, .wait 1] := by
            rcases todo with todo | ⟨-, none⟩ | ⟨-, none⟩
            · exact todo
            · cases none
            · cases none
          refine .copying _ done rest (copied ++ [a]) left₁ split ?_ device ?_ ?_ ?_ ?_ (Or.inl pending)
          · rw [part, List.append_assoc]
            rfl
          · intro b hb
            by_cases same : b = a
            · subst same
              simp only [copyOut, Function.update_self, device]
              exact any done rest split b
            · have old : b ∈ copied := by simpa [same] using hb
              simpa [copyOut, same] using back b old
          · simpa using kernelLeft
          · simp
          · intro j h1 h2
            simpa [h2] using others j h1 h2
        · rw [others i first second] at found
          cases found

theorem Overlap.reaches {orderOut : List Nat} {host : Nat → β → Prop} {q : Queue (TwoCopies β)}
    (any : ∀ done rest, kernel = done ++ rest → ∀ a, host a (runJob done m.device a))
    (reaches : (Queue.idle (afterFlush kernel orderOut) 1 m).Reaches q) : Overlap kernel orderOut m host q := by
  induction reaches with
  | refl => exact .start
  | tail _ step ih => exact ih.next step any

/-- The copy back may fall anywhere between two steps of the kernel. -/
theorem copied_between {orderIn orderOut : List Nat} {done rest : List ((Nat → β) → Nat → β)}
    (allIn : orderIn.Perm (List.range highWater)) (allOut : orderOut.Perm (List.range highWater))
    (split : kernel = done ++ rest) :
    ∃ q, (Queue.idle (stagedLaunch kernel orderIn orderOut) 0 m).Reaches q ∧ q.todo = [] ∧
      ∀ a, a < highWater → q.memory.host a = runJob done (flushed highWater m) a := by
  have flush : (Queue.idle (stagedLaunch kernel orderIn orderOut) 0 m).Reaches
      (Queue.idle (afterFlush kernel orderOut) 1 ⟨m.host, flushed highWater m⟩) := by
    rw [← runJob_flush allIn]
    exact Queue.waited_reaches
  have launched := flush.tail (.submit rfl)
  have begun := launched.trans (Queue.reaches_work 1 (done.map onDevice) (rest.map onDevice)
    (by simp [split, Queue.idle]))
  have copying := (begun.tail (.submit rfl)).trans
    (Queue.reaches_work 2 (orderOut.map copyOut) [] (by simp [Queue.idle]))
  have copied := copying.tail (.wait rfl (by simp [Queue.idle]))
  have ended := copied.trans (Queue.reaches_work 1 (rest.map onDevice) [] (by simp [Queue.idle]))
  refine ⟨_, ended.tail (.wait rfl (by simp)), rfl, fun a below => ?_⟩
  simp [Queue.idle, runJob_onDevice, runJob_copyOut, allOut.mem_iff, below]

end

/-- On a staged arena a launch is sure to deliver exactly when its kernel leaves the output as it was. -/
theorem delivers_iff {ctx : Context} {c : Call β} {kernel : List ((Nat → β) → Nat → β)} {highWater : Nat}
    {m : TwoCopies β} (inside : ∀ a, c.Writes ctx a → a < highWater) :
    Delivers ctx c kernel highWater m ↔ LeavesOutput ctx c kernel (flushed highWater m) := by
  constructor
  · intro delivers done rest split a writes
    obtain ⟨q, reaches, finished, host⟩ := copied_between (m := m) (List.Perm.refl _) (List.Perm.refl _) split
    rw [← host a (inside a writes)]
    exact delivers _ _ (List.Perm.refl _) (List.Perm.refl _) q reaches finished a writes
  · intro leaves orderIn orderOut allIn allOut q reaches finished a writes
    have later : (Queue.idle (afterFlush kernel orderOut) 1 ⟨m.host, flushed highWater m⟩).Reaches q := by
      rw [← runJob_flush allIn]
      rcases Queue.reaches_waited reaches with rfl | ⟨done, rest, -, rfl⟩ | later
      · cases finished
      · cases finished
      · exact later
    have overlap : Overlap kernel orderOut ⟨m.host, flushed highWater m⟩
        (fun a x => c.Writes ctx a → x = runJob kernel (flushed highWater m) a) q :=
      Overlap.reaches (fun done rest split a writes => leaves done rest split a writes) later
    cases overlap with
    | start => cases finished
    | launched => cases finished
    | copying _ done rest copied left split part device back kernelLeft copyLeft others todo =>
      have none : left = [] := by
        rcases todo with todo | ⟨-, none⟩ | ⟨-, none⟩
        · rw [todo] at finished
          cases finished
        · exact none
        · exact none
      subst none
      rw [List.append_nil] at part
      have here : a ∈ copied := by
        rw [← part, allOut.mem_iff, List.mem_range]
        exact inside a writes
      exact back a here writes

/-- A launch on the first cell of the small arena. -/
def launchCell : Call Nat := .launch "kernel_0" 4096 1 1

/-- A kernel that adds one to the first cell. -/
def increment : List ((Nat → Nat) → Nat → Nat) := [fun memory => Function.update memory 0 (memory 0 + 1)]

/-- The copy back may come before the kernel has written. -/
theorem kernel_result_lost : ¬ ∀ (ctx : Context) (c : Call Nat) (kernel : List ((Nat → Nat) → Nat → Nat))
    (highWater : Nat) (m : TwoCopies Nat), (∀ a, c.Writes ctx a → a < highWater) → Delivers ctx c kernel highWater m := by
  intro delivers
  obtain ⟨q, reaches, finished, host⟩ := copied_between (m := ⟨fun _ => 0, fun _ => 0⟩)
    (List.Perm.refl (List.range 1)) (List.Perm.refl (List.range 1)) (List.nil_append increment).symm
  have cell : ∀ a, launchCell.Writes smallArena a → a < 1 := fun a writes => writes.2
  have sure := delivers smallArena launchCell increment 1 ⟨fun _ => 0, fun _ => 0⟩ cell _ _ (List.Perm.refl _)
    (List.Perm.refl _) q reaches finished 0 ⟨Nat.le_refl 0, Nat.zero_lt_one⟩
  rw [host 0 Nat.zero_lt_one] at sure
  cases sure

theorem delivers_increment : Delivers smallArena launchCell increment 1 ⟨fun _ => 0, fun _ => 0⟩ ↔
    LeavesOutput smallArena launchCell increment (flushed 1 ⟨fun _ => 0, fun _ => 0⟩) :=
  delivers_iff fun _ writes => writes.2

end Parallax.Elementwise
