import ParallaxRuntime.Elementwise.Captures

/-!
# Launches over arena pointers

A launch that dispatches does so for its own kernel and count. Its descriptor set is its own as well,
unless it is one that was cached for another call.
-/

namespace Parallax.Elementwise
open Memory Launcher

section
variable {β : Type}

def Call.kernel : Call β → String
  | .launch kernel _ _ _ | .launchWithCaptures kernel _ _ _ _ | .launchTransform kernel _ _ _ _ _ _ => kernel

def Call.count : Call β → Nat
  | .launch _ _ count _ | .launchWithCaptures _ _ count _ _ | .launchTransform _ _ _ count _ _ _ => count

/-- The cached set that the call uses as it is. -/
def Call.reused (cache : String × Nat → Option (DescriptorSet β)) : Call β → Option (DescriptorSet β)
  | .launch _ _ _ _ => none
  | .launchWithCaptures kernel buffer _ _ _ => cache (kernel, buffer)
  | .launchTransform kernel _ output _ _ _ captures => if captures = [] then cache (kernel, output) else none

def Outcome.Succeeds (o : Outcome) : Prop := o.allocatesSet = true ∧ o.submits = true

/-- The arena at an offset, with room for some bytes. -/
def Spans (b : Option Binding) (offset bytes : Nat) : Prop :=
  ∃ range, b = some ⟨.arena, offset, range⟩ ∧ ∀ room ∈ range, bytes ≤ room

/-- The arena at the pointer of an array, with room for it. -/
def Binds (ctx : Context) (b : Option Binding) (array : Nat × Nat) : Prop := Spans b (ctx.offsetOf array.1) array.2

def OwnArrays (ctx : Context) (set : DescriptorSet β) (c : Call β) : Prop :=
  match c with
  | .launchTransform .. => Binds ctx set.binding0 c.input ∧ Binds ctx set.binding1 c.output
  | _ => Binds ctx set.binding0 c.input

/-- The set is for the arrays and the captures of the call. -/
structure OwnSet (ctx : Context) (c : Call β) (set : DescriptorSet β) : Prop where
  arrays : OwnArrays ctx set c
  captures : OwnCaptures c set

/-- What the call finds in the cache and uses as it is, if anything, was written for a call like it. -/
def Fits (ctx : Context) (cache : String × Nat → Option (DescriptorSet β)) (c : Call β) : Prop :=
  ∀ set ∈ c.reused cache, OwnSet ctx c set

/-- A launch that dispatches: what is executed, and what is cached afterwards. -/
structure Dispatched (ctx : Context) (c : Call β) (cache : String × Nat → Option (DescriptorSet β))
    (r : KernelLauncher β × Option (Executed β)) (e : Executed β) : Prop where
  executed : r.2 = some e
  kernel : e.kernel = c.kernel
  push : e.push = ctx.makePushBlock c.count
  groups : e.groups = groupsOf c.count
  set : e.set ∈ c.reused cache ∨ c.reused cache = none ∧ OwnSet ctx c e.set

variable {ctx : Context} {o : Outcome} {s : KernelLauncher β} {c : Call β} {cache : String × Nat → Option (DescriptorSet β)}
  {kernel : String} {count : Nat} {set : DescriptorSet β}

/-- A launch that dispatches does so for its count. -/
def Ranged (count : Nat) (r : KernelLauncher β × Option (Executed β)) : Prop :=
  ∀ e ∈ r.2, e.push.count = count % 2 ^ 32 ∧ e.groups = groupsOf count

theorem ranged_none : Ranged count (s, none) := by
  intro e found
  cases found

theorem ranged_ite {p : Prop} [Decidable p] {r r' : KernelLauncher β × Option (Executed β)} (hr : Ranged count r)
    (hr' : Ranged count r') : Ranged count (if p then r else r') := by
  split
  · exact hr
  · exact hr'

theorem ranged_elim {α : Type} {x : Option α} {r : KernelLauncher β × Option (Executed β)}
    {f : α → KernelLauncher β × Option (Executed β)} (none : Ranged count r) (some : ∀ a, Ranged count (f a)) :
    Ranged count (x.elim r f) := by
  cases x with
  | none => exact none
  | some a => exact some a

theorem submit_ranged : Ranged count (submit ctx o s kernel set count) := by
  apply ranged_ite ranged_none
  intro e found
  cases found
  exact ⟨rfl, rfl⟩

theorem submitNew_ranged {key : Option (String × Nat)} : Ranged count (submitNew ctx o s key kernel set count) :=
  ranged_ite ranged_none submit_ranged

theorem perform_ranged : Ranged c.count (perform ctx o s c) := by
  cases c with
  | launch kernel buffer count es =>
    apply ranged_ite ranged_none
    apply ranged_elim ranged_none
    intro b
    exact ranged_elim submitNew_ranged fun set => submit_ranged
  | launchWithCaptures kernel buffer count captures es =>
    apply ranged_ite ranged_none
    apply ranged_elim ranged_none
    intro b
    exact ranged_elim submitNew_ranged fun set => submit_ranged
  | launchTransform kernel input output count es outEs captures =>
    apply ranged_ite ranged_none
    apply ranged_elim ranged_none
    intro b
    apply ranged_elim ranged_none
    intro b'
    exact ranged_ite submitNew_ranged (ranged_elim submitNew_ranged fun set => submit_ranged)

theorem resolve_arena {m : MemoryManager β} {p range : Nat} (contains : ctx.contains p = true) :
    resolve ctx o m p range = (m, some (.arena, ctx.offsetOf p)) := if_pos contains

theorem ownCaptures_capturesBlock {set : DescriptorSet β} (written : set.uniform = capturesBlock c.captures) : OwnCaptures c set := by
  rw [OwnCaptures, written, capturesBlock, List.take_left' (List.length_map _)]

theorem submit_dispatched {set : DescriptorSet β} (submits : o.submits = true) (own : set ∈ c.reused cache ∨ c.reused cache = none ∧ OwnSet ctx c set) :
    ∃ e, Dispatched ctx c cache (submit ctx o s c.kernel set c.count) e := by
  unfold submit
  rw [if_neg (by simp [submits])]
  exact ⟨_, rfl, rfl, rfl, rfl, own⟩

theorem submitNew_dispatched {key : Option (String × Nat)} {set : DescriptorSet β} (succeeds : o.Succeeds) (none : c.reused cache = none)
    (own : OwnSet ctx c set) : ∃ e, Dispatched ctx c cache (submitNew ctx o s key c.kernel set c.count) e := by
  unfold submitNew
  rw [if_neg (by simp [succeeds.1])]
  exact submit_dispatched succeeds.2 (Or.inr ⟨none, own⟩)

theorem binds_wholeIfZero (p n : Nat) : Binds ctx (some ⟨.arena, ctx.offsetOf p, wholeIfZero n⟩) (p, n) := by
  refine ⟨_, rfl, fun room here => ?_⟩
  unfold wholeIfZero at here
  split at here
  · cases here
  · cases here
    exact le_rfl

/-- Over arena pointers, and when Vulkan refuses nothing, a call of a loaded kernel dispatches. -/
theorem perform_dispatched (loaded : ctx.loaded c.kernel = true) (input : ctx.contains c.input.1 = true)
    (output : ctx.contains c.output.1 = true) (succeeds : o.Succeeds) : ∃ e, Dispatched ctx c s.cache (perform ctx o s c) e := by
  cases c with
  | launch kernel buffer count es =>
    change ∃ e, Dispatched ctx _ s.cache (launch ctx o s kernel buffer count es) e
    unfold launch
    rw [if_neg (by rw [show ctx.loaded kernel = true from loaded]; decide)]
    dsimp only
    rw [resolve_arena (p := buffer) input, Option.elim_some]
    have own : Binds ctx (some ⟨.arena, ctx.offsetOf buffer, some (wmul count es)⟩) (buffer, wmul count es) :=
      ⟨_, rfl, fun room here => by cases here; exact le_rfl⟩
    cases s.cache (kernel, buffer) with
    | none => exact submitNew_dispatched succeeds rfl ⟨own, ownCaptures_capturesBlock rfl⟩
    | some set => exact submit_dispatched succeeds.2 (Or.inr ⟨rfl, own, ownCaptures_capturesBlock rfl⟩)
  | launchWithCaptures kernel buffer count captures es =>
    change ∃ e, Dispatched ctx _ s.cache (launchWithCaptures ctx o s kernel buffer count captures es) e
    unfold launchWithCaptures
    rw [if_neg (by rw [show ctx.loaded kernel = true from loaded]; decide)]
    dsimp only
    rw [resolve_arena (p := buffer) input, Option.elim_some]
    cases cached : s.cache (kernel, buffer) with
    | none => exact submitNew_dispatched succeeds cached ⟨binds_wholeIfZero buffer (wmul count es), ownCaptures_capturesBlock rfl⟩
    | some set => exact submit_dispatched succeeds.2 (Or.inl cached)
  | launchTransform kernel inp out count es outEs captures =>
    change ∃ e, Dispatched ctx _ s.cache (launchTransform ctx o s kernel inp out count es outEs captures) e
    unfold launchTransform
    rw [if_neg (by rw [show ctx.loaded kernel = true from loaded]; decide)]
    dsimp only
    rw [resolve_arena (p := inp) input, resolve_arena (p := out) output, Option.elim_some, Option.elim_some]
    have own : OwnSet ctx (.launchTransform kernel inp out count es outEs captures)
        ⟨some ⟨.arena, ctx.offsetOf inp, wholeIfZero (wmul count es)⟩,
          some ⟨.arena, ctx.offsetOf out, wholeIfZero (wmul count (outElemSize es outEs))⟩, capturesBlock captures⟩ :=
      ⟨⟨binds_wholeIfZero inp (wmul count es), binds_wholeIfZero out (wmul count (outElemSize es outEs))⟩, ownCaptures_capturesBlock rfl⟩
    by_cases capturing : captures = []
    · rw [if_neg (not_not.mpr capturing)]
      cases cached : s.cache (kernel, out) with
      | none => exact submitNew_dispatched succeeds (by rw [Call.reused, if_pos capturing, cached]) own
      | some set =>
        refine submit_dispatched succeeds.2 (Or.inl ?_)
        rw [Call.reused, if_pos capturing, cached]
        rfl
    · rw [if_pos capturing]
      exact submitNew_dispatched succeeds (if_neg capturing) own

theorem Dispatched.own {r : KernelLauncher β × Option (Executed β)} {e : Executed β} (h : Dispatched ctx c cache r e)
    (fits : Fits ctx cache c) : OwnSet ctx c e.set := h.set.elim (fits _) And.right

theorem perform_idle (none : c.count = 0) {e : Executed β} (executed : (perform ctx o s c).2 = some e) : e.groups = 0 := by
  obtain ⟨-, groups⟩ := perform_ranged e executed
  rw [groups, none]
  rfl

end

end Parallax.Elementwise
