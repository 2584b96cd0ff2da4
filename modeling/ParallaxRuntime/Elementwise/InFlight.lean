import ParallaxRuntime.Effects.Trace
import ParallaxRuntime.Elementwise.Launch
import ParallaxRuntime.Launcher.Dispatches

/-!
# What a submission in flight relies on

One fence, one command buffer and the cached descriptor sets serve every operation of the launcher. From a submission to
the wait for its fence none of them may be touched.
-/

namespace Parallax.Elementwise
open Memory Effects Launcher

/-- The calls of Vulkan that matter; a submission is one that succeeded, with the set that its commands bind. -/
inductive VulkanCall where
  | updateDescriptorSets (set : Nat)
  | waitForFences
  | resetFences
  | resetCommandBuffer
  | record (set : Nat)
  | queueSubmit (set : Nat)
deriving DecidableEq

/-- The set of the submission that was not waited for yet. -/
def VulkanCall.next : Option Nat → VulkanCall → Option Nat
  | _, queueSubmit set => some set
  | _, waitForFences => none
  | pending, _ => pending

/-- A wait has a submission that signals the fence, and nothing else touches what that submission uses. -/
def VulkanCall.Allowed : Option Nat → VulkanCall → Prop
  | pending, updateDescriptorSets set => pending ≠ some set
  | pending, waitForFences => pending ≠ none
  | pending, _ => pending = none

def Undisturbed : Option Nat → List VulkanCall → Prop
  | _, [] => True
  | pending, c :: calls => c.Allowed pending ∧ Undisturbed (c.next pending) calls

/-- `pipelines_` by their descriptor-set layouts, `descriptor_cache_`, and the sets by number as they were taken. -/
structure Resources (β : Type) where
  manager : MemoryManager β
  layouts : String → Option Nat
  cache : Nat × Nat → Option Nat
  sets : Nat
  fenceSignaled : Bool
  calls : List VulkanCall

section
variable {β : Type}

/-- What a call of the launcher is asked for, with what Vulkan answers. -/
inductive Request (β : Type) where
  | loadKernel (name : String) (layout : Option Nat)
  | call (ctx : Context) (o : Outcome) (c : Call β)
  | primitive (ctx : Context) (a : Launcher.Action β)
  | sync

namespace Resources
variable (s : Resources β)

/-- The launcher as it is constructed. -/
def created (manager : MemoryManager β) : Resources β := ⟨manager, fun _ => none, fun _ => none, 0, true, []⟩

def inFlight : Option Nat := s.calls.foldl VulkanCall.next none

def call (calls : List VulkanCall) : Resources β := { s with calls := s.calls ++ calls }

def sync : Resources β := if s.fenceSignaled then s else { s.call [.waitForFences] with fenceSignaled := true }

/-- From `vkResetFences` to `vkQueueSubmit`. -/
def submit (set : Nat) (submits : Bool) : Resources β :=
  let s := s.call [.resetFences, .resetCommandBuffer, .record set]
  if submits = false then s else { s.call [.queueSubmit set] with fenceSignaled := false }

/-- A new set is taken and written. -/
def take (key : Option (Nat × Nat)) : Resources β :=
  { s.call [.updateDescriptorSets s.sets] with
    sets := s.sets + 1
    cache := key.elim s.cache fun key => Function.update s.cache key (some s.sets) }

variable (ctx : Context) (o : Outcome)

def submitNew (key : Option (Nat × Nat)) : Resources β × Bool :=
  if o.allocatesSet = false then (s, false) else ((s.take key).sync.submit s.sets o.submits, o.submits)

/-- `launch` writes a cached set before it waits. -/
def launch (kernel : String) (buffer count es : Nat) : Resources β × Bool :=
  (s.layouts kernel).elim (s, false) fun layout =>
    let r := resolve ctx o s.manager buffer (wmul count es)
    let s := { s with manager := r.1 }
    r.2.elim (s, false) fun _ =>
      (s.cache (layout, buffer)).elim (s.submitNew o (some (layout, buffer))) fun set =>
        ((s.call [.updateDescriptorSets set]).sync.submit set o.submits, o.submits)

def launchWithCaptures (kernel : String) (buffer count es : Nat) : Resources β × Bool :=
  (s.layouts kernel).elim (s, false) fun layout =>
    let r := resolve ctx o s.manager buffer (wmul count es)
    let s := { s with manager := r.1 }
    r.2.elim (s, false) fun _ =>
      (s.cache (layout, buffer)).elim (s.submitNew o (some (layout, buffer))) fun set =>
        (s.sync.submit set o.submits, o.submits)

def launchTransform (kernel : String) (input output count es outEs : Nat) (captures : List β) : Resources β × Bool :=
  (s.layouts kernel).elim (s, false) fun layout =>
    let r := resolve ctx o s.manager input (wmul count es)
    let r' := resolve ctx o r.1 output (wmul count (outElemSize es outEs))
    let s := { s with manager := r'.1 }
    r.2.elim (s, false) fun _ => r'.2.elim (s, false) fun _ =>
      if captures ≠ [] then s.submitNew o none
      else
        (s.cache (layout, output)).elim (s.submitNew o (some (layout, output))) fun set =>
          (s.sync.submit set o.submits, o.submits)

def perform : Call β → Resources β × Bool
  | .launch kernel buffer count es => s.launch ctx o kernel buffer count es
  | .launchWithCaptures kernel buffer count _ es => s.launchWithCaptures ctx o kernel buffer count es
  | .launchTransform kernel input output count es outEs captures =>
    s.launchTransform ctx o kernel input output count es outEs captures

def loadKernel (name : String) (layout : Option Nat) : Resources β :=
  layout.elim s fun layout => { s with layouts := Function.update s.layouts name (some layout) }

end Resources

/-- The calls of a synchronous primitive. A dispatch binds the set that it has just taken. -/
def resourceStep : Step (ops β) (Resources β)
  | .allocateDescriptorSet, s, ok, s' => ok = true ∧ s' = s.take none ∨ ok = false ∧ s' = s
  | .sync, s, _, s' => s' = s.sync
  | .submit _, s, ok, s' => s' = s.submit (s.sets - 1) ok
  | _, s, _, s' => ∃ manager, s' = { s with manager := manager }

/-- One operation from start to end. -/
inductive Request.Performed [Zero β] (hv : HostValues β) (s : Resources β) : Request β → Resources β → Prop
  | loadKernel (name : String) (layout : Option Nat) : Performed hv s (.loadKernel name layout) (s.loadKernel name layout)
  | call (ctx : Context) (o : Outcome) (c : Call β) : Performed hv s (.call ctx o c) (s.perform ctx o c).1
  | primitive (ctx : Context) (a : Launcher.Action β) (r : a.Res) (s' : Resources β)
      (run : (a.prog hv { ctx with loaded := fun kernel => (s.layouts kernel).isSome }).Run resourceStep s r s') :
      Performed hv s (.primitive ctx a) s'
  | sync : Performed hv s .sync s.sync

abbrev Executions [Zero β] (hv : HostValues β) : Resources β → List (Resources β × Request β) → Resources β → Prop :=
  Trace (Request.Performed hv)

/-- A `launch` that finds its set in the cache does not find it in flight. -/
def Request.Spares (s : Resources β) : Request β → Prop
  | .call ctx o (.launch kernel buffer count es) =>
    ∀ layout, s.layouts kernel = some layout → (resolve ctx o s.manager buffer (wmul count es)).2.isSome →
      ∀ set, s.cache (layout, buffer) = some set → s.inFlight ≠ some set
  | _ => True

/-- The flag tells whether a submission is in flight, and sets are numbered as they are taken. -/
structure Resources.Inv (s : Resources β) : Prop where
  signaled : s.fenceSignaled = true ↔ s.inFlight = none
  flying : ∀ set, s.inFlight = some set → set < s.sets
  cached : ∀ key set, s.cache key = some set → set < s.sets

/-- The invariant again, and nothing was disturbed if nothing was before and `p` holds. -/
def Resources.Continues (s s' : Resources β) (p : Prop) : Prop :=
  s'.Inv ∧ (Undisturbed none s'.calls ↔ Undisturbed none s.calls ∧ p)

end

section
variable {β : Type} {s s' s'' : Resources β} {set : Nat} {p q : Prop} {ctx : Context} {o : Outcome}

theorem undisturbed_append {pending : Option Nat} {calls calls' : List VulkanCall} :
    Undisturbed pending (calls ++ calls') ↔
      Undisturbed pending calls ∧ Undisturbed (calls.foldl VulkanCall.next pending) calls' := by
  induction calls generalizing pending with
  | nil => simp [Undisturbed]
  | cons c calls ih => simp [Undisturbed, ih, and_assoc]

namespace Resources

@[simp] theorem call_inFlight {calls : List VulkanCall} : (s.call calls).inFlight = calls.foldl VulkanCall.next s.inFlight :=
  List.foldl_append

@[simp] theorem call_fenceSignaled {calls : List VulkanCall} : (s.call calls).fenceSignaled = s.fenceSignaled := rfl

@[simp] theorem call_sets {calls : List VulkanCall} : (s.call calls).sets = s.sets := rfl

theorem undisturbed_call {calls : List VulkanCall} :
    Undisturbed none (s.call calls).calls ↔ Undisturbed none s.calls ∧ Undisturbed s.inFlight calls := undisturbed_append

theorem Continues.on (h : s.Continues s' p) (h' : s'.Continues s'' True) : s.Continues s'' p :=
  ⟨h'.1, by rw [h'.2, h.2, and_true]⟩

theorem Continues.after (h : s.Continues s' True) (h' : s'.Continues s'' p) : s.Continues s'' p :=
  ⟨h'.1, by rw [h'.2, h.2, and_true]⟩

theorem Continues.congr (h : s.Continues s' p) (same : p ↔ q) : s.Continues s' q := ⟨h.1, by rw [h.2, same]⟩

theorem Inv.continues (inv : s.Inv) : s.Continues s True := ⟨inv, by simp⟩

theorem Inv.moved (inv : s.Inv) (manager : MemoryManager β) (layouts : String → Option Nat) :
    s.Continues { s with manager := manager, layouts := layouts } True :=
  ⟨⟨inv.signaled, inv.flying, inv.cached⟩, by simp⟩

theorem sync_continues (inv : s.Inv) : s.Continues s.sync True ∧ s.sync.inFlight = none ∧ s.sync.sets = s.sets := by
  unfold sync
  split
  · next signaled => exact ⟨inv.continues, inv.signaled.mp signaled, rfl⟩
  · next waiting =>
    have flying : s.inFlight ≠ none := fun none => waiting (inv.signaled.mpr none)
    have landed : (s.call [.waitForFences]).inFlight = none := by simp [VulkanCall.next]
    refine ⟨⟨⟨?_, ?_, inv.cached⟩, ?_⟩, landed, rfl⟩
    · exact ⟨fun _ => landed, fun _ => rfl⟩
    · intro set here
      cases landed.symm.trans here
    · apply undisturbed_call.trans
      simp [Undisturbed, VulkanCall.Allowed, flying]

theorem submit_continues (inv : s.Inv) (idle : s.inFlight = none) (taken : set < s.sets) (submits : Bool) :
    s.Continues (s.submit set submits) True := by
  have recorded : s.Continues (s.call [.resetFences, .resetCommandBuffer, .record set]) True := by
    refine ⟨⟨?_, ?_, inv.cached⟩, ?_⟩
    · simpa [VulkanCall.next] using inv.signaled
    · simpa [VulkanCall.next] using inv.flying
    · apply undisturbed_call.trans
      simp [Undisturbed, VulkanCall.Allowed, VulkanCall.next, idle]
  unfold submit
  split
  · exact recorded
  · have flies : ((s.call [.resetFences, .resetCommandBuffer, .record set]).call [.queueSubmit set]).inFlight = some set := by
      simp [VulkanCall.next]
    apply recorded.after
    refine ⟨⟨?_, ?_, inv.cached⟩, ?_⟩
    · exact ⟨fun no => (by cases no), fun none => (by cases flies.symm.trans none)⟩
    · intro set' here
      cases flies.symm.trans here
      exact taken
    · apply undisturbed_call.trans
      simp [Undisturbed, VulkanCall.Allowed, VulkanCall.next, idle]

theorem syncSubmit_continues (inv : s.Inv) (taken : set < s.sets) (submits : Bool) :
    s.Continues (s.sync.submit set submits) True := by
  obtain ⟨synced, idle, sets⟩ := sync_continues inv
  exact synced.on (submit_continues synced.1 idle (sets ▸ taken) submits)

/-- Writing a set disturbs what is in flight only if it is that set. -/
theorem update_continues (set : Nat) (inv : s.Inv) : s.Continues (s.call [.updateDescriptorSets set]) (s.inFlight ≠ some set) := by
  refine ⟨⟨?_, ?_, inv.cached⟩, ?_⟩
  · simpa [VulkanCall.next] using inv.signaled
  · simpa [VulkanCall.next] using inv.flying
  · apply undisturbed_call.trans
    simp [Undisturbed, VulkanCall.Allowed]

theorem take_continues (inv : s.Inv) (key : Option (Nat × Nat)) : s.Continues (s.take key) True := by
  have fresh : s.inFlight ≠ some s.sets := fun here => Nat.lt_irrefl _ (inv.flying _ here)
  obtain ⟨written, same⟩ := update_continues s.sets inv
  refine ⟨⟨written.signaled, fun set here => Nat.lt_succ_of_lt (written.flying set here), ?_⟩, ?_⟩
  · intro key' set here
    cases key with
    | none => exact Nat.lt_succ_of_lt (inv.cached key' set here)
    | some key =>
      by_cases other : key' = key
      · subst other
        have : some s.sets = some set := by simpa [take] using here
        cases this
        exact Nat.lt_succ_self _
      · have : s.cache key' = some set := by simpa [take, Function.update_of_ne other] using here
        exact Nat.lt_succ_of_lt (inv.cached key' set this)
  · exact same.trans (by simp [fresh])

theorem submitNew_continues (inv : s.Inv) (key : Option (Nat × Nat)) : s.Continues (s.submitNew o key).1 True := by
  unfold submitNew
  split
  · exact inv.continues
  · have taken := take_continues inv key
    exact taken.on (syncSubmit_continues taken.1 (Nat.lt_succ_self _) o.submits)

/-- A launch may do nothing but look for its buffer. -/
theorem launch_continues (inv : s.Inv) {kernel : String} {buffer count es : Nat} :
    s.Continues (s.launch ctx o kernel buffer count es).1
      (Request.Spares s (.call ctx o (.launch kernel buffer count es))) := by
  have resolved := inv.moved (resolve ctx o s.manager buffer (wmul count es)).1 s.layouts
  unfold launch
  cases known : s.layouts kernel with
  | none => exact inv.continues.congr (by simp [Request.Spares, known])
  | some layout =>
    cases found : (resolve ctx o s.manager buffer (wmul count es)).2 with
    | none =>
      simp only [Option.elim_some, found, Option.elim_none]
      exact resolved.congr (by simp [Request.Spares, known, found])
    | some b =>
      cases cached : s.cache (layout, buffer) with
      | none =>
        simp only [Option.elim_some, found, cached, Option.elim_none]
        exact (resolved.on (submitNew_continues resolved.1 _)).congr (by simp [Request.Spares, known, found, cached])
      | some set =>
        simp only [Option.elim_some, found, cached]
        have updated := resolved.after (update_continues set resolved.1)
        apply (updated.on (syncSubmit_continues updated.1 (inv.cached _ _ cached) o.submits)).congr
        simp [Request.Spares, known, found, cached, inFlight]

theorem launchWithCaptures_continues (inv : s.Inv) {kernel : String} {buffer count es : Nat} :
    s.Continues (s.launchWithCaptures ctx o kernel buffer count es).1 True := by
  have resolved := inv.moved (resolve ctx o s.manager buffer (wmul count es)).1 s.layouts
  unfold launchWithCaptures
  cases s.layouts kernel with
  | none => exact inv.continues
  | some layout =>
    cases found : (resolve ctx o s.manager buffer (wmul count es)).2 with
    | none =>
      simp only [Option.elim_some, found, Option.elim_none]
      exact resolved
    | some b =>
      cases cached : s.cache (layout, buffer) with
      | none =>
        simp only [Option.elim_some, found, cached, Option.elim_none]
        exact resolved.on (submitNew_continues resolved.1 _)
      | some set =>
        simp only [Option.elim_some, found, cached]
        exact resolved.on (syncSubmit_continues resolved.1 (inv.cached _ _ cached) o.submits)

theorem launchTransform_continues (inv : s.Inv) {kernel : String} {input output count es outEs : Nat} {captures : List β} :
    s.Continues (s.launchTransform ctx o kernel input output count es outEs captures).1 True := by
  unfold launchTransform
  generalize wmul count (outElemSize es outEs) = outSize
  generalize wmul count es = inSize
  have resolved := inv.moved (resolve ctx o (resolve ctx o s.manager input inSize).1 output outSize).1 s.layouts
  cases s.layouts kernel with
  | none => exact inv.continues
  | some layout =>
    cases found : (resolve ctx o s.manager input inSize).2 with
    | none =>
      simp only [Option.elim_some, found, Option.elim_none]
      exact resolved
    | some b =>
      cases found' : (resolve ctx o (resolve ctx o s.manager input inSize).1 output outSize).2 with
      | none =>
        simp only [Option.elim_some, found, found', Option.elim_none]
        exact resolved
      | some b' =>
        simp only [Option.elim_some, found, found']
        split
        · exact resolved.on (submitNew_continues resolved.1 _)
        · cases cached : s.cache (layout, output) with
          | none => exact resolved.on (submitNew_continues resolved.1 _)
          | some set => exact resolved.on (syncSubmit_continues resolved.1 (inv.cached _ _ cached) o.submits)

/-- The device work of a primitive. -/
def handler : Handler (ops β) (Resources β) := ⟨fun _ _ => True, resourceStep⟩

theorem dispatch_continues {s₀ : Resources β} (d : Dispatch β) (before : s₀.Continues s True) :
    (dispatch d).Ensures handler (fun _ s' => s₀.Continues s' True) s := by
  refine Prog.ensures_op_bind.mpr ⟨trivial, ?_⟩
  rintro (set : Bool) s₁ (⟨rfl, rfl⟩ | ⟨rfl, rfl⟩)
  · have taken := before.on (take_continues before.1 none)
    rw [if_neg (by decide)]
    refine Prog.ensures_op_bind.mpr ⟨trivial, ?_⟩
    rintro _ _ rfl
    obtain ⟨synced, idle, sets⟩ := sync_continues taken.1
    refine Prog.ensures_op_bind.mpr ⟨trivial, ?_⟩
    rintro (submitted : Bool) _ rfl
    have bound : (s.take none).sync.sets - 1 < (s.take none).sync.sets := by
      rw [sets]
      exact Nat.lt_succ_self s.sets
    have done := (taken.on synced).on (submit_continues synced.1 idle bound submitted)
    apply Prog.ensures_ite
    · intro _
      exact done
    · intro _
      refine Prog.ensures_op_bind.mpr ⟨trivial, ?_⟩
      rintro _ _ rfl
      exact done.on (sync_continues done.1).1
  · exact before

theorem quiet_continues {s₀ : Resources β} {q : Op β} {x : q.Res} (quiet : q.Quiet) (before : s₀.Continues s True)
    (step : resourceStep q s x s') : s₀.Continues s' True := by
  cases q with
  | allocateDescriptorSet | sync | submit => exact quiet.elim
  | _ =>
    obtain ⟨manager, rfl⟩ := step
    exact before.on (before.1.moved manager s.layouts)

theorem primitive_continues [Zero β] (inv : s.Inv) {hv : HostValues β} {a : Launcher.Action β} {r : a.Res}
    (run : (a.prog hv ctx).Run resourceStep s r s') : s.Continues s' True := by
  have kept : (a.prog hv ctx).Ensures handler (fun _ s' => s.Continues s' True) s := by
    apply (a.dispatches hv ctx).ensures
    · intro q s₁ quiet before
      exact ⟨trivial, fun x s' step => quiet_continues quiet before step⟩
    · intro d s₁ _ before
      exact dispatch_continues d before
    · exact inv.continues
  exact kept.run run

theorem created_inv {manager : MemoryManager β} : (created manager).Inv := by
  constructor <;> simp [created, inFlight]

end Resources

variable [Zero β] {hv : HostValues β}

theorem Request.Performed.continues {op : Request β} (performed : op.Performed hv s s') (inv : s.Inv) :
    s.Continues s' (op.Spares s) := by
  cases performed with
  | loadKernel name layout =>
    cases layout with
    | none => exact inv.continues
    | some layout => exact inv.moved s.manager _
  | call ctx o c =>
    cases c with
    | launch => exact Resources.launch_continues inv
    | launchWithCaptures => exact Resources.launchWithCaptures_continues inv
    | launchTransform => exact Resources.launchTransform_continues inv
  | primitive ctx a r _ run => exact Resources.primitive_continues inv run
  | sync => exact (Resources.sync_continues inv).1

/-- In every run nothing in flight is touched exactly if each `launch` with a cached set finds it idle. -/
theorem undisturbed_iff {manager : MemoryManager β} {steps : List (Resources β × Request β)}
    (run : Executions hv (Resources.created manager) steps s) :
    Undisturbed none s.calls ↔ ∀ t ∈ steps, t.2.Spares t.1 := by
  induction run with
  | start => simp [Resources.created, Undisturbed]
  | @next steps s s' op run performed ih =>
    have inv := run.invariant Resources.created_inv fun _ _ _ _ inv performed => (Request.Performed.continues performed inv).1
    rw [(performed.continues inv).2, ih]
    simp [or_imp, forall_and]

end
/-! ### The same launches as their bindings see them -/

/-- Both models of the launcher know the same kernels, the same buffers and the same cached sets. -/
structure Tracks {β : Type} (ctx : Context) (s : Resources β) (k : KernelLauncher β) : Prop where
  manager : s.manager = k.manager
  loaded : ∀ kernel, ctx.loaded kernel = (s.layouts kernel).isSome
  own : ∀ kernel kernel' layout, s.layouts kernel = some layout → s.layouts kernel' = some layout → kernel = kernel'
  cached : ∀ kernel layout p, s.layouts kernel = some layout → (s.cache (layout, p)).isSome = (k.cache (kernel, p)).isSome

section
variable {β : Type} {ctx : Context} {o : Outcome} {s s' : Resources β} {k : KernelLauncher β}

theorem Tracks.same (t : Tracks ctx s k) (manager : s'.manager = s.manager) (layouts : s'.layouts = s.layouts)
    (cache : s'.cache = s.cache) : Tracks ctx s' k := by
  refine ⟨manager.trans t.manager, ?_, ?_, ?_⟩
  · rw [layouts]
    exact t.loaded
  · rw [layouts]
    exact t.own
  · rw [layouts, cache]
    exact t.cached

theorem Tracks.syncSubmit (t : Tracks ctx s k) (set : Nat) (submits : Bool) : Tracks ctx (s.sync.submit set submits) k := by
  have submitted : ∀ s : Resources β, (s.submit set submits).manager = s.manager ∧
      (s.submit set submits).layouts = s.layouts ∧ (s.submit set submits).cache = s.cache := by
    intro s
    unfold Resources.submit
    split <;> exact ⟨rfl, rfl, rfl⟩
  have synced : s.sync.manager = s.manager ∧ s.sync.layouts = s.layouts ∧ s.sync.cache = s.cache := by
    unfold Resources.sync
    split <;> exact ⟨rfl, rfl, rfl⟩
  obtain ⟨m, l, c⟩ := submitted s.sync
  exact t.same (m.trans synced.1) (l.trans synced.2.1) (c.trans synced.2.2)

theorem Tracks.cache (t : Tracks ctx s k) {kernel : String} {layout p : Nat} (known : s.layouts kernel = some layout)
    {set : Nat} {written : DescriptorSet β} {sets : Nat} {calls : List VulkanCall} :
    Tracks ctx { s with cache := Function.update s.cache (layout, p) (some set), sets := sets, calls := calls }
      { k with cache := Function.update k.cache (kernel, p) (some written), sets := k.sets + 1 } := by
  refine ⟨t.manager, t.loaded, t.own, ?_⟩
  intro kernel' layout' p' known'
  by_cases same : kernel' = kernel ∧ p' = p
  · obtain ⟨rfl, rfl⟩ := same
    cases known.symm.trans known'
    simp
  · have other : (layout', p') ≠ (layout, p) := by
      intro equal
      cases equal
      exact same ⟨t.own _ _ _ known' known, rfl⟩
    have other' : (kernel', p') ≠ (kernel, p) := by
      intro equal
      cases equal
      exact same ⟨rfl, rfl⟩
    simpa [Function.update_of_ne other, Function.update_of_ne other'] using t.cached kernel' layout' p' known'

theorem Tracks.submitNew (t : Tracks ctx s k) {kernel : String} {layout p count : Nat} {written : DescriptorSet β}
    (known : s.layouts kernel = some layout) :
    Tracks ctx (s.submitNew o (some (layout, p))).1
        (Elementwise.submitNew ctx o k (some (kernel, p)) kernel written count).1 ∧
      (s.submitNew o (some (layout, p))).2 = (Elementwise.submitNew ctx o k (some (kernel, p)) kernel written count).2.isSome := by
  unfold Resources.submitNew Elementwise.submitNew
  cases o.allocatesSet with
  | false => exact ⟨t, rfl⟩
  | true =>
    constructor
    · rw [if_neg (by decide), if_neg (by decide), submit_fst]
      exact (t.cache known).syncSubmit _ _
    · exact (Bool.eq_iff_iff.mpr submit_isSome).symm

theorem Tracks.submit (t : Tracks ctx s k) {kernel : String} {set count : Nat} {bound : DescriptorSet β} :
    Tracks ctx (s.sync.submit set o.submits) (Elementwise.submit ctx o k kernel bound count).1 ∧
      o.submits = (Elementwise.submit ctx o k kernel bound count).2.isSome := by
  rw [submit_fst]
  exact ⟨t.syncSubmit _ _, (Bool.eq_iff_iff.mpr submit_isSome).symm⟩

theorem Tracks.submitOnce (t : Tracks ctx s k) {kernel : String} {count : Nat} {written : DescriptorSet β} :
    Tracks ctx (s.submitNew o none).1 (Elementwise.submitNew ctx o k none kernel written count).1 ∧
      (s.submitNew o none).2 = (Elementwise.submitNew ctx o k none kernel written count).2.isSome := by
  unfold Resources.submitNew Elementwise.submitNew
  cases o.allocatesSet with
  | false => exact ⟨t, rfl⟩
  | true =>
    have taken : Tracks ctx (s.take none) { k with sets := k.sets + 1 } := ⟨t.manager, t.loaded, t.own, t.cached⟩
    exact taken.submit

theorem Tracks.cachedOrNew (t : Tracks ctx s k) {kernel : String} {layout p count : Nat} {written : DescriptorSet β}
    (known : s.layouts kernel = some layout) :
    Tracks ctx
        ((s.cache (layout, p)).elim (s.submitNew o (some (layout, p))) fun set => (s.sync.submit set o.submits, o.submits)).1
        ((k.cache (kernel, p)).elim (Elementwise.submitNew ctx o k (some (kernel, p)) kernel written count) fun set =>
          Elementwise.submit ctx o k kernel set count).1 ∧
      ((s.cache (layout, p)).elim (s.submitNew o (some (layout, p))) fun set => (s.sync.submit set o.submits, o.submits)).2 =
        ((k.cache (kernel, p)).elim (Elementwise.submitNew ctx o k (some (kernel, p)) kernel written count) fun set =>
          Elementwise.submit ctx o k kernel set count).2.isSome := by
  have cached := t.cached kernel layout p known
  cases cache : s.cache (layout, p) with
  | none =>
    have miss : k.cache (kernel, p) = none := by simpa [cache] using cached
    rw [miss]
    exact t.submitNew known
  | some set =>
    have hit : (k.cache (kernel, p)).isSome := by simpa [cache] using cached
    obtain ⟨bound, there⟩ := Option.isSome_iff_exists.mp hit
    rw [there]
    exact t.submit

theorem Tracks.resolved (t : Tracks ctx s k) (manager : MemoryManager β) :
    Tracks ctx { s with manager := manager } { k with manager := manager } := ⟨rfl, t.loaded, t.own, t.cached⟩

theorem Tracks.rewritten (t : Tracks ctx s k) {key : String × Nat} (hit : (k.cache key).isSome) {calls : List VulkanCall}
    {written : DescriptorSet β} :
    Tracks ctx { s with calls := calls } { k with cache := Function.update k.cache key (some written) } := by
  refine ⟨t.manager, t.loaded, t.own, ?_⟩
  intro kernel layout p known
  have cached := t.cached kernel layout p known
  by_cases same : (kernel, p) = key
  · subst same
    simpa [hit] using cached
  · simpa [Function.update_of_ne same] using cached

theorem Tracks.perform (t : Tracks ctx s k) (c : Call β) :
    Tracks ctx (s.perform ctx o c).1 (Elementwise.perform ctx o k c).1 ∧
      (s.perform ctx o c).2 = (Elementwise.perform ctx o k c).2.isSome := by
  cases c with
  | launch kernel buffer count es =>
    unfold Resources.perform Elementwise.perform Resources.launch Elementwise.launch
    dsimp only
    rw [t.loaded kernel, t.manager]
    cases known : s.layouts kernel with
    | none => exact ⟨t, rfl⟩
    | some layout =>
      have found := t.resolved (resolve ctx o k.manager buffer (wmul count es)).1
      rw [if_neg (by simp)]
      cases (resolve ctx o k.manager buffer (wmul count es)).2 with
      | none => exact ⟨found, rfl⟩
      | some b =>
        have cached := found.cached kernel layout buffer known
        simp only [Option.elim_some]
        cases cache : s.cache (layout, buffer) with
        | none =>
          have miss : k.cache (kernel, buffer) = none := by simpa [cache] using cached
          rw [miss]
          exact found.submitNew known
        | some set =>
          have hit : (k.cache (kernel, buffer)).isSome := by simpa [cache] using cached
          obtain ⟨bound, there⟩ := Option.isSome_iff_exists.mp hit
          rw [there]
          exact (found.rewritten hit).submit
  | launchWithCaptures kernel buffer count captures es =>
    unfold Resources.perform Elementwise.perform Resources.launchWithCaptures Elementwise.launchWithCaptures
    dsimp only
    rw [t.loaded kernel, t.manager]
    cases known : s.layouts kernel with
    | none => exact ⟨t, rfl⟩
    | some layout =>
      have found := t.resolved (resolve ctx o k.manager buffer (wmul count es)).1
      rw [if_neg (by simp)]
      cases (resolve ctx o k.manager buffer (wmul count es)).2 with
      | none => exact ⟨found, rfl⟩
      | some b =>
        simp only [Option.elim_some]
        exact found.cachedOrNew known
  | launchTransform kernel input output count es outEs captures =>
    unfold Resources.perform Elementwise.perform Resources.launchTransform Elementwise.launchTransform
    dsimp only
    rw [t.loaded kernel, t.manager]
    generalize wmul count (outElemSize es outEs) = outSize
    generalize wmul count es = inSize
    cases known : s.layouts kernel with
    | none => exact ⟨t, rfl⟩
    | some layout =>
      have found := t.resolved (resolve ctx o (resolve ctx o k.manager input inSize).1 output outSize).1
      rw [if_neg (by simp)]
      cases (resolve ctx o k.manager input inSize).2 with
      | none => exact ⟨found, rfl⟩
      | some b =>
        cases (resolve ctx o (resolve ctx o k.manager input inSize).1 output outSize).2 with
        | none => exact ⟨found, rfl⟩
        | some b' =>
          simp only [Option.elim_some]
          by_cases capturing : captures = []
          · rw [if_neg (not_not.mpr capturing), if_neg (not_not.mpr capturing)]
            exact found.cachedOrNew known
          · rw [if_pos capturing, if_pos capturing]
            exact found.submitOnce

end

/-! ### Two launches of one kernel -/

def mapKernel : Request Nat :=
  .call smallArena ⟨fun _ => none, true, true⟩ (.launch "map" 4096 64 4)

/-- Nothing registered, nothing launched. -/
def idleLauncher : Resources Nat := Resources.created ⟨fun _ => none, 0, fun _ => 0, fun _ => 0⟩

def mapLoaded : Resources Nat := idleLauncher.loadKernel "map" (some 0)

def mapLaunched (s : Resources Nat) : Resources Nat := (s.launch smallArena ⟨fun _ => none, true, true⟩ "map" 4096 64 4).1

theorem mapKernel_performed (s : Resources Nat) : mapKernel.Performed firstCell s (mapLaunched s) :=
  .call smallArena _ (.launch "map" 4096 64 4)

theorem map_loaded : Executions firstCell idleLauncher [(idleLauncher, .loadKernel "map" (some 0))] mapLoaded :=
  Trace.start.next (.loadKernel "map" (some 0))

theorem undisturbed_iff_synced : Undisturbed none (mapLaunched (mapLaunched mapLoaded).sync).calls ↔
    ∀ t ∈ [(idleLauncher, .loadKernel "map" (some 0)), (mapLoaded, mapKernel), (mapLaunched mapLoaded, .sync),
      ((mapLaunched mapLoaded).sync, mapKernel)], t.2.Spares t.1 := by
  have run := ((map_loaded.next (mapKernel_performed _)).next .sync).next (mapKernel_performed _)
  exact undisturbed_iff run

/-- The second launch writes the descriptor set of the first, which is in flight. -/
theorem cached_set_rewritten_in_flight : ¬ ∀ (steps : List (Resources Nat × Request Nat)) (s : Resources Nat),
    Executions firstCell idleLauncher steps s → Undisturbed none s.calls := by
  intro undisturbed
  have run := (map_loaded.next (mapKernel_performed _)).next (mapKernel_performed _)
  have calls : (mapLaunched (mapLaunched mapLoaded)).calls = [.updateDescriptorSets 0, .resetFences, .resetCommandBuffer,
      .record 0, .queueSubmit 0, .updateDescriptorSets 0, .waitForFences, .resetFences, .resetCommandBuffer, .record 0,
      .queueSubmit 0] := by decide
  have := undisturbed _ _ run
  rw [calls] at this
  simp [Undisturbed, VulkanCall.Allowed, VulkanCall.next] at this

end Parallax.Elementwise
