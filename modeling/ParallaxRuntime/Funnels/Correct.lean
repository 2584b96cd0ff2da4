import ParallaxRuntime.Funnels.Compaction
import ParallaxRuntime.Funnels.Sorting

/-!
# Every funnel against its algorithm

Eleven funnels with what they are called with, the kernels they rely on, and the results that the
standard asks for.
-/

namespace Parallax.Funnels
open Memory Effects Arena Kernel Launcher

variable {β : Type}

inductive Job (β : Type) : Type 1 where
  | invoke {α : Type} (c : Codec β α) (align : Nat) (k : Option String) (captures : Option (List β)) (f : α → α)
      (data n : Nat)
  | transform {α γ : Type} (c : Codec β α) (align : Nat) (d : Codec β γ) (align' : Nat) (k : Option String)
      (captures : Option (List β)) (f : α → γ) (input output n : Nat)
  | reduce {M : Type} [AddCommMonoid M] (c : Codec β M) (align : Nat) (k : Option String) (data n : Nat) (init : M)
      (gpuAt : Nat)
  | sort {α : Type} [LinearOrder α] (c : Codec β α) (align : Nat) (top : α) (k : Option String) (data n fuel : Nat)
  | scan {M : Type} [AddCommMonoid M] (c : Codec β M) (align : Nat) (ks ka : Option String) (input output n : Nat)
  | exclusiveScan {M : Type} [AddCommMonoid M] (c : Codec β M) (align : Nat) (ks ka kh : Option String)
      (input output n : Nat) (init : M)
  | transformReduce {α M : Type} [AddCommMonoid M] (c : Codec β α) (align : Nat) (d : Codec β M) (alignU : Nat)
      (kx kr : Option String) (empty : Bool) (f : α → M) (input n gpuAt : Nat)
  | countIf {α M : Type} [AddCommMonoid M] (c : Codec β α) (align : Nat) (ci : Codec β M) (alignInt : Nat)
      (toLong : M → Int) (number : Nat →+ M) (kp kr : Option String) (empty : Bool) (pred : α → Bool) (input n gpuAt : Nat)
  | copyIf {α M : Type} [AddCommMonoid M] (c : Codec β α) (align : Nat) (pc : Codec β M) (pos : Positions M)
      (kf ks ka kc : Option String) (empty isFloat : Bool) (pred : α → Bool) (input output n keptAt : Nat)
  | removeIf {α M : Type} [AddCommMonoid M] (c : Codec β α) (align : Nat) (pc : Codec β M) (pos : Positions M)
      (kf ks ka kc : Option String) (empty isFloat : Bool) (pred : α → Bool) (data n keptAt : Nat)
  | partition {α M : Type} [AddCommMonoid M] (c : Codec β α) (align : Nat) (pc : Codec β M) (pos : Positions M)
      (kf ks ka kc : Option String) (empty isFloat : Bool) (pred : α → Bool) (data n keptAt : Nat)

namespace Job

def Res : Job β → Type
  | reduce (M := M) .. | transformReduce (M := M) .. => M
  | sort .. => Option Unit
  | countIf .. => Int
  | copyIf .. | removeIf .. | partition .. => Nat
  | _ => Unit

def prog [Zero β] (hv : HostValues β) (ctx : Context) : (j : Job β) → Funnel β j.Res
  | invoke c align k captures f data n => deviceInvoke ctx c align k captures f data n
  | transform c align d align' k captures f input output n =>
    deviceTransform ctx c align d align' k captures f input output n
  | reduce (M := M) c align k data n init gpuAt => (deviceReduce ctx c align k data n init gpuAt : Funnel β M)
  | sort c align top k data n fuel => deviceSort ctx c align (fun a b => decide (a ≤ b)) top k data n fuel
  | scan c align ks ka input output n => deviceScan ctx c align ks ka input output n
  | exclusiveScan c align ks ka kh input output n init => deviceExclusiveScan ctx c align ks ka kh input output n init
  | transformReduce (M := M) c align d alignU kx kr empty f input n gpuAt =>
    (deviceTransformReduce ctx c align d alignU kx kr empty f input n gpuAt : Funnel β M)
  | countIf c align ci alignInt toLong _ kp kr empty pred input n gpuAt =>
    deviceCountIf ctx c align ci alignInt toLong kp kr empty pred input n gpuAt
  | copyIf c align _ _ kf ks ka kc empty isFloat pred input output n keptAt =>
    deviceCopyIf hv ctx c align kf ks ka kc empty isFloat pred input output n keptAt
  | removeIf c align _ _ kf ks ka kc empty isFloat pred data n keptAt =>
    deviceRemoveIf hv ctx c align kf ks ka kc empty isFloat pred data n keptAt
  | partition c align _ _ kf ks ka kc empty isFloat pred data n keptAt =>
    devicePartition hv ctx c align kf ks ka kc empty isFloat pred data n keptAt

/-- The kernels that are registered were generated for this call. -/
def Registered [Zero β] (hv : HostValues β) (kernels : ElementKernels β) (shaders : String → Shader β)
    (loaded : String → Bool) : Job β → Prop
  | invoke c _ k captures f _ _ => ∀ name ∈ k, Invokes kernels name captures c f
  | transform c _ d _ k captures f _ _ _ => ∀ name ∈ k, Transforms kernels name captures c d f
  | reduce c _ k _ _ _ _ => c.dec (fun _ => 0) = 0 ∧ ∀ name ∈ k, loaded name = true ∧ shaders name = reduceShader c
  | sort c _ top k _ _ _ => (∀ x, x ≤ top) ∧ ∀ name ∈ k, loaded name = true ∧ shaders name = bitonicShader c
  | scan c _ ks ka _ _ _ => ∀ s ∈ ks, ∀ a ∈ ka, (loaded s = true ∧ loaded a = true) ∧
      shaders s = scanShader c ∧ shaders a = scanAddShader c
  | exclusiveScan c _ ks ka kh _ _ _ _ => ∀ s ∈ ks, ∀ a ∈ ka, ∀ h ∈ kh,
      (loaded s = true ∧ loaded a = true ∧ loaded h = true) ∧
      shaders s = scanShader c ∧ shaders a = scanAddShader c ∧ ShiftKernel c (shaders h)
  | transformReduce c _ d _ kx kr _ f _ _ _ => d.dec (fun _ => 0) = 0 ∧ ∀ x ∈ kx, ∀ r ∈ kr,
      Transforms kernels x none c d f ∧ loaded r = true ∧ shaders r = reduceShader d
  | countIf c _ ci _ toLong number kp kr _ pred _ n _ => ci.dec (fun _ => 0) = 0 ∧ (∀ k ≤ n, toLong (number k) = k) ∧
      ∀ p ∈ kp, ∀ r ∈ kr, Transforms kernels p none c ci (fun x => if pred x then number 1 else number 0) ∧
        loaded r = true ∧ shaders r = reduceShader ci
  | copyIf c _ pc pos kf ks ka kc _ isFloat pred _ _ n _ => ∀ k ∈ CompactKernels.lookup kf ks ka kc,
      Compacts hv c pc pos pred shaders loaded isFloat n k
  | removeIf c _ pc pos kf ks ka kc _ isFloat pred _ n _ => ∀ k ∈ CompactKernels.lookup kf ks ka kc,
      Compacts hv c pc pos (fun x => !pred x) shaders loaded isFloat n k
  | partition c _ pc pos kf ks ka kc _ isFloat pred _ n _ => ∀ k ∈ CompactKernels.lookup kf ks ka kc,
      Partitions hv c pc pos pred shaders loaded isFloat n k

/-- The arrays that the caller hands over, and room for what is written. -/
def Arrays {A : ArenaModel β} (t : World A) : Job β → Prop
  | invoke c _ _ _ _ data n | reduce c _ _ data n _ _ | sort c _ _ _ data n _ | transformReduce c _ _ _ _ _ _ _ data n _
  | countIf c _ _ _ _ _ _ _ _ _ data n _ | removeIf c _ _ _ _ _ _ _ _ _ _ data n _
  | partition c _ _ _ _ _ _ _ _ _ _ data n _ => t.Holds data (n * c.size)
  | transform c _ d _ _ _ _ input output n => t.Holds input (n * c.size) ∧ t.Holds output (n * d.size) ∧
      c.Pointwise input d output n
  | scan c _ _ _ input output n | exclusiveScan c _ _ _ _ input output n _ => t.Holds input (n * c.size) ∧
      t.Holds output (n * c.size) ∧ c.Pointwise input c output n
  | copyIf c _ _ _ _ _ _ _ _ _ pred input output n _ => t.Holds input (n * c.size) ∧
      t.Holds output (((c.list t.mem input n).filter pred).length * c.size) ∧ c.Pointwise input c output n

/-- A funnel's own variable, which the launcher stores a result to, is no part of the arena. -/
def Locals (hv : HostValues β) (A : ArenaModel β) : Job β → Prop
  | reduce c _ _ _ _ _ gpuAt => Outside A gpuAt c.size
  | transformReduce _ _ d _ _ _ _ _ _ _ gpuAt | countIf _ _ d _ _ _ _ _ _ _ _ _ gpuAt => Outside A gpuAt d.size
  | copyIf _ _ _ _ _ _ _ _ _ _ _ _ _ _ keptAt | removeIf _ _ _ _ _ _ _ _ _ _ _ _ _ keptAt
  | partition _ _ _ _ _ _ _ _ _ _ _ _ _ keptAt => KeptOutside hv A keptAt
  | _ => True

/-- The element counts and sizes that the runtime can count with. -/
def Counted : Job β → Prop
  | invoke c align _ _ _ _ n | reduce c align _ _ n _ _ | scan c align _ _ _ _ n
  | copyIf c align _ _ _ _ _ _ _ _ _ _ _ n _ | removeIf c align _ _ _ _ _ _ _ _ _ _ n _
  | partition c align _ _ _ _ _ _ _ _ _ _ n _ => c.size ≤ 2 ^ 30 ∧ align ≤ 256 ∧ n < 2 ^ 32
  | transform c align d align' _ _ _ _ _ n | transformReduce c align d align' _ _ _ _ _ n _
  | countIf c align d align' _ _ _ _ _ _ _ n _ =>
    (c.size ≤ 2 ^ 30 ∧ d.size ≤ 2 ^ 30) ∧ (align ≤ 256 ∧ align' ≤ 256) ∧ n < 2 ^ 32
  | sort c align _ _ _ n fuel => c.size ≤ 2 ^ 30 ∧ align ≤ 256 ∧ n ≤ 2 ^ 30 ∧ 30 < fuel
  | exclusiveScan c align _ _ _ _ _ n _ => c.size ≤ 8 ∧ align ≤ 256 ∧ n < 2 ^ 32

/-- The value returned and the caller's memory afterwards are what the algorithm gives. -/
def Iso {A : ArenaModel β} (t : World A) : (j : Job β) → j.Res → World A → Prop
  | invoke c _ _ _ f data n => Meets c data n c data (fun xs (_ : Unit) l => l = xs.map f) t
  | transform c _ d _ _ _ f input output n => Meets c input n d output (fun xs (_ : Unit) l => l = xs.map f) t
  | reduce c _ _ data n init _ => Meets c data n c data (fun xs r l => r = xs.foldl (· + ·) init ∧ l = []) t
  | sort c _ _ _ data n _ => Meets c data n c data (fun xs (r : Option Unit) l => r = some () ∧
      l = xs.mergeSort fun a b => decide (a ≤ b)) t
  | scan c _ _ _ input output n => Meets c input n c output (fun xs (_ : Unit) l =>
      l = (List.range n).map fun i => (xs.take (i + 1)).sum) t
  | exclusiveScan c _ _ _ _ input output n init => Meets c input n c output (fun xs (_ : Unit) l =>
      l = (List.range n).map fun i => init + (xs.take i).sum) t
  | transformReduce c _ _ _ _ _ _ f input n _ => Meets c input n c input (fun xs r l => r = (xs.map f).sum ∧ l = []) t
  | countIf c _ _ _ _ _ _ _ _ pred input n _ => Meets c input n c input (fun xs (r : Int) l =>
      r = (xs.countP pred : Nat) ∧ l = []) t
  | copyIf c _ _ _ _ _ _ _ _ _ pred input output n _ => Meets c input n c output (fun xs (r : Nat) l =>
      r = (xs.filter pred).length ∧ l = xs.filter pred) t
  | removeIf c _ _ _ _ _ _ _ _ _ pred data n _ => Meets c data n c data (fun xs (r : Nat) l =>
      r = (xs.filter fun x => !pred x).length ∧ l = xs.filter fun x => !pred x) t
  | partition c _ _ _ _ _ _ _ _ _ pred data n _ => Meets c data n c data (fun xs (r : Nat) l =>
      r = (xs.filter pred).length ∧ Parted pred xs l) t

end Job

section
variable [Zero β] {A : ArenaModel β} {kernels : ElementKernels β} {shaders : String → Shader β} {t : World A}
  {loaded : String → Bool} {devBase : Nat} {hv : HostValues β}

theorem Job.ensures (j : Job β) (valid : A.Valid t.arena) (registered : j.Registered hv kernels shaders loaded)
    (own : j.Locals hv A) (arrays : j.Arrays t) (counted : j.Counted) :
    (j.prog hv (contextOf A loaded devBase)).Ensures (funnels A kernels shaders False False) (j.Iso t) t := by
  cases j with
  | invoke => exact deviceInvoke_ensures registered valid arrays counted.1 counted.2.1 counted.2.2
  | transform =>
    exact deviceTransform_ensures registered valid arrays.1 arrays.2.1 arrays.2.2 counted.1 counted.2.1 counted.2.2
  | reduce c align k data n init gpuAt =>
    have ensured : (deviceReduce (contextOf A loaded devBase) c align k data n init gpuAt).Ensures
        (funnels A kernels shaders False False) _ t :=
      deviceReduce_ensures registered.2 registered.1 own valid arrays counted.1 counted.2.1 counted.2.2
    exact ensured
  | sort =>
    exact deviceSort_sorts registered.2 registered.1 valid arrays counted.1 counted.2.1 counted.2.2.1 counted.2.2.2
  | scan => exact deviceScan_ensures registered valid arrays.1 arrays.2.1 arrays.2.2 counted.1 counted.2.1 counted.2.2
  | exclusiveScan =>
    exact deviceExclusiveScan_ensures registered valid arrays.1 arrays.2.1 arrays.2.2 counted.1 counted.2.1 counted.2.2
  | transformReduce c align d alignU kx kr empty f input n gpuAt =>
    have ensured : (deviceTransformReduce (contextOf A loaded devBase) c align d alignU kx kr empty f input n gpuAt).Ensures
        (funnels A kernels shaders False False) _ t :=
      deviceTransformReduce_ensures registered.2 registered.1 own valid arrays counted.1 counted.2.1 counted.2.2
    exact ensured
  | countIf c align ci alignInt toLong number =>
    exact deviceCountIf_ensures number registered.2.2 registered.2.1 registered.1 own valid arrays counted.1 counted.2.1
      counted.2.2
  | copyIf => exact deviceCopyIf_ensures registered own valid arrays.1 arrays.2.1 arrays.2.2 counted.1 counted.2.1 counted.2.2
  | removeIf => exact deviceRemoveIf_ensures registered own valid arrays counted.1 counted.2.1 counted.2.2
  | partition => exact devicePartition_ensures registered own valid arrays counted.1 counted.2.1 counted.2.2

end

/-! ### Launches in the small arena -/

/-- Kernels that apply a function to each element; the function may depend on what was captured. -/
def mapKernels (f : List (Option Nat) → Nat → Nat) : ElementKernels Nat where
  loaded _ := true
  devBase := 0
  run base e :=
    let p := base + e.set.binding0.elim 0 Binding.offset
    InAnyOrder (e.groups * 256) (mapInvocation Codec.quad Codec.quad (f e.set.uniform) p p e.push.count)
  idle := by
    rintro base e m m' none ⟨l, perm, rfl⟩
    rw [none, Nat.zero_mul] at perm
    obtain rfl : l = [] := perm.eq_nil
    rfl

theorem mapKernels_invokes {f : List (Option Nat) → Nat → Nat} {g : Nat → Nat} {k : String} {captures : Option (List Nat)}
    (same : ∀ uniform : List (Option Nat), uniform.take (captures.getD []).length = (captures.getD []).map some → f uniform = g) :
    Invokes (mapKernels f) k captures Codec.quad g := by
  refine ⟨rfl, fun base offset e kernel captured ⟨range, bound, _⟩ => ?_⟩
  unfold mapKernels
  dsimp only
  rw [bound, same _ captured]
  rfl

def addOneKernels : ElementKernels Nat := mapKernels fun _ x => x + 1

/-- One element in the first block of the small arena. -/
def addOne : Job Nat := .invoke Codec.quad 4 (some "add_one") none (· + 1) 4096 1

def oneNumber : World Legacy.smallArena := ⟨(Legacy.twoBlocks, fun _ => 5), fun _ => 0, fun _ => none⟩

theorem first_holds {t : World Legacy.smallArena} (live : t.live = oneNumber.live) : t.Holds 4096 4 where
  inside _ := live ▸ Legacy.twoBlocks_first (m := fun _ => 5) (by decide)
  outside out := absurd ⟨by decide, by decide⟩ out

theorem addOne_registered : addOne.Registered firstCell addOneKernels scanShaders (fun _ => true) := by
  rintro _ _
  exact mapKernels_invokes fun _ _ => rfl

theorem addOne_counted : addOne.Counted := by simp [addOne, Job.Counted, Codec.quad]

/-- A launcher that knows no pointer outside of the arena. -/
def launcherWith (cache : String × Nat → Option (Elementwise.DescriptorSet Nat)) : Elementwise.KernelLauncher Nat :=
  ⟨⟨fun _ => none, 0, fun _ => 0, fun _ => 0⟩, cache, 0⟩

theorem exists_launch {f : List (Option Nat) → Nat → Nat} {c : Elementwise.Call Nat} {anySet : Prop} {t : World Legacy.smallArena}
    (sets : Elementwise.Fits ((mapKernels f).context Legacy.smallArena) t.cache c ∨ anySet) (input : c.input.1 = 4096)
    (output : c.output.1 = 4096) :
    ∃ r e m cache, Elementwise.Dispatched ((mapKernels f).context Legacy.smallArena) c t.cache r e ∧ (mapKernels f).run 4096 e t.mem m ∧
      funnelStep Legacy.smallArena (mapKernels f) scanShaders False anySet (.launch c) t () { t.store m with cache := cache } := by
  have inside : (contextOf Legacy.smallArena (fun _ => true) 0).contains 4096 = true := by decide
  let o : Elementwise.Outcome := ⟨fun _ => none, true, true⟩
  let r := Elementwise.perform ((mapKernels f).context Legacy.smallArena) o (launcherWith t.cache) c
  have dispatches : ∃ e, Elementwise.Dispatched ((mapKernels f).context Legacy.smallArena) c t.cache r e :=
    Elementwise.perform_dispatched (o := o) (s := launcherWith t.cache) rfl (by rwa [input]) (by rwa [output]) ⟨rfl, rfl⟩
  obtain ⟨e, dispatched⟩ := dispatches
  obtain ⟨m, ran⟩ : ∃ m, (mapKernels f).run 4096 e t.mem m := InAnyOrder.exists_run _ _ _
  have launched : Launched (mapKernels f) t r { t.store m with cache := r.1.cache } := by
    unfold Launched
    rw [dispatched.executed]
    exact ⟨m, ran, rfl⟩
  exact ⟨r, e, m, _, dispatched, ran, sets, o, launcherWith t.cache, Or.inl ⟨rfl, rfl⟩, rfl, launched⟩

/-- Fills with what the captures start with. -/
def fillKernels : ElementKernels Nat := mapKernels fun uniform _ => (uniform.headD none).getD 0

def fillOne (x : Nat) : Job Nat := .invoke Codec.quad 4 (some "fill") (some [x]) (fun _ => x) 4096 1

theorem fillOne_registered (x : Nat) : (fillOne x).Registered firstCell fillKernels scanShaders (fun _ => true) := by
  rintro _ _
  apply mapKernels_invokes
  intro uniform captured
  funext _
  cases uniform with
  | nil => cases captured
  | cons byte rest =>
    cases captured
    rfl

/-- The set that a launch of `fillOne 7` has cached. -/
def filledOnce : World Legacy.smallArena :=
  { oneNumber with
    cache := fun key => if key = ("fill", 4096) then
      some ⟨some ⟨.arena, 0, some 4⟩, none, Elementwise.capturesBlock [7]⟩ else none }

/-- No step fails, and `fillOne 9` fills with 7. -/
theorem stale_fill : ¬ ∀ (j : Job Nat) (t t' : World Legacy.smallArena) (r : j.Res),
    Legacy.smallArena.Valid t.arena → j.Registered firstCell fillKernels scanShaders (fun _ => true) →
    j.Locals firstCell Legacy.smallArena → j.Arrays t → j.Counted →
    (j.prog firstCell (contextOf Legacy.smallArena (fun _ => true) 0)).Run
      (funnelStep Legacy.smallArena fillKernels scanShaders False True) t r t' → j.Iso t r t' := by
  intro correct
  have launches : ∃ r e m cache, Elementwise.Dispatched (fillKernels.context Legacy.smallArena) (.launchWithCaptures "fill" 4096 1 [9] 4) _ r e ∧
      fillKernels.run 4096 e filledOnce.mem m ∧ funnelStep Legacy.smallArena fillKernels scanShaders False True
        (.launch (.launchWithCaptures "fill" 4096 1 [9] 4)) filledOnce () { filledOnce.store m with cache := cache } :=
    exists_launch (Or.inr trivial) rfl rfl
  obtain ⟨r, e, m, cache, dispatched, ran, step⟩ := launches
  have array : filledOnce.Holds 4096 4 := first_holds rfl
  have run : ((fillOne 9).prog firstCell (contextOf Legacy.smallArena (fun _ => true) 0)).Run
      (funnelStep Legacy.smallArena fillKernels scanShaders False True) filledOnce () { filledOnce.store m with cache := cache } :=
    ⟨(), _, step, rfl, rfl⟩
  obtain ⟨l, rfl, stored⟩ := correct (fillOne 9) filledOnce _ () (Legacy.twoBlocks_valid _) (fillOne_registered 9) trivial array
    (by simp [fillOne, Job.Counted, Codec.quad]) run
  have reused : e.set = ⟨some ⟨.arena, 0, some 4⟩, none, Elementwise.capturesBlock [7]⟩ := by
    rcases dispatched.set with found | ⟨none, -⟩
    · exact (Option.some.inj found).symm
    · cases none
  have filled : InAnyOrder (groupsOf 1 * 256) (mapInvocation Codec.quad Codec.quad (fun _ => 7) 4096 4096 1) filledOnce.mem m := by
    unfold fillKernels mapKernels at ran
    dsimp only at ran
    rw [reused, dispatched.push, dispatched.groups] at ran
    exact ran
  obtain ⟨elems, frame⟩ := map_spec filled Codec.Pointwise.self (by decide)
  obtain ⟨-, mem⟩ := store_after (t := filledOnce) (Legacy.twoBlocks_valid _) frame
    fun a ha => array.covers (c := Codec.quad) (n := 1) ha
  have nine := stored.list
  rw [show ({ filledOnce.store m with cache := cache } : World Legacy.smallArena).mem = m from mem] at nine
  simp [Codec.list, elems] at nine

end Parallax.Funnels
