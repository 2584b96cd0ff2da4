import ParallaxRuntime.Funnels.Calls

/-!
# The results of the funnels

With its kernels or without, with scratch or refused, a funnel gives the result of its algorithm as
long as no step of the runtime fails.
-/

namespace Parallax.Funnels
open Memory Effects Arena Kernel Launcher

variable {β α γ δ : Type} {A : ArenaModel β} {kernels : ElementKernels β} {shaders : String → Shader β}
  {anySet : Prop} {t t₁ t₂ t₃ : World A} {loaded : String → Bool} {devBase : Nat} {c : Codec β α} {align n : Nat}

theorem bytes_small (size : c.size ≤ 2 ^ 30) (small : n < 2 ^ 32) : n * c.size ≤ 2 ^ 62 ∧ wmul n c.size = n * c.size := by
  have bytes : n * c.size ≤ 2 ^ 32 * 2 ^ 30 := Nat.mul_le_mul (Nat.le_of_lt small) size
  exact ⟨bytes, wmul_of_lt (by omega)⟩

/-! ### Staging -/

section
variable {p input output k : Nat}

theorem stage_ensures (scratch : Scratch t p (n * c.size) t₁) (hi : t.Holds input (n * c.size)) :
    (memcpy p input (n * c.size)).Ensures (funnels A kernels shaders False anySet) (fun _ t₂ =>
      After (fun _ => False) t t₂ ∧ (∀ b ∈ t₁.live, b ∈ t₂.live) ∧ c.list t₂.mem p n = c.list t.mem input n) t₁ := by
  have own := World.Holds.of_inBlock scratch.after.valid scratch.inBlock
  apply (memcpy_ensures scratch.after.valid (scratch.after.holds hi) own).mono
  rintro _ t₂ ⟨copied, list⟩
  rw [scratch.after.list_eq hi fun _ _ no => no] at list
  exact ⟨scratch.wrote scratch.after copied, copied.live, list⟩

theorem unstage_ensures (since : After (fun _ => False) t t₂) (own : InBlock t₂.live p (k * c.size))
    (ho : t.Holds output (k * c.size)) :
    (memcpy output p (k * c.size)).Ensures (funnels A kernels shaders False anySet) (fun _ t₃ =>
      (∀ b ∈ t₂.live, b ∈ t₃.live) ∧ Stored c output (c.list t₂.mem p k) t t₃) t₂ := by
  apply (memcpy_ensures since.valid (World.Holds.of_inBlock since.valid own) (since.holds ho)).mono
  rintro _ t₃ ⟨back, list⟩
  exact ⟨back.live, Stored.of_length (by simp) (since.untouched.trans back fun _ _ h => h) list⟩

theorem inBlock_mono (live : ∀ b ∈ t₁.live, b ∈ t₂.live) (block : InBlock t₁.live p k) : InBlock t₂.live p k := by
  obtain ⟨b, hb, range⟩ := block
  exact ⟨b, live b hb, range⟩

end

/-! ### Maps -/

theorem deviceInvoke_ensures {k : Option String} {captures : Option (List β)} {f : α → α} {data : Nat}
    (kernel : ∀ name ∈ k, Invokes kernels name captures c f) (valid : A.Valid t.arena) (hd : t.Holds data (n * c.size))
    (size : c.size ≤ 2 ^ 30) (aligned : align ≤ 256) (small : n < 2 ^ 32) :
    (deviceInvoke (contextOf A loaded devBase) c align k captures f data n).Ensures (funnels A kernels shaders False False)
      (Meets c data n c data (fun xs _ l => l = xs.map f) t) t := by
  obtain ⟨fits, bytes⟩ := bytes_small size small
  have loop : ∀ t', After (fun _ => False) t t' →
      (foldEach (fun i _ => do let x ← load c data i; store c data i (f x)) (List.range n) ()).Ensures
        (funnels A kernels shaders False False) (Meets c data n c data (fun xs _ l => l = xs.map f) t') t' := by
    intro t' start
    apply (mapLoop_ensures start.valid (start.holds hd) (start.holds hd) Codec.Pointwise.self).mono
    exact fun _ _ stored => ⟨_, rfl, stored⟩
  unfold deviceInvoke
  cases k with
  | none => exact loop t (After.refl valid)
  | some k =>
    have kernel := kernel k rfl
    dsimp only [Option.elim]
    rw [bytes]
    apply Prog.ensures_ite
    · intro inside
      apply (kernelLaunch_ensures kernel valid (hd.inBlock inside) small).mono
      rintro _ t' ⟨after, list⟩
      exact ⟨_, rfl, Stored.of_length (by simp) after list⟩
    intro _
    apply meets_withScratch valid fits aligned hd _ (fun _ => loop)
    · intro ab t₁ scratch
      apply (stage_ensures scratch hd).bind
      rintro _ t₂ ⟨since, grown, staged⟩
      have own := inBlock_mono grown scratch.inBlock
      apply (kernelLaunch_ensures kernel since.valid own small).bind
      rintro _ t₃ ⟨launched, mapped⟩
      apply (unstage_ensures (scratch.wrote since launched) (launched.inBlock own) hd).mono
      rintro _ t₄ ⟨grown', stored⟩
      refine ⟨fun b hb => grown' b (launched.live b (grown b hb)), _, rfl, ?_⟩
      rwa [mapped, staged] at stored
    · rintro _ _ rfl
      simpa using hd

theorem deviceTransform_ensures {k : Option String} {captures : Option (List β)} {d : Codec β δ} {align' : Nat} {f : α → δ}
    {input output : Nat} (kernel : ∀ name ∈ k, Transforms kernels name captures c d f) (valid : A.Valid t.arena)
    (hi : t.Holds input (n * c.size)) (ho : t.Holds output (n * d.size)) (apart : c.Pointwise input d output n)
    (size : c.size ≤ 2 ^ 30 ∧ d.size ≤ 2 ^ 30) (aligned : align ≤ 256 ∧ align' ≤ 256) (small : n < 2 ^ 32) :
    (deviceTransform (contextOf A loaded devBase) c align d align' k captures f input output n).Ensures
      (funnels A kernels shaders False False) (Meets c input n d output (fun xs _ l => l = xs.map f) t) t := by
  obtain ⟨fits, bytes⟩ := bytes_small size.1 small
  obtain ⟨fits', bytes'⟩ := bytes_small size.2 small
  have loop : ∀ t', After (fun _ => False) t t' →
      (foldEach (fun i _ => do let x ← load c input i; store d output i (f x)) (List.range n) ()).Ensures
        (funnels A kernels shaders False False) (Meets c input n d output (fun xs _ l => l = xs.map f) t') t' := by
    intro t' start
    apply (mapLoop_ensures start.valid (start.holds hi) (start.holds ho) apart).mono
    exact fun _ _ stored => ⟨_, rfl, stored⟩
  unfold deviceTransform
  cases k with
  | none => exact loop t (After.refl valid)
  | some k =>
    have kernel := kernel k rfl
    dsimp only [Option.elim]
    rw [bytes, bytes']
    apply Prog.ensures_ite
    · intro inside
      apply (kernelLaunchTransform_ensures kernel valid (hi.inBlock inside.1) (ho.inBlock inside.2) apart small).mono
      rintro _ t' ⟨after, list⟩
      exact ⟨_, rfl, Stored.of_length (by simp) after list⟩
    intro _
    apply meets_withScratchPair valid ⟨fits, fits'⟩ aligned hi _ loop
    · intro ai ao t₁ pair
      apply (stage_ensures pair.left hi).bind
      rintro _ t₂ ⟨since, grown, staged⟩
      have own := inBlock_mono grown pair.right.inBlock
      apply (kernelLaunchTransform_ensures kernel since.valid (inBlock_mono grown pair.left.inBlock) own
        pair.pointwise small).bind
      rintro _ t₃ ⟨launched, mapped⟩
      apply (unstage_ensures (pair.right.wrote since launched) (launched.inBlock own) ho).mono
      rintro _ t₄ ⟨grown', stored⟩
      refine ⟨fun b hb => grown' b (launched.live b (grown b hb)), _, rfl, ?_⟩
      rwa [mapped, staged] at stored
    · rintro _ _ rfl
      simpa using ho

/-! ### Sums -/

section
variable {M : Type} [AddCommMonoid M]

theorem foldl_sum (f : α → M) {xs : List α} {a : M} : xs.foldl (fun acc x => acc + f x) a = a + (xs.map f).sum := by
  induction xs generalizing a with
  | nil => simp
  | cons x xs ih => rw [List.foldl_cons, ih, List.map_cons, List.sum_cons, add_assoc]

variable {c : Codec β M} {data input output : Nat}

theorem deviceReduce_ensures [Zero β] {k : Option String} {init : M} {gpuAt : Nat}
    (kernel : ∀ name ∈ k, loaded name = true ∧ shaders name = reduceShader c) (zero : c.dec (fun _ => 0) = 0)
    (outside : Outside A gpuAt c.size) (valid : A.Valid t.arena) (hd : t.Holds data (n * c.size)) (size : c.size ≤ 2 ^ 30)
    (aligned : align ≤ 256) (small : n < 2 ^ 32) :
    (deviceReduce (contextOf A loaded devBase) c align k data n init gpuAt).Ensures (funnels A kernels shaders False anySet)
      (Meets c data n c data (fun xs r l => r = xs.foldl (· + ·) init ∧ l = []) t) t := by
  obtain ⟨fits, bytes⟩ := bytes_small size small
  have total : ∀ xs : List M, xs.foldl (· + ·) init = init + xs.sum := by
    intro xs
    simpa using foldl_sum id (a := init)
  have loop : ∀ t', After (fun _ => False) t t' →
      (foldEach (fun i acc => do let x ← load c data i; pure (acc + x)) (List.range n) init).Ensures
        (funnels A kernels shaders False anySet) (Meets c data n c data (fun xs r l => r = xs.foldl (· + ·) init ∧ l = []) t') t' := by
    intro t' start
    apply (readLoop_ensures (start.holds hd)).mono
    rintro _ _ ⟨rfl, rfl⟩
    exact ⟨[], ⟨rfl, rfl⟩, Stored.nil (After.refl start.valid)⟩
  unfold deviceReduce
  cases k with
  | none => exact loop t (After.refl valid)
  | some k =>
    obtain ⟨known, found⟩ := kernel k rfl
    dsimp only [Option.elim]
    rw [bytes]
    apply Prog.ensures_ite
    · intro inside
      apply (parallaxReduce_ensures known found zero outside valid (hd.inBlock inside) small).bind
      rintro gpu t' ⟨after, value⟩
      exact ⟨[], ⟨(congrArg (init + ·) value).trans (total _).symm, rfl⟩, Stored.nil after⟩
    intro _
    apply meets_withScratch valid fits aligned hd _ (fun _ => loop)
    · intro ab t₁ scratch
      apply (stage_ensures scratch hd).bind
      rintro _ t₂ ⟨since, grown, staged⟩
      apply (parallaxReduce_ensures known found zero outside since.valid (inBlock_mono grown scratch.inBlock) small).bind
      rintro gpu t₃ ⟨after, value⟩
      rw [staged] at value
      refine ⟨fun b hb => after.live b (grown b hb), [], ⟨?_, rfl⟩, Stored.nil (since.trans after fun _ _ no => no)⟩
      exact (congrArg (init + ·) value).trans (total _).symm
    · rintro _ _ ⟨_, rfl⟩
      exact hd.sub (by simp)

theorem deviceScan_ensures {ks ka : Option String}
    (kernel : ∀ s ∈ ks, ∀ a ∈ ka, (loaded s = true ∧ loaded a = true) ∧ shaders s = scanShader c ∧ shaders a = scanAddShader c)
    (valid : A.Valid t.arena) (hi : t.Holds input (n * c.size)) (ho : t.Holds output (n * c.size))
    (apart : c.Pointwise input c output n) (size : c.size ≤ 2 ^ 30) (aligned : align ≤ 256) (small : n < 2 ^ 32) :
    (deviceScan (contextOf A loaded devBase) c align ks ka input output n).Ensures (funnels A kernels shaders False anySet)
      (Meets c input n c output (fun xs _ l => l = (List.range n).map fun i => (xs.take (i + 1)).sum) t) t := by
  obtain ⟨fits, bytes⟩ := bytes_small size small
  have loop : ∀ t', After (fun _ => False) t t' →
      (foldEach (fun i acc => do
        let x ← load c input i
        store c output i (acc + x)
        pure (acc + x)) (List.range n) 0 >>= fun _ => (pure () : Funnel β Unit)).Ensures (funnels A kernels shaders False anySet)
        (Meets c input n c output (fun xs _ l => l = (List.range n).map fun i => (xs.take (i + 1)).sum) t') t' := by
    intro t' start
    apply (writeLoop_ensures _ _ start.valid (start.holds hi) (start.holds ho) apart).bind
    intro _ t'' stored
    refine ⟨_, List.map_congr_left fun i hi => ?_, stored⟩
    rw [Codec.list_take (List.mem_range.mp hi), Codec.list_succ, List.sum_append, List.sum_singleton]
    congr 1
    simpa using foldl_sum id (a := (0 : M))
  unfold deviceScan
  cases ks with
  | none => exact loop t (After.refl valid)
  | some ks =>
    cases ka with
    | none => exact loop t (After.refl valid)
    | some ka =>
      obtain ⟨known, scan, add⟩ := kernel ks rfl ka rfl
      dsimp only [Option.elim]
      rw [bytes]
      apply Prog.ensures_ite
      · intro inside
        have here : ∀ t₁, After (c.Covers output n) t t₁ → c.list t₁.mem output n = c.list t.mem input n →
            (parallaxScan (contextOf A loaded devBase) ks ka output n c.size).Ensures (funnels A kernels shaders False anySet)
              (Meets c input n c output (fun xs _ l => l = (List.range n).map fun i => (xs.take (i + 1)).sum) t) t₁ := by
          intro t₁ after list
          apply (parallaxScan_ensures known scan add after.valid (after.inBlock (ho.inBlock inside.2)) small).mono
          rintro _ t₂ ⟨scanned, sums⟩
          rw [list] at sums
          exact ⟨_, rfl, Stored.of_length (by simp) (after.trans scanned fun _ _ h => h) sums⟩
        apply Prog.ensures_ite
        · intro _
          apply (memcpy_ensures valid hi ho).bind
          rintro _ t₁ ⟨after, list⟩
          exact here t₁ after list
        intro same
        rw [not_not] at same
        exact here t (After.refl valid) (by rw [same])
      intro _
      apply meets_withScratch valid fits aligned hi _ (fun _ => loop)
      · intro ab t₁ scratch
        apply (stage_ensures scratch hi).bind
        rintro _ t₂ ⟨since, grown, staged⟩
        have own := inBlock_mono grown scratch.inBlock
        apply (parallaxScan_ensures known scan add since.valid own small).bind
        rintro _ t₃ ⟨scanned, sums⟩
        apply (unstage_ensures (scratch.wrote since scanned) (scanned.inBlock own) ho).mono
        rintro _ t₄ ⟨grown', stored⟩
        refine ⟨fun b hb => grown' b (scanned.live b (grown b hb)), _, rfl, ?_⟩
        rwa [sums, staged] at stored
      · rintro _ _ rfl
        simpa using ho

theorem deviceExclusiveScan_ensures {ks ka kh : Option String} {init : M}
    (kernel : ∀ s ∈ ks, ∀ a ∈ ka, ∀ h ∈ kh, (loaded s = true ∧ loaded a = true ∧ loaded h = true) ∧
      shaders s = scanShader c ∧ shaders a = scanAddShader c ∧ ShiftKernel c (shaders h))
    (valid : A.Valid t.arena) (hi : t.Holds input (n * c.size)) (ho : t.Holds output (n * c.size))
    (apart : c.Pointwise input c output n) (narrow : c.size ≤ 8) (aligned : align ≤ 256) (small : n < 2 ^ 32) :
    (deviceExclusiveScan (contextOf A loaded devBase) c align ks ka kh input output n init).Ensures
      (funnels A kernels shaders False anySet)
      (Meets c input n c output (fun xs _ l => l = (List.range n).map fun i => init + (xs.take i).sum) t) t := by
  obtain ⟨fits, bytes⟩ := bytes_small (c := c) (n := n) (by omega) small
  have loop : ∀ t', After (fun _ => False) t t' →
      (foldEach (fun i acc => do
        let x ← load c input i
        store c output i acc
        pure (acc + x)) (List.range n) init >>= fun _ => (pure () : Funnel β Unit)).Ensures (funnels A kernels shaders False anySet)
        (Meets c input n c output (fun xs _ l => l = (List.range n).map fun i => init + (xs.take i).sum) t') t' := by
    intro t' start
    apply (writeLoop_ensures (fun acc _ => acc) _ start.valid (start.holds hi) (start.holds ho) apart).bind
    intro _ t'' stored
    refine ⟨_, List.map_congr_left fun i hi => ?_, stored⟩
    rw [Codec.list_take (Nat.le_of_lt (List.mem_range.mp hi))]
    simpa using foldl_sum id (a := init)
  unfold deviceExclusiveScan
  cases ks with
  | none => exact loop t (After.refl valid)
  | some ks =>
    cases ka with
    | none => exact loop t (After.refl valid)
    | some ka =>
      cases kh with
      | none => exact loop t (After.refl valid)
      | some kh =>
        obtain ⟨known, scan, add, shift⟩ := kernel ks rfl ka rfl kh rfl
        dsimp only [Option.elim]
        rw [bytes]
        apply meets_withScratchPair valid ⟨fits, fits⟩ ⟨aligned, aligned⟩ hi _ loop
        · intro ai ao t₁ pair
          apply (stage_ensures pair.left hi).bind
          rintro _ t₂ ⟨since, grown, staged⟩
          have own := inBlock_mono grown pair.right.inBlock
          apply (parallaxExclusiveScan_ensures known scan add shift since.valid (inBlock_mono grown pair.left.inBlock) own
            (fun _ => pair.covers) small narrow).bind
          rintro _ t₃ ⟨shifted, sums⟩
          have since' : After (fun _ => False) t t₃ := since.trans shifted fun a ha h =>
            h.elim (fun h => pair.left.not_usable h ha) fun h => pair.right.not_usable h ha
          apply (unstage_ensures since' (shifted.inBlock own) ho).mono
          rintro _ t₄ ⟨grown', stored⟩
          refine ⟨fun b hb => grown' b (shifted.live b (grown b hb)), _, rfl, ?_⟩
          rwa [sums, staged] at stored
        · rintro _ _ rfl
          simpa using ho

/-- Mapping into scratch and summing it there. -/
theorem mapReduce_ensures [Zero β] {α : Type} {c : Codec β α} {d : Codec β M} {f : α → M} {kx kr : String}
    {ai ao input gpuAt : Nat} {iso : List α → γ → List α → Prop} (result : M → γ) (found : Transforms kernels kx none c d f)
    (known : loaded kr = true) (reduce : shaders kr = reduceShader d) (zero : d.dec (fun _ => 0) = 0) (outside : Outside A gpuAt d.size)
    (hi : t.Holds input (n * c.size)) (small : n < 2 ^ 32) (pair : ScratchPair t ai (n * c.size) ao (n * d.size) t₁)
    (meets : ∀ xs : List α, xs.length = n → iso xs (result (xs.map f).sum) []) :
    (memcpy ai input (n * c.size) >>= fun _ => kernelLaunchTransform kx ai ao n c.size d.size none >>= fun _ =>
      parallaxReduce (contextOf A loaded devBase) kr ao n d.size gpuAt >>= fun gpu =>
      pure (result (gpu.elim 0 d.dec))).Ensures (funnels A kernels shaders False False)
      (fun r t₂ => (∀ b ∈ t₁.live, b ∈ t₂.live) ∧ Meets c input n c input iso t r t₂) t₁ := by
  apply (stage_ensures pair.left hi).bind
  rintro _ t₂ ⟨since, grown, staged⟩
  have own := inBlock_mono grown pair.right.inBlock
  apply (kernelLaunchTransform_ensures found since.valid (inBlock_mono grown pair.left.inBlock) own pair.pointwise small).bind
  rintro _ t₃ ⟨launched, mapped⟩
  have since' := pair.right.wrote since launched
  apply (parallaxReduce_ensures known reduce zero outside launched.valid (launched.inBlock own) small).bind
  rintro gpu t₄ ⟨after, value⟩
  rw [mapped, staged] at value
  refine ⟨fun b hb => after.live b (launched.live b (grown b hb)), [], ?_, Stored.nil (since'.trans after fun _ _ no => no)⟩
  rw [value]
  exact meets _ (by simp)

theorem deviceTransformReduce_ensures [Zero β] {α : Type} {c : Codec β α} {d : Codec β M} {alignU : Nat}
    {kx kr : Option String} {empty : Bool} {f : α → M} {gpuAt : Nat}
    (kernel : ∀ x ∈ kx, ∀ r ∈ kr, Transforms kernels x none c d f ∧ loaded r = true ∧ shaders r = reduceShader d)
    (zero : d.dec (fun _ => 0) = 0) (outside : Outside A gpuAt d.size) (valid : A.Valid t.arena) (hi : t.Holds input (n * c.size))
    (size : c.size ≤ 2 ^ 30 ∧ d.size ≤ 2 ^ 30) (aligned : align ≤ 256 ∧ alignU ≤ 256) (small : n < 2 ^ 32) :
    (deviceTransformReduce (contextOf A loaded devBase) c align d alignU kx kr empty f input n gpuAt).Ensures
      (funnels A kernels shaders False False) (Meets c input n c input (fun xs r l => r = (xs.map f).sum ∧ l = []) t) t := by
  obtain ⟨fits, bytes⟩ := bytes_small size.1 small
  obtain ⟨fits', bytes'⟩ := bytes_small size.2 small
  have loop : ∀ t', After (fun _ => False) t t' →
      (foldEach (fun i acc => do let x ← load c input i; pure (acc + f x)) (List.range n) 0).Ensures
        (funnels A kernels shaders False False) (Meets c input n c input (fun xs r l => r = (xs.map f).sum ∧ l = []) t') t' := by
    intro t' start
    apply (readLoop_ensures (start.holds hi)).mono
    rintro _ _ ⟨rfl, rfl⟩
    exact ⟨[], ⟨by rw [foldl_sum, zero_add], rfl⟩, Stored.nil (After.refl start.valid)⟩
  unfold deviceTransformReduce
  apply Prog.ensures_ite fun _ => loop t (After.refl valid)
  intro _
  cases kx with
  | none => exact loop t (After.refl valid)
  | some kx =>
    cases kr with
    | none => exact loop t (After.refl valid)
    | some kr =>
      obtain ⟨found, known, reduce⟩ := kernel kx rfl kr rfl
      dsimp only [Option.elim]
      rw [bytes, bytes']
      apply meets_withScratchPair valid ⟨fits, fits'⟩ aligned hi _ loop
      · intro ai ao t₁ pair
        exact mapReduce_ensures id found known reduce zero outside hi small pair fun xs _ => ⟨rfl, rfl⟩
      · rintro _ _ ⟨_, rfl⟩
        exact hi.sub (by simp)

theorem foldl_countP {α : Type} {pred : α → Bool} {xs : List α} {a : Int} :
    xs.foldl (fun acc x => if pred x then acc + 1 else acc) a = a + (xs.countP pred : Nat) := by
  induction xs generalizing a with
  | nil => simp
  | cons x xs ih =>
    rw [List.foldl_cons, ih, List.countP_cons]
    split <;> push_cast <;> omega

theorem sum_passing {α : Type} (number : Nat →+ M) (pred : α → Bool) (xs : List α) :
    (xs.map fun x => if pred x then number 1 else number 0).sum = number (xs.countP pred) := by
  induction xs with
  | nil => simp
  | cons x xs ih =>
    rw [List.map_cons, List.sum_cons, ih, List.countP_cons, ← apply_ite number, ← map_add, add_comm]

/-- `number` is the conversion to the `int` of the device. -/
theorem deviceCountIf_ensures [Zero β] {α : Type} {c : Codec β α} {ci : Codec β M} {alignInt : Nat} {toLong : M → Int}
    {kp kr : Option String} {empty : Bool} {pred : α → Bool} {gpuAt : Nat} (number : Nat →+ M)
    (kernel : ∀ p ∈ kp, ∀ r ∈ kr, Transforms kernels p none c ci (fun x => if pred x then number 1 else number 0) ∧
      loaded r = true ∧ shaders r = reduceShader ci)
    (counts : ∀ k ≤ n, toLong (number k) = k) (zero : ci.dec (fun _ => 0) = 0) (outside : Outside A gpuAt ci.size) (valid : A.Valid t.arena)
    (hi : t.Holds input (n * c.size)) (size : c.size ≤ 2 ^ 30 ∧ ci.size ≤ 2 ^ 30) (aligned : align ≤ 256 ∧ alignInt ≤ 256)
    (small : n < 2 ^ 32) :
    (deviceCountIf (contextOf A loaded devBase) c align ci alignInt toLong kp kr empty pred input n gpuAt).Ensures
      (funnels A kernels shaders False False)
      (Meets c input n c input (fun xs r l => r = (xs.countP pred : Nat) ∧ l = []) t) t := by
  obtain ⟨fits, bytes⟩ := bytes_small size.1 small
  obtain ⟨fits', bytes'⟩ := bytes_small size.2 small
  have loop : ∀ t', After (fun _ => False) t t' →
      (foldEach (fun i (acc : Int) => do let x ← load c input i; pure (if pred x then acc + 1 else acc)) (List.range n) 0).Ensures
        (funnels A kernels shaders False False)
        (Meets c input n c input (fun xs r l => r = (xs.countP pred : Nat) ∧ l = []) t') t' := by
    intro t' start
    apply (readLoop_ensures (start.holds hi)).mono
    rintro _ _ ⟨rfl, rfl⟩
    exact ⟨[], ⟨by rw [foldl_countP, Int.zero_add], rfl⟩, Stored.nil (After.refl start.valid)⟩
  unfold deviceCountIf
  apply Prog.ensures_ite fun _ => loop t (After.refl valid)
  intro _
  cases kp with
  | none => exact loop t (After.refl valid)
  | some kp =>
    cases kr with
    | none => exact loop t (After.refl valid)
    | some kr =>
      obtain ⟨found, known, reduce⟩ := kernel kp rfl kr rfl
      dsimp only [Option.elim]
      rw [bytes, bytes']
      apply meets_withScratchPair valid ⟨fits, fits'⟩ aligned hi _ loop
      · intro ai ao t₁ pair
        apply mapReduce_ensures toLong found known reduce zero outside hi small pair
        intro xs length
        refine ⟨?_, rfl⟩
        rw [sum_passing, counts _ (length ▸ List.countP_le_length)]
      · rintro _ _ ⟨_, rfl⟩
        exact hi.sub (by simp)

end

end Parallax.Funnels
