import ParallaxRuntime.Funnels.Outcome
import ParallaxRuntime.Kernel.Map
import ParallaxRuntime.Launcher.Compact
import ParallaxRuntime.Launcher.Reduce
import ParallaxRuntime.Launcher.Shift
import ParallaxRuntime.Launcher.Sort

/-!
# The C functions when nothing fails

The element-wise launches and the primitives over arena pointers, as a funnel sees them: what
becomes of the arrays as lists.
-/

namespace Parallax.Funnels
open Memory Effects Arena Kernel Launcher

section
variable {β α δ : Type} {A : ArenaModel β} {t t' : World A} {c : Codec β α} {p n : Nat}

theorem get_arena (valid : A.Valid t.arena) (block : InBlock t.live p (n * c.size)) {i : Nat} (lt : i < n) :
    c.get (A.mem t.arena) p i = c.get t.mem p i :=
  Codec.get_frame lt fun _ ha => (mem_of_liveByte valid (liveByte_of_covers block ha)).symm

theorem list_arena (valid : A.Valid t.arena) (block : InBlock t.live p (n * c.size)) :
    c.list (A.mem t.arena) p n = c.list t.mem p n := Codec.list_congr fun _ lt => get_arena valid block lt

theorem elements_eq_list (m : Nat → β) : elements c m p n = c.list m p n := by
  apply List.ext_getElem <;> simp [elements]

theorem sum_list {M : Type} [AddCommMonoid M] (c : Codec β M) (m : Nat → β) (p n : Nat) :
    ∑ i ∈ Finset.range n, c.get m p i = (c.list m p n).sum := by
  induction n with
  | zero => rfl
  | succ n ih => rw [Finset.sum_range_succ, ih, Codec.list_succ, List.sum_append, List.sum_singleton]

theorem After.of_wrote {D : Nat → Prop} (h : Wrote A D t.arena t'.arena) (host : t'.host = t.host) : After D t t' :=
  After.of_kept h.kept host fun _ _ hd => hd

/-! ### Element-wise launches -/

variable {kernels : ElementKernels β} {shaders : String → Shader β} {k : String} {captures : Option (List β)}

/-- The captures block starts with these. -/
def Captured (captures : Option (List β)) (e : Elementwise.Executed β) : Prop :=
  e.set.uniform.take (captures.getD []).length = (captures.getD []).map some

/-- The kernel that was generated from `f`, which is called on each element in place. -/
def Invokes (kernels : ElementKernels β) (k : String) (captures : Option (List β)) (c : Codec β α) (f : α → α) : Prop :=
  kernels.loaded k = true ∧ ∀ base offset (e : Elementwise.Executed β), e.kernel = k → Captured captures e →
    Elementwise.Spans e.set.binding0 offset (e.push.count * c.size) →
    kernels.run base e = InAnyOrder (e.groups * 256) (mapInvocation c c f (base + offset) (base + offset) e.push.count)

/-- The kernel that was generated from `f`, from one array to another. -/
def Transforms (kernels : ElementKernels β) (k : String) (captures : Option (List β)) (c : Codec β α) (d : Codec β δ)
    (f : α → δ) : Prop :=
  kernels.loaded k = true ∧ ∀ base offset offset' (e : Elementwise.Executed β), e.kernel = k → Captured captures e →
    Elementwise.Spans e.set.binding0 offset (e.push.count * c.size) →
    Elementwise.Spans e.set.binding1 offset' (e.push.count * d.size) →
    kernels.run base e = InAnyOrder (e.groups * 256) (mapInvocation c d f (base + offset) (base + offset') e.push.count)

theorem enough_groups (small : n < 2 ^ 32) : n ≤ groupsOf n * 256 := by
  rw [groupsOf_eq small]
  omega

/-- With a set of its own a launch maps an array to an array, or there was nothing to do. -/
theorem launch_ensures {o : Elementwise.Call β} {d : Codec β δ} {f : α → δ} {q : Nat} (known : kernels.loaded o.kernel = true)
    (valid : A.Valid t.arena) (hi : InBlock t.live p (n * c.size)) (ho : InBlock t.live q (n * d.size))
    (apart : c.Pointwise p d q n) (small : n < 2 ^ 32) (count : o.count = n) (input : o.input = (p, n * c.size))
    (output : o.output = (q, n * d.size))
    (maps : ∀ e : Elementwise.Executed β, e.kernel = o.kernel → e.push.count = n → Elementwise.OwnSet (kernels.context A) o e.set →
      kernels.run A.base e = InAnyOrder (e.groups * 256) (mapInvocation c d f p q e.push.count)) :
    (Prog.op (S := funnelOps β) (.launch o)).Ensures (funnels A kernels shaders False False)
      (fun _ t' => After (d.Covers q n) t t' ∧ d.list t'.mem q n = (c.list t.mem p n).map f) t := by
  refine ⟨⟨valid, by rwa [input], by rwa [output]⟩, fun _ t' step => ?_⟩
  obtain ⟨fits, answer, s, succeeds, cached, launched⟩ := step
  unfold Launched at launched
  rcases Nat.eq_zero_or_pos n with none | pos
  · rw [none]
    cases executed : (Elementwise.perform (kernels.context A) answer s o).2 with
    | none =>
      rw [executed] at launched
      subst launched
      exact ⟨((After.refl valid).untouched.cached _), rfl⟩
    | some e =>
      rw [executed] at launched
      obtain ⟨m, run, rfl⟩ := launched
      obtain rfl := kernels.idle (Elementwise.perform_idle (count.trans none) executed) run
      exact ⟨((store_after valid (fun _ _ => rfl) fun _ no => no.elim).1.untouched.cached _), rfl⟩
  · have contains : (kernels.context A).contains o.input.1 = true ∧ (kernels.context A).contains o.output.1 = true := by
      rw [input, output]
      exact ⟨contains_of_inBlock valid hi (Nat.mul_pos pos c.pos), contains_of_inBlock valid ho (Nat.mul_pos pos d.pos)⟩
    obtain ⟨e, dispatched⟩ := Elementwise.perform_dispatched (s := s) known contains.1 contains.2 (succeeds.resolve_right id)
    rw [dispatched.executed] at launched
    obtain ⟨m, run, rfl⟩ := launched
    rw [cached] at dispatched
    have pushed : e.push.count = n := by
      rw [dispatched.push, count]
      exact Nat.mod_eq_of_lt small
    rw [maps e dispatched.kernel pushed (dispatched.own (fits.resolve_right id)), pushed, dispatched.groups, count] at run
    obtain ⟨elems, frame⟩ := map_spec run apart (enough_groups small)
    obtain ⟨after, mem⟩ := store_after valid frame fun a ha _ => liveByte_of_covers ho ha
    refine ⟨after.cached _, ?_⟩
    change d.list (t.store m).mem q n = _
    rw [mem]
    apply Codec.list_eq
    · simp
    · intro i hi
      simpa using elems i (by simpa using hi)

theorem bytes_of_inBlock (valid : A.Valid t.arena) (block : InBlock t.live p (n * c.size)) :
    wmul n c.size = n * c.size ∧ A.base + (p - A.base) = p := by
  have := block.bounds valid
  exact ⟨wmul_of_lt (by omega), by omega⟩

theorem kernelLaunch_ensures {f : α → α} (found : Invokes kernels k captures c f) (valid : A.Valid t.arena)
    (block : InBlock t.live p (n * c.size)) (small : n < 2 ^ 32) :
    (kernelLaunch k p n c.size captures).Ensures (funnels A kernels shaders False False)
      (fun _ t' => After (c.Covers p n) t t' ∧ c.list t'.mem p n = (c.list t.mem p n).map f) t := by
  obtain ⟨known, runs⟩ := found
  obtain ⟨bytes, place⟩ := bytes_of_inBlock valid block
  have maps : ∀ e : Elementwise.Executed β, e.kernel = k → Captured captures e → e.push.count = n →
      Elementwise.Spans e.set.binding0 (p - A.base) (wmul n c.size) →
      kernels.run A.base e = InAnyOrder (e.groups * 256) (mapInvocation c c f p p e.push.count) := by
    intro e kernel captured pushed spans
    rw [bytes, ← pushed] at spans
    rw [runs A.base (p - A.base) e kernel captured spans, place]
  have pair : (p, wmul n c.size) = (p, n * c.size) := by rw [bytes]
  cases captures with
  | none =>
    exact launch_ensures (o := .launch k p n c.size) known valid block block Codec.Pointwise.self small rfl pair pair
      fun e kernel pushed own => maps e kernel own.captures pushed own.arrays
  | some captures =>
    exact launch_ensures (o := .launchWithCaptures k p n captures c.size) known valid block block Codec.Pointwise.self small
      rfl pair pair fun e kernel pushed own => maps e kernel own.captures pushed own.arrays

theorem kernelLaunchTransform_ensures {d : Codec β δ} {f : α → δ} {q : Nat} (found : Transforms kernels k captures c d f)
    (valid : A.Valid t.arena) (hi : InBlock t.live p (n * c.size)) (ho : InBlock t.live q (n * d.size))
    (apart : c.Pointwise p d q n) (small : n < 2 ^ 32) :
    (kernelLaunchTransform k p q n c.size d.size captures).Ensures (funnels A kernels shaders False False)
      (fun _ t' => After (d.Covers q n) t t' ∧ d.list t'.mem q n = (c.list t.mem p n).map f) t := by
  obtain ⟨known, runs⟩ := found
  obtain ⟨bytes, place⟩ := bytes_of_inBlock valid hi
  obtain ⟨bytes', place'⟩ := bytes_of_inBlock valid ho
  have size : Elementwise.outElemSize c.size d.size = d.size := if_neg d.pos.ne'
  apply launch_ensures known valid hi ho apart small rfl
  · rw [Elementwise.Call.input, bytes]
  · rw [Elementwise.Call.output, size, bytes']
  · intro e kernel pushed own
    obtain ⟨input, output⟩ := own.arrays
    rw [Elementwise.Binds, Elementwise.Call.input, bytes, ← pushed] at input
    rw [Elementwise.Binds, Elementwise.Call.output, size, bytes', ← pushed] at output
    rw [runs A.base (p - A.base) (q - A.base) e kernel own.captures input output, place, place']

end

/-! ### Sums -/

section
variable {β M : Type} [AddCommMonoid M] {A : ArenaModel β} {anySet : Prop} {t : World A} {c : Codec β M} {kernels : ElementKernels β}
  {shaders : String → Shader β} {loaded : String → Bool} {devBase : Nat} {data n : Nat}

/-- `gpu` after `parallax_reduce`. Nothing is dispatched for an empty range. -/
theorem parallaxReduce_ensures [Zero β] {k : String} {out : Nat} (known : loaded k = true)
    (found : shaders k = reduceShader c) (zero : c.dec (fun _ => 0) = 0) (own : Outside A out c.size) (valid : A.Valid t.arena)
    (block : InBlock t.live data (n * c.size)) (small : n < 2 ^ 32) :
    (parallaxReduce (contextOf A loaded devBase) k data n c.size out).Ensures (funnels A kernels shaders False anySet)
      (fun gpu t' => After (fun _ => False) t t' ∧ gpu.elim 0 c.dec = (c.list t.mem data n).sum) t := by
  have reduced : (launchReduce (contextOf A loaded devBase) k data n c.size out).Ensures
      (machine A shaders False (LevelFits c A (A.live t.arena))) (fun r s => Wrote A (c.Covers out 1) t.arena s ∧
        r.2.elim 0 c.dec = (c.list t.mem data n).sum) t.arena := by
    rcases Nat.eq_zero_or_pos n with rfl | pos
    · unfold launchReduce
      apply ensures_withArenaSync
      rw [if_neg (by simp [contextOf, known]), if_pos rfl]
      have owned : A.Owned t.arena out (List.replicate c.size (0 : β)).length := by
        rw [List.length_replicate]
        exact own.callers
      refine ensures_write valid owned fun s valid' live mem => ⟨⟨valid', live, fun a _ out => ?_⟩, by simp [zero, Codec.list]⟩
      rw [mem]
      exact put_outside fun range => out ⟨range.1, by simpa using range.2⟩
    · apply (launchReduce_ensures known found valid block (fun a ha => own.callers a ha.1 (by simpa using ha.2)) pos small).mono
      rintro r s ⟨failed, reduced⟩
      obtain ⟨wrote, ⟨x, stored, value⟩, -⟩ := reduced (Bool.eq_true_of_not_eq_false failed)
      refine ⟨wrote, ?_⟩
      rw [stored, ← list_arena valid block, ← sum_list]
      exact value
  apply (runtime_ensures reduced).bind
  rintro r t' ⟨⟨wrote, value⟩, host⟩
  exact ⟨After.of_kept wrote.kept host fun a inside covers => own a covers.1 (by simpa using covers.2) inside, value⟩

variable {ks ka : String}

theorem parallaxScan_ensures (known : loaded ks = true ∧ loaded ka = true) (scan : shaders ks = scanShader c)
    (add : shaders ka = scanAddShader c) (valid : A.Valid t.arena) (block : InBlock t.live data (n * c.size))
    (small : n < 2 ^ 32) :
    (parallaxScan (contextOf A loaded devBase) ks ka data n c.size).Ensures (funnels A kernels shaders False anySet)
      (fun _ t' => After (c.Covers data n) t t' ∧
        c.list t'.mem data n = (List.range n).map fun i => ((c.list t.mem data n).take (i + 1)).sum) t := by
  apply (runtime_ensures (launchScan_ensures known.1 known.2 scan add n data t.arena valid block small)).bind
  rintro r t' ⟨⟨failed, _, scanned⟩, host⟩
  have scanned := scanned (Bool.eq_true_of_not_eq_false failed)
  refine ⟨After.of_wrote scanned.toWrote host, ?_⟩
  have block' : InBlock t'.live data (n * c.size) := (show t'.live = t.live from scanned.live) ▸ block
  rw [← list_arena scanned.valid block']
  apply Codec.list_eq
  · simp
  · intro i hi
    have lt : i < n := by simpa using hi
    rw [scanned.sums i lt, sum_list, ← Codec.list_take lt, list_arena valid block]
    simp

variable {kh : String} {output : Nat} {init : M}

theorem parallaxExclusiveScan_ensures (known : loaded ks = true ∧ loaded ka = true ∧ loaded kh = true)
    (scan : shaders ks = scanShader c) (add : shaders ka = scanAddShader c) (shift : ShiftKernel c (shaders kh))
    (valid : A.Valid t.arena) (hi : InBlock t.live data (n * c.size)) (ho : InBlock t.live output (n * c.size))
    (apart : ∀ a, c.Covers data n a → ¬ c.Covers output n a) (small : n < 2 ^ 32) (narrow : c.size ≤ 8) :
    (parallaxExclusiveScan (contextOf A loaded devBase) ks ka kh data output n c.size (List.ofFn (c.enc init))).Ensures
      (funnels A kernels shaders False anySet)
      (fun _ t' => After (fun a => c.Covers data n a ∨ c.Covers output n a) t t' ∧
        c.list t'.mem output n = (List.range n).map fun i => init + ((c.list t.mem data n).take i).sum) t := by
  apply (runtime_ensures (launchExclusiveScan_ensures known scan add shift valid hi ho apart small narrow)).bind
  rintro r t' ⟨⟨failed, done⟩, host⟩
  obtain ⟨wrote, sums⟩ := done (Bool.eq_true_of_not_eq_false failed)
  refine ⟨After.of_wrote wrote host, ?_⟩
  have block' : InBlock t'.live output (n * c.size) := (show t'.live = t.live from wrote.live) ▸ ho
  rw [← list_arena wrote.valid block']
  apply Codec.list_eq
  · simp
  · intro i hi'
    have lt : i < n := by simpa using hi'
    rw [sums i lt, sum_list, ← Codec.list_take (Nat.le_of_lt lt), list_arena valid hi]
    simp

end

/-! ### Sorting -/

section
variable {β α : Type} [LinearOrder α] {A : ArenaModel β} {anySet : Prop} {t : World A} {c : Codec β α} {kernels : ElementKernels β}
  {shaders : String → Shader β} {loaded : String → Bool} {devBase : Nat} {data n fuel : Nat} {k : String}

theorem parallaxSort_ensures (known : loaded k = true) (found : shaders k = bitonicShader c) (valid : A.Valid t.arena)
    (block : InBlock t.live data (2 ^ n * c.size)) (small : n ≤ 30) (rounds : n < fuel) :
    (parallaxSort (contextOf A loaded devBase) k data (2 ^ n) c.size fuel).Ensures (funnels A kernels shaders False anySet)
      (fun r t' => r = some () ∧ After (c.Covers data (2 ^ n)) t t' ∧
        (c.list t'.mem data (2 ^ n)).Perm (c.list t.mem data (2 ^ n)) ∧
        (c.list t'.mem data (2 ^ n)).Pairwise (· ≤ ·)) t := by
  apply (runtime_ensures (launchSort_ensures known found valid block small rounds)).bind
  rintro r t' ⟨⟨back, failed, moved, sorted⟩, host⟩
  obtain ⟨done, rfl⟩ := Option.ne_none_iff_exists'.mp back
  have on : done = true := Bool.eq_true_of_not_eq_false fun off => failed (by rw [off])
  subst on
  have block' : InBlock t'.live data (2 ^ n * c.size) := (show t'.live = t.live from moved.live) ▸ block
  have perm := moved.perm
  have ascending := sorted rfl
  rw [elements_eq_list, list_arena moved.valid block'] at perm ascending
  rw [elements_eq_list, list_arena valid block] at perm
  exact ⟨rfl, After.of_wrote moved.toWrote host, perm, ascending⟩

end

end Parallax.Funnels
