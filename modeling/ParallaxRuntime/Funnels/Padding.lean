import ParallaxRuntime.Funnels.Sorting
import ParallaxRuntime.Launcher.Argminmax
import ParallaxRuntime.Launcher.Schedule
import ParallaxRuntime.Numeric.Scalar

/-!
# The padding of a sort

The padding of `device_sort` is the largest finite number, which positive infinity is above.
-/

namespace Parallax.Funnels
open Memory Effects Arena Kernel Launcher

section
variable {s : Scalar} {xs l : List s.Bits}

theorem nextPowerOfTwo_of_lt {n e : Nat} (low : 2 ^ e < n) (high : n ≤ 2 ^ (e + 1)) : Nat.nextPowerOfTwo n = 2 ^ (e + 1) := by
  obtain ⟨k, power, enough, least⟩ := nextPowerOfTwo_spec n
  have le : k ≤ e + 1 := least (e + 1) high
  have more : e < k := (Nat.pow_lt_pow_iff_right (by decide)).mp (Nat.lt_of_lt_of_le low enough)
  rw [power, show k = e + 1 by omega]

theorem nextPowerOfTwo_sub_eq_zero {n : Nat} : Nat.nextPowerOfTwo n - n = 0 ↔ ∃ e, n = 2 ^ e := by
  obtain ⟨e, power, enough, least⟩ := nextPowerOfTwo_spec n
  rw [power]
  constructor
  · intro none
    exact ⟨e, by omega⟩
  · rintro ⟨e', rfl⟩
    have := Nat.pow_le_pow_right (n := 2) (by decide) (least e' (Nat.le_refl _))
    omega

/-- The padding pushes nothing out unless an element is above it. -/
theorem FrontOfPadded.perm_iff (front : FrontOfPadded s.le s.max xs l) (numbers : ∀ x ∈ xs, s.Number x) :
    l.Perm xs ↔ (∃ e, xs.length = 2 ^ e) ∨ ∀ x ∈ xs, ¬ s.Infinite x := by
  obtain ⟨ys, perm, sorted, rfl⟩ := front
  rw [take_padded_iff (fun x member => Scalar.eq_max (numbers x member)) perm sorted, nextPowerOfTwo_sub_eq_zero]
  exact or_congr Iff.rfl (forall₂_congr fun x member => Scalar.le_max_iff (numbers x member))

theorem FrontOfPadded.sorted (front : FrontOfPadded s.le s.max xs l) : l.Pairwise (s.le · ·) := by
  obtain ⟨ys, _, sorted, rfl⟩ := front
  exact sorted.sublist (List.take_sublist _ _)

end

section
variable {A : ArenaModel UInt8} {kernels : ElementKernels UInt8} {shaders : String → Shader UInt8} {anySet : Prop} {t t' : World A}
  {loaded : String → Bool} {devBase data n fuel : Nat} {s : Scalar} {k : String} {r : Option Unit}

/-- `std::sort` of the range: ascending, and a permutation of what it was. -/
def Ordered (s : Scalar) (data n : Nat) (t : World A) (r : Option Unit) (t' : World A) : Prop :=
  r = some () ∧ (s.codec.list t'.mem data n).Perm (s.codec.list t.mem data n) ∧
  (s.codec.list t'.mem data n).Pairwise (s.le · ·)

/-- What is there afterwards is the front of the padded range, or the host has sorted. -/
theorem deviceSort_padded (sorts : SortsPowersOf s.Number A kernels shaders anySet (contextOf A loaded devBase) s.codec s.le k fuel)
    (valid : A.Valid t.arena) (holds : t.Holds data (n * s.size)) (small : n ≤ 2 ^ 30)
    (numbers : ∀ x ∈ s.codec.list t.mem data n, s.Number x)
    (ran : (deviceSort (contextOf A loaded devBase) s.codec s.size s.le s.max (some k) data n fuel).Run
      (funnelStep A kernels shaders False anySet) t r t') :
    r = some () ∧ (FrontOfPadded s.le s.max (s.codec.list t.mem data n) (s.codec.list t'.mem data n) ∨
      Refuses t (Nat.nextPowerOfTwo n * s.size) ∧ Ordered s data n t r t') := by
  have size := s.size_le
  have ensures := deviceSort_ensures sorts (fun _ _ _ => Scalar.le_trans) (fun _ _ => Scalar.le_total) Scalar.number_max numbers valid
    holds (show s.size ≤ 2 ^ 30 by omega) (show s.size ≤ 256 by omega) small
  obtain ⟨l, ⟨done, sorted⟩, stored⟩ := ensures.run ran
  have length : l.length = n := by
    rcases sorted with ⟨ys, perm, _, rfl⟩ | ⟨_, perm, _⟩
    · obtain ⟨e, power, enough, _⟩ := nextPowerOfTwo_spec n
      have padded := perm.length_eq
      simp only [List.length_append, Codec.list_length, List.length_replicate] at padded
      rw [List.length_take, Codec.list_length, padded]
      omega
    · simpa using perm.length_eq
  have list := stored.list
  rw [length] at list
  rw [list]
  refine ⟨done, sorted.imp id fun ⟨refused, perm, ascending⟩ => ⟨refused, done, ?_⟩⟩
  rw [list]
  exact ⟨perm, ascending⟩

/-- A range of any placement is sorted exactly when it needs no padding or holds no infinity that
the padding is below. Without a padded copy the host sorts. -/
theorem deviceSort_ordered_iff
    (sorts : SortsPowersOf s.Number A kernels shaders anySet (contextOf A loaded devBase) s.codec s.le k fuel) (valid : A.Valid t.arena)
    (holds : t.Holds data (n * s.size)) (small : n ≤ 2 ^ 30) (numbers : ∀ x ∈ s.codec.list t.mem data n, s.Number x)
    (ran : (deviceSort (contextOf A loaded devBase) s.codec s.size s.le s.max (some k) data n fuel).Run
      (funnelStep A kernels shaders False anySet) t r t') :
    (Ordered s data n t r t' ↔ (∃ e, n = 2 ^ e) ∨ ∀ x ∈ s.codec.list t.mem data n, ¬ s.Infinite x) ∨
    (Refuses t (Nat.nextPowerOfTwo n * s.size) ∧ Ordered s data n t r t') := by
  obtain ⟨done, front | host⟩ := deviceSort_padded sorts valid holds small numbers ran
  · have kept := front.perm_iff numbers
    rw [Codec.list_length] at kept
    refine Or.inl ⟨fun ordered => kept.mp ordered.2.1, fun condition => ⟨done, kept.mpr condition, front.sorted⟩⟩
  · exact Or.inr host

end

/-! ### The sorting kernels -/

/-- `bitonic.comp` for the element type. -/
def sortShader (s : Scalar) : Shader UInt8 := @bitonicShader UInt8 s.Bits s.order s.codec

section
variable {A : ArenaModel UInt8} {kernels : ElementKernels UInt8} {shaders : String → Shader UInt8} {anySet : Prop}
  {loaded : String → Bool} {devBase data fuel : Nat} {s : Scalar} {k : String}

theorem sortShader_sorts (known : loaded k = true) (found : shaders k = sortShader s) (rounds : 30 < fuel) :
    SortsPowersOf s.Number A kernels shaders anySet (contextOf A loaded devBase) s.codec s.le k fuel := by
  let := s.order
  intro t data e valid block small numbers
  apply (parallaxSort_ensures known found valid block small (by omega)).mono
  intro r t' ⟨done, after, perm, sorted⟩
  refine ⟨done, after, perm, sorted.imp_of_mem fun {x y} hx hy less => ?_⟩
  exact Scalar.le_of_order (numbers x (perm.mem_iff.mp hx)) (numbers y (perm.mem_iff.mp hy)) less

theorem exists_run_stages (found : shaders k = sortShader s) (binding : Binding) (n groups : Nat) (stages : List (Nat × Nat))
    (t : A.State) : ∃ t', (runStages k binding n groups stages).Run (machineStep A shaders False) t true t' := by
  induction stages generalizing t with
  | nil => exact ⟨t, rfl, rfl⟩
  | cons stage stages ih =>
    obtain ⟨m, ran⟩ : ∃ m, (shaders k).run A.base ⟨k, binding, binding, none, .sort n stage.1 stage.2, groups⟩ (A.mem t) m := by
      rw [found]
      exact InAnyOrder.exists_run _ _ _
    obtain ⟨t', rest⟩ := ih (A.setMem t m)
    have first : (dispatchSortStage k binding n stage.1 stage.2 groups).Run (machineStep A shaders False) t true (A.setMem t m) :=
      ⟨true, t, ⟨Or.inl rfl, rfl⟩, (), t, rfl, true, A.setMem t m, Or.inl ⟨rfl, m, ran, rfl⟩, (), A.setMem t m, rfl, rfl, rfl⟩
    exact ⟨t', Prog.Run.bind first rest⟩

theorem exists_run_sort {e es : Nat} (known : loaded k = true) (found : shaders k = sortShader s)
    (inside : (contextOf A loaded devBase).contains data = true) (one : 1 ≤ e) (small : e ≤ 30) (rounds : e < fuel) (t : World A) :
    ∃ t', (parallaxSort (contextOf A loaded devBase) k data (2 ^ e) es fuel).Run (funnelStep A kernels shaders False anySet) t (some ()) t' := by
  have many : 2 ^ 1 ≤ 2 ^ e := Nat.pow_le_pow_right (by decide) one
  have whole : 2 ^ e % 2 ^ 32 = 2 ^ e := Nat.mod_eq_of_lt (Nat.pow_lt_pow_right (by decide) (by omega))
  let binding : Binding := ⟨.arena, (contextOf A loaded devBase).offsetOf data, some (wmul (2 ^ e) es)⟩
  let groups := (2 ^ e + 255) % 2 ^ 32 / 256
  obtain ⟨a, stagesRan⟩ := exists_run_stages found binding (2 ^ e) groups (stages e) t.arena
  have loops : sortOuter (β := UInt8) k binding (2 ^ e) groups fuel 2 = runStages k binding (2 ^ e) groups (stages e) >>= fun ok => pure (some ok) :=
    sortOuter_stages small (Nat.zero_le e) (by omega)
  have ran : (launchSort (contextOf A loaded devBase) k data (2 ^ e) es fuel).Run (machineStep A shaders False) t.arena (some true) a := by
    refine ⟨(), t.arena, rfl, ?_⟩
    refine Prog.Run.bind (a := some true) (t := a) ?_ ⟨(), a, rfl, rfl, rfl⟩
    rw [if_neg (by simp [contextOf, known]), if_neg (by omega), if_neg (by simp [Nat.and_two_pow_sub_one_eq_mod])]
    unfold Context.resolve
    rw [if_pos inside]
    refine Prog.Run.bind (a := some binding) (t := t.arena) ⟨rfl, rfl⟩ ?_
    dsimp only [Option.elim]
    rw [whole, loops]
    refine Prog.Run.bind (a := some true) (t := a) (Prog.Run.bind stagesRan ⟨rfl, rfl⟩) ?_
    rw [if_pos rfl]
    unfold Context.download
    rw [if_neg (by simp [inside])]
    exact ⟨rfl, rfl⟩
  have embedded : (runtime (launchSort (contextOf A loaded devBase) k data (2 ^ e) es fuel)).Run (funnelStep A kernels shaders False anySet)
      t (some true) { t with arena := a } := by
    apply Prog.Run.embed (fun a => ({ t with arena := a } : World A)) _ ran
    intro o a y a₁ step
    exact ⟨y, rfl, step, rfl, rfl⟩
  exact ⟨{ t with arena := a }, Prog.Run.bind embedded ⟨rfl, rfl⟩⟩

end

/-! ### Three floats -/

def noKernels : ElementKernels UInt8 := ⟨fun _ => false, 0, fun _ _ _ _ => False, fun _ no => no.elim⟩

/-- Floats at the start of the first block, with no kernel but the sort. -/
def floats (x : Nat → Nat) : World byteArena := ⟨(Legacy.twoBlocks, fill 4 4096 x), fun _ => 0, fun _ => none⟩

theorem floats_list {x : Nat → Nat} {n : Nat} (room : n * 4 ≤ 4096) :
    Scalar.float.codec.list (floats x).mem 4096 n = (List.range n).map fun i => BitVec.ofNat 32 (x i) := by
  have block : InBlock (floats x).live 4096 (n * Scalar.float.codec.size) := (InBlock.head room).cons
  rw [← list_arena (show byteArena.Valid (floats x).arena from Legacy.twoBlocks_inv) block]
  exact List.map_congr_left fun i _ => Codec.get_fill

theorem number_float {x : Scalar.float.Bits} (h : x.toNat / 2 ^ 23 % 2 ^ 8 ≠ 2 ^ 8 - 1) : Scalar.float.Number x :=
  FloatFormat.decode_ne_nan (f := .single) h

theorem padded_allocated : (Legacy.allocate ⟨4096, 65536⟩ Legacy.twoBlocks (wmul 4 4) 256).1 = 12288 := by decide

theorem exists_run_padded (x : Nat → Nat) (le : Scalar.float.Bits → Scalar.float.Bits → Bool) (max : Scalar.float.Bits) :
    ∃ r t', (deviceSort (contextOf byteArena (fun _ => true) 0) Scalar.float.codec 4 le max (some "sort") 4096 3 31).Run
      (funnelStep byteArena noKernels (fun _ => sortShader .float) False False) (floats x) r t' := by
  have four : Nat.nextPowerOfTwo 3 = 2 ^ 2 := nextPowerOfTwo_of_lt (by decide) (by decide)
  have first := padded_allocated
  generalize allocated : Legacy.allocate ⟨4096, 65536⟩ Legacy.twoBlocks (wmul 4 4) 256 = result at first
  obtain ⟨p, s₁⟩ := result
  obtain rfl : p = 12288 := first
  let step := funnelStep byteArena noKernels (fun _ => sortShader .float) False False
  let t₁ : World byteArena := { floats x with arena := (s₁, (floats x).arena.2) }
  have copy : ∀ dst src n (t : World byteArena), ∃ t', (memcpy dst src n).Run step t () t' := fun dst src n t =>
    ⟨_, _, t, ⟨rfl, rfl⟩, (), _, rfl, rfl, rfl⟩
  obtain ⟨t₂, staged⟩ := copy 12288 4096 (wmul 3 4) t₁
  let t₃ := t₂.store (put t₂.mem (12288 + 3 * 4) (List.ofFn (Scalar.float.codec.enc max)))
  obtain ⟨t₄, sorted⟩ : ∃ t₄, (parallaxSort (contextOf byteArena (fun _ => true) 0) "sort" 12288 (2 ^ 2) 4 31).Run
      (funnelStep byteArena noKernels (fun _ => sortShader .float) False False) t₃ (some ()) t₄ :=
    exists_run_sort rfl rfl (by decide) (by decide) (by decide) (by decide) t₃
  obtain ⟨t₅, unstaged⟩ := copy 4096 12288 (wmul 3 4) t₄
  let freed : World byteArena := { t₅ with arena := (Legacy.deallocate t₅.arena.1 12288, t₅.arena.2) }
  have served : step (.arenaAlloc (wmul (2 ^ 2) Scalar.float.codec.size) 4) (floats x) (12288 : Nat) t₁ := ⟨⟨allocated, rfl⟩, rfl, rfl⟩
  unfold deviceSort withScratch arenaAlloc
  dsimp only [Option.elim]
  rw [four, if_neg (by decide)]
  refine ⟨some (), freed, ?_⟩
  refine Prog.Run.op_bind served ?_
  rw [if_pos (by decide)]
  refine Prog.Run.bind (a := some ()) (t := t₅) ?_ ⟨(), freed, ⟨⟨rfl, rfl⟩, rfl, rfl⟩, rfl, rfl⟩
  refine Prog.Run.bind staged ?_
  refine Prog.Run.bind (a := ()) (t := t₃) ⟨(), t₃, rfl, rfl, rfl⟩ ?_
  exact Prog.Run.bind sorted (Prog.Run.bind unstaged ⟨rfl, rfl⟩)

theorem deviceSort_ordered_iff_three :
    let t := floats fun i => 0x3F800000 + i
    let xs := Scalar.float.codec.list t.mem 4096 3
    ∃ r t', (deviceSort (contextOf byteArena (fun _ => true) 0) Scalar.float.codec Scalar.float.size Scalar.float.le Scalar.float.max
      (some "sort") 4096 3 31).Run (funnelStep byteArena noKernels (fun _ => sortShader .float) False False) t r t' ∧
    ((Ordered .float 4096 3 t r t' ↔ (∃ e, 3 = 2 ^ e) ∨ ∀ x ∈ xs, ¬ Scalar.float.Infinite x) ∨
      (Refuses t (Nat.nextPowerOfTwo 3 * Scalar.float.size) ∧ Ordered .float 4096 3 t r t')) := by
  intro t xs
  obtain ⟨r, t', ran⟩ := exists_run_padded (fun i => 0x3F800000 + i) Scalar.float.le Scalar.float.max
  refine ⟨r, t', ran, ?_⟩
  apply deviceSort_ordered_iff (sortShader_sorts rfl rfl (by decide)) Legacy.twoBlocks_inv _ (by decide) _ ran
  · exact World.Holds.of_inBlock Legacy.twoBlocks_inv (InBlock.head (by decide)).cons
  · have list : Scalar.float.codec.list t.mem 4096 3 = [0x3F800000#32, 0x3F800001#32, 0x3F800002#32] := floats_list (by decide)
    intro x member
    rw [list] at member
    rcases List.mem_cons.mp member with rfl | member
    · exact number_float (by decide)
    rcases List.mem_cons.mp member with rfl | member
    · exact number_float (by decide)
    obtain rfl := List.mem_singleton.mp member
    exact number_float (by decide)

/-- 1, positive infinity and 2. -/
def withInfinity (i : Nat) : Nat := if i = 0 then 0x3F800000 else if i = 1 then 0x7F800000 else 0x40000000

/-- Positive infinity is replaced by the padding. -/
theorem infinity_lost : ∃ r t', (deviceSort (contextOf byteArena (fun _ => true) 0) Scalar.float.codec 4 Scalar.float.le Scalar.float.max
      (some "sort") 4096 3 31).Run (funnelStep byteArena noKernels (fun _ => sortShader .float) False False) (floats withInfinity) r t' ∧
    ¬ Ordered .float 4096 3 (floats withInfinity) r t' := by
  have four : Nat.nextPowerOfTwo 3 = 2 ^ 2 := nextPowerOfTwo_of_lt (by decide) (by decide)
  obtain ⟨r, t', ran⟩ := exists_run_padded withInfinity Scalar.float.le Scalar.float.max
  refine ⟨r, t', ran, fun ordered => ?_⟩
  have list : Scalar.float.codec.list (floats withInfinity).mem 4096 3 = [0x3F800000#32, 0x7F800000#32, 0x40000000#32] :=
    floats_list (by decide)
  have infinite : Scalar.float.Infinite 0x7F800000#32 := by
    simp [Scalar.Infinite, Scalar.value, Scalar.kind, FloatFormat.decode, FloatFormat.single]
  have numbers : ∀ x ∈ Scalar.float.codec.list (floats withInfinity).mem 4096 3, Scalar.float.Number x := by
    intro x member
    rw [list] at member
    rcases List.mem_cons.mp member with rfl | member
    · exact number_float (by decide)
    rcases List.mem_cons.mp member with rfl | member
    · exact fun nan => Double.noConfusion (infinite.symm.trans nan)
    obtain rfl := List.mem_singleton.mp member
    exact number_float (by decide)
  have holds : (floats withInfinity).Holds 4096 (3 * 4) := World.Holds.of_inBlock Legacy.twoBlocks_inv (InBlock.head (by decide)).cons
  obtain ⟨_, front | ⟨refused, _⟩⟩ := deviceSort_padded (sortShader_sorts rfl rfl (by decide)) Legacy.twoBlocks_inv holds (by decide) numbers ran
  · rcases (front.perm_iff numbers).mp ordered.2.1 with ⟨e, power⟩ | none
    · rw [Codec.list_length] at power
      have whole := nextPowerOfTwo_sub_eq_zero.mpr ⟨e, power⟩
      rw [four] at whole
      exact absurd whole (by decide)
    · refine none 0x7F800000#32 ?_ infinite
      rw [list]
      exact List.mem_cons_of_mem _ List.mem_cons_self
  · obtain ⟨s', ⟨refused, _⟩⟩ := refused
    rw [four] at refused
    have null : 12288 = 0 := padded_allocated.symm.trans (congrArg Prod.fst refused)
    exact absurd null (by decide)

end Parallax.Funnels
