import ParallaxRuntime.Funnels.Results

/-!
# Compaction through scratch

`copy_if`, `remove_if` and `partition` stage their input, compact it into a second scratch block and
copy back as many elements as the primitive kept, or all of them.
-/

namespace Parallax.Funnels
open Memory Effects Arena Kernel Launcher

/-! ### What the last kernel leaves, as lists -/

section
variable {α : Type} {pred : α → Bool} {x y : Nat → α} {n : Nat}

theorem count_passing (pred : α → Bool) (x : Nat → α) (n : Nat) :
    Nat.count (fun i => pred (x i) = true) n = (((List.range n).map x).filter pred).length := by
  induction n with
  | zero => rfl
  | succ n ih =>
    rw [Nat.count_succ, ih, List.range_succ, List.map_append, List.filter_append, List.length_append]
    cases pass : pred (x n) <;> simp [pass]

/-- The elements that pass are in front. -/
def PassingFirst (pred : α → Bool) (xs ys : List α) : Prop := ys.take (xs.filter pred).length = xs.filter pred

/-- All elements are there, those that pass in front. -/
structure Parted (pred : α → Bool) (xs ys : List α) : Prop where
  perm : ys.Perm xs
  front : ∀ z ∈ ys.take (xs.filter pred).length, pred z = true
  back : ∀ z ∈ ys.drop (xs.filter pred).length, pred z = false

theorem passingFirst_of_slots (h : SlotsFilled (fun i => pred (x i)) n x y) :
    PassingFirst pred ((List.range n).map x) ((List.range n).map y) := by
  have few : (((List.range n).map x).filter pred).length ≤ n := by
    simpa using List.length_filter_le pred ((List.range n).map x)
  have filled := map_count n h
  rw [count_passing] at filled
  unfold PassingFirst
  rw [← List.map_take, List.take_range, Nat.min_eq_left few, filled, List.filter_map]
  rfl

theorem parted_of_partitioned (h : Partitioned (fun i => pred (x i)) n x y) :
    Parted pred ((List.range n).map x) ((List.range n).map y) := by
  obtain ⟨slot, places, injective⟩ := h
  have count := count_passing pred x n
  -- Each slot is taken once.
  have slots : ((List.range n).map slot).Perm (List.range n) := by
    have nodup : ((List.range n).map slot).Nodup := by
      apply List.Nodup.map_on _ List.nodup_range
      intro i hi j hj same
      exact injective i (List.mem_range.mp hi) j (List.mem_range.mp hj) same
    apply (List.subperm_of_subset nodup _).perm_of_length_le (by simp)
    intro k hk
    obtain ⟨i, hi, rfl⟩ := List.mem_map.mp hk
    exact List.mem_range.mpr (places i (List.mem_range.mp hi)).1
  have source : ∀ k < n, ∃ i < n, slot i = k ∧ y k = x i ∧ (k < (((List.range n).map x).filter pred).length ↔ pred (x i) = true) := by
    intro k lt
    obtain ⟨i, hi, rfl⟩ := List.mem_map.mp (slots.mem_iff.mpr (List.mem_range.mpr lt))
    obtain ⟨_, moved, front⟩ := places i (List.mem_range.mp hi)
    rw [count] at front
    exact ⟨i, List.mem_range.mp hi, rfl, moved, front⟩
  constructor
  · have moved : (List.range n).map x = ((List.range n).map slot).map y := by
      rw [List.map_map]
      exact List.map_congr_left fun i hi => (places i (List.mem_range.mp hi)).2.1.symm
    rw [moved]
    exact (slots.map y).symm
  · intro z hz
    obtain ⟨k, lt, rfl⟩ := List.mem_iff_getElem.mp hz
    simp only [List.length_take, List.length_map, List.length_range] at lt
    obtain ⟨i, _, _, moved, front⟩ := source k (by omega)
    simp only [List.getElem_take, List.getElem_map, List.getElem_range, moved]
    exact front.mp (by omega)
  · intro z hz
    obtain ⟨k, lt, rfl⟩ := List.mem_iff_getElem.mp hz
    simp only [List.length_drop, List.length_map, List.length_range] at lt
    obtain ⟨i, _, _, moved, front⟩ := source ((((List.range n).map x).filter pred).length + k) (by omega)
    simp only [List.getElem_drop, List.getElem_map, List.getElem_range, moved]
    exact Bool.eq_false_of_not_eq_true fun pass => by have := front.mpr pass; omega

end

/-! ### The staged compaction -/

section
variable {β α M : Type} [AddCommMonoid M] {A : ArenaModel β} {kernels : ElementKernels β} {shaders : String → Shader β}
  {anySet : Prop} {t : World A} {loaded : String → Bool} {devBase : Nat} {c : Codec β α} {pc : Codec β M} {pos : Positions M}
  {pred : α → Bool} {hv : HostValues β} {k : CompactKernels} {isFloat : Bool} {align n input output keptAt : Nat}
  {span : (Nat → Bool) → Nat → Nat} {effect : (Nat → Bool) → Nat → (Nat → α) → (Nat → α) → Prop}
  {result : List α → List α → Prop}

/-- The kernels of a compaction, with one that compacts. -/
abbrev Compacts (hv : HostValues β) (c : Codec β α) (pc : Codec β M) (pos : Positions M) (pred : α → Bool)
    (shaders : String → Shader β) (loaded : String → Bool) (isFloat : Bool) (n : Nat) (k : CompactKernels) : Prop :=
  CompactSetup hv c pc pos pred shaders loaded k.flags k.scan k.add k.scatter isFloat n

/-- The kernels of a compaction, with one that partitions. -/
def Partitions (hv : HostValues β) (c : Codec β α) (pc : Codec β M) (pos : Positions M) (pred : α → Bool)
    (shaders : String → Shader β) (loaded : String → Bool) (isFloat : Bool) (n : Nat) (k : CompactKernels) : Prop :=
  PositionSetup hv c pc pos pred shaders loaded k.flags k.scan k.add k.scatter isFloat n ∧
  ScatterKernel c pc pos (shaders k.scatter) (fun _ n => n) Partitioned

/-- The number of kept elements is a variable of the funnel's own. -/
def KeptOutside (hv : HostValues β) (A : ArenaModel β) (keptAt : Nat) : Prop := ∀ a, hv.KeptAt (some keptAt) a → ¬ A.InArena a

theorem KeptOutside.callers (h : KeptOutside hv A keptAt) {s : A.State} (a : Nat) (ha : hv.KeptAt (some keptAt) a) :
    A.Usable (A.live s) a := fun inside => absurd inside (h a ha)

theorem KeptOutside.apart (h : KeptOutside hv A keptAt) (valid : A.Valid t.arena) (hi : InBlock t.live input (n * c.size))
    (ho : InBlock t.live output (n * c.size)) : KeptApart hv c A (some keptAt) input output n t.arena where
  owned := h.callers
  input a ha kept := h a kept (liveByte_inArena valid (liveByte_of_covers hi ha))
  output a ha kept := h a kept (liveByte_inArena valid (liveByte_of_covers ho ha))

theorem parallaxCopyIf_ensures
    (setup : PositionSetup hv c pc pos pred shaders loaded k.flags k.scan k.add k.scatter isFloat n)
    (law : ScatterEffect span effect) (scatter : ScatterKernel c pc pos (shaders k.scatter) span effect)
    (read : ∀ x y, effect (fun i => pred (x i)) n x y → result ((List.range n).map x) ((List.range n).map y))
    (empty : result [] []) (outside : KeptOutside hv A keptAt) (valid : A.Valid t.arena) (hi : InBlock t.live input (n * c.size))
    (ho : InBlock t.live output (n * c.size)) (apart : ∀ a, c.Covers input n a → ¬ c.Covers output n a) (small : n < 2 ^ 32) :
    (parallaxCopyIf hv (contextOf A loaded devBase) k input output n c.size isFloat keptAt).Ensures
      (funnels A kernels shaders False anySet)
      (fun kept t' => After (c.Covers output n) t t' ∧ kept = ((c.list t.mem input n).filter pred).length ∧
        result (c.list t.mem input n) (c.list t'.mem output n)) t := by
  have compacted : (launchCompact hv (contextOf A loaded devBase) k.flags k.scan k.add k.scatter input output n c.size isFloat
      (some keptAt)).Ensures (machine A shaders False fun _ _ => True) (fun r s => r.1 = true ∧
        r.2 = some ((c.list t.mem input n).filter pred).length ∧
        Wrote A (fun a => c.Covers output n a ∨ hv.KeptAt (some keptAt) a) t.arena s ∧
        result (c.list t.mem input n) (c.list (A.mem s) output n)) t.arena := by
    rcases Nat.eq_zero_or_pos n with rfl | pos
    · unfold launchCompact
      apply ensures_withArenaSync
      rw [if_neg (by simp [contextOf, setup.loaded])]
      refine ensures_storeKept valid outside.callers fun s valid' live mem => ?_
      rw [if_pos rfl]
      refine ⟨rfl, by simp [Codec.list], ⟨valid', live, fun a _ out => ?_⟩, empty⟩
      rw [mem]
      exact HostValues.stored_outside fun kept => out (Or.inr kept)
    · rw [setup.size]
      apply (launchCompact_scatters setup law scatter valid hi ho apart (outside.apart valid hi ho) pos small).mono
      rintro r s ⟨failed, scattered⟩
      have on : r.1 = true := Bool.eq_true_of_not_eq_false failed
      obtain ⟨wrote, kept, -, places⟩ := scattered on
      have listed := read _ _ places
      have same : (List.range n).map (c.get (A.mem t.arena) input) = c.list t.mem input n := list_arena valid hi
      rw [count_passing, same] at kept
      rw [same] at listed
      exact ⟨on, kept, wrote.mono fun a ha => ha.imp_left fun ha => Codec.covers_mono ha (law.span_le _ _), listed⟩
  apply (runtime_ensures compacted).bind
  rintro r t' ⟨⟨on, kept, wrote, listed⟩, host⟩
  rw [on, kept, if_neg (by decide)]
  have block : InBlock t'.live output (n * c.size) := (show t'.live = t.live from wrote.live) ▸ ho
  rw [list_arena wrote.valid block] at listed
  exact ⟨After.of_kept wrote.kept host fun a inside wrote => wrote.resolve_right fun kept => outside a kept inside, rfl, listed⟩

theorem stagedCompact_ensures {copied : Nat → Nat} {fallback : Funnel β Nat} {iso : List α → Nat → List α → Prop}
    (setup : PositionSetup hv c pc pos pred shaders loaded k.flags k.scan k.add k.scatter isFloat n)
    (law : ScatterEffect span effect) (scatter : ScatterKernel c pc pos (shaders k.scatter) span effect)
    (read : ∀ x y, effect (fun i => pred (x i)) n x y → result ((List.range n).map x) ((List.range n).map y))
    (empty : result [] []) (outside : KeptOutside hv A keptAt) (valid : A.Valid t.arena) (hi : t.Holds input (n * c.size)) (size : c.size ≤ 2 ^ 30)
    (aligned : align ≤ 256) (small : n < 2 ^ 32) (few : ∀ k ≤ n, copied k ≤ n)
    (room : ∀ r l, iso (c.list t.mem input n) r l → t.Holds output (l.length * c.size))
    (finish : ∀ xs ys : List α, xs.length = n → ys.length = n → result xs ys →
      iso xs (xs.filter pred).length (ys.take (copied (xs.filter pred).length)))
    (loop : ∀ t', After (fun _ => False) t t' →
      fallback.Ensures (funnels A kernels shaders False anySet) (Meets c input n c output iso t') t') :
    (stagedCompact hv (contextOf A loaded devBase) c align k isFloat input output n keptAt copied fallback).Ensures
      (funnels A kernels shaders False anySet) (Meets c input n c output iso t) t := by
  obtain ⟨fits, bytes⟩ := bytes_small size small
  unfold stagedCompact
  dsimp only
  rw [bytes]
  apply meets_withScratchPair valid ⟨fits, fits⟩ ⟨aligned, aligned⟩ hi room loop
  intro ai ao t₁ pair
  apply (stage_ensures pair.left hi).bind
  rintro _ t₂ ⟨since, grown, staged⟩
  have own := inBlock_mono grown pair.right.inBlock
  apply (parallaxCopyIf_ensures setup law scatter read empty outside since.valid (inBlock_mono grown pair.left.inBlock) own
    (fun _ => pair.covers) small).bind
  rintro kept t₃ ⟨compacting, number, listed⟩
  rw [staged] at number listed
  subst number
  have passed : ((c.list t.mem input n).filter pred).length ≤ n := by
    simpa using List.length_filter_le pred (c.list t.mem input n)
  have part := few _ passed
  have met := finish _ _ Codec.list_length Codec.list_length listed
  rw [Codec.list_take part] at met
  have own₃ := compacting.inBlock own
  rw [(bytes_small size (lt_of_le_of_lt part small)).2]
  apply (unstage_ensures (pair.right.wrote since compacting) (own₃.sub (Nat.le_refl _)
    (Nat.add_le_add_left (Nat.mul_le_mul_right _ part) _)) (by simpa using room _ _ met)).bind
  rintro _ t₄ ⟨grown', stored⟩
  exact ⟨fun b hb => grown' b (compacting.live b (grown b hb)), _, met, stored⟩

end

/-! ### The funnels -/

section
variable {β α M : Type} [AddCommMonoid M] {A : ArenaModel β} {kernels : ElementKernels β} {shaders : String → Shader β}
  {anySet : Prop} {t : World A} {loaded : String → Bool} {devBase : Nat} {c : Codec β α} {pc : Codec β M} {pos : Positions M}
  {pred : α → Bool} {hv : HostValues β} {kf ks ka kc : Option String} {empty isFloat : Bool}
  {align n input output data keptAt : Nat}

/-- Copying what passes, for `copy_if` and for `remove_if` with the other predicate in place. -/
theorem passing_ensures (setup : ∀ k ∈ CompactKernels.lookup kf ks ka kc, Compacts hv c pc pos pred shaders loaded isFloat n k)
    (outside : KeptOutside hv A keptAt) (valid : A.Valid t.arena) (hi : t.Holds input (n * c.size))
    (ho : t.Holds output (((c.list t.mem input n).filter pred).length * c.size)) (apart : c.Pointwise input c output n)
    (size : c.size ≤ 2 ^ 30) (aligned : align ≤ 256) (small : n < 2 ^ 32) :
    (if empty = false then copyPassing c pred input output n
      else (CompactKernels.lookup kf ks ka kc).elim (copyPassing c pred input output n) fun k =>
        stagedCompact hv (contextOf A loaded devBase) c align k isFloat input output n keptAt id
          (copyPassing c pred input output n)).Ensures (funnels A kernels shaders False anySet)
      (Meets c input n c output (fun xs r l => r = (xs.filter pred).length ∧ l = xs.filter pred) t) t := by
  have loop : ∀ t', After (fun _ => False) t t' → (copyPassing c pred input output n).Ensures (funnels A kernels shaders False anySet)
      (Meets c input n c output (fun xs r l => r = (xs.filter pred).length ∧ l = xs.filter pred) t') t' := by
    intro t' start
    apply (copyPassing_ensures start.valid (start.holds hi) _ apart).mono
    · rintro _ t'' ⟨rfl, stored⟩
      exact ⟨_, ⟨rfl, rfl⟩, stored⟩
    · rw [start.list_eq hi fun _ _ no => no]
      exact start.holds ho
  apply Prog.ensures_ite fun _ => loop t (After.refl valid)
  intro _
  cases found : CompactKernels.lookup kf ks ka kc with
  | none => exact loop t (After.refl valid)
  | some k =>
    have setup := setup k found
    have scatter : ScatterKernel c pc pos (shaders k.scatter) (fun q n => Nat.count (q ·) n) SlotsFilled := by
      rw [setup.scatter]
      exact scatterShader_kernel
    apply stagedCompact_ensures setup.toPositionSetup slotsFilled_effect scatter (fun _ _ => passingFirst_of_slots) rfl outside valid hi
      size aligned small (fun _ le => le) _ _ loop
    · rintro _ _ ⟨_, rfl⟩
      exact ho
    · intro xs ys _ _ first
      exact ⟨rfl, first⟩

theorem deviceCopyIf_ensures
    (setup : ∀ k ∈ CompactKernels.lookup kf ks ka kc, Compacts hv c pc pos pred shaders loaded isFloat n k)
    (outside : KeptOutside hv A keptAt) (valid : A.Valid t.arena) (hi : t.Holds input (n * c.size))
    (ho : t.Holds output (((c.list t.mem input n).filter pred).length * c.size)) (apart : c.Pointwise input c output n)
    (size : c.size ≤ 2 ^ 30) (aligned : align ≤ 256) (small : n < 2 ^ 32) :
    (deviceCopyIf hv (contextOf A loaded devBase) c align kf ks ka kc empty isFloat pred input output n keptAt).Ensures
      (funnels A kernels shaders False anySet)
      (Meets c input n c output (fun xs r l => r = (xs.filter pred).length ∧ l = xs.filter pred) t) t :=
  passing_ensures setup outside valid hi ho apart size aligned small

theorem deviceRemoveIf_ensures
    (setup : ∀ k ∈ CompactKernels.lookup kf ks ka kc, Compacts hv c pc pos (fun x => !pred x) shaders loaded isFloat n k)
    (outside : KeptOutside hv A keptAt) (valid : A.Valid t.arena) (hd : t.Holds data (n * c.size)) (size : c.size ≤ 2 ^ 30) (aligned : align ≤ 256)
    (small : n < 2 ^ 32) :
    (deviceRemoveIf hv (contextOf A loaded devBase) c align kf ks ka kc empty isFloat pred data n keptAt).Ensures
      (funnels A kernels shaders False anySet)
      (Meets c data n c data (fun xs r l => r = (xs.filter fun x => !pred x).length ∧ l = xs.filter fun x => !pred x) t) t := by
  apply passing_ensures setup outside valid hd _ Codec.Pointwise.self size aligned small
  apply hd.sub
  apply Nat.mul_le_mul_right
  simpa using List.length_filter_le (fun x => !pred x) (c.list t.mem data n)

theorem devicePartition_ensures
    (setup : ∀ k ∈ CompactKernels.lookup kf ks ka kc, Partitions hv c pc pos pred shaders loaded isFloat n k)
    (outside : KeptOutside hv A keptAt) (valid : A.Valid t.arena) (hd : t.Holds data (n * c.size)) (size : c.size ≤ 2 ^ 30) (aligned : align ≤ 256)
    (small : n < 2 ^ 32) :
    (devicePartition hv (contextOf A loaded devBase) c align kf ks ka kc empty isFloat pred data n keptAt).Ensures
      (funnels A kernels shaders False anySet)
      (Meets c data n c data (fun xs r l => r = (xs.filter pred).length ∧ Parted pred xs l) t) t := by
  have loop : ∀ t', After (fun _ => False) t t' →
      (loadAll c data n >>= fun xs => storeAll c data 0 (xs.filter pred ++ xs.filter fun x => !pred x) >>= fun _ =>
        (pure (xs.filter pred).length : Funnel β Nat)).Ensures (funnels A kernels shaders False anySet)
        (Meets c data n c data (fun xs r l => r = (xs.filter pred).length ∧ Parted pred xs l) t') t' := by
    intro t' start
    apply (loadAll_ensures (start.holds hd)).bind
    rintro xs t₁ ⟨rfl, rfl⟩
    have perm := List.filter_append_perm pred (c.list t₁.mem data n)
    apply (storeAll_stored start.valid _).bind
    · intro _ t₂ stored
      refine ⟨_, ⟨rfl, perm, ?_, ?_⟩, stored⟩
      · rw [List.take_left]
        exact fun z hz => (List.mem_filter.mp hz).2
      · rw [List.drop_left]
        exact fun z hz => by simpa using (List.mem_filter.mp hz).2
    · rw [perm.length_eq, Codec.list_length]
      exact start.holds hd
  unfold devicePartition
  apply Prog.ensures_ite fun _ => loop t (After.refl valid)
  intro _
  cases found : CompactKernels.lookup kf ks ka kc with
  | none => exact loop t (After.refl valid)
  | some k =>
    obtain ⟨positions, scatter⟩ := setup k found
    apply stagedCompact_ensures positions partitioned_effect scatter (fun _ _ => parted_of_partitioned)
      ⟨List.Perm.refl _, by simp, by simp⟩ outside valid hd size aligned small (fun _ _ => Nat.le_refl n) _ _ loop
    · rintro _ l ⟨_, parted⟩
      apply hd.sub
      rw [parted.perm.length_eq, Codec.list_length]
    · intro xs ys _ length parted
      rw [List.take_of_length_le (by omega)]
      exact ⟨rfl, parted⟩

end

end Parallax.Funnels
