import ParallaxRuntime.Funnels.Device
import ParallaxRuntime.Launcher.Holdings

/-!
# What the primitives and the funnels leave in the arena

The scratch of a funnel is given back on each of its own paths, but a primitive that it calls may
keep what it took.
-/

namespace Parallax.Funnels
open Memory Effects Launcher Holdings

variable {β α γ ι : Type}

/-- A funnel's own accesses and the element-wise launches take nothing. -/
def funnelHoldingStep (spared : List Nat) : Step (funnelOps β) Holdings
  | .runtime o, s, x, s' => holdingStep spared o s x s'
  | .arenaAlloc size align, s, p, s' => holdingStep (β := β) spared (.allocate size align) s p s'
  | .arenaFree p, s, x, s' => holdingStep (β := β) spared (.deallocate p) s x s'
  | _, s, _, s' => s' = s

def funnelHolding (spared : List Nat) : Handler (funnelOps β) Holdings :=
  ⟨fun _ _ => True, funnelHoldingStep spared⟩

/-- A program that takes nothing and gives nothing back. -/
def Quiet (p : Funnel β α) : Prop :=
  ∀ (spared : List Nat) (s : Holdings), p.Ensures (funnelHolding spared) (fun _ s' => s' = s) s

section
variable {p : Funnel β α} {f : α → Funnel β γ}

theorem quiet_pure {x : α} : Quiet (pure x : Funnel β α) := fun _ _ => rfl

theorem Quiet.bind (h : Quiet p) (h' : ∀ x, Quiet (f x)) : Quiet (p >>= f) := by
  intro spared s
  apply (h spared s).bind
  intro x s' same
  subst same
  exact h' x spared _

theorem quiet_hostRead {q n : Nat} : Quiet (hostRead q n : Funnel β _) := fun _ _ => ⟨trivial, fun _ _ same => same⟩

theorem quiet_hostWrite {q : Nat} {x : List β} : Quiet (hostWrite q x) := fun _ _ => ⟨trivial, fun _ _ same => same⟩

theorem quiet_kernelLaunchTransform {kernel : String} {input output count es outEs : Nat} {captures : Option (List β)} :
    Quiet (kernelLaunchTransform kernel input output count es outEs captures) :=
  fun _ _ => ⟨trivial, fun _ _ same => same⟩

theorem quiet_memcpy {dst src n : Nat} : Quiet (memcpy dst src n : Funnel β Unit) :=
  quiet_hostRead.bind fun _ => quiet_hostWrite

theorem quiet_load {c : Codec β α} {q i : Nat} : Quiet (load c q i) := quiet_hostRead.bind fun _ => quiet_pure

theorem quiet_store {c : Codec β α} {q i : Nat} {x : α} : Quiet (store c q i x) := quiet_hostWrite

theorem quiet_foldEach {body : Nat → γ → Funnel β γ} (h : ∀ i acc, Quiet (body i acc)) (is : List Nat) (acc : γ) :
    Quiet (foldEach body is acc) := by
  induction is generalizing acc with
  | nil => exact quiet_pure
  | cons i is ih => exact (h i acc).bind fun acc => ih acc

theorem quiet_loadAll {c : Codec β α} {q n : Nat} : Quiet (loadAll c q n) := by
  apply quiet_foldEach
  intro i acc
  exact quiet_load.bind fun _ => quiet_pure

theorem quiet_storeAll {c : Codec β α} {q : Nat} (xs : List α) (i : Nat) : Quiet (storeAll c q i xs) := by
  induction xs generalizing i with
  | nil => exact quiet_pure
  | cons x xs ih => exact quiet_store.bind fun _ => ih (i + 1)

theorem quiet_copyPassing {c : Codec β α} {pred : α → Bool} {input output n : Nat} :
    Quiet (copyPassing c pred input output n) := by
  apply quiet_foldEach
  intro i k
  refine quiet_load.bind fun x => ?_
  split
  · exact quiet_store.bind fun _ => quiet_pure
  · exact quiet_pure

end

/-! ### Scratch of the funnels -/

section
variable {ctx : Context} {spared : List Nat} {s : Holdings} {Q : α → Holdings → Prop}

theorem runtime_holds {p : Launch β α} (h : p.Ensures (holding spared) Q s) :
    (runtime p).Ensures (funnelHolding spared) Q s := by
  have embedded : (p.embed (runtimeOps β)).Ensures (funnelHolding spared) (fun r t' => ∃ s', Q r s' ∧ s' = t') s :=
    h.embed (fun _ _ _ _ _ => trivial) (fun o s t x t' same _ step => ⟨t', same ▸ step, rfl⟩) rfl
  refine embedded.mono fun r t' post => ?_
  obtain ⟨s', hQ, rfl⟩ := post
  exact hQ

theorem holds_arenaAlloc {size align : Nat} {f : Nat → Funnel β α}
    (null : (f 0).Ensures (funnelHolding spared) Q (s.refuse spared))
    (ok : ∀ p, p ≠ 0 → p ∉ s.live → (f p).Ensures (funnelHolding spared) Q (s.take p)) :
    (arenaAlloc size align >>= f).Ensures (funnelHolding spared) Q s := by
  apply Prog.ensures_call trivial
  intro p s' step
  rcases step with ⟨zero, rfl⟩ | ⟨nonnull, fresh, rfl⟩
  · obtain rfl : p = (0 : Nat) := zero
    exact null
  · exact ok p nonnull fresh

theorem holds_arenaFree {p : Nat} {f : Unit → Funnel β α}
    (h : (f ()).Ensures (funnelHolding spared) Q (s.release p)) :
    (arenaFree p >>= f).Ensures (funnelHolding spared) Q s := by
  apply Prog.ensures_call trivial
  intro _ s' same
  obtain rfl : s' = s.release p := same
  exact h

theorem holds_quiet {p : Funnel β γ} {f : γ → Funnel β α} (quiet : Quiet p)
    (h : ∀ x, (f x).Ensures (funnelHolding spared) Q s) : (p >>= f).Ensures (funnelHolding spared) Q s := by
  apply (quiet spared s).bind
  intro x s' same
  subst same
  exact h x

/-- What is spared: a failure without scratch, and one with both blocks, but not one with a single block. -/
structure Pairs (spared : List Nat) : Prop where
  none : 0 ∈ spared
  one : 1 ∉ spared
  both : 2 ∈ spared

theorem holds_withScratchPair {size align outSize outAlign : Nat} {body : Nat → Nat → Funnel β α} {fallback : Funnel β α}
    (calm : s.Calm) (entry : s.held = 0) (pairs : Pairs spared) (quiet : Quiet fallback)
    (h : ∀ ai ao, (body ai ao).Ensures (funnelHolding spared)
      (fun _ s' => s' = (s.take ai).take ao ∨ Failed spared ((s.take ai).take ao) s') ((s.take ai).take ao)) :
    (withScratchPair size align outSize outAlign body fallback).Ensures (funnelHolding spared)
      (fun _ s' => s' = s ∨ Failed spared s s') s := by
  have alone : ∀ t, Failed spared s t → fallback.Ensures (funnelHolding spared) (fun _ s' => s' = s ∨ Failed spared s s') t := by
    intro t failed
    refine (quiet spared t).mono fun _ s' same => Or.inr ?_
    rwa [same]
  have single : s.held + 1 ∉ spared := by rw [entry]; exact pairs.one
  have double : s.held + 2 ∈ spared := by rw [entry]; exact pairs.both
  have outer : s.held ∈ spared := by rw [entry]; exact pairs.none
  apply holds_arenaAlloc
  · apply holds_arenaAlloc
    · rw [if_neg (by simp)]
      exact alone _ failed_refuse_refuse
    · intro ao _ fresh
      rw [if_neg (by simp)]
      exact alone _ (failed_refuse_take fresh)
  intro ai nonnull fresh
  apply holds_arenaAlloc
  · rw [if_neg (by simp)]
    exact alone _ (calm.failed_take_refuse fresh single)
  intro ao nonnull' _
  rw [if_pos ⟨nonnull, nonnull'⟩]
  refine Prog.ensures_bind.mpr ((h ai ao).mono fun r s' post => holds_arenaFree (holds_arenaFree ?_))
  rcases post with rfl | failed
  · left
    rw [calm.take.release_take, calm.release_take]
  · exact Or.inr (failed.release_pair calm double outer)

theorem parallaxReduce_holds [Zero β] {kernel : String} {data count es result : Nat} {f : Option (Fin es → β) → Funnel β α}
    (calm : s.Calm) (above : Above spared s.held)
    (h : ∀ gpu s', s' = s ∨ Failed spared s s' → (f gpu).Ensures (funnelHolding spared) Q s') :
    (parallaxReduce ctx kernel data count es result >>= f).Ensures (funnelHolding spared) Q s := by
  refine Prog.ensures_bind.mpr (Prog.ensures_bind.mpr ((runtime_holds (launchReduce_holds calm above)).mono ?_))
  exact fun r s' post => h r.2 s' post

/-- Every step of the offloading branch of a compaction funnel. -/
theorem stagedCompact_holds {hv : HostValues β} {c : Codec β α} {align : Nat} {k : CompactKernels} {isFloat : Bool}
    {input output n keptAt : Nat} {copied : Nat → Nat} {fallback : Funnel β Nat} (calm : s.Calm) (entry : s.held = 0)
    (quiet : Quiet fallback) :
    (stagedCompact hv ctx c align k isFloat input output n keptAt copied fallback).Ensures (funnelHolding [0, 2, 3])
      (fun _ s' => s' = s ∨ Failed [0, 2, 3] s s') s := by
  apply holds_withScratchPair calm entry ⟨by decide, by decide, by decide⟩ quiet
  intro ai ao
  have above : Above [0, 2, 3] (((s.take ai).take ao).held + 1) := by
    intro h lt member
    simp only [take_held, entry] at lt
    simp only [List.mem_cons, List.not_mem_nil, or_false] at member
    omega
  apply holds_quiet quiet_memcpy
  intro _
  refine Prog.ensures_bind.mpr (Prog.ensures_bind.mpr (Prog.Ensures.mono (runtime_holds
    (launchCompact_holds calm.take.take ?_ ?_ above)) fun r s' post => ?_))
  · simp [entry]
  · simp [entry]
  · exact holds_quiet quiet_memcpy fun _ => post

end

/-! ### The operations -/

/-- The primitives and the funnels that take scratch. -/
inductive Routine (β : Type) : Type 1 where
  | launchReduce (kernel : String) (data count es outResult : Nat)
  | launchScan (scanKernel addKernel : String) (data count es : Nat)
  | launchArgminmax (kernel : String) (data count es : Nat) (isFloat wantMax wantLast : Bool)
  | launchFind (kernel : String) (data count es : Nat) (negate : Bool) (value : Option (List β))
  | launchMismatch (kernel : String) (a b count es : Nat)
  | launchCompact (flagsKernel scanKernel addKernel scatterKernel : String) (input output count es : Nat)
      (elemIsFloat : Bool) (outKept : Option Nat)
  | deviceTransform {α γ : Type} (c : Codec β α) (align : Nat) (c' : Codec β γ) (align' : Nat) (k : Option String)
      (captures : Option (List β)) (f : α → γ) (input output n : Nat)
  | deviceExclusiveScan {α : Type} [Add α] (c : Codec β α) (align : Nat) (ks ka kh : Option String) (input output n : Nat)
      (init : α)
  | deviceTransformReduce {α γ : Type} [Zero γ] [Add γ] (c : Codec β α) (align : Nat) (cu : Codec β γ) (alignU : Nat)
      (kx kr : Option String) (empty : Bool) (f : α → γ) (input n gpuAt : Nat)
  | deviceCountIf {α ι : Type} [Zero ι] (c : Codec β α) (align : Nat) (ci : Codec β ι) (alignInt : Nat) (toLong : ι → Int)
      (kp kr : Option String) (empty : Bool) (pred : α → Bool) (input n gpuAt : Nat)
  | deviceCopyIf {α : Type} (c : Codec β α) (align : Nat) (kf ks ka kc : Option String) (empty isFloat : Bool)
      (pred : α → Bool) (input output n keptAt : Nat)
  | deviceRemoveIf {α : Type} (c : Codec β α) (align : Nat) (kf ks ka kc : Option String) (empty isFloat : Bool)
      (pred : α → Bool) (data n keptAt : Nat)
  | devicePartition {α : Type} (c : Codec β α) (align : Nat) (kf ks ka kc : Option String) (empty isFloat : Bool)
      (pred : α → Bool) (data n keptAt : Nat)
  | deviceUnique {α : Type} [DecidableEq α] (c : Codec β α) (align : Nat) (kf ks ka kc : Option String) (isFloat : Bool)
      (data n keptAt : Nat)

/-- The program without its answer. -/
def forget (p : Funnel β α) : Funnel β Unit := do
  let _ ← p
  pure ()

namespace Routine

def prog [Zero β] (hv : HostValues β) (ctx : Context) : Routine β → Funnel β Unit
  | launchReduce kernel data count es outResult => forget (runtime (Launcher.launchReduce ctx kernel data count es outResult))
  | launchScan scanKernel addKernel data count es =>
    forget (runtime (Launcher.launchScan ctx scanKernel addKernel data count es))
  | launchArgminmax kernel data count es isFloat wantMax wantLast =>
    forget (runtime (Launcher.launchArgminmax hv ctx kernel data count es isFloat wantMax wantLast))
  | launchFind kernel data count es negate value =>
    forget (runtime (Launcher.launchFind hv ctx kernel data count es negate value))
  | launchMismatch kernel a b count es => forget (runtime (Launcher.launchMismatch hv ctx kernel a b count es))
  | launchCompact flagsKernel scanKernel addKernel scatterKernel input output count es elemIsFloat outKept =>
    forget (runtime (Launcher.launchCompact hv ctx flagsKernel scanKernel addKernel scatterKernel input output count es
      elemIsFloat outKept))
  | deviceTransform c align c' align' k captures f input output n =>
    Funnels.deviceTransform ctx c align c' align' k captures f input output n
  | deviceExclusiveScan c align ks ka kh input output n init =>
    Funnels.deviceExclusiveScan ctx c align ks ka kh input output n init
  | deviceTransformReduce c align cu alignU kx kr empty f input n gpuAt =>
    forget (Funnels.deviceTransformReduce ctx c align cu alignU kx kr empty f input n gpuAt)
  | deviceCountIf c align ci alignInt toLong kp kr empty pred input n gpuAt =>
    forget (Funnels.deviceCountIf ctx c align ci alignInt toLong kp kr empty pred input n gpuAt)
  | deviceCopyIf c align kf ks ka kc empty isFloat pred input output n keptAt =>
    forget (Funnels.deviceCopyIf hv ctx c align kf ks ka kc empty isFloat pred input output n keptAt)
  | deviceRemoveIf c align kf ks ka kc empty isFloat pred data n keptAt =>
    forget (Funnels.deviceRemoveIf hv ctx c align kf ks ka kc empty isFloat pred data n keptAt)
  | devicePartition c align kf ks ka kc empty isFloat pred data n keptAt =>
    forget (Funnels.devicePartition hv ctx c align kf ks ka kc empty isFloat pred data n keptAt)
  | deviceUnique c align kf ks ka kc isFloat data n keptAt =>
    forget (Funnels.deviceUnique hv ctx c align kf ks ka kc isFloat data n keptAt)

/-- The numbers of blocks held with which a failing step is followed by giving all of them back. -/
def spared : Routine β → List Nat
  | launchCompact .. => [0, 1]
  | deviceTransform .. | deviceExclusiveScan .. | deviceTransformReduce .. | deviceCountIf .. => [0, 2]
  | deviceCopyIf .. | deviceRemoveIf .. | devicePartition .. | deviceUnique .. => [0, 2, 3]
  | _ => [0]

end Routine

section
variable {ctx : Context} {s : Holdings}

theorem forget_holds {spared : List Nat} {p : Funnel β α} {Q : Holdings → Prop}
    (h : p.Ensures (funnelHolding spared) (fun _ s' => Q s') s) :
    (forget p).Ensures (funnelHolding spared) (fun _ s' => Q s') s :=
  Prog.ensures_bind.mpr (h.mono fun _ _ post => post)

theorem Quiet.settled {spared : List Nat} {p : Funnel β α} (quiet : Quiet p) :
    p.Ensures (funnelHolding spared) (fun _ s' => s' = s ∨ Failed spared s s') s :=
  (quiet spared s).mono fun _ _ same => Or.inl same

theorem Routine.holds [Zero β] {hv : HostValues β} (a : Routine β) (calm : s.Calm) (entry : s.held = 0) :
    (a.prog hv ctx).Ensures (funnelHolding a.spared) (fun _ s' => s' = s ∨ Failed a.spared s s') s := by
  have above : Above [0] s.held := by
    intro h lt member
    obtain rfl := List.mem_singleton.mp member
    omega
  have above₁ : Above [0, 1] (s.held + 1) := by
    intro h lt member
    simp only [List.mem_cons, List.not_mem_nil, or_false] at member
    omega
  have above₂ : ∀ ai ao, Above [0, 2] ((s.take ai).take ao).held := by
    intro ai ao h lt member
    simp only [take_held, entry] at lt
    simp only [List.mem_cons, List.not_mem_nil, or_false] at member
    omega
  have pairs : Pairs [0, 2] := ⟨by decide, by decide, by decide⟩
  cases a with
  | launchReduce => exact forget_holds (runtime_holds (launchReduce_holds calm above))
  | launchScan scanKernel addKernel data count es =>
    refine forget_holds (runtime_holds ((launchScan_holds data count calm above).mono fun r s' post => ?_))
    rcases post with ⟨-, same⟩ | ⟨-, failed | ⟨same, -⟩⟩
    · exact Or.inl same
    · exact Or.inr failed
    · exact Or.inl same
  | launchArgminmax => exact forget_holds (runtime_holds (launchArgminmax_holds calm above))
  | launchFind => exact forget_holds (runtime_holds (launchFind_holds calm above))
  | launchMismatch => exact forget_holds (runtime_holds (launchMismatch_holds calm above))
  | launchCompact =>
    exact forget_holds (runtime_holds (launchCompact_holds calm (by simp [spared, entry]) (by simp [spared, entry]) above₁))
  | deviceTransform c align c' align' k captures f input output n =>
    have quiet : Quiet (foldEach (fun i _ => do let x ← load c input i; store c' output i (f x)) (List.range n) ()) := by
      apply quiet_foldEach
      exact fun i _ => quiet_load.bind fun _ => quiet_store
    cases k with
    | none => exact quiet.settled
    | some k =>
      apply Prog.ensures_ite fun _ => quiet_kernelLaunchTransform.settled
      intro _
      apply holds_withScratchPair calm entry pairs quiet
      intro ai ao
      apply Quiet.settled
      exact quiet_memcpy.bind fun _ => quiet_kernelLaunchTransform.bind fun _ => quiet_memcpy
  | deviceExclusiveScan c align ks ka kh input output n init =>
    have quiet : Quiet (foldEach (fun i acc => do
        let x ← load c input i
        store c output i acc
        pure (acc + x)) (List.range n) init >>= fun _ => (pure () : Funnel β Unit)) := by
      refine Quiet.bind (quiet_foldEach ?_ _ _) fun _ => quiet_pure
      exact fun i acc => quiet_load.bind fun _ => quiet_store.bind fun _ => quiet_pure
    cases ks with
    | none => exact quiet.settled
    | some ks =>
      cases ka with
      | none => exact quiet.settled
      | some ka =>
        cases kh with
        | none => exact quiet.settled
        | some kh =>
          apply holds_withScratchPair calm entry pairs quiet
          intro ai ao
          apply holds_quiet quiet_memcpy
          intro _
          refine Prog.ensures_bind.mpr (Prog.ensures_bind.mpr (Prog.Ensures.mono (runtime_holds
            (launchExclusiveScan_holds calm.take.take (above₂ ai ao))) fun r s' post => ?_))
          exact (quiet_memcpy _ s').mono fun _ _ same => by rwa [same]
  | deviceTransformReduce c align cu alignU kx kr empty f input n gpuAt =>
    apply forget_holds
    have quiet : Quiet (foldEach (fun i acc => do let x ← load c input i; pure (acc + f x)) (List.range n) 0) := by
      apply quiet_foldEach
      exact fun i acc => quiet_load.bind fun _ => quiet_pure
    apply Prog.ensures_ite fun _ => quiet.settled
    intro _
    cases kx with
    | none => exact quiet.settled
    | some kx =>
      cases kr with
      | none => exact quiet.settled
      | some kr =>
        apply holds_withScratchPair calm entry pairs quiet
        intro ai ao
        refine holds_quiet quiet_memcpy fun _ => holds_quiet quiet_kernelLaunchTransform fun _ => ?_
        exact parallaxReduce_holds calm.take.take (above₂ ai ao) fun _ _ post => post
  | deviceCountIf c align ci alignInt toLong kp kr empty pred input n gpuAt =>
    apply forget_holds
    have quiet : Quiet (foldEach (fun i (acc : Int) => do let x ← load c input i; pure (if pred x then acc + 1 else acc))
        (List.range n) 0) := by
      apply quiet_foldEach
      exact fun i acc => quiet_load.bind fun _ => quiet_pure
    apply Prog.ensures_ite fun _ => quiet.settled
    intro _
    cases kp with
    | none => exact quiet.settled
    | some kp =>
      cases kr with
      | none => exact quiet.settled
      | some kr =>
        apply holds_withScratchPair calm entry pairs quiet
        intro ai ao
        refine holds_quiet quiet_memcpy fun _ => holds_quiet quiet_kernelLaunchTransform fun _ => ?_
        exact parallaxReduce_holds calm.take.take (above₂ ai ao) fun _ _ post => post
  | deviceCopyIf c align kf ks ka kc empty isFloat pred input output n keptAt =>
    apply forget_holds
    apply Prog.ensures_ite fun _ => quiet_copyPassing.settled
    intro _
    cases CompactKernels.lookup kf ks ka kc with
    | none => exact quiet_copyPassing.settled
    | some k => exact stagedCompact_holds calm entry quiet_copyPassing
  | deviceRemoveIf c align kf ks ka kc empty isFloat pred data n keptAt =>
    apply forget_holds
    apply Prog.ensures_ite fun _ => quiet_copyPassing.settled
    intro _
    cases CompactKernels.lookup kf ks ka kc with
    | none => exact quiet_copyPassing.settled
    | some k => exact stagedCompact_holds calm entry quiet_copyPassing
  | devicePartition c align kf ks ka kc empty isFloat pred data n keptAt =>
    apply forget_holds
    have quiet : Quiet (loadAll c data n >>= fun xs =>
        storeAll c data 0 (xs.filter pred ++ xs.filter fun x => !pred x) >>= fun _ => pure (xs.filter pred).length) :=
      quiet_loadAll.bind fun xs => (quiet_storeAll _ _).bind fun _ => quiet_pure
    apply Prog.ensures_ite fun _ => quiet.settled
    intro _
    cases CompactKernels.lookup kf ks ka kc with
    | none => exact quiet.settled
    | some k => exact stagedCompact_holds calm entry quiet
  | deviceUnique c align kf ks ka kc isFloat data n keptAt =>
    apply forget_holds
    have quiet : Quiet (loadAll c data n >>= fun xs =>
        storeAll c data 0 (xs.destutter (· ≠ ·)) >>= fun _ => pure (xs.destutter (· ≠ ·)).length) :=
      quiet_loadAll.bind fun xs => (quiet_storeAll _ _).bind fun _ => quiet_pure
    simp only [Funnels.deviceUnique]
    cases CompactKernels.lookup kf ks ka kc with
    | none => exact quiet.settled
    | some k => exact stagedCompact_holds calm entry quiet

/-- The same blocks are live after the operation as before exactly when no step failed that is not spared. -/
theorem scratch_released_iff [Zero β] {hv : HostValues β} (a : Routine β) (live : List Nat) {r : Unit} {s' : Holdings}
    (run : (a.prog hv ctx).Run (funnelHoldingStep a.spared) ⟨live, 0, false, false, false⟩ r s') :
    (∀ p, p ∈ s'.live ↔ p ∈ live) ↔ s'.faulted = false := by
  have holds : (a.prog hv ctx).Ensures (funnelHolding a.spared) _ ⟨live, 0, false, false, false⟩ := a.holds ⟨rfl, rfl⟩ rfl
  have settled := holds.run run
  have none : 0 ∈ a.spared := by cases a <;> simp [Routine.spared]
  rcases settled with rfl | ⟨extra, residue, faulted⟩
  · exact iff_of_true (fun _ => Iff.rfl) rfl
  · rw [faulted, residue.live]
    cases extra with
    | nil => simp [none]
    | cons q extra =>
      refine iff_of_false (fun same => ?_) (by simp)
      exact residue.apart q List.mem_cons_self ((same q).mp (by simp))

end

/-- An arena of 64 KiB at 4096, and every kernel loaded. -/
def smallContext : Context := ⟨fun _ => true, true, 4096, 0, 65536⟩

def transformOne : Routine Nat := .deviceTransform Codec.quad 4 Codec.quad 4 (some "transform") none id 100 200 1

/-- A transform of one element that gets both of its blocks. -/
theorem scratch_released_transform : ∃ s', (transformOne.prog firstCell smallContext).Run (funnelHoldingStep transformOne.spared)
    ⟨[4096], 0, false, false, false⟩ () s' ∧ ∀ p, p ∈ s'.live ↔ p ∈ [4096] := by
  have run : (transformOne.prog firstCell smallContext).Run (funnelHoldingStep transformOne.spared)
      ⟨[4096], 0, false, false, false⟩ () ⟨[4096], 0, false, false, false⟩ := by
    refine ⟨(8192 : Nat), ⟨[8192, 4096], 1, false, false, false⟩, Or.inr ⟨by decide, by decide, rfl⟩, ?_⟩
    refine ⟨(12288 : Nat), ⟨[12288, 8192, 4096], 2, false, false, false⟩, Or.inr ⟨by decide, by decide, rfl⟩, ?_⟩
    refine ⟨fun _ => 0, _, rfl, (), _, rfl, (), _, rfl, fun _ => 0, _, rfl, (), _, rfl, ?_⟩
    exact ⟨(), _, rfl, (), _, rfl, rfl, rfl⟩
  exact ⟨_, run, (scratch_released_iff transformOne [4096] run).mpr rfl⟩

/-- The second scratch block of a reduction is refused, and the first stays. -/
theorem reduce_leaks_scratch : ¬ ∀ (ctx : Context) (a : Routine Nat) (live : List Nat) (s' : Holdings),
    (a.prog firstCell ctx).Run (funnelHoldingStep a.spared) ⟨live, 0, false, false, false⟩ () s' →
    ∀ p, p ∈ s'.live ↔ p ∈ live := by
  intro released
  have run : ((Routine.launchReduce "reduce" 4096 2 4 100 : Routine Nat).prog firstCell smallContext).Run
      (funnelHoldingStep [0]) ⟨[], 0, false, false, false⟩ () ⟨[8192], 1, true, false, true⟩ := by
    refine ⟨(), _, rfl, (8192 : Nat), ⟨[8192], 1, false, false, false⟩, Or.inr ⟨by decide, by decide, rfl⟩, ?_⟩
    refine ⟨(0 : Nat), ⟨[8192], 1, true, false, true⟩, Or.inl ⟨rfl, rfl⟩, ?_⟩
    exact ⟨(), _, rfl, rfl, rfl⟩
  have same := released smallContext (.launchReduce "reduce" 4096 2 4 100) [] _ run 8192
  simp at same

end Parallax.Funnels
