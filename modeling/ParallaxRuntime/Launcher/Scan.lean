import ParallaxRuntime.Kernel.Scan
import ParallaxRuntime.Launcher.Granted

/-!
# The multi-block inclusive scan

`launch_scan` over the kernels `scan.comp` and `scan_add.comp`, by induction on the
number of elements: the block sums are scanned by the same function.
-/

namespace Parallax.Launcher
open Memory Effects Arena Kernel

section
variable {β M : Type} [AddCommMonoid M]

def scanShader (c : Codec β M) : Shader β :=
  arrayShader c c (fun push _ => push.count) (fun _ groups => groups) fun data blocksums push groups =>
    InAnyOrder groups (scanGroup c data blocksums push.count)

def scanAddShader (c : Codec β M) : Shader β :=
  arrayShader c c (fun push _ => push.count) (fun _ groups => groups) fun data offsets push groups =>
    InAnyOrder (groups * 256) (scanAddInvocation c data offsets push.count)

/-- The array at `data` now holds its prefix sums. -/
structure Scanned (c : Codec β M) (A : ArenaModel β) (data count : Nat) (s s' : A.State) : Prop extends
    Wrote A (c.Covers data count) s s' where
  sums : ∀ i < count, c.get (A.mem s') data i = ∑ j ∈ Finset.range (i + 1), c.get (A.mem s) data j

variable {c : Codec β M} {A : ArenaModel β} {shaders : String → Shader β} {mayFail : Prop}
  {s : A.State} {kernel : String} {data sums count groups : Nat} {loaded : String → Bool} {devBase : Nat}
  {Q : Bool → A.State → Prop}

theorem ensures_scanPass (found : shaders kernel = scanShader c) (valid : A.Valid s)
    (hd : InBlock (A.live s) data (count * c.size)) (hs : InBlock (A.live s) sums (groups * c.size))
    (small : count < 2 ^ 32) (apart : ∀ a, c.Covers data count a → ¬ c.Covers sums groups a)
    (enough : count ≤ groups * 256) (fail : mayFail → Q false s)
    (ok : ∀ s', Wrote A (fun a => c.Covers data count a ∨ c.Covers sums groups a) s s' →
      (∀ i < count, c.get (A.mem s') data i =
        ∑ j ∈ Finset.range (i % 256 + 1), padded count (c.get (A.mem s) data) (i / 256 * 256 + j)) →
      (∀ k < groups, c.get (A.mem s') sums k = blockSum 256 (padded count (c.get (A.mem s) data)) k) → Q true s') :
    (dispatchReduceLevel (contextOf A loaded devBase) kernel (arrayBinding c A data count) (arrayBinding c A sums groups)
      count groups).Ensures (machine A shaders mayFail fun _ _ => True) Q s := by
  have whole : ((contextOf A loaded devBase).makePushBlock count : Push β).count = count := makePushBlock_count small
  refine ensures_arrayDispatch found valid hd hs ⟨le_of_eq whole, le_refl _⟩ trivial (fun m run a dead => ?_) fail
    fun s' valid' live run => ?_
  · rw [whole] at run
    obtain ⟨-, -, frame⟩ := scan_spec run apart enough
    exact frame a (fun h => dead (liveByte_of_covers hd h)) fun h => dead (liveByte_of_covers hs h)
  · rw [whole] at run
    obtain ⟨elems, totals, frame⟩ := scan_spec run apart enough
    exact ok s' ⟨valid', live, fun a _ out => frame a (fun h => out (Or.inl h)) fun h => out (Or.inr h)⟩ elems totals

theorem ensures_addPass (found : shaders kernel = scanAddShader c) (valid : A.Valid s)
    (hd : InBlock (A.live s) data (count * c.size)) (hs : InBlock (A.live s) sums (groups * c.size))
    (small : count < 2 ^ 32) (apart : ∀ a, c.Covers data count a → ¬ c.Covers sums groups a)
    (enough : count ≤ groups * 256) (fail : mayFail → Q false s)
    (ok : ∀ s', Wrote A (c.Covers data count) s s' →
      (∀ i < count, c.get (A.mem s') data i =
        if i / 256 = 0 then c.get (A.mem s) data i
        else c.get (A.mem s) data i + c.get (A.mem s) sums (i / 256 - 1)) → Q true s') :
    (dispatchReduceLevel (contextOf A loaded devBase) kernel (arrayBinding c A data count) (arrayBinding c A sums groups)
      count groups).Ensures (machine A shaders mayFail fun _ _ => True) Q s := by
  have whole : ((contextOf A loaded devBase).makePushBlock count : Push β).count = count := makePushBlock_count small
  refine ensures_arrayDispatch found valid hd hs ⟨le_of_eq whole, le_refl _⟩ trivial (fun m run a dead => ?_) fail
    fun s' valid' live run => ?_
  · rw [whole] at run
    exact (scanAdd_spec run apart enough).2 a fun h => dead (liveByte_of_covers hd h)
  · rw [whole] at run
    obtain ⟨elems, frame⟩ := scanAdd_spec run apart enough
    exact ok s' ⟨valid', live, fun a _ out => frame a out⟩ elems

/-- Block prefixes and scanned block totals add up to the whole prefix. -/
theorem prefix_of_passes {x y z t : Nat → M} {i : Nat} (hi : i < count)
    (block : y i = ∑ j ∈ Finset.range (i % 256 + 1), padded count x (i / 256 * 256 + j))
    (totals : i / 256 ≠ 0 → t (i / 256 - 1) = ∑ k ∈ Finset.range (i / 256), blockSum 256 (padded count x) k)
    (added : z i = if i / 256 = 0 then y i else y i + t (i / 256 - 1)) :
    z i = ∑ j ∈ Finset.range (i + 1), x j := by
  have whole := prefix_blocks 256 (padded count x) (i / 256) (i % 256 + 1)
  rw [show i / 256 * 256 + (i % 256 + 1) = i + 1 by omega] at whole
  have plain : ∑ j ∈ Finset.range (i + 1), padded count x j = ∑ j ∈ Finset.range (i + 1), x j :=
    Finset.sum_congr rfl fun j hj => padded_of_lt (by have := Finset.mem_range.mp hj; omega)
  rw [← plain, whole, added]
  split
  · next first => simp [block, first]
  · next later => rw [block, totals later, add_comm]

/-- Every run of `launch_scan` that answers true leaves the prefix sums; it answers true
when nothing fails. A run that answers false may leave scratch and has spoilt `data` only. -/
theorem launchScan_ensures {scanKernel addKernel : String} (scanLoaded : loaded scanKernel = true)
    (addLoaded : loaded addKernel = true) (scanFound : shaders scanKernel = scanShader c)
    (addFound : shaders addKernel = scanAddShader c) (count data : Nat) (s : A.State) (valid : A.Valid s)
    (hd : InBlock (A.live s) data (count * c.size)) (small : count < 2 ^ 32) :
    (launchScan (contextOf A loaded devBase) scanKernel addKernel data count c.size).Ensures
      (machine A shaders mayFail fun _ _ => True)
      (fun r s' => (r = false → mayFail) ∧ Kept A (c.Covers data count) s s' ∧ (r = true → Scanned c A data count s s')) s := by
  induction count using Nat.strong_induction_on generalizing data s with
  | _ count ih =>
    rw [launchScan]
    apply ensures_withArenaSync
    refine Prog.ensures_ite (fun missing => ?_) fun _ => Prog.ensures_ite (fun one => ?_) fun many =>
      Prog.ensures_ite (fun no => Bool.noConfusion no) fun _ => ?_
    · exact absurd missing (by simp [contextOf, scanLoaded, addLoaded])
    · refine ⟨fun no => Bool.noConfusion no, Kept.refl valid, fun _ => ⟨⟨valid, rfl, fun _ _ _ => rfl⟩, fun i hi => ?_⟩⟩
      rw [show i = 0 by omega]
      simp
    · have := c.pos
      have bounds := hd.bounds valid
      have pos : 0 < count * c.size := Nat.mul_pos (by omega) c.pos
      have fewer : (count + 255) / 256 * c.size ≤ count * c.size := Nat.mul_le_mul_right _ (by omega)
      dsimp only
      rw [groupsOf_eq small, wmul_of_lt (a := count) (by omega), wmul_of_lt (by omega)]
      generalize hg : (count + 255) / 256 = groups at *
      apply ensures_resolve valid hd pos
      dsimp only [Option.elim]
      have lost : mayFail → ∀ t, Kept A (c.Covers data count) s t → (pure false : Launch β Bool).Ensures
          (machine A shaders mayFail fun _ _ => True) (fun r s' => (r = false → mayFail) ∧
            Kept A (c.Covers data count) s s' ∧ (r = true → Scanned c A data count s s')) t :=
        fun may t kept => ⟨fun _ => may, kept, fun no => Bool.noConfusion no⟩
      refine ensures_allocate valid (by omega)
        (fun may s₁ valid₁ live₁ mem₁ => lost may s₁ ⟨valid₁, fun b hb => live₁ ▸ hb, fun a ha _ => mem₁ a ha⟩)
        fun sums n s₁ nonnull fits valid₁ live₁ mem₁ => ?_
      rw [if_neg nonnull]
      have hd₁ : InBlock (A.live s₁) data (count * c.size) := live₁ ▸ hd.cons
      have hs₁ : InBlock (A.live s₁) sums (groups * c.size) := live₁ ▸ InBlock.head fits
      -- The scratch block is none of the blocks that were live before.
      have fresh : ∀ a, A.Usable (A.live s) a → ¬ c.Covers sums groups a := fun a ha covers =>
        A.head_not_usable valid₁ live₁ ⟨covers.1, by have := covers.2; dsimp only; omega⟩ ha
      have apart : ∀ a, c.Covers data count a → ¬ c.Covers sums groups a := fun a ha =>
        fresh a (usable_of_covers hd ha)
      have begun : Kept A (c.Covers data count) s s₁ := Kept.of_cons valid₁ live₁ mem₁
      have same : padded count (c.get (A.mem s₁) data) = padded count (c.get (A.mem s) data) := funext fun i => by
        unfold padded
        split
        · next hi => exact Codec.get_frame hi fun a ha => mem₁ a (usable_of_covers hd ha)
        · rfl
      have finish : ∀ t, Wrote A (fun a => c.Covers data count a ∨ c.Covers sums groups a) s₁ t →
          (∀ i < count, c.get (A.mem t) data i = ∑ j ∈ Finset.range (i + 1), c.get (A.mem s) data j) →
          ((contextOf A loaded devBase).download data >>= fun _ => do deallocate sums; pure true).Ensures
            (machine A shaders mayFail fun _ _ => True)
            (fun r s' => (r = false → mayFail) ∧ Kept A (c.Covers data count) s s' ∧
              (r = true → Scanned c A data count s s')) t := by
        intro t wrote value
        have live := wrote.live.trans live₁
        apply ensures_download wrote.valid (live ▸ hd.cons) pos
        refine ensures_deallocate wrote.valid (live ▸ List.mem_cons_self) fun s' valid' live' mem' => ?_
        rw [live, released_cons (A.head_fresh wrote.valid live)] at live'
        rw [live'] at mem'
        have whole : Wrote A (c.Covers data count) s s' := ⟨valid', live', fun a ha out => by
          have old : A.Usable (A.live s₁) a := live₁ ▸ ha.cons
          rw [mem' a ha, wrote.frame a old fun h => h.elim out (fresh a ha), mem₁ a ha]⟩
        refine ⟨fun no => Bool.noConfusion no, whole.kept, fun _ => ⟨whole, fun i hi => ?_⟩⟩
        rw [Codec.get_frame hi fun a ha => mem' a (usable_of_covers hd ha), value i hi]
      refine Prog.ensures_bind.mpr (ensures_scanPass scanFound valid₁ hd₁ hs₁ small apart (by omega)
        (fun may => lost may s₁ begun) fun s₂ wrote elems totals => ?_)
      rw [if_neg (by decide)]
      rw [same] at elems totals
      have hd₂ : InBlock (A.live s₂) data (count * c.size) := wrote.live ▸ hd₁
      have hs₂ : InBlock (A.live s₂) sums (groups * c.size) := wrote.live ▸ hs₁
      refine Prog.ensures_bind.mpr (Prog.ensures_ite (fun more => ?_) fun single => ?_)
      · refine Prog.ensures_bind.mpr ((ih groups (by omega) sums s₂ wrote.valid hs₂ (by omega)).mono
          fun ok s₃ ⟨failed, kept, scanned⟩ => ?_)
        have soFar : Kept A (c.Covers data count) s s₃ :=
          (begun.trans wrote.kept fun a ha h => h.resolve_right (fresh a ha)).trans kept fun a ha h => (fresh a ha h).elim
        apply Prog.ensures_ite
        · intro off
          exact lost (failed off) s₃ soFar
        intro on
        have scanned := scanned (Bool.eq_true_of_not_eq_false on)
        refine ensures_addPass addFound scanned.valid (scanned.live ▸ hd₂) (scanned.live ▸ hs₂) small apart (by omega)
          (fun may => lost may s₃ soFar) fun s₄ wrote' added => ?_
        refine finish s₄ (wrote.trans (scanned.toWrote.mono fun a => Or.inr) |>.trans (wrote'.mono fun a => Or.inl)) fun i hi => ?_
        have kept : c.get (A.mem s₃) data i = c.get (A.mem s₂) data i :=
          Codec.get_frame hi fun a ha => scanned.frame a (usable_of_covers hd₂ ha) (apart a ha)
        refine prefix_of_passes hi (kept.trans (elems i hi)) (fun later => ?_) (added i hi)
        rw [scanned.sums _ (by omega), show i / 256 - 1 + 1 = i / 256 by omega]
        exact Finset.sum_congr rfl fun k hk => totals k (by have := Finset.mem_range.mp hk; omega)
      · refine finish s₂ wrote fun i hi => ?_
        have first : i / 256 = 0 := by omega
        exact prefix_of_passes (t := fun _ => 0) hi (elems i hi) (fun later => absurd first later) (if_pos first).symm

/-! ### The run in which nothing fails -/

/-- The sizes of the block sums of all levels, from the outermost on. -/
def scanScratch (es count : Nat) : List Nat :=
  if count ≤ 1 then [] else (count + 255) / 256 * es :: scanScratch es ((count + 255) / 256)
termination_by count
decreasing_by omega

theorem scanShader_runs {base : Nat} {ok : Dispatch β → Prop} {more : Prop} : (scanShader c).Runs base ok more := by
  refine arrayShader_runs fun data sums push groups m => ?_
  obtain ⟨m', run⟩ := InAnyOrder.exists_run groups (scanGroup c data sums push.count) m
  refine ⟨m', run, fun _ a hd hs => ?_⟩
  obtain ⟨l, perm, rfl⟩ := run
  exact runAll_frame fun wg member m => scanGroup_outside (List.mem_range.mp (perm.mem_iff.mp member)) hd hs

theorem scanAddShader_runs {base : Nat} {ok : Dispatch β → Prop} : (scanAddShader c).Runs base ok False := by
  refine arrayShader_runs fun data offsets push groups m => ?_
  obtain ⟨m', run⟩ := InAnyOrder.exists_run (groups * 256) (scanAddInvocation c data offsets push.count) m
  exact ⟨m', run, fun no => no.elim⟩

/-- Each level asks for its block sums and leaves the rest of the scratch to the levels below. -/
theorem launchScan_asks {scanKernel addKernel : String} (scanLoaded : loaded scanKernel = true)
    (addLoaded : loaded addKernel = true) (scanFound : shaders scanKernel = scanShader c)
    (addFound : shaders addKernel = scanAddShader c) (count data : Nat)
    (contains : 1 < count → (contextOf A loaded devBase).contains data = true) (small : count < 2 ^ 32)
    (fits : count * c.size ≤ 2 ^ 62) :
    (launchScan (contextOf A loaded devBase) scanKernel addKernel data count c.size).Ensures (asking A shaders fun _ _ => True)
      (fun r left => r = true ∧ left = []) (scanScratch c.size count) := by
  induction count using Nat.strong_induction_on generalizing data with
  | _ count ih =>
    rw [launchScan, scanScratch]
    apply asks_withArenaSync
    refine Prog.ensures_ite (fun missing => ?_) fun _ => Prog.ensures_ite (fun one => ?_) fun many =>
      Prog.ensures_ite (fun no => Bool.noConfusion no) fun _ => ?_
    · exact absurd missing (by simp [contextOf, scanLoaded, addLoaded])
    · rw [if_pos one]
      exact ⟨rfl, rfl⟩
    · have fewer : (count + 255) / 256 * c.size ≤ count * c.size := Nat.mul_le_mul_right _ (by omega)
      rw [if_neg many]
      dsimp only
      rw [groupsOf_eq small, wmul_of_lt (a := count) (by omega), wmul_of_lt (by omega)]
      generalize hg : (count + 255) / 256 = groups at *
      have contains := contains (by omega)
      apply asks_resolve contains
      dsimp only [Option.elim]
      refine asks_allocate (Nat.mul_pos (by omega) c.pos) fun sums nonnull inside => ?_
      rw [if_neg nonnull]
      refine Prog.ensures_bind.mpr (asks_dispatch (by rw [scanFound]; exact scanShader_runs) ?_)
      rw [if_neg (by decide)]
      have finish : ((contextOf A loaded devBase).download data >>= fun _ => do deallocate sums; pure true).Ensures
          (asking A shaders fun _ _ => True) (fun r left => r = true ∧ left = []) [] :=
        asks_download contains (asks_deallocate ⟨rfl, rfl⟩)
      refine Prog.ensures_bind.mpr (Prog.ensures_ite (fun more => ?_) fun single => ?_)
      · refine (ih groups (by omega) sums (fun _ => contains_of_inArena nonnull inside) (by omega) (by omega)).bind ?_
        rintro _ _ ⟨rfl, rfl⟩
        rw [if_neg (by decide)]
        refine asks_dispatch (by rw [addFound]; exact scanAddShader_runs.last) ?_
        rw [if_neg (by decide)]
        exact finish
      · obtain rfl : groups = 1 := by omega
        rw [scanScratch, if_pos (le_refl 1)]
        exact finish

/-- When the arena grants the scratch of all levels there is a run of `launch_scan` in which nothing
fails, and every such run leaves the prefix sums, all other memory as it was, and no scratch. -/
theorem launchScan_prefix_sums {scanKernel addKernel : String} (scanLoaded : loaded scanKernel = true)
    (addLoaded : loaded addKernel = true) (scanFound : shaders scanKernel = scanShader c)
    (addFound : shaders addKernel = scanAddShader c) (valid : A.Valid s)
    (block : InBlock (A.live s) data (count * c.size)) (small : count < 2 ^ 32) :
    (A.Grants (scanScratch c.size count) s → ∃ s', (launchScan (contextOf A loaded devBase) scanKernel addKernel data count
      c.size).Run (machineStep A shaders False) s true s') ∧
    ∀ r s', (launchScan (contextOf A loaded devBase) scanKernel addKernel data count c.size).Run
        (machineStep A shaders False) s r s' →
      r = true ∧ A.Valid s' ∧ A.live s' = A.live s ∧
      (∀ i < count, c.get (A.mem s') data i = ∑ j ∈ Finset.range (i + 1), c.get (A.mem s) data j) ∧
      ∀ a, A.Usable (A.live s) a → ¬ c.Covers data count a → A.mem s' a = A.mem s a := by
  constructor
  · intro granted
    have contains : 1 < count → (contextOf A loaded devBase).contains data = true := fun many =>
      contains_of_inBlock valid block (Nat.mul_pos (by omega) c.pos)
    obtain ⟨r, s', left, run, rfl, -⟩ :=
      exists_granted_run (launchScan_ensures scanLoaded addLoaded scanFound addFound count data s valid block small)
        (launchScan_asks scanLoaded addLoaded scanFound addFound count data contains small (block.bounds valid).2.2.2) granted
    exact ⟨s', run⟩
  · intro r s' run
    obtain ⟨failed, -, scanned⟩ :=
      (launchScan_ensures scanLoaded addLoaded scanFound addFound count data s valid block small).run run
    have on : r = true := Bool.eq_true_of_not_eq_false failed
    obtain ⟨⟨valid', live, frame⟩, sums⟩ := scanned on
    exact ⟨on, valid', live, sums, frame⟩

end

def scanShaders (name : String) : Shader Nat :=
  if name = "scan" then scanShader Codec.quad else scanAddShader Codec.quad

theorem launchScan_prefix_sums_thousand :
    let s : Legacy.smallArena.State := (Legacy.twoBlocks, fun _ => 1)
    let scan : Launch Nat Bool :=
      launchScan (contextOf Legacy.smallArena (fun _ => true) 0) "scan" "scan_add" 4096 1000 Codec.quad.size
    (∃ s', scan.Run (machineStep Legacy.smallArena scanShaders False) s true s') ∧
    ∀ r s', scan.Run (machineStep Legacy.smallArena scanShaders False) s r s' →
      r = true ∧ Legacy.smallArena.Valid s' ∧ Legacy.smallArena.live s' = Legacy.smallArena.live s ∧
      (∀ i < 1000, Codec.quad.get (Legacy.smallArena.mem s') 4096 i =
        ∑ j ∈ Finset.range (i + 1), Codec.quad.get (Legacy.smallArena.mem s) 4096 j) ∧
      ∀ a, Legacy.smallArena.Usable (Legacy.smallArena.live s) a → ¬ Codec.quad.Covers 4096 1000 a →
        Legacy.smallArena.mem s' a = Legacy.smallArena.mem s a := by
  intro s scan
  have scans := @launchScan_prefix_sums Nat Nat _ Codec.quad Legacy.smallArena scanShaders s 4096 1000 (fun _ => true) 0 "scan"
    "scan_add" rfl rfl rfl rfl (Legacy.twoBlocks_valid _) (Legacy.twoBlocks_first (by decide)) (by decide)
  refine ⟨scans.1 (Legacy.grants_iff.mpr ?_), scans.2⟩
  rw [show scanScratch Codec.quad.size 1000 = [16, 4] by simp [scanScratch, Codec.quad]]
  decide

end Parallax.Launcher
