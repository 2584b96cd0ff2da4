import ParallaxRuntime.Kernel.Compact
import ParallaxRuntime.Launcher.Scan

/-!
# Stream compaction

`launch_compact` over `flags.comp`, the multi-block scan and `scatter.comp`.
-/

namespace Parallax.Launcher
open Memory Effects Arena Kernel

section
variable {β α M : Type} [AddCommMonoid M]

def flagsShader (c : Codec β α) (pc : Codec β M) (pos : Positions M) (pred : α → Bool) : Shader β :=
  arrayShader c pc (fun push _ => push.count) (fun push _ => push.count) fun indata flags push groups =>
    InAnyOrder (groups * 256) (flagsInvocation c pc pos pred indata flags push.count)

def scatterShader (c : Codec β α) (pc : Codec β M) (pos : Positions M) : Shader β where
  pre d := d.binding0.Holds c d.push.count ∧ d.binding1.Holds c d.push.count ∧
    ∃ b, d.binding3 = some b ∧ b.Holds pc d.push.count
  run base d m m' := ∀ b ∈ d.binding3, InAnyOrder (d.groups * 256)
    (scatterInvocation c pc pos (base + d.binding0.offset) (base + d.binding1.offset) (base + b.offset) d.push.count) m m'

variable {c : Codec β α} {pc : Codec β M} {pos : Positions M} {pred : α → Bool} {A : ArenaModel β}
  {shaders : String → Shader β} {mayFail : Prop} {s : A.State} {kernel : String}
  {input output positions count : Nat} {loaded : String → Bool} {devBase : Nat} {Q : Bool → A.State → Prop}

theorem ensures_flagsPass (found : shaders kernel = flagsShader c pc pos pred) (valid : A.Valid s)
    (hi : InBlock (A.live s) input (count * c.size)) (hp : InBlock (A.live s) positions (count * pc.size))
    (small : count < 2 ^ 32) (apart : ∀ a, c.Covers input count a → ¬ pc.Covers positions count a)
    (fail : mayFail → Q false s)
    (ok : ∀ s', Wrote A (pc.Covers positions count) s s' →
      (∀ i < count, pc.get (A.mem s') positions i =
        if pred (c.get (A.mem s) input i) then pos.ofNat 1 else pos.ofNat 0) → Q true s') :
    (dispatchReduceLevel (contextOf A loaded devBase) kernel (arrayBinding c A input count)
      (arrayBinding pc A positions count) count (groupsOf count)).Ensures (machine A shaders mayFail fun _ _ => True) Q s := by
  have whole : ((contextOf A loaded devBase).makePushBlock count : Push β).count = count := makePushBlock_count small
  have enough : count ≤ groupsOf count * 256 := by
    rw [groupsOf_eq small]
    omega
  refine ensures_arrayDispatch found valid hi hp ⟨le_of_eq whole, le_of_eq whole⟩ trivial (fun m run a dead => ?_) fail
    fun s' valid' live run => ?_
  · rw [whole] at run
    exact (flags_spec run apart enough).2 a fun h => dead (liveByte_of_covers hp h)
  · rw [whole] at run
    obtain ⟨elems, frame⟩ := flags_spec run apart enough
    exact ok s' ⟨valid', live, fun a _ out => frame a out⟩ elems

/-- What the last kernel of a compaction does once the positions are known: `effect` relates the input
and the output elements, given the flags, and only `span` elements are written. -/
structure ScatterKernel (c : Codec β α) (pc : Codec β M) (pos : Positions M) (k : Shader β)
    (span : (Nat → Bool) → Nat → Nat) (effect : (Nat → Bool) → Nat → (Nat → α) → (Nat → α) → Prop) : Prop where
  pre : ∀ d, d.binding0.Holds c d.push.count → d.binding1.Holds c d.push.count →
    (∃ b, d.binding3 = some b ∧ b.Holds pc d.push.count) → k.pre d
  run : ∀ {base d b m m' q}, k.run base d m m' → d.binding3 = some b →
    d.push = .scatter d.push.count (Nat.count (q ·) d.push.count) → d.push.count ≤ d.groups * 256 →
    (∀ i < d.push.count, pos.toNat (pc.get m (base + b.offset) i) = Nat.count (q ·) (i + 1)) →
    (∀ a, c.Covers (base + d.binding0.offset) d.push.count a → ¬ c.Covers (base + d.binding1.offset) d.push.count a) →
    (∀ a, pc.Covers (base + b.offset) d.push.count a → ¬ c.Covers (base + d.binding1.offset) d.push.count a) →
    effect q d.push.count (c.get m (base + d.binding0.offset)) (c.get m' (base + d.binding1.offset)) ∧
    ∀ a, ¬ c.Covers (base + d.binding1.offset) (span q d.push.count) a → m' a = m a

/-- The effect concerns the first `n` elements of both arrays. -/
structure ScatterEffect (span : (Nat → Bool) → Nat → Nat) (effect : (Nat → Bool) → Nat → (Nat → α) → (Nat → α) → Prop) :
    Prop where
  span_le : ∀ q n, span q n ≤ n
  congr : ∀ {q n x x' y y'}, effect q n x y → (∀ i < n, x' i = x i) → (∀ i < n, y' i = y i) → effect q n x' y'

/-- The elements that pass go to the slots that count them. -/
def SlotsFilled (q : Nat → Bool) (n : Nat) (x y : Nat → α) : Prop := ∀ i < n, q i = true → y (Nat.count (q ·) i) = x i

theorem slotsFilled_effect : ScatterEffect (α := α) (fun q n => Nat.count (q ·) n) SlotsFilled where
  span_le _ _ := Nat.count_le _
  congr h hx hy i lt pass := by
    rw [hx i lt, hy _ (lt_of_le_of_lt (Nat.count_le _) lt), h i lt pass]

theorem scatterShader_kernel : ScatterKernel c pc pos (scatterShader c pc pos) (fun q n => Nat.count (q ·) n) SlotsFilled where
  pre _ h0 h1 h3 := ⟨h0, h1, h3⟩
  run run found _ enough scanned apart places := scatter_spec (run _ found) scanned apart places enough

/-- The scatter of a partition writes every element to a slot of its own, those that pass first. -/
def Partitioned (q : Nat → Bool) (n : Nat) (x y : Nat → α) : Prop :=
  ∃ slot : Nat → Nat, (∀ i < n, slot i < n ∧ y (slot i) = x i ∧ (slot i < Nat.count (q ·) n ↔ q i = true)) ∧
    ∀ i < n, ∀ j < n, slot i = slot j → i = j

theorem partitioned_effect : ScatterEffect (α := α) (fun _ n => n) Partitioned where
  span_le _ n := Nat.le_refl n
  congr := by
    rintro q n x x' y y' ⟨slot, places, injective⟩ hx hy
    refine ⟨slot, fun i lt => ?_, injective⟩
    obtain ⟨inside, moved, front⟩ := places i lt
    exact ⟨inside, by rw [hx i lt, hy _ inside, moved], front⟩

section
variable {span : (Nat → Bool) → Nat → Nat} {effect : (Nat → Bool) → Nat → (Nat → α) → (Nat → α) → Prop}

theorem ensures_scatterPass {q : Nat → Bool} (law : ScatterEffect span effect)
    (known : ScatterKernel c pc pos (shaders kernel) span effect)
    (valid : A.Valid s) (hi : InBlock (A.live s) input (count * c.size)) (ho : InBlock (A.live s) output (count * c.size))
    (hp : InBlock (A.live s) positions (count * pc.size)) (small : count < 2 ^ 32)
    (scanned : ∀ i < count, pos.toNat (pc.get (A.mem s) positions i) = Nat.count (q ·) (i + 1))
    (apart : ∀ a, c.Covers input count a → ¬ c.Covers output count a)
    (places : ∀ a, pc.Covers positions count a → ¬ c.Covers output count a) (fail : mayFail → Q false s)
    (ok : ∀ s', Wrote A (c.Covers output (span q count)) s s' →
      effect q count (c.get (A.mem s) input) (c.get (A.mem s') output) → Q true s') :
    (dispatchScatter kernel (arrayBinding c A input count) (arrayBinding c A output count)
      (arrayBinding pc A positions count) count (groupsOf count) (Nat.count (q ·) count)).Ensures
      (machine A shaders mayFail fun _ _ => True) Q s := by
  have enough : count ≤ groupsOf count * 256 := by
    rw [groupsOf_eq small]
    omega
  have result : ∀ m, (shaders kernel).run A.base ⟨kernel, arrayBinding c A input count, arrayBinding c A output count,
      some (arrayBinding pc A positions count), .scatter count (Nat.count (q ·) count), groupsOf count⟩ (A.mem s) m →
      effect q count (c.get (A.mem s) input) (c.get m output) ∧
      ∀ a, ¬ c.Covers output (span q count) a → m a = A.mem s a := by
    intro m run
    have spec := known.run (q := q) run rfl rfl enough
    simp only [Push.count, arrayBinding_addr valid hi, arrayBinding_addr valid ho, arrayBinding_addr valid hp] at spec
    exact spec scanned apart places
  refine ensures_dispatch ⟨valid, ?_, ?_, trivial⟩ (fun m run a dead => ?_) fail fun s' valid' live run => ?_
  · exact known.pre _ (arrayBinding_holds le_rfl) (arrayBinding_holds le_rfl) ⟨_, rfl, arrayBinding_holds le_rfl⟩
  · simp [Dispatch.bindings, arrayBinding_within valid hi, arrayBinding_within valid ho, arrayBinding_within valid hp]
  · obtain ⟨-, frame⟩ := result m run
    exact frame a fun h => dead (liveByte_of_covers ho (Codec.covers_mono h (law.span_le _ _)))
  · obtain ⟨elems, frame⟩ := result _ run
    exact ok s' ⟨valid', live, fun a _ out => frame a out⟩ elems

end

/-- The elements that pass, in their order, are in front of `output`, their number is at `out_kept`,
and nothing else changed. -/
structure Compacted (hv : HostValues β) (c : Codec β α) (A : ArenaModel β) (pred : α → Bool) (input output count : Nat)
    (outKept : Option Nat) (s : A.State) (kept : Option Nat) (s' : A.State) : Prop where
  kept : kept = some (((List.range count).map (c.get (A.mem s) input)).filter pred).length
  shown : hv.Shows outKept (A.mem s') (((List.range count).map (c.get (A.mem s) input)).filter pred).length
  elements : (List.range (((List.range count).map (c.get (A.mem s) input)).filter pred).length).map
    (c.get (A.mem s') output) = ((List.range count).map (c.get (A.mem s) input)).filter pred
  valid : A.Valid s'
  live : A.live s' = A.live s
  frame : ∀ a, A.Usable (A.live s) a →
    ¬ c.Covers output (((List.range count).map (c.get (A.mem s) input)).filter pred).length a → ¬ hv.KeptAt outKept a →
    A.mem s' a = A.mem s a

theorem compacted_of_slots {hv : HostValues β} {outKept : Option Nat} {s' : A.State}
    (slots : ∀ i < count, pred (c.get (A.mem s) input i) = true →
      c.get (A.mem s') output (Nat.count (fun i => pred (c.get (A.mem s) input i) = true) i) = c.get (A.mem s) input i)
    (shown : hv.Shows outKept (A.mem s') (Nat.count (fun i => pred (c.get (A.mem s) input i) = true) count))
    (valid : A.Valid s') (live : A.live s' = A.live s)
    (frame : ∀ a, A.Usable (A.live s) a →
      ¬ c.Covers output (Nat.count (fun i => pred (c.get (A.mem s) input i) = true) count) a → ¬ hv.KeptAt outKept a →
      A.mem s' a = A.mem s a) :
    Compacted hv c A pred input output count outKept s
      (some (Nat.count (fun i => pred (c.get (A.mem s) input i) = true) count)) s' := by
  have elements := map_count count slots
  have passing : ((List.range count).map (c.get (A.mem s) input)).filter pred =
      ((List.range count).filter fun i => pred (c.get (A.mem s) input i)).map (c.get (A.mem s) input) := List.filter_map
  have number : (((List.range count).map (c.get (A.mem s) input)).filter pred).length =
      Nat.count (fun i => pred (c.get (A.mem s) input i) = true) count := by
    rw [passing, ← elements, List.length_map, List.length_range]
  exact ⟨by rw [number], by rw [number]; exact shown, by rw [number, passing, elements], valid, live,
    by rw [number]; exact frame⟩

/-- What `launch_compact` relies on, whatever kernel comes last: the kernels, and numbers that count the elements. -/
structure PositionSetup (hv : HostValues β) (c : Codec β α) (pc : Codec β M) (pos : Positions M) (pred : α → Bool)
    (shaders : String → Shader β) (loaded : String → Bool) (flagsKernel scanKernel addKernel scatterKernel : String)
    (isFloat : Bool) (count : Nat) : Prop where
  loaded : loaded flagsKernel = true ∧ loaded scanKernel = true ∧ loaded addKernel = true ∧ loaded scatterKernel = true
  flags : shaders flagsKernel = flagsShader c pc pos pred
  scan : shaders scanKernel = scanShader pc
  add : shaders addKernel = scanAddShader pc
  /-- Flags and positions are elements of the same width. -/
  size : c.size = pc.size
  wide : 4 ≤ pc.size
  exact : ∀ n ≤ count, pos.toNat (pos.ofNat n) = n
  decodes : ∀ (m : Nat → β) p, ∀ n ≤ count, pc.get m p 0 = pos.ofNat n →
    hv.toSize isFloat (if pc.size ≥ 8 then 8 else 4) (fun k => m (p + k)) = n

/-- The same with `scatter.comp` for the last kernel. -/
structure CompactSetup (hv : HostValues β) (c : Codec β α) (pc : Codec β M) (pos : Positions M) (pred : α → Bool)
    (shaders : String → Shader β) (loaded : String → Bool) (flagsKernel scanKernel addKernel scatterKernel : String)
    (isFloat : Bool) (count : Nat) : Prop extends
    PositionSetup hv c pc pos pred shaders loaded flagsKernel scanKernel addKernel scatterKernel isFloat count where
  scatter : shaders scatterKernel = scatterShader c pc pos

/-- `*out_kept` is a caller's and no part of the two arrays. -/
structure KeptApart (hv : HostValues β) (c : Codec β α) (A : ArenaModel β) (outKept : Option Nat) (input output count : Nat)
    (s : A.State) : Prop where
  owned : ∀ a, hv.KeptAt outKept a → A.Usable (A.live s) a
  input : ∀ a, c.Covers input count a → ¬ hv.KeptAt outKept a
  output : ∀ a, c.Covers output count a → ¬ hv.KeptAt outKept a

section
variable {hv : HostValues β} {flagsKernel scanKernel addKernel scatterKernel : String} {isFloat : Bool} {outKept : Option Nat}

/-- The number of elements that pass is stored, and the last kernel has done what it does to the output. -/
structure Scattered (hv : HostValues β) (c : Codec β α) (A : ArenaModel β) (pred : α → Bool) (span : (Nat → Bool) → Nat → Nat)
    (effect : (Nat → Bool) → Nat → (Nat → α) → (Nat → α) → Prop) (input output count : Nat) (outKept : Option Nat) (s : A.State)
    (kept : Option Nat) (s' : A.State) : Prop extends
    Wrote A (fun a => c.Covers output (span (fun i => pred (c.get (A.mem s) input i)) count) a ∨ hv.KeptAt outKept a) s s' where
  kept : kept = some (Nat.count (fun i => pred (c.get (A.mem s) input i) = true) count)
  shown : hv.Shows outKept (A.mem s') (Nat.count (fun i => pred (c.get (A.mem s) input i) = true) count)
  places : effect (fun i => pred (c.get (A.mem s) input i)) count (c.get (A.mem s) input) (c.get (A.mem s') output)

/-- The scanned flags count the elements that pass. -/
theorem Scanned.counts {q : Nat → Bool} {s' : A.State} (scanned : Scanned pc A positions count s s')
    (flags : ∀ i < count, pc.get (A.mem s) positions i = if q i then pos.ofNat 1 else pos.ofNat 0) {i : Nat} (lt : i < count) :
    pc.get (A.mem s') positions i = pos.ofNat (Nat.count (q ·) (i + 1)) := by
  rw [scanned.sums i lt, ← sum_flags]
  apply Finset.sum_congr rfl
  intro j hj
  have before := Finset.mem_range.mp hj
  exact flags j (by omega)

/-- The memory after `*out_kept` was set to 0 and then to `kept`. -/
def storedTwice (hv : HostValues β) (outKept : Option Nat) (kept : Nat) (m : Nat → β) : Nat → β :=
  hv.stored outKept kept (hv.stored outKept 0 m)

theorem storedTwice_outside {kept a : Nat} {m : Nat → β} (out : ¬ hv.KeptAt outKept a) : storedTwice hv outKept kept m a = m a := by
  rw [storedTwice, HostValues.stored_outside out, HostValues.stored_outside out]

/-- The same wherever `*out_kept` is: the flags see what its first store left, the last kernel what the second left. -/
structure Arranged (hv : HostValues β) (c : Codec β α) (A : ArenaModel β) (q : Nat → Bool) (span : (Nat → Bool) → Nat → Nat)
    (effect : (Nat → Bool) → Nat → (Nat → α) → (Nat → α) → Prop) (input output count : Nat) (outKept : Option Nat) (s : A.State)
    (kept : Option Nat) (s' : A.State) : Prop where
  valid : A.Valid s'
  live : A.live s' = A.live s
  frame : ∀ a, A.Usable (A.live s) a → ¬ c.Covers output (span q count) a →
    A.mem s' a = storedTwice hv outKept (Nat.count (q ·) count) (A.mem s) a
  kept : kept = some (Nat.count (q ·) count)
  places : effect q count (c.get (storedTwice hv outKept (Nat.count (q ·) count) (A.mem s)) input) (c.get (A.mem s') output)

theorem launchCompact_places {span : (Nat → Bool) → Nat → Nat} {effect : (Nat → Bool) → Nat → (Nat → α) → (Nat → α) → Prop}
    {q : Nat → Bool}
    (setup : PositionSetup hv c pc pos pred shaders loaded flagsKernel scanKernel addKernel scatterKernel isFloat count)
    (law : ScatterEffect span effect) (scatter : ScatterKernel c pc pos (shaders scatterKernel) span effect)
    (valid : A.Valid s) (hi : InBlock (A.live s) input (count * c.size)) (ho : InBlock (A.live s) output (count * c.size))
    (apart : ∀ a, c.Covers input count a → ¬ c.Covers output count a) (owned : ∀ a, hv.KeptAt outKept a → A.Usable (A.live s) a)
    (passing : ∀ i < count, pred (c.get (hv.stored outKept 0 (A.mem s)) input i) = q i) (one : 1 ≤ count) (small : count < 2 ^ 32) :
    (launchCompact hv (contextOf A loaded devBase) flagsKernel scanKernel addKernel scatterKernel input output count
      pc.size isFloat outKept).Ensures (machine A shaders mayFail fun _ _ => True)
      (fun r s' => (r.1 = false → mayFail) ∧
        (r.1 = true → Arranged hv c A q span effect input output count outKept s r.2 s')) s := by
  obtain ⟨flagsLoaded, scanLoaded, addLoaded, scatterLoaded⟩ := setup.loaded
  unfold launchCompact
  apply ensures_withArenaSync
  apply Prog.ensures_ite
  · intro missing
    exact absurd missing (by simp [contextOf, flagsLoaded, scatterLoaded])
  intro _
  refine ensures_storeKept valid owned fun s₀ valid₀ live₀ mem₀ => ?_
  refine Prog.ensures_ite (fun zero => by omega) fun _ => Prog.ensures_ite (fun no => Bool.noConfusion no) fun _ => ?_
  have lost : mayFail → ∀ k t, (pure (false, k) : Launch β _).Ensures (machine A shaders mayFail fun _ _ => True)
      (fun r s' => (r.1 = false → mayFail) ∧
        (r.1 = true → Arranged hv c A q span effect input output count outKept s r.2 s')) t :=
    fun may k t => ⟨fun _ => may, fun no => Bool.noConfusion no⟩
  have width := setup.wide
  have size := setup.size
  have bounds := hi.bounds valid
  rw [size] at bounds
  have nonempty : 0 < count * c.size := Nat.mul_pos one c.pos
  have last : (count - 1) * pc.size + pc.size = count * pc.size := by
    rw [← Nat.succ_mul, Nat.succ_eq_add_one, Nat.sub_add_cancel one]
  rw [wmul_of_lt (a := count) (by omega), wmul_of_lt (by omega), Nat.mod_eq_of_lt small]
  refine ensures_resolve valid₀ (live₀ ▸ hi) nonempty (ensures_resolve valid₀ (live₀ ▸ ho) nonempty ?_)
  rw [arrayBinding_of_size size input, arrayBinding_of_size size output]
  dsimp only [Option.elim]
  refine ensures_allocate valid₀ (by omega) (fun may s₁ _ _ _ => lost may _ s₁)
    fun positions n s₁ nonnull fits valid₁ live₁ mem₁ => ?_
  rw [if_neg nonnull]
  rw [live₀] at live₁ mem₁
  have hi₁ : InBlock (A.live s₁) input (count * c.size) := live₁ ▸ hi.cons
  have hp₁ : InBlock (A.live s₁) positions (count * pc.size) := live₁ ▸ InBlock.head fits
  have fresh : ∀ a, A.Usable (A.live s) a → ¬ pc.Covers positions count a := fun a ha covers =>
    A.head_not_usable valid₁ live₁ ⟨covers.1, Nat.lt_of_lt_of_le covers.2 (Nat.add_le_add_left fits _)⟩ ha
  have begun : ∀ a, A.Usable (A.live s) a → A.mem s₁ a = hv.stored outKept 0 (A.mem s) a := fun a ha => by rw [mem₁ a ha, mem₀]
  have passing₁ : ∀ i < count, pred (c.get (A.mem s₁) input i) = q i := fun i lt => by
    rw [← passing i lt, Codec.get_frame lt fun a ha => begun a (usable_of_covers hi ha)]
  have drop : mayFail → ∀ k t, A.Valid t → (positions, n) ∈ A.live t →
      (deallocate positions >>= fun _ => (pure (false, k) : Launch β _)).Ensures (machine A shaders mayFail fun _ _ => True)
        (fun r s' => (r.1 = false → mayFail) ∧
          (r.1 = true → Arranged hv c A q span effect input output count outKept s r.2 s')) t :=
    fun may k t valid live => ensures_deallocate valid live fun t' _ _ _ => lost may k t'
  have own₁ : (positions, n) ∈ A.live s₁ := live₁ ▸ List.mem_cons_self
  refine Prog.ensures_bind.mpr (ensures_flagsPass setup.flags valid₁ hi₁ hp₁ small
    (fun a ha => fresh a (usable_of_covers hi ha)) (fun may => drop may _ s₁ valid₁ own₁) fun s₂ wrote flags => ?_)
  rw [if_neg (by decide)]
  have own₂ : (positions, n) ∈ A.live s₂ := wrote.live ▸ own₁
  apply (launchScan_ensures scanLoaded addLoaded setup.scan setup.add count positions s₂ wrote.valid (wrote.live ▸ hp₁) small).bind
  intro ok s₃ outcome
  obtain ⟨failed, kept, scanned⟩ := outcome
  apply Prog.ensures_ite fun off => drop (failed off) _ s₃ kept.valid (kept.live _ own₂)
  intro on
  have scanned := scanned (Bool.eq_true_of_not_eq_false on)
  have live₃ : A.live s₃ = (positions, n) :: A.live s := scanned.live.trans (wrote.live.trans live₁)
  have hp₃ : InBlock (A.live s₃) positions (count * pc.size) := live₃ ▸ InBlock.head fits
  have value : ∀ i < count, pc.get (A.mem s₃) positions i = pos.ofNat (Nat.count (q ·) (i + 1)) := by
    intro i lt
    apply scanned.counts _ lt
    intro j before
    rw [flags j before, passing₁ j before]
  have mem₃ : ∀ a, A.Usable (A.live s) a → A.mem s₃ a = hv.stored outKept 0 (A.mem s) a := fun a ha => by
    have old : A.Usable (A.live s₁) a := live₁ ▸ ha.cons
    rw [scanned.frame a (wrote.live ▸ old) (fresh a ha), wrote.frame a old (fresh a ha), begun a ha]
  refine ensures_invalidate (ensures_read scanned.valid (hp₃.sub (by omega) (by split <;> omega)) ?_)
  rw [setup.decodes (A.mem s₃) _ _ (Nat.count_le _) (by
    simp only [Codec.get, Nat.zero_mul, Nat.add_zero] at value ⊢
    have := value (count - 1) (by omega)
    rw [this, Nat.sub_add_cancel one])]
  rw [Nat.mod_eq_of_lt (lt_of_le_of_lt (Nat.count_le _) small)]
  have owned₃ : ∀ a, hv.KeptAt outKept a → A.Usable (A.live s₃) a := by
    intro a ha
    rw [live₃]
    exact (owned a ha).cons
  refine ensures_storeKept scanned.valid owned₃ fun s₄ valid₄ live₄ mem₄ => ?_
  rw [live₃] at live₄
  -- The number is not stored to the positions, which are a block of their own.
  have still : ∀ i < count, pc.get (A.mem s₄) positions i = pc.get (A.mem s₃) positions i := fun i lt =>
    Codec.get_frame lt fun a ha => by rw [mem₄, HostValues.stored_outside fun here => fresh a (owned a here) ha]
  have stored : ∀ a, A.Usable (A.live s) a → A.mem s₄ a = storedTwice hv outKept (Nat.count (q ·) count) (A.mem s) a :=
    fun a ha => by rw [mem₄, storedTwice, HostValues.stored_congr (mem₃ a ha)]
  refine Prog.ensures_bind.mpr (ensures_scatterPass (q := q) law scatter valid₄ (live₄ ▸ hi.cons) (live₄ ▸ ho.cons)
    (live₄ ▸ InBlock.head fits) small
    (fun i lt => by rw [still i lt, value i lt, setup.exact _ (le_trans (Nat.count_le _) lt)]) apart
    (fun a ha h => fresh a (usable_of_covers ho h) ha) (fun may => drop may _ s₄ valid₄ (live₄ ▸ List.mem_cons_self))
    fun s₅ wrote' elems => ?_)
  rw [if_neg (by decide)]
  have live₅ := wrote'.live.trans live₄
  refine ensures_download wrote'.valid (live₅ ▸ ho.cons) nonempty
    (ensures_deallocate wrote'.valid (live₅ ▸ List.mem_cons_self) fun s₆ valid₆ live₆ mem₆ => ?_)
  rw [live₅, released_cons (A.head_fresh wrote'.valid live₅)] at live₆
  rw [live₆] at mem₆
  refine ⟨fun no => Bool.noConfusion no, fun _ => ⟨valid₆, live₆, fun a ha out => ?_, rfl, ?_⟩⟩
  · rw [mem₆ a ha, wrote'.frame a (live₄ ▸ ha.cons) out, stored a ha]
  · apply law.congr elems
    · intro i lt
      exact (Codec.get_frame lt fun a ha => stored a (usable_of_covers hi ha)).symm
    · intro i lt
      exact Codec.get_frame lt fun a ha => mem₆ a (usable_of_covers ho ha)

theorem launchCompact_scatters {span : (Nat → Bool) → Nat → Nat}
    {effect : (Nat → Bool) → Nat → (Nat → α) → (Nat → α) → Prop}
    (setup : PositionSetup hv c pc pos pred shaders loaded flagsKernel scanKernel addKernel scatterKernel isFloat count)
    (law : ScatterEffect span effect) (scatter : ScatterKernel c pc pos (shaders scatterKernel) span effect)
    (valid : A.Valid s) (hi : InBlock (A.live s) input (count * c.size)) (ho : InBlock (A.live s) output (count * c.size))
    (apart : ∀ a, c.Covers input count a → ¬ c.Covers output count a) (store : KeptApart hv c A outKept input output count s)
    (one : 1 ≤ count) (small : count < 2 ^ 32) :
    (launchCompact hv (contextOf A loaded devBase) flagsKernel scanKernel addKernel scatterKernel input output count
      pc.size isFloat outKept).Ensures (machine A shaders mayFail fun _ _ => True)
      (fun r s' => (r.1 = false → mayFail) ∧
        (r.1 = true → Scattered hv c A pred span effect input output count outKept s r.2 s')) s := by
  have passing : ∀ i < count, pred (c.get (hv.stored outKept 0 (A.mem s)) input i) = pred (c.get (A.mem s) input i) := fun i lt => by
    rw [Codec.get_frame lt fun a ha => HostValues.stored_outside (store.input a ha)]
  apply (launchCompact_places setup law scatter valid hi ho apart store.owned passing one small).mono
  rintro r s' ⟨failed, placed⟩
  refine ⟨failed, fun on => ?_⟩
  obtain ⟨valid', live, frame, kept, places⟩ := placed on
  refine ⟨⟨valid', live, fun a ha out => ?_⟩, kept, ?_, ?_⟩
  · rw [frame a ha fun h => out (Or.inl h), storedTwice_outside fun h => out (Or.inr h)]
  · refine HostValues.shows_stored.congr fun a here => frame a (store.owned a here) fun h => ?_
    exact store.output a (Codec.covers_mono h (law.span_le _ _)) here
  · refine law.congr places (fun i lt => ?_) fun _ _ => rfl
    exact (Codec.get_frame lt fun a ha => storedTwice_outside (store.input a ha)).symm

theorem launchCompact_ensures
    (setup : CompactSetup hv c pc pos pred shaders loaded flagsKernel scanKernel addKernel scatterKernel isFloat count)
    (valid : A.Valid s) (hi : InBlock (A.live s) input (count * c.size)) (ho : InBlock (A.live s) output (count * c.size))
    (apart : ∀ a, c.Covers input count a → ¬ c.Covers output count a) (store : KeptApart hv c A outKept input output count s)
    (one : 1 ≤ count) (small : count < 2 ^ 32) :
    (launchCompact hv (contextOf A loaded devBase) flagsKernel scanKernel addKernel scatterKernel input output count
      pc.size isFloat outKept).Ensures (machine A shaders mayFail fun _ _ => True)
      (fun r s' => (r.1 = false → mayFail) ∧ (r.1 = true → Compacted hv c A pred input output count outKept s r.2 s')) s := by
  have scatter : ScatterKernel c pc pos (shaders scatterKernel) (fun q n => Nat.count (q ·) n) SlotsFilled := by
    rw [setup.scatter]
    exact scatterShader_kernel
  apply (launchCompact_scatters setup.toPositionSetup slotsFilled_effect scatter valid hi ho apart store one small).mono
  rintro r s' ⟨failed, scattered⟩
  refine ⟨failed, fun on => ?_⟩
  obtain ⟨⟨valid', live, frame⟩, kept, shown, places⟩ := scattered on
  rw [kept]
  exact compacted_of_slots places shown valid' live fun a ha out other => frame a ha fun h => h.elim out other

end

/-! ### The run in which nothing fails -/

/-- The sizes of the positions and of the block sums that scan them. -/
def compactScratch (es count : Nat) : List Nat := count * es :: scanScratch es count

theorem flagsShader_runs {base : Nat} {ok : Dispatch β → Prop} {more : Prop} : (flagsShader c pc pos pred).Runs base ok more := by
  refine arrayShader_runs fun input flags push groups m => ?_
  obtain ⟨m', run⟩ := InAnyOrder.exists_run (groups * 256) (flagsInvocation c pc pos pred input flags push.count) m
  refine ⟨m', run, fun _ a _ out => ?_⟩
  obtain ⟨l, -, rfl⟩ := run
  refine runAll_frame fun i _ m => ?_
  unfold flagsInvocation
  split
  · next lt => exact Codec.put_not_covers lt out
  · rfl

theorem scatterShader_runs {base : Nat} {ok : Dispatch β → Prop} : (scatterShader c pc pos).Runs base ok False := by
  rintro d m ⟨-, -, b, bound, -⟩ -
  obtain ⟨m', run⟩ := InAnyOrder.exists_run (d.groups * 256) (scatterInvocation c pc pos (base + d.binding0.offset)
    (base + d.binding1.offset) (base + b.offset) d.push.count) m
  refine ⟨m', fun b' bound' => ?_, fun no => no.elim⟩
  obtain rfl : b = b' := Option.some.inj (bound.symm.trans bound')
  exact run

theorem launchCompact_asks {hv : HostValues β} {flagsKernel scanKernel addKernel scatterKernel : String} {isFloat : Bool}
    {outKept : Option Nat}
    (setup : CompactSetup hv c pc pos pred shaders loaded flagsKernel scanKernel addKernel scatterKernel isFloat count)
    (contains : (contextOf A loaded devBase).contains input = true ∧ (contextOf A loaded devBase).contains output = true)
    (one : 1 ≤ count) (small : count < 2 ^ 32) (fits : count * pc.size ≤ 2 ^ 62) :
    (launchCompact hv (contextOf A loaded devBase) flagsKernel scanKernel addKernel scatterKernel input output count
      pc.size isFloat outKept).Ensures (asking A shaders fun _ _ => True) (fun _ _ => True) (compactScratch pc.size count) := by
  obtain ⟨-, scanLoaded, addLoaded, -⟩ := setup.loaded
  unfold launchCompact
  apply asks_withArenaSync
  refine Prog.ensures_ite (fun _ => trivial) fun _ => asks_storeKept ?_
  refine Prog.ensures_ite (fun _ => trivial) fun _ => Prog.ensures_ite (fun no => Bool.noConfusion no) fun _ => ?_
  rw [wmul_of_lt (a := count) (by omega)]
  refine asks_resolve contains.1 (asks_resolve contains.2 ?_)
  dsimp only [Option.elim]
  refine asks_allocate (Nat.mul_pos one pc.pos) fun positions nonnull inside => ?_
  rw [if_neg nonnull]
  refine Prog.ensures_bind.mpr (asks_dispatch (by rw [setup.flags]; exact flagsShader_runs) ?_)
  rw [if_neg (by decide)]
  refine (launchScan_asks scanLoaded addLoaded setup.scan setup.add count positions (fun _ => contains_of_inArena nonnull inside)
    small fits).bind ?_
  rintro _ _ ⟨rfl, rfl⟩
  rw [if_neg (by decide)]
  refine asks_invalidate (asks_read fun last => asks_storeKept ?_)
  refine Prog.ensures_bind.mpr (asks_dispatch (by rw [setup.scatter]; exact scatterShader_runs.last) ?_)
  rw [if_neg (by decide)]
  exact asks_download contains.2 (asks_deallocate trivial)

end

def natPositions : Positions Nat := ⟨AddMonoidHom.id Nat, id⟩

def compactShaders (name : String) : Shader Nat :=
  if name = "flags" then flagsShader Codec.quad Codec.quad natPositions fun x => decide (x > 5)
  else if name = "scatter" then scatterShader Codec.quad Codec.quad natPositions
  else scanShaders name

theorem compactShaders_setup (count : Nat) : CompactSetup firstCell Codec.quad Codec.quad natPositions
    (fun x => decide (x > 5)) compactShaders (fun _ => true) "flags" "scan" "scan_add" "scatter" false count :=
  ⟨⟨⟨rfl, rfl, rfl, rfl⟩, rfl, rfl, rfl, rfl, by decide, fun _ _ => rfl, fun _ _ _ _ same => same⟩, rfl⟩

end Parallax.Launcher
