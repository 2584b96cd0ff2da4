import ParallaxRuntime.Launcher.Scan

/-!
# The exclusive scan

`launch_exclusive_scan` scans the input in place and lets a generated kernel write
`out[i] = init + (i > 0 ? incl[i-1] : 0)`.
-/

namespace Parallax.Launcher
open Memory Effects Arena Kernel

section
variable {β M : Type} [AddCommMonoid M]

/-- What is known of the generated shift kernel; its initial value is pushed in bytes. -/
structure ShiftKernel (c : Codec β M) (k : Shader β) : Prop where
  pre : ∀ d, d.binding0.Holds c d.push.count → d.binding1.Holds c d.push.count → k.pre d
  run : ∀ {base d m m' init}, k.run base d m m' → d.push = .exclusive d.push.count (List.ofFn (c.enc init)) →
    d.push.count ≤ d.groups * 256 →
    (∀ a, c.Covers (base + d.binding0.offset) d.push.count a → ¬ c.Covers (base + d.binding1.offset) d.push.count a) →
    (∀ i < d.push.count, c.get m' (base + d.binding1.offset) i =
      init + if i > 0 then c.get m (base + d.binding0.offset) (i - 1) else 0) ∧
    ∀ a, ¬ c.Covers (base + d.binding1.offset) d.push.count a → m' a = m a

variable {c : Codec β M} {A : ArenaModel β} {shaders : String → Shader β} {mayFail : Prop}
  {s : A.State} {kernel : String} {input output count : Nat} {init : M} {loaded : String → Bool} {devBase : Nat}
  {Q : Bool → A.State → Prop}

theorem ensures_shiftPass (known : ShiftKernel c (shaders kernel)) (valid : A.Valid s)
    (hi : InBlock (A.live s) input (count * c.size)) (ho : InBlock (A.live s) output (count * c.size))
    (small : count < 2 ^ 32) (narrow : c.size ≤ 8) (apart : ∀ a, c.Covers input count a → ¬ c.Covers output count a)
    (fail : mayFail → Q false s)
    (ok : ∀ s', Wrote A (c.Covers output count) s s' → (∀ i < count, c.get (A.mem s') output i =
      init + if i > 0 then c.get (A.mem s) input (i - 1) else 0) → Q true s') :
    (dispatchExclusiveShift kernel (arrayBinding c A input count) (arrayBinding c A output count) count
      (some (List.ofFn (c.enc init))) c.size (groupsOf count)).Ensures (machine A shaders mayFail fun _ _ => True) Q s := by
  have positive := c.pos
  have pushed : (if c.size ≠ 0 ∧ c.size ≤ 8 then (List.ofFn (c.enc init)).take c.size else []) = List.ofFn (c.enc init) := by
    rw [if_pos ⟨by omega, narrow⟩, List.take_of_length_le (by simp)]
  have enough : count ≤ groupsOf count * 256 := by
    rw [groupsOf_eq small]
    omega
  unfold dispatchExclusiveShift
  dsimp only
  rw [pushed]
  have effect : ∀ m, (shaders kernel).run A.base ⟨kernel, arrayBinding c A input count, arrayBinding c A output count, none,
      .exclusive count (List.ofFn (c.enc init)), groupsOf count⟩ (A.mem s) m →
      (∀ i < count, c.get m output i = init + if i > 0 then c.get (A.mem s) input (i - 1) else 0) ∧
      ∀ a, ¬ c.Covers output count a → m a = A.mem s a := by
    intro m run
    have spec := known.run run rfl enough
    simp only [arrayBinding_addr valid hi, arrayBinding_addr valid ho] at spec
    exact spec apart
  apply ensures_dispatch
  · refine ⟨valid, known.pre _ (arrayBinding_holds le_rfl) (arrayBinding_holds le_rfl), ?_, trivial⟩
    simp [Dispatch.bindings, arrayBinding_within valid hi, arrayBinding_within valid ho]
  · intro m run a dead
    exact (effect m run).2 a fun h => dead (liveByte_of_covers ho h)
  · exact fail
  · intro s' valid' live run
    obtain ⟨elems, frame⟩ := effect _ run
    exact ok s' ⟨valid', live, fun a _ out => frame a out⟩ elems

/-- A run that answers true has left the sums before each element in `output`; the input is spoilt. -/
theorem launchExclusiveScan_ensures {scanKernel addKernel shiftKernel : String}
    (hasKernels : loaded scanKernel = true ∧ loaded addKernel = true ∧ loaded shiftKernel = true)
    (scanFound : shaders scanKernel = scanShader c) (addFound : shaders addKernel = scanAddShader c)
    (shift : ShiftKernel c (shaders shiftKernel)) (valid : A.Valid s)
    (hi : InBlock (A.live s) input (count * c.size)) (ho : InBlock (A.live s) output (count * c.size))
    (apart : ∀ a, c.Covers input count a → ¬ c.Covers output count a) (small : count < 2 ^ 32) (narrow : c.size ≤ 8) :
    (launchExclusiveScan (contextOf A loaded devBase) scanKernel addKernel shiftKernel input output count c.size
      (some (List.ofFn (c.enc init)))).Ensures (machine A shaders mayFail fun _ _ => True)
      (fun r s' => (r = false → mayFail) ∧ (r = true →
        Wrote A (fun a => c.Covers input count a ∨ c.Covers output count a) s s' ∧
        ∀ i < count, c.get (A.mem s') output i = init + ∑ j ∈ Finset.range i, c.get (A.mem s) input j)) s := by
  obtain ⟨scanLoaded, addLoaded, shiftLoaded⟩ := hasKernels
  unfold launchExclusiveScan
  apply ensures_withArenaSync
  refine Prog.ensures_ite (fun missing => ?_) fun _ => Prog.ensures_ite (fun zero => ?_) fun some =>
    Prog.ensures_ite (fun no => Bool.noConfusion no) fun _ => ?_
  · exact absurd missing (by simp [contextOf, shiftLoaded])
  · refine ⟨fun no => Bool.noConfusion no, fun _ => ⟨⟨valid, rfl, fun _ _ _ => rfl⟩, fun i hi => ?_⟩⟩
    omega
  · have bounds := hi.bounds valid
    have nonempty : 0 < count * c.size := Nat.mul_pos (by omega) c.pos
    -- The sums up to each element; one element is its own sum.
    have inclusive : (if count > 1 then launchScan (contextOf A loaded devBase) scanKernel addKernel input count c.size
        else pure true).Ensures (machine A shaders mayFail fun _ _ => True)
        (fun r s₁ => (r = false → mayFail) ∧ (r = true → Scanned c A input count s s₁)) s := by
      apply Prog.ensures_ite
      · intro _
        apply (launchScan_ensures scanLoaded addLoaded scanFound addFound count input s valid hi small).mono
        exact fun r s₁ post => ⟨post.1, post.2.2⟩
      intro one
      refine ⟨fun no => Bool.noConfusion no, fun _ => ⟨⟨valid, rfl, fun _ _ _ => rfl⟩, fun i hi => ?_⟩⟩
      rw [show i = 0 by omega]
      simp
    apply inclusive.bind
    rintro ok s₁ ⟨failed, scanned⟩
    refine Prog.ensures_ite (fun off => ⟨fun _ => failed off, fun no => Bool.noConfusion no⟩) fun on => ?_
    have scanned := scanned (Bool.eq_true_of_not_eq_false on)
    have hi₁ : InBlock (A.live s₁) input (count * c.size) := scanned.live ▸ hi
    have ho₁ : InBlock (A.live s₁) output (count * c.size) := scanned.live ▸ ho
    rw [wmul_of_lt (by omega), Nat.mod_eq_of_lt small]
    refine ensures_resolve scanned.valid hi₁ nonempty (ensures_resolve scanned.valid ho₁ nonempty ?_)
    apply Prog.ensures_bind.mpr
    refine ensures_shiftPass shift scanned.valid hi₁ ho₁ small narrow apart (fun may => ?_) fun s₂ wrote elems => ?_
    · exact ⟨fun _ => may, fun no => Bool.noConfusion no⟩
    · rw [if_neg (by decide)]
      refine ensures_download wrote.valid (wrote.live ▸ ho₁) nonempty ⟨fun no => Bool.noConfusion no, fun _ => ⟨?_, ?_⟩⟩
      · exact (scanned.toWrote.mono fun a => Or.inl).trans (wrote.mono fun a => Or.inr)
      · intro i lt
        rw [elems i lt]
        split
        · next later => rw [scanned.sums _ (by omega), show i - 1 + 1 = i by omega]
        · next first => rw [show i = 0 by omega, Finset.sum_range_zero]

end

end Parallax.Launcher
