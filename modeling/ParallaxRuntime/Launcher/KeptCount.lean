import Mathlib.Data.BitVec
import ParallaxRuntime.Arena.Requested
import ParallaxRuntime.Launcher.Argminmax
import ParallaxRuntime.Launcher.Compact

/-!
# The kept count

`launch_compact` reads the number of elements that pass off the last of the positions, which are elements of the
array's own type.
-/

namespace Parallax.Launcher
open Memory Effects Arena Kernel

/-- The bytes that `launch_compact` takes the last position to have. -/
def lastWidth (es : Nat) : Nat := if es ≥ 8 then 8 else 4

theorem four_le_lastWidth (es : Nat) : 4 ≤ lastWidth es := by
  unfold lastWidth
  split <;> omega

section
variable {β α M : Type} [AddCommMonoid M] {c : Codec β α} {pc : Codec β M} {pos : Positions M} {pred : α → Bool}
  {A : ArenaModel β} {shaders : String → Shader β} {mayFail : Prop} {s s' : A.State} {input output count devBase : Nat}
  {loaded : String → Bool} {hv : HostValues β} {flagsKernel scanKernel addKernel scatterKernel : String} {isFloat : Bool}
  {outKept : Option Nat} {r : Bool × Option Nat}

/-- The kernels before the last one: flags and their scan, elements as wide as those of the array. -/
structure PositionKernels (c : Codec β α) (pc : Codec β M) (pos : Positions M) (pred : α → Bool) (shaders : String → Shader β)
    (loaded : String → Bool) (flagsKernel scanKernel addKernel scatterKernel : String) : Prop where
  loaded : loaded flagsKernel = true ∧ loaded scanKernel = true ∧ loaded addKernel = true ∧ loaded scatterKernel = true
  flags : shaders flagsKernel = flagsShader c pc pos pred
  scan : shaders scanKernel = scanShader pc
  add : shaders addKernel = scanAddShader pc
  size : c.size = pc.size

/-- The read of the last position, from scratch, and the count that comes of it. -/
def LastRead (hv : HostValues β) (pc : Codec β M) (pos : Positions M) (A : ArenaModel β) (q : Nat → Bool) (count : Nat)
    (isFloat : Bool) (r : Bool × Option Nat) (o : Op β) (t : A.State) : Prop :=
  ∃ s p s₁, (A.Allocates s (count * pc.size) 256 p s₁ ∧ p ≠ 0) ∧ (A.Valid t ∧ A.live t = A.live s₁) ∧
    (∀ i < count, pc.get (A.mem t) p i = pos.ofNat (Nat.count (q ·) (i + 1))) ∧
    o = .read (p + (count - 1) * pc.size) (lastWidth pc.size) ∧
    r.2 = some (hv.toSize isFloat (lastWidth pc.size) fun k => A.mem t (p + (count - 1) * pc.size + k))

/-- Whatever comes of the last kernel, the count stays what was read. -/
theorem compactRest_answer {step : Step (ops β) A.State} {kept p : Nat} {ctx : Context} {d : Launch β Bool} {t : A.State}
    (run : (storeKept hv outKept kept >>= fun _ => d >>= fun ok =>
      if ok = false then deallocate p >>= fun _ => pure (false, some kept)
      else ctx.download output >>= fun _ => deallocate p >>= fun _ => pure (true, some kept)).Run step t r s') :
    r.2 = some kept := by
  obtain ⟨_, _, -, run⟩ := run.of_bind
  obtain ⟨ok, _, -, run⟩ := run.of_bind
  split at run
  · obtain ⟨_, _, -, rfl, -⟩ := run.of_bind
    rfl
  · obtain ⟨_, _, -, run⟩ := run.of_bind
    obtain ⟨_, _, -, rfl, -⟩ := run.of_bind
    rfl

theorem storeKept_run {kept : Nat} {t : A.State} {x : Unit} (valid : A.Valid s)
    (run : (storeKept hv outKept kept : Launch β Unit).Run (machineStep A shaders mayFail) s x t) :
    (∀ p ∈ outKept, A.Owned s p (hv.ofSize kept).length) ∧ A.Valid t ∧ A.live t = A.live s ∧
      A.mem t = hv.stored outKept kept (A.mem s) := by
  cases outKept with
  | none =>
    obtain rfl : t = s := run.2
    exact ⟨fun p no => absurd no (by simp), valid, rfl, rfl⟩
  | some p =>
    obtain ⟨_, _, ⟨owned, rfl⟩, -, rfl⟩ := run
    refine ⟨?_, put_spec valid owned⟩
    rintro _ ⟨⟩
    exact owned

theorem performs_resolve {α : Type} {ok : α → Prop} {Q : α → Op β → A.State → Prop} {p n range : Nat} {upload : Bool}
    {f : Option Binding → Launch β α} (valid : A.Valid s) (block : InBlock (A.live s) p n) (nonempty : 0 < n)
    (h : (f (some ⟨.arena, p - A.base, some range⟩)).Performs (machineStep A shaders mayFail) ok Q s) :
    ((contextOf A loaded devBase).resolve p range upload >>= f).Performs (machineStep A shaders mayFail) ok Q s := by
  unfold Context.resolve
  rw [if_pos (contains_of_inBlock valid block nonempty)]
  exact h

theorem flagsPass_run {positions : Nat} (found : shaders flagsKernel = flagsShader c pc pos pred) (valid : A.Valid s)
    (hi : InBlock (A.live s) input (count * c.size)) (hp : InBlock (A.live s) positions (count * pc.size)) (small : count < 2 ^ 32)
    (apart : ∀ a, c.Covers input count a → ¬ pc.Covers positions count a)
    (run : (dispatchReduceLevel (contextOf A loaded devBase) flagsKernel (arrayBinding c A input count)
      (arrayBinding pc A positions count) count (groupsOf count)).Run (machineStep A shaders mayFail) s true s') :
    Wrote A (pc.Covers positions count) s s' ∧
      ∀ i < count, pc.get (A.mem s') positions i = if pred (c.get (A.mem s) input i) then pos.ofNat 1 else pos.ofNat 0 := by
  have passed : (dispatchReduceLevel (contextOf A loaded devBase) flagsKernel (arrayBinding c A input count)
      (arrayBinding pc A positions count) count (groupsOf count)).Ensures (machine A shaders mayFail fun _ _ => True)
      (fun ok t => ok = true → Wrote A (pc.Covers positions count) s t ∧
        ∀ i < count, pc.get (A.mem t) positions i = if pred (c.get (A.mem s) input i) then pos.ofNat 1 else pos.ofNat 0) s :=
    ensures_flagsPass found valid hi hp small apart (fun _ no => Bool.noConfusion no) fun t wrote values _ => ⟨wrote, values⟩
  exact passed.run run rfl

theorem launchCompact_readsLast
    (kernels : PositionKernels c pc pos pred shaders loaded flagsKernel scanKernel addKernel scatterKernel)
    (valid : A.Valid s) (hi : InBlock (A.live s) input (count * c.size)) (ho : InBlock (A.live s) output (count * c.size))
    (one : 1 ≤ count) (small : count < 2 ^ 32) :
    (launchCompact hv (contextOf A loaded devBase) flagsKernel scanKernel addKernel scatterKernel input output count
      pc.size isFloat outKept).Performs (machineStep A shaders mayFail) (fun r => r.1 = true)
      (LastRead hv pc pos A (fun i => pred (c.get (hv.stored outKept 0 (A.mem s)) input i)) count isFloat) s := by
  obtain ⟨flagsLoaded, scanLoaded, addLoaded, scatterLoaded⟩ := kernels.loaded
  have size := kernels.size
  have bounds := hi.bounds valid
  rw [size] at bounds
  have nonempty : 0 < count * c.size := Nat.mul_pos one c.pos
  have last : (count - 1) * pc.size + pc.size = count * pc.size := by
    rw [← Nat.succ_mul, Nat.succ_eq_add_one, Nat.sub_add_cancel one]
  have failed : ∀ k t, (pure (false, k) : Launch β (Bool × Option Nat)).Performs (machineStep A shaders mayFail)
      (fun r => r.1 = true) (LastRead hv pc pos A (fun i => pred (c.get (hv.stored outKept 0 (A.mem s)) input i)) count isFloat) t :=
    fun k t => Prog.performs_ret Bool.false_ne_true
  have dropped : ∀ p k t, (deallocate p >>= fun _ => (pure (false, k) : Launch β (Bool × Option Nat))).Performs
      (machineStep A shaders mayFail) (fun r => r.1 = true)
      (LastRead hv pc pos A (fun i => pred (c.get (hv.stored outKept 0 (A.mem s)) input i)) count isFloat) t :=
    fun p k t => Prog.performs_bind fun _ _ _ => failed k _
  unfold launchCompact withArenaSync
  apply Prog.performs_bind
  rintro _ s₀ ⟨_, s₁, same, -, rfl⟩
  obtain rfl : s = s₀ := Eq.symm same
  apply Prog.performs_bind_left
  · rw [if_neg (by simp [contextOf, flagsLoaded, scatterLoaded])]
    apply Prog.performs_bind
    intro _ s₀ stored
    obtain ⟨-, valid₀, live₀, mem₀⟩ := storeKept_run valid stored
    rw [if_neg (by omega), if_neg (by simp [contextOf]), wmul_of_lt (a := count) (by omega), wmul_of_lt (by omega)]
    apply performs_resolve valid₀ (live₀ ▸ hi) nonempty
    apply performs_resolve valid₀ (live₀ ▸ ho) nonempty
    rw [arrayBinding_of_size size input, arrayBinding_of_size size output]
    dsimp only [Option.elim]
    apply Prog.performs_bind
    intro positions s₁ allocated
    obtain ⟨_, _, ⟨step, -⟩, rfl, rfl⟩ := allocated
    apply Prog.performs_ite
    · intro _
      exact failed _ _
    intro nonnull
    obtain ⟨valid₁, mem₁, result⟩ := A.allocate_spec valid₀ (by omega) step
    obtain ⟨-, n, fits, live₁⟩ := result.resolve_left fun null => nonnull null.1
    rw [live₀] at live₁ mem₁
    have hi₁ : InBlock (A.live s₁) input (count * c.size) := live₁ ▸ hi.cons
    have hp₁ : InBlock (A.live s₁) positions (count * pc.size) := live₁ ▸ InBlock.head fits
    have fresh : ∀ a, c.Covers input count a → ¬ pc.Covers positions count a := fun a ha covers =>
      A.head_apart valid₁ live₁ ⟨covers.1, Nat.lt_of_lt_of_le covers.2 (Nat.add_le_add_left fits _)⟩
        (liveByte_of_covers hi ha)
    have same : ∀ i < count, c.get (A.mem s₁) input i = c.get (hv.stored outKept 0 (A.mem s)) input i := fun i lt =>
      Codec.get_frame lt fun a ha => by rw [mem₁ a (usable_of_covers hi ha), mem₀]
    apply Prog.performs_bind
    intro ok s₂ flagged
    apply Prog.performs_ite
    · intro _
      exact dropped _ _ _
    intro on
    obtain rfl := Bool.eq_true_of_not_eq_false on
    obtain ⟨wrote, flags⟩ := flagsPass_run kernels.flags valid₁ hi₁ hp₁ small fresh flagged
    apply Prog.performs_bind
    intro ok s₃ summed
    obtain ⟨-, -, scanned⟩ := (launchScan_ensures scanLoaded addLoaded kernels.scan kernels.add count positions s₂ wrote.valid
      (wrote.live ▸ hp₁) small).run summed
    apply Prog.performs_ite
    · intro _
      exact dropped _ _ _
    intro on
    have scanned := scanned (Bool.eq_true_of_not_eq_false on)
    apply Prog.performs_bind
    intro _ t unchanged
    obtain ⟨_, _, rfl, -, rfl⟩ := unchanged
    apply Prog.performs_op
    rintro r s' ⟨x, t, ⟨rfl, rfl⟩, run⟩ -
    refine ⟨s₀, positions, s₁, ⟨step, nonnull⟩, ⟨scanned.valid, scanned.live.trans wrote.live⟩, ?_, rfl, compactRest_answer run⟩
    intro i lt
    apply scanned.counts _ lt
    intro j before
    rw [flags j before, same j before]
  · rintro r t r' s' run
    obtain ⟨_, _, -, rfl, -⟩ := run.of_bind
    rfl

end

/-! ### Integers of every width -/

/-- Flags and positions as integers of `w` bytes, whose sums wrap. -/
def wordPositions (w : Nat) : Positions (BitVec (8 * w)) := ⟨Nat.castAddMonoidHom _, BitVec.toNat⟩

theorem signedOf_small {w n : Nat} {pos : 0 < w} (wide : 4 ≤ w) (small : n < 2 ^ 31) {m : Nat → UInt8} {p : Nat}
    (h : (Codec.word w pos).get m p 0 = (wordPositions w).ofNat n) : signedOf w (fun k => m (p + k)) = n := by
  have room : 2 ^ 32 ≤ 2 ^ (8 * w) := Nat.pow_le_pow_right (by decide) (by omega)
  have value : BitVec.ofNat (8 * w) (leNat w fun k => m (p + k)) = BitVec.ofNat (8 * w) n := by
    simp only [Codec.get, Nat.zero_mul, Nat.add_zero] at h
    exact h
  have exact : (BitVec.ofNat (8 * w) n).toNat = n := by
    rw [BitVec.toNat_ofNat, Nat.mod_eq_of_lt (by omega)]
  rw [signedOf, value, BitVec.toInt_eq_toNat_of_lt (by omega), exact]

section
variable {α : Type} {c : Codec UInt8 α} {w : Nat} {pos : 0 < w} {pred : α → Bool} {A : ArenaModel UInt8}
  {shaders : String → Shader UInt8} {mayFail : Prop} {input output count devBase : Nat} {loaded : String → Bool}
  {flagsKernel scanKernel addKernel scatterKernel : String} {outKept : Option Nat}

theorem PositionKernels.setup (width : w = 4 ∨ w = 8) (small : count < 2 ^ 31)
    (kernels : PositionKernels c (Codec.word w pos) (wordPositions w) pred shaders loaded flagsKernel scanKernel addKernel
      scatterKernel) :
    PositionSetup littleEndian c (Codec.word w pos) (wordPositions w) pred shaders loaded flagsKernel scanKernel addKernel
      scatterKernel false count := by
  have wide : 4 ≤ w := by omega
  have room : 2 ^ 32 ≤ 2 ^ (8 * w) := Nat.pow_le_pow_right (by decide) (by omega)
  refine ⟨kernels.loaded, kernels.flags, kernels.scan, kernels.add, kernels.size, wide, ?_, ?_⟩
  · intro n few
    exact Nat.mod_eq_of_lt (by omega)
  · intro m p n few last
    have value : ∀ u, u = w → littleEndian.toSize false u (fun k => m (p + k)) = n := by
      rintro u rfl
      simp only [littleEndian, signedOf_small wide (show n < 2 ^ 31 by omega) last, Bool.false_eq_true, if_false]
      omega
    apply value
    change (if w ≥ 8 then 8 else 4) = w
    split <;> omega

/-- What `launch_compact` reads was asked for, and what it counts when it succeeds is `n`. -/
structure KeptRight (A : ArenaModel UInt8) (shaders : String → Shader UInt8) (mayFail : Prop)
    (compact : Launch UInt8 (Bool × Option Nat)) (n : Nat) (s : A.requested.State) : Prop where
  inside : ∀ a k t, compact.Calls (machineStep A.requested shaders mayFail) s (.read a k) t →
    InBlock (A.requested.live t) a k
  kept : ∀ r s', compact.Run (machineStep A.requested shaders mayFail) s r s' → r.1 = true → r.2 = some n

/-- What starts in the first block lies in it. -/
theorem fits_head {s : A.State} (valid : A.Valid s) {b : Nat × Nat} {L : List (Nat × Nat)}
    (split : A.live s = b :: L) {a k : Nat} (start : b.1 ≤ a ∧ a < b.1 + b.2) (nonempty : 0 < k) (block : InBlock (A.live s) a k) :
    a + k ≤ b.1 + b.2 := by
  rw [split] at block
  obtain ⟨b', hb', low, high⟩ := block
  rcases List.mem_cons.mp hb' with rfl | tail
  · exact high
  · exact absurd ⟨b', tail, low, by omega⟩ (A.head_apart valid split start)

/-- A launch that succeeds on elements of 1 or 2 bytes has read past the positions. -/
theorem wide_of_keptRight {s : A.requested.State}
    (kernels : PositionKernels c (Codec.word w pos) (wordPositions w) pred shaders loaded flagsKernel scanKernel addKernel
      scatterKernel)
    (valid : A.requested.Valid s) (hi : InBlock (A.requested.live s) input (count * w))
    (ho : InBlock (A.requested.live s) output (count * w)) (one : 1 ≤ count) (small : count < 2 ^ 31) {n : Nat}
    (right : KeptRight A shaders mayFail (launchCompact littleEndian (contextOf A loaded devBase) flagsKernel scanKernel
      addKernel scatterKernel input output count w false outKept) n s)
    (ran : ∃ r s', (launchCompact littleEndian (contextOf A loaded devBase) flagsKernel scanKernel addKernel scatterKernel
      input output count w false outKept).Run (machineStep A.requested shaders mayFail) s r s' ∧ r.1 = true) : 4 ≤ w := by
  have size : c.size = w := kernels.size
  obtain ⟨r, s', run, succeeded⟩ := ran
  have read : (launchCompact littleEndian (contextOf A.requested loaded devBase) flagsKernel scanKernel addKernel scatterKernel
      input output count (Codec.word w pos).size false outKept).Performs (machineStep A.requested shaders mayFail) (fun r => r.1 = true)
      (LastRead littleEndian (Codec.word w pos) (wordPositions w) A.requested
        (fun i => pred (c.get (littleEndian.stored outKept 0 (A.requested.mem s)) input i)) count false) s :=
    launchCompact_readsLast (A := A.requested) kernels valid (size.symm ▸ hi) (size.symm ▸ ho) one (by omega)
  obtain ⟨o, t, calls, s₀, p, s₁, ⟨⟨-, asked⟩, nonnull⟩, ⟨validT, live⟩, -, rfl, -⟩ := read r s' run succeeded
  rw [if_neg nonnull] at asked
  have last : (count - 1) * w + w = count * w := by
    rw [← Nat.succ_mul, Nat.succ_eq_add_one, Nat.sub_add_cancel one]
  have most := four_le_lastWidth w
  have inside := fits_head validT (live.trans asked) ⟨Nat.le_add_right _ _, by dsimp only [Codec.word_size]; omega⟩
    (by dsimp only [Codec.word_size]; omega) (right.inside _ _ _ calls)
  dsimp only [Codec.word_size] at inside
  omega

/-- A launch that runs at all has stored to `*out_kept`, which takes as many bytes for any number. -/
theorem owned_of_run {A : ArenaModel UInt8} {s s' : A.State} {r : Bool × Option Nat} {isFloat : Bool}
    (known : loaded flagsKernel = true ∧ loaded scanKernel = true ∧ loaded addKernel = true ∧ loaded scatterKernel = true)
    (valid : A.Valid s)
    (run : (launchCompact littleEndian (contextOf A loaded devBase) flagsKernel scanKernel addKernel scatterKernel input output
      count w isFloat outKept).Run (machineStep A shaders mayFail) s r s') :
    ∀ a, littleEndian.KeptAt outKept a → A.Usable (A.live s) a := by
  obtain ⟨flagsLoaded, -, -, scatterLoaded⟩ := known
  unfold launchCompact withArenaSync at run
  obtain ⟨_, s₀, entered, run⟩ := run.of_bind
  obtain ⟨_, _, same, -, rfl⟩ := entered
  obtain rfl : s = s₀ := same.symm
  obtain ⟨_, _, run, -⟩ := run.of_bind
  rw [if_neg (by simp [contextOf, flagsLoaded, scatterLoaded])] at run
  obtain ⟨_, _, stored, -⟩ := run.of_bind
  rintro a ⟨p, n, here, low, high⟩
  exact (storeKept_run valid stored).1 p here a low high

/-- The width alone decides, whatever the elements and the test; the flags see what the first store to `*out_kept`
left of the input. -/
theorem keptRight_iff {s : A.requested.State} (width : w = 1 ∨ w = 2 ∨ w = 4 ∨ w = 8)
    (kernels : PositionKernels c (Codec.word w pos) (wordPositions w) pred shaders loaded flagsKernel scanKernel addKernel
      scatterKernel)
    (scatter : shaders scatterKernel = scatterShader c (Codec.word w pos) (wordPositions w))
    (valid : A.requested.Valid s) (hi : InBlock (A.requested.live s) input (count * w))
    (ho : InBlock (A.requested.live s) output (count * w)) (apart : ∀ a, c.Covers input count a → ¬ c.Covers output count a)
    (one : 1 ≤ count) (small : count < 2 ^ 31)
    (ran : ∃ r s', (launchCompact littleEndian (contextOf A loaded devBase) flagsKernel scanKernel addKernel scatterKernel
      input output count w false outKept).Run (machineStep A.requested shaders mayFail) s r s' ∧ r.1 = true) :
    KeptRight A shaders mayFail (launchCompact littleEndian (contextOf A loaded devBase) flagsKernel scanKernel addKernel
      scatterKernel input output count w false outKept)
      (Nat.count (fun i => pred (c.get (littleEndian.stored outKept 0 (A.requested.mem s)) input i) = true) count) s ↔ 4 ≤ w := by
  constructor
  · intro right
    exact wide_of_keptRight kernels valid hi ho one small right ran
  · intro wide
    have size : c.size = w := kernels.size
    have known : ScatterKernel c (Codec.word w pos) (wordPositions w) (shaders scatterKernel) (fun q n => Nat.count (q ·) n)
        SlotsFilled := by
      rw [scatter]
      exact scatterShader_kernel
    have owned : ∀ a, littleEndian.KeptAt outKept a → A.requested.Usable (A.requested.live s) a := by
      obtain ⟨r, s', run, succeeded⟩ := ran
      exact owned_of_run (A := A.requested) kernels.loaded valid run
    have outcome : (launchCompact littleEndian (contextOf A.requested loaded devBase) flagsKernel scanKernel addKernel
        scatterKernel input output count (Codec.word w pos).size false outKept).Ensures (machine A.requested shaders mayFail fun _ _ => True)
        (fun r s' => (r.1 = false → mayFail) ∧ (r.1 = true →
          Arranged littleEndian c A.requested (fun i => pred (c.get (littleEndian.stored outKept 0 (A.requested.mem s)) input i))
            (fun q n => Nat.count (q ·) n) SlotsFilled input output count outKept s r.2 s')) s :=
      launchCompact_places (A := A.requested) (kernels.setup (by omega) small) slotsFilled_effect known valid
        (size.symm ▸ hi) (size.symm ▸ ho) apart owned (fun _ _ => rfl) one (by omega)
    constructor
    · intro a k t calls
      exact (outcome.pre calls).2
    · intro r s' run succeeded
      exact ((outcome.run run).2 succeeded).kept

end

theorem dispatch_runs {β : Type} {A : ArenaModel β} {shaders : String → Shader β} {mayFail : Prop} {d : Dispatch β}
    {s : A.State} {m : Nat → β} (run : (shaders d.kernel).run A.base d (A.mem s) m) :
    (dispatch d).Run (machineStep A shaders mayFail) s true (A.setMem s m) :=
  ⟨true, s, ⟨Or.inl rfl, rfl⟩, (), s, rfl, true, _, Or.inl ⟨rfl, m, run, rfl⟩, (), _, rfl, rfl, rfl⟩

def wordShaders (w : Nat) (pos : 0 < w) (pred : BitVec (8 * w) → Bool) (name : String) : Shader UInt8 :=
  if name = "flags" then flagsShader (Codec.word w pos) (Codec.word w pos) (wordPositions w) pred
  else if name = "scatter" then scatterShader (Codec.word w pos) (Codec.word w pos) (wordPositions w)
  else if name = "scan" then scanShader (Codec.word w pos)
  else scanAddShader (Codec.word w pos)

theorem wordShaders_kernels {w : Nat} {pos : 0 < w} {pred : BitVec (8 * w) → Bool} :
    PositionKernels (Codec.word w pos) (Codec.word w pos) (wordPositions w) pred (wordShaders w pos pred) (fun _ => true)
      "flags" "scan" "scan_add" "scatter" := ⟨⟨rfl, rfl, rfl, rfl⟩, rfl, rfl, rfl, rfl⟩

/-- The compaction of one element of `w` bytes. -/
def compactOne (w : Nat) : Launch UInt8 (Bool × Option Nat) :=
  launchCompact littleEndian (contextOf byteArena (fun _ => true) 0) "flags" "scan" "scan_add" "scatter" 4096 8192 1 w false
    none

/-- Input and output of `w` bytes each. -/
def oneBlocks (w : Nat) (mem : Nat → UInt8) : byteArena.requested.State :=
  ((Legacy.twoBlocks, mem), [(8192, w), (4096, w)])

theorem exists_run_compactOne {w : Nat} {pos : 0 < w} {pred : BitVec (8 * w) → Bool} {mem m₁ : Nat → UInt8} {s₁ : Legacy.State}
    (small : w < 2 ^ 64) (allocated : Legacy.allocate ⟨4096, 65536⟩ Legacy.twoBlocks w 256 = (12288, s₁))
    (flagged : InAnyOrder (1 * 256)
      (flagsInvocation (Codec.word w pos) (Codec.word w pos) (wordPositions w) pred 4096 12288 1) mem m₁) :
    ∃ s', (compactOne w).Run (machineStep byteArena.requested (wordShaders w pos pred) False) (oneBlocks w mem)
      (true, some (littleEndian.toSize false (lastWidth w) fun k => m₁ (12288 + k))) s' := by
  obtain ⟨m₂, scattered⟩ := InAnyOrder.exists_run (groupsOf 1 * 256) (scatterInvocation (Codec.word w pos) (Codec.word w pos)
    (wordPositions w) (4096 + (4096 - 4096)) (4096 + (8192 - 4096)) (4096 + (12288 - 4096)) (1 % 2 ^ 32)) m₁
  have whole : wmul 1 w = w := by
    rw [wmul_of_lt (by omega), Nat.one_mul]
  have start : wmul (1 - 1) w = 0 := by
    rw [wmul_of_lt (by omega), Nat.sub_self, Nat.zero_mul]
  unfold compactOne launchCompact
  rw [whole, start]
  let s : byteArena.requested.State := oneBlocks w mem
  let asked : List (Nat × Nat) := [(12288, w), (8192, w), (4096, w)]
  let t₁ : byteArena.requested.State := ((s₁, m₁), asked)
  let t₂ : byteArena.requested.State := ((s₁, m₂), asked)
  let freed : byteArena.requested.State := ((Legacy.deallocate s₁ 12288, m₂), released asked 12288)
  let kept := littleEndian.toSize false (lastWidth w) fun k => m₁ (12288 + k)
  refine ⟨freed, (), s, rfl, ?_⟩
  refine Prog.Run.bind (a := (true, some kept)) (t := freed) ?_ ⟨(), freed, rfl, rfl, rfl⟩
  refine ⟨(12288 : Nat), ((s₁, mem), asked), ⟨⟨⟨allocated, rfl⟩, rfl⟩, Or.inl (by decide)⟩, ?_⟩
  apply Prog.Run.bind (a := true) (t := t₁)
  · have run : InAnyOrder (groupsOf 1 * 256) (flagsInvocation (Codec.word w pos) (Codec.word w pos) (wordPositions w) pred
        (4096 + (4096 - 4096)) (4096 + (12288 - 4096)) (1 % 2 ^ 32)) mem m₁ := flagged
    exact dispatch_runs run
  apply Prog.Run.bind (a := true) (t := t₁)
  · rw [launchScan]
    exact ⟨(), t₁, rfl, (), t₁, rfl, rfl, rfl⟩
  refine ⟨(), t₁, rfl, _, t₁, ⟨rfl, rfl⟩, ?_⟩
  apply Prog.Run.bind (a := true) (t := t₂)
  · have run : ∀ b ∈ some (⟨.arena, 12288 - 4096, some w⟩ : Binding), InAnyOrder (groupsOf 1 * 256)
        (scatterInvocation (Codec.word w pos) (Codec.word w pos) (wordPositions w) (4096 + (4096 - 4096)) (4096 + (8192 - 4096))
          (4096 + b.offset) (1 % 2 ^ 32)) m₁ m₂ := by
      rintro b ⟨rfl⟩
      exact scattered
    exact dispatch_runs run
  exact ⟨(), freed, ⟨⟨rfl, rfl⟩, rfl⟩, rfl, rfl⟩

/-- The byte behind the position of one element of one byte. -/
def neighbour (a : Nat) : UInt8 := if a = 12289 then 1 else 0

/-- The one element passes; the byte behind its position makes it 257. -/
theorem neighbour_counted :
    (∃ s', (compactOne 1).Run (machineStep byteArena.requested (wordShaders 1 Nat.one_pos fun x => x == 0) False)
      (oneBlocks 1 neighbour) (true, some 257) s') ∧
    ¬ KeptRight byteArena (wordShaders 1 Nat.one_pos fun x => x == 0) False (compactOne 1)
      (Nat.count (fun i => ((Codec.word 1 Nat.one_pos).get neighbour 4096 i == 0) = true) 1) (oneBlocks 1 neighbour) := by
  obtain ⟨m₁, flagged⟩ := InAnyOrder.exists_run (1 * 256) (flagsInvocation (Codec.word 1 Nat.one_pos) (Codec.word 1 Nat.one_pos)
    (wordPositions 1) (fun x => x == 0) 4096 12288 1) neighbour
  have served : (Legacy.allocate ⟨4096, 65536⟩ Legacy.twoBlocks 1 256).1 = 12288 := by decide
  generalize hfirst : Legacy.allocate ⟨4096, 65536⟩ Legacy.twoBlocks 1 256 = allocated at served
  obtain ⟨p, s₁⟩ := allocated
  obtain rfl : p = 12288 := served
  obtain ⟨elems, frame⟩ := flags_spec flagged (by
    intro a low high
    have := low.2
    have := high.1
    dsimp only [Codec.word_size] at *
    omega) (by decide)
  obtain ⟨s', run⟩ := exists_run_compactOne (by decide) hfirst flagged
  have flag : m₁ 12288 = 1 := by
    have stored := congrArg BitVec.toNat (elems 0 Nat.one_pos)
    have one : ((wordPositions 1).ofNat 1).toNat = 1 := by decide
    rw [← Codec.leNat_word, if_pos (by decide), one] at stored
    apply UInt8.toNat_inj.mp
    simpa [leNat] using stored
  have behind : ∀ a, 12289 ≤ a → m₁ a = neighbour a := by
    intro a above
    apply frame
    rintro ⟨-, high⟩
    dsimp only [Codec.word_size] at high
    omega
  have bytes : (fun k : Fin 4 => m₁ (12288 + k)) = fun k : Fin 4 => if k = 0 then 1 else neighbour (12288 + k) := by
    funext k
    split
    · next first => rw [first]; exact flag
    · next later => exact behind _ (by omega)
  have value : littleEndian.toSize false (lastWidth 1) (fun k => m₁ (12288 + k)) = 257 := by
    change littleEndian.toSize false 4 (fun k => m₁ (12288 + k)) = 257
    rw [bytes]
    decide
  rw [value] at run
  constructor
  · exact ⟨s', run⟩
  · intro right
    have kept := right.kept _ _ run rfl
    have few := Nat.count_le (p := fun i => ((Codec.word 1 Nat.one_pos).get neighbour 4096 i == 0) = true) (n := 1)
    simp only [Option.some.injEq] at kept
    omega

theorem keptRight_iff_one : KeptRight byteArena (wordShaders 4 four_bytes fun x => x == 0) False (compactOne 4)
    (Nat.count (fun i => ((Codec.word 4 four_bytes).get neighbour 4096 i == 0) = true) 1) (oneBlocks 4 neighbour) ↔ 4 ≤ 4 := by
  obtain ⟨m₁, flagged⟩ := InAnyOrder.exists_run (1 * 256) (flagsInvocation (Codec.word 4 four_bytes) (Codec.word 4 four_bytes)
    (wordPositions 4) (fun x => x == 0) 4096 12288 1) neighbour
  have served : (Legacy.allocate ⟨4096, 65536⟩ Legacy.twoBlocks 4 256).1 = 12288 := by decide
  generalize hfirst : Legacy.allocate ⟨4096, 65536⟩ Legacy.twoBlocks 4 256 = allocated at served
  obtain ⟨p, s₁⟩ := allocated
  obtain rfl : p = 12288 := served
  obtain ⟨s', run⟩ := exists_run_compactOne (by decide) hfirst flagged
  apply keptRight_iff (c := Codec.word 4 four_bytes) (s := oneBlocks 4 neighbour) (Or.inr (Or.inr (Or.inl rfl)))
    wordShaders_kernels rfl
  · refine ⟨Legacy.twoBlocks_inv, ?_⟩
    exact .cons ⟨rfl, by decide⟩ (.cons ⟨rfl, by decide⟩ .nil)
  · exact (InBlock.head (by decide)).cons
  · exact InBlock.head (by decide)
  · intro a low high
    have := low.2
    have := high.1
    dsimp only [Codec.word_size] at *
    omega
  · decide
  · decide
  · exact ⟨_, s', run, rfl⟩

end Parallax.Launcher
