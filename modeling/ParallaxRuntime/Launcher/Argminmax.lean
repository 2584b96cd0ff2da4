import ParallaxRuntime.Arena.Legacy
import ParallaxRuntime.Kernel.Extremum
import ParallaxRuntime.Launcher.Machine
import ParallaxRuntime.Memory.LittleEndian
import ParallaxRuntime.Numeric.Double

/-!
# The least and the greatest element

`launch_argminmax` over a kernel that leaves the winner of each block of 256 elements. The
array lies in a live block of the arena or in a registered buffer.
-/

namespace Parallax.Launcher
open Memory Effects Arena Kernel

/-! ### Numbers in bytes -/

/-- The integer of `w` bytes in two's complement. -/
def signedOf (w : Nat) (f : Fin w → UInt8) : Int := (BitVec.ofNat (8 * w) (leNat w f)).toInt

/-- Floats of 8 and 4 bytes, and `_Float16`. -/
def floatOf (w : Nat) (f : Fin w → UInt8) : Double :=
  (if w = 8 then FloatFormat.double else if w = 4 then FloatFormat.single else FloatFormat.half).decode (leNat w f)

/-- Memory of bytes on a little-endian host. -/
def littleEndian : HostValues UInt8 where
  uint32 := leNat 4
  ofSize n := List.ofFn fun k : Fin 8 => leBytes n k
  toSize isFloat w f := if isFloat then (floatOf w f).toSize else (signedOf w f % 2 ^ 64).toNat
  Val := Double
  asDouble isFloat w f := if isFloat then floatOf w f else .ofInt (signedOf w f)
  zero := .finite 0
  less := Double.less
  equal := Double.equal

/-! ### Buffers for memory outside of the arena -/

/-- Host memory outside of the arena, and the memory manager's buffers for it. -/
structure Registry (β : Type) where
  host : Nat → β
  handle : Nat → Nat
  content : Nat → Nat → β

/-- A new buffer for `size` cells at `p`, with a copy of them. -/
structure Registry.Registers {β : Type} (reg : Registry β) (p size : Nat) (reg' : Registry β) : Prop where
  host : reg'.host = reg.host
  fresh : reg'.handle p ≠ 0
  others : ∀ q, q ≠ p → reg'.handle q = reg.handle q
  copied : ∀ k < size, reg'.content (reg'.handle p) k = reg.host (p + k)
  kept : ∀ q, reg.handle q ≠ 0 → reg'.content (reg.handle q) = reg.content (reg.handle q)

/-- What a kernel reads through a binding. -/
def Registry.view {β : Type} (reg : Registry β) (base : Nat) (m : Nat → β) (b : Binding) : Nat → β :=
  match b.buffer with
  | .arena => fun k => m (base + b.offset + k)
  | .external h => fun k => reg.content h (b.offset + k)

/-- A kernel as a relation of what it reads at binding 0, the dispatch, and the arena's
memory before and after it. -/
abbrev BlockKernel (β : Type) := (Nat → β) → Nat → Dispatch β → (Nat → β) → (Nat → β) → Prop

section
variable {β : Type}

def Registry.shaders (reg : Registry β) (run : BlockKernel β) : String → Shader β :=
  fun _ => ⟨fun _ => True, fun base d m m' => run (reg.view base m d.binding0) base d m m'⟩

/-- The flush before a launch changes nothing: the buffers are coherent. -/
def placedStep (A : ArenaModel β) (run : BlockKernel β) (mayFail : Prop) : Step (ops β) (A.State × Registry β)
  | .getBuffer p, s, h, s' => h = s.2.handle p ∧ s' = s
  | .registerExternalBuffer p size, s, _, s' => (s'.1 = s.1 ∧ s.2.Registers p size s'.2) ∨ (mayFail ∧ s' = s)
  | o, s, x, s' => machineStep A (s.2.shaders run) mayFail o s.1 x s'.1 ∧ s'.2 = s.2

/-- The machine with buffers for arrays outside of the arena. -/
def placedMachine (A : ArenaModel β) (run : BlockKernel β) (mayFail : Prop) : Handler (ops β) (A.State × Registry β) where
  pre
    | .getBuffer _, _ | .syncBeforeKernel _, _ => True
    | .registerExternalBuffer p size, _ => p ≠ 0 ∧ 0 < size
    | .submit d, s => A.Valid s.1 ∧ ∀ b ∈ d.bindings, b.buffer = .arena → b.Within A.base (A.live s.1)
    | o, s => (machine A (s.2.shaders run) mayFail fun _ _ => True).pre o s.1
  step := placedStep A run mayFail

variable {A : ArenaModel β} {run : BlockKernel β} {mayFail : Prop} {s : A.State} {reg : Registry β} {α : Type}

theorem placed_progress (o : Op β) (s : A.State × Registry β) (h : (placedMachine A run True).pre o s) :
    ∃ x s', (placedMachine A run True).step o s x s' := by
  have arena : (machine A (s.2.shaders run) True fun _ _ => True).pre o s.1 →
      ∃ x t, machineStep A (s.2.shaders run) True o s.1 x t := machine_progress o s.1
  cases o with
  | getBuffer p => exact ⟨_, s, rfl, rfl⟩
  | registerExternalBuffer p size => exact ⟨(), s, Or.inr ⟨trivial, rfl⟩⟩
  | syncBeforeKernel p => exact ⟨(), s, rfl, rfl⟩
  | submit d => exact ⟨false, s, Or.inr ⟨rfl, trivial, rfl⟩, rfl⟩
  | _ =>
    obtain ⟨x, s', step⟩ := arena h
    exact ⟨x, (s', s.2), step, rfl⟩

theorem ensures_placed {p : Launch β α} {Q : α → A.State → Prop}
    (h : p.Ensures (machine A (reg.shaders run) mayFail fun _ _ => True) Q s) :
    p.Ensures (placedMachine A run mayFail) (fun r t => Q r t.1 ∧ t.2 = reg) (s, reg) := by
  apply Prog.Ensures.mono (Q := fun r t => ∃ s', Q r s' ∧ t = (s', reg))
  apply h.transport (R := fun s t => t = (s, reg)) _ _ rfl
  · rintro o s t rfl pre
    cases o with
    | submit d => exact ⟨pre.1, fun b hb _ => pre.2.2.1 b hb⟩
    | getBuffer p => trivial
    | registerExternalBuffer p size => exact pre.elim
    | syncBeforeKernel p => trivial
    | _ => exact pre
  · rintro o s t x ⟨s', reg'⟩ rfl pre step
    cases o with
    | getBuffer p => exact pre.elim
    | registerExternalBuffer p size => exact pre.elim
    | _ =>
      obtain ⟨step, rfl⟩ := step
      exact ⟨s', step, rfl⟩
  · rintro r t ⟨s', post, rfl⟩
    exact ⟨post, rfl⟩

end

/-! ### The kernel and its answer -/

/-- Each block's winner is stored, the value at binding 1 and the index at binding 3. -/
def StoresWinners (w : Nat) (pos : 0 < w) (input : Nat → UInt8) (base : Nat) (d : Dispatch UInt8) (m m' : Nat → UInt8) : Prop :=
  ∀ count wantMax wantLast indices, d.push = .argminmax count wantMax wantLast → d.binding3 = some indices →
    let vals := base + d.binding1.offset
    let idxs := base + indices.offset
    (∀ a, (Codec.word w pos).Covers vals d.groups a → ¬ (Codec.word 4 four_bytes).Covers idxs d.groups a) →
    (∀ b < d.groups, b * 256 < count → ∃ i,
      Best wantMax wantLast (fun i => ((Codec.word w pos).get input 0 i).toInt) (fun i => i < count ∧ i / 256 = b) i ∧
      (Codec.word w pos).get m' vals b = (Codec.word w pos).get input 0 i ∧
      (Codec.word 4 four_bytes).get m' idxs b = BitVec.ofNat 32 i) ∧
    ∀ a, ¬ (Codec.word w pos).Covers vals d.groups a → ¬ (Codec.word 4 four_bytes).Covers idxs d.groups a → m' a = m a

/-- Such a kernel can be had: there is room for all winners. -/
theorem exists_stored {w : Nat} (pos : 0 < w) (input : Nat → UInt8) (base : Nat) (d : Dispatch UInt8) (m : Nat → UInt8) :
    ∃ m', StoresWinners w pos input base d m m' := by
  by_cases winners : ∃ count wantMax wantLast indices, d.push = .argminmax count wantMax wantLast ∧ d.binding3 = some indices
  · obtain ⟨count, wantMax, wantLast, indices, push, third⟩ := winners
    have each : ∀ b, ∃ i, b * 256 < count → Best wantMax wantLast (fun i => ((Codec.word w pos).get input 0 i).toInt)
        (fun i => i < count ∧ i / 256 = b) i := by
      intro b
      by_cases inside : b * 256 < count
      · obtain ⟨i, best⟩ := exists_best (m := wantMax) (l := wantLast) (P := fun i => i < count ∧ i / 256 = b)
          (fun i => ((Codec.word w pos).get input 0 i).toInt) (fun i hi => hi.1) ⟨b * 256, inside, by omega⟩
        exact ⟨i, fun _ => best⟩
      · exact ⟨0, fun no => absurd no inside⟩
    choose winner best using each
    generalize hvals : base + d.binding1.offset = vals
    generalize hidxs : base + indices.offset = idxs
    let values := fill w vals fun b => ((Codec.word w pos).get input 0 (winner b)).toNat
    let after (a : Nat) : UInt8 := if vals ≤ a ∧ a < vals + d.groups * w then values a
      else if idxs ≤ a ∧ a < idxs + d.groups * 4 then fill 4 idxs winner a else m a
    have onVals : ∀ a, (Codec.word w pos).Covers vals d.groups a → after a = values a := fun a inVals => if_pos inVals
    have elsewhere : ∀ a, ¬ (Codec.word w pos).Covers vals d.groups a →
        after a = if idxs ≤ a ∧ a < idxs + d.groups * 4 then fill 4 idxs winner a else m a := fun a out => if_neg out
    refine ⟨after, ?_⟩
    intro count' wantMax' wantLast' indices' push' third' vals' idxs' apart
    obtain ⟨rfl, rfl, rfl⟩ := Push.argminmax.inj (push.symm.trans push')
    obtain rfl := Option.some.inj (third.symm.trans third')
    obtain rfl : vals' = vals := hvals
    obtain rfl : idxs' = idxs := hidxs
    refine ⟨fun b hb inside => ⟨winner b, best b inside, ?_, ?_⟩, fun a outVals outIdxs => ?_⟩
    · rw [Codec.get_frame hb onVals, Codec.get_fill, BitVec.ofNat_toNat, BitVec.setWidth_eq]
    · have onIdxs : ∀ a, (Codec.word 4 four_bytes).Covers idxs' d.groups a → after a = fill 4 idxs' winner a := fun a inIdxs =>
        (elsewhere a fun inVals => apart a inVals inIdxs).trans (if_pos inIdxs)
      rw [Codec.get_frame hb onIdxs, Codec.get_fill]
    · exact (elsewhere a outVals).trans (if_neg outIdxs)
  · exact ⟨m, fun count wantMax wantLast indices push third => absurd ⟨count, wantMax, wantLast, indices, push, third⟩ winners⟩

section
variable {A : ArenaModel UInt8} {run : BlockKernel UInt8} {mayFail : Prop} {s : A.State} {reg : Registry UInt8}
  {w : Nat} {pos : 0 < w} {loaded : String → Bool} {devBase data count : Nat} {wantMax wantLast : Bool} {x : Nat → Int}

/-- What the kernel reads through the binding is the array `x`. -/
def Shown (A : ArenaModel UInt8) (w : Nat) (pos : 0 < w) (count : Nat) (x : Nat → Int) (s : A.State) (reg : Registry UInt8)
    (b : Binding) : Prop :=
  (∃ data, InBlock (A.live s) data (count * w) ∧ b = ⟨.arena, data - A.base, some (count * w)⟩ ∧
    ∀ i < count, ((Codec.word w pos).get (A.mem s) data i).toInt = x i) ∨
  ∃ h, b = ⟨.external h, 0, none⟩ ∧ ∀ i < count, ((Codec.word w pos).get (reg.content h) 0 i).toInt = x i

theorem Shown.kept {s' : A.State} {b : Binding} (h : Shown A w pos count x s reg b) (kept : Kept A (fun _ => False) s s') :
    Shown A w pos count x s' reg b := by
  rcases h with ⟨data, block, rfl, elems⟩ | external
  · refine Or.inl ⟨data, kept.inBlock block, rfl, fun i hi => ?_⟩
    rw [← elems i hi, Codec.get_frame hi fun a ha => kept.frame a (usable_of_covers block ha) id]
  · exact Or.inr external

theorem Shown.view {b : Binding} (valid : A.Valid s) (h : Shown A w pos count x s reg b) {i : Nat} (hi : i < count) :
    ((Codec.word w pos).get (reg.view A.base (A.mem s) b) 0 i).toInt = x i := by
  rcases h with ⟨data, block, rfl, elems⟩ | ⟨h, rfl, elems⟩
  · have bounds := block.bounds valid
    rw [← elems i hi]
    congr 1
    apply Codec.get_congr
    intro k hk
    simp only [Registry.view]
    congr 1
    omega
  · simpa [Registry.view] using elems i hi

/-! ### The host loop over the winners -/

/-- The state of the loop once the winners in `P` are seen. -/
def Leading (count : Nat) (wantMax wantLast : Bool) (x : Nat → Int) (P : Nat → Prop) (best : Nat) (val : Double) : Prop :=
  (best = count ∧ ∀ i, ¬ P i) ∨
  (best < count ∧ val = .ofInt (x best) ∧ Best wantMax wantLast (fun i => Rounding.roundInt 53 (x i)) P best)

theorem Leading.step {P : Nat → Prop} {best cand : Nat} {val v : Double} (h : Leading count wantMax wantLast x P best val)
    (inside : cand < count) (value : v = .ofInt (x cand)) :
    (best = count ∨ (if wantMax then val.less v else v.less val) ∨
      (v.equal val ∧ if wantLast then cand > best else cand < best) →
        Leading count wantMax wantLast x (fun i => P i ∨ i = cand) cand v) ∧
    (¬ (best = count ∨ (if wantMax then val.less v else v.less val) ∨
      (v.equal val ∧ if wantLast then cand > best else cand < best)) →
        Leading count wantMax wantLast x (fun i => P i ∨ i = cand) best val) := by
  rcases h with ⟨rfl, none⟩ | ⟨before, rfl, leader⟩
  · have only : Best wantMax wantLast (fun i => Rounding.roundInt 53 (x i)) (fun i => P i ∨ i = cand) cand :=
      ⟨Or.inr rfl, fun j hj ne => absurd (hj.resolve_left (none j)) ne⟩
    exact ⟨fun _ => Or.inr ⟨inside, value, only⟩, fun no => absurd (Or.inl rfl) no⟩
  · have insert := leader.insert cand
    have same : (best = count ∨ (if wantMax then (Double.ofInt (x best)).less v else v.less (.ofInt (x best))) ∨
        (v.equal (.ofInt (x best)) ∧ if wantLast then cand > best else cand < best)) ↔
        Beats wantMax wantLast (fun i => Rounding.roundInt 53 (x i)) cand best := by
      have ne : best ≠ count := Nat.ne_of_lt before
      rw [value]
      cases wantMax <;> cases wantLast <;> simp [Beats, Ahead, ne]
    rw [same]
    constructor
    · intro better
      rw [if_pos better] at insert
      exact Or.inr ⟨inside, value, insert⟩
    · intro worse
      rw [if_neg worse] at insert
      exact Or.inr ⟨before, rfl, insert⟩

theorem combineWinners_ensures {shaders : String → Shader UInt8} {check : Dispatch UInt8 → A.State → Prop}
    {vals idxs groups : Nat} (winner : Nat → Nat) (valid : A.Valid s) (hvals : InBlock (A.live s) vals (groups * w))
    (hidxs : InBlock (A.live s) idxs (groups * 4))
    (stored : ∀ b < groups, winner b < count ∧ leNat 4 (fun k => A.mem s (idxs + b * 4 + k)) = winner b ∧
      signedOf w (fun k => A.mem s (vals + b * w + k)) = x (winner b))
    {blocks : List Nat} (within : ∀ b ∈ blocks, b < groups) {P : Nat → Prop} {best : Nat} {val : littleEndian.Val}
    (h : Leading count wantMax wantLast x P best val) :
    (combineWinners littleEndian vals idxs count w false wantMax wantLast blocks best val).Ensures
      (machine A shaders mayFail check)
      (fun r s' => s' = s ∧ ∃ v, Leading count wantMax wantLast x (fun i => P i ∨ ∃ b ∈ blocks, i = winner b) r v) s := by
  induction blocks generalizing P best val with
  | nil =>
    refine ⟨rfl, val, ?_⟩
    simpa using h
  | cons b blocks ih =>
    have hb := within b List.mem_cons_self
    obtain ⟨inside, index, value⟩ := stored b hb
    have bytes : b * w + w ≤ groups * w := by
      calc b * w + w = (b + 1) * w := (Nat.succ_mul b w).symm
        _ ≤ groups * w := Nat.mul_le_mul_right w hb
    have next : (fun i => (P i ∨ i = winner b) ∨ ∃ b' ∈ blocks, i = winner b') =
        fun i => P i ∨ ∃ b' ∈ b :: blocks, i = winner b' := by
      funext i
      simp [or_assoc]
    have step := h.step inside (congrArg Double.ofInt value)
    have rest := fun b' hb' => within b' (List.mem_cons_of_mem b hb')
    rw [combineWinners]
    apply ensures_read valid (hidxs.sub (by omega) (by omega))
    simp only [littleEndian, index]
    rw [if_neg (Nat.not_le_of_lt inside)]
    apply ensures_read valid (hvals.sub (by omega) (by omega))
    apply Prog.ensures_ite
    · intro better
      rw [← next]
      exact ih rest (step.1 better)
    intro worse
    rw [← next]
    exact ih rest (step.2 worse)

/-! ### The launch -/

/-- The array is in a live block, or elsewhere. A buffer that it has already holds it. -/
structure Placed (ctx : Context) (A : ArenaModel UInt8) (w : Nat) (pos : 0 < w) (s : A.State × Registry UInt8)
    (data count : Nat) : Prop where
  valid : A.Valid s.1
  inside : ctx.contains data = true → InBlock (A.live s.1) data (count * w)
  outside : ctx.contains data = false → data ≠ 0 ∧ (s.2.handle data ≠ 0 → ∀ i < count,
    (Codec.word w pos).get (s.2.content (s.2.handle data)) 0 i = (Codec.word w pos).get s.2.host data i)

/-- The elements of the caller's array. -/
def callerElements (ctx : Context) (A : ArenaModel UInt8) (w : Nat) (pos : 0 < w) (s : A.State × Registry UInt8)
    (data i : Nat) : Int :=
  ((Codec.word w pos).get (if ctx.contains data then A.mem s.1 else s.2.host) data i).toInt

theorem ensures_registered (placed : Placed (contextOf A loaded devBase) A w pos (s, reg) data count) (nonempty : 0 < count)
    (outside : (contextOf A loaded devBase).contains data = false) :
    (if reg.handle data = 0 then do registerExternalBuffer data (count * w); getBuffer data
      else pure (reg.handle data) : Launch UInt8 Nat).Ensures (placedMachine A run mayFail)
      (fun h t => t.1 = s ∧ (h = 0 → mayFail) ∧ (h ≠ 0 → ∀ i < count,
        (Codec.word w pos).get (t.2.content h) 0 i = (Codec.word w pos).get reg.host data i)) (s, reg) := by
  obtain ⟨nonnull, holds⟩ := placed.outside outside
  apply Prog.ensures_ite
  · intro unknown
    refine ⟨⟨nonnull, Nat.mul_pos nonempty pos⟩, fun _ t made => ⟨trivial, fun h t' ⟨asked, same⟩ => ?_⟩⟩
    obtain rfl : t' = t := same
    obtain rfl : h = t'.2.handle data := asked
    rcases made with ⟨arena, new⟩ | ⟨may, same⟩
    · refine ⟨arena, fun null => absurd null new.fresh, fun _ i hi => ?_⟩
      apply Codec.get_congr
      intro k hk
      have := Codec.elem_le (c := Codec.word w pos) hi
      simp only [Codec.word_size] at *
      simpa [Nat.add_assoc] using new.copied (i * w + k) (by omega)
    · obtain rfl : t' = (s, reg) := same
      exact ⟨rfl, fun _ => may, fun some => absurd unknown some⟩
  intro known
  exact ⟨rfl, fun null => absurd null known, fun some => holds some⟩

theorem ensures_placed_resolve (placed : Placed (contextOf A loaded devBase) A w pos (s, reg) data count)
    (nonempty : 0 < count) :
    ((contextOf A loaded devBase).resolve data (count * w) true).Ensures (placedMachine A run mayFail)
      (fun b t => t.1 = s ∧ (b = none → mayFail) ∧ ∀ b', b = some b' →
        Shown A w pos count (callerElements (contextOf A loaded devBase) A w pos (s, reg) data) s t.2 b') (s, reg) := by
  unfold Context.resolve
  apply Prog.ensures_ite
  · intro inArena
    refine ⟨rfl, fun no => Option.some_ne_none _ no |>.elim, fun b' same => ?_⟩
    obtain rfl := Option.some.inj same
    refine Or.inl ⟨data, placed.inside inArena, rfl, fun i _ => ?_⟩
    simp [callerElements, inArena]
  intro outside
  have outArena : (contextOf A loaded devBase).contains data = false := by simpa using outside
  refine Prog.ensures_op_bind.mpr ⟨trivial, fun known t ⟨asked, same⟩ => ?_⟩
  obtain rfl : t = (s, reg) := same
  obtain rfl : known = reg.handle data := asked
  apply (ensures_registered placed nonempty outArena).bind
  intro h t ⟨arena, failed, shows⟩
  refine Prog.ensures_ite (fun null => ⟨arena, fun _ => failed null, fun b' no => Option.some_ne_none b' no.symm |>.elim⟩)
    fun nonnull => ⟨trivial, fun _ t' ⟨same, kept⟩ => ?_⟩
  obtain rfl : t' = t := Prod.ext same kept
  refine ⟨arena, fun no => Option.some_ne_none _ no |>.elim, fun b' same => ?_⟩
  obtain rfl := Option.some.inj same
  refine Or.inr ⟨h, rfl, fun i hi => ?_⟩
  simp [callerElements, outArena, shows nonnull i hi]

theorem ensures_placed_dispatch {d : Dispatch UInt8} {Q : Bool → A.State × Registry UInt8 → Prop} (valid : A.Valid s)
    (within : ∀ b ∈ d.bindings, b.buffer = .arena → b.Within A.base (A.live s))
    (inside : ∀ m, run (reg.view A.base (A.mem s) d.binding0) A.base d (A.mem s) m → ∀ a, ¬ LiveByte (A.live s) a → m a = A.mem s a)
    (fail : mayFail → Q false (s, reg))
    (ok : ∀ s', A.Valid s' → A.live s' = A.live s →
      run (reg.view A.base (A.mem s) d.binding0) A.base d (A.mem s) (A.mem s') → Q true (s', reg)) :
    (dispatch d).Ensures (placedMachine A run mayFail) Q (s, reg) := by
  refine Prog.ensures_op_bind.mpr ⟨trivial, fun (set : Bool) t₁ ⟨⟨made, same⟩, kept⟩ => ?_⟩
  obtain rfl : t₁ = (s, reg) := Prod.ext same kept
  refine Prog.ensures_ite (fun off => fail (made.resolve_left ?_)) fun _ => ⟨trivial, fun _ t₂ ⟨same, kept⟩ => ?_⟩
  · rw [off]
    exact Bool.false_ne_true
  · obtain rfl : t₂ = (s, reg) := Prod.ext same kept
    refine ⟨⟨valid, within⟩, fun submitted t₃ ⟨step, kept⟩ => ?_⟩
    rcases step with ⟨done, m, wrote, same⟩ | ⟨lost, may, same⟩
    · obtain rfl : submitted = true := done
      refine ⟨trivial, fun _ t₄ ⟨same', kept'⟩ => ?_⟩
      obtain rfl : t₄ = (A.setMem s m, reg) := Prod.ext (same'.trans same) (kept'.trans kept)
      obtain ⟨valid', live, mem⟩ := A.write_spec valid fun a own => inside m wrote a fun live => own live.usable
      exact ok _ valid' live (by rw [mem]; exact wrote)
    · obtain rfl : submitted = false := lost
      obtain rfl : t₃ = (s, reg) := Prod.ext same kept
      exact fail may

theorem ensures_placed_allocate {α : Type} {Q : α → A.State × Registry UInt8 → Prop} {size : Nat} {f : Nat → Launch UInt8 α}
    (valid : A.Valid s) (small : size ≤ 2 ^ 62)
    (null : mayFail → ∀ s', A.Valid s' → (f 0).Ensures (placedMachine A run mayFail) Q (s', reg))
    (ok : ∀ p n s', p ≠ 0 → size ≤ n → A.Valid s' → A.live s' = (p, n) :: A.live s →
      (∀ a, A.Usable (A.live s) a → A.mem s' a = A.mem s a) → (f p).Ensures (placedMachine A run mayFail) Q (s', reg)) :
    (allocate size 256 >>= f).Ensures (placedMachine A run mayFail) Q (s, reg) := by
  refine ⟨⟨valid, small, rfl⟩, fun p ⟨s', reg'⟩ ⟨step, kept⟩ => ?_⟩
  obtain rfl : reg' = reg := kept
  obtain ⟨valid', same, result⟩ := A.allocate_spec valid small step.1
  rcases result with ⟨zero, live⟩ | ⟨nonnull, n, fits, live⟩
  · obtain rfl : p = (0 : Nat) := zero
    exact null (step.2.resolve_left fun no => no rfl) _ valid'
  · exact ok p n _ nonnull fits valid' live same

theorem ensures_placed_withArenaSync {α : Type} {Q : α → A.State × Registry UInt8 → Prop} {body : Launch UInt8 α}
    {t : A.State × Registry UInt8} (h : body.Ensures (placedMachine A run mayFail) Q t) :
    (withArenaSync body).Ensures (placedMachine A run mayFail) Q t := by
  refine Prog.ensures_op_bind.mpr ⟨trivial, fun _ t₁ ⟨same, kept⟩ => ?_⟩
  obtain rfl : t₁ = t := Prod.ext same kept
  apply h.bind
  intro r t₂ post
  refine ⟨trivial, fun _ t₃ ⟨same, kept⟩ => ?_⟩
  obtain rfl : t₃ = t₂ := Prod.ext same kept
  exact post

/-- The index returned is the best exactly if rounding keeps the extremum apart. -/
def Answers (wantMax wantLast : Bool) (x : Nat → Int) (count r : Nat) : Prop :=
  Best wantMax wantLast x (· < count) r ↔ Told wantMax wantLast x (Rounding.roundInt 53) (· < count) (· / 256)

theorem answers_single : Answers wantMax wantLast x 1 0 := by
  constructor
  · intro _ e i he hi _ _
    obtain rfl : i = e := by omega
    exact ⟨i, hi, rfl, ahead_irrefl⟩
  · intro _
    exact ⟨Nat.one_pos, fun j hj ne => absurd (by omega) ne⟩

/-- The best of the winners of all blocks. -/
theorem answers_of_leading {winner : Nat → Nat} {groups r : Nat} {v : Double} (some : 0 < count)
    (all : groups = (count + 255) / 256)
    (winners : ∀ b < groups, Best wantMax wantLast x (fun i => i < count ∧ i / 256 = b) (winner b))
    (h : Leading count wantMax wantLast x (fun i => False ∨ ∃ b ∈ List.range groups, i = winner b) r v) :
    r < count ∧ Answers wantMax wantLast x count r := by
  have covered : ∀ i < count, i / 256 < groups := by
    intro i hi
    omega
  rcases h with ⟨_, none⟩ | ⟨inside, _, leader⟩
  · exact absurd (Or.inr ⟨0, List.mem_range.mpr (by omega), rfl⟩) (none (winner 0))
  · refine ⟨inside, ?_⟩
    obtain ⟨b, hb, same⟩ := leader.1.resolve_left id
    obtain ⟨low, block⟩ := (winners b (List.mem_range.mp hb)).1
    have best : Best wantMax wantLast (fun i => Rounding.roundInt 53 (x i)) (fun i => ∃ j < count, i = winner (j / 256)) r := by
      apply leader.mono
      · intro i ⟨j, hj, won⟩
        exact Or.inr ⟨_, List.mem_range.mpr (covered j hj), won⟩
      · exact ⟨winner b, low, by rw [block, same]⟩
    exact best_iff_told (fun _ _ => Rounding.roundInt_mono (by decide)) (fun _ _ => Nat.div_le_div_right)
      (fun i hi => winners _ (covered i hi)) best (exists_best x (fun _ => id) ⟨0, some⟩)

theorem StoresWinners.read {input m m' : Nat → UInt8} {d : Dispatch UInt8} {indices : Binding} {vals idxs : Nat}
    (h : StoresWinners w pos input A.base d m m') (push : d.push = .argminmax count wantMax wantLast)
    (third : d.binding3 = some indices) (atVals : A.base + d.binding1.offset = vals) (atIdxs : A.base + indices.offset = idxs)
    (groups : d.groups = (count + 255) / 256) (small : count < 2 ^ 32)
    (apart : ∀ a, (Codec.word w pos).Covers vals d.groups a → ¬ (Codec.word 4 four_bytes).Covers idxs d.groups a)
    (shown : ∀ i < count, ((Codec.word w pos).get input 0 i).toInt = x i) :
    (∀ a, ¬ (Codec.word w pos).Covers vals d.groups a → ¬ (Codec.word 4 four_bytes).Covers idxs d.groups a → m' a = m a) ∧
    ∃ winner : Nat → Nat, ∀ b < d.groups, Best wantMax wantLast x (fun i => i < count ∧ i / 256 = b) (winner b) ∧
      leNat 4 (fun k => m' (idxs + b * 4 + k)) = winner b ∧ signedOf w (fun k => m' (vals + b * w + k)) = x (winner b) := by
  subst atVals atIdxs
  obtain ⟨stored, frame⟩ := h count wantMax wantLast indices push third apart
  refine ⟨frame, ?_⟩
  have each : ∀ b, ∃ i, b < d.groups → Best wantMax wantLast x (fun i => i < count ∧ i / 256 = b) i ∧
      leNat 4 (fun k => m' (A.base + indices.offset + b * 4 + k)) = i ∧
      signedOf w (fun k => m' (A.base + d.binding1.offset + b * w + k)) = x i := by
    intro b
    by_cases hb : b < d.groups
    · obtain ⟨i, best, value, index⟩ := stored b hb (by omega)
      have inside := best.1.1
      refine ⟨i, fun _ => ⟨best.congr fun j hj => shown j hj.1, ?_, ?_⟩⟩
      · rw [Codec.leNat_word (by decide), index, BitVec.toNat_ofNat, Nat.mod_eq_of_lt (by omega)]
      · rw [← shown i inside, ← value]
        rfl
    · exact ⟨0, fun no => absurd no hb⟩
  choose winner stored using each
  exact ⟨winner, stored⟩

theorem ensures_combine {shaders : String → Shader UInt8} {check : Dispatch UInt8 → A.State → Prop} {L : List (Nat × Nat)}
    {vals idxs n₁ n₂ groups : Nat} {winner : Nat → Nat} (valid : A.Valid s)
    (live : A.live s = (idxs, n₂) :: (vals, n₁) :: L) (fits₁ : groups * w ≤ n₁) (fits₂ : groups * 4 ≤ n₂)
    (nonempty : 0 < count) (all : groups = (count + 255) / 256)
    (stored : ∀ b < groups, Best wantMax wantLast x (fun i => i < count ∧ i / 256 = b) (winner b) ∧
      leNat 4 (fun k => A.mem s (idxs + b * 4 + k)) = winner b ∧
      signedOf w (fun k => A.mem s (vals + b * w + k)) = x (winner b)) :
    (do
      invalidateFromDevice
      let best ← combineWinners littleEndian vals idxs count w false wantMax wantLast (List.range groups) count littleEndian.zero
      deallocate vals
      deallocate idxs
      pure (if best = count then 0 else best)).Ensures (machine A shaders mayFail check)
      (fun r _ => Answers wantMax wantLast x count r) s := by
  apply ensures_invalidate
  apply (combineWinners_ensures winner (P := fun _ => False) valid (live ▸ (InBlock.head fits₁).cons)
    (live ▸ InBlock.head fits₂) (fun b hb => ⟨(stored b hb).1.1.1, (stored b hb).2⟩)
    (fun b hb => List.mem_range.mp hb) (Or.inl ⟨rfl, fun _ => id⟩)).bind
  rintro r s' ⟨rfl, v, leading⟩
  obtain ⟨inside, answers⟩ := answers_of_leading nonempty all (fun b hb => (stored b hb).1) leading
  have apart : idxs ≠ vals := fun same => A.head_fresh valid live _ List.mem_cons_self same.symm
  apply ensures_deallocate valid (live ▸ List.mem_cons_of_mem _ List.mem_cons_self)
  intro s₁ valid₁ live₁ _
  rw [live, released_cons_of_ne apart] at live₁
  apply ensures_deallocate valid₁ (live₁ ▸ List.mem_cons_self)
  intro s₂ _ _ _
  rw [if_neg (Nat.ne_of_lt inside)]
  exact answers

theorem launchArgminmax_ensures {kernel : String} (width : w ∈ [1, 2, 4, 8])
    (stores : ∀ input base d m m', run input base d m m' → StoresWinners w pos input base d m m')
    (known : loaded kernel = true) (placed : Placed (contextOf A loaded devBase) A w pos (s, reg) data count)
    (nonempty : 1 ≤ count) (small : count < 2 ^ 32) :
    (launchArgminmax littleEndian (contextOf A loaded devBase) kernel data count w false wantMax wantLast).Ensures
      (placedMachine A run mayFail)
      (fun r _ => mayFail ∨ Answers wantMax wantLast (callerElements (contextOf A loaded devBase) A w pos (s, reg) data) count r)
      (s, reg) := by
  unfold launchArgminmax
  apply ensures_placed_withArenaSync
  refine Prog.ensures_ite (fun missing => ?_) fun _ => Prog.ensures_ite (fun zero => by omega) fun _ =>
    Prog.ensures_ite (fun one => ?_) fun many => Prog.ensures_ite (fun no => Bool.noConfusion no) fun _ => ?_
  · exact absurd missing (by simp [contextOf, known])
  · subst one
    exact Or.inr answers_single
  have narrow : w ≤ 8 := by
    simp only [List.mem_cons, List.not_mem_nil, or_false] at width
    omega
  have span : count * w ≤ 2 ^ 32 * 8 := Nat.mul_le_mul small.le narrow
  have part : (count + 255) / 256 * w ≤ count * w := Nat.mul_le_mul_right _ (by omega)
  dsimp only
  rw [groupsOf_eq small, wmul_of_lt (by omega), wmul_of_lt (by omega), wmul_of_lt (by omega)]
  generalize hg : (count + 255) / 256 = groups at *
  generalize hx : callerElements (contextOf A loaded devBase) A w pos (s, reg) data = x at *
  apply (ensures_placed_resolve placed (by omega)).bind
  rintro bound ⟨s₁, reg₁⟩ ⟨same, failed, shown⟩
  obtain rfl : s₁ = s := same
  have valid : A.Valid s₁ := placed.valid
  cases bound with
  | none => exact Or.inl (failed rfl)
  | some binding =>
    have shown := shown binding rfl
    rw [hx] at shown
    apply ensures_placed_allocate valid (by omega)
    · -- The second allocation is made even if the first failed.
      intro may s₂ valid₂
      apply ensures_placed_allocate valid₂ (by omega)
      · intro _ s₃ _
        exact Prog.ensures_ite (fun _ => Or.inl may) fun some => absurd (Or.inl rfl) some
      · intro p n s₃ _ _ _ _ _
        exact Prog.ensures_ite (fun _ => Or.inl may) fun some => absurd (Or.inl rfl) some
    · intro vals n₁ s₂ valsNonnull fits₁ valid₂ live₂ mem₂
      apply ensures_placed_allocate valid₂ (by omega)
      · intro may s₃ _
        exact Prog.ensures_ite (fun _ => Or.inl may) fun some => absurd (Or.inr rfl) some
      · intro idxs n₂ s₃ idxsNonnull fits₂ valid₃ live₃ mem₃
        refine Prog.ensures_ite (fun null => absurd null (by simp [valsNonnull, idxsNonnull])) fun _ => ?_
        have live : A.live s₃ = (idxs, n₂) :: (vals, n₁) :: A.live s₁ := live₃.trans (by rw [live₂])
        have hvals : InBlock (A.live s₃) vals (groups * w) := live ▸ (InBlock.head fits₁).cons
        have hidxs : InBlock (A.live s₃) idxs (groups * 4) := live ▸ InBlock.head fits₂
        have kept := (Kept.of_cons (D := fun _ => False) valid₂ live₂ mem₂).trans
          (Kept.of_cons (D := fun _ => False) valid₃ live₃ mem₃) fun _ _ no => no
        have shown₃ := shown.kept kept
        have atVals := arrayBinding_addr (c := Codec.word w pos) valid₃ hvals
        have atIdxs := arrayBinding_addr (c := Codec.word 4 four_bytes) valid₃ hidxs
        have apart : ∀ a, (Codec.word w pos).Covers vals groups a → ¬ (Codec.word 4 four_bytes).Covers idxs groups a := by
          intro a inVals inIdxs
          apply A.head_apart valid₃ live ⟨inIdxs.1, Nat.lt_of_lt_of_le inIdxs.2 (Nat.add_le_add_left fits₂ _)⟩
          exact (InBlock.head fits₁).liveByte inVals.1 inVals.2
        rw [Nat.mod_eq_of_lt small]
        have reads := fun m wrote => (stores _ _ ⟨kernel, binding, arrayBinding (Codec.word w pos) A vals groups,
          some (arrayBinding (Codec.word 4 four_bytes) A idxs groups), .argminmax count wantMax wantLast, groups⟩ (A.mem s₃) m
          wrote).read rfl rfl atVals atIdxs hg.symm small apart fun i hi => shown₃.view valid₃ hi
        apply Prog.Ensures.bind (R := fun ok t => (ok = false → mayFail) ∧ (ok = true → t.2 = reg₁ ∧ A.Valid t.1 ∧
          A.live t.1 = A.live s₃ ∧ ∃ winner : Nat → Nat, ∀ b < groups,
            Best wantMax wantLast x (fun i => i < count ∧ i / 256 = b) (winner b) ∧
            leNat 4 (fun k => A.mem t.1 (idxs + b * 4 + k)) = winner b ∧
            signedOf w (fun k => A.mem t.1 (vals + b * w + k)) = x (winner b)))
        · apply ensures_placed_dispatch valid₃
          · intro b hb external
            rcases List.mem_cons.mp hb with rfl | hb
            · rcases shown₃ with ⟨p, block, rfl, _⟩ | ⟨h, rfl, _⟩
              · exact arrayBinding_within (c := Codec.word w pos) valid₃ block
              · exact absurd external (by simp)
            · rcases List.mem_cons.mp hb with rfl | hb
              · exact arrayBinding_within (c := Codec.word w pos) valid₃ hvals
              · obtain rfl := List.mem_singleton.mp hb
                exact arrayBinding_within (c := Codec.word 4 four_bytes) valid₃ hidxs
          · intro m wrote a dead
            exact (reads m wrote).1 a (fun inVals => dead (hvals.liveByte inVals.1 inVals.2))
              fun inIdxs => dead (hidxs.liveByte inIdxs.1 inIdxs.2)
          · exact fun may => ⟨fun _ => may, fun no => Bool.noConfusion no⟩
          · intro s₄ valid₄ live₄ wrote
            exact ⟨fun no => Bool.noConfusion no, fun _ => ⟨rfl, valid₄, live₄, (reads _ wrote).2⟩⟩
        · rintro ok ⟨s₄, reg₄⟩ ⟨failed, done⟩
          refine Prog.ensures_ite (fun off => Or.inl (failed off)) fun on => ?_
          obtain ⟨same, valid₄, live₄, winner, stored⟩ := done (by simpa using on)
          obtain rfl : reg₄ = reg₁ := same
          apply (ensures_placed (ensures_combine valid₄ (live₄.trans live) fits₁ fits₂ nonempty hg.symm stored)).mono
          intro r t answers
          exact Or.inr answers.1

/-- `launch_argminmax` always comes back, and when nothing fails its answer is the extremum,
the first or the last of several, exactly if the conversion to `double` keeps the extremum
apart from every element of a block that is looked at before it. -/
theorem launchArgminmax_right_iff {kernel : String} (width : w ∈ [1, 2, 4, 8])
    (stores : ∀ input base d m m', run input base d m m' → StoresWinners w pos input base d m m')
    (known : loaded kernel = true) (placed : Placed (contextOf A loaded devBase) A w pos (s, reg) data count)
    (nonempty : 1 ≤ count) (small : count < 2 ^ 32) :
    (∃ r t, (launchArgminmax littleEndian (contextOf A loaded devBase) kernel data count w false wantMax wantLast).Run
      (placedStep A run True) (s, reg) r t) ∧
    ∀ r t, (launchArgminmax littleEndian (contextOf A loaded devBase) kernel data count w false wantMax wantLast).Run
      (placedStep A run False) (s, reg) r t →
      (Best wantMax wantLast (callerElements (contextOf A loaded devBase) A w pos (s, reg) data) (· < count) r ↔
        Told wantMax wantLast (callerElements (contextOf A loaded devBase) A w pos (s, reg) data) (Rounding.roundInt 53) (· < count)
          (· / 256)) := by
  constructor
  · exact (launchArgminmax_ensures width stores known placed nonempty small).exists_run placed_progress
  · intro r t ran
    exact ((launchArgminmax_ensures width stores known placed nonempty small).run ran).resolve_left id

/-- Integers of up to four bytes are kept apart. -/
theorem callerElements_told {ctx : Context} {t : A.State × Registry UInt8} (narrow : w ≤ 4) :
    Told wantMax wantLast (callerElements ctx A w pos t data) (Rounding.roundInt 53) (· < count) (· / 256) := by
  have exact : ∀ i, Rounding.roundInt 53 (callerElements ctx A w pos t data i) = callerElements ctx A w pos t data i := by
    intro i
    apply Rounding.roundInt_of_lt
    have low := BitVec.le_toInt ((Codec.word w pos).get (if ctx.contains data then A.mem t.1 else t.2.host) data i)
    have high := BitVec.toInt_lt (x := (Codec.word w pos).get (if ctx.contains data then A.mem t.1 else t.2.host) data i)
    have bound : (2 : Int) ^ (8 * w - 1) ≤ 2 ^ 31 := by exact_mod_cast Nat.pow_le_pow_right (by decide) (by omega)
    unfold callerElements
    omega
  apply told_of_injective
  intro i j _ _ same
  rwa [exact, exact] at same

theorem launchArgminmax_narrow {kernel : String} {r : Nat} {t : A.State × Registry UInt8} (width : w ∈ [1, 2, 4])
    (stores : ∀ input base d m m', run input base d m m' → StoresWinners w pos input base d m m')
    (known : loaded kernel = true) (placed : Placed (contextOf A loaded devBase) A w pos (s, reg) data count)
    (nonempty : 1 ≤ count) (small : count < 2 ^ 32)
    (ran : (launchArgminmax littleEndian (contextOf A loaded devBase) kernel data count w false wantMax wantLast).Run
      (placedStep A run False) (s, reg) r t) :
    Best wantMax wantLast (callerElements (contextOf A loaded devBase) A w pos (s, reg) data) (· < count) r := by
  have widths : w ∈ [1, 2, 4, 8] ∧ w ≤ 4 := by
    simp only [List.mem_cons, List.not_mem_nil, or_false] at width ⊢
    omega
  have answers := (launchArgminmax_ensures widths.1 stores known placed nonempty small).run ran
  exact (answers.resolve_left id).mpr (callerElements_told widths.2)

end

/-! ### Integers of eight bytes that one `double` stands for -/

/-- An arena of 64 KiB over bytes. -/
def byteArena : ArenaModel UInt8 := Legacy.arena UInt8 ⟨4096, 65536⟩ Legacy.smallArena_base Legacy.smallArena_capacity

/-- No buffer is registered. -/
def noBuffers : Registry UInt8 := ⟨fun _ => 0, fun _ => 0, fun _ _ => 0⟩

/-- Integers of `w` bytes from the start of the first block on. -/
def filled (w : Nat) (x : Nat → Nat) : byteArena.State × Registry UInt8 := ((Legacy.twoBlocks, fill w 4096 x), noBuffers)

theorem filled_placed (w : Nat) (x : Nat → Nat) (count : Nat) {pos : 0 < w} (room : count * w ≤ 4096) :
    Placed (contextOf byteArena (fun _ => true) 0) byteArena w pos (filled w x) 4096 count where
  valid := Legacy.twoBlocks_inv
  inside _ := (InBlock.head room).cons
  outside no := Bool.noConfusion no

theorem filled_elements {w : Nat} {pos : 0 < w} {x : Nat → Nat} (i : Nat) :
    callerElements (contextOf byteArena (fun _ => true) 0) byteArena w pos (filled w x) 4096 i = (BitVec.ofNat (8 * w) (x i)).toInt := by
  have inArena : (contextOf byteArena (fun _ => true) 0).contains 4096 = true := by decide
  rw [callerElements, if_pos inArena]
  exact congrArg BitVec.toInt Codec.get_fill

theorem launchArgminmax_right_iff_bytes :
    let s := filled 1 fun i => i * 7 % 200
    let argmax : Launch UInt8 Nat :=
      launchArgminmax littleEndian (contextOf byteArena (fun _ => true) 0) "argmax" 4096 1000 1 false true false
    (∃ r t, argmax.Run (placedStep byteArena (StoresWinners 1 (by decide)) True) s r t) ∧
    ∀ r t, argmax.Run (placedStep byteArena (StoresWinners 1 (by decide)) False) s r t →
      (Best true false (callerElements (contextOf byteArena (fun _ => true) 0) byteArena 1 (by decide) s 4096) (· < 1000) r ↔
        Told true false (callerElements (contextOf byteArena (fun _ => true) 0) byteArena 1 (by decide) s 4096)
          (Rounding.roundInt 53) (· < 1000) (· / 256)) := by
  intro s argmax
  apply launchArgminmax_right_iff
  · decide
  · exact fun _ _ _ _ _ stored => stored
  · rfl
  · exact filled_placed 1 (fun i => i * 7 % 200) 1000 (by decide)
  · decide
  · decide

section
variable {σ α : Type} {step : Step (ops UInt8) σ} {s : σ}

theorem exists_run_read {p n : Nat} {x : Fin n → UInt8} {f : (Fin n → UInt8) → Launch UInt8 α}
    (first : step (.read p n) s x s) (rest : ∃ r, (f x).Run step s r s) : ∃ r, (read p n >>= f).Run step s r s := by
  obtain ⟨r, run⟩ := rest
  exact ⟨r, x, s, first, run⟩

theorem exists_run_ite {c : Prop} [Decidable c] {p q : Launch UInt8 α} (hp : ∃ r, p.Run step s r s) (hq : ∃ r, q.Run step s r s) :
    ∃ r, (if c then p else q).Run step s r s := by
  split
  · exact hp
  · exact hq

theorem exists_combine (reads : ∀ p n, ∃ x : Fin n → UInt8, step (.read p n) s x s)
    {vals idxs count es : Nat} {isFloat wantMax wantLast : Bool} (blocks : List Nat) (best : Nat) (val : littleEndian.Val) :
    ∃ r, (combineWinners littleEndian vals idxs count es isFloat wantMax wantLast blocks best val).Run step s r s := by
  induction blocks generalizing best val with
  | nil => exact ⟨best, rfl, rfl⟩
  | cons b blocks ih =>
    obtain ⟨word, first⟩ := reads (idxs + b * 4) 4
    obtain ⟨bytes, second⟩ := reads (vals + b * es) es
    rw [combineWinners]
    apply exists_run_read first
    exact exists_run_ite (ih best val) (exists_run_read second (exists_run_ite (ih _ _) (ih _ _)))

end

theorem scratch_allocated : (Legacy.allocate ⟨4096, 65536⟩ Legacy.twoBlocks (wmul (groupsOf 257) 8) 256).1 = 12288 ∧
    (Legacy.allocate ⟨4096, 65536⟩ (Legacy.allocate ⟨4096, 65536⟩ Legacy.twoBlocks (wmul (groupsOf 257) 8) 256).2
      (wmul (groupsOf 257) 4) 256).1 = 12544 := by decide

theorem exists_launch (mem : Nat → UInt8) (wantMax wantLast : Bool) :
    ∃ r t, (launchArgminmax littleEndian (contextOf byteArena (fun _ => true) 0) "argmax" 4096 257 8 false wantMax wantLast).Run
      (placedStep byteArena (StoresWinners 8 (by decide)) False) ((Legacy.twoBlocks, mem), noBuffers) r t := by
  obtain ⟨m', stored⟩ := exists_stored (w := 8) (by decide) (fun k => mem (4096 + 0 + k)) 4096
    ⟨"argmax", ⟨.arena, 0, some 2056⟩, ⟨.arena, 8192, some 16⟩, some ⟨.arena, 8448, some 8⟩, .argminmax 257 wantMax wantLast, 2⟩ mem
  obtain ⟨first, second⟩ := scratch_allocated
  generalize hfirst : Legacy.allocate ⟨4096, 65536⟩ Legacy.twoBlocks (wmul (groupsOf 257) 8) 256 = allocated at first second
  obtain ⟨p, s₁⟩ := allocated
  obtain rfl : p = 12288 := first
  generalize hsecond : Legacy.allocate ⟨4096, 65536⟩ s₁ (wmul (groupsOf 257) 4) 256 = allocated at second
  obtain ⟨p, s₂⟩ := allocated
  obtain rfl : p = 12544 := second
  let s : byteArena.State × Registry UInt8 := ((Legacy.twoBlocks, mem), noBuffers)
  let t : byteArena.State × Registry UInt8 := ((s₂, m'), noBuffers)
  let freed : byteArena.State × Registry UInt8 := ((Legacy.deallocate (Legacy.deallocate s₂ 12288) 12544, m'), noBuffers)
  obtain ⟨r, combined⟩ : ∃ r, (combineWinners littleEndian 12288 12544 257 8 false wantMax wantLast (List.range 2) 257
      (Double.finite 0)).Run (placedStep byteArena (StoresWinners 8 (by decide)) False) t r t := by
    apply exists_combine
    intro p n
    exact ⟨fun k => m' (p + k), ⟨rfl, rfl⟩, rfl⟩
  refine ⟨if r = 257 then 0 else r, freed, (), s, ⟨rfl, rfl⟩, ?_⟩
  refine Prog.Run.bind (a := if r = 257 then 0 else r) (t := freed) ?_ ⟨(), freed, ⟨rfl, rfl⟩, rfl, rfl⟩
  refine Prog.Run.bind (a := some ⟨.arena, 0, some 2056⟩) (t := s) ⟨rfl, rfl⟩ ?_
  refine ⟨(12288 : Nat), ((s₁, mem), noBuffers), ⟨⟨⟨hfirst, rfl⟩, Or.inl (by decide)⟩, rfl⟩, ?_⟩
  refine ⟨(12544 : Nat), ((s₂, mem), noBuffers), ⟨⟨⟨hsecond, rfl⟩, Or.inl (by decide)⟩, rfl⟩, ?_⟩
  apply Prog.Run.bind (a := true) (t := t)
  · exact ⟨true, _, ⟨⟨Or.inl rfl, rfl⟩, rfl⟩, (), _, ⟨rfl, rfl⟩, true, t, ⟨Or.inl ⟨rfl, m', stored, rfl⟩, rfl⟩, (), t, ⟨rfl, rfl⟩, rfl, rfl⟩
  refine Prog.Run.bind (a := ()) (t := t) ⟨(), t, ⟨rfl, rfl⟩, rfl, rfl⟩ ?_
  apply Prog.Run.bind combined
  exact ⟨(), ((Legacy.deallocate s₂ 12288, m'), noBuffers), ⟨⟨rfl, rfl⟩, rfl⟩, (), freed, ⟨⟨rfl, rfl⟩, rfl⟩, rfl, rfl⟩

/-- The greatest element is the only one of the second block. -/
def twoSizes (i : Nat) : Nat := if i < 256 then 2 ^ 53 else 2 ^ 53 + 1

/-- The conversion makes the greatest element equal to those in the first block. -/
theorem greatest_missed : ∃ r t, (launchArgminmax littleEndian (contextOf byteArena (fun _ => true) 0) "argmax" 4096 257 8
      false true false).Run (placedStep byteArena (StoresWinners 8 (by decide)) False) (filled 8 twoSizes) r t ∧
    ¬ Best true false (callerElements (contextOf byteArena (fun _ => true) 0) byteArena 8 (by decide) (filled 8 twoSizes) 4096)
      (· < 257) r := by
  obtain ⟨r, t, ran⟩ := exists_launch (fill 8 4096 twoSizes) true false
  refine ⟨r, t, ran, fun right => ?_⟩
  have answers : False ∨ Answers true false
      (callerElements (contextOf byteArena (fun _ => true) 0) byteArena 8 (by decide) (filled 8 twoSizes) 4096) 257 r :=
    (launchArgminmax_ensures (by decide) (fun _ _ _ _ _ stored => stored) rfl (filled_placed 8 twoSizes 257 (by decide))
      (by decide) (by decide)).run ran
  have value : ∀ i, callerElements (contextOf byteArena (fun _ => true) 0) byteArena 8 (by decide) (filled 8 twoSizes) 4096 i =
      if i < 256 then 2 ^ 53 else 2 ^ 53 + 1 := by
    intro i
    rw [filled_elements, twoSizes]
    split
    · decide
    · decide
  generalize callerElements (contextOf byteArena (fun _ => true) 0) byteArena 8 (by decide) (filled 8 twoSizes) 4096 = x at *
  have told := (answers.resolve_left id).mp right
  have greatest : ∀ j < 257, ¬ Ahead true (x j) (x 256) := by
    intro j hj ahead
    have above : x 256 < x j := ahead
    have low : x j ≤ 2 ^ 53 + 1 := by
      rw [value]
      split <;> decide
    rw [value 256, if_neg (by decide)] at above
    omega
  have level : Rounding.roundInt 53 (x 0) = Rounding.roundInt 53 (x 256) := by
    simp only [value]
    decide
  obtain ⟨j, hj, same, later⟩ := told 256 0 (by decide) (by decide) greatest level
  have second : 256 ≤ j := by
    by_contra first
    simp [value, Nat.lt_of_not_le first] at same
  exact later (show 0 / 256 < j / 256 by omega)

end Parallax.Launcher
