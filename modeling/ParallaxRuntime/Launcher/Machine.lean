import ParallaxRuntime.Arena.Basic
import ParallaxRuntime.Kernel.Order
import ParallaxRuntime.Launcher.Primitives

/-!
# Launchers over one memory

The arena's blocks are host memory and device memory at once. A dispatch may only be
submitted when each binding lies in a live block and holds what the shader accesses, and
a launcher may only store to live blocks and outside the arena.
-/

namespace Parallax.Launcher
open Memory Effects Arena Kernel

/-- A kernel: what its bindings must hold, and what it does to the memory, given the
address of the buffer. -/
structure Shader (β : Type) where
  pre : Dispatch β → Prop
  run : Nat → Dispatch β → (Nat → β) → (Nat → β) → Prop

/-- What a bound range covers. -/
def Binding.Reaches (b : Binding) (base a : Nat) : Prop :=
  ∃ r, b.range = some r ∧ base + b.offset ≤ a ∧ a < base + b.offset + r

/-- The bound range has room for `n` elements. -/
def Binding.Holds {β α : Type} (b : Binding) (c : Codec β α) (n : Nat) : Prop :=
  ∃ r, b.range = some r ∧ n * c.size ≤ r

/-- The bound range lies in a block. -/
def Binding.Within (b : Binding) (base : Nat) (L : List (Nat × Nat)) : Prop :=
  b.buffer = .arena ∧ ∃ r, b.range = some r ∧ InBlock L (base + b.offset) r

theorem Binding.Within.liveByte {b : Binding} {base a : Nat} {L : List (Nat × Nat)} (h : b.Within base L) (reached : b.Reaches base a) :
    LiveByte L a := by
  obtain ⟨-, r, range, block⟩ := h
  obtain ⟨r', range', low, high⟩ := reached
  obtain rfl : r = r' := Option.some.inj (range.symm.trans range')
  exact block.liveByte low high

variable {β : Type}

/-- What a call does over `A`. Allocations and Vulkan calls fail only if `mayFail`. No
outcome is given to a store that is not to a caller's memory. -/
def machineStep (A : ArenaModel β) (shaders : String → Shader β) (mayFail : Prop) : Step (ops β) A.State
  | .allocate size align, s, p, s' => A.Allocates s size align p s' ∧ (@Ne Nat p 0 ∨ mayFail)
  | .deallocate p, s, _, s' => A.Frees s p s'
  | .allocateDescriptorSet, s, ok, s' => (ok = true ∨ mayFail) ∧ s' = s
  | .submit d, s, ok, s' =>
    (ok = true ∧ ∃ m, (shaders d.kernel).run A.base d (A.mem s) m ∧ s' = A.setMem s m) ∨
    (ok = false ∧ mayFail ∧ s' = s)
  | .read p n, s, x, s' => x = (fun k : Fin n => A.mem s (p + k)) ∧ s' = s
  | .write p x, s, _, s' => A.Owned s p x.length ∧ s' = A.setMem s (put (A.mem s) p x)
  | _, s, _, s' => s' = s

/-- The machine, with what a call may rely on; `check` is asked of a dispatch on top. -/
def machine (A : ArenaModel β) (shaders : String → Shader β) (mayFail : Prop) (check : Dispatch β → A.State → Prop) :
    Handler (ops β) A.State where
  pre
    | .allocate size align, s => A.Valid s ∧ size ≤ 2 ^ 62 ∧ align = 256
    | .deallocate p, s => A.Valid s ∧ ∃ n, (p, n) ∈ A.live s
    | .submit d, s => A.Valid s ∧ (shaders d.kernel).pre d ∧ (∀ b ∈ d.bindings, b.Within A.base (A.live s)) ∧ check d s
    | .read p n, s => A.Valid s ∧ InBlock (A.live s) p n
    | .write p x, s => A.Valid s ∧ A.Owned s p x.length
    | .getBuffer _, _ | .registerExternalBuffer _ _, _ | .syncBeforeKernel _, _
    | .syncAfterKernel _, _ => False
    | _, _ => True
  step := machineStep A shaders mayFail

/-- The launcher's view of the arena. -/
def contextOf (A : ArenaModel β) (loaded : String → Bool) (devBase : Nat) : Context :=
  ⟨loaded, true, A.base, devBase, A.capacity⟩

/-- The bytes of `*out_kept`. -/
def HostValues.KeptAt (hv : HostValues β) (outKept : Option Nat) (a : Nat) : Prop :=
  ∃ p n, outKept = some p ∧ p ≤ a ∧ a < p + (hv.ofSize n).length

/-- The memory after `*out_kept = kept`. -/
def HostValues.stored (hv : HostValues β) (outKept : Option Nat) (kept : Nat) (m : Nat → β) : Nat → β :=
  match outKept with
  | some p => put m p (hv.ofSize kept)
  | none => m

/-- `*out_kept`, if there is one, is `kept`. -/
def HostValues.Shows (hv : HostValues β) (outKept : Option Nat) (m : Nat → β) (kept : Nat) : Prop :=
  ∀ p ∈ outKept, ∀ i (h : i < (hv.ofSize kept).length), m (p + i) = (hv.ofSize kept)[i]

section
variable {A : ArenaModel β} {shaders : String → Shader β} {mayFail : Prop} {check : Dispatch β → A.State → Prop}
  {s : A.State} {α : Type} {Q : α → A.State → Prop} {loaded : String → Bool} {devBase : Nat}

theorem machine_progress (o : Op β) (s : A.State) (h : (machine A shaders True check).pre o s) :
    ∃ x s', (machine A shaders True check).step o s x s' := by
  cases o with
  | allocate size align =>
    obtain ⟨valid, small, rfl⟩ := h
    obtain ⟨p, s', step⟩ := A.allocates valid small
    exact ⟨p, s', step, Or.inr trivial⟩
  | deallocate p =>
    obtain ⟨valid, n, live⟩ := h
    obtain ⟨s', step⟩ := A.frees valid live
    exact ⟨(), s', step⟩
  | submit d => exact ⟨false, s, Or.inr ⟨rfl, trivial, rfl⟩⟩
  | allocateDescriptorSet => exact ⟨true, s, Or.inl rfl, rfl⟩
  | read p n => exact ⟨_, s, rfl, rfl⟩
  | enter => exact ⟨(), s, rfl⟩
  | leave => exact ⟨(), s, rfl⟩
  | invalidateFromDevice => exact ⟨(), s, rfl⟩
  | sync => exact ⟨(), s, rfl⟩
  | write p x => exact ⟨(), _, h.2, rfl⟩
  | _ => exact h.elim

/-! ### What each call ensures -/

theorem ensures_withArenaSync {body : Launch β α} (h : body.Ensures (machine A shaders mayFail check) Q s) :
    (withArenaSync body).Ensures (machine A shaders mayFail check) Q s := by
  apply Prog.ensures_call trivial
  intro _ s₁ same
  obtain rfl : s₁ = s := same
  refine Prog.ensures_bind.mpr (h.mono fun r s₂ hQ => ⟨trivial, fun _ s₃ same => ?_⟩)
  obtain rfl : s₃ = s₂ := same
  exact hQ

theorem ensures_allocate {size : Nat} {f : Nat → Launch β α} (valid : A.Valid s) (small : size ≤ 2 ^ 62)
    (null : mayFail → ∀ s', A.Valid s' → A.live s' = A.live s →
      (∀ a, A.Usable (A.live s) a → A.mem s' a = A.mem s a) → (f 0).Ensures (machine A shaders mayFail check) Q s')
    (ok : ∀ p n s', p ≠ 0 → size ≤ n → A.Valid s' → A.live s' = (p, n) :: A.live s →
      (∀ a, A.Usable (A.live s) a → A.mem s' a = A.mem s a) → (f p).Ensures (machine A shaders mayFail check) Q s') :
    (allocate size 256 >>= f).Ensures (machine A shaders mayFail check) Q s := by
  refine ⟨⟨valid, small, rfl⟩, fun p s' step => ?_⟩
  obtain ⟨valid', same, result⟩ := A.allocate_spec valid small step.1
  rcases result with ⟨zero, live⟩ | ⟨nonnull, n, fits, live⟩
  · obtain rfl : p = (0 : Nat) := zero
    exact null (step.2.resolve_left fun no => no rfl) s' valid' live same
  · exact ok p n s' nonnull fits valid' live same

theorem ensures_deallocate {p n : Nat} {f : Unit → Launch β α} (valid : A.Valid s) (live : (p, n) ∈ A.live s)
    (h : ∀ s', A.Valid s' → A.live s' = released (A.live s) p →
      (∀ a, A.Usable (A.live s') a → A.mem s' a = A.mem s a) → (f ()).Ensures (machine A shaders mayFail check) Q s') :
    (deallocate p >>= f).Ensures (machine A shaders mayFail check) Q s := by
  refine ⟨⟨valid, n, live⟩, fun _ s' step => ?_⟩
  obtain ⟨valid', live', same⟩ := A.free_spec valid live step
  exact h s' valid' live' same

theorem ensures_dispatch {d : Dispatch β} {Q : Bool → A.State → Prop}
    (pre : (machine A shaders mayFail check).pre (Op.submit d) s)
    (inside : ∀ m, (shaders d.kernel).run A.base d (A.mem s) m → ∀ a, ¬ LiveByte (A.live s) a → m a = A.mem s a)
    (fail : mayFail → Q false s)
    (ok : ∀ s', A.Valid s' → A.live s' = A.live s → (shaders d.kernel).run A.base d (A.mem s) (A.mem s') → Q true s') :
    (dispatch d).Ensures (machine A shaders mayFail check) Q s := by
  refine Prog.ensures_op_bind.mpr ⟨trivial, fun (set : Bool) s₁ ⟨made, same⟩ => ?_⟩
  obtain rfl : s₁ = s := same
  refine Prog.ensures_ite (fun off => fail (made.resolve_left ?_)) fun _ => ⟨trivial, fun _ s₂ same => ?_⟩
  · rw [off]
    exact Bool.false_ne_true
  · obtain rfl : s₂ = s₁ := same
    refine ⟨pre, fun submitted s₃ step => ?_⟩
    rcases step with ⟨done, m, run, rfl⟩ | ⟨lost, may, rfl⟩
    · obtain rfl : submitted = true := done
      apply Prog.ensures_call trivial
      intro _ s₄ same
      obtain rfl : s₄ = A.setMem s₂ m := same
      obtain ⟨valid, live, mem⟩ := A.write_spec pre.1 fun a own => inside m run a fun live => own live.usable
      exact ok _ valid live (by rw [mem]; exact run)
    · obtain rfl : submitted = false := lost
      exact fail may

theorem ensures_invalidate {f : Unit → Launch β α} (h : (f ()).Ensures (machine A shaders mayFail check) Q s) :
    (invalidateFromDevice >>= f).Ensures (machine A shaders mayFail check) Q s :=
  ⟨trivial, fun _ s₁ same => by
    obtain rfl : s₁ = s := same
    exact h⟩

/-- A store keeps the arena and changes what it is to. -/
theorem put_spec {p : Nat} {x : List β} (valid : A.Valid s) (owned : A.Owned s p x.length) :
    A.Valid (A.setMem s (put (A.mem s) p x)) ∧ A.live (A.setMem s (put (A.mem s) p x)) = A.live s ∧
    A.mem (A.setMem s (put (A.mem s) p x)) = put (A.mem s) p x :=
  A.write_spec valid fun a own => put_outside fun range => own (owned a range.1 range.2)

theorem ensures_write {p : Nat} {x : List β} {f : Unit → Launch β α} (valid : A.Valid s) (owned : A.Owned s p x.length)
    (h : ∀ s', A.Valid s' → A.live s' = A.live s → A.mem s' = put (A.mem s) p x →
      (f ()).Ensures (machine A shaders mayFail check) Q s') :
    (write p x >>= f).Ensures (machine A shaders mayFail check) Q s := by
  refine ⟨⟨valid, owned⟩, fun _ s' ⟨_, stored⟩ => ?_⟩
  obtain rfl : s' = A.setMem s (put (A.mem s) p x) := stored
  obtain ⟨valid', live, mem⟩ := put_spec valid owned
  exact h _ valid' live mem

theorem HostValues.Shows.congr {hv : HostValues β} {outKept : Option Nat} {m m' : Nat → β} {kept : Nat}
    (h : hv.Shows outKept m kept) (same : ∀ a, hv.KeptAt outKept a → m' a = m a) : hv.Shows outKept m' kept :=
  fun p hp i lt => (same _ ⟨p, kept, hp, Nat.le_add_right .., Nat.add_lt_add_left lt p⟩).trans (h p hp i lt)

theorem HostValues.stored_outside {hv : HostValues β} {outKept : Option Nat} {kept : Nat} {m : Nat → β} {a : Nat}
    (out : ¬ hv.KeptAt outKept a) : hv.stored outKept kept m a = m a := by
  cases outKept with
  | none => rfl
  | some p => exact put_outside fun range => out ⟨p, kept, rfl, range.1, range.2⟩

theorem HostValues.stored_congr {hv : HostValues β} {outKept : Option Nat} {kept : Nat} {m m' : Nat → β} {a : Nat}
    (same : m a = m' a) : hv.stored outKept kept m a = hv.stored outKept kept m' a := by
  cases outKept with
  | none => exact same
  | some p => exact put_congr _ same

theorem HostValues.shows_stored {hv : HostValues β} {outKept : Option Nat} {kept : Nat} {m : Nat → β} :
    hv.Shows outKept (hv.stored outKept kept m) kept := by
  rintro p rfl i lt
  exact put_getElem lt

theorem ensures_storeKept {hv : HostValues β} {outKept : Option Nat} {kept : Nat} {f : Unit → Launch β α}
    (valid : A.Valid s) (owned : ∀ a, hv.KeptAt outKept a → A.Usable (A.live s) a)
    (h : ∀ s', A.Valid s' → A.live s' = A.live s → A.mem s' = hv.stored outKept kept (A.mem s) →
      (f ()).Ensures (machine A shaders mayFail check) Q s') :
    (storeKept hv outKept kept >>= f).Ensures (machine A shaders mayFail check) Q s := by
  cases outKept with
  | none => exact h s valid rfl rfl
  | some p => exact ensures_write valid (fun a low high => owned a ⟨p, kept, rfl, low, high⟩) h

theorem ensures_read {p n : Nat} {f : (Fin n → β) → Launch β α} (valid : A.Valid s) (block : InBlock (A.live s) p n)
    (h : (f fun k => A.mem s (p + k)).Ensures (machine A shaders mayFail check) Q s) :
    (read p n >>= f).Ensures (machine A shaders mayFail check) Q s := by
  refine ⟨⟨valid, block⟩, fun x s₁ ⟨value, same⟩ => ?_⟩
  obtain rfl : s₁ = s := same
  obtain rfl : x = fun k : Fin n => A.mem s₁ (p + k) := value
  exact h

theorem contains_of_inBlock {p n : Nat} (valid : A.Valid s) (block : InBlock (A.live s) p n) (pos : 0 < n) :
    (contextOf A loaded devBase).contains p = true := by
  have := block.bounds valid
  unfold Context.contains contextOf
  exact decide_eq_true ⟨rfl, by omega, this.2.1, by dsimp only; omega⟩

theorem ensures_download {p n : Nat} {f : Unit → Launch β α} (valid : A.Valid s) (block : InBlock (A.live s) p n)
    (pos : 0 < n) (h : (f ()).Ensures (machine A shaders mayFail check) Q s) :
    ((contextOf A loaded devBase).download p >>= f).Ensures (machine A shaders mayFail check) Q s := by
  unfold Context.download
  rw [if_neg (by rw [contains_of_inBlock valid block pos]; decide)]
  exact h

theorem ensures_resolve {p n range : Nat} {upload : Bool} {f : Option Binding → Launch β α} (valid : A.Valid s)
    (block : InBlock (A.live s) p n) (pos : 0 < n)
    (h : (f (some ⟨.arena, p - A.base, some range⟩)).Ensures (machine A shaders mayFail check) Q s) :
    ((contextOf A loaded devBase).resolve p range upload >>= f).Ensures (machine A shaders mayFail check) Q s := by
  unfold Context.resolve
  rw [if_pos (contains_of_inBlock valid block pos)]
  exact h

end

theorem groupsOf_eq {n : Nat} (h : n < 2 ^ 32) : groupsOf n = (n + 255) / 256 := by
  unfold groupsOf wadd
  omega

theorem makePushBlock_count {ctx : Context} {count : Nat} (h : count < 2 ^ 32) :
    (ctx.makePushBlock count : Push β).count = count := Nat.mod_eq_of_lt h

/-! ### Kernels on two arrays -/

/-- A kernel that works on the first elements of the arrays at bindings 0 and 1. -/
def arrayShader {α α' : Type} (c : Codec β α) (c' : Codec β α') (n n' : Push β → Nat → Nat)
    (run : (p q : Nat) → Push β → Nat → (Nat → β) → (Nat → β) → Prop) : Shader β where
  pre d := d.binding0.Holds c (n d.push d.groups) ∧ d.binding1.Holds c' (n' d.push d.groups)
  run base d := run (base + d.binding0.offset) (base + d.binding1.offset) d.push d.groups

/-- What a dispatch, or a whole primitive, leaves when it only writes `D`. -/
structure Wrote (A : ArenaModel β) (D : Nat → Prop) (s s' : A.State) : Prop where
  valid : A.Valid s'
  live : A.live s' = A.live s
  frame : ∀ a, A.Usable (A.live s) a → ¬ D a → A.mem s' a = A.mem s a

/-- The same for a call that may have failed and left scratch behind. -/
structure Kept (A : ArenaModel β) (D : Nat → Prop) (s s' : A.State) : Prop where
  valid : A.Valid s'
  live : ∀ b ∈ A.live s, b ∈ A.live s'
  frame : ∀ a, A.Usable (A.live s) a → ¬ D a → A.mem s' a = A.mem s a

theorem Wrote.kept {A : ArenaModel β} {D : Nat → Prop} {s s' : A.State} (h : Wrote A D s s') : Kept A D s s' :=
  ⟨h.valid, fun _ hb => h.live ▸ hb, h.frame⟩

theorem Kept.refl {A : ArenaModel β} {D : Nat → Prop} {s : A.State} (valid : A.Valid s) : Kept A D s s :=
  ⟨valid, fun _ hb => hb, fun _ _ _ => rfl⟩

theorem Kept.of_cons {A : ArenaModel β} {D : Nat → Prop} {s s' : A.State} {b : Nat × Nat} (valid : A.Valid s')
    (live : A.live s' = b :: A.live s) (mem : ∀ a, A.Usable (A.live s) a → A.mem s' a = A.mem s a) : Kept A D s s' :=
  ⟨valid, fun _ hb => live ▸ List.mem_cons_of_mem b hb, fun a ha _ => mem a ha⟩

theorem Kept.liveByte {A : ArenaModel β} {D : Nat → Prop} {s s' : A.State} (h : Kept A D s s') {a : Nat}
    (ha : LiveByte (A.live s) a) : LiveByte (A.live s') a := by
  obtain ⟨b, hb, range⟩ := ha
  exact ⟨b, h.live b hb, range⟩

theorem Kept.usable {A : ArenaModel β} {D : Nat → Prop} {s s' : A.State} (h : Kept A D s s') {a : Nat}
    (ha : A.Usable (A.live s) a) : A.Usable (A.live s') a := fun inside => h.liveByte (ha inside)

theorem Kept.inBlock {A : ArenaModel β} {D : Nat → Prop} {s s' : A.State} (h : Kept A D s s') {p n : Nat}
    (block : InBlock (A.live s) p n) : InBlock (A.live s') p n := by
  obtain ⟨b, hb, range⟩ := block
  exact ⟨b, h.live b hb, range⟩

/-- Steps one after the other; the second may also write what was not live before the first. -/
theorem Kept.trans {A : ArenaModel β} {D D' : Nat → Prop} {s s' s'' : A.State} (h : Kept A D s s') (h' : Kept A D' s' s'')
    (sub : ∀ a, A.Usable (A.live s) a → D' a → D a) : Kept A D s s'' :=
  ⟨h'.valid, fun b hb => h'.live b (h.live b hb), fun a ha out =>
    (h'.frame a (h.usable ha) fun hd => out (sub a ha hd)).trans (h.frame a ha out)⟩

theorem Wrote.mono {A : ArenaModel β} {D D' : Nat → Prop} {s s' : A.State} (h : Wrote A D s s') (sub : ∀ a, D a → D' a) :
    Wrote A D' s s' := ⟨h.valid, h.live, fun a ha out => h.frame a ha fun hd => out (sub a hd)⟩

theorem Wrote.trans {A : ArenaModel β} {D : Nat → Prop} {s s' s'' : A.State} (h : Wrote A D s s') (h' : Wrote A D s' s'') :
    Wrote A D s s'' :=
  ⟨h'.valid, h'.live.trans h.live, fun a ha out => (h'.frame a (h.live ▸ ha) out).trans (h.frame a ha out)⟩

/-- The binding of a whole array. -/
def arrayBinding {α : Type} (c : Codec β α) (A : ArenaModel β) (p n : Nat) : Binding :=
  ⟨.arena, p - A.base, some (n * c.size)⟩

theorem arrayBinding_of_size {α : Type} {c : Codec β α} {A : ArenaModel β} {n es : Nat} (size : c.size = es) (p : Nat) :
    (⟨.arena, p - A.base, some (n * es)⟩ : Binding) = arrayBinding c A p n := by
  rw [arrayBinding, size]

section
variable {α α' : Type} {c : Codec β α} {c' : Codec β α'} {A : ArenaModel β} {shaders : String → Shader β}
  {mayFail : Prop} {check : Dispatch β → A.State → Prop} {s : A.State}

theorem liveByte_of_covers {L : List (Nat × Nat)} {p n a : Nat} (h : InBlock L p (n * c.size)) (covers : c.Covers p n a) :
    LiveByte L a := h.liveByte covers.1 covers.2

theorem usable_of_covers {L : List (Nat × Nat)} {p n a : Nat} (h : InBlock L p (n * c.size)) (covers : c.Covers p n a) :
    A.Usable L a := (liveByte_of_covers h covers).usable

theorem arrayBinding_addr {p n : Nat} (valid : A.Valid s) (block : InBlock (A.live s) p (n * c.size)) :
    A.base + (arrayBinding c A p n).offset = p := by
  have := block.bounds valid
  unfold arrayBinding
  dsimp only
  omega

theorem arrayBinding_holds {p n k : Nat} (h : k ≤ n) : (arrayBinding c A p n).Holds c k :=
  ⟨_, rfl, Nat.mul_le_mul_right _ h⟩

theorem arrayBinding_within {p n : Nat} (valid : A.Valid s) (block : InBlock (A.live s) p (n * c.size)) :
    (arrayBinding c A p n).Within A.base (A.live s) := by
  refine ⟨rfl, n * c.size, rfl, ?_⟩
  rw [arrayBinding_addr valid block]
  exact block

theorem ensures_arrayDispatch {kernel : String} {n n' : Push β → Nat → Nat}
    {run : (p q : Nat) → Push β → Nat → (Nat → β) → (Nat → β) → Prop} {p q k k' groups : Nat} {push : Push β}
    {Q : Bool → A.State → Prop} (found : shaders kernel = arrayShader c c' n n' run) (valid : A.Valid s)
    (hp : InBlock (A.live s) p (k * c.size)) (hq : InBlock (A.live s) q (k' * c'.size))
    (holds : n push groups ≤ k ∧ n' push groups ≤ k')
    (checked : check ⟨kernel, arrayBinding c A p k, arrayBinding c' A q k', none, push, groups⟩ s)
    (inside : ∀ m, run p q push groups (A.mem s) m → ∀ a, ¬ LiveByte (A.live s) a → m a = A.mem s a)
    (fail : mayFail → Q false s)
    (ok : ∀ s', A.Valid s' → A.live s' = A.live s → run p q push groups (A.mem s) (A.mem s') → Q true s') :
    (dispatch ⟨kernel, arrayBinding c A p k, arrayBinding c' A q k', none, push, groups⟩).Ensures
      (machine A shaders mayFail check) Q s := by
  have effect : ∀ m, (shaders kernel).run A.base ⟨kernel, arrayBinding c A p k, arrayBinding c' A q k', none, push, groups⟩
      (A.mem s) m → run p q push groups (A.mem s) m := by
    intro m h
    rw [found] at h
    simp only [arrayShader, arrayBinding_addr valid hp, arrayBinding_addr valid hq] at h
    exact h
  refine ensures_dispatch ⟨valid, ?_, ?_, checked⟩ (fun m h => inside m (effect m h)) fail
    fun s' valid' live h => ok s' valid' live (effect _ h)
  · rw [found]
    exact ⟨arrayBinding_holds holds.1, arrayBinding_holds holds.2⟩
  · simp [Dispatch.bindings, arrayBinding_within valid hp, arrayBinding_within valid hq]

end

end Parallax.Launcher
