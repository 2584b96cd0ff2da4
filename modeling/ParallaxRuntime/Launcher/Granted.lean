import ParallaxRuntime.Arena.Grants
import ParallaxRuntime.Launcher.Machine

/-!
# Runs in which nothing fails

A launcher that asks for no more scratch than the arena grants, and whose kernels can run, has
a run in which every call succeeds.
-/

namespace Parallax.Launcher
open Memory Effects Arena

variable {β : Type}

/-- The kernel can run wherever it may be dispatched with what is `ok`, and then, while `more`, writes only what
is bound. -/
def Shader.Runs (k : Shader β) (base : Nat) (ok : Dispatch β → Prop) (more : Prop) : Prop :=
  ∀ d m, k.pre d → ok d → ∃ m', k.run base d m m' ∧ (more → ∀ a, (∀ b ∈ d.bindings, ¬ b.Reaches base a) → m' a = m a)

theorem Shader.Runs.last {k : Shader β} {base : Nat} {ok : Dispatch β → Prop} (h : k.Runs base ok False) :
    k.Runs base ok (([] : List Nat) ≠ []) := by
  intro d m pre allowed
  obtain ⟨m', run, -⟩ := h d m pre allowed
  exact ⟨m', run, fun no => absurd rfl no⟩

/-- Calls that all succeed. The state is the sizes of the blocks that are still to be asked for; none is
freed before the last. -/
def asking (A : ArenaModel β) (shaders : String → Shader β) (check : Dispatch β → A.State → Prop) : Handler (ops β) (List Nat) where
  pre
    | .allocate size _, sizes => 0 < size ∧ ∃ rest, sizes = size :: rest
    | .deallocate _, sizes => sizes = []
    | .submit d, sizes => (shaders d.kernel).Runs A.base (fun d => ∃ s, check d s) (sizes ≠ [])
    | _, _ => True
  step
    | .allocate _ _, sizes, p, sizes' => @Ne Nat p 0 ∧ A.InArena p ∧ sizes' = sizes.tail
    | .allocateDescriptorSet, sizes, ok, sizes' => ok = true ∧ sizes' = sizes
    | .submit _, sizes, ok, sizes' => ok = true ∧ sizes' = sizes
    | _, sizes, _, sizes' => sizes' = sizes

section
variable {A : ArenaModel β} {shaders : String → Shader β} {check : Dispatch β → A.State → Prop} {s : A.State} {sizes : List Nat}

/-- Where the arena grants what is asked for, a call can succeed. -/
theorem granted_progress (o : Op β) (granted : A.Grants sizes s) (safe : (machine A shaders False check).pre o s)
    (asks : (asking A shaders check).pre o sizes) :
    ∃ x s₁ sizes₁, (machine A shaders False check).step o s x s₁ ∧ (asking A shaders check).step o sizes x sizes₁ ∧
      A.Grants sizes₁ s₁ := by
  cases o with
  | allocate size align =>
    obtain ⟨valid, small, rfl⟩ := safe
    obtain ⟨pos, rest, rfl⟩ := asks
    obtain ⟨p, s₁, step, nonnull, granted'⟩ := granted s .refl
    obtain ⟨valid₁, -, result⟩ := A.allocate_spec valid small step
    obtain ⟨-, n, fits, live⟩ := result.resolve_left fun null => nonnull null.1
    have inside := A.inside valid₁ (p, n) (live ▸ List.mem_cons_self)
    dsimp only at inside
    exact ⟨p, s₁, rest, ⟨step, Or.inl nonnull⟩, ⟨nonnull, ⟨by omega, by omega⟩, rfl⟩, granted'⟩
  | deallocate p =>
    obtain ⟨valid, n, live⟩ := safe
    obtain ⟨s₁, step⟩ := A.frees valid live
    have none : sizes = [] := asks
    subst none
    exact ⟨(), s₁, [], step, rfl, trivial⟩
  | submit d =>
    obtain ⟨valid, pre, within, checked⟩ := safe
    obtain ⟨m, run, frame⟩ := asks d (A.mem s) pre ⟨s, checked⟩
    refine ⟨true, A.setMem s m, sizes, Or.inl ⟨rfl, m, run, rfl⟩, ⟨rfl, rfl⟩, ?_⟩
    cases sizes with
    | nil => trivial
    | cons size rest =>
      refine granted.rewritten (.of_write fun a own => frame (by simp) a fun b hb reached => own ?_)
      exact ((within b hb).liveByte reached).usable
  | write p x =>
    refine ⟨(), _, sizes, ⟨safe.2, rfl⟩, rfl, granted.rewritten (.of_write fun a own => ?_)⟩
    exact put_outside fun range => own (safe.2 a range.1 range.2)
  | allocateDescriptorSet => exact ⟨true, s, sizes, ⟨Or.inl rfl, rfl⟩, ⟨rfl, rfl⟩, granted⟩
  | read p n => exact ⟨_, s, sizes, ⟨rfl, rfl⟩, rfl, granted⟩
  | enter => exact ⟨(), s, sizes, rfl, rfl, granted⟩
  | leave => exact ⟨(), s, sizes, rfl, rfl, granted⟩
  | invalidateFromDevice => exact ⟨(), s, sizes, rfl, rfl, granted⟩
  | sync => exact ⟨(), s, sizes, rfl, rfl, granted⟩
  | _ => exact safe.elim

/-- A launcher that is safe and asks for what the arena grants has a run in which nothing fails. -/
theorem exists_granted_run {α : Type} {p : Launch β α} {Q : α → A.State → Prop} {R : α → List Nat → Prop}
    (safe : p.Ensures (machine A shaders False check) Q s) (asks : p.Ensures (asking A shaders check) R sizes)
    (granted : A.Grants sizes s) :
    ∃ r s' left, p.Run (machineStep A shaders False) s r s' ∧ R r left := by
  obtain ⟨r, s', left, run, asked⟩ := safe.exists_run_both asks granted fun o _ _ granted => granted_progress o granted
  exact ⟨r, s', left, run, asks.run asked⟩

end

/-! ### What each call asks for -/

section
variable {A : ArenaModel β} {shaders : String → Shader β} {check : Dispatch β → A.State → Prop} {sizes : List Nat} {α : Type}
  {R : α → List Nat → Prop} {loaded : String → Bool} {devBase : Nat}

theorem asks_withArenaSync {body : Launch β α} (h : body.Ensures (asking A shaders check) R sizes) :
    (withArenaSync body).Ensures (asking A shaders check) R sizes := by
  apply Prog.ensures_call trivial
  rintro _ _ rfl
  refine Prog.ensures_bind.mpr (h.mono fun r left hR => ⟨trivial, ?_⟩)
  rintro _ _ rfl
  exact hR

theorem asks_allocate {size : Nat} {f : Nat → Launch β α} (pos : 0 < size)
    (ok : ∀ p, p ≠ 0 → A.InArena p → (f p).Ensures (asking A shaders check) R sizes) :
    (allocate size 256 >>= f).Ensures (asking A shaders check) R (size :: sizes) := by
  refine ⟨⟨pos, sizes, rfl⟩, ?_⟩
  rintro p _ ⟨nonnull, inside, rfl⟩
  exact ok p nonnull inside

theorem asks_deallocate {p : Nat} {f : Unit → Launch β α} (h : (f ()).Ensures (asking A shaders check) R []) :
    (deallocate p >>= f).Ensures (asking A shaders check) R [] := by
  refine ⟨rfl, ?_⟩
  rintro _ _ rfl
  exact h

theorem asks_dispatch {d : Dispatch β} {R : Bool → List Nat → Prop} (runs : (shaders d.kernel).Runs A.base (fun d => ∃ s, check d s) (sizes ≠ []))
    (ok : R true sizes) : (dispatch d).Ensures (asking A shaders check) R sizes := by
  refine ⟨trivial, ?_⟩
  rintro _ _ ⟨rfl, rfl⟩
  refine ⟨trivial, ?_⟩
  rintro _ _ rfl
  refine ⟨runs, ?_⟩
  rintro _ _ ⟨rfl, rfl⟩
  refine ⟨trivial, ?_⟩
  rintro _ _ rfl
  exact ok

theorem asks_invalidate {f : Unit → Launch β α} (h : (f ()).Ensures (asking A shaders check) R sizes) :
    (invalidateFromDevice >>= f).Ensures (asking A shaders check) R sizes := by
  refine ⟨trivial, ?_⟩
  rintro _ _ rfl
  exact h

theorem asks_read {p n : Nat} {f : (Fin n → β) → Launch β α} (h : ∀ x, (f x).Ensures (asking A shaders check) R sizes) :
    (read p n >>= f).Ensures (asking A shaders check) R sizes := by
  refine ⟨trivial, ?_⟩
  rintro x _ rfl
  exact h x

theorem asks_write {p : Nat} {x : List β} {f : Unit → Launch β α} (h : (f ()).Ensures (asking A shaders check) R sizes) :
    (write p x >>= f).Ensures (asking A shaders check) R sizes := by
  refine ⟨trivial, ?_⟩
  rintro _ _ rfl
  exact h

theorem asks_storeKept {hv : HostValues β} {outKept : Option Nat} {kept : Nat} {f : Unit → Launch β α}
    (h : (f ()).Ensures (asking A shaders check) R sizes) : (storeKept hv outKept kept >>= f).Ensures (asking A shaders check) R sizes := by
  cases outKept with
  | none => exact h
  | some p => exact asks_write h

theorem contains_of_inArena {p : Nat} (nonnull : p ≠ 0) (inside : A.InArena p) :
    (contextOf A loaded devBase).contains p = true := by
  unfold Context.contains contextOf
  exact decide_eq_true ⟨rfl, nonnull, inside.1, inside.2⟩

theorem asks_resolve {p range : Nat} {upload : Bool} {f : Option Binding → Launch β α}
    (contains : (contextOf A loaded devBase).contains p = true)
    (h : (f (some ⟨.arena, p - A.base, some range⟩)).Ensures (asking A shaders check) R sizes) :
    ((contextOf A loaded devBase).resolve p range upload >>= f).Ensures (asking A shaders check) R sizes := by
  unfold Context.resolve
  rw [if_pos contains]
  exact h

theorem asks_download {p : Nat} {f : Unit → Launch β α} (contains : (contextOf A loaded devBase).contains p = true)
    (h : (f ()).Ensures (asking A shaders check) R sizes) :
    ((contextOf A loaded devBase).download p >>= f).Ensures (asking A shaders check) R sizes := by
  unfold Context.download
  rw [if_neg (by rw [contains]; decide)]
  exact h

end

/-- A kernel on two arrays that it does not leave. -/
theorem arrayShader_runs {α α' : Type} {c : Codec β α} {c' : Codec β α'} {n n' : Push β → Nat → Nat}
    {run : (p q : Nat) → Push β → Nat → (Nat → β) → (Nat → β) → Prop} {base : Nat} {ok : Dispatch β → Prop} {more : Prop}
    (runs : ∀ p q push groups m, ∃ m', run p q push groups m m' ∧ (more → ∀ a, ¬ c.Covers p (n push groups) a →
      ¬ c'.Covers q (n' push groups) a → m' a = m a)) : (arrayShader c c' n n' run).Runs base ok more := by
  rintro d m ⟨⟨r, range, fits⟩, r', range', fits'⟩ _
  obtain ⟨m', ran, frame⟩ := runs (base + d.binding0.offset) (base + d.binding1.offset) d.push d.groups m
  refine ⟨m', ran, fun left a out => frame left a (fun covers => ?_) fun covers => ?_⟩
  · exact out d.binding0 (by simp [Dispatch.bindings]) ⟨r, range, covers.1, Nat.lt_of_lt_of_le covers.2 (by omega)⟩
  · exact out d.binding1 (by simp [Dispatch.bindings]) ⟨r', range', covers.1, Nat.lt_of_lt_of_le covers.2 (by omega)⟩

end Parallax.Launcher
