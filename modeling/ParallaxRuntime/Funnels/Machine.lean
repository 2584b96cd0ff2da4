import ParallaxRuntime.Elementwise.OwnSets
import ParallaxRuntime.Funnels.Device
import ParallaxRuntime.Launcher.Machine
import ParallaxRuntime.Launcher.Staging

/-!
# The funnels over one address space

The arena's blocks lie in the address space of the host. A funnel reads and writes live blocks and
memory outside the arena; its own scratch may be refused at any time.
-/

namespace Parallax.Funnels
open Memory Effects Arena Launcher

variable {β α γ δ : Type}

/-- The element-wise kernels that are loaded, and what a dispatch of one does to the memory, given the address
of the arena's buffer. No workgroup does nothing. -/
structure ElementKernels (β : Type) where
  loaded : String → Bool
  devBase : Nat
  run : Nat → Elementwise.Executed β → (Nat → β) → (Nat → β) → Prop
  idle : ∀ {base e m m'}, e.groups = 0 → run base e m m' → m' = m

def ElementKernels.context (kernels : ElementKernels β) (A : ArenaModel β) : Context :=
  contextOf A kernels.loaded kernels.devBase

/-- The arena, the callers' memory outside of it, and the descriptor sets that the launcher has cached. A funnel's
own variable, which the launcher stores a result to, is not the callers'. -/
structure World (A : ArenaModel β) where
  arena : A.State
  host : Nat → β
  cache : String × Nat → Option (Elementwise.DescriptorSet β)

namespace World
variable {A : ArenaModel β}

def mem (t : World A) (a : Nat) : β := if A.InArena a then A.mem t.arena a else t.host a

def live (t : World A) : List (Nat × Nat) := A.live t.arena

/-- Outside the arena, or in a live block. -/
def Usable (t : World A) (a : Nat) : Prop := A.Usable t.live a

def store (t : World A) (m : Nat → β) : World A :=
  { t with
    arena := A.setMem t.arena fun a => if A.InArena a then m a else A.mem t.arena a
    host := fun a => if A.InArena a then t.host a else m a }

end World

/-- What a launch leaves: the sets it has cached, and what it has dispatched. -/
def Launched {A : ArenaModel β} (kernels : ElementKernels β) (t : World A)
    (r : Elementwise.KernelLauncher β × Option (Elementwise.Executed β)) (t' : World A) : Prop :=
  match r.2 with
  | none => t' = { t with cache := r.1.cache }
  | some e => ∃ m, kernels.run A.base e t.mem m ∧ t' = { t.store m with cache := r.1.cache }

section
variable (A : ArenaModel β) (kernels : ElementKernels β) (shaders : String → Shader β) (mayFail anySet : Prop)

/-- The steps of the runtime and the element-wise launches fail only if `mayFail`, and a launch uses a set that was
cached for another call only if `anySet`. The memory manager, which knows no arena pointer, may be any. -/
def funnelStep : Step (funnelOps β) (World A)
  | .runtime o, t, x, t' => machineStep A shaders mayFail o t.arena x t'.arena ∧ t'.host = t.host ∧ t'.cache = t.cache
  | .arenaAlloc size align, t, p, t' =>
    A.Allocates t.arena size (max (if align = 0 then 16 else align) 256) p t'.arena ∧ t'.host = t.host ∧ t'.cache = t.cache
  | .arenaFree p, t, _, t' => A.Frees t.arena p t'.arena ∧ t'.host = t.host ∧ t'.cache = t.cache
  | .hostRead p n, t, x, t' => x = (fun k : Fin n => t.mem (p + k)) ∧ t' = t
  | .hostWrite p x, t, _, t' => t' = t.store (put t.mem p x)
  | .launch c, t, _, t' => (Elementwise.Fits (kernels.context A) t.cache c ∨ anySet) ∧
    ∃ o s, (o.Succeeds ∨ mayFail) ∧ s.cache = t.cache ∧ Launched kernels t (Elementwise.perform (kernels.context A) o s c) t'

def funnels : Handler (funnelOps β) (World A) where
  pre
    | .runtime o, t => (machine A shaders mayFail fun _ _ => True).pre o t.arena
    | .arenaAlloc size align, t => A.Valid t.arena ∧ size ≤ 2 ^ 62 ∧ align ≤ 256
    | .arenaFree p, t => A.Valid t.arena ∧ ∃ n, (p, n) ∈ t.live
    | .hostRead p n, t => ∀ k < n, t.Usable (p + k)
    | .hostWrite p x, t => A.Valid t.arena ∧ ∀ k < x.length, t.Usable (p + k)
    | .launch c, t => A.Valid t.arena ∧ InBlock t.live c.input.1 c.input.2 ∧ InBlock t.live c.output.1 c.output.2
  step := funnelStep A kernels shaders mayFail anySet

end

/-! ### What changes from one state to a later one -/

section
variable {A : ArenaModel β}

/-- Every live block still is, and of the memory that was usable only `D` changed. -/
structure After (D : Nat → Prop) (t t' : World A) : Prop where
  valid : A.Valid t'.arena
  live : ∀ b ∈ t.live, b ∈ t'.live
  frame : ∀ a, t.Usable a → ¬ D a → t'.mem a = t.mem a

/-- Where a variable of a funnel's own lies. -/
def Outside (A : ArenaModel β) (p bytes : Nat) : Prop := ∀ a, p ≤ a → a < p + bytes → ¬ A.InArena a

/-- An array of the caller's, in a live block or outside the arena. -/
structure World.Holds (t : World A) (p bytes : Nat) : Prop where
  inside : A.InArena p → InBlock t.live p bytes
  outside : ¬ A.InArena p → ∀ k < bytes, ¬ A.InArena (p + k)

/-- A block that was handed out between `t` and `t₁`. -/
structure Scratch (t : World A) (p n : Nat) (t₁ : World A) : Prop where
  after : After (fun _ => False) t t₁
  block : ∃ k, n ≤ k ∧ (p, k) ∈ t₁.live
  fresh : ∀ b ∈ t.live, b.1 ≠ p
  apart : ∀ k < n, ¬ t.Usable (p + k)

variable {t t' t'' t₁ : World A} {D D' : Nat → Prop} {p n a : Nat}

theorem World.Usable.mono (h : t.Usable a) (live : ∀ b ∈ t.live, b ∈ t'.live) : t'.Usable a := by
  intro inside
  obtain ⟨b, hb, range⟩ := h inside
  exact ⟨b, live b hb, range⟩

theorem After.usable (h : After D t t') (ha : t.Usable a) : t'.Usable a := ha.mono h.live

theorem After.refl (valid : A.Valid t.arena) : After D t t := ⟨valid, fun _ hb => hb, fun _ _ _ => rfl⟩

theorem After.cached (h : After D t t') (cache : String × Nat → Option (Elementwise.DescriptorSet β)) :
    After D t { t' with cache := cache } := ⟨h.valid, h.live, h.frame⟩

/-- The second may also change what was not usable before the first. -/
theorem After.trans (h : After D t t') (h' : After D' t' t'') (sub : ∀ a, t.Usable a → D' a → D a) : After D t t'' where
  valid := h'.valid
  live b hb := h'.live b (h.live b hb)
  frame a ha out := (h'.frame a (h.usable ha) fun hd => out (sub a ha hd)).trans (h.frame a ha out)

theorem After.mono (h : After D t t') (sub : ∀ a, t.Usable a → D a → D' a) : After D' t t' where
  valid := h.valid
  live := h.live
  frame a ha out := h.frame a ha fun hd => out (sub a ha hd)

theorem After.untouched (h : After (fun _ => False) t t') : After D t t' := h.mono fun _ _ no => no.elim

theorem After.inBlock (h : After D t t') (block : InBlock t.live p n) : InBlock t'.live p n := by
  obtain ⟨b, hb, range⟩ := block
  exact ⟨b, h.live b hb, range⟩

theorem After.holds (h : After D t t') (array : t.Holds p n) : t'.Holds p n :=
  ⟨fun inside => h.inBlock (array.inside inside), array.outside⟩

theorem liveByte_inArena (valid : A.Valid t.arena) (h : LiveByte t.live a) : A.InArena a := by
  obtain ⟨b, hb, low, high⟩ := h
  have := A.inside valid b hb
  exact ⟨by omega, by omega⟩

theorem mem_of_liveByte (valid : A.Valid t.arena) (h : LiveByte t.live a) : t.mem a = A.mem t.arena a :=
  if_pos (liveByte_inArena valid h)

theorem Outside.callers (h : Outside A p n) {s : A.State} : A.Owned s p n := fun a low high inside => absurd inside (h a low high)

theorem After.of_kept (h : Kept A D' t.arena t'.arena) (host : t'.host = t.host) (sub : ∀ a, A.InArena a → D' a → D a) :
    After D t t' where
  valid := h.valid
  live := h.live
  frame a ha out := by
    unfold World.mem
    split
    · next inside => exact h.frame a ha fun hd => out (sub a inside hd)
    · rw [host]

theorem store_after {m : Nat → β} (valid : A.Valid t.arena) (same : ∀ a, ¬ D a → m a = t.mem a)
    (usable : ∀ a, D a → t.Usable a) : After D t (t.store m) ∧ (t.store m).mem = m := by
  have untouched : ∀ a, ¬ A.Usable (A.live t.arena) a → (if A.InArena a then m a else A.mem t.arena a) = A.mem t.arena a := by
    intro a own
    split
    · next inside => exact (same a fun hd => own (usable a hd)).trans (if_pos inside)
    · rfl
  obtain ⟨valid', live, mem⟩ := A.write_spec valid untouched
  have stored : (t.store m).mem = m := by
    funext a
    by_cases inside : A.InArena a
    · simp [World.mem, World.store, inside, mem]
    · simp [World.mem, World.store, inside]
  refine ⟨⟨valid', fun b hb => ?_, fun a _ out => ?_⟩, stored⟩
  · rwa [World.live, World.store, live]
  · rw [stored, same a out]

/-! ### Arrays of the caller's -/

theorem World.Holds.usable (h : t.Holds p n) {k : Nat} (lt : k < n) : t.Usable (p + k) := by
  intro inside
  by_cases start : A.InArena p
  · exact (h.inside start).liveByte (Nat.le_add_right ..) (Nat.add_lt_add_left lt p)
  · exact absurd inside (h.outside start k lt)

theorem World.Holds.covers {c : Codec β α} (h : t.Holds p (n * c.size)) (ha : c.Covers p n a) : t.Usable a := by
  obtain ⟨low, high⟩ := ha
  have usable := h.usable (k := a - p) (by omega)
  rwa [Nat.add_sub_cancel' low] at usable

theorem World.Holds.sub (h : t.Holds p n) {k : Nat} (le : k ≤ n) : t.Holds p k where
  inside start := (h.inside start).sub (Nat.le_refl _) (Nat.add_le_add_left le _)
  outside start i lt := h.outside start i (Nat.lt_of_lt_of_le lt le)

theorem World.Holds.of_inBlock (valid : A.Valid t.arena) (h : InBlock t.live p n) : t.Holds p n where
  inside _ := h
  outside out k lt := absurd (liveByte_inArena valid (h.liveByte (Nat.le_refl p) (by omega))) out

/-- `parallax_arena_contains` tells where an array is. -/
theorem World.Holds.inBlock {loaded : String → Bool} {devBase : Nat} (h : t.Holds p n)
    (contains : (contextOf A loaded devBase).contains p = true) : InBlock t.live p n := by
  unfold Context.contains contextOf at contains
  simp only [decide_eq_true_eq] at contains
  exact h.inside ⟨contains.2.2.1, contains.2.2.2⟩

/-! ### Scratch -/

theorem Scratch.inBlock (h : Scratch t p n t₁) : InBlock t₁.live p n := by
  obtain ⟨k, fits, live⟩ := h.block
  exact ⟨_, live, Nat.le_refl _, Nat.add_le_add_left fits _⟩

theorem Scratch.not_usable {c : Codec β α} (h : Scratch t p (n * c.size) t₁) (ha : c.Covers p n a) : ¬ t.Usable a := by
  obtain ⟨low, high⟩ := ha
  have apart := h.apart (a - p) (by omega)
  rwa [Nat.add_sub_cancel' low] at apart

theorem Scratch.of_cons {k : Nat} (valid₁ : A.Valid t₁.arena) (live : t₁.live = (p, k) :: t.live) (fits : n ≤ k)
    (mem : ∀ a, A.Usable t.live a → A.mem t₁.arena a = A.mem t.arena a) (host : t₁.host = t.host) : Scratch t p n t₁ where
  after := by
    have kept : Kept A (fun _ => False) t.arena t₁.arena :=
      ⟨valid₁, fun b hb => (show _ ∈ t₁.live by rw [live]; exact List.mem_cons_of_mem _ hb), fun a ha _ => mem a ha⟩
    exact After.of_kept kept host fun _ _ no => no
  block := ⟨k, fits, by rw [live]; exact List.mem_cons_self⟩
  fresh := A.head_fresh valid₁ live
  apart i lt := A.head_not_usable valid₁ live ⟨Nat.le_add_right .., Nat.add_lt_add_left (by omega) p⟩

end

/-! ### What each call ensures -/

section
variable {A : ArenaModel β} {kernels : ElementKernels β} {shaders : String → Shader β} {mayFail anySet : Prop} {t : World A}
  {Q : γ → World A → Prop}

/-- What the launcher ensures of the arena, the funnel ensures, and the host's memory stays. -/
theorem runtime_ensures {check : Dispatch β → A.State → Prop} {p : Launch β γ} {R : γ → A.State → Prop}
    (h : p.Ensures (machine A shaders mayFail check) R t.arena) :
    (runtime p).Ensures (funnels A kernels shaders mayFail anySet) (fun r t' => R r t'.arena ∧ t'.host = t.host) t := by
  apply Prog.Ensures.mono
  apply Prog.Ensures.embed (R := fun s t' => t'.arena = s ∧ t'.host = t.host) _ _ h ⟨rfl, rfl⟩
  · rintro o _ t' ⟨rfl, _⟩ pre
    cases o with
    | submit d => exact ⟨pre.1, pre.2.1, pre.2.2.1, trivial⟩
    | _ => exact pre
  · rintro o _ t' x t'' ⟨rfl, host⟩ _ ⟨moved, same, -⟩
    exact ⟨t''.arena, moved, rfl, same.trans host⟩
  · rintro r t' ⟨s, post, rfl, host⟩
    exact ⟨post, host⟩

/-- The arena may answer null. -/
def Refuses (t : World A) (size : Nat) : Prop := ∃ s', A.Allocates t.arena size 256 0 s'

theorem arenaAlloc_ensures {size align : Nat} (valid : A.Valid t.arena) (small : size ≤ 2 ^ 62) (aligned : align ≤ 256) :
    (arenaAlloc size align).Ensures (funnels A kernels shaders mayFail anySet)
      (fun p t₁ => (p = 0 ∧ Refuses t size ∧ After (fun _ => False) t t₁) ∨ (p ≠ 0 ∧ Scratch t p size t₁)) t := by
  refine ⟨⟨valid, small, aligned⟩, fun (p : Nat) t₁ step => ?_⟩
  obtain ⟨allocated, host, -⟩ := step
  rw [Nat.max_eq_right (by split <;> omega)] at allocated
  obtain ⟨valid₁, mem, result⟩ := A.allocate_spec valid small allocated
  rcases result with ⟨null, live⟩ | ⟨nonnull, k, fits, live⟩
  · subst null
    have kept : Kept A (fun _ => False) t.arena t₁.arena :=
      ⟨valid₁, fun b hb => (show b ∈ A.live t₁.arena by rw [live]; exact hb), fun a ha _ => mem a ha⟩
    exact Or.inl ⟨rfl, ⟨_, allocated⟩, After.of_kept kept host fun _ _ no => no⟩
  · exact Or.inr ⟨nonnull, Scratch.of_cons valid₁ live fits mem host⟩

theorem arenaFree_ensures {p : Nat} (valid : A.Valid t.arena) (own : ∃ n, (p, n) ∈ t.live) :
    (arenaFree p).Ensures (funnels A kernels shaders mayFail anySet)
      (fun _ t' => A.Valid t'.arena ∧ t'.live = released t.live p ∧
        ∀ a, t'.Usable a → t'.mem a = t.mem a) t := by
  refine ⟨⟨valid, own⟩, fun _ t' step => ?_⟩
  obtain ⟨freed, host, -⟩ := step
  obtain ⟨n, member⟩ := own
  obtain ⟨valid', live, mem⟩ := A.free_spec valid member freed
  refine ⟨valid', live, fun a ha => ?_⟩
  unfold World.mem
  split
  · exact mem a ha
  · rw [host]

theorem hostWrite_ensures {p : Nat} {x : List β} (valid : A.Valid t.arena) (usable : ∀ k < x.length, t.Usable (p + k)) :
    (hostWrite p x).Ensures (funnels A kernels shaders mayFail anySet)
      (fun _ t' => After (fun a => p ≤ a ∧ a < p + x.length) t t' ∧ t'.mem = put t.mem p x) t := by
  refine ⟨⟨valid, usable⟩, fun _ t' step => ?_⟩
  obtain rfl : t' = t.store (put t.mem p x) := step
  apply store_after valid
  · intro a out
    unfold put
    split
    · next low =>
      rw [List.getElem?_eq_none (by omega)]
      rfl
    · rfl
  · rintro a ⟨low, high⟩
    have := usable (a - p) (by omega)
    rwa [Nat.add_sub_cancel' low] at this

theorem memcpy_ensures {c : Codec β α} {dst src n : Nat} (valid : A.Valid t.arena) (hs : t.Holds src (n * c.size))
    (hd : t.Holds dst (n * c.size)) :
    (memcpy dst src (n * c.size)).Ensures (funnels A kernels shaders mayFail anySet)
      (fun _ t' => After (c.Covers dst n) t t' ∧ c.list t'.mem dst n = c.list t.mem src n) t := by
  refine ⟨fun k lt => hs.usable lt, fun x t' step => ?_⟩
  obtain ⟨value, same⟩ : x = (fun k : Fin (n * c.size) => t.mem (src + k)) ∧ t' = t := step
  subst same value
  apply (hostWrite_ensures valid ?_).mono
  · rintro _ t'' ⟨after, mem⟩
    rw [List.length_ofFn] at after
    refine ⟨after, Codec.list_copied fun i lt => ?_⟩
    rw [mem]
    simp [put, lt]
  · intro k lt
    rw [List.length_ofFn] at lt
    exact hd.usable lt

theorem load_ensures {c : Codec β α} {p n i : Nat} (hp : t.Holds p (n * c.size)) (lt : i < n) :
    (load c p i).Ensures (funnels A kernels shaders mayFail anySet) (fun x t' => x = c.get t.mem p i ∧ t' = t) t := by
  have room := Codec.elem_le (c := c) lt
  refine ⟨fun k hk => ?_, fun x t' step => ?_⟩
  · have := hp.usable (k := i * c.size + k) (by omega)
    rwa [← Nat.add_assoc] at this
  · obtain ⟨value, same⟩ : x = (fun k : Fin c.size => t.mem (p + i * c.size + k)) ∧ t' = t := step
    subst same value
    exact ⟨rfl, rfl⟩

theorem store_ensures {c : Codec β α} {p n i : Nat} {x : α} (valid : A.Valid t.arena) (hp : t.Holds p (n * c.size))
    (lt : i < n) :
    (store c p i x).Ensures (funnels A kernels shaders mayFail anySet)
      (fun _ t' => After (c.Covers p n) t t' ∧ t'.mem = c.put t.mem p i x) t := by
  have room := Codec.elem_le (c := c) lt
  apply (hostWrite_ensures valid ?_).mono
  · rintro _ t' ⟨after, mem⟩
    rw [List.length_ofFn] at after
    refine ⟨after.mono fun a _ range => ⟨by omega, by omega⟩, ?_⟩
    rw [mem, put_ofFn]
  · intro k hk
    rw [List.length_ofFn] at hk
    have := hp.usable (k := i * c.size + k) (by omega)
    rwa [← Nat.add_assoc] at this

/-- A loop from `s` on keeps what each round keeps. -/
theorem foldEach_ensures (I : Nat → γ → World A → Prop) {body : Nat → γ → Funnel β γ} {s n : Nat} {acc : γ}
    (start : I s acc t)
    (step : ∀ i acc t, i < s + n → I i acc t → (body i acc).Ensures (funnels A kernels shaders mayFail anySet) (I (i + 1)) t) :
    (foldEach body (List.range' s n) acc).Ensures (funnels A kernels shaders mayFail anySet) (I (s + n)) t := by
  induction n generalizing s acc t with
  | zero => exact start
  | succ n ih =>
    rw [List.range'_succ]
    apply (step s acc t (by omega) start).bind
    intro acc' t' inv
    rw [show s + (n + 1) = s + 1 + n by omega]
    exact ih inv fun i acc t lt => step i acc t (by omega)

end

end Parallax.Funnels
