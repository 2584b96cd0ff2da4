import ParallaxRuntime.Effects.Implementation
import ParallaxRuntime.Funnels.Correct

/-!
# Whole programs

A program allocates arrays, reads and writes them, and calls parallel algorithms. With every call
offloaded it does what it does over a plain memory with the algorithms of the standard.
-/

namespace Parallax.Funnels
open Memory Effects Arena Kernel Launcher

variable {β ι α γ δ : Type}

/-! ### The program over a plain memory -/

/-- Blocks of a memory. No allocator is behind them. -/
structure Heap (β : Type) where
  mem : Nat → β
  live : List (Nat × Nat)

def Heap.Sound (A : ArenaModel β) (s : Heap β) : Prop :=
  (∀ b ∈ s.live, 0 < b.1 ∧ A.base ≤ b.1 ∧ b.1 + b.2 ≤ A.base + A.capacity) ∧
  s.live.Pairwise fun b b' => Apart b b' ∧ b.1 ≠ b'.1

/-- Any allocator in the place of `A`. -/
def anyArena (A : ArenaModel β) : ArenaModel β where
  State := Heap β
  base := A.base
  capacity := A.capacity
  mem := Heap.mem
  setMem s m := { s with mem := m }
  live := Heap.live
  Valid := Heap.Sound A
  Allocates s size _ p s' := s'.Sound A ∧ (∀ a, A.Usable s.live a → s'.mem a = s.mem a) ∧
    ((p = 0 ∧ s'.live = s.live) ∨ (p ≠ 0 ∧ ∃ n, size ≤ n ∧ s'.live = (p, n) :: s.live))
  Frees s p s' := s'.Sound A ∧ s'.live = released s.live p ∧ ∀ a, A.Usable s'.live a → s'.mem a = s.mem a
  inside h := h.1
  disjoint h := h.2
  small := A.small
  allocates {s _} valid _ := ⟨0, s, valid, fun _ _ => rfl, Or.inl ⟨rfl, rfl⟩⟩
  allocate_spec _ _ h := h
  frees {s b} valid _ :=
    ⟨⟨s.mem, released s.live b.1⟩, ⟨fun b' hb' => valid.1 b' (mem_released.mp hb').1, valid.2.filter _⟩, rfl, fun _ _ => rfl⟩
  free_spec _ _ h := h
  write_spec valid _ := ⟨valid, rfl, rfl⟩

/-- What a program does, where `ι` are its calls of algorithms with all that they are called with. -/
inductive UserOp (β ι : Type) where
  | algorithm (i : ι)
  | alloc (size align : Nat)
  | free (p : Nat)
  | read (p n : Nat)
  | write (p : Nat) (x : List β)

def UserOp.Res (site : ι → Job β) : UserOp β ι → Type
  | algorithm i => (site i).Res
  | alloc _ _ => Nat
  | read _ n => Fin n → β
  | _ => Unit

abbrev userOps (site : ι → Job β) : Sig := ⟨UserOp β ι, UserOp.Res site⟩

section
variable (A : ArenaModel β) (site : ι → Job β)

/-- An algorithm gives what the standard asks for, and leaves no block behind. -/
def serialStep : Step (userOps site) (World (anyArena A))
  | .algorithm i, s, r, s' => (site i).Iso s r s' ∧ s'.live = s.live
  | .alloc size align, s, p, s' => (anyArena A).Allocates s.arena size align p s'.arena ∧ s'.host = s.host
  | .free p, s, _, s' => (anyArena A).Frees s.arena p s'.arena ∧ s'.host = s.host
  | .read p n, s, x, s' => x = (fun k : Fin n => s.mem (p + k)) ∧ s' = s
  | .write p x, s, _, s' => s' = s.store (put s.mem p x)

/-- The machine of the sequential program, with what each call may rely on. -/
def serial : Handler (userOps site) (World (anyArena A)) where
  pre
    | .algorithm i, s => (site i).Arrays s ∧ (site i).Counted
    | .alloc size align, _ => size ≤ 2 ^ 62 ∧ align ≤ 256
    | .free p, s => ∃ n, (p, n) ∈ s.live
    | .read p n, s => ∀ k < n, s.Usable (p + k)
    | .write p x, s => ∀ k < x.length, s.Usable (p + k)
  step := serialStep A site

end

/-- The program with its algorithms offloaded. -/
def offload [Zero β] (hv : HostValues β) (ctx : Context) (site : ι → Job β) : (o : UserOp β ι) → Funnel β (o.Res site)
  | .algorithm i => (site i).prog hv ctx
  | .alloc size align => arenaAlloc size align
  | .free p => arenaFree p
  | .read p n => hostRead p n
  | .write p x => hostWrite p x

/-! ### Two machines -/

section
variable {A : ArenaModel β} {s : World (anyArena A)} {t t' : World A}

/-- The blocks of the plain memory are blocks of the arena with the same contents. The arena may
have more blocks, of scratch that was not given back, and the launcher may have cached anything. -/
structure Backs (s : World (anyArena A)) (t : World A) : Prop where
  sound : s.arena.Sound A
  valid : A.Valid t.arena
  live : ∀ b ∈ s.live, b ∈ t.live
  mem : ∀ a, LiveByte s.live a → A.mem t.arena a = s.arena.mem a
  host : ∀ a, ¬ A.InArena a → t.host a = s.host a

theorem Backs.liveByte {a : Nat} (h : Backs s t) (ha : LiveByte s.live a) : LiveByte t.live a := by
  obtain ⟨b, hb, range⟩ := ha
  exact ⟨b, h.live b hb, range⟩

theorem Backs.usable {a : Nat} (h : Backs s t) (ha : s.Usable a) : t.Usable a := fun inside => h.liveByte (ha inside)

theorem Backs.mem_eq {a : Nat} (h : Backs s t) (ha : s.Usable a) : t.mem a = s.mem a := by
  unfold World.mem
  by_cases inside : A.InArena a
  · rw [if_pos inside, if_pos (show (anyArena A).InArena a from inside)]
    exact h.mem a (ha inside)
  · rw [if_neg inside, if_neg (show ¬ (anyArena A).InArena a from inside), h.host a inside]

theorem Backs.holds {p n : Nat} (h : Backs s t) (array : s.Holds p n) : t.Holds p n where
  inside start := by
    obtain ⟨b, hb, range⟩ := array.inside start
    exact ⟨b, h.live b hb, range⟩
  outside := array.outside

theorem Backs.list_eq {c : Codec β α} {p n : Nat} (h : Backs s t) (array : s.Holds p (n * c.size)) :
    c.list t.mem p n = c.list s.mem p n :=
  Codec.list_frame fun _ ha => h.mem_eq (array.covers ha)

/-- The blocks of `s` with what `t'` has in them. -/
def World.over (s : World (anyArena A)) (t' : World A) : World (anyArena A) :=
  { s with arena := ⟨A.mem t'.arena, s.live⟩, host := t'.host }

@[simp] theorem World.over_mem : (s.over t').mem = t'.mem := rfl

theorem Backs.after {D : Nat → Prop} (h : Backs s t) (after : After D t t') : Backs (s.over t') t' where
  sound := h.sound
  valid := after.valid
  live b hb := after.live b (h.live b hb)
  mem _ _ := rfl
  host _ _ := rfl

theorem Backs.meets {c : Codec β α} {d : Codec β δ} {input output n : Nat} {iso : List α → γ → List δ → Prop} {r : γ}
    (h : Backs s t) (array : s.Holds input (n * c.size)) (met : Meets c input n d output iso t r t') :
    Meets c input n d output iso s r (s.over t') ∧ Backs (s.over t') t' := by
  obtain ⟨l, result, after, list⟩ := met
  rw [h.list_eq array] at result
  refine ⟨⟨l, result, ⟨h.sound, fun _ hb => hb, fun a ha out => ?_⟩, list⟩, h.after after⟩
  rw [World.over_mem, after.frame a (h.usable ha) out, h.mem_eq ha]

/-- The arrays of a call are where the program has them. -/
theorem Backs.arrays (h : Backs s t) (j : Job β) (arrays : j.Arrays s) : j.Arrays t := by
  cases j with
  | transform | scan | exclusiveScan => exact ⟨h.holds arrays.1, h.holds arrays.2.1, arrays.2.2⟩
  | copyIf c =>
    refine ⟨h.holds arrays.1, ?_, arrays.2.2⟩
    rw [h.list_eq arrays.1]
    exact h.holds arrays.2.1
  | _ => exact h.holds arrays

theorem Backs.iso (h : Backs s t) (j : Job β) (arrays : j.Arrays s) {r : j.Res} (iso : j.Iso t r t') :
    j.Iso s r (s.over t') ∧ Backs (s.over t') t' := by
  cases j with
  | transform | scan | exclusiveScan | copyIf =>
    unfold Job.Iso at iso ⊢
    exact h.meets arrays.1 iso
  | _ =>
    unfold Job.Iso at iso ⊢
    exact h.meets arrays iso

theorem Backs.alloc {size p : Nat} (h : Backs s t) (small : size ≤ 2 ^ 62) (allocated : A.Allocates t.arena size 256 p t'.arena)
    (host : t'.host = t.host) (align : Nat) :
    ∃ s' : World (anyArena A), ((anyArena A).Allocates s.arena size align p s'.arena ∧ s'.host = s.host) ∧ Backs s' t' := by
  obtain ⟨valid', mem, result⟩ := A.allocate_spec h.valid small allocated
  have kept : ∀ a, LiveByte s.live a → A.mem t'.arena a = s.arena.mem a :=
    fun a ha => (mem a (h.liveByte ha).usable).trans (h.mem a ha)
  have outside : ∀ a, ¬ A.InArena a → t'.host a = s.host a := fun a out => (congrFun host a).trans (h.host a out)
  rcases result with ⟨null, live⟩ | ⟨nonnull, n, fits, live⟩
  · refine ⟨s, ⟨⟨h.sound, fun _ _ => rfl, Or.inl ⟨null, rfl⟩⟩, rfl⟩, h.sound, valid', fun b hb => ?_, kept, outside⟩
    rw [World.live, live]
    exact h.live b hb
  · have new : (p, n) ∈ A.live t'.arena := by
      rw [live]
      exact List.mem_cons_self
    have blocks := A.disjoint valid'
    rw [live] at blocks
    let heap : Heap β := ⟨fun a => if A.InArena a then A.mem t'.arena a else s.arena.mem a, (p, n) :: s.live⟩
    have sound : heap.Sound A := by
      refine ⟨fun b hb => ?_, List.pairwise_cons.mpr ⟨fun b hb => ?_, h.sound.2⟩⟩
      · rcases List.mem_cons.mp hb with rfl | hb
        · exact A.inside valid' _ new
        · exact h.sound.1 b hb
      · exact (List.pairwise_cons.mp blocks).1 b (h.live b hb)
    have same : ∀ a, A.Usable s.live a → heap.mem a = s.arena.mem a := by
      intro a ha
      by_cases inside : A.InArena a
      · exact (if_pos inside).trans (kept a (ha inside))
      · exact if_neg inside
    refine ⟨{ s with arena := heap }, ⟨⟨sound, same, Or.inr ⟨nonnull, n, fits, rfl⟩⟩, rfl⟩, sound, valid', fun b hb => ?_,
      fun a ha => ?_, outside⟩
    · rw [World.live, live]
      exact (List.mem_cons.mp hb).elim (fun same => same ▸ List.mem_cons_self) fun old => List.mem_cons_of_mem _ (h.live b old)
    · exact (if_pos (liveByte_inArena (A := anyArena A) (t := { s with arena := heap }) sound ha)).symm

theorem Backs.free {p : Nat} (h : Backs s t) (own : ∃ n, (p, n) ∈ s.live) (freed : A.Frees t.arena p t'.arena)
    (host : t'.host = t.host) :
    ∃ s' : World (anyArena A), ((anyArena A).Frees s.arena p s'.arena ∧ s'.host = s.host) ∧ Backs s' t' := by
  obtain ⟨n, member⟩ := own
  obtain ⟨valid', live, mem⟩ := A.free_spec h.valid (h.live _ member) freed
  have old : ∀ b ∈ released s.live p, b ∈ A.live t'.arena := by
    intro b hb
    rw [live]
    exact mem_released.mpr ⟨h.live b (mem_released.mp hb).1, (mem_released.mp hb).2⟩
  let heap : Heap β := ⟨s.arena.mem, released s.live p⟩
  have sound : heap.Sound A := ⟨fun b hb => h.sound.1 b (mem_released.mp hb).1, h.sound.2.filter _⟩
  refine ⟨{ s with arena := heap }, ⟨⟨sound, rfl, fun _ _ => rfl⟩, rfl⟩, sound, valid', old, fun a ha => ?_,
    fun a out => (congrFun host a).trans (h.host a out)⟩
  obtain ⟨b, hb, range⟩ := ha
  have still : LiveByte (A.live t'.arena) a := ⟨b, old b hb, range⟩
  exact (mem a still.usable).trans (h.mem a ⟨b, (mem_released.mp hb).1, range⟩)

theorem Backs.write {D : Nat → Prop} {p : Nat} {x : List β} (h : Backs s t) (after : After D t t') (wrote : t'.mem = put t.mem p x) :
    Backs (s.store (put s.mem p x)) t' := by
  have same : ∀ a, s.Usable a → t'.mem a = put s.mem p x a := by
    intro a ha
    rw [wrote]
    unfold put
    rw [h.mem_eq ha]
  refine ⟨h.sound, after.valid, fun b hb => after.live b (h.live b hb), fun a (ha : LiveByte s.live a) => ?_, fun a out => ?_⟩
  · have live : LiveByte t'.live a := (h.after after).liveByte ha
    have inside : (anyArena A).InArena a := liveByte_inArena (A := anyArena A) h.sound ha
    rw [← mem_of_liveByte after.valid live, same a fun _ => ha]
    exact (if_pos inside).symm
  · have outside : t'.mem a = t'.host a := if_neg out
    rw [← outside, same a fun inside => absurd inside out]
    exact (if_neg out).symm

end

section
variable [Zero β] {A : ArenaModel β} {kernels : ElementKernels β} {shaders : String → Shader β} {loaded : String → Bool}
  {devBase : Nat} {hv : HostValues β} {site : ι → Job β}

/-- Each thing that a program does keeps the two memories together. -/
theorem offload_implements (registered : ∀ i, (site i).Registered hv kernels shaders loaded) (own : ∀ i, (site i).Locals hv A) :
    Prog.Implements (serial A site) (offload hv (contextOf A loaded devBase) site) (funnels A kernels shaders False False) Backs := by
  intro o s t backs pre
  cases o with
  | algorithm i =>
    have arrays : (site i).Arrays s := pre.1
    apply ((site i).ensures backs.valid (registered i) (own i) (backs.arrays _ arrays) pre.2).mono
    intro r t' iso
    obtain ⟨iso', backs'⟩ := backs.iso (site i) arrays iso
    exact ⟨s.over t', ⟨iso', rfl⟩, backs'⟩
  | alloc size align =>
    refine ⟨⟨backs.valid, pre⟩, fun p t' ⟨allocated, host, _⟩ => ?_⟩
    rw [Nat.max_eq_right (by have := pre.2; split <;> omega)] at allocated
    exact backs.alloc pre.1 allocated host align
  | free p =>
    obtain ⟨n, block⟩ : ∃ n, (p, n) ∈ s.live := pre
    refine ⟨⟨backs.valid, n, backs.live _ block⟩, fun _ t' ⟨freed, host, _⟩ => ?_⟩
    exact backs.free ⟨n, block⟩ freed host
  | read p n =>
    have usable : ∀ k < n, s.Usable (p + k) := pre
    refine ⟨fun k lt => backs.usable (usable k lt), fun x t' ⟨value, same⟩ => ⟨s, ⟨?_, rfl⟩, ?_⟩⟩
    · rw [value]
      funext k
      exact backs.mem_eq (usable k k.isLt)
    · rw [same]
      exact backs
  | write p x =>
    have usable : ∀ k < x.length, s.Usable (p + k) := pre
    apply (hostWrite_ensures backs.valid fun k lt => backs.usable (usable k lt)).mono
    intro _ t' ⟨after, wrote⟩
    exact ⟨_, rfl, backs.write after wrote⟩

end

/-! ### A number of its own -/

/-- One element at `p`. -/
def addOneAt (p : Nat) : Job Nat := .invoke Codec.quad 4 (some "add_one") none (· + 1) p 1

/-- Allocates an array of one number, adds one to it, and frees it. -/
def countUp : Prog (userOps addOneAt) Nat := do
  let p : Nat ← Prog.op (S := userOps addOneAt) (.alloc 4 4)
  if p = 0 then pure 0
  else do
    let _ ← Prog.op (S := userOps addOneAt) (.write p [41, 0, 0, 0])
    let _ ← Prog.op (S := userOps addOneAt) (.algorithm p)
    let x ← Prog.op (S := userOps addOneAt) (.read p 4)
    let _ ← Prog.op (S := userOps addOneAt) (.free p)
    pure (firstCell.uint32 x)

def noBlocks : World (anyArena Legacy.smallArena) := ⟨⟨fun _ => 0, []⟩, fun _ => 0, fun _ => none⟩

theorem countUp_safe : countUp.Ensures (serial Legacy.smallArena addOneAt) (fun _ _ => True) noBlocks := by
  refine ⟨⟨by decide, by decide⟩, ?_⟩
  intro (p : Nat) s after
  obtain ⟨⟨sound, _, result⟩, _⟩ := after
  apply Prog.ensures_ite
  · exact fun _ => trivial
  intro nonnull
  obtain ⟨n, fits, live⟩ := (result.resolve_left fun null => nonnull null.1).2
  have own : (p, n) ∈ s.live := by
    rw [World.live, show (anyArena Legacy.smallArena).live s.arena = _ from live]
    exact List.mem_cons_self
  have array : ∀ s' : World (anyArena Legacy.smallArena), s'.live = s.live → s'.Holds p 4 := by
    intro s' same
    refine ⟨fun _ => ⟨(p, n), same ▸ own, le_rfl, Nat.add_le_add_left fits p⟩, ?_⟩
    intro out
    obtain ⟨_, low, high⟩ : 0 < p ∧ Legacy.smallArena.base ≤ p ∧ p + n ≤ Legacy.smallArena.base + Legacy.smallArena.capacity :=
      sound.1 _ own
    exact absurd ⟨low, show p < Legacy.smallArena.base + Legacy.smallArena.capacity by omega⟩ out
  refine ⟨fun k lt => (array s rfl).usable lt, ?_⟩
  intro _ s₁ wrote
  obtain rfl : s₁ = s.store (put s.mem p [41, 0, 0, 0]) := wrote
  refine ⟨⟨array _ rfl, by simp [addOneAt, Job.Counted, Codec.quad]⟩, ?_⟩
  intro _ s₂ ran
  obtain ⟨_, same⟩ := ran
  refine ⟨fun k lt => (array s₂ same).usable lt, ?_⟩
  intro _ s₃ loaded
  obtain ⟨_, unchanged⟩ := loaded
  obtain rfl : s₃ = s₂ := unchanged
  exact ⟨⟨n, same ▸ own⟩, fun _ _ _ => trivial⟩

theorem addOneAt_registered (p : Nat) : (addOneAt p).Registered firstCell addOneKernels scanShaders (fun _ => true) :=
  fun _ _ => mapKernels_invokes fun _ _ => rfl

theorem noBlocks_backed : Backs noBlocks oneNumber where
  sound := ⟨fun _ absent => absurd absent List.not_mem_nil, List.Pairwise.nil⟩
  valid := Legacy.twoBlocks_valid _
  live _ absent := absurd absent List.not_mem_nil
  mem _ := fun ⟨_, absent, _⟩ => absurd absent List.not_mem_nil
  host _ _ := rfl

/-- No primitive, and no launch that may find a set in the cache. -/
def plainCalls : Handler (funnelOps Nat) Unit where
  pre
    | .runtime _, _ | .launch (.launchWithCaptures ..), _ | .launch (.launchTransform ..), _ => False
    | _, _ => True
  step _ _ _ _ := True

theorem countUp_plain : (countUp.expand (offload firstCell (contextOf Legacy.smallArena (fun _ => true) 0) addOneAt)).Ensures
    plainCalls (fun _ _ => True) () := by
  refine ⟨trivial, fun (p : Nat) _ _ => ?_⟩
  have invoke : ((addOneAt p).prog firstCell (contextOf Legacy.smallArena (fun _ => true) 0)).Ensures plainCalls (fun _ _ => True) () := by
    apply Prog.ensures_ite
    · exact fun _ => ⟨trivial, fun _ _ _ => trivial⟩
    · intro _
      refine ⟨trivial, fun (ab : Nat) _ _ => Prog.ensures_ite (fun _ => ?_) fun _ => ?_⟩
      · exact ⟨trivial, fun _ _ _ => ⟨trivial, fun _ _ _ => ⟨trivial, fun _ _ _ => ⟨trivial, fun _ _ _ => ⟨trivial, fun _ _ _ =>
          ⟨trivial, fun _ _ _ => trivial⟩⟩⟩⟩⟩⟩
      · exact ⟨trivial, fun _ _ _ => ⟨trivial, fun _ _ _ => trivial⟩⟩
  change Prog.Ensures _ (Prog.expand _ (if p = 0 then _ else _)) _ _
  split
  · trivial
  · refine ⟨trivial, fun _ _ _ => invoke.bind fun _ _ _ => ?_⟩
    exact ⟨trivial, fun _ _ _ => ⟨trivial, fun _ _ _ => trivial⟩⟩

theorem plain_progress {f : List (Option Nat) → Nat → Nat} {o : FunnelOp Nat} {t : World Legacy.smallArena}
    (pre : (funnels Legacy.smallArena (mapKernels f) scanShaders False False).pre o t) (plain : plainCalls.pre o ()) :
    ∃ x t', funnelStep Legacy.smallArena (mapKernels f) scanShaders False False o t x t' := by
  cases o with
  | runtime o => exact plain.elim
  | arenaAlloc size align =>
    obtain ⟨valid, small, aligned⟩ := pre
    obtain ⟨p, s', allocated⟩ := Legacy.smallArena.allocates valid small
    refine ⟨p, { t with arena := s' }, ?_, rfl, rfl⟩
    rwa [Nat.max_eq_right (by split <;> omega)]
  | arenaFree p =>
    obtain ⟨valid, n, member⟩ := pre
    obtain ⟨s', freed⟩ := Legacy.smallArena.frees valid member
    exact ⟨(), { t with arena := s' }, freed, rfl, rfl⟩
  | hostRead p n => exact ⟨_, t, rfl, rfl⟩
  | hostWrite p x => exact ⟨(), _, rfl⟩
  | launch c =>
    cases c with
    | launchWithCaptures | launchTransform => exact plain.elim
    | launch kernel buffer count es =>
      let o : Elementwise.Outcome := ⟨fun _ => none, true, true⟩
      let r := Elementwise.perform ((mapKernels f).context Legacy.smallArena) o (launcherWith t.cache) (.launch kernel buffer count es)
      have launched : ∃ t', Launched (mapKernels f) t r t' := by
        unfold Launched
        cases r.2 with
        | none => exact ⟨_, rfl⟩
        | some e =>
          obtain ⟨m, ran⟩ : ∃ m, (mapKernels f).run 4096 e t.mem m := InAnyOrder.exists_run _ _ _
          exact ⟨_, m, ran, rfl⟩
      obtain ⟨t', launched⟩ := launched
      exact ⟨(), t', Or.inl fun set no => (by cases no), o, launcherWith t.cache, Or.inl ⟨rfl, rfl⟩, rfl, launched⟩

end Parallax.Funnels
