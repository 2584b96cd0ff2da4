import ParallaxRuntime.Arena.Legacy
import ParallaxRuntime.Effects.Simulation
import ParallaxRuntime.Launcher.Phases

/-!
# One memory or two

With unified memory the arena's buffer is mapped. Without, the host works on a staging
buffer, and the outermost `ArenaSyncScope` copies the used part of the arena to the
device buffer and back. Both keep the same allocator.
-/

namespace Parallax.Launcher
open Memory Effects Arena

variable {β : Type}

/-- A kernel as the device runs it. Its effect is decided by the cells that it reads. -/
structure DeviceKernel (β : Type) where
  reads : Dispatch β → (Nat → β) → Nat → Prop
  /-- What a run may write, cell by cell. -/
  run : Dispatch β → (Nat → β) → (Nat → Option β) → Prop
  run_congr : ∀ {d m m'}, (∀ a, reads d m a → m' a = m a) → ∀ w, run d m w ↔ run d m' w

def overlay (w : Nat → Option β) (m : Nat → β) : Nat → β := fun a => (w a).getD (m a)

def blocks (s : Legacy.State) : List (Nat × Nat) := s.live.map fun e => (e.1, e.2.size)

/-- The arena on a device with unified memory, with the cells of live blocks that were written. -/
structure Unified (β : Type) where
  alloc : Legacy.State := {}
  mem : Nat → β
  init : Nat → Prop := fun _ => False

/-- The arena with a staging buffer, and `g_arena_sync_depth`. -/
structure Staged (β : Type) where
  alloc : Legacy.State := {}
  host : Nat → β
  dev : Nat → β
  depth : Nat := 0

section
variable (c : Legacy.Config) (kernels : String → DeviceKernel β)

/-- The range `[p, p + n)` does not meet the arena. -/
def Outside (p n : Nat) : Prop := p + n ≤ c.hostBase ∨ c.hostBase + c.capacity ≤ p

/-- `copy_range(src, dst, high_water_)` -/
def copyRange (high : Nat) (src dst : Nat → β) : Nat → β := fun a =>
  if c.hostBase ≤ a ∧ a < c.hostBase + high then src a else dst a

def Staged.flushToDevice (t : Staged β) : Staged β := { t with dev := copyRange c t.alloc.highWater t.host t.dev }

def Staged.invalidateFromDevice (t : Staged β) : Staged β :=
  { t with host := copyRange c t.alloc.highWater t.dev t.host }

/-- The constructor of `ArenaSyncScope`. -/
def Staged.enter (t : Staged β) : Staged β :=
  let t' := if t.depth = 0 then t.flushToDevice c else t
  { t' with depth := t.depth + 1 }

/-- The destructor of `ArenaSyncScope`. -/
def Staged.leave (t : Staged β) : Staged β :=
  let t' := if t.depth - 1 = 0 then t.invalidateFromDevice c else t
  { t' with depth := t.depth - 1 }

def stagedStep : Step (ops β) (Staged β)
  | .enter, t, _, t' => t' = t.enter c
  | .leave, t, _, t' => t' = t.leave c
  | .invalidateFromDevice, t, _, t' => t' = t.invalidateFromDevice c
  | .allocate size align, t, p, t' =>
    p = (Legacy.allocate c t.alloc size align).1 ∧ t' = { t with alloc := (Legacy.allocate c t.alloc size align).2 }
  | .deallocate p, t, _, t' => t' = { t with alloc := Legacy.deallocate t.alloc p }
  | .submit d, t, ok, t' =>
    (ok = true ∧ ∃ w, (kernels d.kernel).run d t.dev w ∧ t' = { t with dev := overlay w t.dev }) ∨ (ok = false ∧ t' = t)
  | .read p n, t, x, t' => x = (fun k : Fin n => t.host (p + k)) ∧ t' = t
  | .write p x, t, _, t' => t' = { t with host := put t.host p x }
  | _, t, _, t' => t' = t

def Unified.store (s : Unified β) (p : Nat) (x : List β) : Unified β :=
  { s with
    mem := put s.mem p x
    init := fun a => s.init a ∨ (p ≤ a ∧ a < p + x.length ∧ LiveByte (blocks s.alloc) a) }

def Unified.free (s : Unified β) (p : Nat) : Unified β :=
  let alloc := Legacy.deallocate s.alloc p
  { s with alloc := alloc, init := fun a => s.init a ∧ LiveByte (blocks alloc) a }

/-- The device wrote `w`. -/
def Unified.wrote (s : Unified β) (w : Nat → Option β) : Unified β :=
  { s with mem := overlay w s.mem, init := fun a => s.init a ∨ (w a).isSome }

def unifiedStep : Step (ops β) (Unified β)
  | .allocate size align, s, p, s' =>
    p = (Legacy.allocate c s.alloc size align).1 ∧ s' = { s with alloc := (Legacy.allocate c s.alloc size align).2 }
  | .deallocate p, s, _, s' => s' = s.free p
  | .submit d, s, ok, s' =>
    (ok = true ∧ ∃ w, (kernels d.kernel).run d s.mem w ∧ s' = s.wrote w) ∨ (ok = false ∧ s' = s)
  | .read p n, s, x, s' => x = (fun k : Fin n => s.mem (p + k)) ∧ s' = s
  | .write p x, s, _, s' => s' = s.store p x
  | _, s, _, s' => s' = s

/-- Kernels and host read only what was written, and write only into live blocks; the host
also into variables outside the arena. -/
def unified : Handler (ops β) (Unified β) where
  pre
    | .submit d, s => (∀ a, (kernels d.kernel).reads d s.mem a → s.init a) ∧
        ∀ w, (kernels d.kernel).run d s.mem w → ∀ a, (w a).isSome → LiveByte (blocks s.alloc) a
    | .read p n, s => ∀ k < n, s.init (p + k)
    | .write p x, s => (∀ k < x.length, LiveByte (blocks s.alloc) (p + k)) ∨ Outside c p x.length
    | _, _ => True
  step := unifiedStep c kernels

/-- No allocation wraps around, and the host writes nothing into the arena. -/
def careful : Handler (ops β) (Unified β) where
  pre
    | .allocate size align, s => Legacy.NoWrap s.alloc size align
    | .write p x, _ => Outside c p x.length
    | _, _ => True
  step := unifiedStep c kernels

/-- How the two memories hold what the one memory holds. -/
structure Related (g : Phase) (s : Unified β) (t : Staged β) : Prop where
  alloc : t.alloc = s.alloc
  depth : t.depth = g.depth
  inv : Legacy.Inv c s.alloc
  live : ∀ a, s.init a → LiveByte (blocks s.alloc) a
  outside : ∀ a, a < c.hostBase ∨ c.hostBase + c.capacity ≤ a → t.host a = s.mem a
  host : g.fresh = true → ∀ a, s.init a → t.host a = s.mem a
  device : 0 < g.depth → ∀ a, s.init a → t.dev a = s.mem a
  top : g.depth = 0 → g.fresh = true

end

section
variable {c : Legacy.Config} {kernels : String → DeviceKernel β} {g : Phase} {s : Unified β} {t : Staged β}

/-- The migrations cover every live block. -/
theorem liveByte_below {s : Legacy.State} (inv : Legacy.Inv c s) {a : Nat} (h : LiveByte (blocks s) a) :
    c.hostBase ≤ a ∧ a < c.hostBase + s.highWater := by
  obtain ⟨b, hb, low, high⟩ := h
  obtain ⟨e, he, rfl⟩ := List.mem_map.mp hb
  have key := inv.keys e he
  obtain ⟨-, top⟩ := inv.inside e.2 (List.mem_append_left _ (List.mem_map_of_mem he))
  have bump := inv.bump_le
  dsimp only at low high
  omega

theorem copyRange_inside {high a : Nat} {src dst : Nat → β} (h : c.hostBase ≤ a ∧ a < c.hostBase + high) :
    copyRange c high src dst a = src a := if_pos h

theorem copyRange_outside {s : Legacy.State} (inv : Legacy.Inv c s) {a : Nat} {src dst : Nat → β}
    (h : a < c.hostBase ∨ c.hostBase + c.capacity ≤ a) : copyRange c s.highWater src dst a = dst a := by
  have := inv.high_le
  exact if_neg (by omega)

theorem overlay_congr {w : Nat → Option β} {m m' : Nat → β} {a : Nat} (h : (w a).isSome ∨ m a = m' a) :
    overlay w m a = overlay w m' a := by
  unfold overlay
  cases same : w a with
  | some x => rfl
  | none => exact h.resolve_left (by simp [same])

theorem Related.enter (h : Related c g s t) : Related c { g with depth := g.depth + 1 } s (t.enter c) := by
  have below := fun a ha => liveByte_below h.inv (h.live a ha)
  have depth : (t.enter c).depth = g.depth + 1 := congrArg (· + 1) h.depth
  by_cases top : g.depth = 0
  · have flushed : t.enter c = { t.flushToDevice c with depth := t.depth + 1 } := by
      unfold Staged.enter
      rw [if_pos (h.depth.trans top)]
    rw [flushed] at depth ⊢
    refine ⟨h.alloc, depth, h.inv, h.live, h.outside, h.host, fun _ a ha => ?_, fun no => by cases no⟩
    have same := h.host (h.top top) a ha
    rw [← same]
    exact copyRange_inside (by rw [h.alloc]; exact below a ha)
  · have nested : t.enter c = { t with depth := t.depth + 1 } := by
      unfold Staged.enter
      rw [if_neg (by rw [h.depth]; exact top)]
    rw [nested] at depth ⊢
    exact ⟨h.alloc, depth, h.inv, h.live, h.outside, h.host, fun _ => h.device (Nat.pos_of_ne_zero top), fun no => by cases no⟩

theorem Related.invalidateFromDevice (h : Related c g s t) (deep : 0 < g.depth) :
    Related c { g with fresh := true } s (t.invalidateFromDevice c) := by
  refine ⟨h.alloc, h.depth, h.inv, h.live, fun a out => ?_, fun _ a ha => ?_, h.device, fun _ => rfl⟩
  · have outside : copyRange c s.alloc.highWater t.dev t.host a = t.host a := copyRange_outside h.inv out
    rw [← h.outside a out, ← outside, ← h.alloc]
    rfl
  · rw [← h.device deep a ha]
    exact copyRange_inside (by rw [h.alloc]; exact liveByte_below h.inv (h.live a ha))

theorem Related.leave (h : Related c g s t) (deep : 0 < g.depth) :
    Related c ⟨g.depth - 1, g.fresh || decide (g.depth = 1)⟩ s (t.leave c) := by
  have depth : (t.leave c).depth = g.depth - 1 := congrArg (· - 1) h.depth
  by_cases outer : g.depth = 1
  · have invalidated : t.leave c = { t.invalidateFromDevice c with depth := t.depth - 1 } := by
      unfold Staged.leave
      rw [if_pos (by rw [h.depth]; omega)]
    have h' := h.invalidateFromDevice deep
    rw [invalidated] at depth ⊢
    exact ⟨h'.alloc, depth, h'.inv, h'.live, h'.outside, fun _ => h'.host rfl, fun _ => h'.device deep,
      fun _ => by simp [outer]⟩
  · have nested : t.leave c = { t with depth := t.depth - 1 } := by
      unfold Staged.leave
      rw [if_neg (by rw [h.depth]; omega)]
    rw [nested] at depth ⊢
    exact ⟨h.alloc, depth, h.inv, h.live, h.outside, fun fresh => h.host (by simpa [outer] using fresh), fun _ => h.device deep,
      fun no => absurd (show g.depth - 1 = 0 from no) (by omega)⟩

theorem Related.wrote (h : Related c g s t) (deep : 0 < g.depth) {w : Nat → Option β}
    (live : ∀ a, (w a).isSome → LiveByte (blocks s.alloc) a) :
    Related c { g with fresh := false } (s.wrote w) { t with dev := overlay w t.dev } := by
  refine ⟨h.alloc, h.depth, h.inv, fun a ha => ha.elim (h.live a) (live a), fun a out => ?_, fun no => (by cases no),
    fun _ a ha => overlay_congr (ha.symm.imp_right (h.device deep a)), fun no => absurd no (Nat.ne_of_gt deep)⟩
  rw [h.outside a out]
  cases same : w a with
  | none => exact (show overlay w s.mem a = s.mem a by unfold overlay; rw [same]; rfl).symm
  | some x =>
    have := liveByte_below h.inv (live a (by rw [same]; rfl))
    have := h.inv.high_le
    omega

/-- The host writes its own memory: into live blocks outside all scopes, or outside the arena. -/
theorem Related.store (h : Related c g s t) {p : Nat} {x : List β}
    (place : g.depth = 0 ∨ Outside c p x.length) :
    Related c g (s.store p x) { t with host := put t.host p x } := by
  refine ⟨h.alloc, h.depth, h.inv, fun a ha => ha.elim (h.live a) fun new => new.2.2,
    fun a out => put_congr x (h.outside a out), fun fresh a ha => ?_, fun deep a ha => ?_, h.top⟩
  · rcases ha with old | ⟨low, high, -⟩
    · exact put_congr x (h.host fresh a old)
    · exact put_inside ⟨low, high⟩
  · have out := place.resolve_left (Nat.ne_of_gt deep)
    unfold Outside at out
    have live : LiveByte (blocks s.alloc) a := ha.elim (h.live a) fun new => new.2.2
    have := liveByte_below h.inv live
    have := h.inv.high_le
    have apart : put s.mem p x a = s.mem a := by
      unfold put
      split
      · rw [List.getElem?_eq_none (by omega)]
        rfl
      · rfl
    refine Eq.trans ?_ apart.symm
    exact h.device deep a (ha.resolve_right fun new => by omega)

theorem Related.free (h : Related c g s t) (p : Nat) :
    Related c g (s.free p) { t with alloc := Legacy.deallocate t.alloc p } :=
  ⟨congrArg (Legacy.deallocate · p) h.alloc, h.depth, Legacy.deallocate_inv h.inv p, fun _ ha => ha.2, h.outside,
    fun fresh a ha => h.host fresh a ha.1, fun deep a ha => h.device deep a ha.1, h.top⟩

theorem Related.allocate (h : Related c g s t) (cap : c.capacity < 2 ^ 64) {size align : Nat}
    (safe : Legacy.NoWrap s.alloc size align) :
    Related c g { s with alloc := (Legacy.allocate c s.alloc size align).2 }
      { t with alloc := (Legacy.allocate c t.alloc size align).2 } := by
  have same : (Legacy.allocate c t.alloc size align).2 = (Legacy.allocate c s.alloc size align).2 := by rw [h.alloc]
  rcases Legacy.allocate_served h.inv cap safe with null | ⟨off, need, -, -, -, -, inv, -, live⟩
  · rw [null] at same ⊢
    exact ⟨same, h.depth, h.inv, h.live, h.outside, h.host, h.device, h.top⟩
  · refine ⟨same, h.depth, inv, fun a ha => ?_, h.outside, h.host, h.device, h.top⟩
    show LiveByte (blocks (Legacy.allocate c s.alloc size align).2) a
    rw [blocks, live]
    exact (h.live a ha).cons

theorem contains_allocated (inv : Legacy.Inv c s.alloc) (cap : c.capacity < 2 ^ 64) (pos : 0 < c.hostBase) {ctx : Context}
    (here : ctx.arenaValid = true ∧ ctx.hostBase = c.hostBase ∧ ctx.capacity = c.capacity) {size align : Nat}
    (safe : Legacy.NoWrap s.alloc size align) :
    (Legacy.allocate c s.alloc size align).1 = 0 ∨ ctx.contains (Legacy.allocate c s.alloc size align).1 = true := by
  rcases Legacy.allocate_served inv cap safe with null | ⟨off, need, -, nonempty, top, ptr, -⟩
  · exact Or.inl (congrArg Prod.fst null)
  · obtain ⟨valid, base, size⟩ := here
    unfold Context.contains
    rw [ptr, base, size]
    exact Or.inr (decide_eq_true ⟨valid, by omega, by omega, by omega⟩)

end

/-! ### The migrations of a reachable arena -/

/-- The blocks of an arena never overlap, and the migrations copy every live one. -/
structure NonOverlapping (c : Legacy.Config) (s : Legacy.State) : Prop where
  inv : Legacy.Inv c s
  allocate : ∀ size k, size ≤ 2 ^ 62 → k ≤ 62 →
    Legacy.allocate c s size (2 ^ k) = (0, s) ∨ ∃ b, (Legacy.allocate c s size (2 ^ k)).1 = c.hostBase + b.offset ∧
      (Legacy.allocate c s size (2 ^ k)).2.live = (c.hostBase + b.offset, b) :: s.live ∧
      b.offset % max (2 ^ k) 256 = 0 ∧ size ≤ b.size ∧ ∀ e ∈ s.live, Legacy.Apart b e.2
  deallocate : ∀ p, (∀ e ∈ s.live, e.1 ≠ p) → Legacy.deallocate s p = s
  covered : ∀ (src dst : Nat → β) a, LiveByte (blocks s) a → copyRange c s.highWater src dst a = src a

theorem arena_nonOverlapping {c : Legacy.Config} {s : Legacy.State} (cap : c.capacity < 2 ^ 62)
    (reach : Legacy.Reach c s) : NonOverlapping (β := β) c s where
  inv := reach.inv cap
  allocate _ _ hs hk := Legacy.allocate_spec (reach.inv cap) cap hs hk
  deallocate _ foreign := Legacy.deallocate_foreign foreign
  covered _ _ _ live := copyRange_inside (liveByte_below (reach.inv cap) live)

/-- A block is freed and a smaller one is cut out of it. -/
theorem arena_nonOverlapping_reuse :
    NonOverlapping (β := Nat) ⟨4096, 65536⟩ (Legacy.allocate ⟨4096, 65536⟩
      (Legacy.deallocate (Legacy.allocate ⟨4096, 65536⟩ {} 4000 (2 ^ 4)).2 4096) 1000 (2 ^ 9)).2 :=
  arena_nonOverlapping (by decide)
    (.allocate (.deallocate (.allocate .fresh (by decide) (by decide)) 4096) (by decide) (by decide))

end Parallax.Launcher
