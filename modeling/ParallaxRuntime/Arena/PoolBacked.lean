import ParallaxRuntime.Arena.Basic
import ParallaxRuntime.Pool.Isolation

/-!
# The arena over the heap pool

When the arena adopted the heap pool, its blocks are pool allocations and the pool's
reservation is the device buffer.
-/

namespace Parallax.Arena.PoolBacked
open Memory Pool

/-- `UnifiedArena::allocate` in pool-backed mode. -/
def allocate (env : Env) (s : Pool.State) (size align : Nat) : Option (Nat × Pool.State) :=
  if size = 0 then some (0, s) else pxPoolAlloc env s size (max align 256)

def deallocate (s : Pool.State) (p : Nat) : Pool.State := if p = 0 then s else pxPoolFree s p

/-- The pool with the allocations that are live in it. -/
structure Holds (base reservation : Nat) (s : Pool.State) (L : List Live) : Prop where
  held : ∃ bs fl, Held s bs fl L
  base : s.base = base
  reservation : s.reservation = reservation

def blocks (s : Pool.State) (L : List Live) : List (Nat × Nat) := L.map fun l => (l.ptr, pxPoolUsableSize s l.ptr)

section
variable {base res : Nat} {s s' : Pool.State} {L : List Live}

theorem userByte_iff {a : Nat} : UserByte s L a ↔ LiveByte (blocks s L) a := by
  unfold UserByte LiveByte blocks
  simp

theorem blocks_congr (h : Untouched s s' L) : blocks s' L = blocks s L :=
  List.map_congr_left fun l hl => by rw [(h l hl).1]

theorem mem_eq_of_untouched (h : Untouched s s' L) {a : Nat} (ha : LiveByte (blocks s L) a) : s'.mem a = s.mem a := by
  obtain ⟨l, hl, low, high⟩ := userByte_iff.mpr ha
  exact (h l hl).2 a (by omega) high

theorem Holds.of_statics {L' : List Live} {bs : List Block} {fl : Nat → List Nat} (h : Holds base res s L)
    (statics : SameStatics s s') (held : Held s' bs fl L') : Holds base res s' L' :=
  ⟨⟨bs, fl, held⟩, statics.1.trans h.base, statics.2.1.trans h.reservation⟩

theorem Holds.reserved (h : Holds base res s L) {a : Nat} (own : InReservation s a) : base ≤ a ∧ a < base + res := by
  unfold InReservation at own
  rwa [h.base, h.reservation] at own

theorem mem_of_usable {a : Nat} {m m' : Mem} (h : Usable base res (blocks s L) a) (live : LiveByte (blocks s L) a → m' a = m a)
    (outside : ¬ (base ≤ a ∧ a < base + res) → m' a = m a) : m' a = m a := by
  by_cases inside : base ≤ a ∧ a < base + res
  · exact live (h inside)
  · exact outside inside

theorem blocks_inside (h : Holds base res s L) : ∀ b ∈ blocks s L, 0 < b.1 ∧ base ≤ b.1 ∧ b.1 + b.2 ≤ base + res := by
  intro b hb
  obtain ⟨l, hl, rfl⟩ := List.mem_map.mp hb
  obtain ⟨bs, fl, held⟩ := h.held
  obtain ⟨c, hc⟩ := held.owns l hl
  have size := hc.usable held.rep
  have lower := hc.lower
  have bounds := held.rep.bounds hc.mem
  rw [h.base, h.reservation] at bounds
  dsimp only
  omega

theorem blocks_disjoint (h : Holds base res s L) : (blocks s L).Pairwise fun b b' => Apart b b' ∧ b.1 ≠ b'.1 := by
  obtain ⟨bs, fl, held⟩ := h.held
  unfold blocks
  rw [List.pairwise_map]
  refine held.apart.imp_of_mem fun {l l'} hl hl' ne => ⟨?_, fun same => ne (by dsimp only at same; rw [same])⟩
  have := held.disjoint hl hl' ne
  unfold Apart
  dsimp only
  omega

theorem holds_allocate (h : Holds base res s L) (env : Env) {size : Nat} (hs : size ≤ 2 ^ 62) :
    ∃ p s', allocate env s size 256 = some (p, s') ∧ Holds base res s' (grown L p size 256) ∧
      Untouched s s' L ∧ (p ≠ 0 → size ≤ pxPoolUsableSize s' p) := by
  unfold allocate
  split
  · exact ⟨0, s, rfl, h, Untouched.refl s L, fun no => absurd rfl no⟩
  · obtain ⟨bs, fl, held⟩ := h.held
    obtain ⟨p, s', bs', fl', result, held', untouched, statics⟩ :=
      held_alloc held env (noOverflow_of_small hs (by decide : 256 ≤ 2 ^ 62))
    refine ⟨p, s', result, h.of_statics statics held', untouched, fun nonnull => ?_⟩
    rw [grown, if_neg nonnull] at held'
    obtain ⟨b, hb⟩ := held'.owns _ List.mem_cons_self
    have usable := hb.usable held'.rep
    have upper := hb.upper
    dsimp only at usable upper
    omega

theorem allocate_outside (h : Holds base res s L) {env : Env} {size p : Nat} (hs : size ≤ 2 ^ 62)
    (result : allocate env s size 256 = some (p, s')) {a : Nat} (outside : ¬ (base ≤ a ∧ a < base + res)) : s'.mem a = s.mem a := by
  unfold allocate at result
  split at result
  · cases result
    rfl
  · obtain ⟨bs, fl, held⟩ := h.held
    exact pxPoolAlloc_outside held (noOverflow_of_small hs (by decide : 256 ≤ 2 ^ 62)) result fun own => outside (h.reserved own)

end

/-- The arena over a pool whose reservation is `res` bytes at `base`. -/
def arena (env : Env) (base res : Nat) (small : res ≤ 2 ^ 62) : ArenaModel UInt8 where
  State := Pool.State × List Live
  base := base
  capacity := res
  mem s := s.1.mem
  setMem s m := ({ s.1 with mem := m }, s.2)
  live s := blocks s.1 s.2
  Valid s := Holds base res s.1 s.2
  Allocates s size align p s' := allocate env s.1 size align = some (p, s'.1) ∧ s'.2 = grown s.2 p size (max align 256)
  Frees s p s' := deallocate s.1 p = s'.1 ∧ s'.2 = s.2.filter fun l => l.ptr ≠ p
  inside h := blocks_inside h
  disjoint h := blocks_disjoint h
  small := small
  allocates {s size} h hs := by
    obtain ⟨p, s', result, -⟩ := holds_allocate h env hs
    exact ⟨p, (s', grown s.2 p size 256), result, rfl⟩
  allocate_spec {s size p s'} h hs step := by
    obtain ⟨result, list⟩ := step
    obtain ⟨p', s₁, result', holds, untouched, covers⟩ := holds_allocate h env hs
    rw [result] at result'
    obtain ⟨same, state⟩ := Prod.mk.inj (Option.some.inj result')
    subst same
    rw [← state] at holds untouched covers
    rw [Nat.max_self] at list
    rw [list]
    refine ⟨holds, fun a ha => mem_of_usable ha (mem_eq_of_untouched untouched) fun out => allocate_outside h hs result out, ?_⟩
    unfold grown
    by_cases null : p = 0
    · rw [if_pos null]
      exact Or.inl ⟨null, blocks_congr untouched⟩
    · rw [if_neg null]
      refine Or.inr ⟨null, pxPoolUsableSize s'.1 p, covers null, ?_⟩
      exact congrArg _ (blocks_congr untouched)
  frees {s b} _ _ := ⟨(deallocate s.1 b.1, s.2.filter fun l => l.ptr ≠ b.1), rfl, rfl⟩
  free_spec {s b s'} h hb step := by
    obtain ⟨result, list⟩ := step
    obtain ⟨l, hl, rfl⟩ := List.mem_map.mp hb
    obtain ⟨bs, fl, held⟩ := h.held
    obtain ⟨bs', fl', held', untouched, statics⟩ := held_free held hl
    have nonnull : l.ptr ≠ 0 := by
      obtain ⟨c, hc⟩ := held.owns l hl
      have := hc.ptr_pos
      omega
    have state : s'.1 = pxPoolFree s.1 l.ptr := by
      rw [← result, deallocate, if_neg nonnull]
    have list' : s'.2 = dropped s.2 l := list
    rw [state, list']
    refine ⟨h.of_statics statics held', ?_, fun a ha => ?_⟩
    · rw [blocks_congr untouched]
      unfold blocks dropped released
      rw [List.filter_map]
      rfl
    · refine mem_of_usable ha (fun live => mem_eq_of_untouched untouched ?_) fun out => ?_
      · rw [← blocks_congr untouched]
        exact live
      · exact pxPoolFree_outside held hl fun own => out (h.reserved own)
  write_spec {s m} h outside := by
    obtain ⟨bs, fl, held⟩ := h.held
    obtain ⟨held', sizes⟩ := held_write held fun a own ha => outside a fun usable =>
      ha (userByte_iff.mpr (usable (h.reserved own)))
    exact ⟨⟨⟨bs, fl, held'⟩, h.base, h.reservation⟩, List.map_congr_left fun l hl => by rw [sizes l hl], rfl⟩

end Parallax.Arena.PoolBacked
