import ParallaxRuntime.Pool.BlockFree

/-!
# The representation invariant of the pool

Every state that `block_alloc` and `block_free` reach from a fresh reservation is
`Consistent`: the walk by header sizes, the boundary tags and the bins agree.
-/

namespace Parallax.Pool
open Memory

/-! ### The walk by header sizes -/

/-- The headers met from `lo` on, as in the loop of `check_locked`. -/
def walk (m : Mem) (hi : Nat) : Nat → Nat → List Nat
  | 0, _ => []
  | fuel + 1, lo => if lo < hi then lo :: walk m hi fuel (lo + bsize m lo) else []

def State.blocks (s : State) : List Nat := walk s.mem (s.base + s.reservation) s.fuel s.base

/-- The headers `Bs` lead from `lo` to `hi` exactly. -/
def Walks (m : Mem) : Nat → List Nat → Nat → Prop
  | lo, [], hi => lo = hi
  | lo, B :: Bs, hi => B = lo ∧ Walks m (lo + bsize m B) Bs hi

structure Consistent (s : State) : Prop where
  tiles : Walks s.mem s.base s.blocks (s.base + s.reservation)
  sizes : ∀ B ∈ s.blocks, bsize s.mem B % 16 = 0 ∧ 32 ≤ bsize s.mem B
  footers : ∀ B ∈ s.blocks, load64 s.mem (B + bsize s.mem B - FTR) = bsize s.mem B
  coalesced : s.blocks.IsChain fun A B => allocated s.mem A = true ∨ allocated s.mem B = true
  bins : ∃ fl : Nat → List Nat, (∀ i, IsList 0 (flNext s.mem) (flPrev s.mem) (s.bins i) (fl i)) ∧
    (∀ i, (fl i).Nodup) ∧
    ∀ i B, B ∈ fl i ↔ B ∈ s.blocks ∧ allocated s.mem B = false ∧ binIndex (bsize s.mem B) = i
  high : ∀ B ∈ s.blocks, allocated s.mem B = true → B - s.base + bsize s.mem B ≤ s.high

section
variable {s : State} {bs : List Block} {fl : Nat → List Nat}

theorem walk_of_tiles {m : Mem} {lo hi fuel : Nat} (h : Tiles lo bs hi)
    (sizes : ∀ b ∈ bs, bsize m b.addr = b.size) (enough : bs.length < fuel) :
    walk m hi fuel lo = bs.map Block.addr := by
  induction bs generalizing lo fuel with
  | nil =>
    have same : lo = hi := h
    cases fuel with
    | zero => rfl
    | succ fuel => rw [walk, if_neg (by omega)]; rfl
  | cons b bs ih =>
    obtain ⟨addr, pos, rest⟩ := tiles_cons.mp h
    rw [List.length_cons] at enough
    obtain ⟨fuel, rfl⟩ : ∃ n, fuel = n + 1 := ⟨fuel - 1, by omega⟩
    have := rest.le
    rw [walk, if_pos (by omega), ← addr, sizes b List.mem_cons_self, addr,
      ih rest (fun c hc => sizes c (List.mem_cons_of_mem b hc)) (by omega), List.map_cons, addr]

theorem walks_of_tiles {m : Mem} {lo hi : Nat} (h : Tiles lo bs hi)
    (sizes : ∀ b ∈ bs, bsize m b.addr = b.size) : Walks m lo (bs.map Block.addr) hi := by
  induction bs generalizing lo with
  | nil => exact h
  | cons b bs ih =>
    obtain ⟨addr, -, rest⟩ := tiles_cons.mp h
    refine ⟨addr, ?_⟩
    rw [sizes b List.mem_cons_self]
    exact ih rest fun c hc => sizes c (List.mem_cons_of_mem b hc)

/-- The walk meets the blocks of the representation. -/
theorem Rep.blocks_eq (h : Rep s bs fl) : s.blocks = bs.map Block.addr := by
  have room := h.tiles.length_le fun b hb => (h.sizes b hb).1
  refine walk_of_tiles h.tiles (fun b hb => h.bsize_eq hb) ?_
  unfold State.fuel MIN_BSIZE
  omega

theorem Rep.toConsistent (h : Rep s bs fl) : Consistent s := by
  have block : ∀ {P : Nat → Prop}, (∀ b ∈ bs, P b.addr) → ∀ B ∈ bs.map Block.addr, P B := fun hP B hB => by
    obtain ⟨b, hb, rfl⟩ := List.mem_map.mp hB
    exact hP b hb
  constructor
  · rw [h.blocks_eq]
    exact walks_of_tiles h.tiles fun b hb => h.bsize_eq hb
  · rw [h.blocks_eq]
    refine block fun b hb => ?_
    rw [h.bsize_eq hb]
    exact (h.sizes b hb).symm
  · rw [h.blocks_eq]
    refine block fun b hb => ?_
    rw [h.bsize_eq hb]
    exact (h.tags b hb).footer
  · rw [h.blocks_eq, List.isChain_map]
    refine h.coalesced.imp_of_mem_imp fun a b ha hb apart => ?_
    rw [h.allocated_eq ha, h.allocated_eq hb]
    exact apart
  · refine ⟨fl, h.lists.list, h.lists.nodup, fun i B => ?_⟩
    rw [h.blocks_eq, h.listed, List.mem_map]
    constructor
    · rintro ⟨b, hb, rfl, free, bin⟩
      exact ⟨⟨b, hb, rfl⟩, by rw [h.allocated_eq hb, free], by rw [h.bsize_eq hb, bin]⟩
    · rintro ⟨⟨b, hb, rfl⟩, free, bin⟩
      rw [h.allocated_eq hb] at free
      rw [h.bsize_eq hb] at bin
      exact ⟨b, hb, rfl, free, bin⟩
  · rw [h.blocks_eq]
    refine block fun b hb used => ?_
    rw [h.allocated_eq hb] at used
    have := h.high b hb used
    have := h.bounds hb
    rw [h.bsize_eq hb]
    omega

end

/-! ### The fresh pool -/

/-- The size that `ensure_init_locked` asks `mmap` for. -/
def Env.reservation (env : Env) : Nat := roundUp (if env.mib > 0 then wshl env.mib 20 else 8 <<< 30) 4096

/-- What `mmap` promises of a mapping of `size` bytes at `p`. -/
structure Mapped (p size : Nat) : Prop where
  nonnull : 0 < p
  paged : p % 4096 = 0
  length : 0 < size
  inSpace : p + size < 2 ^ 64

theorem roundUp_aligned (x k : Nat) (hk : k < 64) : roundUp x (2 ^ k) % 2 ^ k = 0 := by
  have lt : wsub (wadd x (2 ^ k)) 1 < 2 ^ 64 := Nat.mod_lt _ (by decide)
  rw [roundUp, and_wnot_two_pow k hk lt]
  exact Nat.mul_mod_left _ _

theorem ensureInitLocked_fresh {env : Env} {p : Nat} (m : Mem) (maps : env.mmap = some p) :
    ensureInitLocked env { mem := m } = (true,
      putFree { mem := m, base := p, reservation := env.reservation, initDone := true } p env.reservation) := by
  unfold ensureInitLocked
  rw [maps]
  rfl

/-- The pool starts as one free block. -/
theorem init_rep {env : Env} {p : Nat} (m : Mem) (maps : env.mmap = some p) (mapped : Mapped p env.reservation) :
    ∃ fl, Rep (ensureInitLocked env { mem := m }).2 [⟨p, env.reservation, false⟩] fl := by
  obtain ⟨pos, paged, length, space⟩ := mapped
  have aligned : env.reservation % 4096 = 0 := roundUp_aligned _ 12 (by decide)
  have hole : Hole { mem := m, base := p, reservation := env.reservation, initDone := true }
      { mem := m, base := p, reservation := env.reservation, initDone := true }
      (fun c => c ∈ ([] : List Block) ++ []) p (p + env.reservation) fun _ => True := by
    refine ⟨⟨fun _ => [], ⟨?_, ?_, ?_, ?_, ?_⟩, ?_, ?_, ?_⟩, ?_, ?_, ?_, ?_, ⟨rfl, rfl, rfl, rfl⟩, rfl,
      fun _ _ => rfl, fun _ _ _ => trivial, fun _ _ _ _ _ _ => trivial⟩
    · exact fun i => ⟨rfl, trivial⟩
    all_goals simp
  rw [ensureInitLocked_fresh m maps]
  exact (putFree_rep hole ⟨by omega, by omega⟩ pos (by dsimp only; omega) (by dsimp only; omega) rfl rfl
    (List.isChain_singleton _) (by simp)).1

/-! ### Reachable states -/

/-- The states that sequences of block operations reach from a fresh pool. -/
inductive BlockReach : State → Prop
  | init {env : Env} {p : Nat} (m : Mem) (maps : env.mmap = some p) (mapped : Mapped p env.reservation) :
      BlockReach (ensureInitLocked env { mem := m }).2
  | alloc {s s' : State} {need B : Nat} (reach : BlockReach s) (min : 32 ≤ need) (aligned : need % 16 = 0)
      (result : blockAlloc s need = some (B, s')) : BlockReach s'
  | free {s : State} {B : Nat} (reach : BlockReach s) (block : B ∈ s.blocks)
      (live : allocated s.mem B = true) : BlockReach (blockFree s B)

theorem BlockReach.rep {s : State} (reach : BlockReach s) : ∃ bs fl, Rep s bs fl := by
  induction reach with
  | init m maps mapped => exact ⟨_, init_rep m maps mapped⟩
  | alloc _ min aligned result ih =>
    obtain ⟨bs, fl, h⟩ := ih
    rcases blockAlloc_cases h ⟨min, aligned⟩ with ⟨none, -⟩ | ⟨pre, b, post, -, -, -, took, ⟨fl', rep⟩, -⟩
    · rw [none] at result
      cases result
      exact ⟨bs, fl, h⟩
    · rw [took] at result
      cases result
      exact ⟨_, fl', rep⟩
  | free _ block live ih =>
    obtain ⟨bs, fl, h⟩ := ih
    rw [h.blocks_eq] at block
    obtain ⟨b, hb, rfl⟩ := List.mem_map.mp block
    rw [h.allocated_eq hb] at live
    obtain ⟨pre, post, rfl⟩ := List.append_of_mem hb
    obtain ⟨pre', r, post', rep, -⟩ := blockFree_rep h live
    exact ⟨_, rep⟩

/-- Every reachable state is consistent, and the search of `block_alloc` ends in it. -/
theorem BlockReach.consistent {s : State} (reach : BlockReach s) :
    Consistent s ∧ ∀ need, 32 ≤ need → need % 16 = 0 → (blockAlloc s need).isSome := by
  obtain ⟨bs, fl, h⟩ := reach.rep
  refine ⟨h.toConsistent, fun need min aligned => ?_⟩
  rcases blockAlloc_cases h ⟨min, aligned⟩ with ⟨none, -⟩ | ⟨_, _, _, -, -, -, took, -⟩
  · rw [none]; rfl
  · rw [took]; rfl

/-- After two blocks are given out and the first is freed. -/
theorem BlockReach.consistent_freed : ∃ s₁ s₂,
    blockAlloc (ensureInitLocked ⟨some 65536, 1⟩ { mem := fun _ => 0 }).2 64 = some (65536, s₁) ∧
    blockAlloc s₁ 128 = some (65600, s₂) ∧ Consistent (blockFree s₂ 65536) ∧
    ∀ need, 32 ≤ need → need % 16 = 0 → (blockAlloc (blockFree s₂ 65536) need).isSome := by
  let start := (ensureInitLocked ⟨some 65536, 1⟩ { mem := fun _ => 0 }).2
  have first : BlockReach start := .init (fun _ => 0) rfl ⟨by decide, by decide, by decide, by decide⟩
  have twice : (blockAlloc start 64).bind (fun r => (blockAlloc r.2 128).map fun r' =>
      (r.1, r'.1, decide (65536 ∈ r'.2.blocks) && allocated r'.2.mem 65536)) = some (65536, 65600, true) := by
    decide +kernel
  obtain ⟨r, result, rest⟩ := Option.bind_eq_some_iff.mp twice
  obtain ⟨r', result', answer⟩ := Option.map_eq_some_iff.mp rest
  obtain ⟨B, s₁⟩ := r
  obtain ⟨B', s₂⟩ := r'
  obtain ⟨rfl, rfl, live⟩ : B = 65536 ∧ B' = 65600 ∧ (decide (65536 ∈ s₂.blocks) && allocated s₂.mem 65536) = true := by
    simpa using answer
  rw [Bool.and_eq_true, decide_eq_true_iff] at live
  have second := first.alloc (by decide) (by decide) result
  have third := second.alloc (by decide) (by decide) result'
  exact ⟨s₁, s₂, result, result', BlockReach.consistent (third.free live.1 live.2)⟩

end Parallax.Pool
