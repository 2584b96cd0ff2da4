import ParallaxRuntime.Pool.Isolation
import ParallaxRuntime.Ownership.Ledger

/-!
# Completeness and recovery of the pool

Coalescing leaves no two free blocks side by side, so a maximal run of bytes outside
allocated blocks is one free block, and the bins find it if it is large enough. Once every block
that was given out is freed again, one free block is all there is.
-/

namespace Parallax.Pool
open Memory

/-! ### Reachable pools -/

/-- The bytes between the tags of an allocated block. -/
def PayloadIn (s : State) (a : Nat) : Prop :=
  ∃ B ∈ s.blocks, allocated s.mem B = true ∧ B + HDR ≤ a ∧ a < B + bsize s.mem B - FTR

/-- The states that block operations and writes into payloads reach from a fresh pool. -/
inductive PoolReach : State → Prop
  | init {env : Env} {p : Nat} (m : Mem) (maps : env.mmap = some p) (mapped : Mapped p env.reservation) :
      PoolReach (ensureInitLocked env { mem := m }).2
  | alloc {s s' : State} {need B : Nat} (reach : PoolReach s) (min : 32 ≤ need) (aligned : need % 16 = 0)
      (result : blockAlloc s need = some (B, s')) : PoolReach s'
  | free {s : State} {B : Nat} (reach : PoolReach s) (block : B ∈ s.blocks) (live : allocated s.mem B = true) :
      PoolReach (blockFree s B)
  | write {s : State} {m : Mem} (reach : PoolReach s) (inside : ∀ a, ¬ PayloadIn s a → m a = s.mem a) :
      PoolReach { s with mem := m }

section
variable {s : State} {bs : List Block} {fl : Nat → List Nat}

theorem Rep.mem_blocks (h : Rep s bs fl) {B : Nat} : B ∈ s.blocks ↔ ∃ b ∈ bs, b.addr = B := by
  rw [h.blocks_eq]
  exact List.mem_map

theorem Rep.payloadIn (h : Rep s bs fl) {a : Nat} : PayloadIn s a ↔ PayloadByte bs a := by
  constructor
  · rintro ⟨B, hB, live, low, high⟩
    obtain ⟨b, hb, rfl⟩ := h.mem_blocks.mp hB
    rw [h.allocated_eq hb] at live
    rw [h.bsize_eq hb] at high
    exact ⟨b, hb, live, low, high⟩
  · rintro ⟨b, hb, used, low, high⟩
    refine ⟨b.addr, h.mem_blocks.mpr ⟨b, hb, rfl⟩, ?_, low, ?_⟩
    · rw [h.allocated_eq hb, used]
    · rw [h.bsize_eq hb]
      exact high

theorem PoolReach.rep (reach : PoolReach s) :
    (∃ bs fl, Rep s bs fl) ∧ s.initDone = true ∧ s.initFailed = false := by
  induction reach with
  | init m maps mapped =>
    refine ⟨⟨_, init_rep m maps mapped⟩, ?_⟩
    rw [ensureInitLocked_fresh m maps]
    exact ⟨rfl, rfl⟩
  | alloc _ min aligned result ih =>
    obtain ⟨⟨bs, fl, h⟩, done, ok⟩ := ih
    rcases blockAlloc_cases h ⟨min, aligned⟩ with ⟨none, -⟩ | ⟨_, b, _, -, -, -, took, ⟨fl', rep⟩, -, statics⟩
    · rw [none] at result
      cases result
      exact ⟨⟨bs, fl, h⟩, done, ok⟩
    · rw [took] at result
      cases result
      exact ⟨⟨_, fl', rep⟩, statics.2.2.1.trans done, statics.2.2.2.trans ok⟩
  | free _ block live ih =>
    obtain ⟨⟨bs, fl, h⟩, done, ok⟩ := ih
    obtain ⟨b, hb, rfl⟩ := h.mem_blocks.mp block
    rw [h.allocated_eq hb] at live
    obtain ⟨pre, post, rfl⟩ := List.append_of_mem hb
    obtain ⟨pre', r, post', rep, -, -, -, statics⟩ := blockFree_rep h live
    exact ⟨⟨_, rep⟩, statics.2.2.1.trans done, statics.2.2.2.trans ok⟩
  | write _ inside ih =>
    obtain ⟨⟨bs, fl, h⟩, done, ok⟩ := ih
    exact ⟨⟨bs, fl, h.payload_write fun a _ out => inside a fun here => out (h.payloadIn.mp here)⟩, done, ok⟩

end

/-! ### The blocks that are given out -/

/-- Runs of the pool that `ensure_init_locked` makes at `p`, with the blocks that `block_alloc` has given out and
`block_free` has not taken back. -/
inductive BlockRun (env : Env) (p : Nat) : State → List Nat → Prop
  | init (m : Mem) (maps : env.mmap = some p) (mapped : Mapped p env.reservation) :
      BlockRun env p (ensureInitLocked env { mem := m }).2 []
  | alloc {s s' : State} {out : List Nat} {need B : Nat} (run : BlockRun env p s out) (min : 32 ≤ need)
      (aligned : need % 16 = 0) (result : blockAlloc s need = some (B, s')) : BlockRun env p s' (Ownership.granted out B)
  | free {s : State} {out : List Nat} {B : Nat} (run : BlockRun env p s out) (given : B ∈ out) :
      BlockRun env p (blockFree s B) (out.erase B)
  | write {s : State} {out : List Nat} {m : Mem} (run : BlockRun env p s out)
      (inside : ∀ a, ¬ PayloadIn s a → m a = s.mem a) : BlockRun env p { s with mem := m } out

/-- The blocks given out are the used ones, each once, in a pool that is where it was made. -/
structure Booked (env : Env) (p : Nat) (out : List Nat) (s : State) (bs : List Block) (fl : Nat → List Nat) : Prop
    extends Rep s bs fl where
  given : ∀ {B}, B ∈ out ↔ ∃ b ∈ bs, b.used = true ∧ b.addr = B
  once : out.Nodup
  place : s.base = p ∧ s.reservation = env.reservation
  length : 0 < env.reservation

section
variable {env : Env} {p : Nat} {out : List Nat} {s s' : State} {bs pre post : List Block} {b : Block} {fl : Nat → List Nat}

theorem Booked.live (h : Booked env p out s bs fl) {B : Nat} : B ∈ out ↔ B ∈ s.blocks ∧ allocated s.mem B = true := by
  rw [h.given, h.mem_blocks]
  constructor
  · rintro ⟨b, hb, used, rfl⟩
    exact ⟨⟨b, hb, rfl⟩, (h.allocated_eq hb).trans used⟩
  · rintro ⟨⟨b, hb, rfl⟩, live⟩
    exact ⟨b, hb, (h.allocated_eq hb).symm.trans live, rfl⟩

/-- The block that is given out was free, and no other changes hands. -/
theorem Booked.taken {need : Nat} (h : Booked env p out s (pre ++ b :: post) fl) (free : b.used = false)
    {fl' : Nat → List Nat} (rep : Rep s' (pre ++ carve b need ++ post) fl') (statics : SameStatics s s') :
    Booked env p (b.addr :: out) s' (pre ++ carve b need ++ post) fl' where
  toRep := rep
  given := by
    intro B
    rw [List.mem_cons, h.given]
    constructor
    · rintro (rfl | ⟨c, hc, used, rfl⟩)
      · exact ⟨carved b need, mem_mid.mpr (Or.inl (carved_mem b need)), rfl, rfl⟩
      · refine ⟨c, mem_mid.mpr (Or.inr ((mem_mid_cons.mp hc).resolve_left ?_)), used, rfl⟩
        rintro rfl
        rw [used] at free
        cases free
    · rintro ⟨c, hc, used, rfl⟩
      rcases mem_mid.mp hc with hc | hc
      · rcases mem_carve hc with rfl | ⟨-, rfl⟩
        · exact Or.inl rfl
        · cases used
      · exact Or.inr ⟨c, mem_mid_cons.mpr (Or.inr hc), used, rfl⟩
  once := by
    refine List.nodup_cons.mpr ⟨fun held => ?_, h.once⟩
    obtain ⟨c, hc, used, same⟩ := h.given.mp held
    rw [h.tiles.eq_of_addr hc (mem_mid_cons.mpr (Or.inl rfl)) same, free] at used
    cases used
  place := ⟨statics.1.trans h.place.1, statics.2.1.trans h.place.2⟩
  length := h.length

/-- The block that is freed is used no more, and the others are as they were. -/
theorem Booked.freed (h : Booked env p out s (pre ++ b :: post) fl) {pre' post' : List Block} {r : Block} {fl' : Nat → List Nat}
    (rep : Rep s' (pre' ++ r :: post') fl') (free : r.used = false)
    (kept : ∀ c, c.used = true → (c ∈ pre' ++ post' ↔ c ∈ pre ++ post)) (statics : SameStatics s s') :
    Booked env p (out.erase b.addr) s' (pre' ++ r :: post') fl' where
  toRep := rep
  given := by
    intro B
    rw [h.once.mem_erase_iff, h.given]
    constructor
    · rintro ⟨other, c, hc, used, rfl⟩
      have rest := (mem_mid_cons.mp hc).resolve_left fun same => other (same ▸ rfl)
      exact ⟨c, mem_mid_cons.mpr (Or.inr ((kept c used).mpr rest)), used, rfl⟩
    · rintro ⟨c, hc, used, rfl⟩
      have rest : c ∈ pre ++ post := (kept c used).mp ((mem_mid_cons.mp hc).resolve_left fun same => by
        rw [same, free] at used
        cases used)
      have mem : c ∈ pre ++ b :: post := mem_mid_cons.mpr (Or.inr rest)
      refine ⟨fun same => ?_, c, mem, used, rfl⟩
      rw [h.tiles.eq_of_addr mem (mem_mid_cons.mpr (Or.inl rfl)) same] at rest
      exact h.not_mem rest
  once := h.once.erase _
  place := ⟨statics.1.trans h.place.1, statics.2.1.trans h.place.2⟩
  length := h.length

theorem BlockRun.booked (run : BlockRun env p s out) : ∃ bs fl, Booked env p out s bs fl := by
  induction run with
  | init m maps mapped =>
    obtain ⟨fl, h⟩ := init_rep m maps mapped
    refine ⟨_, fl, { h with given := ?_, once := List.nodup_nil, place := ?_, length := mapped.length }⟩
    · simp
    · rw [ensureInitLocked_fresh m maps]
      exact ⟨rfl, rfl⟩
  | alloc _ min aligned result ih =>
    obtain ⟨bs, fl, h⟩ := ih
    rcases blockAlloc_cases h.toRep ⟨min, aligned⟩ with ⟨none, -⟩ | ⟨pre, b, post, rfl, free, -, took, ⟨fl', rep⟩, -, statics⟩
    · rw [none] at result
      cases result
      exact ⟨bs, fl, h⟩
    · rw [took] at result
      cases result
      have nonnull : b.addr ≠ 0 := by
        have := h.base_pos
        have := (h.tiles.bounds (mem_mid_cons.mpr (Or.inl rfl))).1
        omega
      rw [Ownership.granted, if_neg nonnull]
      exact ⟨_, fl', h.taken free rep statics⟩
  | free _ given ih =>
    obtain ⟨bs, fl, h⟩ := ih
    obtain ⟨b, hb, used, rfl⟩ := h.given.mp given
    obtain ⟨pre, post, rfl⟩ := List.append_of_mem hb
    obtain ⟨pre', r, post', ⟨fl', rep⟩, free, kept, -, statics⟩ := blockFree_rep h.toRep used
    exact ⟨_, fl', h.freed rep free kept statics⟩
  | write _ inside ih =>
    obtain ⟨bs, fl, h⟩ := ih
    have rep := h.payload_write fun a _ out => inside a fun here => out (h.payloadIn.mp here)
    exact ⟨bs, fl, { rep with given := h.given, once := h.once, place := h.place, length := h.length }⟩

/-- Every reachable pool has such a run. -/
theorem PoolReach.run (reach : PoolReach s) : ∃ env p out, BlockRun env p s out := by
  induction reach with
  | init m maps mapped => exact ⟨_, _, [], .init m maps mapped⟩
  | alloc _ min aligned result ih =>
    obtain ⟨env, p, out, run⟩ := ih
    exact ⟨env, p, _, run.alloc min aligned result⟩
  | free _ block live ih =>
    obtain ⟨env, p, out, run⟩ := ih
    obtain ⟨bs, fl, h⟩ := run.booked
    exact ⟨env, p, _, run.free (h.live.mpr ⟨block, live⟩)⟩
  | write _ inside ih =>
    obtain ⟨env, p, out, run⟩ := ih
    exact ⟨env, p, out, run.write inside⟩

/-! ### Runs of free bytes -/

/-- `[q, q + n)` lies in the reservation and meets no block that is given out. -/
def FreeRun (s : State) (out : List Nat) (q n : Nat) : Prop :=
  s.base ≤ q ∧ q + n ≤ s.base + s.reservation ∧
    ∀ a, q ≤ a → a < q + n → ∀ B ∈ out, ¬ (B ≤ a ∧ a < B + bsize s.mem B)

/-- A free run that cannot be extended by a byte on either side. -/
structure MaximalRun (s : State) (out : List Nat) (q n : Nat) : Prop where
  pos : 0 < n
  run : FreeRun s out q n
  left : ∀ r, r + 1 = q → ¬ FreeRun s out r (n + 1)
  right : ¬ FreeRun s out q (n + 1)

theorem tiles_cover {lo hi a : Nat} (h : Tiles lo bs hi) (low : lo ≤ a) (high : a < hi) :
    ∃ b ∈ bs, b.addr ≤ a ∧ a < b.addr + b.size := by
  induction bs generalizing lo with
  | nil =>
    have same : lo = hi := h
    omega
  | cons b bs ih =>
    obtain ⟨addr, -, rest⟩ := tiles_cons.mp h
    by_cases here : a < lo + b.size
    · exact ⟨b, List.mem_cons_self, by omega, by omega⟩
    · obtain ⟨c, hc, inside⟩ := ih rest (by omega)
      exact ⟨c, List.mem_cons_of_mem b hc, inside⟩

theorem Rep.neighbours (h : Rep s bs fl) {b c : Block} (hb : b ∈ bs) (hc : c ∈ bs) (next : b.addr + b.size = c.addr) :
    b.used = true ∨ c.used = true := by
  obtain ⟨pre, post, rfl⟩ := List.append_of_mem hb
  have chain := h.coalesced
  have tiles := h.tiles.around.2
  have mem : c ∈ post := by
    have bounds := h.tiles.bounds hb
    rcases List.mem_append.mp hc with hc | hc
    · have := h.tiles.around.1.bounds hc
      omega
    · rcases List.mem_cons.mp hc with rfl | hc
      · omega
      · exact hc
  cases post with
  | nil => cases mem
  | cons d post =>
    have first := (tiles_cons.mp tiles).1
    have same : d = c := h.tiles.eq_of_addr (by simp) hc (by omega)
    rw [List.isChain_append, List.isChain_cons] at chain
    have apart := chain.2.1.1 d rfl
    rw [same] at apart
    exact apart

theorem Booked.freeRun_iff (h : Booked env p out s bs fl) {q n : Nat} : FreeRun s out q n ↔
    s.base ≤ q ∧ q + n ≤ s.base + s.reservation ∧
    ∀ a, q ≤ a → a < q + n → ∀ b ∈ bs, b.used = true → ¬ (b.addr ≤ a ∧ a < b.addr + b.size) := by
  refine and_congr Iff.rfl (and_congr Iff.rfl (forall_congr' fun a => imp_congr Iff.rfl (imp_congr Iff.rfl ?_)))
  constructor
  · intro free b hb used inside
    apply free b.addr (h.given.mpr ⟨b, hb, used, rfl⟩)
    rw [h.bsize_eq hb]
    exact inside
  · intro free B given inside
    obtain ⟨b, hb, used, rfl⟩ := h.given.mp given
    rw [h.bsize_eq hb] at inside
    exact free b hb used inside

/-- A free run lies in one free block. -/
theorem Booked.freeRun_in_block (h : Booked env p out s bs fl) {q n : Nat} (pos : 0 < n) (run : FreeRun s out q n) :
    ∃ b ∈ bs, b.used = false ∧ b.addr ≤ q ∧ q + n ≤ b.addr + b.size := by
  obtain ⟨low, high, free⟩ := h.freeRun_iff.mp run
  obtain ⟨b, hb, start, stop⟩ := tiles_cover h.tiles low (show q < s.base + s.reservation by omega)
  have unused : b.used = false := by
    cases used : b.used with
    | false => rfl
    | true => exact absurd ⟨start, stop⟩ (free q (Nat.le_refl q) (by omega) b hb used)
  refine ⟨b, hb, unused, start, ?_⟩
  by_contra beyond
  -- The byte after the block would start an allocated neighbour.
  obtain ⟨c, hc, cstart, cstop⟩ := tiles_cover h.tiles (a := b.addr + b.size) (by omega) (by omega)
  have next : b.addr + b.size = c.addr := by
    have := (h.sizes b hb).1
    rcases h.tiles.disjoint hb hc with rfl | apart
    · omega
    · omega
  have used : c.used = true := (h.neighbours hb hc next).resolve_left (by simp [unused])
  exact free (b.addr + b.size) (by omega) (by omega) c hc used ⟨cstart, cstop⟩

theorem Booked.block_freeRun (h : Booked env p out s bs fl) (hb : b ∈ bs) (free : b.used = false) :
    FreeRun s out b.addr b.size := by
  have bounds := h.tiles.bounds hb
  refine h.freeRun_iff.mpr ⟨bounds.1, bounds.2.1, fun a low high c hc used inside => ?_⟩
  rcases h.tiles.disjoint hb hc with rfl | apart
  · rw [used] at free
    cases free
  · omega

theorem Booked.maximalRun_iff (h : Booked env p out s bs fl) {q n : Nat} :
    MaximalRun s out q n ↔ ∃ b ∈ bs, b.used = false ∧ b.addr = q ∧ b.size = n := by
  constructor
  · intro run
    obtain ⟨b, hb, free, low, high⟩ := h.freeRun_in_block run.pos run.run
    have whole := h.block_freeRun hb free
    have start : b.addr = q := by
      by_contra moved
      refine run.left (q - 1) (by omega) ⟨by have := whole.1; omega, by have := run.run.2.1; omega, fun a h1 h2 => ?_⟩
      exact whole.2.2 a (by omega) (by omega)
    refine ⟨b, hb, free, start, ?_⟩
    · by_contra short
      refine run.right ⟨run.run.1, by have := whole.2.1; omega, fun a h1 h2 => ?_⟩
      exact whole.2.2 a (by omega) (by omega)
  · rintro ⟨b, hb, free, rfl, rfl⟩
    have size := (h.sizes b hb).1
    refine ⟨by omega, h.block_freeRun hb free, fun r before longer => ?_, fun longer => ?_⟩
    · obtain ⟨c, hc, -, low, high⟩ := h.freeRun_in_block (Nat.succ_pos _) longer
      rcases h.tiles.disjoint hb hc with rfl | apart
      · omega
      · omega
    · obtain ⟨c, hc, -, low, high⟩ := h.freeRun_in_block (Nat.succ_pos _) longer
      rcases h.tiles.disjoint hb hc with rfl | apart
      · omega
      · omega

/-- With nothing given out, the whole reservation is a free run, so it is one block. -/
theorem Booked.recovered (h : Booked env p [] s bs fl) : bs = [⟨p, env.reservation, false⟩] := by
  obtain ⟨base, reservation⟩ := h.place
  have length := h.length
  have everything : FreeRun s [] s.base s.reservation := ⟨Nat.le_refl _, Nat.le_refl _, fun _ _ _ B given => by cases given⟩
  obtain ⟨c, hc, unused, start, stop⟩ := h.freeRun_in_block (by omega) everything
  have bounds := h.tiles.bounds hc
  have only : ∀ d ∈ bs, d = c := fun d hd => by
    have := h.tiles.bounds hd
    rcases h.tiles.disjoint hc hd with same | apart
    · exact same.symm
    · omega
  have entire : c = ⟨p, env.reservation, false⟩ := by
    cases c
    dsimp only at *
    simp only [Block.mk.injEq]
    exact ⟨by omega, by omega, unused⟩
  have nodup := h.tiles.nodup
  match bs, only, hc, nodup with
  | [d], only, _, _ => rw [only d List.mem_cons_self, entire]
  | d :: e :: _, only, _, nodup =>
    have same : d = e := (only d (by simp)).trans (only e (by simp)).symm
    simp [same] at nodup

end

/-! ### The search never misses a fitting block -/

/-- `block_alloc` answers null, and then changes nothing, exactly when no maximal run of free bytes is large enough; and
with nothing given out the pool is one free block. -/
structure Complete (env : Env) (p : Nat) (s : State) (out : List Nat) : Prop where
  search : ∀ need, 32 ≤ need → need % 16 = 0 → ∃ B s', blockAlloc s need = some (B, s') ∧
    (B = 0 ↔ ∀ q n, MaximalRun s out q n → n < need) ∧ (B = 0 → s' = s)
  recovery : out = [] → s.blocks = [p] ∧ bsize s.mem p = env.reservation ∧ allocated s.mem p = false

theorem BlockRun.complete {env : Env} {p : Nat} {s : State} {out : List Nat} (run : BlockRun env p s out) : Complete env p s out := by
  obtain ⟨bs, fl, h⟩ := run.booked
  constructor
  · intro need min aligned
    rcases blockAlloc_cases h.toRep ⟨min, aligned⟩ with ⟨none, small⟩ | ⟨pre, b, post, rfl, free, fits, took, -⟩
    · refine ⟨0, s, none, ⟨fun _ q n run => ?_, fun _ => rfl⟩, fun _ => rfl⟩
      obtain ⟨b, hb, free, -, rfl⟩ := h.maximalRun_iff.mp run
      exact small b hb free
    · have hb : b ∈ pre ++ b :: post := by simp
      have nonnull : b.addr ≠ 0 := by
        have := h.base_pos
        have := (h.tiles.bounds hb).1
        omega
      refine ⟨b.addr, _, took, ⟨fun null => absurd null nonnull, fun small => ?_⟩, fun null => absurd null nonnull⟩
      have := small b.addr b.size (h.maximalRun_iff.mpr ⟨b, hb, free, rfl, rfl⟩)
      omega
  · rintro rfl
    obtain rfl := h.recovered
    have only : (⟨p, env.reservation, false⟩ : Block) ∈ [⟨p, env.reservation, false⟩] := List.mem_cons_self
    have live := h.allocated_eq only
    have size := h.bsize_eq only
    dsimp only at live size
    exact ⟨h.blocks_eq, size, live⟩

/-- Two blocks are given out, and freed in the order in which they were. -/
theorem BlockRun.complete_recovered : ∃ s₁ s₂, blockAlloc (ensureInitLocked ⟨some 65536, 1⟩ { mem := fun _ => 0 }).2 64 =
      some (65536, s₁) ∧ blockAlloc s₁ 128 = some (65600, s₂) ∧
    Complete ⟨some 65536, 1⟩ 65536 (blockFree s₂ 65536) [65600] ∧
    (blockFree (blockFree s₂ 65536) 65600).blocks = [65536] ∧ bsize (blockFree (blockFree s₂ 65536) 65600).mem 65536 = 2 ^ 20 := by
  let start := (ensureInitLocked ⟨some 65536, 1⟩ { mem := fun _ => 0 }).2
  have first : BlockRun ⟨some 65536, 1⟩ 65536 start [] := .init (fun _ => 0) rfl ⟨by decide, by decide, by decide, by decide⟩
  have twice : (blockAlloc start 64).bind (fun r => (blockAlloc r.2 128).map fun r' => (r.1, r'.1)) = some (65536, 65600) := by
    decide +kernel
  obtain ⟨B, s₁, result, -⟩ := first.complete.search 64 (by decide) (by decide)
  have second := first.alloc (by decide) (by decide) result
  obtain ⟨B', s₂, result', -⟩ := second.complete.search 128 (by decide) (by decide)
  rw [result, Option.bind_some, result'] at twice
  cases twice
  have third := (second.alloc (by decide) (by decide) result').free (B := 65536) (by decide)
  obtain ⟨blocks, size, -⟩ := (third.free (B := 65600) (by decide)).complete.recovery (by decide)
  exact ⟨s₁, s₂, result, result', third.complete, blocks, size⟩

end Parallax.Pool
