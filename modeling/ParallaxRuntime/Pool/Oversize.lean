import ParallaxRuntime.Pool.Complete

/-!
# Requests of any size

`px_pool_alloc` adds the alignment and the tags to the size without checking for
overflow. A request whose sum wraps around can be served from a small block.
-/

namespace Parallax.Pool
open Memory

/-! ### The arithmetic, wrapping included -/

theorem normAlign_two_pow {k : Nat} : normAlign (2 ^ k) = some (2 ^ max 4 k) := by
  unfold normAlign ALIGN
  dsimp only
  by_cases low : 2 ^ k < 16
  · have small : k < 4 := (Nat.pow_lt_pow_iff_right (by decide : 1 < 2)).mp (show 2 ^ k < 2 ^ 4 from low)
    rw [if_pos low, Nat.max_eq_left (by omega)]
    rfl
  · have large : 4 ≤ k := (Nat.pow_le_pow_iff_right (by decide : 1 < 2)).mp (show 2 ^ 4 ≤ 2 ^ k by omega)
    have power : 2 ^ k &&& (2 ^ k - 1) = 0 := by simp
    rw [if_neg low, if_neg (by simp), Nat.max_eq_right large]

theorem max_align (k : Nat) : max (2 ^ k) ALIGN = 2 ^ max 4 k := by
  unfold ALIGN
  rcases Nat.le_total k 4 with le | le
  · have := Nat.pow_le_pow_right (n := 2) (by decide) le
    rw [Nat.max_eq_left le]
    omega
  · have := Nat.pow_le_pow_right (n := 2) (by decide) le
    rw [Nat.max_eq_right le]
    omega

theorem userPtr_eq {B j : Nat} (hj : j < 64) :
    userPtr B (2 ^ j) = ((B + 16) % 2 ^ 64 + (2 ^ j - 1)) % 2 ^ 64 / 2 ^ j * 2 ^ j := by
  unfold userPtr HDR
  dsimp only
  rw [show wadd (B + 8) 8 = (B + 16) % 2 ^ 64 from rfl]
  exact and_wnot_two_pow j hj (Nat.mod_lt _ (by decide))

/-! ### What is served -/

section
variable {s : State} {size j : Nat}

/-- A request is turned down for want of a free block, or gets the pointer in the block that
`block_alloc` takes. -/
theorem PoolReach.allocIn_cases (reach : PoolReach s) (size j : Nat) :
    (allocIn s size (2 ^ j) = some (0, s) ∧
      ∀ B ∈ s.blocks, allocated s.mem B = false → bsize s.mem B < needBsize size (2 ^ j)) ∨
    ∃ B s₁, blockAlloc s (needBsize size (2 ^ j)) = some (B, s₁) ∧ allocIn s size (2 ^ j) = some (handOut s₁ B (2 ^ j)) ∧
      (B ∈ s.blocks ∧ allocated s.mem B = false ∧ needBsize size (2 ^ j) ≤ bsize s.mem B) ∧
      (PoolReach s₁ ∧ B ∈ s₁.blocks ∧ allocated s₁.mem B = true) ∧
      needBsize size (2 ^ j) ≤ bsize s₁.mem B ∧ bsize s₁.mem B < needBsize size (2 ^ j) + 32 := by
  obtain ⟨⟨bs, fl, h⟩, -⟩ := reach.rep
  have good := needBsize_good size (2 ^ j)
  rcases blockAlloc_cases h good with ⟨none, small⟩ | ⟨pre, b, post, rfl, free, fits, took, ⟨fl', rep⟩, -⟩
  · refine Or.inl ⟨allocIn_null none, fun B hB unused => ?_⟩
    obtain ⟨b, hb, rfl⟩ := h.mem_blocks.mp hB
    rw [h.allocated_eq hb] at unused
    rw [h.bsize_eq hb]
    exact small b hb unused
  · have hb : b ∈ pre ++ b :: post := by simp
    have hc : carved b (needBsize size (2 ^ j)) ∈ pre ++ carve b (needBsize size (2 ^ j)) ++ post :=
      mem_mid.mpr (Or.inl (carved_mem b _))
    have nonnull : 0 < b.addr := by
      have := h.base_pos
      have := (h.tiles.bounds hb).1
      omega
    have taken := rep.bsize_eq hc
    have used := rep.allocated_eq hc
    rw [carved_addr] at taken used
    refine Or.inr ⟨b.addr, _, took, allocIn_block nonnull took, ⟨h.mem_blocks.mpr ⟨b, hb, rfl⟩, ?_, ?_⟩,
      ⟨reach.alloc good.1 good.2 took, rep.mem_blocks.mpr ⟨carved b _, hc, carved_addr b _⟩, used⟩, ?_⟩
    · rw [h.allocated_eq hb, free]
    · rw [h.bsize_eq hb]
      exact fits
    · rw [taken]
      unfold carved
      dsimp only
      split <;> omega

theorem userPtr_inside {B n : Nat} (hj' : j < 64) (sum : size + 2 ^ j + 39 < 2 ^ 64)
    (fits : needBsize size (2 ^ j) ≤ n) (top : B + n ≤ 2 ^ 64) :
    B + 16 ≤ userPtr B (2 ^ j) ∧ userPtr B (2 ^ j) + size + 8 ≤ B + n := by
  have power : 0 < 2 ^ j := Nat.two_pow_pos j
  rw [needBsize_eq] at fits
  have room : size + 2 ^ j + 24 ≤ n := by
    generalize 2 ^ j = a at *
    omega
  obtain ⟨lower, upper, -⟩ := div_mul_bounds (x := B + 16) power
  rw [userPtr_eq hj', Nat.mod_eq_of_lt (a := B + 16) (by omega), Nat.mod_eq_of_lt (by omega)]
  omega

/-- A sum that wrapped around asks for far less than the size. -/
theorem needBsize_of_overflow (hj' : j < 64)
    (wrapped : ¬ size + 2 ^ j + 39 < 2 ^ 64) : needBsize size (2 ^ j) + 32 ≤ size := by
  have small : 2 ^ j ≤ 2 ^ 63 := Nat.pow_le_pow_right (by decide) (by omega)
  rw [needBsize_eq]
  generalize 2 ^ j = a at *
  omega

end

/-! ### Clean answers -/

/-- The states that an entry point may find: the pool not asked for yet, refused by `mmap`, or
in use. -/
inductive Opened (env : Env) : State → Prop
  | fresh (m : Mem) (maps : ∀ p, env.mmap = some p → Mapped p env.reservation) : Opened env { mem := m }
  | failed (m : Mem) (none : env.mmap = none) : Opened env (ensureInitLocked env { mem := m }).2
  | pool {s : State} (reach : PoolReach s) : Opened env s

/-- The back-pointer and `n` bytes at `p` lie in the payload of the block taken for the request. -/
def InsideTaken (s : State) (size align p n : Nat) : Prop :=
  ∃ B s₁, blockAlloc s (needBsize (max size 1) (max align ALIGN)) = some (B, s₁) ∧ B + HDR ≤ p - 8 ∧
    p + n ≤ B + bsize s₁.mem B - FTR

/-- A pointer has room for `size` bytes, so what `realloc` copies to it and `calloc` zeroes at
it stays in its block. A null pointer leaves the pool alone, and a size beyond the reservation
gives null. -/
def CleanAlloc (env : Env) (s : State) (size align : Nat) : Prop :=
  let pool := (ensureInitLocked env s).2
  ∃ p s', pxPoolAlloc env s size align = some (p, s') ∧
    (p ≠ 0 → size ≤ pxPoolUsableSize s' p ∧ ∀ n ≤ size, InsideTaken pool size align p n) ∧
    (p = 0 ∨ pool.reservation < size → p = 0 ∧ s' = pool)

/-- No free block is large enough for what the request asks for. -/
def NoFit (s : State) (size align : Nat) : Prop :=
  ∀ B ∈ s.blocks, allocated s.mem B = false → bsize s.mem B < needBsize (max size 1) (max align ALIGN)

section
variable {env : Env} {s : State} {size k : Nat}

theorem Opened.cases (opened : Opened env s) :
    ((ensureInitLocked env s).1 = true ∧ PoolReach (ensureInitLocked env s).2) ∨
    ((ensureInitLocked env s).1 = false ∧ (ensureInitLocked env s).2.blocks = []) := by
  cases opened with
  | fresh m maps =>
    cases found : env.mmap with
    | none =>
      have body : ensureInitLocked env { mem := m } = (false, { mem := m, initDone := true, initFailed := true }) := by
        unfold ensureInitLocked
        rw [found]
        rfl
      rw [body]
      exact Or.inr ⟨rfl, rfl⟩
    | some p =>
      refine Or.inl ⟨?_, .init m found (maps p found)⟩
      rw [ensureInitLocked_fresh m found]
  | failed m none =>
    have body : ensureInitLocked env { mem := m } = (false, { mem := m, initDone := true, initFailed := true }) := by
      unfold ensureInitLocked
      rw [none]
      rfl
    rw [body]
    exact Or.inr ⟨rfl, rfl⟩
  | pool reach =>
    obtain ⟨-, done, ok⟩ := reach.rep
    rw [ensureInitLocked_done env done ok]
    exact Or.inl ⟨rfl, reach⟩

theorem pxPoolAlloc_eq (env : Env) (s : State) (size k : Nat) : pxPoolAlloc env s size (2 ^ k) =
    if (ensureInitLocked env s).1 = true then allocIn (ensureInitLocked env s).2 (max size 1) (2 ^ max 4 k)
    else some (0, (ensureInitLocked env s).2) := by
  have size' : (if size = 0 then 1 else size) = max size 1 := by split <;> omega
  unfold pxPoolAlloc
  rw [normAlign_two_pow]
  dsimp only
  rw [size']
  rcases ensureInitLocked env s with ⟨_ | _, pool⟩
  · rfl
  · rfl

/-- The pointer of a served request, once its back-pointer is stored. -/
theorem PoolReach.handOut_usable {s₁ : State} {B p : Nat} (reach : PoolReach s₁) (block : B ∈ s₁.blocks)
    (live : allocated s₁.mem B = true) (lower : B + 16 ≤ p) (upper : p + 8 ≤ B + bsize s₁.mem B) :
    pxPoolUsableSize { s₁ with mem := store64 s₁.mem (wsub p 8) B } p = B + bsize s₁.mem B - FTR - p := by
  obtain ⟨⟨bs, fl, h⟩, -⟩ := reach.rep
  obtain ⟨b, hb, rfl⟩ := h.mem_blocks.mp block
  rw [h.allocated_eq hb] at live
  rw [h.bsize_eq hb] at upper ⊢
  obtain ⟨rep, back, -⟩ := h.back_pointer hb live lower upper
  have top := h.top
  have bounds := (h.bounds hb).2
  unfold pxPoolUsableSize
  dsimp only
  rw [if_neg (by omega), back, rep.bsize_eq hb]
  unfold FTR
  exact wsub_of_le (by omega) (by omega)

/-- Taking a block shows in its header, whatever the back-pointer overwrites at null. -/
theorem PoolReach.taken_header {s₁ : State} {B : Nat} (reach : PoolReach s₁) (block : B ∈ s₁.blocks)
    (live : allocated s₁.mem B = true) (v : Nat) : allocated (store64 s₁.mem (wsub 0 8) v) B = true := by
  obtain ⟨⟨bs, fl, h⟩, -⟩ := reach.rep
  obtain ⟨b, hb, rfl⟩ := h.mem_blocks.mp block
  have top := h.top
  have bounds := (h.bounds hb).2
  have size := (h.sizes b hb).1
  rw [← live]
  unfold allocated hdr
  rw [load64_store64_of_disjoint]
  left
  show b.addr + 8 ≤ 2 ^ 64 - 8
  omega

theorem cleanAlloc_of_noOverflow (reach : PoolReach (ensureInitLocked env s).2)
    (open_ : (ensureInitLocked env s).1 = true) (hk : k < 64) (sum : NoOverflow size (2 ^ k)) :
    CleanAlloc env s size (2 ^ k) := by
  unfold NoOverflow at sum
  unfold CleanAlloc InsideTaken
  rw [pxPoolAlloc_eq, if_pos open_, max_align]
  rw [max_align] at sum
  generalize (ensureInitLocked env s).2 = pool at *
  obtain ⟨⟨bs, fl, h⟩, -⟩ := reach.rep
  have large : size ≤ needBsize (max size 1) (2 ^ max 4 k) := by
    rw [needBsize_eq]
    generalize 2 ^ max 4 k = a at *
    omega
  rcases reach.allocIn_cases (max size 1) (max 4 k) with ⟨none, -⟩ |
    ⟨B, s₁, took, result, ⟨old, -, fits⟩, ⟨reach₁, block, live⟩, enough, -⟩
  · exact ⟨0, pool, none, fun no => absurd rfl no, fun _ => ⟨rfl, rfl⟩⟩
  · obtain ⟨⟨bs₁, fl₁, h₁⟩, -⟩ := reach₁.rep
    obtain ⟨b, hb, rfl⟩ := h.mem_blocks.mp old
    obtain ⟨c, hc, addr⟩ := h₁.mem_blocks.mp block
    have bounds := h.tiles.bounds hb
    have top : b.addr + bsize s₁.mem b.addr ≤ 2 ^ 64 := by
      have := (h₁.bounds hc).2
      have := h₁.top
      rw [← addr, h₁.bsize_eq hc]
      omega
    rw [h.bsize_eq hb] at fits
    obtain ⟨lower, upper⟩ := userPtr_inside (B := b.addr) (by omega) (by omega) enough top
    have usable := reach₁.handOut_usable block live lower (by omega)
    refine ⟨userPtr b.addr (2 ^ max 4 k), _, result, fun _ => ⟨?_, fun n hn => ⟨b.addr, s₁, took, ?_, ?_⟩⟩, fun bad => ?_⟩
    · rw [usable]
      unfold FTR
      omega
    · unfold HDR
      omega
    · unfold FTR
      omega
    · rcases bad with null | huge
      · omega
      · omega

theorem not_cleanAlloc_of_overflow (reach : PoolReach (ensureInitLocked env s).2)
    (open_ : (ensureInitLocked env s).1 = true) (hk : k < 64) (wrapped : ¬ NoOverflow size (2 ^ k))
    (fit : ¬ NoFit (ensureInitLocked env s).2 size (2 ^ k)) : ¬ CleanAlloc env s size (2 ^ k) := by
  unfold NoOverflow at wrapped
  unfold NoFit at fit
  unfold CleanAlloc InsideTaken
  rw [pxPoolAlloc_eq, if_pos open_, max_align]
  rw [max_align] at wrapped fit
  generalize (ensureInitLocked env s).2 = pool at *
  have small : 2 ^ max 4 k ≤ 2 ^ 63 := Nat.pow_le_pow_right (by decide) (by omega)
  have tiny := needBsize_of_overflow (by omega) wrapped
  rcases reach.allocIn_cases (max size 1) (max 4 k) with ⟨-, none⟩ |
    ⟨B, s₁, took, result, ⟨-, unused, -⟩, ⟨reach₁, block, live⟩, -, short⟩
  · exact absurd none fit
  · rintro ⟨p, s', answer, inside, null⟩
    rw [result] at answer
    simp only [Option.some.injEq] at answer
    obtain ⟨ptr, state⟩ := Prod.mk.inj answer
    by_cases zero : p = 0
    · have header := reach₁.taken_header block live B
      rw [← (null (Or.inl zero)).2, ← state, ptr, zero] at unused
      rw [header] at unused
      cases unused
    · obtain ⟨B', s₁', took', lower, upper⟩ := (inside zero).2 size (Nat.le_refl _)
      rw [took] at took'
      cases took'
      unfold HDR FTR at *
      omega

theorem Opened.ensured (opened : Opened env s) : Opened env (ensureInitLocked env s).2 := by
  cases opened with
  | fresh m maps =>
    cases found : env.mmap with
    | none => exact .failed m found
    | some p => exact .pool (.init m found (maps p found))
  | failed m none =>
    have body : (ensureInitLocked env (ensureInitLocked env { mem := m }).2).2 = (ensureInitLocked env { mem := m }).2 := by
      unfold ensureInitLocked
      rw [none]
      rfl
    rw [body]
    exact .failed m none
  | pool reach =>
    obtain ⟨-, done, ok⟩ := reach.rep
    rw [ensureInitLocked_done env done ok]
    exact .pool reach

/-- A request that does not wrap around, or finds no block, leads to such a state again. -/
theorem Opened.alloc {p : Nat} {s' : State} (opened : Opened env s) (hk : k < 64)
    (clean : NoOverflow size (2 ^ k) ∨ NoFit (ensureInitLocked env s).2 size (2 ^ k))
    (result : pxPoolAlloc env s size (2 ^ k) = some (p, s')) : Opened env s' := by
  rw [pxPoolAlloc_eq] at result
  rcases opened.cases with ⟨ready, reach⟩ | ⟨refused, -⟩
  · rw [if_pos ready] at result
    rcases reach.allocIn_cases (max size 1) (max 4 k) with ⟨null, -⟩ |
      ⟨B, s₁, -, served, ⟨block, unused, fits⟩, ⟨reach₁, taken, live⟩, enough, -⟩
    · rw [null] at result
      cases result
      exact opened.ensured
    · rw [served] at result
      cases result
      have sum : NoOverflow size (2 ^ k) := clean.resolve_right fun none => by
        have := none B block unused
        rw [max_align] at this
        omega
      unfold NoOverflow at sum
      rw [max_align] at sum
      have top : B + bsize s₁.mem B ≤ 2 ^ 64 := by
        obtain ⟨⟨bs, fl, h⟩, -⟩ := reach₁.rep
        obtain ⟨c, hc, rfl⟩ := h.mem_blocks.mp taken
        have := (h.bounds hc).2
        have := h.top
        rw [h.bsize_eq hc]
        omega
      obtain ⟨lower, upper⟩ := userPtr_inside (B := B) (by omega) (by omega) enough top
      refine .pool (reach₁.write fun a outside => store64_outside ?_)
      rw [wsub_of_le (by omega) (by omega)]
      by_contra inside
      apply outside
      refine ⟨B, taken, live, ?_, ?_⟩
      · unfold HDR
        omega
      · unfold FTR
        omega
  · rw [if_neg (by rw [refused]; decide)] at result
    cases result
    exact opened.ensured

/-- Runs of the entry points with requests of any size, each without overflow or without a block
that fits, and of writes into payloads. -/
inductive CleanRun (env : Env) : State → Prop
  | start (m : Mem) (maps : ∀ p, env.mmap = some p → Mapped p env.reservation) : CleanRun env { mem := m }
  | alloc {s s' : State} {size k p : Nat} (run : CleanRun env s) (hk : k < 64)
      (clean : NoOverflow size (2 ^ k) ∨ NoFit (ensureInitLocked env s).2 size (2 ^ k))
      (result : pxPoolAlloc env s size (2 ^ k) = some (p, s')) : CleanRun env s'
  | free {s : State} {p : Nat} (run : CleanRun env s) (block : headerOf s.mem p ∈ s.blocks)
      (live : allocated s.mem (headerOf s.mem p) = true) : CleanRun env (pxPoolFree s p)
  | write {s : State} {m : Mem} (run : CleanRun env s) (inside : ∀ a, ¬ PayloadIn s a → m a = s.mem a) :
      CleanRun env { s with mem := m }

theorem Opened.pool_of_block {B : Nat} (opened : Opened env s) (block : B ∈ s.blocks) : PoolReach s := by
  cases opened with
  | fresh m maps => cases block
  | failed m none =>
    unfold ensureInitLocked at block
    rw [none] at block
    cases block
  | pool reach => exact reach

theorem CleanRun.opened (run : CleanRun env s) : Opened env s := by
  induction run with
  | start m maps => exact .fresh m maps
  | alloc _ hk clean result ih => exact ih.alloc hk clean result
  | @free s p _ block live ih =>
    unfold pxPoolFree
    split
    · exact ih
    · exact .pool ((ih.pool_of_block block).free block live)
  | @write s m _ inside ih =>
    by_cases some : ∃ B, B ∈ s.blocks
    · obtain ⟨B, block⟩ := some
      exact .pool ((ih.pool_of_block block).write inside)
    · have same : m = s.mem := funext fun a => inside a fun ⟨B, block, _⟩ => some ⟨B, block⟩
      rw [same]
      exact ih

theorem Opened.clean_iff (opened : Opened env s) (hk : k < 64) :
    CleanAlloc env s size (2 ^ k) ↔
      NoOverflow size (2 ^ k) ∨ NoFit (ensureInitLocked env s).2 size (2 ^ k) := by
  rcases opened.cases with ⟨ready, reach⟩ | ⟨refused, empty⟩
  · constructor
    · intro clean
      by_contra neither
      rw [not_or] at neither
      exact not_cleanAlloc_of_overflow reach ready hk neither.1 neither.2 clean
    · rintro (sum | none)
      · exact cleanAlloc_of_noOverflow reach ready hk sum
      · rcases reach.allocIn_cases (max size 1) (max 4 k) with ⟨null, -⟩ | ⟨B, s₁, -, -, ⟨block, free, fits⟩, -⟩
        · refine ⟨0, _, ?_, fun no => absurd rfl no, fun _ => ⟨rfl, rfl⟩⟩
          rw [pxPoolAlloc_eq, if_pos ready, null]
        · have := none B block free
          rw [max_align] at this
          omega
  · refine ⟨fun _ => Or.inr fun B hB => ?_, fun _ => ⟨0, _, ?_, fun no => absurd rfl no, fun _ => ⟨rfl, rfl⟩⟩⟩
    · rw [empty] at hB
      cases hB
    · rw [pxPoolAlloc_eq, if_neg (by rw [refused]; decide)]

/-- In every run whose requests are clean, a further request of any size and power-of-two alignment is answered cleanly
exactly when its sum does not wrap around or no free block fits what is left of it. -/
theorem CleanRun.cleanAlloc_iff (run : CleanRun env s) (hk : k < 64) :
    CleanAlloc env s size (2 ^ k) ↔
      NoOverflow size (2 ^ k) ∨ NoFit (ensureInitLocked env s).2 size (2 ^ k) := run.opened.clean_iff hk

/-- After 100 bytes and 1000 bytes at a multiple of 256 are given out, and the 100 bytes are freed. -/
theorem CleanRun.cleanAlloc_freed : ∃ s₁ s₂, pxPoolAlloc ⟨some 65536, 1⟩ { mem := fun _ => 0 } 100 (2 ^ 4) = some (65552, s₁) ∧
    pxPoolAlloc ⟨some 65536, 1⟩ s₁ 1000 (2 ^ 8) = some (65792, s₂) ∧
    CleanAlloc ⟨some 65536, 1⟩ (pxPoolFree s₂ 65552) 2000 (2 ^ 4) := by
  have start : CleanRun ⟨some 65536, 1⟩ { mem := fun _ => 0 } := by
    refine .start _ fun p maps => ?_
    cases maps
    exact ⟨by decide, by decide, by decide, by decide⟩
  have small : NoOverflow 100 (2 ^ 4) ∧ NoOverflow 1000 (2 ^ 8) ∧ NoOverflow 2000 (2 ^ 4) := by
    unfold NoOverflow
    decide
  have twice : (pxPoolAlloc ⟨some 65536, 1⟩ { mem := fun _ => 0 } 100 (2 ^ 4)).bind (fun r =>
      (pxPoolAlloc ⟨some 65536, 1⟩ r.2 1000 (2 ^ 8)).map fun r' => (r.1, r'.1, decide (headerOf r'.2.mem 65552 ∈ r'.2.blocks) &&
        allocated r'.2.mem (headerOf r'.2.mem 65552))) = some (65552, 65792, true) := by
    decide +kernel
  obtain ⟨⟨p, s₁⟩, result, rest⟩ := Option.bind_eq_some_iff.mp twice
  obtain ⟨⟨p', s₂⟩, result', answer⟩ := Option.map_eq_some_iff.mp rest
  obtain ⟨rfl, rfl, live⟩ : p = 65552 ∧ p' = 65792 ∧ (decide (headerOf s₂.mem 65552 ∈ s₂.blocks) &&
      allocated s₂.mem (headerOf s₂.mem 65552)) = true := by simpa using answer
  rw [Bool.and_eq_true, decide_eq_true_iff] at live
  have second := (start.alloc (by decide) (Or.inl small.1) result).alloc (by decide) (Or.inl small.2.1) result'
  have third := second.free live.1 live.2
  exact ⟨s₁, s₂, result, result', (CleanRun.cleanAlloc_iff third (by decide)).mpr (Or.inl small.2.2)⟩

/-- `size + align + 24` wraps to 32, so the fresh pool serves all but 8 bytes of the address
space from a block of 32 bytes. -/
theorem not_cleanAlloc_wrapped :
    Opened ⟨some 65536, 1⟩ { mem := fun _ => 0 } ∧
    ((pxPoolAlloc ⟨some 65536, 1⟩ { mem := fun _ => 0 } (2 ^ 64 - 8) (2 ^ 4)).map fun r =>
      (r.1, pxPoolUsableSize r.2 r.1)) = some (65552, 8) ∧
    ¬ CleanAlloc ⟨some 65536, 1⟩ { mem := fun _ => 0 } (2 ^ 64 - 8) (2 ^ 4) := by
  have mapped : Mapped 65536 (⟨some 65536, 1⟩ : Env).reservation := ⟨by decide, by decide, by decide, by decide⟩
  have reach : PoolReach (ensureInitLocked ⟨some 65536, 1⟩ { mem := fun _ => 0 }).2 := .init _ rfl mapped
  refine ⟨.fresh _ fun p maps => ?_, by decide +kernel, ?_⟩
  · cases maps
    exact mapped
  · refine not_cleanAlloc_of_overflow reach rfl (by decide) (by unfold NoOverflow; decide) fun none => ?_
    have := none 65536 (by decide +kernel) (by decide +kernel)
    revert this
    decide +kernel

end

end Parallax.Pool
