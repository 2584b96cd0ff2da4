import ParallaxRuntime.Effects.Trace
import ParallaxRuntime.Pool.Oversize

/-!
# Reallocation

`px_pool_realloc` in runs with requests of any size. A request whose sum wraps around may get a back-pointer outside of
its block, where another allocation has its bytes.
-/

namespace Parallax.Pool
open Memory Effects

/-- The calls of a program, and its writes between them. -/
inductive Call where
  | alloc (size align : UInt64)
  | free (l : Live)
  | realloc (l : Live) (n : UInt64)
  | write (m : Mem)

/-- A step on the pool and the live allocations. -/
def Call.step (env : Env) (t : State × List Live) : Call → State × List Live → Prop
  | alloc size align, t' => ∃ p s', pxPoolAlloc env t.1 size.toNat align.toNat = some (p, s') ∧
    t' = (s', grown t.2 p size.toNat align.toNat)
  | free l, t' => l ∈ t.2 ∧ t' = (pxPoolFree t.1 l.ptr, dropped t.2 l)
  | realloc l n, t' => l ∈ t.2 ∧ ∃ q s', pxPoolRealloc env t.1 l.ptr n.toNat = some (q, s') ∧
    t' = (s', regrown t.2 l n.toNat q)
  | write m, t' => (∀ a, ¬ UserByte t.1 t.2 a → m a = t.1.mem a) ∧ t' = ({ t.1 with mem := m }, t.2)

/-- No sum of the request wraps around, or no free block is large enough for what is left of it. -/
def Harmless (s : State) (size align : Nat) : Prop :=
  NoOverflow size (roundedAlign align) ∨ align ≤ 2 ^ 63 ∧ NoFit s size (roundedAlign align)

def Call.Harmless (t : State × List Live) : Call → Prop
  | alloc size align => Pool.Harmless t.1 size.toNat align.toNat
  | realloc l n => n.toNat ≤ pxPoolUsableSize t.1 l.ptr ∨ Pool.Harmless t.1 n.toNat ALIGN
  | _ => True

/-- `px_pool_realloc` of `l` keeps the contents, gives the old block back if it moved, and leaves the others alone. -/
def ReallocHonoured (env : Env) (s : State) (L : List Live) (l : Live) (n : Nat) : Prop :=
  ∃ q s', pxPoolRealloc env s l.ptr n = some (q, s') ∧ Reallocated s s' l.ptr n q ∧
    (q ≠ 0 → q ≠ l.ptr → ¬ PayloadIn s' l.ptr) ∧ Untouched s s' (dropped L l)

section
variable {env : Env} {s s' : State} {bs : List Block} {fl : Nat → List Nat} {L : List Live} {l : Live}

theorem Held.alloc_noFit (h : Held s bs fl L) {size align : Nat} (small : align ≤ 2 ^ 63)
    (none : NoFit s size (roundedAlign align)) : pxPoolAlloc env s size align = some (0, s) := by
  have least := sixteen_le_roundedAlign align
  have sizes : (if size = 0 then 1 else size) = max size 1 := by
    split <;> omega
  have aligns : max (roundedAlign align) ALIGN = roundedAlign align := Nat.max_eq_left least
  unfold NoFit at none
  rw [aligns] at none
  rw [pxPoolAlloc_in h.done h.ok size small, sizes]
  apply allocIn_null
  rcases blockAlloc_cases h.rep (needBsize_good (max size 1) (roundedAlign align)) with
    ⟨null, -⟩ | ⟨pre, b, post, rfl, free, fits, -⟩
  · exact null
  · have here : b ∈ pre ++ b :: post := by simp
    have short := none b.addr (h.rep.mem_blocks.mpr ⟨b, here, rfl⟩) (by rw [h.rep.allocated_eq here, free])
    rw [h.rep.bsize_eq here] at short
    omega

/-- Null is the answer just when no free block is large enough. -/
theorem Held.alloc_null_iff (h : Held s bs fl L) {size align p : Nat} (safe : NoOverflow size (roundedAlign align))
    (result : pxPoolAlloc env s size align = some (p, s')) : p = 0 ↔ NoFit s size (roundedAlign align) := by
  constructor
  · rintro rfl B block free
    obtain ⟨b, hb, rfl⟩ := h.rep.mem_blocks.mp block
    rw [h.rep.allocated_eq hb] at free
    rw [h.rep.bsize_eq hb]
    have sizes : (if size = 0 then 1 else size) = max size 1 := by
      split <;> omega
    have aligns : max (roundedAlign align) ALIGN = roundedAlign align := Nat.max_eq_left (sixteen_le_roundedAlign align)
    rw [pxPoolAlloc_in h.done h.ok size safe.align_le, sizes] at result
    rw [aligns]
    rcases blockAlloc_cases h.rep (needBsize_good (max size 1) (roundedAlign align)) with
      ⟨-, small⟩ | ⟨pre, c, post, rfl, -, fits, took, -⟩
    · exact small b hb free
    · -- a block would have been handed out, with the pointer after its header
      have here : c ∈ pre ++ c :: post := by simp
      have bound := h.rep.bounds here
      have base := h.rep.base_pos
      unfold NoOverflow at safe
      obtain ⟨-, room⟩ := needBsize_spec (show max size 1 + roundedAlign align + 39 < 2 ^ 64 by omega)
      obtain ⟨-, lower, -⟩ := userPtr_in (NoOverflow.align_le safe) (bound.2.trans h.rep.top) fits room (by omega)
      rw [allocIn_block (by omega) took] at result
      have ptr := congrArg Prod.fst (Option.some.inj result)
      dsimp only [handOut] at ptr
      omega
  · intro none
    rw [h.alloc_noFit safe.align_le none] at result
    cases result
    rfl

theorem Held.released (h : Held s bs fl L) (hl : l ∈ L) : ¬ PayloadIn (pxPoolFree s l.ptr) l.ptr := by
  obtain ⟨b, hb⟩ := h.owns l hl
  have lower := hb.lower
  have upper := hb.upper
  have body : pxPoolFree s l.ptr = blockFree s b.addr := by
    unfold pxPoolFree
    rw [if_neg (by omega), hb.back]
  obtain ⟨pre, post, rfl⟩ := List.append_of_mem hb.mem
  obtain ⟨pre', r, post', ⟨fl', rep⟩, free, kept, -⟩ := blockFree_rep h.rep hb.used
  rw [body, rep.payloadIn]
  intro inside
  obtain ⟨c, hc, used, low, high⟩ := inside
  rcases mem_mid_cons.mp hc with rfl | other
  · rw [used] at free
    cases free
  · have apart := h.rep.tiles.apart ((kept c used).mp other)
    omega

theorem Held.realloc_released (h : Held s bs fl L) (hl : l ∈ L) {n q : Nat} (pos : 0 < n)
    (safe : NoOverflow n (roundedAlign ALIGN)) (result : pxPoolRealloc env s l.ptr n = some (q, s')) (nonnull : q ≠ 0)
    (moved : q ≠ l.ptr) : ¬ PayloadIn s' l.ptr := by
  obtain ⟨b, hb⟩ := h.owns l hl
  have ptr := hb.ptr_pos
  unfold pxPoolRealloc at result
  rw [if_neg (by omega), if_neg (by omega)] at result
  dsimp only at result
  split at result
  · cases result
    exact absurd rfl moved
  · next tight =>
    obtain ⟨p, s₁, _, _, served, held, -⟩ := held_alloc h env safe
    rw [served, Option.bind_some] at result
    dsimp only at result
    split at result
    · cases result
      exact absurd rfl nonnull
    · next some =>
      rw [grown, if_neg some] at held
      obtain ⟨c, hc⟩ := held.owns ⟨p, n, ALIGN⟩ List.mem_cons_self
      have size := hc.usable held.rep
      have room := hc.upper
      dsimp only at size room
      have fits : pxPoolUsableSize s l.ptr ≤ pxPoolUsableSize s₁ p := by omega
      obtain ⟨copied, -⟩ := held_copy held l fits
      cases result
      exact copied.released (List.mem_cons_of_mem _ hl)

theorem Held.realloc_null_iff (h : Held s bs fl L) (hl : l ∈ L) {n q : Nat} (pos : 0 < n)
    (safe : NoOverflow n (roundedAlign ALIGN)) (result : pxPoolRealloc env s l.ptr n = some (q, s')) :
    q = 0 ↔ ¬ n ≤ pxPoolUsableSize s l.ptr ∧ NoFit s n (roundedAlign ALIGN) := by
  obtain ⟨b, hb⟩ := h.owns l hl
  have ptr := hb.ptr_pos
  unfold pxPoolRealloc at result
  rw [if_neg (by omega), if_neg (by omega)] at result
  dsimp only at result
  split at result
  · next fits =>
    cases result
    simp [fits, show l.ptr ≠ 0 by omega]
  · next tight =>
    obtain ⟨p, s₁, _, _, served, -⟩ := held_alloc h env safe
    rw [served, Option.bind_some] at result
    have null := h.alloc_null_iff safe served
    dsimp only at result
    split at result
    · next none =>
      cases result
      simp [tight, null.mp none]
    · next some =>
      cases result
      simp [some, null.not.mp some]

/-! ### Runs -/

theorem Call.step_held {t t' : State × List Live} {call : Call} (h : ∃ bs fl, Held t.1 bs fl t.2)
    (harmless : call.Harmless t) (step : call.step env t t') : ∃ bs fl, Held t'.1 bs fl t'.2 := by
  obtain ⟨bs, fl, h⟩ := h
  cases call with
  | alloc size align =>
    obtain ⟨p, s', result, rfl⟩ := step
    rcases harmless with safe | ⟨small, none⟩
    · obtain ⟨_, _, bs', fl', served, held, -⟩ := held_alloc h env safe
      rw [served] at result
      cases result
      exact ⟨bs', fl', held⟩
    · rw [h.alloc_noFit small none] at result
      cases result
      exact ⟨bs, fl, h⟩
  | free l =>
    obtain ⟨hl, rfl⟩ := step
    obtain ⟨bs', fl', held, -⟩ := held_free h hl
    exact ⟨bs', fl', held⟩
  | realloc l n =>
    obtain ⟨hl, q, s', result, rfl⟩ := step
    have served : n.toNat ≤ pxPoolUsableSize t.1 l.ptr ∨ NoOverflow n.toNat (roundedAlign ALIGN) →
        ∃ bs fl, Held s' bs fl (regrown t.2 l n.toNat q) := by
      intro safe
      obtain ⟨_, _, bs', fl', served, held, -⟩ := held_realloc h hl env safe
      rw [served] at result
      cases result
      exact ⟨bs', fl', held⟩
    rcases harmless with fits | safe | ⟨small, none⟩
    · exact served (Or.inl fits)
    · exact served (Or.inr safe)
    · by_cases fits : n.toNat ≤ pxPoolUsableSize t.1 l.ptr
      · exact served (Or.inl fits)
      · obtain ⟨b, hb⟩ := h.owns l hl
        have ptr := hb.ptr_pos
        have some : n.toNat ≠ 0 := by omega
        unfold pxPoolRealloc at result
        rw [if_neg (by omega), if_neg some, if_neg fits, h.alloc_noFit small none] at result
        cases result
        dsimp only
        rw [regrown, if_neg some, if_pos rfl]
        exact ⟨bs, fl, h⟩
  | write m =>
    obtain ⟨inside, rfl⟩ := step
    exact ⟨bs, fl, (held_write h fun a _ => inside a).1⟩

/-- After harmless calls every live allocation can be reallocated. -/
theorem realloc_honoured {steps : List ((State × List Live) × Call)} {p : Nat} {m : Mem} (maps : env.mmap = some p)
    (mapped : Mapped p env.reservation)
    (run : Trace (fun t (call : Call) t' => call.step env t t') ((ensureInitLocked env { mem := m }).2, []) steps (s, L))
    (harmless : ∀ t ∈ steps, t.2.Harmless t.1) :
    ∀ l ∈ L, ∀ n, 0 < n → n ≤ 2 ^ 62 → ReallocHonoured env s L l n := by
  have first : ∃ bs fl, Held (ensureInitLocked env { mem := m }).2 bs fl [] := by
    obtain ⟨fl, rep⟩ := init_rep m maps mapped
    rw [ensureInitLocked_fresh m maps] at rep ⊢
    exact ⟨_, fl, rep, rfl, rfl, by simp, List.Pairwise.nil⟩
  obtain ⟨bs, fl, h⟩ : ∃ bs fl, Held s bs fl L :=
    run.invariant (I := fun t => ∃ bs fl, Held t.1 bs fl t.2) first
      fun t call t' here inv step => Call.step_held inv (harmless (t, call) here) step
  intro l hl n pos hn
  have safe := noOverflow_of_small hn (by decide : ALIGN ≤ 2 ^ 62)
  obtain ⟨q, s', _, _, result, -, untouched, -, kept⟩ := held_realloc h hl env (Or.inr safe)
  exact ⟨q, s', result, kept pos, h.realloc_released hl pos safe result, untouched⟩

end

/-! ### A pool of 1 MiB at 65536 -/

def smallEnv : Env := ⟨some 65536, 1⟩

def smallPool : State := (ensureInitLocked smallEnv { mem := fun _ => 0 }).2

theorem smallPool_maps : smallEnv.mmap = some 65536 := rfl

theorem smallPool_mapped : Mapped 65536 smallEnv.reservation := ⟨by decide, by decide, by decide, by decide⟩

/-- The state that a request leaves. -/
def afterAlloc (s : State) (size align : Nat) : State := ((pxPoolAlloc smallEnv s size align).map Prod.snd).getD s

theorem alloc_result {s : State} {size align p : Nat} (ptr : (pxPoolAlloc smallEnv s size align).map Prod.fst = some p) :
    pxPoolAlloc smallEnv s size align = some (p, afterAlloc s size align) := by
  unfold afterAlloc
  cases result : pxPoolAlloc smallEnv s size align with
  | none =>
    rw [result] at ptr
    cases ptr
  | some r =>
    rw [result] at ptr
    cases ptr
    rfl

theorem realloc_honoured_hundred :
    ReallocHonoured smallEnv (afterAlloc smallPool 100 16) [⟨65552, 100, 16⟩] ⟨65552, 100, 16⟩ 200 := by
  have ptr : (pxPoolAlloc smallEnv smallPool 100 16).map Prod.fst = some 65552 := by decide +kernel
  have step : Call.step smallEnv (smallPool, []) (.alloc 100 16) (afterAlloc smallPool 100 16, [⟨65552, 100, 16⟩]) :=
    ⟨65552, _, alloc_result ptr, rfl⟩
  have harmless : Call.Harmless (smallPool, []) (.alloc 100 16) := Or.inl (noOverflow_of_small (by decide) (by decide))
  have run : Trace (fun t (call : Call) t' => call.step smallEnv t t') (smallPool, []) _ _ := Trace.start.next step
  refine realloc_honoured smallPool_maps smallPool_mapped run ?_ _ List.mem_cons_self 200 (by decide) (by decide)
  intro t here
  obtain rfl := List.mem_singleton.mp here
  exact harmless

/-- `size + align + 24` is 2^64, and the pointer is 64 bytes after the header of a block of 32. -/
def wrapped : State := afterAlloc smallPool (2 ^ 64 - 88) 64

/-- The next block has the back-pointer of the first among its bytes. -/
def covered : State := afterAlloc wrapped 200 16

/-- The program fills the first bytes of its 200. -/
def redirected : State := { covered with mem := fun a => if a = 65592 then 32 else if a = 65584 then 1 else covered.mem a }

theorem redirected_run : ∃ steps, Trace (fun t (call : Call) t' => call.step smallEnv t t') (smallPool, []) steps
    (redirected, [⟨65584, 200, 16⟩, ⟨65600, 2 ^ 64 - 88, 64⟩]) := by
  have first : (pxPoolAlloc smallEnv smallPool (2 ^ 64 - 88) 64).map Prod.fst = some 65600 := by decide +kernel
  have second : (pxPoolAlloc smallEnv wrapped 200 16).map Prod.fst = some 65584 := by decide +kernel
  have step₁ : Call.step smallEnv (smallPool, []) (.alloc 18446744073709551528 64) (wrapped, [⟨65600, 2 ^ 64 - 88, 64⟩]) :=
    ⟨65600, _, alloc_result first, rfl⟩
  have step₂ : Call.step smallEnv (wrapped, [⟨65600, 2 ^ 64 - 88, 64⟩]) (.alloc 200 16)
      (covered, [⟨65584, 200, 16⟩, ⟨65600, 2 ^ 64 - 88, 64⟩]) := ⟨65584, _, alloc_result second, rfl⟩
  have usable : pxPoolUsableSize covered 65584 = 216 := by decide +kernel
  have step₃ : Call.step smallEnv (covered, [⟨65584, 200, 16⟩, ⟨65600, 2 ^ 64 - 88, 64⟩]) (.write redirected.mem)
      (redirected, [⟨65584, 200, 16⟩, ⟨65600, 2 ^ 64 - 88, 64⟩]) := by
    refine ⟨?_, rfl⟩
    intro a outside
    have apart : ¬ (65584 ≤ a ∧ a < 65584 + 216) := by
      intro inside
      exact outside ⟨⟨65584, 200, 16⟩, List.mem_cons_self, inside.1, by rw [usable]; exact inside.2⟩
    simp [redirected, show a ≠ 65592 by omega, show a ≠ 65584 by omega]
  exact ⟨_, ((Trace.start.next step₁).next step₂).next step₃⟩

/-- Reallocating the first pointer frees the block of the other. -/
theorem realloc_frees_another : ¬ ∀ steps s L,
    Trace (fun t (call : Call) t' => call.step smallEnv t t') (smallPool, []) steps (s, L) →
    ∀ l ∈ L, ∀ n, 0 < n → n ≤ 2 ^ 62 → ReallocHonoured smallEnv s L l n := by
  intro honoured
  obtain ⟨steps, run⟩ := redirected_run
  obtain ⟨q, s', result, -, -, untouched⟩ := honoured steps _ _ run ⟨65600, 2 ^ 64 - 88, 64⟩ (by simp) 5000 (by decide)
    (by decide)
  have freed : (pxPoolRealloc smallEnv redirected 65600 5000).map (fun r => r.2.mem 65584) = some 0 := by decide +kernel
  rw [result] at freed
  have kept := (untouched ⟨65584, 200, 16⟩ (by decide)).2 65584 (by decide) (by decide +kernel)
  have before : redirected.mem 65584 = 1 := by simp [redirected]
  have after : s'.mem 65584 = 0 := Option.some.inj freed
  rw [kept, before] at after
  cases after

end Parallax.Pool
