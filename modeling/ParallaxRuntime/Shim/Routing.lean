import ParallaxRuntime.Shim.Capture

/-!
# Pointer ownership of the shim

The pool's live pointers lie in its reservation and libc's do not, so the address tells
who produced a pointer, before the pool exists, while it is in use and when `mmap` refused it.
-/

namespace Parallax.Shim
open Memory Pool Ownership

/-- The pool holds exactly the pointers `P`: it has not been asked for, was refused, or is in use. -/
inductive PoolHolds (env : Env) : State → List Nat → Prop
  | unopened (m : Mem) (maps : ∀ base, env.mmap = some base → Mapped base env.reservation) :
      PoolHolds env { mem := m } []
  | refused (m : Mem) (none : env.mmap = none) : PoolHolds env (ensureInitLocked env { mem := m }).2 []
  | opened {s : State} {P : List Nat} {bs : List Block} {fl : Nat → List Nat} {K : List Live} (held : Held s bs fl K)
      (base : env.mmap = some s.base) (reservation : s.reservation = env.reservation)
      (same : P.Perm (K.map Live.ptr)) : PoolHolds env s P

section
variable {env : Env} {s s' : State} {P Q : List Nat} {p n size align : Nat}

theorem PoolHolds.perm (h : PoolHolds env s P) (perm : P.Perm Q) : PoolHolds env s Q := by
  cases h with
  | unopened m maps =>
    rw [List.nil_perm.mp perm]
    exact .unopened m maps
  | refused m none =>
    rw [List.nil_perm.mp perm]
    exact .refused m none
  | opened held base reservation same => exact .opened held base reservation (perm.symm.trans same)

theorem PoolHolds.contains (h : PoolHolds env s P) (hp : p ∈ P) : p ≠ 0 ∧ pxPoolContains s p = true := by
  cases h with
  | unopened m maps => cases hp
  | refused m none => cases hp
  | opened held base reservation same =>
    obtain ⟨l, hl, rfl⟩ := List.mem_map.mp (same.subset hp)
    obtain ⟨b, hb⟩ := held.owns l hl
    have bounds := held.rep.bounds hb.mem
    have pos := held.rep.base_pos
    have := hb.lower
    have := hb.upper
    unfold pxPoolContains
    rw [decide_eq_true_eq]
    omega

theorem PoolHolds.not_contains (h : PoolHolds env s P) (outside : Outside env p) : pxPoolContains s p = false := by
  cases h with
  | unopened m maps => rfl
  | refused m none =>
    unfold ensureInitLocked
    rw [none]
    rfl
  | opened held base reservation same =>
    have := outside s.base base
    unfold pxPoolContains
    rw [decide_eq_false_iff_not, reservation]
    omega

theorem PoolHolds.write (h : PoolHolds env s P) {m : Mem}
    (inside : ∀ a, ¬ (∃ p ∈ P, p ≤ a ∧ a < p + pxPoolUsableSize s p) → m a = s.mem a) :
    PoolHolds env { s with mem := m } P := by
  cases h with
  | unopened m' maps => exact .unopened m maps
  | refused m' none =>
    have kept : m = m' := by
      funext a
      rw [inside a fun ⟨p, hp, _⟩ => by cases hp]
      unfold ensureInitLocked
      rw [none]
      rfl
    rw [kept]
    have body := PoolHolds.refused m' none
    unfold ensureInitLocked at body ⊢
    rw [none] at body ⊢
    exact body
  | opened held base reservation same =>
    refine .opened (held_write held fun a _ outside => inside a ?_).1 base reservation same
    rintro ⟨p, hp, bounds⟩
    obtain ⟨l, hl, rfl⟩ := List.mem_map.mp (same.subset hp)
    exact outside ⟨l, hl, bounds⟩

theorem ensureInitLocked_again (m : Mem) :
    ensureInitLocked env (ensureInitLocked env { mem := m }).2 = ensureInitLocked env { mem := m } := by
  cases found : env.mmap with
  | none =>
    unfold ensureInitLocked
    rw [found]
    rfl
  | some p =>
    rw [ensureInitLocked_fresh m found]
    rfl

/-- The first request opens the pool or finds it refused. -/
theorem pxPoolAlloc_ensured (m : Mem) :
    pxPoolAlloc env { mem := m } size align = pxPoolAlloc env (ensureInitLocked env { mem := m }).2 size align := by
  unfold pxPoolAlloc
  rw [ensureInitLocked_again m]

theorem PoolHolds.alloc_opened {bs : List Block} {fl : Nat → List Nat} {K : List Live} (held : Held s bs fl K)
    (base : env.mmap = some s.base) (reservation : s.reservation = env.reservation) (same : P.Perm (K.map Live.ptr))
    (hs : size ≤ 2 ^ 62) (ha : align ≤ 2 ^ 62) :
    ∃ p s', pxPoolAlloc env s size align = some (p, s') ∧ PoolHolds env s' (granted P p) ∧
      (p ≠ 0 → size ≤ pxPoolUsableSize s' p) := by
  obtain ⟨p, s', bs', fl', result, held', -, statics⟩ := held_alloc held env (noOverflow_of_small hs ha)
  refine ⟨p, s', result, ?_, ?_⟩
  · apply PoolHolds.opened held'
    · rw [base, statics.1]
    · rw [statics.2.1, reservation]
    · unfold granted grown
      split
      · exact same
      · exact same.cons p
  · intro nonnull
    unfold grown at held'
    rw [if_neg nonnull] at held'
    obtain ⟨b, hb⟩ := held'.owns _ List.mem_cons_self
    have := hb.usable held'.rep
    have := hb.upper
    dsimp only at *
    omega

theorem PoolHolds.alloc (h : PoolHolds env s P) (hs : size ≤ 2 ^ 62) (ha : align ≤ 2 ^ 62) :
    ∃ p s', pxPoolAlloc env s size align = some (p, s') ∧ PoolHolds env s' (granted P p) ∧
      (p ≠ 0 → size ≤ pxPoolUsableSize s' p) := by
  have refused : ∀ m, env.mmap = none → ∃ p s', pxPoolAlloc env (ensureInitLocked env { mem := m }).2 size align = some (p, s') ∧
      PoolHolds env s' (granted [] p) ∧ (p ≠ 0 → size ≤ pxPoolUsableSize s' p) := by
    intro m none
    refine ⟨0, (ensureInitLocked env { mem := m }).2, ?_, .refused m none, fun nonnull => absurd rfl nonnull⟩
    unfold pxPoolAlloc ensureInitLocked
    rw [normAlign_eq (ha.trans (by decide)), none]
    rfl
  cases h with
  | unopened m maps =>
    rw [pxPoolAlloc_ensured m]
    cases found : env.mmap with
    | none => exact refused m found
    | some base =>
      obtain ⟨fl, rep⟩ := init_rep m found (maps base found)
      rw [ensureInitLocked_fresh m found] at rep ⊢
      have held : Held _ _ fl [] := ⟨rep, rfl, rfl, by simp, List.Pairwise.nil⟩
      exact alloc_opened held found rfl (List.Perm.refl _) hs ha
  | refused m none => exact refused m none
  | opened held base reservation same => exact alloc_opened held base reservation same hs ha

theorem PoolHolds.free (h : PoolHolds env s P) (hp : p ∈ P) : PoolHolds env (pxPoolFree s p) (P.erase p) := by
  cases h with
  | unopened m maps => cases hp
  | refused m none => cases hp
  | opened held base reservation same =>
    obtain ⟨l, hl, rfl⟩ := List.mem_map.mp (same.subset hp)
    obtain ⟨bs', fl', held', -, statics⟩ := held_free held hl
    apply PoolHolds.opened held'
    · rw [base, statics.1]
    · rw [statics.2.1, reservation]
    · exact (same.erase l.ptr).trans (held.map_dropped l)

theorem PoolHolds.realloc (h : PoolHolds env s P) (hp : p ∈ P) (hn : n ≤ 2 ^ 62) (pos : n ≠ 0) :
    ∃ q s', pxPoolRealloc env s p n = some (q, s') ∧ PoolHolds env s' (regranted P p n q) := by
  cases h with
  | unopened m maps => cases hp
  | refused m none => cases hp
  | opened held base reservation same =>
    obtain ⟨l, hl, rfl⟩ := List.mem_map.mp (same.subset hp)
    obtain ⟨q, s', bs', fl', result, held', -, statics, -⟩ :=
      held_realloc held hl env (Or.inr (noOverflow_of_small hn (by decide : ALIGN ≤ 2 ^ 62)))
    have others := (same.erase l.ptr).trans (held.map_dropped l)
    refine ⟨q, s', result, .opened held' ?_ ?_ ?_⟩
    · rw [base, statics.1]
    · rw [statics.2.1, reservation]
    · unfold regranted regrown
      rw [if_neg pos, if_neg pos]
      split
      · exact same
      · split
        · next kept =>
          rw [kept]
          exact others.cons l.ptr
        · exact others.cons q

end

/-! ### One request -/

/-- The pool holds what the ledger says, and libc's pointers lie outside the reservation. -/
structure Routed (env : Env) (s : State) (L : Ledger Heap) : Prop where
  pool : PoolHolds env s (L.heldBy .pool)
  foreign : ∀ p, (Heap.libc, p) ∈ L → p ≠ 0 ∧ Outside env p

/-- The calls that answer a request settle, and the ledger agrees with the program again. -/
def Settled (env : Env) (s : State) (L : Ledger Heap) (calls : List (Call Heap)) (live : List Nat) : Prop :=
  ∃ L', L.settleAll calls = some L' ∧ Routed env s L' ∧ (L'.map Prod.snd).Perm live

section
variable {env : Env} {s : State} {L : Ledger Heap} {live : List Nat} {p n libc size align : Nat}

theorem Routed.foreign_alloc (h : Routed env s L) (outside : Outside env p) (agree : (L.map Prod.snd).Perm live) :
    Settled env s L [.alloc .libc p] (granted live p) := by
  refine ⟨_, Ledger.settleAll_singleton _, ?_, Ledger.map_granted agree⟩
  split
  · exact h
  · next nonnull =>
    constructor
    · rw [Ledger.heldBy_cons_other (by decide)]
      exact h.pool
    · intro q hq
      rcases List.mem_cons.mp hq with same | old
      · cases same
        exact ⟨nonnull, outside⟩
      · exact h.foreign q old

theorem Routed.pool_alloc (h : Routed env s L) (hs : size ≤ 2 ^ 62) (ha : align ≤ 2 ^ 62)
    (agree : (L.map Prod.snd).Perm live) :
    ∃ p s', pxPoolAlloc env s size align = some (p, s') ∧ Settled env s' L [.alloc .pool p] (granted live p) ∧
      (p = 0 → Routed env s' L) ∧ (p ≠ 0 → size ≤ pxPoolUsableSize s' p) := by
  obtain ⟨p, s', result, pool, room⟩ := h.pool.alloc hs ha
  refine ⟨p, s', result, ⟨_, Ledger.settleAll_singleton _, ?_, Ledger.map_granted agree⟩, ?_, room⟩
  · unfold granted at pool
    split
    · next null =>
      rw [if_pos null] at pool
      exact ⟨pool, h.foreign⟩
    · next nonnull =>
      rw [if_neg nonnull] at pool
      refine ⟨?_, fun q hq => h.foreign q ?_⟩
      · rw [Ledger.heldBy_cons_self]
        exact pool
      · simpa using hq
  · intro null
    rw [null] at pool
    exact ⟨pool, h.foreign⟩

theorem Routed.poolOrLibc (h : Routed env s L) (outside : Outside env libc) (hs : n + align ≤ 2 ^ 62)
    (agree : (L.map Prod.snd).Perm live) :
    ∃ r, poolOrLibc env libc s n align = some r ∧ Settled env r.pool L r.calls (granted live r.ptr) := by
  unfold Shim.poolOrLibc
  dsimp only
  obtain ⟨p, s', result, settled, null, -⟩ :=
    h.pool_alloc (show (if n = 0 then 1 else n) ≤ 2 ^ 62 by split <;> omega) (show align ≤ 2 ^ 62 by omega) agree
  rw [result, Option.map_some]
  refine ⟨_, rfl, ?_⟩
  dsimp only
  by_cases nonnull : p ≠ 0
  · rw [if_pos nonnull]
    exact settled
  · rw [if_neg nonnull]
    exact (null (not_not.mp nonnull)).foreign_alloc outside agree

theorem Routed.alignedAlloc (h : Routed env s L) (hs : n + align ≤ 2 ^ 62) (agree : (L.map Prod.snd).Perm live) :
    ∃ r, alignedAlloc env s align n = some r ∧ Settled env r.pool L r.calls (granted live r.ptr) := by
  unfold Shim.alignedAlloc
  obtain ⟨p, s', result, settled, -⟩ :=
    h.pool_alloc (show (if n ≠ 0 then n else 1) ≤ 2 ^ 62 by split <;> omega) (show align ≤ 2 ^ 62 by omega) agree
  rw [result, Option.map_some]
  exact ⟨_, rfl, settled⟩

theorem Routed.posixMemalign (h : Routed env s L) (hs : n + align ≤ 2 ^ 62) (agree : (L.map Prod.snd).Perm live) :
    ∃ r, posixMemalign env s align n = some r ∧ Settled env r.pool L r.calls (granted live r.ptr) := by
  unfold Shim.posixMemalign
  split
  · exact ⟨_, rfl, L, rfl, h, agree⟩
  · obtain ⟨p, s', result, settled, -⟩ :=
      h.pool_alloc (show (if n ≠ 0 then n else 1) ≤ 2 ^ 62 by split <;> omega) (show align ≤ 2 ^ 62 by omega) agree
    rw [result, Option.map_some]
    refine ⟨_, rfl, ?_⟩
    dsimp only
    split
    · next null =>
      rw [null] at settled
      exact settled
    · exact settled

theorem product_exact {nmemb size : Nat} (ok : ¬ (nmemb ≠ 0 ∧ nmemb * size % 2 ^ 64 / nmemb ≠ size)) :
    nmemb * size < 2 ^ 64 := by
  by_contra large
  apply ok
  have nonzero : nmemb ≠ 0 := by
    rintro rfl
    omega
  refine ⟨nonzero, fun same => ?_⟩
  have : nmemb * (nmemb * size % 2 ^ 64 / nmemb) ≤ nmemb * size % 2 ^ 64 := Nat.mul_div_le _ _
  rw [same] at this
  omega

theorem Routed.calloc {nmemb : Nat} (h : Routed env s L) (outside : Outside env libc)
    (hs : nmemb * size < 2 ^ 64 → nmemb * size + 16 ≤ 2 ^ 62) (agree : (L.map Prod.snd).Perm live) :
    ∃ r, calloc env libc s nmemb size = some r ∧ Settled env r.pool L r.calls (granted live r.ptr) := by
  unfold Shim.calloc
  dsimp only
  split
  · exact ⟨_, rfl, L, rfl, h, agree⟩
  · next ok =>
    have exact_ := product_exact ok
    have small := hs exact_
    rw [Nat.mod_eq_of_lt exact_]
    generalize nmemb * size = n at *
    obtain ⟨p, s', result, ⟨L', settled, routed, agree'⟩, null, room⟩ :=
      h.pool_alloc (show (if n ≠ 0 then n else 1) ≤ 2 ^ 62 by split <;> omega) (show 16 ≤ 2 ^ 62 by decide) agree
    rw [result, Option.map_some]
    refine ⟨_, rfl, ?_⟩
    dsimp only
    split
    · next none => exact (null none).foreign_alloc outside agree
    · next nonnull =>
      refine ⟨L', settled, ⟨routed.pool.write fun a outside => ?_, routed.foreign⟩, agree'⟩
      apply if_neg
      intro inside
      apply outside
      refine ⟨p, ?_, inside.1, ?_⟩
      · rw [Ledger.settleAll_singleton] at settled
        cases settled
        rw [if_neg nonnull, Ledger.heldBy_cons_self]
        exact List.mem_cons_self
      · have := room nonnull
        split at this <;> omega

theorem Routed.contains (h : Routed env s L) {o : Heap} (held : (o, p) ∈ L) :
    p ≠ 0 ∧ pxPoolContains s p = decide (o = .pool) := by
  cases o with
  | pool => exact h.pool.contains (Ledger.mem_heldBy.mpr held)
  | libc =>
    obtain ⟨nonnull, outside⟩ := h.foreign p held
    exact ⟨nonnull, h.pool.not_contains outside⟩

/-- A released pointer goes to the heap that holds it, in one call. -/
theorem Routed.routeFree_calls (h : Routed env s L) {o : Heap} (held : (o, p) ∈ L) :
    (routeFree s p).calls = [.free o p] := by
  obtain ⟨nonnull, contains⟩ := h.contains held
  unfold routeFree
  rw [if_neg nonnull, contains]
  cases o <;> rfl

theorem Routed.free_held (h : Routed env s L) {o : Heap} (held : (o, p) ∈ L) (agree : (L.map Prod.snd).Perm live) :
    Settled env (routeFree s p).pool L (routeFree s p).calls (live.erase p) := by
  rw [h.routeFree_calls held]
  obtain ⟨nonnull, contains⟩ := h.contains held
  refine ⟨_, (Ledger.settleAll_singleton _).trans (Ledger.settle_free held), ?_, Ledger.map_erase held agree⟩
  refine ⟨?_, fun q hq => h.foreign q (List.mem_of_mem_erase hq)⟩
  unfold routeFree
  rw [if_neg nonnull, contains]
  cases o with
  | pool => exact (h.pool.free (Ledger.mem_heldBy.mpr held)).perm (((Ledger.heldBy_erase held).erase p).trans (by simp))
  | libc => exact h.pool.perm (Ledger.heldBy_erase_other held (by decide))

theorem Routed.free (h : Routed env s L) (allowed : p = 0 ∨ p ∈ live) (agree : (L.map Prod.snd).Perm live) :
    Settled env (routeFree s p).pool L (routeFree s p).calls (live.erase p) := by
  by_cases live' : p ∈ live
  · obtain ⟨⟨o, q⟩, held, rfl⟩ := List.mem_map.mp (agree.symm.subset live')
    exact h.free_held held agree
  · rw [List.erase_of_not_mem live']
    have null : p = 0 := allowed.resolve_right live'
    unfold routeFree
    rw [if_pos null]
    exact ⟨L, rfl, h, agree⟩

/-- A resized pointer is resized or released by the heap that holds it, in one call. -/
theorem Routed.realloc_held (h : Routed env s L) {o : Heap} (held : (o, p) ∈ L) (outside : Outside env libc)
    (hn : n + 16 ≤ 2 ^ 62) (agree : (L.map Prod.snd).Perm live) :
    ∃ r, realloc env libc s p n = some r ∧ Settled env r.pool L r.calls (regranted live p n r.ptr) ∧
      (r.calls = [.realloc o p n r.ptr] ∨ n = 0 ∧ r.ptr = 0 ∧ r.calls = [.free o p]) := by
  obtain ⟨nonnull, contains⟩ := h.contains held
  unfold Shim.realloc
  rw [if_neg nonnull, contains]
  cases o with
  | libc =>
    refine ⟨_, rfl, ⟨_, (Ledger.settleAll_singleton _).trans (Ledger.settle_realloc held), ?_,
      Ledger.map_regranted held agree⟩, Or.inl rfl⟩
    dsimp only
    have erased : Routed env s (L.erase (.libc, p)) :=
      ⟨h.pool.perm (Ledger.heldBy_erase_other held (by decide)), fun q hq => h.foreign q (List.mem_of_mem_erase hq)⟩
    split
    · split
      · exact erased
      · exact h
    · next fresh =>
      constructor
      · rw [Ledger.heldBy_cons_other (by decide)]
        exact erased.pool
      · intro q hq
        rcases List.mem_cons.mp hq with same | old
        · cases same
          exact ⟨fresh, outside⟩
        · exact erased.foreign q old
  | pool =>
    have mem := Ledger.mem_heldBy.mpr held
    have others : ((L.heldBy .pool).erase p).Perm (Ledger.heldBy (L.erase (.pool, p)) .pool) :=
      ((Ledger.heldBy_erase held).erase p).trans (by simp)
    rw [if_pos (by decide)]
    split
    · next zero =>
      refine ⟨_, rfl, ⟨_, (Ledger.settleAll_singleton _).trans (Ledger.settle_free held), ?_, ?_⟩,
        Or.inr ⟨zero, rfl, rfl⟩⟩
      · exact ⟨(h.pool.free mem).perm others, fun q hq => h.foreign q (List.mem_of_mem_erase hq)⟩
      · unfold regranted
        rw [if_pos rfl, if_pos zero]
        exact Ledger.map_erase held agree
    · next pos =>
      obtain ⟨q, s', result, pool⟩ := h.pool.realloc mem (by omega : n ≤ 2 ^ 62) pos
      rw [result, Option.map_some]
      refine ⟨_, rfl, ⟨_, (Ledger.settleAll_singleton _).trans (Ledger.settle_realloc held), ?_,
        Ledger.map_regranted held agree⟩, Or.inl rfl⟩
      dsimp only
      unfold regranted at pool
      rw [if_neg pos] at pool ⊢
      split
      · next null =>
        rw [if_pos null] at pool
        exact ⟨pool, h.foreign⟩
      · next moved =>
        rw [if_neg moved] at pool
        refine ⟨?_, fun p' hp => h.foreign p' ?_⟩
        · rw [Ledger.heldBy_cons_self]
          exact pool.perm (others.cons q)
        · rcases List.mem_cons.mp hp with same | old
          · cases same
          · exact List.mem_of_mem_erase old

theorem Routed.operatorNew {align : Option Nat} {nothrow : Bool} (h : Routed env s L) (outside : Outside env libc)
    (hs : n + align.getD maxAlign ≤ 2 ^ 62) (agree : (L.map Prod.snd).Perm live) :
    ∃ r, operatorNew env libc s n align nothrow = some r ∧ Settled env r.pool L r.calls (granted live r.ptr) := by
  obtain ⟨r, result, settled⟩ := h.poolOrLibc outside hs agree
  unfold Shim.operatorNew
  rw [result, Option.map_some]
  refine ⟨_, rfl, ?_⟩
  split <;> exact settled

/-- Every request that the program may make is answered, and its calls settle. -/
theorem Routed.serve {req : Request} (h : Routed env s L) (outside : Outside env libc) (bounded : req.Bounded)
    (allowed : req.Allowed live) (agree : (L.map Prod.snd).Perm live) :
    ∃ r, serve env libc s req = some r ∧ Settled env r.pool L r.calls (req.after live r) := by
  cases req with
  | new n align nothrow => exact h.operatorNew outside bounded agree
  | malloc n => exact h.poolOrLibc outside bounded agree
  | calloc nmemb size => exact h.calloc outside bounded agree
  | alignedAlloc align n => exact h.alignedAlloc bounded agree
  | memalign align n => exact h.alignedAlloc bounded agree
  | valloc n => exact h.alignedAlloc bounded agree
  | pvalloc n => exact h.alignedAlloc bounded agree
  | posixMemalign align n => exact h.posixMemalign bounded agree
  | delete p => exact ⟨_, rfl, h.free allowed agree⟩
  | free p => exact ⟨_, rfl, h.free allowed agree⟩
  | realloc p n =>
    unfold Request.after
    by_cases null : p = 0
    · simp only [if_pos null]
      obtain ⟨r, result, settled⟩ := h.poolOrLibc outside (show n + 16 ≤ 2 ^ 62 from bounded) agree
      exact ⟨r, (if_pos null).trans result, settled⟩
    · simp only [if_neg null]
      obtain ⟨⟨o, q⟩, held, rfl⟩ := List.mem_map.mp (agree.symm.subset (allowed.resolve_left null))
      obtain ⟨r, result, settled, -⟩ := h.realloc_held held outside bounded agree
      exact ⟨r, result, settled⟩

end

/-! ### Runs -/

/-- The ledger lists the program's live pointers under the heap that produced them. Every request
is answered, and each live pointer goes back to that heap in one call. -/
structure Owned (env : Env) (s : State) (live : List Nat) (L : Ledger Heap) : Prop where
  agree : (L.map Prod.snd).Perm live
  distinct : (L.heldBy .pool).Nodup
  answered : ∀ libc req, Outside env libc → req.Bounded → req.Allowed live → ∃ r, serve env libc s req = some r
  freed : ∀ o p, (o, p) ∈ L → ∀ libc req, req = .free p ∨ req = .delete p →
    ∃ r, serve env libc s req = some r ∧ r.calls = [.free o p]
  resized : ∀ o p, (o, p) ∈ L → ∀ libc n, Outside env libc → n + 16 ≤ 2 ^ 62 →
    ∃ r, serve env libc s (.realloc p n) = some r ∧
      (r.calls = [.realloc o p n r.ptr] ∨ n = 0 ∧ r.ptr = 0 ∧ r.calls = [.free o p])

section
variable {env : Env} {s : State} {live : List Nat} {trace : List (Call Heap)} {L : Ledger Heap}

theorem PoolHolds.nodup {P : List Nat} (h : PoolHolds env s P) : P.Nodup := by
  cases h with
  | unopened m maps => exact List.nodup_nil
  | refused m none => exact List.nodup_nil
  | opened held base reservation same => exact same.nodup_iff.mpr held.ptr_nodup

theorem Routed.toOwned (h : Routed env s L) (agree : (L.map Prod.snd).Perm live) : Owned env s live L where
  agree := agree
  distinct := h.pool.nodup
  answered := by
    intro libc req outside bounded allowed
    obtain ⟨r, result, -⟩ := h.serve outside bounded allowed agree
    exact ⟨r, result⟩
  freed := by
    rintro o p held libc req (rfl | rfl)
    · exact ⟨_, rfl, h.routeFree_calls held⟩
    · exact ⟨_, rfl, h.routeFree_calls held⟩
  resized := by
    intro o p held libc n outside bounded
    obtain ⟨r, result, -, calls⟩ := h.realloc_held held outside bounded agree
    exact ⟨r, result, calls⟩

theorem Run.routed (run : Run env s live trace) :
    ∃ L, replay trace = some L ∧ Routed env s L ∧ (L.map Prod.snd).Perm live := by
  induction run with
  | start m maps => exact ⟨[], rfl, ⟨.unopened m maps, fun p hp => by cases hp⟩, List.Perm.refl []⟩
  | foreign run outside ih =>
    obtain ⟨L, settled, routed, agree⟩ := ih
    rw [replay_append settled]
    exact routed.foreign_alloc outside agree
  | request run outside bounded allowed served ih =>
    obtain ⟨L, settled, routed, agree⟩ := ih
    obtain ⟨r, result, answer⟩ := routed.serve outside bounded allowed agree
    rw [served] at result
    cases result
    rw [replay_append settled]
    exact answer
  | write run inside ih =>
    obtain ⟨L, settled, routed, agree⟩ := ih
    refine ⟨L, settled, ⟨routed.pool.write fun a outside => inside a ?_, routed.foreign⟩, agree⟩
    rintro ⟨p, hp, contains, bounds⟩
    obtain ⟨⟨o, q⟩, held, rfl⟩ := List.mem_map.mp (agree.symm.subset hp)
    have := (routed.contains held).2
    dsimp only at contains
    rw [contains] at this
    have pool : o = .pool := of_decide_eq_true this.symm
    rw [pool] at held
    exact outside ⟨q, Ledger.mem_heldBy.mpr held, bounds⟩

/-- In every run each release goes to the allocator that holds the pointer. -/
theorem Run.owned (run : Run env s live trace) : ∃ L, replay trace = some L ∧ Owned env s live L := by
  obtain ⟨L, settled, routed, agree⟩ := run.routed
  exact ⟨L, settled, routed.toOwned agree⟩

end

theorem Run.owned_after_malloc : ∃ s L, replay [.alloc .libc 4096, .alloc .pool 65552] = some L ∧
    Owned ⟨some 65536, 1⟩ s [65552, 4096] L := by
  have libc : ∀ p, p < 65536 → Outside ⟨some 65536, 1⟩ p := by
    rintro p low base maps
    cases maps
    omega
  have start : Run ⟨some 65536, 1⟩ { mem := fun _ => 0 } [4096] [.alloc .libc 4096] := by
    refine .foreign (.start _ fun base maps => ?_) (libc 4096 (by decide))
    cases maps
    exact ⟨by decide, by decide, by decide, by decide⟩
  have bounded : (Request.malloc 100).Bounded := by
    unfold Request.Bounded
    decide
  obtain ⟨-, -, -, -, answered, -⟩ := Run.owned start
  obtain ⟨r, served⟩ := answered 0 (.malloc 100) (libc 0 (by decide)) bounded trivial
  have reply : (serve ⟨some 65536, 1⟩ 0 { mem := fun _ => 0 } (.malloc 100)).map (fun r => (r.ptr, r.calls)) =
      some (65552, [.alloc .pool 65552]) := by decide +kernel
  have run := start.request (libc 0 (by decide)) bounded trivial served
  rw [served, Option.map_some, Option.some.injEq, Prod.mk.injEq] at reply
  unfold Request.after at run
  rw [reply.1, reply.2] at run
  obtain ⟨L, settled, owned⟩ := Run.owned run
  exact ⟨r.pool, L, settled, owned⟩

end Parallax.Shim
