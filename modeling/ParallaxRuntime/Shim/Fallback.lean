import ParallaxRuntime.Pool.Realloc
import ParallaxRuntime.Shim.Routing

/-!
# Requests that the pool cannot serve

`operator new`, `malloc` and `calloc` go on to libc, which knows of no alignment above 16. The entry points for aligned
memory and `realloc` of a pool pointer do not go on at all.
-/

namespace Parallax.Shim
open Memory Pool Ownership

/-- An answer of libc: 16-aligned, and not inside the pool. -/
structure LibcAnswer (env : Env) (p : Nat) : Prop where
  nonnull : p ≠ 0
  aligned : p % 16 = 0
  outside : Outside env p

/-- A call that succeeded. -/
def Reply.Grants (align : Nat) (r : Reply) : Prop := r.failure = none ∧ r.ptr ≠ 0 ∧ r.ptr % align = 0

namespace Request

/-- The alignment that the caller may rely on. -/
def alignment : Request → Nat
  | new _ align _ => align.getD maxAlign
  | alignedAlloc align _ | memalign align _ | posixMemalign align _ => align
  | valloc _ | pvalloc _ => 4096
  | _ => 16

/-- A request for memory of at most 2^62 bytes, with a power of two for the alignment. -/
def Sized : Request → Prop
  | new n align _ => n ≤ 2 ^ 62 ∧ ∃ k < 64, align.getD maxAlign = 2 ^ k
  | malloc n | valloc n | pvalloc n => n ≤ 2 ^ 62
  | calloc nmemb size => nmemb * size ≤ 2 ^ 62
  | alignedAlloc align n | memalign align n | posixMemalign align n => n ≤ 2 ^ 62 ∧ ∃ k < 64, align = 2 ^ k
  | realloc _ n => 0 < n ∧ n ≤ 2 ^ 62
  | delete _ | free _ => False

/-- What `realloc` owes for the bytes of the pool. Those of libc are moved by libc. -/
def Keeps (s : State) (r : Reply) : Request → Prop
  | realloc p n =>
    if p = 0 then True
    else if pxPoolContains s p then ∀ i < min (pxPoolUsableSize s p) n, r.pool.mem (r.ptr + i) = s.mem (p + i)
    else r.calls = [.realloc .libc p n r.ptr]
  | _ => True

/-- Whatever libc answers, should it be asked. -/
def Honoured (env : Env) (s : State) (req : Request) : Prop :=
  ∀ libc, LibcAnswer env libc → ∃ r, serve env libc s req = some r ∧ r.Grants req.alignment ∧ req.Keeps s r

end Request

/-- A free block of the pool is large enough. -/
def PoolServes (env : Env) (s : State) (n align : Nat) : Prop :=
  ¬ NoFit (ensureInitLocked env s).2 n (roundedAlign align)

/-- The pool serves the request, or the entry point goes on to an allocator that can. -/
def Request.Covered (env : Env) (s : State) : Request → Prop
  | new n align _ => PoolServes env s n (align.getD maxAlign) ∨ align.getD maxAlign ≤ 16
  | alignedAlloc align n | memalign align n => PoolServes env s n align
  | valloc n | pvalloc n => PoolServes env s n 4096
  | posixMemalign align n => 8 ≤ align ∧ PoolServes env s n align
  | realloc p n => p = 0 ∨ pxPoolContains s p = false ∨ n ≤ pxPoolUsableSize s p ∨ PoolServes env s n ALIGN
  | _ => True

section
variable {env : Env} {s : State} {P : List Nat} {n align k p : Nat}

theorem noOverflow_two_pow (hn : n ≤ 2 ^ 62) (hk : k < 64) : NoOverflow n (roundedAlign (2 ^ k)) := by
  have exponent : max 4 (Nat.clog 2 (2 ^ k)) ≤ 63 := by
    rw [Nat.clog_pow 2 k (by decide)]
    omega
  have rounded : roundedAlign (2 ^ k) ≤ 2 ^ 63 := Nat.pow_le_pow_right (by decide) exponent
  unfold NoOverflow ALIGN
  omega

theorem two_pow_dvd_roundedAlign (k : Nat) : 2 ^ k ∣ roundedAlign (2 ^ k) := by
  apply Nat.pow_dvd_pow
  rw [Nat.clog_pow 2 k (by decide)]
  exact Nat.le_max_right 4 k

theorem sixteen_dvd_roundedAlign (align : Nat) : 16 ∣ roundedAlign align :=
  Nat.pow_dvd_pow 2 (Nat.le_max_left 4 (Nat.clog 2 align))

theorem poolServes_one : PoolServes env s (if n = 0 then 1 else n) align ↔ PoolServes env s n align := by
  have same : max (if n = 0 then 1 else n) 1 = max n 1 := by
    split <;> omega
  simp only [PoolServes, NoFit, same]

theorem held_request {bs : List Block} {fl : Nat → List Nat} {K : List Live} (held : Held s bs fl K)
    (safe : NoOverflow n (roundedAlign align)) : ∃ p s', pxPoolAlloc env s n align = some (p, s') ∧
      p % roundedAlign align = 0 ∧ (p ≠ 0 ↔ ¬ NoFit s n (roundedAlign align)) := by
  obtain ⟨p, s', bs', fl', result, held', -⟩ := held_alloc held env safe
  refine ⟨p, s', result, ?_, (held.alloc_null_iff safe result).not⟩
  by_cases null : p = 0
  · simp [null]
  · rw [grown, if_neg null] at held'
    obtain ⟨b, hb⟩ := held'.owns _ List.mem_cons_self
    exact hb.aligned

/-- The state of the pool decides, asked for the first time or not. -/
theorem PoolHolds.request (h : PoolHolds env s P) (safe : NoOverflow n (roundedAlign align)) :
    ∃ p s', pxPoolAlloc env s n align = some (p, s') ∧ p % roundedAlign align = 0 ∧
      (p ≠ 0 ↔ PoolServes env s n align) := by
  have refused : ∀ m, env.mmap = none →
      pxPoolAlloc env (ensureInitLocked env { mem := m }).2 n align = some (0, (ensureInitLocked env { mem := m }).2) ∧
      ¬ PoolServes env (ensureInitLocked env { mem := m }).2 n align := by
    intro m none
    constructor
    · unfold pxPoolAlloc ensureInitLocked
      rw [normAlign_eq safe.align_le, none]
      rfl
    · intro serves
      apply serves
      intro B block
      simp only [ensureInitLocked, none] at block
      cases block
  cases h with
  | unopened m maps =>
    have again : PoolServes env { mem := m } n align ↔ PoolServes env (ensureInitLocked env { mem := m }).2 n align := by
      unfold PoolServes
      rw [ensureInitLocked_again]
    rw [pxPoolAlloc_ensured m, again]
    cases found : env.mmap with
    | none =>
      obtain ⟨null, out⟩ := refused m found
      exact ⟨0, _, null, Nat.zero_mod _, by simp [out]⟩
    | some base =>
      obtain ⟨fl, rep⟩ := init_rep m found (maps base found)
      unfold PoolServes
      rw [ensureInitLocked_again]
      rw [ensureInitLocked_fresh m found] at rep ⊢
      have held : Held _ _ fl [] := ⟨rep, rfl, rfl, by simp, List.Pairwise.nil⟩
      exact held_request held safe
  | refused m none =>
    obtain ⟨null, out⟩ := refused m none
    exact ⟨0, _, null, Nat.zero_mod _, by simp [out]⟩
  | opened held base reservation same =>
    unfold PoolServes
    rw [ensureInitLocked_done env held.done held.ok]
    exact held_request held safe

/-- With pages for the pool, the first 4096 bytes are not its own. -/
theorem libcAnswer_sixteen (maps : ∀ base, env.mmap = some base → Mapped base env.reservation) : LibcAnswer env 16 := by
  refine ⟨by decide, by decide, ?_⟩
  intro base found inside
  have mapped := maps base found
  have := mapped.nonnull
  have := mapped.paged
  omega

theorem sixteen_mod_two_pow : 16 % 2 ^ k = 0 ↔ 2 ^ k ≤ 16 := by
  constructor
  · intro aligned
    exact Nat.le_of_dvd (by decide) (Nat.dvd_of_mod_eq_zero aligned)
  · intro small
    have exponent : k ≤ 4 := (Nat.pow_le_pow_iff_right (by decide : 1 < 2)).mp (show 2 ^ k ≤ 2 ^ 4 from small)
    exact Nat.mod_eq_zero_of_dvd (Nat.pow_dvd_pow 2 exponent)

/-- With the fallback, all but large alignments are safe. -/
theorem PoolHolds.poolOrLibc_iff (h : PoolHolds env s P)
    (maps : ∀ base, env.mmap = some base → Mapped base env.reservation) (hn : n ≤ 2 ^ 62) (hk : k < 64) :
    (∀ libc, LibcAnswer env libc → ∃ r, poolOrLibc env libc s n (2 ^ k) = some r ∧ r.Grants (2 ^ k)) ↔
      PoolServes env s n (2 ^ k) ∨ 2 ^ k ≤ 16 := by
  have small : (if n = 0 then 1 else n) ≤ 2 ^ 62 := by
    split <;> omega
  obtain ⟨p, s', result, aligned, serves⟩ := h.request (noOverflow_two_pow small hk)
  have multiple : p % 2 ^ k = 0 :=
    Nat.mod_eq_zero_of_dvd (Nat.dvd_trans (two_pow_dvd_roundedAlign k) (Nat.dvd_of_mod_eq_zero aligned))
  rw [poolServes_one] at serves
  rw [← serves]
  unfold Shim.poolOrLibc
  simp only [result, Option.map_some]
  by_cases nonnull : p ≠ 0
  · simp [nonnull, multiple, Reply.Grants]
  · simp only [nonnull, if_false, false_or]
    constructor
    · intro honoured
      obtain ⟨r, same, _, _, aligned⟩ := honoured 16 (libcAnswer_sixteen maps)
      cases same
      exact sixteen_mod_two_pow.mp aligned
    · intro low libc answer
      have divides : 2 ^ k ∣ 16 := Nat.dvd_of_mod_eq_zero (sixteen_mod_two_pow.mpr low)
      have multiple := Nat.mod_eq_zero_of_dvd (Nat.dvd_trans divides (Nat.dvd_of_mod_eq_zero answer.aligned))
      exact ⟨_, rfl, rfl, answer.nonnull, multiple⟩

/-- Without it the pool has to serve the request. -/
theorem PoolHolds.alignedAlloc_iff (h : PoolHolds env s P) (hn : n ≤ 2 ^ 62) (hk : k < 64) :
    (∃ r, alignedAlloc env s (2 ^ k) n = some r ∧ r.Grants (2 ^ k)) ↔ PoolServes env s n (2 ^ k) := by
  have small : (if n ≠ 0 then n else 1) ≤ 2 ^ 62 := by
    split <;> omega
  obtain ⟨p, s', result, aligned, serves⟩ := h.request (noOverflow_two_pow small hk)
  have multiple : p % 2 ^ k = 0 :=
    Nat.mod_eq_zero_of_dvd (Nat.dvd_trans (two_pow_dvd_roundedAlign k) (Nat.dvd_of_mod_eq_zero aligned))
  rw [ite_not, poolServes_one] at serves
  rw [← serves]
  unfold Shim.alignedAlloc
  simp only [result, Option.map_some]
  simp [multiple, Reply.Grants]

theorem two_pow_not_rejected : (2 ^ k < 8 ∨ 2 ^ k &&& (2 ^ k - 1) ≠ 0) ↔ ¬ 8 ≤ 2 ^ k := by
  simp

theorem PoolHolds.posixMemalign_iff (h : PoolHolds env s P) (hn : n ≤ 2 ^ 62) (hk : k < 64) :
    (∃ r, posixMemalign env s (2 ^ k) n = some r ∧ r.Grants (2 ^ k)) ↔ 8 ≤ 2 ^ k ∧ PoolServes env s n (2 ^ k) := by
  have small : (if n ≠ 0 then n else 1) ≤ 2 ^ 62 := by
    split <;> omega
  obtain ⟨p, s', result, aligned, serves⟩ := h.request (noOverflow_two_pow small hk)
  have multiple : p % 2 ^ k = 0 :=
    Nat.mod_eq_zero_of_dvd (Nat.dvd_trans (two_pow_dvd_roundedAlign k) (Nat.dvd_of_mod_eq_zero aligned))
  rw [ite_not, poolServes_one] at serves
  rw [← serves]
  unfold Shim.posixMemalign
  simp only [two_pow_not_rejected]
  by_cases wide : 8 ≤ 2 ^ k
  · simp only [wide, not_true, if_false, result, Option.map_some, true_and]
    by_cases null : p = 0 <;> simp [null, multiple, Reply.Grants]
  · simp [wide, Reply.Grants]

theorem PoolHolds.calloc_grants {nmemb size libc : Nat} (h : PoolHolds env s P) (answer : LibcAnswer env libc)
    (hn : nmemb * size ≤ 2 ^ 62) : ∃ r, calloc env libc s nmemb size = some r ∧ r.Grants 16 := by
  have exact_ : nmemb * size % 2 ^ 64 = nmemb * size := Nat.mod_eq_of_lt (by omega)
  have product : ¬ (nmemb ≠ 0 ∧ nmemb * size / nmemb ≠ size) := by
    rintro ⟨some, differs⟩
    exact differs (Nat.mul_div_cancel_left size (Nat.pos_of_ne_zero some))
  unfold Shim.calloc
  simp only [exact_, product, if_false]
  generalize nmemb * size = n at *
  have small : (if n ≠ 0 then n else 1) ≤ 2 ^ 62 := by
    split <;> omega
  obtain ⟨p, s', result, aligned, _⟩ := h.request (noOverflow_two_pow small (show 4 < 64 by decide))
  have multiple : p % 16 = 0 :=
    Nat.mod_eq_zero_of_dvd (Nat.dvd_trans (sixteen_dvd_roundedAlign _) (Nat.dvd_of_mod_eq_zero aligned))
  rw [show 2 ^ 4 = 16 from rfl] at result
  simp only [result, Option.map_some]
  by_cases null : p = 0
  · simp [null, Reply.Grants, answer.nonnull, answer.aligned]
  · simp [null, Reply.Grants, multiple]

theorem PoolHolds.realloc_iff {libc : Nat} (h : PoolHolds env s P) (hp : p ∈ P) (pos : 0 < n) (hn : n ≤ 2 ^ 62) :
    (∃ r, Shim.realloc env libc s p n = some r ∧ r.Grants 16 ∧ (Request.realloc p n).Keeps s r) ↔
      n ≤ pxPoolUsableSize s p ∨ PoolServes env s n ALIGN := by
  obtain ⟨nonnull, contains⟩ := h.contains hp
  cases h with
  | unopened m maps => cases hp
  | refused m none => cases hp
  | opened held base reservation same =>
    obtain ⟨l, hl, rfl⟩ := List.mem_map.mp (same.subset hp)
    have safe := noOverflow_of_small hn (by decide : ALIGN ≤ 2 ^ 62)
    obtain ⟨q, s', bs', fl', result, held', -, -, kept⟩ := held_realloc held hl env (Or.inr safe)
    have null := held.realloc_null_iff hl pos safe result
    have some : n ≠ 0 := Nat.ne_of_gt pos
    have serves : n ≤ pxPoolUsableSize s l.ptr ∨ PoolServes env s n ALIGN ↔ q ≠ 0 := by
      unfold PoolServes
      rw [ensureInitLocked_done env held.done held.ok, Ne, null]
      tauto
    have multiple : q ≠ 0 → q % 16 = 0 := by
      intro nonnull
      rw [regrown, if_neg some, if_neg nonnull] at held'
      have owned : ∃ n' align b, Owns s' bs' ⟨q, n', align⟩ b := by
        split at held'
        · next stays =>
          obtain ⟨b, hb⟩ := held'.owns _ List.mem_cons_self
          exact ⟨_, _, b, stays ▸ hb⟩
        · obtain ⟨b, hb⟩ := held'.owns _ List.mem_cons_self
          exact ⟨_, _, b, hb⟩
      obtain ⟨_, align, b, hb⟩ := owned
      exact Nat.mod_eq_zero_of_dvd (Nat.dvd_trans (sixteen_dvd_roundedAlign align) (Nat.dvd_of_mod_eq_zero hb.aligned))
    rw [serves]
    unfold Shim.realloc
    simp only [nonnull, contains, some, result, if_true, if_false, Option.map_some]
    constructor
    · rintro ⟨r, same, ⟨_, granted, _⟩, _⟩
      cases same
      exact granted
    · intro granted
      refine ⟨_, rfl, ⟨rfl, granted, multiple granted⟩, ?_⟩
      rcases kept pos with ⟨null, _⟩ | ⟨_, _, bytes⟩
      · exact absurd null granted
      · simpa [Request.Keeps, nonnull, contains] using bytes

theorem grants_of_badAlloc {r : Reply} {nothrow : Bool} :
    (if r.ptr = 0 ∧ !nothrow then { r with failure := some .badAlloc } else r).Grants align ↔ r.Grants align := by
  by_cases null : r.ptr = 0
  · split <;> simp [Reply.Grants, null]
  · simp [null]

/-- A request is honoured just when the pool serves it or its entry point goes on to an allocator that can. -/
theorem honoured_iff {req : Request} (maps : ∀ base, env.mmap = some base → Mapped base env.reservation)
    (h : PoolHolds env s P) (sized : req.Sized)
    (allowed : ∀ p n, req = .realloc p n → p = 0 ∨ p ∈ P ∨ Outside env p) :
    req.Honoured env s ↔ req.Covered env s := by
  have unasked {q : Prop} : (∀ libc, LibcAnswer env libc → q) ↔ q :=
    ⟨fun all => all 16 (libcAnswer_sixteen maps), fun one _ _ => one⟩
  unfold Request.Honoured
  cases req with
  | new n align nothrow =>
    obtain ⟨hn, k, hk, same⟩ := sized
    simp only [Request.alignment, Request.Covered, Request.Keeps, and_true, serve, operatorNew, same]
    rw [← h.poolOrLibc_iff maps hn hk]
    simp only [Option.map_eq_some_iff, exists_exists_and_eq_and, grants_of_badAlloc]
  | malloc n =>
    have served := (h.poolOrLibc_iff maps sized (show 4 < 64 by decide)).mpr (Or.inr (by decide))
    simpa [Request.alignment, Request.Covered, Request.Keeps, serve, Shim.malloc] using served
  | calloc nmemb size =>
    simp only [Request.alignment, Request.Covered, Request.Keeps, and_true, serve, iff_true]
    exact fun libc answer => h.calloc_grants answer sized
  | alignedAlloc align n | memalign align n =>
    obtain ⟨hn, k, hk, rfl⟩ := sized
    simp only [Request.alignment, Request.Covered, Request.Keeps, and_true, serve, Shim.memalign, unasked]
    exact h.alignedAlloc_iff hn hk
  | valloc n | pvalloc n =>
    simp only [Request.alignment, Request.Covered, Request.Keeps, and_true, serve, Shim.valloc, Shim.pvalloc, unasked]
    exact h.alignedAlloc_iff sized (show 12 < 64 by decide)
  | posixMemalign align n =>
    obtain ⟨hn, k, hk, rfl⟩ := sized
    simp only [Request.alignment, Request.Covered, Request.Keeps, and_true, serve, unasked]
    exact h.posixMemalign_iff hn hk
  | realloc p n =>
    obtain ⟨pos, hn⟩ := sized
    simp only [Request.alignment, Request.Covered, serve]
    by_cases null : p = 0
    · have served := (h.poolOrLibc_iff maps hn (show 4 < 64 by decide)).mpr (Or.inr (by decide))
      simpa [null, Request.Keeps, Shim.realloc] using served
    · rcases (allowed p n rfl).resolve_left null with held | outside
      · have contains := (h.contains held).2
        simp only [null, contains, h.realloc_iff held pos hn, unasked, Bool.true_eq_false, false_or]
      · have contains := h.not_contains outside
        simp only [null, contains, Shim.realloc, Request.Keeps, if_false, Bool.false_eq_true, true_or, or_true, iff_true]
        exact fun libc answer => ⟨_, rfl, ⟨rfl, answer.nonnull, answer.aligned⟩, rfl⟩
  | delete p | free p => exact absurd sized id

end

/-! ### A pool that `mmap` refused -/

def refusedEnv : Env := ⟨none, 0⟩

theorem refusedEnv_maps : ∀ base, refusedEnv.mmap = some base → Mapped base refusedEnv.reservation := by
  intro base found
  cases found

theorem refusedEnv_libc {p : Nat} (nonnull : p ≠ 0) (aligned : p % 16 = 0) : LibcAnswer refusedEnv p :=
  ⟨nonnull, aligned, fun base found => by cases found⟩

theorem honoured_malloc : (Request.malloc 100).Honoured refusedEnv { mem := fun _ => 0 } := by
  have sized : (Request.malloc 100).Sized := show 100 ≤ 2 ^ 62 by decide
  exact (honoured_iff refusedEnv_maps (.unopened _ refusedEnv_maps) sized (by simp)).mpr trivial

/-- `aligned_alloc` gives null, and `operator new` a pointer that is not aligned, although libc has memory. -/
theorem aligned_request_not_honoured :
    ¬ (Request.alignedAlloc 64 100).Honoured refusedEnv { mem := fun _ => 0 } ∧
    ¬ (Request.new 100 (some 64) false).Honoured refusedEnv { mem := fun _ => 0 } := by
  constructor
  · intro honoured
    obtain ⟨r, served, ⟨_, nonnull, _⟩, _⟩ := honoured 16 (refusedEnv_libc (by decide) (by decide))
    have null : (serve refusedEnv 16 { mem := fun _ => 0 } (.alignedAlloc 64 100)).map Reply.ptr = some 0 := by decide
    rw [served] at null
    exact nonnull (Option.some.inj null)
  · intro honoured
    obtain ⟨r, served, ⟨_, _, aligned⟩, _⟩ := honoured 16 (refusedEnv_libc (by decide) (by decide))
    have libc : (serve refusedEnv 16 { mem := fun _ => 0 } (.new 100 (some 64) false)).map Reply.ptr = some 16 := by decide
    rw [served] at libc
    rw [Option.some.inj libc] at aligned
    cases aligned

end Parallax.Shim
