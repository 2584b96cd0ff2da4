import Mathlib.Data.Nat.Log
import ParallaxRuntime.Pool.Invariant

/-!
# The entry points of the pool

The size and alignment arithmetic of `px_pool_alloc`, and what `px_pool_alloc` and
`px_pool_free` do to the representation.
-/

namespace Parallax.Pool
open Memory

/-! ### Size and alignment arithmetic -/

/-- The requested alignment, rounded up to a power of two of at least 16. -/
def roundedAlign (align : Nat) : Nat := 2 ^ max 4 (Nat.clog 2 align)

theorem clog_le {align : Nat} (h : align ≤ 2 ^ 63) : Nat.clog 2 align ≤ 63 := Nat.clog_le_of_le_pow h

theorem sixteen_le_roundedAlign (align : Nat) : 16 ≤ roundedAlign align :=
  Nat.pow_le_pow_right (n := 2) (by decide) (Nat.le_max_left 4 _)

theorem le_roundedAlign (align : Nat) : align ≤ roundedAlign align :=
  (Nat.le_pow_clog (by decide) align).trans (Nat.pow_le_pow_right (by decide) (Nat.le_max_right 4 _))

/-- The doubling loop stops at the first power of two that is large enough. -/
theorem alignLoop_pow {align fuel k : Nat} (small : align ≤ 2 ^ 63) (enough : Nat.clog 2 align ≤ k + fuel) :
    alignLoop align fuel (2 ^ k) = some (2 ^ max k (Nat.clog 2 align)) := by
  have bound := clog_le small
  have cmp : 2 ^ k < align ↔ k < Nat.clog 2 align := (Nat.lt_clog_iff_pow_lt (by decide)).symm
  induction fuel generalizing k with
  | zero =>
    rw [alignLoop, if_neg (by rw [cmp]; omega), Nat.max_eq_left (by omega)]
  | succ fuel ih =>
    rw [alignLoop]
    by_cases more : k < Nat.clog 2 align
    · have lt : 2 ^ (k + 1) < 2 ^ 64 := Nat.pow_lt_pow_right (by decide) (by omega)
      have double : wshl (2 ^ k) 1 = 2 ^ (k + 1) := by
        rw [wshl_one_of_lt (by rw [Nat.pow_succ] at lt; omega), Nat.pow_succ, Nat.mul_comm]
      rw [if_pos (cmp.mpr more), double, ih (by omega) (Nat.lt_clog_iff_pow_lt (by decide)).symm]
      congr 2
      omega
    · rw [if_neg (by rw [cmp]; exact more), Nat.max_eq_left (by omega)]

theorem normAlign_eq {align : Nat} (small : align ≤ 2 ^ 63) : normAlign align = some (roundedAlign align) := by
  unfold normAlign ALIGN
  dsimp only
  by_cases low : align < 16
  · have least : Nat.clog 2 align ≤ 4 := Nat.clog_le_of_le_pow (by omega)
    rw [if_pos low, if_neg (by decide)]
    unfold roundedAlign
    rw [Nat.max_eq_left least]
    rfl
  · rw [if_neg low]
    by_cases pow : align &&& (align - 1) = 0
    · rw [if_neg (by simpa using pow)]
      obtain ⟨k, rfl⟩ := (Nat.and_sub_one_eq_zero_iff_isPowerOfTwo (by omega)).mp pow
      have : 4 ≤ k := by
        by_contra less
        have := Nat.pow_lt_pow_right (a := 2) (by decide) (show k < 4 by omega)
        omega
      unfold roundedAlign
      rw [Nat.clog_pow 2 k (by decide), Nat.max_eq_right this]
    · rw [if_pos pow]
      exact alignLoop_pow (k := 4) small (by have := clog_le small; omega)

theorem roundUp_sixteen (x : Nat) : roundUp x 16 = (x + 15) % 2 ^ 64 / 16 * 16 := by
  have sum : wsub (wadd x 16) 1 = (x + 15) % 2 ^ 64 := by
    unfold wsub wadd
    omega
  rw [roundUp, sum]
  exact and_wnot_two_pow 4 (by decide) (Nat.mod_lt _ (by decide))

theorem needBsize_eq (size align : Nat) :
    needBsize size align = max 32 (((size + align + 24) % 2 ^ 64 + 15) % 2 ^ 64 / 16 * 16) := by
  have sum : wadd (wadd HDR (wadd (wadd size align) 8)) FTR = (size + align + 24) % 2 ^ 64 := by
    unfold wadd HDR FTR
    omega
  unfold needBsize
  dsimp only
  rw [sum, ALIGN, roundUp_sixteen, MIN_BSIZE]
  split <;> omega

theorem needBsize_good (size align : Nat) : GoodSize (needBsize size align) := by
  rw [needBsize_eq]
  constructor <;> omega

/-- No sum that `px_pool_alloc` computes from the size and the alignment wraps around. -/
def NoOverflow (size align : Nat) : Prop := max size 1 + max align ALIGN + 39 < 2 ^ 64

theorem noOverflow_of_small {size align : Nat} (hs : size ≤ 2 ^ 62) (ha : align ≤ 2 ^ 62) :
    NoOverflow size (roundedAlign align) := by
  have exponent : max 4 (Nat.clog 2 align) ≤ 62 := Nat.max_le.mpr ⟨by decide, Nat.clog_le_of_le_pow ha⟩
  have rounded : roundedAlign align ≤ 2 ^ 62 := Nat.pow_le_pow_right (by decide) exponent
  unfold NoOverflow ALIGN
  omega

theorem NoOverflow.align_le {size align : Nat} (safe : NoOverflow size (roundedAlign align)) : align ≤ 2 ^ 63 := by
  have word : roundedAlign align < 2 ^ 64 := by
    unfold NoOverflow at safe
    omega
  have exponent := (Nat.pow_lt_pow_iff_right (by decide : 1 < 2)).mp word
  exact (le_roundedAlign align).trans (Nat.pow_le_pow_right (by decide) (Nat.le_of_lt_succ exponent))

/-- A block of `need_bsize` bytes holds its tags, the back-pointer, the slack and the payload. -/
theorem needBsize_spec {size align : Nat} (safe : size + align + 39 < 2 ^ 64) :
    GoodSize (needBsize size align) ∧ size + align + 24 ≤ needBsize size align := by
  refine ⟨needBsize_good size align, ?_⟩
  rw [needBsize_eq]
  omega

/-- The user pointer is the first aligned address that leaves room for the back-pointer. -/
theorem userPtr_spec {B align : Nat} (top : B + roundedAlign align + 16 < 2 ^ 64) (small : align ≤ 2 ^ 63) :
    userPtr B (roundedAlign align) % roundedAlign align = 0 ∧ B + 16 ≤ userPtr B (roundedAlign align) ∧
    userPtr B (roundedAlign align) < B + 16 + roundedAlign align := by
  have bound := clog_le small
  have pos := sixteen_le_roundedAlign align
  have body : userPtr B (roundedAlign align) =
      (B + 16 + (roundedAlign align - 1)) / roundedAlign align * roundedAlign align := by
    unfold userPtr HDR
    dsimp only
    rw [wadd_of_lt (a := B + 8) (by omega), wadd_of_lt (by omega)]
    exact and_wnot_two_pow _ (by omega) (by omega)
  obtain ⟨lower, upper, aligned⟩ := div_mul_bounds (x := B + 16) (show 0 < roundedAlign align by omega)
  rw [body]
  exact ⟨aligned, lower, upper⟩

/-! ### Writes into payloads -/

/-- The bytes between the header and the footer of a used block. -/
def PayloadByte (bs : List Block) (a : Nat) : Prop :=
  ∃ b ∈ bs, b.used = true ∧ b.addr + 8 ≤ a ∧ a < b.addr + b.size - 8

section
variable {s : State} {bs : List Block} {fl : Nat → List Nat}

/-- A byte of the reservation. -/
def InReservation (s : State) (a : Nat) : Prop := s.base ≤ a ∧ a < s.base + s.reservation

theorem Rep.reserved (h : Rep s bs fl) {b : Block} (hb : b ∈ bs) {a : Nat} (low : b.addr ≤ a) (high : a < b.addr + b.size) :
    InReservation s a := by
  have := h.bounds hb
  exact ⟨by omega, by omega⟩

/-- Writing the payloads of used blocks, and outside of the reservation, keeps the representation. -/
theorem Rep.payload_write (h : Rep s bs fl) {m : Mem} (same : ∀ a, InReservation s a → ¬ PayloadByte bs a → m a = s.mem a) :
    Rep { s with mem := m } bs fl := by
  have tagOutside : ∀ b ∈ bs, ∀ a, TagByte b a → ¬ PayloadByte bs a := by
    rintro b hb a tag ⟨c, hc, -, low, high⟩
    have := (h.sizes b hb).1
    have := (h.sizes c hc).1
    unfold TagByte at tag
    rcases h.tiles.disjoint hb hc with rfl | apart
    · omega
    · omega
  have linkOutside : ∀ b ∈ bs, b.used = false → ∀ a, LinkByte b.addr a → ¬ PayloadByte bs a := by
    rintro b hb free a link ⟨c, hc, used, low, high⟩
    have := link_in (h.sizes b hb) link
    rcases h.tiles.disjoint hb hc with rfl | apart
    · rw [used] at free
      cases free
    · omega
  have listed : Listed { s with mem := m } (fun b => b ∈ bs ∧ b.used = false) fl :=
    h.toListed.frame rfl fun b a hb link =>
      have inside := link_in (h.sizes b hb.1) link
      same a (h.reserved hb.1 inside.1 inside.2) (linkOutside b hb.1 hb.2 a link)
  exact { h with
    tags := fun b hb => (h.tags b hb).frame (h.sizes b hb) fun a tag =>
      have inside := tag_in (h.sizes b hb) tag
      same a (h.reserved hb inside.1 inside.2) (tagOutside b hb a tag)
    lists := listed.lists
    listed := listed.listed }

theorem ensureInitLocked_done (env : Env) (done : s.initDone = true) (ok : s.initFailed = false) :
    ensureInitLocked env s = (true, s) := by
  have body : ensureInitLocked env s = (!s.initFailed, s) := if_pos done
  rw [body, ok]
  rfl

theorem pxPoolAlloc_in {env : Env} (done : s.initDone = true) (ok : s.initFailed = false) (size : Nat)
    {align : Nat} (ha : align ≤ 2 ^ 63) :
    pxPoolAlloc env s size align = allocIn s (if size = 0 then 1 else size) (roundedAlign align) := by
  unfold pxPoolAlloc
  rw [normAlign_eq ha]
  dsimp only
  rw [ensureInitLocked_done env done ok]

theorem allocIn_null {size align : Nat} (none : blockAlloc s (needBsize size align) = some (0, s)) :
    allocIn s size align = some (0, s) := by
  unfold allocIn
  rw [none]
  rfl

theorem allocIn_block {size align B : Nat} {s' : State} (nonnull : 0 < B)
    (took : blockAlloc s (needBsize size align) = some (B, s')) :
    allocIn s size align = some (handOut s' B align) := by
  unfold allocIn
  rw [took]
  exact if_neg (Nat.ne_of_gt nonnull)

theorem userPtr_in {b : Block} {size align need : Nat} (ha : align ≤ 2 ^ 63) (top : b.addr + b.size ≤ 2 ^ 64)
    (fits : need ≤ b.size) (room : size + roundedAlign align + 24 ≤ need) (pos : 0 < size) :
    userPtr b.addr (roundedAlign align) % roundedAlign align = 0 ∧
    b.addr + 16 ≤ userPtr b.addr (roundedAlign align) ∧
    userPtr b.addr (roundedAlign align) + size + 8 ≤ b.addr + (carved b need).size := by
  have part := carved_size fits
  obtain ⟨aligned, lower, upper⟩ := userPtr_spec (B := b.addr) (by omega) ha
  exact ⟨aligned, lower, by omega⟩

theorem Rep.back_pointer {c : Block} {p : Nat} (h : Rep s bs fl) (hc : c ∈ bs) (used : c.used = true)
    (lower : c.addr + 16 ≤ p) (upper : p + 8 ≤ c.addr + c.size) :
    Rep { s with mem := store64 s.mem (wsub p 8) c.addr } bs fl ∧
    headerOf (store64 s.mem (wsub p 8) c.addr) p = c.addr ∧
    ∀ a, ¬ (c.addr ≤ a ∧ a < c.addr + c.size) → store64 s.mem (wsub p 8) c.addr a = s.mem a := by
  have bound := h.bounds hc
  have top := h.top
  rw [wsub_of_le (a := p) (by omega) (by omega)]
  refine ⟨h.payload_write fun a _ outside => store64_outside ?_, load64_store64 (by omega), fun a outside =>
    store64_outside (by omega)⟩
  by_contra inside
  exact outside ⟨c, hc, used, by omega, by omega⟩

/-- What an allocation of `p` that finds the block `b` leaves. -/
structure Allocated (s : State) (bs : List Block) (size align p : Nat) (s' : State) : Prop where
  taken : ∃ pre b post need fl, bs = pre ++ b :: post ∧ b.used = false ∧ need ≤ b.size ∧
    Rep s' (pre ++ carve b need ++ post) fl ∧ headerOf s'.mem p = b.addr ∧
    b.addr + 16 ≤ p ∧ p + size + 8 ≤ b.addr + (carved b need).size
  aligned : p % roundedAlign align = 0
  writes : ∀ a, ¬ FreeByte bs a → s'.mem a = s.mem a
  statics : SameStatics s s'

theorem handOut_allocated {s' : State} {pre post : List Block} {b : Block} {fl' : Nat → List Nat}
    {size align need p : Nat} (free : b.used = false) (fits : need ≤ b.size)
    (rep : Rep s' (pre ++ carve b need ++ post) fl')
    (writes : ∀ a, ¬ FreeByte (pre ++ b :: post) a → s'.mem a = s.mem a) (statics : SameStatics s s')
    (aligned : p % roundedAlign align = 0) (lower : b.addr + 16 ≤ p)
    (upper : p + size + 8 ≤ b.addr + (carved b need).size) :
    Allocated s (pre ++ b :: post) size align p { s' with mem := store64 s'.mem (wsub p 8) b.addr } := by
  have hb : b ∈ pre ++ b :: post := mem_mid_cons.mpr (Or.inl rfl)
  have least := (carved_size fits).2
  have addr := carved_addr b need
  obtain ⟨kept, back, frame⟩ := rep.back_pointer (p := p) (mem_mid.mpr (Or.inl (carved_mem b need))) rfl
    (by omega) (by omega)
  rw [addr] at kept back frame
  refine ⟨⟨pre, b, post, need, fl', rfl, free, fits, kept, ?_, lower, upper⟩, aligned, fun a outside => ?_,
    statics.setMem _⟩ <;> dsimp only
  · exact back
  · rw [← writes a outside]
    exact frame a fun here => outside ⟨b, hb, free, here.1, by omega⟩

theorem allocIn_cases (h : Rep s bs fl) {size align : Nat} (pos : 0 < size)
    (safe : NoOverflow size (roundedAlign align)) :
    allocIn s size (roundedAlign align) = some (0, s) ∨
    ∃ p s', allocIn s size (roundedAlign align) = some (p, s') ∧ Allocated s bs size align p s' := by
  have ha := safe.align_le
  unfold NoOverflow at safe
  have sum : size + roundedAlign align + 39 < 2 ^ 64 := by omega
  obtain ⟨good, room⟩ := needBsize_spec sum
  rcases blockAlloc_cases h good with ⟨none, -⟩ | ⟨pre, b, post, rfl, free, fits, took, ⟨fl', rep⟩, writes, statics⟩
  · exact Or.inl (allocIn_null none)
  · have hb : b ∈ pre ++ b :: post := mem_mid_cons.mpr (Or.inl rfl)
    have bound := h.bounds hb
    have base := h.base_pos
    obtain ⟨aligned, lower, upper⟩ := userPtr_in ha (bound.2.trans h.top) fits room pos
    have found := allocIn_block (by omega) took
    exact Or.inr ⟨_, _, found, handOut_allocated free fits rep writes statics aligned lower upper⟩

/-- `px_pool_alloc` either finds no block and changes nothing, or hands out an aligned pointer
inside a block taken from a free one, with the back-pointer before it. -/
theorem pxPoolAlloc_cases (h : Rep s bs fl) (done : s.initDone = true) (ok : s.initFailed = false) (env : Env)
    {size align : Nat} (safe : NoOverflow size (roundedAlign align)) :
    pxPoolAlloc env s size align = some (0, s) ∨
    ∃ p s', pxPoolAlloc env s size align = some (p, s') ∧ Allocated s bs size align p s' := by
  rw [pxPoolAlloc_in done ok size safe.align_le]
  by_cases zero : size = 0
  · rw [if_pos zero]
    rcases allocIn_cases h (by decide : 0 < 1) (by simpa [zero, NoOverflow] using safe) with null | ⟨p, s', found, spec⟩
    · exact Or.inl null
    · refine Or.inr ⟨p, s', found, { spec with taken := ?_ }⟩
      obtain ⟨pre, b, post, need, fl', split, free, fits, rep, back, lower, upper⟩ := spec.taken
      exact ⟨pre, b, post, need, fl', split, free, fits, rep, back, lower, by omega⟩
  · rw [if_neg zero]
    exact allocIn_cases h (Nat.pos_of_ne_zero zero) safe

end

end Parallax.Pool
