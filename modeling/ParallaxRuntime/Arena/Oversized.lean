import ParallaxRuntime.Arena.Legacy
import ParallaxRuntime.Effects.Trace

/-!
# Requests larger than the arena

`align_up` and the sum against the capacity wrap around when a request is close to 2^64. A request that wraps is
served: with an empty block, or with a bump pointer that went back.
-/

namespace Parallax.Arena.Legacy
open Memory Effects

/-- What `initialize` leaves: a host mapping, which like any object has fewer than 2^63 bytes. -/
structure Config.Mapped (c : Config) : Prop where
  nonnull : 0 < c.hostBase
  object : c.capacity < 2 ^ 63

/-- The end of the tail does not wrap around, or the size does and there is no aligned offset left at all. -/
def Harmless (c : Config) (s : State) (size align : Nat) : Prop :=
  let a := max align kDefaultAlignment
  alignUp s.bump a + size + a ≤ 2 ^ 64 ∨
    2 ^ 64 < size + a ∧ c.capacity < alignUp s.bump a ∧ ∀ b ∈ s.freeList, b.offset + b.size < alignUp b.offset a

inductive Request where
  | allocate (size : UInt64) (k : Fin 64)
  | deallocate (p : Nat)

def Request.Harmless (c : Config) (s : State) : Request → Prop
  | allocate size k => Legacy.Harmless c s size.toNat (2 ^ k.val)
  | deallocate _ => True

def Request.step (c : Config) (s : State) : Request → State → Prop
  | allocate size k, s' => s' = (Legacy.allocate c s size.toNat (2 ^ k.val)).2
  | deallocate p, s' => s' = Legacy.deallocate s p

/-! ### Rounding up -/

section
variable {v k : Nat}

theorem alignUp_dvd (hk : k < 64) : 2 ^ k ∣ alignUp v (2 ^ k) := by
  have word : wsub (wadd v (2 ^ k)) 1 < 2 ^ 64 := Nat.mod_lt _ (by decide)
  rw [alignUp, and_wnot_two_pow k hk word]
  exact Nat.dvd_mul_left _ _

/-- A sum past 2^64 rounds to 0. -/
theorem alignUp_wrapped (hk : k < 64) (word : v < 2 ^ 64) (past : 2 ^ 64 < v + 2 ^ k) : alignUp v (2 ^ k) = 0 := by
  have pow : 2 ^ k ≤ 2 ^ 63 := Nat.pow_le_pow_right (by decide) (by omega)
  have sum : wsub (wadd v (2 ^ k)) 1 = v + 2 ^ k - 2 ^ 64 - 1 := by
    unfold wsub wadd
    omega
  rw [alignUp, sum, and_wnot_two_pow k hk (by omega), Nat.div_eq_of_lt (by omega), Nat.zero_mul]

theorem dvd_word (hk : k < 64) : 2 ^ k ∣ 2 ^ 64 := Nat.pow_dvd_pow 2 (Nat.le_of_lt hk)

theorem add_le_of_dvd {a x y : Nat} (hx : a ∣ x) (hy : a ∣ y) (lt : x < y) : x + a ≤ y := by
  by_contra near
  have := Nat.le_of_lt_add_of_dvd (Nat.lt_of_not_le near) hy hx
  omega

end

/-! ### One request -/

section
variable {c : Config} {s s' : State} {a k : Nat}

theorem Inv.offset_room (inv : Inv c s) (mapped : c.Mapped) (small : a ≤ 2 ^ 63) :
    s.bump + a ≤ 2 ^ 64 ∧ ∀ b ∈ s.freeList, b.offset + a ≤ 2 ^ 64 := by
  have bump := inv.bump_le
  have high := inv.high_le
  have object := mapped.object
  constructor
  · omega
  · intro b hb
    have := (inv.inside b (List.mem_append_right _ hb)).2
    omega

/-- With need 0, first fit takes any block with an aligned offset in it. -/
theorem firstFit_zero_none {fl : List Block} (pos : 0 < a) (offsets : ∀ b ∈ fl, b.offset + a ≤ 2 ^ 64)
    (words : ∀ b ∈ fl, b.offset + b.size < 2 ^ 64) :
    firstFit 0 a fl = none ↔ ∀ b ∈ fl, b.offset + b.size < alignUp b.offset a := by
  induction fl with
  | nil => simp [firstFit]
  | cons b rest ih =>
    have ih := ih (fun d hd => offsets d (List.mem_cons_of_mem b hd)) fun d hd => words d (List.mem_cons_of_mem b hd)
    have own := offsets b List.mem_cons_self
    have word := words b List.mem_cons_self
    obtain ⟨low, high⟩ := alignUp_bounds pos own
    have pad : wadd (wsub (alignUp b.offset a) b.offset) 0 = alignUp b.offset a - b.offset := by
      rw [wsub_of_le (by omega) low, wadd_of_lt (by omega), Nat.add_zero]
    rw [firstFit]
    dsimp only
    rw [pad, List.forall_mem_cons, ← ih]
    by_cases fits : alignUp b.offset a ≤ b.offset + b.size
    · have taken : b.size ≥ alignUp b.offset a - b.offset := by omega
      simp only [if_pos taken]
      constructor
      · intro none
        split at none <;> cases none
      · intro out
        omega
    · have misfit : ¬ b.size ≥ alignUp b.offset a - b.offset := by omega
      rw [if_neg misfit, Option.map_eq_none_iff]
      constructor
      · exact fun none => ⟨by omega, none⟩
      · exact fun out => out.2

theorem allocate_null_iff {size align : Nat} (mapped : c.Mapped) (pos : 0 < size) :
    allocate c s size align = (0, s) ↔
      firstFit (alignUp size (max align kDefaultAlignment)) (max align kDefaultAlignment) s.freeList = none ∧
        c.capacity < wadd (alignUp s.bump (max align kDefaultAlignment)) (alignUp size (max align kDefaultAlignment)) := by
  have nonnull := mapped.nonnull
  have null (off : Nat) (s' : State) : (c.hostBase + off, s') ≠ (0, s) := by
    intro same
    have := congrArg Prod.fst same
    dsimp only at this
    omega
  unfold allocate
  rw [if_neg (by omega)]
  dsimp only
  generalize max align kDefaultAlignment = a
  cases firstFit (alignUp size a) a s.freeList with
  | some taken => simp [null]
  | none =>
    simp only [bumpAllocate, gt_iff_lt, true_and]
    split
    · next full => simpa using full
    · next fits => simpa [null] using fits

theorem end_room {off size : Nat} (hk : k < 64) (aligned : 2 ^ k ∣ off) (fits : size + 2 ^ k ≤ 2 ^ 64) :
    off + alignUp size (2 ^ k) < 2 ^ 64 ↔ off + size + 2 ^ k ≤ 2 ^ 64 := by
  obtain ⟨low, high⟩ := alignUp_bounds (Nat.two_pow_pos k) fits
  constructor
  · intro room
    have := add_le_of_dvd (Nat.dvd_add aligned (alignUp_dvd hk)) (dvd_word hk) room
    omega
  · intro room
    omega

theorem noWrap_of_room (inv : Inv c s) (mapped : c.Mapped) (hk : k < 64) {size : Nat}
    (room : alignUp s.bump (max (2 ^ k) kDefaultAlignment) + size + max (2 ^ k) kDefaultAlignment ≤ 2 ^ 64) :
    NoWrap s size (2 ^ k) := by
  unfold NoWrap
  dsimp only
  rw [max_two_pow] at room ⊢
  have hk : max k 8 < 64 := by omega
  generalize max k 8 = k at *
  have pow : 2 ^ k ≤ 2 ^ 63 := Nat.pow_le_pow_right (by decide) (by omega)
  obtain ⟨bump, offsets⟩ := inv.offset_room mapped pow
  have fits : size + 2 ^ k ≤ 2 ^ 64 := by omega
  have sum := (end_room hk (alignUp_dvd hk) fits).mpr room
  have padded := add_le_of_dvd (alignUp_dvd hk) (dvd_word hk) (Nat.lt_of_le_of_lt (Nat.le_add_left _ _) sum)
  exact Or.inr ⟨fits, fitNoWrap_of_room (Nat.two_pow_pos k) offsets padded, fun _ => ⟨bump, sum⟩⟩

/-- The size wraps to 0, and there is no aligned offset for a block of that size. -/
theorem wrapped_refused_iff (inv : Inv c s) (mapped : c.Mapped) (hk : k < 64) {size : Nat} (word : size < 2 ^ 64)
    (past : 2 ^ 64 < size + max (2 ^ k) kDefaultAlignment) :
    allocate c s size (2 ^ k) = (0, s) ↔ c.capacity < alignUp s.bump (max (2 ^ k) kDefaultAlignment) ∧
      ∀ b ∈ s.freeList, b.offset + b.size < alignUp b.offset (max (2 ^ k) kDefaultAlignment) := by
  rw [max_two_pow] at past
  have hk' : max k 8 < 64 := by omega
  have pow : 2 ^ max k 8 ≤ 2 ^ 63 := Nat.pow_le_pow_right (by decide) (by omega)
  obtain ⟨bump, offsets⟩ := inv.offset_room mapped pow
  have words : ∀ b ∈ s.freeList, b.offset + b.size < 2 ^ 64 := by
    intro b hb
    have := (inv.inside b (List.mem_append_right _ hb)).2
    have := inv.bump_le
    have := inv.high_le
    have := mapped.object
    omega
  have top : alignUp s.bump (2 ^ max k 8) < 2 ^ 64 := by
    have := (alignUp_bounds (Nat.two_pow_pos (max k 8)) bump).2
    have := inv.bump_le
    have := inv.high_le
    have := mapped.object
    omega
  have sum : wadd (alignUp s.bump (2 ^ max k 8)) 0 = alignUp s.bump (2 ^ max k 8) := by
    rw [wadd, Nat.add_zero, Nat.mod_eq_of_lt top]
  have pos : 0 < size := by omega
  rw [allocate_null_iff mapped pos, max_two_pow, alignUp_wrapped hk' word past,
    firstFit_zero_none (Nat.two_pow_pos _) offsets words, sum]
  exact and_comm

theorem Harmless.served (inv : Inv c s) (mapped : c.Mapped) (hk : k < 64) {size : Nat} (word : size < 2 ^ 64)
    (harmless : Harmless c s size (2 ^ k)) : Served c s size (allocate c s size (2 ^ k)) := by
  rcases harmless with room | ⟨past, out⟩
  · have object := mapped.object
    exact allocate_served inv (by omega) (noWrap_of_room inv mapped hk room)
  · exact Or.inl ((wrapped_refused_iff inv mapped hk word past).mpr out)

/-- A size above the capacity is refused just when the request is harmless. -/
theorem refused_iff_harmless (inv : Inv c s) (mapped : c.Mapped) (hk : k < 64) {size : Nat} (word : size < 2 ^ 64)
    (big : c.capacity < size) : allocate c s size (2 ^ k) = (0, s) ↔ Harmless c s size (2 ^ k) := by
  constructor
  · intro refused
    by_cases past : 2 ^ 64 < size + max (2 ^ k) kDefaultAlignment
    · exact Or.inr ⟨past, (wrapped_refused_iff inv mapped hk word past).mp refused⟩
    · -- a sum that wraps is below the aligned bump pointer, and so passes the check against the capacity
      apply Or.inl
      have short := ((allocate_null_iff mapped (by omega)).mp refused).2
      rw [max_two_pow] at short past ⊢
      have hk : max k 8 < 64 := by omega
      generalize max k 8 = k at *
      have pow : 2 ^ k ≤ 2 ^ 63 := Nat.pow_le_pow_right (by decide) (by omega)
      obtain ⟨room, -⟩ := inv.offset_room mapped pow
      obtain ⟨-, near⟩ := alignUp_bounds (Nat.two_pow_pos k) room
      have fits : size + 2 ^ k ≤ 2 ^ 64 := by omega
      have need := (alignUp_bounds (Nat.two_pow_pos k) fits).2
      apply (end_room hk (alignUp_dvd hk) fits).mp
      by_contra wraps
      have whole : 2 ^ k ∣ alignUp s.bump (2 ^ k) + alignUp size (2 ^ k) - 2 ^ 64 :=
        Nat.dvd_sub (Nat.dvd_add (alignUp_dvd hk) (alignUp_dvd hk)) (dvd_word hk)
      have back := add_le_of_dvd whole (alignUp_dvd (v := s.bump) hk) (by omega)
      have wrapped : wadd (alignUp s.bump (2 ^ k)) (alignUp size (2 ^ k)) =
          alignUp s.bump (2 ^ k) + alignUp size (2 ^ k) - 2 ^ 64 := by
        unfold wadd
        omega
      have bump := inv.bump_le
      have high := inv.high_le
      omega
  · intro harmless
    rcases Harmless.served inv mapped hk word harmless with refused | ⟨off, need, covers, -, inside, -⟩
    · exact refused
    · omega

/-! ### Runs -/

theorem allocate_bump {size align : Nat} (safe : NoWrap s size align) : s.bump ≤ (allocate c s size align).2.bump := by
  have hne : 0 < max align kDefaultAlignment := Nat.lt_of_lt_of_le (by decide : 0 < 256) (Nat.le_max_right _ _)
  unfold NoWrap at safe
  unfold allocate
  dsimp only at safe ⊢
  generalize max align kDefaultAlignment = a at *
  split
  · exact Nat.le_refl _
  · next pos =>
    cases found : firstFit (alignUp size a) a s.freeList with
    | some taken => exact Nat.le_refl _
    | none =>
      obtain ⟨room, sum⟩ := (safe.resolve_left pos).2.2 found
      obtain ⟨low, -⟩ := alignUp_bounds hne room
      simp only [bumpAllocate, wadd_of_lt sum]
      split
      · exact Nat.le_refl _
      · exact Nat.le_trans low (Nat.le_add_right _ _)

theorem deallocate_bump (p : Nat) : (deallocate s p).bump = s.bump := by
  unfold deallocate
  split
  · rfl
  · cases s.live.find? fun e => e.1 = p <;> rfl

theorem Request.step_keeps {r : Request} (mapped : c.Mapped) (inv : Inv c s) (harmless : r.Harmless c s)
    (step : r.step c s s') : Inv c s' ∧ s.bump ≤ s'.bump := by
  cases r with
  | allocate size k =>
    obtain rfl := step
    have served := Harmless.served inv mapped k.isLt size.toNat_lt harmless
    constructor
    · rcases served with refused | ⟨_, _, -, -, -, -, after, -⟩
      · rw [refused]
        exact inv
      · exact after
    · rcases harmless with room | ⟨past, out⟩
      · exact allocate_bump (noWrap_of_room inv mapped k.isLt room)
      · rw [(wrapped_refused_iff inv mapped k.isLt size.toNat_lt past).mpr out]
  | deallocate p =>
    obtain rfl := step
    exact ⟨deallocate_inv inv p, (deallocate_bump p).ge⟩

theorem run_keeps {steps : List (State × Request)} (mapped : c.Mapped)
    (run : Trace (fun s (r : Request) s' => r.step c s s') {} steps s) (harmless : ∀ t ∈ steps, t.2.Harmless c t.1) :
    Inv c s ∧ ∀ t ∈ steps, t.1.bump ≤ s.bump := by
  induction run with
  | start => exact ⟨inv_fresh c, by simp⟩
  | @next steps t t' r run moved ih =>
    obtain ⟨inv, bumps⟩ := ih fun u here => harmless u (List.mem_append_left _ here)
    have last := harmless (t, r) (List.mem_append_right _ (List.mem_singleton_self _))
    obtain ⟨after, grown⟩ := Request.step_keeps mapped inv last moved
    refine ⟨after, ?_⟩
    intro u here
    rcases List.mem_append.mp here with earlier | same
    · exact Nat.le_trans (bumps u earlier) grown
    · rw [List.mem_singleton.mp same]
      exact grown

/-- After harmless requests live blocks are apart and the bump pointer never went back, and of the sizes above the
capacity just the harmless ones are refused. -/
theorem oversized_refused_iff {steps : List (State × Request)} (mapped : c.Mapped)
    (run : Trace (fun s (r : Request) s' => r.step c s s') {} steps s) (harmless : ∀ t ∈ steps, t.2.Harmless c t.1) :
    Inv c s ∧ (∀ t ∈ steps, t.1.bump ≤ s.bump) ∧
    (∀ (size : UInt64) (k : Fin 64), Harmless c s size.toNat (2 ^ k.val) →
      Served c s size.toNat (allocate c s size.toNat (2 ^ k.val))) ∧
    ∀ (size : UInt64) (k : Fin 64), c.capacity < size.toNat →
      (allocate c s size.toNat (2 ^ k.val) = (0, s) ↔ Harmless c s size.toNat (2 ^ k.val)) := by
  obtain ⟨inv, bumps⟩ := run_keeps mapped run harmless
  refine ⟨inv, bumps, ?_, ?_⟩
  · intro size k harmless
    exact Harmless.served inv mapped k.isLt size.toNat_lt harmless
  · intro size k big
    exact refused_iff_harmless inv mapped k.isLt size.toNat_lt big

end

theorem smallArena_run : Trace (fun s (r : Request) s' => r.step ⟨4096, 65536⟩ s s') {} [({}, .allocate 4096 8)]
    (allocate ⟨4096, 65536⟩ {} 4096 256).2 :=
  Trace.start.next rfl

theorem oversized_refused_iff_small :
    allocate ⟨4096, 65536⟩ (allocate ⟨4096, 65536⟩ {} 4096 256).2 (2 ^ 63) 256 =
      (0, (allocate ⟨4096, 65536⟩ {} 4096 256).2) := by
  have harmless : Request.Harmless ⟨4096, 65536⟩ {} (.allocate 4096 8) := Or.inl (by decide)
  have refused := (oversized_refused_iff ⟨by decide, by decide⟩ smallArena_run (by simpa using harmless)).2.2.2
    9223372036854775808 8 (by decide)
  exact refused.mpr (Or.inl (by decide))

/-- The tail's end wraps to 0, the request is served, and the first block is handed out again. -/
theorem first_block_served_again :
    let s := (allocate ⟨4096, 65536⟩ {} 4096 256).2
    let s' := (allocate ⟨4096, 65536⟩ s (2 ^ 64 - 4096) 256).2
    (s.bump = 4096 ∧ s.live.map Prod.fst = [4096]) ∧
    ((allocate ⟨4096, 65536⟩ s (2 ^ 64 - 4096) 256).1 = 8192 ∧ s'.bump = 0) ∧
    (allocate ⟨4096, 65536⟩ s' 4096 256).1 = 4096 := by
  decide

theorem oversized_request_served : ¬ ∀ steps s,
    Trace (fun s (r : Request) s' => r.step ⟨4096, 65536⟩ s s') {} steps s →
    ∀ (size : UInt64) (k : Fin 64), 65536 < size.toNat →
      allocate ⟨4096, 65536⟩ s size.toNat (2 ^ k.val) = (0, s) := by
  intro refused
  have null := refused _ _ smallArena_run 18446744073709547520 8 (by decide)
  have served : (allocate ⟨4096, 65536⟩ (allocate ⟨4096, 65536⟩ {} 4096 256).2
      (18446744073709547520 : UInt64).toNat (2 ^ (8 : Fin 64).val)).1 = 8192 := first_block_served_again.2.1.1
  rw [null] at served
  cases served

end Parallax.Arena.Legacy
