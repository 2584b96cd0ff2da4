import ParallaxRuntime.Arena.Oversized
import ParallaxRuntime.Arena.PoolBacked
import ParallaxRuntime.Pool.Oversize

/-!
# Where blocks lie in the arena's buffer

Whether the arena owns its memory or adopted the heap pool, `allocate` returns offsets that 256 divides.
-/

namespace Parallax.Arena
open Memory

namespace Legacy

/-- In every state, reachable or not. -/
theorem allocate_dvd {c : Config} {s : State} {size k : Nat} (hk : k < 64) :
    (allocate c s size (2 ^ k)).1 = 0 ∨ 256 ∣ (allocate c s size (2 ^ k)).1 - c.hostBase := by
  rcases allocate_offset c s size (2 ^ k) with null | ⟨v, -, cut⟩
  · rw [null]
    exact Or.inl rfl
  · right
    rw [cut, Nat.add_sub_cancel_left, max_two_pow]
    exact (Nat.pow_dvd_pow 2 (Nat.le_max_right k 8)).trans (alignUp_dvd (by omega))

end Legacy

namespace PoolBacked
open Pool

theorem userPtr_dvd (B k : Nat) (hk : k < 64) : 2 ^ k ∣ userPtr B (2 ^ k) := by
  have lt : wadd (wadd (B + HDR) 8) (2 ^ k - 1) < 2 ^ 64 := Nat.mod_lt _ (by decide)
  unfold userPtr
  dsimp only
  rw [and_wnot_two_pow k hk lt]
  exact Nat.dvd_mul_left _ _

theorem allocIn_dvd {s s' : Pool.State} {size k p : Nat} (hk : k < 64) (h : allocIn s size (2 ^ k) = some (p, s')) :
    2 ^ k ∣ p := by
  obtain ⟨⟨B, s₁⟩, -, handed⟩ := Option.bind_eq_some_iff.mp h
  dsimp only at handed
  split at handed
  · cases handed
    exact Nat.dvd_zero _
  · cases handed
    exact userPtr_dvd B k hk

theorem pxPoolAlloc_dvd {env : Env} {s s' : Pool.State} {size k p : Nat} (hk : k < 64)
    (h : pxPoolAlloc env s size (2 ^ k) = some (p, s')) : 2 ^ k ∣ p := by
  have least : 2 ^ k ∣ 2 ^ max 4 k := Nat.pow_dvd_pow 2 (Nat.le_max_right 4 k)
  unfold pxPoolAlloc at h
  rw [normAlign_two_pow] at h
  dsimp only at h
  split at h
  · cases h
    exact Nat.dvd_zero _
  · exact least.trans (allocIn_dvd (by omega) h)

theorem allocate_dvd {env : Env} {s s' : Pool.State} {size k p : Nat} (hk : k < 64)
    (h : allocate env s size (2 ^ k) = some (p, s')) : 256 ∣ p := by
  unfold allocate at h
  split at h
  · cases h
    exact Nat.dvd_zero _
  · rw [show max (2 ^ k) 256 = 2 ^ max k 8 from Legacy.max_two_pow k] at h
    exact (Nat.pow_dvd_pow 2 (Nat.le_max_right k 8)).trans (pxPoolAlloc_dvd (by omega) h)

end PoolBacked

/-- Memory of the arena's own, or the heap pool in pages that `mmap` gave it. -/
inductive Backing where
  | own (c : Legacy.Config) (base_pos : 0 < c.hostBase) (cap : c.capacity < 2 ^ 62)
  | pool (env : Pool.Env) (base res : Nat) (small : res ≤ 2 ^ 62) (paged : base % 4096 = 0)

def Backing.arena : Backing → ArenaModel UInt8
  | own c base_pos cap => Legacy.arena UInt8 c base_pos cap
  | pool env base res small _ => PoolBacked.arena env base res small

theorem Backing.allocates_dvd {B : Backing} {s s' : B.arena.State} {size k p : Nat} (hk : k < 64)
    (h : B.arena.Allocates s size (2 ^ k) p s') : p = 0 ∨ 256 ∣ p - B.arena.base := by
  cases B with
  | own c base_pos cap =>
    have aligned : (Legacy.allocate c s.1 size (2 ^ k)).1 = 0 ∨ 256 ∣ (Legacy.allocate c s.1 size (2 ^ k)).1 - c.hostBase :=
      Legacy.allocate_dvd hk
    rw [h.1] at aligned
    exact aligned
  | pool env base res small paged =>
    have page : 256 ∣ base := (show 256 ∣ 4096 by decide).trans (Nat.dvd_of_mod_eq_zero paged)
    exact Or.inr (Nat.dvd_sub (PoolBacked.allocate_dvd hk h.1) page)

end Parallax.Arena
