import Mathlib.Data.List.Chain
import Mathlib.Data.List.Nodup

/-!
# Blocks that tile an address range
-/

namespace Parallax.Memory

/-- A physical block: `[addr, addr + size)`, in use or free. -/
structure Block where
  addr : Nat
  size : Nat
  used : Bool
deriving DecidableEq, Repr

def Block.stop (b : Block) : Nat := b.addr + b.size

/-- `bs` covers `[lo, hi)` from left to right, with no gap and no overlap. -/
def Tiles : Nat → List Block → Nat → Prop
  | lo, [], hi => lo = hi
  | lo, b :: bs, hi => b.addr = lo ∧ 0 < b.size ∧ Tiles (lo + b.size) bs hi

theorem tiles_cons {lo hi : Nat} {b : Block} {bs : List Block} :
    Tiles lo (b :: bs) hi ↔ b.addr = lo ∧ 0 < b.size ∧ Tiles (lo + b.size) bs hi := Iff.rfl

theorem tiles_singleton {lo hi : Nat} {b : Block} :
    Tiles lo [b] hi ↔ b.addr = lo ∧ 0 < b.size ∧ lo + b.size = hi := Iff.rfl

theorem Tiles.le {lo hi : Nat} {bs : List Block} (h : Tiles lo bs hi) : lo ≤ hi := by
  induction bs generalizing lo with
  | nil => exact Nat.le_of_eq h
  | cons b bs ih =>
    have := ih h.2.2
    omega

theorem tiles_append {lo hi : Nat} {as bs : List Block} :
    Tiles lo (as ++ bs) hi ↔ ∃ mid, Tiles lo as mid ∧ Tiles mid bs hi := by
  induction as generalizing lo with
  | nil => exact ⟨fun h => ⟨lo, rfl, h⟩, fun ⟨_, same, h⟩ => same ▸ h⟩
  | cons a as ih =>
    simp only [List.cons_append, Tiles, ih]
    constructor
    · rintro ⟨h1, h2, mid, h3, h4⟩
      exact ⟨mid, ⟨h1, h2, h3⟩, h4⟩
    · rintro ⟨mid, ⟨h1, h2, h3⟩, h4⟩
      exact ⟨h1, h2, mid, h3, h4⟩

theorem Tiles.bounds {lo hi : Nat} {bs : List Block} {b : Block} (h : Tiles lo bs hi) (hb : b ∈ bs) :
    lo ≤ b.addr ∧ b.addr + b.size ≤ hi ∧ 0 < b.size := by
  induction bs generalizing lo with
  | nil => cases hb
  | cons c bs ih =>
    obtain ⟨hc, pos, rest⟩ := h
    have := rest.le
    rcases List.mem_cons.mp hb with rfl | hb
    · omega
    · have := ih rest hb
      omega

/-- Around a block: everything before it ends at or before its start, everything after
starts at or after its end. -/
theorem Tiles.around {lo hi : Nat} {pre post : List Block} {b : Block}
    (h : Tiles lo (pre ++ b :: post) hi) :
    Tiles lo pre b.addr ∧ Tiles (b.addr + b.size) post hi := by
  obtain ⟨mid, hpre, hb, -, hpost⟩ := tiles_append.mp h
  rw [hb]
  exact ⟨hpre, hpost⟩

theorem Tiles.apart {lo hi : Nat} {pre post : List Block} {b c : Block}
    (h : Tiles lo (pre ++ b :: post) hi) (hc : c ∈ pre ++ post) :
    c.addr + c.size ≤ b.addr ∨ b.addr + b.size ≤ c.addr := by
  have ⟨hpre, hpost⟩ := h.around
  rcases List.mem_append.mp hc with hc | hc
  · exact Or.inl (hpre.bounds hc).2.1
  · exact Or.inr (hpost.bounds hc).1

theorem Tiles.disjoint {lo hi : Nat} {bs : List Block} {b c : Block} (h : Tiles lo bs hi) (hb : b ∈ bs)
    (hc : c ∈ bs) : b = c ∨ c.addr + c.size ≤ b.addr ∨ b.addr + b.size ≤ c.addr := by
  obtain ⟨pre, post, rfl⟩ := List.append_of_mem hb
  rcases List.mem_append.mp hc with hc | hc
  · exact Or.inr (h.apart (List.mem_append_left post hc))
  · rcases List.mem_cons.mp hc with rfl | hc
    · exact Or.inl rfl
    · exact Or.inr (h.apart (List.mem_append_right pre hc))

theorem Tiles.eq_of_addr {lo hi : Nat} {bs : List Block} {b c : Block} (h : Tiles lo bs hi) (hb : b ∈ bs)
    (hc : c ∈ bs) (same : b.addr = c.addr) : b = c := by
  have := h.bounds hb
  have := h.bounds hc
  rcases h.disjoint hb hc with eq | left | right
  · exact eq
  · omega
  · omega

theorem Tiles.nodup {lo hi : Nat} {bs : List Block} (h : Tiles lo bs hi) : bs.Nodup := by
  induction bs generalizing lo with
  | nil => exact List.nodup_nil
  | cons b bs ih =>
    refine List.nodup_cons.mpr ⟨fun hb => ?_, ih h.2.2⟩
    have := h.2.2.bounds hb
    have := h.1
    omega

/-- Replace a segment by another one that covers the same range. -/
theorem Tiles.replace {lo hi : Nat} {pre mid mid' post : List Block} (h : Tiles lo (pre ++ mid ++ post) hi)
    (same : ∀ lo hi, Tiles lo mid hi → Tiles lo mid' hi) : Tiles lo (pre ++ mid' ++ post) hi := by
  obtain ⟨_, h, hpost⟩ := tiles_append.mp h
  obtain ⟨_, hpre, hmid⟩ := tiles_append.mp h
  exact tiles_append.mpr ⟨_, tiles_append.mpr ⟨_, hpre, same _ _ hmid⟩, hpost⟩

/-- With a minimal block size, a tiling has boundedly many blocks. -/
theorem Tiles.length_le {lo hi k : Nat} {bs : List Block} (h : Tiles lo bs hi) (hk : ∀ b ∈ bs, k ≤ b.size) :
    k * bs.length + lo ≤ hi := by
  induction bs generalizing lo with
  | nil =>
    have same : lo = hi := h
    simp [same]
  | cons b bs ih =>
    have := ih h.2.2 fun c hc => hk c (List.mem_cons_of_mem b hc)
    have := hk b List.mem_cons_self
    rw [List.length_cons, Nat.mul_succ]
    omega

end Parallax.Memory
