import Mathlib.Data.List.Pairwise
import Mathlib.Data.Nat.Bitwise

/-!
# What the launchers need of an arena

An arena hands out disjoint blocks of one memory. Allocating and freeing keep the
contents of the other live blocks and of all memory outside; a write to either keeps the arena.
-/

namespace Parallax.Arena

/-- The bytes of the blocks `L`, given as pairs of a pointer and an extent. -/
def LiveByte (L : List (Nat × Nat)) (a : Nat) : Prop := ∃ b ∈ L, b.1 ≤ a ∧ a < b.1 + b.2

/-- The range `[p, p + n)` lies in one block. -/
def InBlock (L : List (Nat × Nat)) (p n : Nat) : Prop := ∃ b ∈ L, b.1 ≤ p ∧ p + n ≤ b.1 + b.2

/-- A byte that is not the arena's own, while its live blocks are `L`. -/
def Usable (base capacity : Nat) (L : List (Nat × Nat)) (a : Nat) : Prop := base ≤ a ∧ a < base + capacity → LiveByte L a

theorem LiveByte.cons {L : List (Nat × Nat)} {b : Nat × Nat} {a : Nat} (h : LiveByte L a) : LiveByte (b :: L) a := by
  obtain ⟨b', hb', h⟩ := h
  exact ⟨b', List.mem_cons_of_mem b hb', h⟩

theorem LiveByte.usable {base capacity : Nat} {L : List (Nat × Nat)} {a : Nat} (h : LiveByte L a) : Usable base capacity L a :=
  fun _ => h

theorem Usable.cons {base capacity : Nat} {L : List (Nat × Nat)} {b : Nat × Nat} {a : Nat} (h : Usable base capacity L a) :
    Usable base capacity (b :: L) a := fun inside => (h inside).cons

theorem InBlock.sub {L : List (Nat × Nat)} {p q n k : Nat} (h : InBlock L p n) (low : p ≤ q) (high : q + k ≤ p + n) :
    InBlock L q k := by
  obtain ⟨b, hb, h1, h2⟩ := h
  exact ⟨b, hb, by omega, by omega⟩

theorem InBlock.liveByte {L : List (Nat × Nat)} {p n a : Nat} (h : InBlock L p n) (low : p ≤ a) (high : a < p + n) :
    LiveByte L a := by
  obtain ⟨b, hb, h1, h2⟩ := h
  exact ⟨b, hb, by omega, by omega⟩

theorem InBlock.cons {L : List (Nat × Nat)} {p n : Nat} {b : Nat × Nat} (h : InBlock L p n) : InBlock (b :: L) p n := by
  obtain ⟨b', hb', h⟩ := h
  exact ⟨b', List.mem_cons_of_mem b hb', h⟩

theorem InBlock.head {L : List (Nat × Nat)} {p n k : Nat} (h : k ≤ n) : InBlock ((p, n) :: L) p k :=
  ⟨(p, n), List.mem_cons_self, Nat.le_refl _, by dsimp only; omega⟩

def Apart (b b' : Nat × Nat) : Prop := b.1 + b.2 ≤ b'.1 ∨ b'.1 + b'.2 ≤ b.1

def released (L : List (Nat × Nat)) (p : Nat) : List (Nat × Nat) := L.filter fun b => b.1 ≠ p

theorem released_cons_of_ne {L : List (Nat × Nat)} {b : Nat × Nat} {p : Nat} (h : b.1 ≠ p) :
    released (b :: L) p = b :: released L p := by
  unfold released
  rw [List.filter_cons_of_pos (by simpa using h)]

/-- An arena over cells of type `β`, as the launchers use it. -/
structure ArenaModel (β : Type) where
  State : Type
  base : Nat
  capacity : Nat
  mem : State → Nat → β
  setMem : State → (Nat → β) → State
  live : State → List (Nat × Nat)
  Valid : State → Prop
  /-- `allocate(size, align)` returns the pointer, or 0. -/
  Allocates : State → Nat → Nat → Nat → State → Prop
  Frees : State → Nat → State → Prop
  inside : ∀ {s}, Valid s → ∀ b ∈ live s, 0 < b.1 ∧ base ≤ b.1 ∧ b.1 + b.2 ≤ base + capacity
  disjoint : ∀ {s}, Valid s → (live s).Pairwise fun b b' => Apart b b' ∧ b.1 ≠ b'.1
  small : capacity ≤ 2 ^ 62
  allocates : ∀ {s size}, Valid s → size ≤ 2 ^ 62 → ∃ p s', Allocates s size 256 p s'
  allocate_spec : ∀ {s size p s'}, Valid s → size ≤ 2 ^ 62 → Allocates s size 256 p s' →
    Valid s' ∧ (∀ a, Usable base capacity (live s) a → mem s' a = mem s a) ∧
    ((p = 0 ∧ live s' = live s) ∨ (p ≠ 0 ∧ ∃ n, size ≤ n ∧ live s' = (p, n) :: live s))
  frees : ∀ {s b}, Valid s → b ∈ live s → ∃ s', Frees s b.1 s'
  free_spec : ∀ {s b s'}, Valid s → b ∈ live s → Frees s b.1 s' →
    Valid s' ∧ live s' = released (live s) b.1 ∧ ∀ a, Usable base capacity (live s') a → mem s' a = mem s a
  write_spec : ∀ {s m}, Valid s → (∀ a, ¬ Usable base capacity (live s) a → m a = mem s a) →
    Valid (setMem s m) ∧ live (setMem s m) = live s ∧ mem (setMem s m) = m

theorem mem_released {L : List (Nat × Nat)} {p : Nat} {b : Nat × Nat} : b ∈ released L p ↔ b ∈ L ∧ b.1 ≠ p := by
  unfold released
  simp

/-- Freeing a block that was just handed out gives back the blocks before it. -/
theorem released_cons {L : List (Nat × Nat)} {p n : Nat} (fresh : ∀ b ∈ L, b.1 ≠ p) :
    released ((p, n) :: L) p = L := by
  unfold released
  rw [List.filter_cons_of_neg (by simp)]
  exact List.filter_eq_self.mpr fun b hb => by simpa using fresh b hb

namespace ArenaModel
variable {β : Type} {A : ArenaModel β} {s : A.State}

abbrev Usable (A : ArenaModel β) (L : List (Nat × Nat)) (a : Nat) : Prop := Arena.Usable A.base A.capacity L a

def InArena (A : ArenaModel β) (a : Nat) : Prop := A.base ≤ a ∧ a < A.base + A.capacity

instance (A : ArenaModel β) (a : Nat) : Decidable (A.InArena a) := inferInstanceAs (Decidable (_ ∧ _))

/-- The range `[p, p + n)` is a caller's. -/
def Owned (A : ArenaModel β) (s : A.State) (p n : Nat) : Prop := ∀ a, p ≤ a → a < p + n → A.Usable (A.live s) a

theorem head_apart (valid : A.Valid s) {b : Nat × Nat} {L : List (Nat × Nat)} (split : A.live s = b :: L) {a : Nat}
    (ha : b.1 ≤ a ∧ a < b.1 + b.2) : ¬ LiveByte L a := by
  rintro ⟨b', hb', low, high⟩
  have disjoint := A.disjoint valid
  rw [split] at disjoint
  have := ((List.pairwise_cons.mp disjoint).1 b' hb').1
  unfold Apart at this
  omega

theorem head_not_usable (valid : A.Valid s) {b : Nat × Nat} {L : List (Nat × Nat)} (split : A.live s = b :: L) {a : Nat}
    (ha : b.1 ≤ a ∧ a < b.1 + b.2) : ¬ A.Usable L a := by
  intro usable
  have := A.inside valid b (split ▸ List.mem_cons_self)
  exact head_apart valid split ha (usable ⟨by omega, by omega⟩)

theorem head_fresh (valid : A.Valid s) {b : Nat × Nat} {L : List (Nat × Nat)} (split : A.live s = b :: L) :
    ∀ b' ∈ L, b'.1 ≠ b.1 := fun b' hb' same => by
  have disjoint := A.disjoint valid
  rw [split] at disjoint
  exact ((List.pairwise_cons.mp disjoint).1 b' hb').2 same.symm

end ArenaModel

theorem InBlock.bounds {β : Type} {A : ArenaModel β} {s : A.State} {p n : Nat} (valid : A.Valid s) (h : InBlock (A.live s) p n) :
    0 < p ∧ A.base ≤ p ∧ p + n ≤ A.base + A.capacity ∧ n ≤ 2 ^ 62 := by
  obtain ⟨b, hb, low, high⟩ := h
  have := A.inside valid b hb
  have := A.small
  omega

end Parallax.Arena
