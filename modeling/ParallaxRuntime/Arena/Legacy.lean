import ParallaxRuntime.Arena.Basic
import ParallaxRuntime.Memory.Word

/-!
# The arena's own allocator

`UnifiedArena::allocate` and `deallocate` when the arena is not backed by the heap
pool: first fit over a free list, then a bump pointer. Offsets and sizes are 64-bit.
-/

namespace Parallax.Arena.Legacy
open Memory

def kDefaultAlignment : Nat := 256

def alignUp (v a : Nat) : Nat := wsub (wadd v a) 1 &&& wnot (a - 1)

structure Block where
  offset : Nat
  size : Nat
deriving DecidableEq, Repr

structure State where
  bump : Nat := 0
  highWater : Nat := 0
  freeList : List Block := []
  live : List (Nat × Block) := []

/-- The constants of an initialised arena. -/
structure Config where
  hostBase : Nat
  capacity : Nat

/-- First fit: the offset taken and the free list that is left. -/
def firstFit (need a : Nat) : List Block → Option (Nat × List Block)
  | [] => none
  | b :: rest =>
    let alignedOff := alignUp b.offset a
    let pad := wsub alignedOff b.offset
    if b.size ≥ wadd pad need then
      let remainder := wsub (wsub b.size pad) need
      if remainder > 0 then some (alignedOff, ⟨wadd alignedOff need, remainder⟩ :: rest)
      else some (alignedOff, rest)
    else (firstFit need a rest).map fun (off, rest) => (off, b :: rest)

/-- `live_[p] = b` -/
def setLive (live : List (Nat × Block)) (p : Nat) (b : Block) : List (Nat × Block) :=
  (p, b) :: live.filter fun e => e.1 ≠ p

/-- Bump-allocate from the never-used tail. -/
def bumpAllocate (c : Config) (s : State) (need a : Nat) : Nat × State :=
  let off := alignUp s.bump a
  if wadd off need > c.capacity then (0, s)
  else
    let bump := wadd off need
    let p := c.hostBase + off
    (p, { s with bump := bump, highWater := max s.highWater bump, live := setLive s.live p ⟨off, need⟩ })

def allocate (c : Config) (s : State) (size align : Nat) : Nat × State :=
  if size = 0 then (0, s)
  else
    let a := max align kDefaultAlignment
    let need := alignUp size a
    match firstFit need a s.freeList with
    | some (off, freeList) =>
      let p := c.hostBase + off
      (p, { s with freeList := freeList, live := setLive s.live p ⟨off, need⟩ })
    | none => bumpAllocate c s need a

def deallocate (s : State) (p : Nat) : State :=
  if p = 0 then s
  else
    match s.live.find? fun e => e.1 = p with
    | none => s
    | some e => { s with freeList := s.freeList ++ [e.2], live := s.live.filter fun e => e.1 ≠ p }

/-! ### The invariant -/

def Apart (b b' : Block) : Prop := b.offset + b.size ≤ b'.offset ∨ b'.offset + b'.size ≤ b.offset

/-- Live and free blocks are disjoint, non-empty and below the bump pointer. -/
structure Inv (c : Config) (s : State) : Prop where
  bump_le : s.bump ≤ s.highWater
  high_le : s.highWater ≤ c.capacity
  keys : ∀ e ∈ s.live, e.1 = c.hostBase + e.2.offset
  apart : (s.live.map Prod.snd ++ s.freeList).Pairwise Apart
  inside : ∀ b ∈ s.live.map Prod.snd ++ s.freeList, 0 < b.size ∧ b.offset + b.size ≤ s.bump

theorem Apart.symm {b b' : Block} (h : Apart b b') : Apart b' b := Or.symm h

theorem alignUp_bounds {v a : Nat} (pos : 0 < a) (room : v + a ≤ 2 ^ 64) :
    v ≤ alignUp v a ∧ alignUp v a < v + a := by
  have sum : wsub (wadd v a) 1 = v + (a - 1) := by
    unfold wsub wadd
    omega
  rw [alignUp, sum]
  obtain ⟨low, high⟩ := and_wnot_bounds (x := v + (a - 1)) (m := a - 1) (by omega) (by omega)
  omega

/-- No sum wraps around while the free list is searched. -/
def FitNoWrap (need a : Nat) : List Block → Prop
  | [] => True
  | b :: rest => b.offset + a ≤ 2 ^ 64 ∧ alignUp b.offset a - b.offset + need < 2 ^ 64 ∧
    (b.size < alignUp b.offset a - b.offset + need → FitNoWrap need a rest)

/-- No sum that `allocate` computes wraps around. -/
def NoWrap (s : State) (size align : Nat) : Prop :=
  let a := max align kDefaultAlignment
  let need := alignUp size a
  size = 0 ∨ (size + a ≤ 2 ^ 64 ∧ FitNoWrap need a s.freeList ∧
    (firstFit need a s.freeList = none → s.bump + a ≤ 2 ^ 64 ∧ alignUp s.bump a + need < 2 ^ 64))

/-- Inside a block, a sub-block is apart from whatever the block is apart from. -/
theorem Apart.sub {b b' d : Block} (h : Apart b d) (low : b.offset ≤ b'.offset)
    (high : b'.offset + b'.size ≤ b.offset + b.size) : Apart b' d := by
  unfold Apart at *
  omega

theorem firstFit_cons {need a : Nat} {b : Block} {rest : List Block} (pos : 0 < a)
    (safe : FitNoWrap need a (b :: rest)) (inside : b.offset + b.size < 2 ^ 64) :
    ∃ off, off = alignUp b.offset a ∧ b.offset ≤ off ∧ (b.offset + b.size < off + need → FitNoWrap need a rest) ∧
      firstFit need a (b :: rest) =
        if off + need ≤ b.offset + b.size then
          if off + need < b.offset + b.size then
            some (off, ⟨off + need, b.offset + b.size - (off + need)⟩ :: rest)
          else some (off, rest)
        else (firstFit need a rest).map fun (off, rest) => (off, b :: rest) := by
  obtain ⟨room, sum, next⟩ := safe
  obtain ⟨low, high⟩ := alignUp_bounds pos room
  refine ⟨alignUp b.offset a, rfl, low, fun misfit => next (by omega), ?_⟩
  have pad : wsub (alignUp b.offset a) b.offset = alignUp b.offset a - b.offset := wsub_of_le (by omega) low
  have padded : wadd (alignUp b.offset a - b.offset) need = alignUp b.offset a - b.offset + need := wadd_of_lt sum
  rw [firstFit]
  dsimp only
  rw [pad, padded]
  clear next pad padded
  generalize alignUp b.offset a = off at *
  by_cases fits : off + need ≤ b.offset + b.size
  · rw [if_pos fits, if_pos (by omega), wsub_of_le (b := off - b.offset) (by omega) (by omega),
      wsub_of_le (by omega) (by omega), wadd_of_lt (by omega),
      show b.size - (off - b.offset) - need = b.offset + b.size - (off + need) by omega]
    by_cases left : off + need < b.offset + b.size
    · rw [if_pos left, if_pos (by omega)]
    · rw [if_neg left, if_neg (by omega)]
  · rw [if_neg fits, if_neg (by omega)]

/-- What first fit leaves: the block taken lies in a free block, and whatever was apart from
the free list is apart from the block taken and from the new free list. -/
theorem firstFit_spec {need a stop : Nat} {fl fl' : List Block} {off : Nat} (hne : 0 < a) (pos : 0 < need)
    (safe : FitNoWrap need a fl) (bound : stop < 2 ^ 64) (inside : ∀ b ∈ fl, 0 < b.size ∧ b.offset + b.size ≤ stop)
    (apart : fl.Pairwise Apart) (h : firstFit need a fl = some (off, fl')) :
    off + need ≤ stop ∧ (∀ d, (∀ b ∈ fl, Apart b d) → Apart ⟨off, need⟩ d ∧ ∀ b ∈ fl', Apart b d) ∧
    (∀ b ∈ fl', 0 < b.size ∧ b.offset + b.size ≤ stop) ∧ (⟨off, need⟩ :: fl').Pairwise Apart := by
  induction fl generalizing off fl' with
  | nil => cases h
  | cons b rest ih =>
    obtain ⟨head, tail⟩ := List.pairwise_cons.mp apart
    have own := inside b List.mem_cons_self
    have others : ∀ d ∈ rest, 0 < d.size ∧ d.offset + d.size ≤ stop := fun d hd => inside d (List.mem_cons_of_mem b hd)
    obtain ⟨off', -, low, next, step⟩ := firstFit_cons hne safe (Nat.lt_of_le_of_lt own.2 bound)
    rw [step] at h
    split at h
    · next fits =>
      have sub : ∀ {d}, Apart b d → Apart ⟨off', need⟩ d := fun hd => hd.sub low fits
      split at h
      · next left =>
        cases h
        have rem : ∀ {d}, Apart b d → Apart ⟨off + need, b.offset + b.size - (off + need)⟩ d :=
          fun hd => hd.sub (by dsimp only; omega) (by dsimp only; omega)
        refine ⟨by omega, fun d hd => ⟨sub (hd b List.mem_cons_self), fun e he => ?_⟩, fun e he => ?_, ?_⟩
        · rcases List.mem_cons.mp he with rfl | he
          · exact rem (hd b List.mem_cons_self)
          · exact hd e (List.mem_cons_of_mem b he)
        · rcases List.mem_cons.mp he with rfl | he
          · exact ⟨by dsimp only; omega, by dsimp only; omega⟩
          · exact others e he
        · refine List.pairwise_cons.mpr ⟨fun e he => ?_, List.pairwise_cons.mpr ⟨fun e he => rem (head e he), tail⟩⟩
          rcases List.mem_cons.mp he with rfl | he
          · exact Or.inl (Nat.le_refl _)
          · exact sub (head e he)
      · next full =>
        cases h
        exact ⟨by omega, fun d hd => ⟨sub (hd b List.mem_cons_self), fun e he => hd e (List.mem_cons_of_mem b he)⟩,
          others, List.pairwise_cons.mpr ⟨fun e he => sub (head e he), tail⟩⟩
    · next misfit =>
      obtain ⟨⟨off₁, rest₁⟩, found, same⟩ := Option.map_eq_some_iff.mp h
      cases same
      obtain ⟨top, keep, bounds, pairs⟩ := ih (next (by omega)) others tail found
      obtain ⟨taken, left⟩ := List.pairwise_cons.mp pairs
      obtain ⟨bTaken, bLeft⟩ := keep b fun d hd => (head d hd).symm
      refine ⟨top, fun d hd => ?_, fun e he => ?_, ?_⟩
      · obtain ⟨h1, h2⟩ := keep d fun e he => hd e (List.mem_cons_of_mem b he)
        refine ⟨h1, fun e he => ?_⟩
        rcases List.mem_cons.mp he with rfl | he
        · exact hd e List.mem_cons_self
        · exact h2 e he
      · rcases List.mem_cons.mp he with rfl | he
        · exact own
        · exact bounds e he
      · refine List.pairwise_cons.mpr ⟨fun e he => ?_, List.pairwise_cons.mpr ⟨fun e he => (bLeft e he).symm, left⟩⟩
        rcases List.mem_cons.mp he with rfl | he
        · exact bTaken
        · exact taken e he

/-! ### The operations keep the invariant -/

section
variable {c : Config} {s s' : State}

/-- No live pointer is the one of a block that is apart from all live blocks. -/
theorem Inv.fresh (h : Inv c s) {off need : Nat} (pos : 0 < need)
    (apart : ∀ b ∈ s.live.map Prod.snd, Apart ⟨off, need⟩ b) : ∀ e ∈ s.live, e.1 ≠ c.hostBase + off := by
  intro e he same
  have mem : e.2 ∈ s.live.map Prod.snd := List.mem_map_of_mem he
  have key := h.keys e he
  have size := (h.inside e.2 (List.mem_append_left _ mem)).1
  have := apart e.2 mem
  unfold Apart at this
  dsimp only at this
  omega

theorem setLive_fresh {live : List (Nat × Block)} {p : Nat} {b : Block} (fresh : ∀ e ∈ live, e.1 ≠ p) :
    setLive live p b = (p, b) :: live := by
  unfold setLive
  rw [List.filter_eq_self.mpr fun e he => by simpa using fresh e he]

/-- An allocation as its caller sees it: null and no change, or a fresh block in front of the
live ones. -/
def Served (c : Config) (s : State) (size : Nat) (result : Nat × State) : Prop :=
  result = (0, s) ∨ ∃ off need, size ≤ need ∧ 0 < need ∧ off + need ≤ c.capacity ∧ result.1 = c.hostBase + off ∧
    Inv c result.2 ∧ (∀ e ∈ s.live, e.1 ≠ c.hostBase + off) ∧
    result.2.live = (c.hostBase + off, ⟨off, need⟩) :: s.live

theorem firstFit_served (h : Inv c s) (cap : c.capacity < 2 ^ 64) {size need a off : Nat} {fl : List Block}
    (hne : 0 < a) (covers : size ≤ need) (pos : 0 < need) (safe : FitNoWrap need a s.freeList)
    (found : firstFit need a s.freeList = some (off, fl)) :
    Served c s size (c.hostBase + off,
      { s with freeList := fl, live := setLive s.live (c.hostBase + off) ⟨off, need⟩ }) := by
  obtain ⟨liveApart, freeApart, between⟩ := List.pairwise_append.mp h.apart
  have bump := h.bump_le
  have high := h.high_le
  obtain ⟨top, keep, bounds, pairs⟩ := firstFit_spec hne pos safe (show s.bump < 2 ^ 64 by omega)
    (fun b hb => h.inside b (List.mem_append_right _ hb)) freeApart found
  obtain ⟨taken, left⟩ := List.pairwise_cons.mp pairs
  have old : ∀ d ∈ s.live.map Prod.snd, Apart ⟨off, need⟩ d ∧ ∀ b ∈ fl, Apart b d := fun d hd =>
    keep d fun b hb => (between d hd b hb).symm
  have fresh := h.fresh pos fun b hb => (old b hb).1
  rw [setLive_fresh fresh]
  refine Or.inr ⟨off, need, covers, pos, by omega, rfl, ⟨bump, high, fun e he => ?_, ?_, fun b hb => ?_⟩, fresh, rfl⟩
  · rcases List.mem_cons.mp he with rfl | he
    · rfl
    · exact h.keys e he
  · refine List.pairwise_cons.mpr ⟨fun b hb => ?_, List.pairwise_append.mpr ⟨liveApart, left, fun d hd b hb => ?_⟩⟩
    · rcases List.mem_append.mp hb with hb | hb
      · exact (old b hb).1
      · exact taken b hb
    · exact ((old d hd).2 b hb).symm
  · rcases List.mem_cons.mp hb with rfl | hb
    · exact ⟨pos, top⟩
    · rcases List.mem_append.mp hb with hb | hb
      · exact h.inside b (List.mem_append_left _ hb)
      · exact bounds b hb

theorem bumpAllocate_served (h : Inv c s) {size need a : Nat} (hne : 0 < a) (covers : size ≤ need) (pos : 0 < need)
    (room : s.bump + a ≤ 2 ^ 64) (sum : alignUp s.bump a + need < 2 ^ 64) :
    Served c s size (bumpAllocate c s need a) := by
  have bump := h.bump_le
  have high := h.high_le
  obtain ⟨low, -⟩ := alignUp_bounds hne room
  unfold bumpAllocate
  dsimp only
  rw [wadd_of_lt sum]
  generalize alignUp s.bump a = off at *
  split
  · exact Or.inl rfl
  · next fits =>
    have old : ∀ b ∈ s.live.map Prod.snd ++ s.freeList, Apart ⟨off, need⟩ b := fun b hb => by
      have := h.inside b hb
      exact Or.inr (by dsimp only; omega)
    have fresh := h.fresh pos fun b hb => old b (List.mem_append_left _ hb)
    rw [setLive_fresh fresh]
    refine Or.inr ⟨off, need, covers, pos, by omega, rfl,
      ⟨Nat.le_max_right _ _, by dsimp only; omega, fun e he => ?_, ?_, fun b hb => ?_⟩, fresh, rfl⟩
    · rcases List.mem_cons.mp he with rfl | he
      · rfl
      · exact h.keys e he
    · exact List.pairwise_cons.mpr ⟨old, h.apart⟩
    · rcases List.mem_cons.mp hb with rfl | hb
      · exact ⟨pos, Nat.le_refl _⟩
      · have := h.inside b hb
        exact ⟨this.1, by dsimp only; omega⟩

theorem allocate_served (h : Inv c s) (cap : c.capacity < 2 ^ 64) {size align : Nat} (safe : NoWrap s size align) :
    Served c s size (allocate c s size align) := by
  unfold NoWrap at safe
  unfold allocate
  dsimp only at safe ⊢
  have hne : 0 < max align kDefaultAlignment := Nat.lt_of_lt_of_le (by decide : 0 < 256) (Nat.le_max_right _ _)
  generalize max align kDefaultAlignment = a at *
  split
  · exact Or.inl rfl
  · next pos =>
    obtain ⟨room, fit, bump⟩ := safe.resolve_left pos
    obtain ⟨low, -⟩ := alignUp_bounds hne room
    have posNeed : 0 < alignUp size a := by omega
    cases found : firstFit (alignUp size a) a s.freeList with
    | none =>
      obtain ⟨bumpRoom, sum⟩ := bump found
      exact bumpAllocate_served h hne low posNeed bumpRoom sum
    | some taken => exact firstFit_served h cap hne low posNeed fit found

theorem fitNoWrap_of_room {need a : Nat} {fl : List Block} (pos : 0 < a) (offsets : ∀ b ∈ fl, b.offset + a ≤ 2 ^ 64)
    (room : need + a ≤ 2 ^ 64) : FitNoWrap need a fl := by
  induction fl with
  | nil => trivial
  | cons b rest ih =>
    have own := offsets b List.mem_cons_self
    obtain ⟨-, pad⟩ := alignUp_bounds pos own
    exact ⟨own, by omega, fun _ => ih fun d hd => offsets d (List.mem_cons_of_mem b hd)⟩

/-- In an arena that is not huge, requests of moderate size and alignment never wrap. -/
theorem noWrap_of_small (h : Inv c s) (cap : c.capacity < 2 ^ 62) {size align : Nat} (hs : size ≤ 2 ^ 62)
    (ha : align ≤ 2 ^ 62) : NoWrap s size align := by
  have hne : 0 < max align kDefaultAlignment := Nat.lt_of_lt_of_le (by decide : 0 < 256) (Nat.le_max_right _ _)
  have small : max align kDefaultAlignment ≤ 2 ^ 62 := Nat.max_le.mpr ⟨ha, by decide⟩
  have bump := h.bump_le
  have high := h.high_le
  unfold NoWrap
  dsimp only
  generalize max align kDefaultAlignment = a at *
  obtain ⟨-, need⟩ := alignUp_bounds (v := size) hne (by omega)
  obtain ⟨-, off⟩ := alignUp_bounds (v := s.bump) hne (by omega)
  have offsets : ∀ b ∈ s.freeList, b.offset + a ≤ 2 ^ 64 := by
    intro b hb
    have := (h.inside b (List.mem_append_right _ hb)).2
    omega
  exact Or.inr ⟨by omega, fitNoWrap_of_room hne offsets (by omega), fun _ => ⟨by omega, by omega⟩⟩

theorem deallocate_live (s : State) (p : Nat) (nonnull : p ≠ 0) :
    (deallocate s p).live = s.live.filter fun e => e.1 ≠ p := by
  unfold deallocate
  rw [if_neg nonnull]
  cases found : s.live.find? fun e => e.1 = p with
  | none =>
    refine (List.filter_eq_self.mpr fun e he => ?_).symm
    simpa using List.find?_eq_none.mp found e he
  | some e => rfl

theorem deallocate_inv (h : Inv c s) (p : Nat) : Inv c (deallocate s p) := by
  unfold deallocate
  split
  · exact h
  · cases found : s.live.find? fun e => e.1 = p with
    | none => exact h
    | some e =>
      obtain ⟨l, r, split⟩ := List.append_of_mem (List.mem_of_find?_eq_some found)
      have key : e.1 = p := by simpa using List.find?_some found
      have sub : (s.live.filter fun e => e.1 ≠ p).Sublist (l ++ r) := by
        rw [split, List.filter_append, List.filter_cons_of_neg (by simpa using key)]
        exact List.filter_sublist.append List.filter_sublist
      have whole : (s.live.map Prod.snd ++ s.freeList).Perm
          ((l ++ r).map Prod.snd ++ (s.freeList ++ [e.2])) := by
        rw [split]
        simp only [List.map_append, List.map_cons, List.append_assoc, List.cons_append]
        refine List.Perm.append_left _ ((List.perm_append_singleton _ _).symm.trans ?_)
        simp
      have part : ((s.live.filter fun e => e.1 ≠ p).map Prod.snd ++ (s.freeList ++ [e.2])).Sublist
          ((l ++ r).map Prod.snd ++ (s.freeList ++ [e.2])) := (sub.map _).append (List.Sublist.refl _)
      have apart : ((l ++ r).map Prod.snd ++ (s.freeList ++ [e.2])).Pairwise Apart :=
        (whole.pairwise_iff Apart.symm).mp h.apart
      exact ⟨h.bump_le, h.high_le, fun d hd => h.keys d (List.mem_filter.mp hd).1, apart.sublist part,
        fun b hb => h.inside b (whole.mem_iff.mpr (part.subset hb))⟩

end

/-! ### Where blocks are cut -/

theorem firstFit_offset {need a off : Nat} {fl fl' : List Block} (h : firstFit need a fl = some (off, fl')) :
    ∃ b ∈ fl, off = alignUp b.offset a := by
  induction fl generalizing fl' with
  | nil => cases h
  | cons b rest ih =>
    rw [firstFit] at h
    dsimp only at h
    split at h
    · refine ⟨b, List.mem_cons_self, ?_⟩
      split at h
      · cases h
        rfl
      · cases h
        rfl
    · obtain ⟨⟨off₁, rest₁⟩, found, same⟩ := Option.map_eq_some_iff.mp h
      cases same
      obtain ⟨d, hd, cut⟩ := ih found
      exact ⟨d, List.mem_cons_of_mem b hd, cut⟩

theorem allocate_offset (c : Config) (s : State) (size align : Nat) :
    allocate c s size align = (0, s) ∨ ∃ v, (v = s.bump ∨ ∃ b ∈ s.freeList, v = b.offset) ∧
      (allocate c s size align).1 = c.hostBase + alignUp v (max align kDefaultAlignment) := by
  unfold allocate
  dsimp only
  split
  · exact Or.inl rfl
  · cases found : firstFit (alignUp size (max align kDefaultAlignment)) (max align kDefaultAlignment) s.freeList with
    | none =>
      dsimp only
      unfold bumpAllocate
      dsimp only
      split
      · exact Or.inl rfl
      · exact Or.inr ⟨s.bump, Or.inl rfl, rfl⟩
    | some taken =>
      obtain ⟨b, hb, cut⟩ := firstFit_offset found
      exact Or.inr ⟨b.offset, Or.inr ⟨b, hb, rfl⟩, by rw [← cut]⟩

theorem max_two_pow (k : Nat) : max (2 ^ k) kDefaultAlignment = 2 ^ max k 8 := by
  unfold kDefaultAlignment
  rcases Nat.le_total k 8 with le | le
  · rw [Nat.max_eq_right le, Nat.max_eq_right (Nat.pow_le_pow_right (n := 2) (by decide) le)]
  · rw [Nat.max_eq_left le, Nat.max_eq_left (Nat.pow_le_pow_right (n := 2) (by decide) le)]

theorem alignUp_mod {v k : Nat} (hk : k < 64) (h : v + 2 ^ k < 2 ^ 64) : alignUp v (2 ^ k) % 2 ^ k = 0 := by
  rw [alignUp, round_up_eq k hk h]
  exact Nat.mul_mod_left _ _

/-- An allocation is null and changes nothing, or a fresh aligned block apart from the live ones. -/
theorem allocate_spec {c : Config} {s : State} (h : Inv c s) (cap : c.capacity < 2 ^ 62) {size k : Nat}
    (hs : size ≤ 2 ^ 62) (hk : k ≤ 62) :
    allocate c s size (2 ^ k) = (0, s) ∨ ∃ b, (allocate c s size (2 ^ k)).1 = c.hostBase + b.offset ∧
      (allocate c s size (2 ^ k)).2.live = (c.hostBase + b.offset, b) :: s.live ∧
      b.offset % max (2 ^ k) 256 = 0 ∧ size ≤ b.size ∧ ∀ e ∈ s.live, Apart b e.2 := by
  have pow : 2 ^ k ≤ 2 ^ 62 := Nat.pow_le_pow_right (by decide) hk
  rcases allocate_served h (by omega) (noWrap_of_small h cap hs pow) with
    null | ⟨off, need, covers, -, -, ptr, inv, -, live⟩
  · exact Or.inl null
  rcases allocate_offset c s size (2 ^ k) with null | ⟨v, from_, cut⟩
  · exact Or.inl null
  refine Or.inr ⟨⟨off, need⟩, ptr, live, ?_, covers, ?_⟩
  · have below : v ≤ s.bump := by
      rcases from_ with rfl | ⟨b, hb, rfl⟩
      · exact Nat.le_refl _
      · have := (h.inside b (List.mem_append_right _ hb)).2
        omega
    have bump := h.bump_le
    have high := h.high_le
    have top : 2 ^ max k 8 ≤ 2 ^ 62 := Nat.pow_le_pow_right (by decide) (by omega)
    have same : off = alignUp v (2 ^ max k 8) := by
      rw [max_two_pow] at cut
      omega
    show off % max (2 ^ k) kDefaultAlignment = 0
    rw [max_two_pow, same]
    exact alignUp_mod (by omega) (by omega)
  · intro e he
    have apart := inv.apart
    rw [live] at apart
    have head := (List.pairwise_cons.mp apart).1
    exact head e.2 (List.mem_append_left _ (List.mem_map_of_mem he))

theorem deallocate_foreign {s : State} {p : Nat} (foreign : ∀ e ∈ s.live, e.1 ≠ p) : deallocate s p = s := by
  unfold deallocate
  split
  · rfl
  · rw [List.find?_eq_none.mpr fun e he => by simpa using foreign e he]

/-! ### Reachable arenas -/

/-- The states of an arena that serves requests of moderate size and frees any pointers. -/
inductive Reach (c : Config) : State → Prop
  | fresh : Reach c {}
  | allocate {s : State} {size k : Nat} (reach : Reach c s) (hs : size ≤ 2 ^ 62) (hk : k ≤ 62) :
      Reach c (Legacy.allocate c s size (2 ^ k)).2
  | deallocate {s : State} (reach : Reach c s) (p : Nat) : Reach c (Legacy.deallocate s p)

theorem inv_fresh (c : Config) : Inv c {} :=
  ⟨Nat.le_refl 0, Nat.zero_le _, by simp, by simp, by simp⟩

theorem Reach.inv {c : Config} {s : State} (cap : c.capacity < 2 ^ 62) (reach : Reach c s) : Inv c s := by
  induction reach with
  | fresh => exact inv_fresh c
  | allocate reach hs hk ih =>
    have pow : 2 ^ _ ≤ 2 ^ 62 := Nat.pow_le_pow_right (by decide) hk
    rcases allocate_served ih (by omega) (noWrap_of_small ih cap hs pow) with null | ⟨_, _, -, -, -, -, inv, -⟩
    · rw [null]
      exact ih
    · exact inv
  | deallocate reach p ih => exact deallocate_inv ih p

/-! ### As an arena of the launchers -/

/-- The arena with the memory that it hands out. -/
def arena (β : Type) (c : Config) (base_pos : 0 < c.hostBase) (cap : c.capacity < 2 ^ 62) : ArenaModel β where
  State := State × (Nat → β)
  base := c.hostBase
  capacity := c.capacity
  mem s := s.2
  setMem s m := (s.1, m)
  live s := s.1.live.map fun e => (e.1, e.2.size)
  Valid s := Inv c s.1
  Allocates s size align p s' := allocate c s.1 size align = (p, s'.1) ∧ s'.2 = s.2
  Frees s p s' := deallocate s.1 p = s'.1 ∧ s'.2 = s.2
  inside {s} h b hb := by
    obtain ⟨e, he, rfl⟩ := List.mem_map.mp hb
    have key := h.keys e he
    obtain ⟨pos, top⟩ := h.inside e.2 (List.mem_append_left _ (List.mem_map_of_mem he))
    have := h.bump_le
    have := h.high_le
    dsimp only
    omega
  disjoint {s} h := by
    have apart := (List.pairwise_append.mp h.apart).1
    rw [List.pairwise_map] at apart ⊢
    refine apart.imp_of_mem fun {e d} he hd apart => ?_
    have := h.keys e he
    have := h.keys d hd
    have := (h.inside e.2 (List.mem_append_left _ (List.mem_map_of_mem he))).1
    have := (h.inside d.2 (List.mem_append_left _ (List.mem_map_of_mem hd))).1
    unfold Legacy.Apart at apart
    unfold Arena.Apart
    dsimp only
    omega
  small := Nat.le_of_lt cap
  allocates {s size} _ _ := ⟨_, ((allocate c s.1 size 256).2, s.2), rfl, rfl⟩
  allocate_spec {s size p s'} h hs step := by
    obtain ⟨result, same⟩ := step
    have served := allocate_served h (by omega) (noWrap_of_small h cap hs (by decide : 256 ≤ 2 ^ 62))
    rw [result] at served
    rcases served with null | ⟨off, need, covers, pos, top, ptr, inv, fresh, live⟩
    · obtain ⟨zero, unchanged⟩ := Prod.mk.inj null
      exact ⟨by rw [unchanged]; exact h, fun a _ => by rw [same], Or.inl ⟨zero, by rw [unchanged]⟩⟩
    · dsimp only at ptr live inv
      exact ⟨inv, fun a _ => by rw [same], Or.inr ⟨by omega, need, covers, by rw [live, ptr]; rfl⟩⟩
  frees {s b} _ _ := ⟨(deallocate s.1 b.1, s.2), rfl, rfl⟩
  free_spec {s b s'} h hb step := by
    obtain ⟨result, same⟩ := step
    obtain ⟨e, he, rfl⟩ := List.mem_map.mp hb
    have key := h.keys e he
    rw [← result]
    refine ⟨deallocate_inv h _, ?_, fun a _ => by rw [same]⟩
    rw [deallocate_live s.1 e.1 (by omega)]
    unfold released
    rw [List.filter_map]
    rfl
  write_spec h _ := ⟨h, rfl, rfl⟩

/-! ### An arena with two blocks -/

def twoBlocks : State where
  bump := 8192
  highWater := 8192
  live := [(8192, ⟨4096, 4096⟩), (4096, ⟨0, 4096⟩)]

/-- An arena of 64 KiB at 4096, over cells that hold a number. -/
def smallArena : ArenaModel Nat := arena Nat ⟨4096, 65536⟩ (by decide) (by decide)

theorem smallArena_base : 0 < (⟨4096, 65536⟩ : Config).hostBase := by decide

theorem smallArena_capacity : (⟨4096, 65536⟩ : Config).capacity < 2 ^ 62 := by decide

theorem twoBlocks_inv : Inv ⟨4096, 65536⟩ twoBlocks :=
  ⟨by decide, by decide, by decide, by simp [twoBlocks, Apart], by decide⟩

theorem twoBlocks_valid (m : Nat → Nat) : smallArena.Valid (twoBlocks, m) := twoBlocks_inv

theorem twoBlocks_first {m : Nat → Nat} {n : Nat} (h : n ≤ 4096) :
    InBlock (smallArena.live (twoBlocks, m)) 4096 n := (InBlock.head h).cons

theorem twoBlocks_second {m : Nat → Nat} {n : Nat} (h : n ≤ 4096) :
    InBlock (smallArena.live (twoBlocks, m)) 8192 n := InBlock.head h

end Parallax.Arena.Legacy
