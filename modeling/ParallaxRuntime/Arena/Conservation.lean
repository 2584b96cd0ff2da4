import Mathlib.Data.List.Count
import ParallaxRuntime.Arena.Oversized

/-!
# The bytes of the arena

Which bytes below the bump pointer belong to a block. The tail that was never used counts as one more block, so that
an allocation cuts its block out of another one in either case, and what lies in front of the cut is lost.
-/

namespace Parallax.Arena.Legacy
open Memory Effects

def State.blocks (s : State) : List Block := s.live.map Prod.snd ++ s.freeList

/-- How many of the blocks hold the byte at offset `x`. -/
def holders (x : Nat) (bs : List Block) : Nat := bs.countP fun b => b.offset ≤ x ∧ x < b.offset + b.size

/-- Each byte below the bump pointer belongs to exactly one live or free block. -/
def Conserved (s : State) : Prop := ∀ x < s.bump, holders x s.blocks = 1

/-- First fit's test of a free block. -/
def fits (need a : Nat) (b : Block) : Bool := b.size ≥ wadd (wsub (alignUp b.offset a) b.offset) need

/-- The offset at which the free block or the tail begins that an allocation is cut out of. -/
def cutFrom (c : Config) (s : State) (size align : Nat) : Option Nat :=
  let a := max align kDefaultAlignment
  let need := alignUp size a
  if size = 0 then none
  else
    match s.freeList.find? (fits need a) with
    | some b => some b.offset
    | none => if alignUp s.bump a + need > c.capacity then none else some s.bump

/-- Whatever the allocation is cut out of begins at a multiple of its alignment. -/
def Padless (c : Config) (s : State) (size align : Nat) : Prop :=
  ∀ v, cutFrom c s size align = some v → max align kDefaultAlignment ∣ v

/-- The sizes and alignments of callers. -/
def Request.Moderate : Request → Prop
  | allocate size k => size.toNat ≤ 2 ^ 62 ∧ k.val ≤ 62
  | deallocate _ => True

def Request.Padless (c : Config) (s : State) : Request → Prop
  | allocate size k => Legacy.Padless c s size.toNat (2 ^ k.val)
  | deallocate _ => True

instance (c : Config) (s : State) (size align : Nat) : Decidable (Legacy.Padless c s size align) :=
  inferInstanceAs (Decidable (∀ v ∈ cutFrom c s size align, max align kDefaultAlignment ∣ v))

instance : (r : Request) → Decidable r.Moderate
  | .allocate size k => inferInstanceAs (Decidable (size.toNat ≤ 2 ^ 62 ∧ k.val ≤ 62))
  | .deallocate _ => isTrue trivial

instance (c : Config) (s : State) : (r : Request) → Decidable (r.Padless c s)
  | .allocate size k => inferInstanceAs (Decidable (Legacy.Padless c s size.toNat (2 ^ k.val)))
  | .deallocate _ => isTrue trivial

/-! ### Counting -/

/-- 1 on `[lo, hi)`, 0 elsewhere. -/
def covers (x lo hi : Nat) : Nat := if lo ≤ x ∧ x < hi then 1 else 0

theorem covers_split {x lo mid hi : Nat} (low : lo ≤ mid) (high : mid ≤ hi) :
    covers x lo hi = covers x lo mid + covers x mid hi := by
  unfold covers
  split_ifs <;> omega

@[simp] theorem holders_nil (x : Nat) : holders x [] = 0 := rfl

theorem holders_cons (x : Nat) (b : Block) (bs : List Block) :
    holders x (b :: bs) = covers x b.offset (b.offset + b.size) + holders x bs := by
  unfold holders covers
  rw [List.countP_cons]
  simp [Nat.add_comm]

theorem holders_append (x : Nat) (bs cs : List Block) : holders x (bs ++ cs) = holders x bs + holders x cs :=
  List.countP_append

section
variable {c : Config} {s s' : State} {need a : Nat}

/-- The blocks at `x`, the tail among them. -/
def parts (s : State) (x : Nat) : Nat := holders x s.blocks + if s.bump ≤ x then 1 else 0

theorem conserved_iff_parts (inv : Inv c s) : Conserved s ↔ ∀ x, parts s x = 1 := by
  constructor
  · intro conserved x
    unfold parts
    by_cases tail : s.bump ≤ x
    · have none : holders x s.blocks = 0 := by
        apply List.countP_eq_zero.mpr
        intro b hb
        have := (inv.inside b hb).2
        simp only [decide_eq_true_eq]
        omega
      rw [none, if_pos tail]
    · rw [if_neg tail, conserved x (by omega)]
  · intro all x below
    have one := all x
    rwa [parts, if_neg (by omega)] at one

/-! ### Allocation -/

theorem fits_iff {b : Block} (pos : 0 < a) (room : b.offset + a ≤ 2 ^ 64)
    (sum : alignUp b.offset a - b.offset + need < 2 ^ 64) :
    fits need a b = true ↔ alignUp b.offset a + need ≤ b.offset + b.size := by
  obtain ⟨low, high⟩ := alignUp_bounds pos room
  unfold fits
  rw [wsub_of_le (by omega) low, wadd_of_lt sum, decide_eq_true_eq]
  omega

/-- First fit cuts the block it returns, and what is in front of it, off the block it takes. -/
theorem firstFit_cut {fl fl' : List Block} {off : Nat} (pos : 0 < a) (safe : FitNoWrap need a fl)
    (words : ∀ b ∈ fl, b.offset + b.size < 2 ^ 64) (found : firstFit need a fl = some (off, fl')) :
    ∃ b, fl.find? (fits need a) = some b ∧ off = alignUp b.offset a ∧ b.offset + a ≤ 2 ^ 64 ∧
      ∀ x, holders x fl = covers x b.offset (off + need) + holders x fl' := by
  induction fl generalizing fl' with
  | nil => cases found
  | cons b rest ih =>
    have word := words b List.mem_cons_self
    have test := fits_iff pos safe.1 safe.2.1
    obtain ⟨off₁, cut, low, next, step⟩ := firstFit_cons pos safe word
    rw [← cut] at test
    rw [step] at found
    by_cases room : off₁ + need ≤ b.offset + b.size
    · have here : (b :: rest).find? (fits need a) = some b := List.find?_cons_of_pos (test.mpr room)
      rw [if_pos room] at found
      split at found
      · next left =>
        cases found
        refine ⟨b, here, cut, safe.1, ?_⟩
        intro x
        rw [holders_cons, holders_cons, covers_split (Nat.le_trans low (Nat.le_add_right _ need)) room,
          Nat.add_sub_cancel' room, Nat.add_assoc]
      · next full =>
        cases found
        refine ⟨b, here, cut, safe.1, ?_⟩
        intro x
        rw [holders_cons, Nat.le_antisymm room (by omega)]
    · have skip : (b :: rest).find? (fits need a) = rest.find? (fits need a) := by
        apply List.find?_cons_of_neg
        rw [test]
        exact room
      rw [if_neg room] at found
      obtain ⟨⟨off₂, rest'⟩, found', same⟩ := Option.map_eq_some_iff.mp found
      cases same
      obtain ⟨d, first, cut', room', count⟩ := ih (next (by omega)) (fun e he => words e (List.mem_cons_of_mem b he)) found'
      refine ⟨d, by rw [skip, first], cut', room', ?_⟩
      intro x
      rw [holders_cons, holders_cons, count x]
      omega

theorem firstFit_none {fl : List Block} (full : firstFit need a fl = none) : fl.find? (fits need a) = none := by
  induction fl with
  | nil => rfl
  | cons b rest ih =>
    rw [firstFit] at full
    dsimp only at full
    split at full
    · split at full <;> cases full
    · next misfit =>
      have skip : ¬ fits need a b = true := by simpa [fits] using misfit
      rw [List.find?_cons_of_neg skip]
      exact ih (Option.map_eq_none_iff.mp full)

theorem parts_eq (s : State) (x : Nat) :
    parts s x = holders x (s.live.map Prod.snd) + holders x s.freeList + if s.bump ≤ x then 1 else 0 := by
  rw [parts, State.blocks, holders_append]

theorem parts_taken {live : List (Nat × Block)} {fl : List Block} {p off v : Nat} (low : v ≤ off)
    (same : live = (p, ⟨off, need⟩) :: s.live) (x : Nat)
    (count : holders x s.freeList = covers x v (off + need) + holders x fl) :
    parts s x = parts { s with freeList := fl, live := live } x + covers x v off := by
  rw [parts_eq, parts_eq, same, List.map_cons, holders_cons, count, covers_split low (Nat.le_add_right off need)]
  dsimp only
  omega

theorem parts_bumped {live : List (Nat × Block)} {p off high : Nat} (low : s.bump ≤ off)
    (same : live = (p, ⟨off, need⟩) :: s.live) (x : Nat) :
    parts s x = parts { s with bump := off + need, highWater := high, live := live } x + covers x s.bump off := by
  rw [parts_eq, parts_eq, same, List.map_cons, holders_cons]
  dsimp only
  unfold covers
  split_ifs <;> omega

theorem setLive_eq {live : List (Nat × Block)} {p q : Nat} {b d : Block} (same : setLive live p b = (q, d) :: live) :
    setLive live p b = (p, b) :: live := by
  unfold setLive at same ⊢
  rw [(List.cons.inj same).2]

/-- An allocation is refused, or its block and the bytes in front of it come out of one of the parts. -/
theorem allocate_cut (inv : Inv c s) (mapped : c.Mapped) {size align : Nat} (safe : NoWrap s size align) :
    (cutFrom c s size align = none ∧ (allocate c s size align).2 = s) ∨
    ∃ v, cutFrom c s size align = some v ∧ v + max align kDefaultAlignment ≤ 2 ^ 64 ∧
      ∀ x, parts s x = parts (allocate c s size align).2 x + covers x v (alignUp v (max align kDefaultAlignment)) := by
  have hne : 0 < max align kDefaultAlignment := Nat.lt_of_lt_of_le (by decide : 0 < 256) (Nat.le_max_right _ _)
  have nonnull := mapped.nonnull
  have object := mapped.object
  have top := inv.bump_le.trans inv.high_le
  have served := allocate_served inv (by omega) safe
  unfold NoWrap at safe
  unfold allocate cutFrom
  unfold allocate at served
  dsimp only at safe served ⊢
  generalize max align kDefaultAlignment = a at *
  by_cases empty : size = 0
  · left
    simp [empty]
  rw [if_neg empty] at served ⊢
  rw [if_neg empty]
  obtain ⟨-, fit, tail⟩ := safe.resolve_left empty
  cases found : firstFit (alignUp size a) a s.freeList with
  | some taken =>
    obtain ⟨off, fl⟩ := taken
    simp only [found] at served
    have words : ∀ b ∈ s.freeList, b.offset + b.size < 2 ^ 64 := by
      intro b hb
      have := (inv.inside b (List.mem_append_right _ hb)).2
      omega
    obtain ⟨b, first, cut, room, count⟩ := firstFit_cut hne fit words found
    obtain ⟨low, -⟩ := alignUp_bounds hne room
    rcases served with null | ⟨_, _, -, -, -, -, -, -, live⟩
    · have zero := congrArg Prod.fst null
      dsimp only at zero
      omega
    · rw [first]
      refine Or.inr ⟨b.offset, rfl, room, ?_⟩
      intro x
      rw [← cut] at low ⊢
      exact parts_taken low (setLive_eq live) x (count x)
  | none =>
    obtain ⟨room, sum⟩ := tail found
    rw [firstFit_none found]
    obtain ⟨low, -⟩ := alignUp_bounds hne room
    simp only [found, bumpAllocate, wadd_of_lt sum] at served ⊢
    by_cases full : alignUp s.bump a + alignUp size a > c.capacity
    · simp [full]
    · simp only [if_neg full] at served ⊢
      rcases served with null | ⟨_, _, -, -, -, -, -, -, live⟩
      · have zero := congrArg Prod.fst null
        dsimp only at zero
        omega
      · refine Or.inr ⟨s.bump, rfl, room, ?_⟩
        intro x
        exact parts_bumped low (setLive_eq live) x

/-! ### Release -/

/-- Live pointers are those of their blocks, and no two blocks begin at one offset. -/
theorem Inv.key_unique (inv : Inv c s) {l r : List (Nat × Block)} {e : Nat × Block} (split : s.live = l ++ e :: r) :
    ∀ d ∈ l ++ r, d.1 ≠ e.1 := by
  intro d hd same
  have apart := (List.pairwise_append.mp inv.apart).1
  have perm : s.live.Perm (e :: (l ++ r)) := by
    rw [split]
    exact List.perm_middle
  have pairs := ((perm.map Prod.snd).pairwise_iff Apart.symm).mp apart
  have between := (List.pairwise_cons.mp pairs).1 d.2 (List.mem_map_of_mem hd)
  have he : e ∈ s.live := perm.mem_iff.mpr List.mem_cons_self
  have hd' : d ∈ s.live := perm.mem_iff.mpr (List.mem_cons_of_mem e hd)
  have := inv.keys e he
  have := inv.keys d hd'
  have := (inv.inside e.2 (List.mem_append_left _ (List.mem_map_of_mem he))).1
  have := (inv.inside d.2 (List.mem_append_left _ (List.mem_map_of_mem hd'))).1
  unfold Apart at between
  omega

theorem deallocate_parts (inv : Inv c s) (p x : Nat) : parts (deallocate s p) x = parts s x := by
  unfold deallocate
  split
  · rfl
  · cases found : s.live.find? fun e => e.1 = p with
    | none => rfl
    | some e =>
      obtain ⟨l, r, split⟩ := List.append_of_mem (List.mem_of_find?_eq_some found)
      have key : e.1 = p := by simpa using List.find?_some found
      have others := inv.key_unique split
      rw [key] at others
      have kept : (s.live.filter fun e => e.1 ≠ p) = l ++ r := by
        rw [split, List.filter_append, List.filter_cons_of_neg (by simpa using key), ← List.filter_append]
        apply List.filter_eq_self.mpr
        intro d hd
        simpa using others d hd
      rw [parts_eq, parts_eq]
      dsimp only
      rw [kept, split]
      simp only [List.map_append, List.map_cons, holders_append, holders_cons, holders_nil]
      omega

/-! ### Runs -/

theorem Request.Moderate.harmless {r : Request} (moderate : r.Moderate) (inv : Inv c s) (mapped : c.Mapped) :
    r.Harmless c s := by
  cases r with
  | allocate size k =>
    obtain ⟨small, hk⟩ := moderate
    left
    rw [max_two_pow]
    have object := mapped.object
    have top := inv.bump_le.trans inv.high_le
    have pow : 2 ^ max k.val 8 ≤ 2 ^ 62 := Nat.pow_le_pow_right (by decide) (by omega)
    have half : 2 ^ max k.val 8 ∣ 2 ^ 63 := Nat.pow_dvd_pow 2 (by omega)
    have whole := alignUp_dvd (v := s.bump) (k := max k.val 8) (by omega)
    obtain ⟨-, near⟩ := alignUp_bounds (v := s.bump) (Nat.two_pow_pos (max k.val 8)) (by omega)
    -- the bump pointer is below 2^63, so it is rounded to 2^63 at most
    have below : alignUp s.bump (2 ^ max k.val 8) ≤ 2 ^ 63 := by
      by_contra past
      have := add_le_of_dvd half whole (by omega)
      omega
    omega
  | deallocate p => trivial

theorem alignUp_eq_iff {v k : Nat} (hk : k < 64) (room : v + 2 ^ k ≤ 2 ^ 64) : alignUp v (2 ^ k) ≤ v ↔ 2 ^ k ∣ v := by
  have whole := alignUp_dvd (v := v) hk
  obtain ⟨low, near⟩ := alignUp_bounds (Nat.two_pow_pos k) room
  constructor
  · intro same
    rwa [Nat.le_antisymm same low] at whole
  · intro aligned
    by_contra past
    have := add_le_of_dvd aligned whole (by omega)
    omega

/-- A request keeps the bytes just when it is cut at an aligned offset. -/
theorem Request.conserved_iff {r : Request} (inv : Inv c s) (mapped : c.Mapped) (moderate : r.Moderate)
    (conserved : Conserved s) (step : r.step c s s') : Conserved s' ↔ r.Padless c s := by
  have harmless := moderate.harmless inv mapped
  have after := (Request.step_keeps mapped inv harmless step).1
  rw [conserved_iff_parts inv] at conserved
  rw [conserved_iff_parts after]
  cases r with
  | allocate size k =>
    obtain rfl := step
    have safe : NoWrap s size.toNat (2 ^ k.val) := by
      rcases harmless with room | ⟨past, -⟩
      · exact noWrap_of_room inv mapped k.isLt room
      · obtain ⟨small, hk⟩ := moderate
        have pow : 2 ^ max k.val 8 ≤ 2 ^ 62 := Nat.pow_le_pow_right (by decide) (by omega)
        rw [max_two_pow] at past
        omega
    rcases allocate_cut inv mapped safe with ⟨refused, same⟩ | ⟨v, cut, room, count⟩
    · rw [same]
      simp [Request.Padless, Legacy.Padless, refused, conserved]
    · have padless : Request.Padless c s (.allocate size k) ↔ alignUp v (2 ^ max k.val 8) ≤ v := by
        rw [max_two_pow] at room
        rw [alignUp_eq_iff (by omega) room, ← max_two_pow]
        simp [Request.Padless, Legacy.Padless, cut]
      rw [padless]
      rw [max_two_pow] at count
      constructor
      · intro all
        have lost := count v
        rw [conserved v, all v] at lost
        by_contra past
        rw [covers, if_pos (by omega)] at lost
        omega
      · intro aligned x
        have none : covers x v (alignUp v (2 ^ max k.val 8)) = 0 := if_neg (by omega)
        have kept := count x
        rw [conserved x, none] at kept
        omega
  | deallocate p =>
    obtain rfl := step
    simp only [deallocate_parts inv, Request.Padless, iff_true]
    exact conserved

theorem run_inv {steps : List (State × Request)} (mapped : c.Mapped)
    (run : Trace (fun s (r : Request) s' => r.step c s s') {} steps s) (moderate : ∀ t ∈ steps, t.2.Moderate) :
    Inv c s := by
  apply run.invariant (inv_fresh c)
  intro t r t' here inv step
  exact (Request.step_keeps mapped inv ((moderate (t, r) here).harmless inv mapped) step).1

/-- No byte is lost along a run just when every allocation of it is cut at an aligned offset. -/
theorem conserved_iff_padless {steps : List (State × Request)} (mapped : c.Mapped)
    (run : Trace (fun s (r : Request) s' => r.step c s s') {} steps s) (moderate : ∀ t ∈ steps, t.2.Moderate) :
    ((∀ t ∈ steps, Conserved t.1) ∧ Conserved s) ↔ ∀ t ∈ steps, t.2.Padless c t.1 := by
  induction run with
  | start => simp [Conserved]
  | @next steps t t' r run moved ih =>
    have earlier : ∀ u ∈ steps, u.2.Moderate := fun u here => moderate u (List.mem_append_left _ here)
    have last := moderate (t, r) (List.mem_append_right _ (List.mem_singleton_self _))
    have inv := run_inv mapped run earlier
    have ih := ih earlier
    simp only [List.forall_mem_append, List.forall_mem_singleton]
    constructor
    · rintro ⟨before, after⟩
      exact ⟨ih.mp before, (Request.conserved_iff inv mapped last before.2 moved).mp after⟩
    · rintro ⟨before, padless⟩
      have conserved := ih.mpr before
      exact ⟨conserved, (Request.conserved_iff inv mapped last conserved.2 moved).mpr padless⟩

end

/-! ### Runs of the small arena -/

/-- Two blocks, the first of them freed, and a smaller block cut out of it at its beginning. -/
theorem conserved_iff_padless_reused :
    let s₁ := (allocate ⟨4096, 65536⟩ {} 4096 256).2
    let s₂ := (allocate ⟨4096, 65536⟩ s₁ 100 256).2
    let s₃ := deallocate s₂ 4096
    let s₄ := (allocate ⟨4096, 65536⟩ s₃ 1000 1024).2
    s₄.live = [(4096, ⟨0, 1024⟩), (8192, ⟨4096, 256⟩)] ∧ s₄.freeList = [⟨1024, 3072⟩] ∧ Conserved s₂ ∧ Conserved s₃ ∧ Conserved s₄ := by
  intro s₁ s₂ s₃ s₄
  let steps : List (State × Request) :=
    [({}, .allocate 4096 8), (s₁, .allocate 100 8), (s₂, .deallocate 4096), (s₃, .allocate 1000 10)]
  have run : Trace (fun s (r : Request) s' => r.step ⟨4096, 65536⟩ s s') {} steps s₄ :=
    (((Trace.start.next rfl).next rfl).next rfl).next rfl
  have moderate : ∀ t ∈ steps, t.2.Moderate := by decide
  have padless : ∀ t ∈ steps, t.2.Padless ⟨4096, 65536⟩ t.1 := by decide
  obtain ⟨before, after⟩ := (conserved_iff_padless ⟨by decide, by decide⟩ run moderate).mpr padless
  exact ⟨by decide, by decide, before (s₂, .deallocate 4096) (by simp [steps]), before (s₃, .allocate 1000 10) (by simp [steps]),
    after⟩

/-- 100 bytes, and 16 bytes at a multiple of 1024: the bytes from 256 to 1024 are in no block. -/
theorem padding_lost :
    let s := (allocate ⟨4096, 65536⟩ {} 100 256).2
    let s' := (allocate ⟨4096, 65536⟩ s 16 1024).2
    let freed := deallocate (deallocate s' 4096) 5120
    Trace (fun s (r : Request) s' => r.step ⟨4096, 65536⟩ s s') {} [({}, .allocate 100 8), (s, .allocate 16 10)] s' ∧
    ¬ Conserved s' ∧ freed.live = [] ∧ freed.bump = 2048 ∧ freed.freeList = [⟨0, 256⟩, ⟨1024, 1024⟩] := by
  refine ⟨(Trace.start.next rfl).next rfl, ?_, by decide, by decide, by decide⟩
  intro conserved
  exact absurd (conserved 256 (by decide)) (by decide)

end Parallax.Arena.Legacy
