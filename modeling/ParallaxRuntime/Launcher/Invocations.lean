import ParallaxRuntime.Kernel.Compact
import ParallaxRuntime.Kernel.Interleaving
import ParallaxRuntime.Kernel.Map
import ParallaxRuntime.Kernel.Scan
import ParallaxRuntime.Launcher.Relocation
import ParallaxRuntime.Launcher.Sort

/-!
# Invocations, access by access

The kernels without barriers as programs of loads and stores. Their invocations may take turns at every access: where
the arrays are apart, a dispatch ends as if the invocations had run one after the other.
-/

namespace Parallax.Launcher
open Memory Effects Arena Kernel

variable {β α γ M : Type}

/-- The bytes of memory as cells. -/
def accessCells (β : Type) : Cells (accesses β) Nat fun _ => β where
  act
    | .load p n, m => (fun k : Fin n => m (p + k), m)
    | .store p x, m => ((), put m p x)
  reads
    | .load p n, a => p ≤ a ∧ a < p + n
    | .store _ _, _ => False
  writes
    | .load _ _, _ => False
    | .store p x, a => p ≤ a ∧ a < p + x.length
  frame {o m a} out := by
    cases o with
    | load p n => rfl
    | store p x => exact put_outside out
  answer {o m m'} same := by
    cases o with
    | load p n =>
      funext k
      exact same _ ⟨by omega, by omega⟩
    | store p x => rfl
  waits _ := false
  effect {o m m' a} same wrote := by
    cases o with
    | load p n => exact wrote.elim
    | store p x => exact put_inside wrote
  silent no := by cases no

/-- The `i`-th element of the array at `p`. -/
def loadAt (c : Codec β α) (p i : Nat) : Prog (accesses β) α := do
  let x ← Prog.op (S := accesses β) (.load (p + i * c.size) c.size)
  pure (c.dec x)

def storeAt (c : Codec β α) (p i : Nat) (x : α) : Prog (accesses β) Unit :=
  Prog.op (S := accesses β) (.store (p + i * c.size) (List.ofFn (c.enc x)))

/-- The bytes of the `i`-th element. -/
def Cell (c : Codec β α) (p i a : Nat) : Prop := p + i * c.size ≤ a ∧ a < p + i * c.size + c.size

section
variable {c : Codec β α} {p i j n a : Nat} {x : α} {m m' : Nat → β} {f : α → Prog (accesses β) γ} {g : Unit → Prog (accesses β) γ}
  {D W : Nat → Prop} {Q : γ → (Nat → β) → Prop}

theorem Cell.covers (h : Cell c p i a) (lt : i < n) : c.Covers p n a := by
  have := Codec.elem_le (c := c) lt
  unfold Cell at h
  unfold Codec.Covers
  omega

theorem Cell.unique (h : Cell c p i a) (h' : Cell c p j a) : j = i := by
  by_contra ne
  unfold Cell at h h'
  rcases Nat.lt_or_gt_of_ne ne with lt | gt
  · have := Codec.elem_le (c := c) lt
    omega
  · have := Codec.elem_le (c := c) gt
    omega

theorem put_cell (inside : Cell c p i a) : c.put m p i x a = c.put m' p i x a := by
  unfold Cell at inside
  unfold Codec.put
  rw [dif_pos inside, dif_pos inside]

theorem put_not_cell (out : ¬ Cell c p i a) : c.put m p i x a = m a := dif_neg out

@[simp] theorem after_loadAt : (accessCells β).after (loadAt c p i >>= f) m = (accessCells β).after (f (c.get m p i)) m := rfl

@[simp] theorem after_storeAt : (accessCells β).after (storeAt c p i x) m = c.put m p i x := put_ofFn m p i x

@[simp] theorem after_storeAt_bind : (accessCells β).after (storeAt c p i x >>= g) m = (accessCells β).after (g ()) (c.put m p i x) := by
  rw [← put_ofFn]
  rfl

theorem ensures_loadAt (read : ∀ a, Cell c p i a → D a) (rest : (f (c.get m p i)).Ensures ((accessCells β).within D W) Q m) :
    (loadAt c p i >>= f).Ensures ((accessCells β).within D W) Q m := by
  refine ⟨fun _ => ⟨read, fun _ => False.elim⟩, ?_⟩
  rintro _ _ ⟨-, rfl, rfl⟩
  exact rest

theorem ensures_storeAt {Q : Unit → (Nat → β) → Prop} (write : ∀ a, Cell c p i a → W a) (last : Q () (c.put m p i x)) :
    (storeAt c p i x).Ensures ((accessCells β).within D W) Q m := by
  refine ⟨fun _ => ⟨fun _ => False.elim, fun a inside => write a ?_⟩, ?_⟩
  · have here : p + i * c.size ≤ a ∧ a < p + i * c.size + (List.ofFn (c.enc x)).length := inside
    rwa [List.length_ofFn] at here
  · rintro _ _ ⟨-, rfl, rfl⟩
    rw [← put_ofFn] at last
    exact last

theorem ensures_storeAt_bind (write : ∀ a, Cell c p i a → W a)
    (rest : (g ()).Ensures ((accessCells β).within D W) Q (c.put m p i x)) :
    (storeAt c p i x >>= g).Ensures ((accessCells β).within D W) Q m :=
  Prog.ensures_bind.mpr (ensures_storeAt write rest)

end

/-! ### The kernels -/

section
variable [LinearOrder α]

/-- `main` of `bitonic.comp` -/
def bitonicMain (c : Codec β α) (data count k j i : Nat) : Prog (accesses β) Unit :=
  if i ≥ count then pure ()
  else
    let l := i ^^^ j
    if l > i ∧ l < count then do
      let ascending : Bool := i &&& k = 0
      let a ← loadAt c data i
      let b ← loadAt c data l
      if decide (a > b) = ascending then do
        storeAt c data i b
        storeAt c data l a
      else pure ()
    else pure ()

end

section
variable [AddCommMonoid M]

/-- `main` of `flags.comp` -/
def flagsMain (c : Codec β α) (pc : Codec β M) (pos : Positions M) (pred : α → Bool) (indata flags count i : Nat) :
    Prog (accesses β) Unit :=
  if i < count then do
    let x ← loadAt c indata i
    storeAt pc flags i (if pred x then pos.ofNat 1 else pos.ofNat 0)
  else pure ()

/-- `main` of `scatter.comp` -/
def scatterMain (c : Codec β α) (pc : Codec β M) (pos : Positions M) (indata outdata positions count i : Nat) :
    Prog (accesses β) Unit :=
  if i ≥ count then pure ()
  else do
    let incl ← loadAt pc positions i
    let prev : Nat ← if i > 0 then (do
        let x ← loadAt pc positions (i - 1)
        pure (pos.toNat x))
      else pure 0
    if 2 * pos.toNat incl > 2 * prev + 1 then do
      let x ← loadAt c indata i
      storeAt c outdata (pos.toNat incl - 1) x
    else pure ()

/-- `main` of `scan_add.comp` -/
def scanAddMain (c : Codec β M) (data offsets count gid : Nat) : Prog (accesses β) Unit :=
  let wgid := gid / 256
  if gid < count ∧ wgid > 0 then do
    let x ← loadAt c data gid
    let y ← loadAt c offsets (wgid - 1)
    storeAt c data gid (x + y)
  else pure ()

end

/-- A kernel that was generated from a functor. -/
def mapMain {δ : Type} (c : Codec β α) (d : Codec β δ) (f : α → δ) (indata outdata count i : Nat) : Prog (accesses β) Unit :=
  if i < count then do
    let x ← loadAt c indata i
    storeAt d outdata i (f x)
  else pure ()

section
variable {c : Codec β α} {i count : Nat} {m : Nat → β}

theorem bitonicMain_after [LinearOrder α] {data k j : Nat} :
    (accessCells β).after (bitonicMain c data count k j i) m = bitonicInvocation c data count k j i m := by
  unfold bitonicMain bitonicInvocation
  split
  · rfl
  · dsimp only
    split
    · rw [after_loadAt, after_loadAt]
      split
      · rw [after_storeAt_bind, after_storeAt]
      · rfl
    · rfl

theorem flagsMain_after [AddCommMonoid M] {pc : Codec β M} {pos : Positions M} {pred : α → Bool} {indata flags : Nat} :
    (accessCells β).after (flagsMain c pc pos pred indata flags count i) m = flagsInvocation c pc pos pred indata flags count i m := by
  unfold flagsMain flagsInvocation
  split
  · rw [after_loadAt, after_storeAt]
  · rfl

theorem copyMain_after {indata outdata k : Nat} {b : Prop} [Decidable b] :
    (accessCells β).after (if b then loadAt c indata i >>= storeAt c outdata k else pure ()) m =
      if b then c.put m outdata k (c.get m indata i) else m := by
  split
  · rw [after_loadAt, after_storeAt]
  · rfl

theorem scatterMain_after [AddCommMonoid M] {pc : Codec β M} {pos : Positions M} {indata outdata positions : Nat} :
    (accessCells β).after (scatterMain c pc pos indata outdata positions count i) m =
      scatterInvocation c pc pos indata outdata positions count i m := by
  unfold scatterMain scatterInvocation
  split
  · rfl
  · dsimp only
    rw [after_loadAt]
    split
    · rw [Prog.bind_assoc, after_loadAt]
      exact copyMain_after
    · exact copyMain_after

theorem scanAddMain_after [AddCommMonoid M] {c : Codec β M} {data offsets : Nat} :
    (accessCells β).after (scanAddMain c data offsets count i) m = scanAddInvocation c data offsets count i m := by
  unfold scanAddMain scanAddInvocation
  dsimp only
  split
  · rw [after_loadAt, after_loadAt, after_storeAt]
  · rfl

theorem mapMain_after {δ : Type} {d : Codec β δ} {f : α → δ} {indata outdata : Nat} :
    (accessCells β).after (mapMain c d f indata outdata count i) m = mapInvocation c d f indata outdata count i m := by
  unfold mapMain mapInvocation
  split
  · rw [after_loadAt, after_storeAt]
  · rfl

end

/-! ### No races -/

section
variable {c : Codec β α} {count n : Nat} {m : Nat → β}

/-- The two elements that the lower invocation of a pair compares. -/
def Pair (c : Codec β α) (data count j i a : Nat) : Prop :=
  (i < i ^^^ j ∧ i ^^^ j < count) ∧ (Cell c data i a ∨ Cell c data (i ^^^ j) a)

theorem bitonic_raceFree [LinearOrder α] {data k j : Nat} : (accessCells β).RaceFree (fun i : Fin n => Pair c data count j i)
    (fun i : Fin n => Pair c data count j i) (fun i : Fin n => bitonicMain c data count k j i) m where
  own _ _ wrote := wrote
  apart := by
    intro i i' a ne ⟨lower, mine⟩ ⟨lower', other⟩
    have back : ∀ x y : Nat, y = x ^^^ j → x = y ^^^ j := by
      rintro x _ rfl
      rw [Nat.xor_assoc, Nat.xor_self, Nat.xor_zero]
    apply ne
    apply Fin.ext
    -- A lower index is nobody's partner.
    rcases mine with mine | mine <;> rcases other with other | other
    · exact other.unique mine
    · have same := other.unique mine
      have partner := back _ _ same
      omega
    · have same := mine.unique other
      have partner := back _ _ same
      omega
    · have := back _ _ (other.unique mine)
      rw [this, Nat.xor_assoc, Nat.xor_self, Nat.xor_zero]
  within i := by
    unfold bitonicMain
    refine Prog.ensures_ite (fun _ => trivial) fun _ => ?_
    refine Prog.ensures_ite (fun lower => ?_) fun _ => trivial
    have first : ∀ a, Cell c data i a → Pair c data count j i a := fun a inside => ⟨lower, Or.inl inside⟩
    have second : ∀ a, Cell c data (i ^^^ j) a → Pair c data count j i a := fun a inside => ⟨lower, Or.inr inside⟩
    apply ensures_loadAt first
    apply ensures_loadAt second
    refine Prog.ensures_ite (fun _ => ?_) fun _ => trivial
    exact ensures_storeAt_bind first (ensures_storeAt second trivial)

section
variable [AddCommMonoid M] {pc : Codec β M} {pos : Positions M}

theorem flags_raceFree {pred : α → Bool} {indata flags : Nat}
    (apart : ∀ a, c.Covers indata count a → ¬ pc.Covers flags count a) :
    (accessCells β).RaceFree (fun (i : Fin n) a => (i : Nat) < count ∧ (Cell c indata i a ∨ Cell pc flags i a))
      (fun (i : Fin n) a => (i : Nat) < count ∧ Cell pc flags i a) (fun i : Fin n => flagsMain c pc pos pred indata flags count i) m where
  own _ _ wrote := ⟨wrote.1, Or.inr wrote.2⟩
  apart := by
    intro i j a ne ⟨lt, mine⟩ ⟨lt', other⟩
    rcases other with other | other
    · exact apart a (other.covers lt') (mine.covers lt)
    · exact ne (Fin.ext (other.unique mine))
  within i := by
    unfold flagsMain
    refine Prog.ensures_ite (fun lt => ?_) fun _ => trivial
    apply ensures_loadAt fun a inside => ⟨lt, Or.inl inside⟩
    exact ensures_storeAt (fun a inside => ⟨lt, inside⟩) trivial

/-- What an invocation of `scatter.comp` writes, where the elements of `q` pass. -/
def Slot (c : Codec β α) (q : Nat → Bool) (outdata count i a : Nat) : Prop :=
  (i < count ∧ q i = true) ∧ Cell c outdata (Nat.count (q ·) i) a

theorem Slot.covers {q : Nat → Bool} {outdata i a : Nat} (h : Slot c q outdata count i a) : c.Covers outdata count a := by
  obtain ⟨⟨lt, pass⟩, inside⟩ := h
  exact inside.covers ((Nat.count_strict_mono pass lt).trans_le (Nat.count_le _))

theorem scatter_raceFree {q : Nat → Bool} {indata outdata positions : Nat}
    (scanned : ∀ i < count, pos.toNat (pc.get m positions i) = Nat.count (q ·) (i + 1))
    (input : ∀ a, c.Covers indata count a → ¬ c.Covers outdata count a)
    (places : ∀ a, pc.Covers positions count a → ¬ c.Covers outdata count a) :
    (accessCells β).RaceFree (fun (i : Fin n) a => c.Covers indata count a ∨ pc.Covers positions count a ∨ Slot c q outdata count i a)
      (fun i : Fin n => Slot c q outdata count i) (fun i : Fin n => scatterMain c pc pos indata outdata positions count i) m where
  own _ _ wrote := Or.inr (Or.inr wrote)
  apart := by
    intro i j a ne mine other
    rcases other with other | other | other
    · exact input a other mine.covers
    · exact places a other mine.covers
    · exact ne (Fin.ext (Nat.count_injective mine.1.2 other.1.2 (other.2.unique mine.2)))
  within i := by
    unfold scatterMain
    refine Prog.ensures_ite (fun _ => trivial) fun ge => ?_
    have lt : (i : Nat) < count := by omega
    apply ensures_loadAt fun a inside => Or.inr (Or.inl (inside.covers lt))
    have tail : ∀ prev : Nat, prev = Nat.count (q ·) i →
        (if 2 * pos.toNat (pc.get m positions i) > 2 * prev + 1 then
          loadAt c indata i >>= storeAt c outdata (pos.toNat (pc.get m positions i) - 1) else pure ()).Ensures
        ((accessCells β).within (fun a => c.Covers indata count a ∨ pc.Covers positions count a ∨ Slot c q outdata count i a)
          (Slot c q outdata count i)) (fun _ _ => True) m := by
      rintro _ rfl
      rw [scanned i lt, Nat.count_succ]
      refine Prog.ensures_ite (fun more => ?_) fun _ => trivial
      have pass : q i = true := by
        by_contra no
        rw [if_neg no] at more
        omega
      rw [if_pos pass, Nat.add_sub_cancel]
      apply ensures_loadAt fun a inside => Or.inl (inside.covers lt)
      exact ensures_storeAt (fun a inside => ⟨⟨lt, pass⟩, inside⟩) trivial
    by_cases first : (i : Nat) > 0
    · rw [if_pos first, Prog.bind_assoc]
      apply ensures_loadAt fun a inside => Or.inr (Or.inl (inside.covers (by omega)))
      apply tail
      rw [scanned _ (by omega), show (i : Nat) - 1 + 1 = i by omega]
    · rw [if_neg first]
      apply tail
      rw [show (i : Nat) = 0 by omega, Nat.count_zero]

theorem scanAdd_raceFree {c : Codec β M} {data offsets groups : Nat} (fits : n ≤ groups * 256)
    (apart : ∀ a, c.Covers data count a → ¬ c.Covers offsets groups a) :
    (accessCells β).RaceFree (fun (i : Fin n) a => (i : Nat) < count ∧ Cell c data i a ∨ c.Covers offsets groups a)
      (fun (i : Fin n) a => (i : Nat) < count ∧ Cell c data i a) (fun i : Fin n => scanAddMain c data offsets count i) m where
  own _ _ wrote := Or.inl wrote
  apart := by
    intro i j a ne ⟨lt, mine⟩ other
    rcases other with ⟨_, other⟩ | other
    · exact ne (Fin.ext (other.unique mine))
    · exact apart a (mine.covers lt) other
  within i := by
    have bound := i.isLt
    unfold scanAddMain
    refine Prog.ensures_ite (fun ⟨lt, later⟩ => ?_) fun _ => trivial
    apply ensures_loadAt fun a inside => Or.inl ⟨lt, inside⟩
    apply ensures_loadAt fun a inside => Or.inr (inside.covers (by omega))
    exact ensures_storeAt (fun a inside => ⟨lt, inside⟩) trivial

end

theorem map_raceFree {δ : Type} {d : Codec β δ} {f : α → δ} {indata outdata : Nat} (apart : c.Pointwise indata d outdata count) :
    (accessCells β).RaceFree (fun (i : Fin n) a => (i : Nat) < count ∧ (Cell c indata i a ∨ Cell d outdata i a))
      (fun (i : Fin n) a => (i : Nat) < count ∧ Cell d outdata i a) (fun i : Fin n => mapMain c d f indata outdata count i) m where
  own _ _ wrote := ⟨wrote.1, Or.inr wrote.2⟩
  apart := by
    intro i j a ne ⟨lt, mine⟩ ⟨lt', other⟩
    rcases other with other | other
    · have far := apart i lt j lt' fun same => ne (Fin.ext same)
      unfold Cell at mine other
      omega
    · exact ne (Fin.ext (other.unique mine))
  within i := by
    unfold mapMain
    refine Prog.ensures_ite (fun lt => ?_) fun _ => trivial
    apply ensures_loadAt fun a inside => ⟨lt, Or.inl inside⟩
    exact ensures_storeAt (fun a inside => ⟨lt, inside⟩) trivial

end

/-! ### Dispatches -/

/-- A kernel without barriers, with the arrays and the constants of a dispatch. -/
inductive Code (β : Type) : Type 1 where
  | bitonic {α : Type} [LinearOrder α] (c : Codec β α) (data k j : Nat)
  | flags {α M : Type} [AddCommMonoid M] (c : Codec β α) (pc : Codec β M) (pos : Positions M) (pred : α → Bool) (indata flags : Nat)
  | scatter {α M : Type} [AddCommMonoid M] (c : Codec β α) (pc : Codec β M) (pos : Positions M) (indata outdata positions : Nat)
  | scanAdd {M : Type} [AddCommMonoid M] (c : Codec β M) (data offsets : Nat)
  | map {α δ : Type} (c : Codec β α) (d : Codec β δ) (f : α → δ) (indata outdata : Nat)

namespace Code

def main (count i : Nat) : Code β → Prog (accesses β) Unit
  | bitonic c data k j => bitonicMain c data count k j i
  | flags c pc pos pred indata out => flagsMain c pc pos pred indata out count i
  | scatter c pc pos indata outdata positions => scatterMain c pc pos indata outdata positions count i
  | scanAdd c data offsets => scanAddMain c data offsets count i
  | map c d f indata outdata => mapMain c d f indata outdata count i

/-- The same as one step. -/
def invocation (count i : Nat) : Code β → (Nat → β) → Nat → β
  | bitonic c data k j => bitonicInvocation c data count k j i
  | flags c pc pos pred indata out => flagsInvocation c pc pos pred indata out count i
  | scatter c pc pos indata outdata positions => scatterInvocation c pc pos indata outdata positions count i
  | scanAdd c data offsets => scanAddInvocation c data offsets count i
  | map c d f indata outdata => mapInvocation c d f indata outdata count i

/-- What the launchers see to before the dispatch. -/
def Apart (count groups : Nat) (m : Nat → β) : Code β → Prop
  | bitonic _ _ _ _ => True
  | flags c pc _ _ indata out => ∀ a, c.Covers indata count a → ¬ pc.Covers out count a
  | scatter c pc pos indata outdata positions =>
    (∃ q : Nat → Bool, ∀ i < count, pos.toNat (pc.get m positions i) = Nat.count (q ·) (i + 1)) ∧
    (∀ a, c.Covers indata count a → ¬ c.Covers outdata count a) ∧ ∀ a, pc.Covers positions count a → ¬ c.Covers outdata count a
  | scanAdd c data offsets => ∀ a, c.Covers data count a → ¬ c.Covers offsets groups a
  | map c d _ indata outdata => c.Pointwise indata d outdata count

variable {k : Code β} {count groups i : Nat} {m : Nat → β}

theorem main_after : (accessCells β).after (k.main count i) m = k.invocation count i m := by
  cases k with
  | bitonic c data k j => exact bitonicMain_after
  | flags c pc pos pred indata out => exact flagsMain_after
  | scatter c pc pos indata outdata positions => exact scatterMain_after
  | scanAdd c data offsets => exact scanAddMain_after
  | map c d f indata outdata => exact mapMain_after

theorem Apart.raceFree (h : k.Apart count groups m) :
    ∃ D W, (accessCells β).RaceFree D W (fun i : Fin (groups * 256) => k.main count i) m := by
  cases k with
  | bitonic c data k j => exact ⟨_, _, bitonic_raceFree⟩
  | flags c pc pos pred indata out => exact ⟨_, _, flags_raceFree h⟩
  | scatter c pc pos indata outdata positions =>
    obtain ⟨⟨q, scanned⟩, input, places⟩ := h
    exact ⟨_, _, scatter_raceFree scanned input places⟩
  | scanAdd c data offsets => exact ⟨_, _, scanAdd_raceFree le_rfl h⟩
  | map c d f indata outdata => exact ⟨_, _, map_raceFree h⟩

/-- The invocations of the dispatch, which take turns at every access, can end so. -/
def Interleaves (k : Code β) (count groups : Nat) (m m' : Nat → β) : Prop :=
  ∃ ps, Prog.Interleaved (accessCells β).step (fun i : Fin (groups * 256) => k.main count i) m ps m' ∧ Prog.Finished ps

theorem Apart.interleaves_iff (h : k.Apart count groups m) {m' : Nat → β} :
    k.Interleaves count groups m m' ↔ InAnyOrder (groups * 256) (k.invocation count) m m' := by
  obtain ⟨D, W, free⟩ := h.raceFree
  exact interleaved_iff_inAnyOrder (fun i => k.main count i) (fun _ => rfl) free fun _ _ _ => main_after

end Code

/-- No kernel without barriers has a data race, and that its invocations take turns at every access does not show. -/
theorem dispatches_race_free {k : Code β} {count groups : Nat} {m : Nat → β} (apart : k.Apart count groups m) :
    (∀ ps m', Prog.Interleaved (accessCells β).step (fun i : Fin (groups * 256) => k.main count i) m ps m' →
      ¬ (accessCells β).Conflict ps) ∧
    ∀ m', k.Interleaves count groups m m' ↔ InAnyOrder (groups * 256) (k.invocation count) m m' := by
  constructor
  · intro ps m' run
    obtain ⟨D, W, free⟩ := apart.raceFree
    exact free.no_conflict run
  · intro m'
    exact apart.interleaves_iff

/-- A scatter of two numbers of which the first one passed. -/
theorem dispatches_race_free_scatter :
    let k : Code Nat := .scatter Codec.quad Codec.quad ⟨AddMonoidHom.id Nat, id⟩ 0 100 200
    k.Apart 2 1 (fun _ => 1) ∧
    (∀ ps m', Prog.Interleaved (accessCells Nat).step (fun i : Fin (1 * 256) => k.main 2 i) (fun _ => 1) ps m' →
      ¬ (accessCells Nat).Conflict ps) ∧
    ∀ m', k.Interleaves 2 1 (fun _ => 1) m' ↔ InAnyOrder (1 * 256) (k.invocation 2) (fun _ => 1) m' := by
  intro k
  have scanned : ∀ i < 2, id (Codec.quad.get (fun _ => 1) 200 i) = Nat.count (fun j => decide (j = 0) = true) (i + 1) := by decide
  have apart : k.Apart 2 1 fun _ => 1 := by
    refine ⟨⟨fun i => decide (i = 0), scanned⟩, fun a inside out => ?_, fun a inside out => ?_⟩
    · simp only [Codec.Covers, Codec.quad] at inside out
      omega
    · simp only [Codec.Covers, Codec.quad] at inside out
      omega
  exact ⟨apart, dispatches_race_free apart⟩

/-! ### The sort, access by access -/

section
variable {α : Type} [LinearOrder α]

/-- `bitonic.comp` with invocations that take turns at every access. -/
def bitonicDispatch (c : Codec β α) : Shader β :=
  arrayShader c c (fun push _ => push.count) (fun _ _ => 0) fun data _ push groups =>
    (Code.bitonic c data push.stage.1 push.stage.2).Interleaves push.count groups

theorem bitonicDispatch_eq {c : Codec β α} : bitonicDispatch c = bitonicShader c := by
  unfold bitonicDispatch bitonicShader
  congr 1
  funext data _ push groups m m'
  exact propext (Code.Apart.interleaves_iff (k := Code.bitonic c data push.stage.1 push.stage.2) trivial)

variable {c : Codec β α} {A : ArenaModel β} {shaders : String → Shader β} {s : A.State} {kernel : String} {data n fuel devBase : Nat}
  {loaded : String → Bool}

/-- `launch_sort` sorts however the invocations of each of its dispatches take turns. -/
theorem launchSort_interleaved (known : loaded kernel = true) (found : shaders kernel = bitonicDispatch c)
    (valid : A.Valid s) (block : InBlock (A.live s) data (2 ^ n * c.size)) (small : n ≤ 30) (enough : n < fuel) :
    (∃ s', (launchSort (contextOf A loaded devBase) kernel data (2 ^ n) c.size fuel).Run (machineStep A shaders False) s (some true) s') ∧
    ∀ (mayFail : Prop) r s', (launchSort (contextOf A loaded devBase) kernel data (2 ^ n) c.size fuel).Run
      (machineStep A shaders mayFail) s r s' → SortOutcome c A mayFail data n s r s' := by
  have whole : shaders kernel = bitonicShader c := found.trans bitonicDispatch_eq
  exact ⟨launchSort_exists known whole valid block small enough,
    fun mayFail r s' run => (launchSort_ensures known whole valid block small enough).run run⟩

/-- A sort of 256 numbers in the first block of the small arena. -/
theorem launchSort_interleaved_256 :
    let s : Legacy.smallArena.State := (Legacy.twoBlocks, fun a => a * 7919 % 1000)
    let shaders : String → Shader Nat := fun _ => bitonicDispatch Codec.quad
    let sort : Launch Nat (Option Bool) :=
      launchSort (contextOf Legacy.smallArena (fun _ => true) 0) "bitonic" 4096 (2 ^ 8) Codec.quad.size 32
    (∃ s', sort.Run (machineStep Legacy.smallArena shaders False) s (some true) s') ∧
    ∀ (mayFail : Prop) r s', sort.Run (machineStep Legacy.smallArena shaders mayFail) s r s' →
      SortOutcome Codec.quad Legacy.smallArena mayFail 4096 8 s r s' := by
  intro s shaders sort
  apply launchSort_interleaved
  · rfl
  · rfl
  · exact Legacy.twoBlocks_valid _
  · exact Legacy.twoBlocks_first (by decide)
  · decide
  · decide

end

end Parallax.Launcher
