import Mathlib.Order.Lattice
import Mathlib.Order.Monotone.Basic

/-!
# Extrema of an array, and of its blocks

Both orders come in two directions: of values, for the least or the greatest, and of
positions, for the first or the last of several.
-/

namespace Parallax.Kernel

/-- `a` comes before `b`, or after it if the order is reversed. -/
def Ahead {α : Type} [LT α] (reversed : Bool) (a b : α) : Prop := if reversed then b < a else a < b

section
variable {α δ : Type} [LinearOrder α] [LinearOrder δ] {reversed : Bool} {a b c : α}

instance : Decidable (Ahead reversed a b) := inferInstanceAs (Decidable (if reversed then b < a else a < b))

theorem ahead_irrefl : ¬ Ahead reversed a a := by
  cases reversed <;> simp [Ahead]

theorem Ahead.trans (h : Ahead reversed a b) (h' : Ahead reversed b c) : Ahead reversed a c := by
  cases reversed with
  | false => exact lt_trans (α := α) h h'
  | true => exact lt_trans (α := α) h' h

theorem Ahead.asymm (h : Ahead reversed a b) : ¬ Ahead reversed b a := fun h' => ahead_irrefl (h.trans h')

theorem ahead_trichotomy (reversed : Bool) (a b : α) : Ahead reversed a b ∨ a = b ∨ Ahead reversed b a := by
  cases reversed with
  | false => simpa [Ahead] using lt_trichotomy a b
  | true =>
    have := lt_trichotomy b a
    simp only [Ahead, if_true]
    rcases this with lt | eq | gt
    · exact Or.inl lt
    · exact Or.inr (Or.inl eq.symm)
    · exact Or.inr (Or.inr gt)

/-- Order survives a monotone function backwards. -/
theorem Ahead.of_map {f : α → δ} (mono : Monotone f) (h : Ahead reversed (f a) (f b)) : Ahead reversed a b := by
  cases reversed with
  | false => exact mono.reflect_lt h
  | true => exact mono.reflect_lt h

end

section
variable {γ : Type} [LinearOrder γ]

/-- The element at `i` is a better answer than the one at `j`. -/
def Beats (wantMax wantLast : Bool) (x : Nat → γ) (i j : Nat) : Prop :=
  Ahead wantMax (x i) (x j) ∨ x i = x j ∧ Ahead wantLast i j

/-- The best answer among the positions in `P`. -/
def Best (wantMax wantLast : Bool) (x : Nat → γ) (P : Nat → Prop) (i : Nat) : Prop :=
  P i ∧ ∀ j, P j → j ≠ i → Beats wantMax wantLast x i j

variable {m l : Bool} {x : Nat → γ} {P Q : Nat → Prop} {i j k : Nat}

instance : Decidable (Beats m l x i j) := inferInstanceAs (Decidable (_ ∨ _))

theorem Beats.trans (h : Beats m l x i j) (h' : Beats m l x j k) : Beats m l x i k := by
  rcases h with ahead | ⟨same, first⟩
  · rcases h' with ahead' | ⟨same', _⟩
    · exact Or.inl (ahead.trans ahead')
    · exact Or.inl (same' ▸ ahead)
  · rcases h' with ahead' | ⟨same', first'⟩
    · exact Or.inl (same ▸ ahead')
    · exact Or.inr ⟨same.trans same', first.trans first'⟩

theorem Beats.asymm (h : Beats m l x i j) : ¬ Beats m l x j i := by
  intro h'
  rcases h.trans h' with ahead | ⟨_, first⟩
  · exact ahead_irrefl ahead
  · exact ahead_irrefl first

theorem beats_total (ne : i ≠ j) : Beats m l x i j ∨ Beats m l x j i := by
  rcases ahead_trichotomy m (x i) (x j) with ahead | same | ahead
  · exact Or.inl (Or.inl ahead)
  · rcases ahead_trichotomy l i j with first | same' | first
    · exact Or.inl (Or.inr ⟨same, first⟩)
    · exact absurd same' ne
    · exact Or.inr (Or.inr ⟨same.symm, first⟩)
  · exact Or.inr (Or.inl ahead)

theorem Best.unique (h : Best m l x P i) (h' : Best m l x P j) : i = j := by
  by_contra ne
  exact (h.2 j h'.1 (Ne.symm ne)).asymm (h'.2 i h.1 ne)

theorem Best.not_ahead (h : Best m l x P i) (hj : P j) : ¬ Ahead m (x j) (x i) := by
  intro ahead
  by_cases same : j = i
  · rw [same] at ahead
    exact ahead_irrefl ahead
  · rcases h.2 j hj same with first | ⟨equal, _⟩
    · exact ahead.asymm first
    · rw [equal] at ahead
      exact ahead_irrefl ahead

/-- Of the positions with the best value, the best is first. -/
theorem Best.not_first (h : Best m l x P i) (hj : P j) (same : x j = x i) : ¬ Ahead l j i := by
  intro first
  have ne : j ≠ i := fun eq => ahead_irrefl (eq ▸ first)
  rcases h.2 j hj ne with ahead | ⟨_, first'⟩
  · rw [same] at ahead
    exact ahead_irrefl ahead
  · exact first.asymm first'

theorem Best.mono (h : Best m l x P i) (sub : ∀ j, Q j → P j) (hi : Q i) : Best m l x Q i :=
  ⟨hi, fun j hj => h.2 j (sub j hj)⟩

theorem Best.congr {y : Nat → γ} (h : Best m l x P i) (same : ∀ j, P j → x j = y j) : Best m l y P i := by
  refine ⟨h.1, fun j hj ne => ?_⟩
  have better := h.2 j hj ne
  unfold Beats at better ⊢
  rw [← same i h.1, ← same j hj]
  exact better

/-- One more position: it is the best, or the best stays. -/
theorem Best.insert (h : Best m l x P i) (k : Nat) :
    Best m l x (fun j => P j ∨ j = k) (if Beats m l x k i then k else i) := by
  split
  · next better =>
    refine ⟨Or.inr rfl, fun j hj ne => ?_⟩
    rcases hj with hj | rfl
    · by_cases same : j = i
      · exact same ▸ better
      · exact better.trans (h.2 j hj same)
    · exact absurd rfl ne
  · next worse =>
    refine ⟨Or.inl h.1, fun j hj ne => ?_⟩
    rcases hj with hj | rfl
    · exact h.2 j hj ne
    · exact (beats_total ne).resolve_left worse

theorem exists_best (x : Nat → γ) {n : Nat} (bound : ∀ i, P i → i < n) (some : ∃ i, P i) : ∃ i, Best m l x P i := by
  induction n generalizing P with
  | zero =>
    obtain ⟨i, hi⟩ := some
    exact absurd (bound i hi) (Nat.not_lt_zero i)
  | succ n ih =>
    by_cases fewer : ∃ i, P i ∧ i < n
    · obtain ⟨i, best⟩ := ih (P := fun i => P i ∧ i < n) (fun i hi => hi.2) fewer
      by_cases last : P n
      · have more := best.insert n
        refine ⟨_, more.mono (fun j hj => ?_) ?_⟩
        · rcases Nat.lt_succ_iff_lt_or_eq.mp (bound j hj) with lt | same
          · exact Or.inl ⟨hj, lt⟩
          · exact Or.inr same
        · split
          · exact last
          · exact best.1.1
      · refine ⟨i, best.mono (fun j hj => ⟨hj, ?_⟩) best.1.1⟩
        exact Nat.lt_of_le_of_ne (Nat.le_of_lt_succ (bound j hj)) fun same => last (same ▸ hj)
    · obtain ⟨i, hi⟩ := some
      have only : ∀ j, P j → j = n := fun j hj => by
        have := bound j hj
        have : ¬ j < n := fun lt => fewer ⟨j, hj, lt⟩
        omega
      exact ⟨i, hi, fun j hj ne => absurd ((only j hj).trans (only i hi).symm) ne⟩

end

/-! ### The best of the winners of the blocks -/

section
variable {γ δ : Type} [LinearOrder γ] {m l : Bool} {x : Nat → γ} {f : γ → δ} {P : Nat → Prop} {block w : Nat → Nat}
  {i r : Nat}

/-- Wherever `f` does not tell an element from the extremum, the extremum is also in this
block or in one that is looked at before. -/
def Told (m l : Bool) (x : Nat → γ) (f : γ → δ) (P : Nat → Prop) (block : Nat → Nat) : Prop :=
  ∀ e i, P e → P i → (∀ j, P j → ¬ Ahead m (x j) (x e)) → f (x i) = f (x e) →
    ∃ j, P j ∧ x j = x e ∧ ¬ Ahead l (block i) (block j)

theorem told_of_injective (h : ∀ i j, P i → P j → f (x i) = f (x j) → x i = x j) : Told m l x f P block := by
  intro e i he hi _ same
  exact ⟨i, hi, h i e hi he same, ahead_irrefl⟩

variable [LinearOrder δ] (mono : Monotone f) (steps : Monotone block)
  (winners : ∀ i, P i → Best m l x (fun j => P j ∧ block j = block i) (w (block i)))
  (best : Best m l (fun i => f (x i)) (fun i => ∃ j, P j ∧ i = w (block j)) r)
include mono steps winners best

theorem best_iff_of_best (right : Best m l x P i) :
    r = i ↔ ∀ k, P k → f (x k) = f (x i) → ∃ j, P j ∧ x j = x i ∧ ¬ Ahead l (block k) (block j) := by
  have own : i = w (block i) :=
    (right.mono (fun j hj => hj.1) ⟨right.1, rfl⟩).unique (winners i right.1)
  have behind : ∀ k, P k → ¬ Ahead m (f (x k)) (f (x i)) := fun k hk ahead => right.not_ahead hk (ahead.of_map mono)
  constructor
  · rintro rfl k hk same
    refine ⟨r, right.1, rfl, fun earlier => ?_⟩
    -- The winner of that block is not told from the extremum either, and it comes first.
    have winner := winners k hk
    have level : f (x (w (block k))) = f (x r) := by
      rcases ahead_trichotomy m (f (x (w (block k)))) (f (x r)) with ahead | equal | ahead
      · exact absurd ahead (behind _ winner.1.1)
      · exact equal
      · exact absurd (Ahead.of_map mono (same ▸ ahead)) (winner.not_ahead ⟨hk, rfl⟩)
    have first : Ahead l (w (block k)) r := by
      apply Ahead.of_map steps
      rw [winner.1.2]
      exact earlier
    exact best.not_first ⟨k, hk, rfl⟩ level first
  · intro told
    obtain ⟨k, hk, rfl⟩ := best.1
    have winner := winners k hk
    by_contra ne
    have level : f (x (w (block k))) = f (x i) := by
      rcases best.2 i ⟨i, right.1, own⟩ (Ne.symm ne) with ahead | ⟨equal, _⟩
      · exact absurd ahead (behind _ winner.1.1)
      · exact equal
    obtain ⟨j, hj, same, later⟩ := told (w (block k)) winner.1.1 level
    rw [winner.1.2] at later
    have before : ¬ Ahead l (block j) (block i) := fun ahead => right.not_first hj same (ahead.of_map steps)
    have after : ¬ Ahead l (block i) (block k) := by
      intro ahead
      exact best.not_first ⟨i, right.1, own⟩ level.symm ((winner.1.2.symm ▸ ahead : Ahead l (block i) (block (w (block k)))).of_map steps)
    have together : block i = block k := by
      rcases ahead_trichotomy l (block i) (block k) with ahead | same | ahead
      · exact absurd ahead after
      · exact same
      · rcases ahead_trichotomy l (block k) (block j) with ahead' | same' | ahead'
        · exact absurd ahead' later
        · exact absurd (same' ▸ ahead) before
        · exact absurd (ahead'.trans ahead) before
    exact ne (by rw [own, together])

/-- The best of the winners, compared through `f`, is the best of all exactly if `f` tells
the extremum from what is looked at before it. -/
theorem best_iff_told (some : ∃ i, Best m l x P i) : Best m l x P r ↔ Told m l x f P block := by
  obtain ⟨i, right⟩ := some
  have iff := best_iff_of_best mono steps winners best right
  constructor
  · intro h e k he hk extreme same
    obtain rfl := h.unique right
    have level : x e = x r := by
      rcases ahead_trichotomy m (x e) (x r) with ahead | equal | ahead
      · exact absurd ahead (right.not_ahead he)
      · exact equal
      · exact absurd ahead (extreme r right.1)
    obtain ⟨j, hj, equal, later⟩ := iff.mp rfl k hk (by rw [same, level])
    exact ⟨j, hj, equal.trans level.symm, later⟩
  · intro told
    rw [iff.mpr fun k hk same => told i k right.1 hk (fun j hj => right.not_ahead hj) same]
    exact right

end

end Parallax.Kernel
