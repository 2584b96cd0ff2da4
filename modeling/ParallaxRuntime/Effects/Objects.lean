import ParallaxRuntime.Effects.Prog
import Mathlib.Data.Multiset.UnionInter
import Mathlib.Data.Set.Finite.Basic
import Mathlib.Logic.Function.Basic

/-!
# Objects that are made, changed and dropped

A program makes objects, holds their handles, changes them and drops them. Who owns which handles
is a multiset of them over the objects of everybody else, which stay as they are.
-/

namespace Parallax.Effects

/-- What each live handle is of. -/
abbrev Store (ι δ : Type) := ι → Option δ

inductive ObjectOp (ι δ χ ω : Type) where
  | make (d : δ)
  | change (i : ι) (c : χ)
  | drop (i : ι)
  | ask (q : ω)

/-- Making and changing an object may fail. -/
abbrev objects (ι δ χ ω : Type) (Ans : ω → Type) : Sig where
  Op := ObjectOp ι δ χ ω
  Res
    | .make _ => Option ι
    | .change _ _ => Bool
    | .drop _ => Unit
    | .ask q => Ans q

/-- What a call needs to be alive, and what may come of it. -/
structure Rules (ι δ χ ω : Type) (Ans : ω → Type) where
  needs : δ → Store ι δ → Prop
  changes : χ → ι → Store ι δ → Prop
  frees : ι → Store ι δ → Prop
  allows : ω → Store ι δ → Prop
  fits : δ → Store ι δ → ι → Prop
  fails : δ → Prop
  becomes : χ → δ → δ
  tells : (q : ω) → Store ι δ → Ans q → Prop

section
variable {ι δ χ ω : Type} {Ans : ω → Type} [DecidableEq ι]

/-- A new handle is one that is not in use. Only what is alive is changed or dropped. -/
def Rules.handler (R : Rules ι δ χ ω Ans) : Handler (objects ι δ χ ω Ans) (Store ι δ) where
  pre
    | .make d, w => R.needs d w
    | .change i c, w => w i ≠ none ∧ R.changes c i w
    | .drop i, w => w i ≠ none ∧ R.frees i w
    | .ask q, w => R.allows q w
  step
    | .make d, w, none, w' => R.fails d ∧ w' = w
    | .make d, w, some i, w' => R.fits d w i ∧ w i = none ∧ w' = Function.update w i (some d)
    | .change i c, w, true, w' => w' = Function.update w i ((w i).map (R.becomes c))
    | .change i c, w, false, w' => (∀ d, w i = some d → R.fails (R.becomes c d)) ∧ w' = w
    | .drop i, w, _, w' => w' = Function.update w i none
    | .ask q, w, a, w' => R.tells q w a ∧ w' = w

/-- The handles `hs` are alive, and everything else is as in `base`, where they are not. -/
structure Owns (hs : Multiset ι) (base w : Store ι δ) : Prop where
  nodup : hs.Nodup
  live : ∀ i ∈ hs, w i ≠ none
  fresh : ∀ i ∈ hs, base i = none
  rest : ∀ i, i ∉ hs → w i = base i

variable {hs gs : Multiset ι} {base w mid : Store ι δ} {i j : ι} {d : δ}

omit [DecidableEq ι] in
theorem owns_zero : Owns 0 base w ↔ w = base := by
  constructor
  · intro h
    exact funext fun i => h.rest i (Multiset.notMem_zero i)
  · rintro rfl
    exact ⟨Multiset.nodup_zero, by simp, by simp, fun _ _ => rfl⟩

omit [DecidableEq ι] in
/-- The objects of everybody else are as they were. -/
theorem Owns.kept (h : Owns hs base w) (found : base i = some d) : w i = some d := by
  rw [← found]
  apply h.rest
  intro mine
  rw [h.fresh i mine] at found
  cases found

omit [DecidableEq ι] in
theorem Owns.same (h : Owns hs base w) (alive : base i ≠ none) : w i = base i := by
  apply h.rest
  intro mine
  exact alive (h.fresh i mine)

/-- A new object takes no one's place. -/
theorem update_kept {d' : δ} (new : w j = none) (found : w i = some d) : Function.update w j (some d') i = some d := by
  have : i ≠ j := by
    rintro rfl
    rw [new] at found
    cases found
  rw [Function.update_of_ne this, found]

theorem Owns.make (h : Owns hs base w) (new : w i = none) : Owns (i ::ₘ hs) base (Function.update w i (some d)) := by
  have other : i ∉ hs := fun mine => h.live i mine new
  constructor
  · exact Multiset.nodup_cons.mpr ⟨other, h.nodup⟩
  · intro j hj
    rcases Multiset.mem_cons.mp hj with rfl | hj
    · simp
    · have : j ≠ i := ne_of_mem_of_not_mem hj other
      rw [Function.update_of_ne this]
      exact h.live j hj
  · intro j hj
    rcases Multiset.mem_cons.mp hj with rfl | hj
    · rw [← h.rest j other]
      exact new
    · exact h.fresh j hj
  · intro j hj
    have : j ≠ i ∧ j ∉ hs := by simpa using hj
    rw [Function.update_of_ne this.1]
    exact h.rest j this.2

theorem Owns.change (h : Owns hs base w) (mine : i ∈ hs) : Owns hs base (Function.update w i (some d)) := by
  refine ⟨h.nodup, ?_, h.fresh, ?_⟩
  · intro j hj
    by_cases same : j = i
    · subst same
      simp
    · rw [Function.update_of_ne same]
      exact h.live j hj
  · intro j hj
    rw [Function.update_of_ne (ne_of_mem_of_not_mem mine hj).symm]
    exact h.rest j hj

theorem Owns.drop (h : Owns (i ::ₘ hs) base w) : Owns hs base (Function.update w i none) := by
  obtain ⟨other, nodup⟩ := Multiset.nodup_cons.mp h.nodup
  constructor
  · exact nodup
  · intro j hj
    have : j ≠ i := ne_of_mem_of_not_mem hj other
    rw [Function.update_of_ne this]
    exact h.live j (Multiset.mem_cons_of_mem hj)
  · intro j hj
    exact h.fresh j (Multiset.mem_cons_of_mem hj)
  · intro j hj
    by_cases same : j = i
    · subst same
      rw [Function.update_self]
      exact (h.fresh j (Multiset.mem_cons_self j hs)).symm
    · rw [Function.update_of_ne same]
      exact h.rest j (by simp [same, hj])

omit [DecidableEq ι] in
/-- Two owners side by side: the second one's objects are on top of the first one's. -/
theorem owns_add : Owns (hs + gs) base w ↔ ∃ mid, Owns hs base mid ∧ Owns gs mid w := by
  classical
  constructor
  · intro h
    obtain ⟨nodup, nodup', apart⟩ := Multiset.nodup_add.mp h.nodup
    refine ⟨fun i => if i ∈ gs then none else w i, ⟨nodup, ?_, ?_, ?_⟩, ⟨nodup', ?_, ?_, ?_⟩⟩
    · intro i hi
      rw [if_neg (Multiset.disjoint_left.mp apart hi)]
      exact h.live i (Multiset.mem_add.mpr (.inl hi))
    · intro i hi
      exact h.fresh i (Multiset.mem_add.mpr (.inl hi))
    · intro i hi
      by_cases theirs : i ∈ gs
      · rw [if_pos theirs, h.fresh i (Multiset.mem_add.mpr (.inr theirs))]
      · rw [if_neg theirs]
        exact h.rest i (by simp [hi, theirs])
    · intro i hi
      exact h.live i (Multiset.mem_add.mpr (.inr hi))
    · intro i hi
      exact if_pos hi
    · intro i hi
      exact (if_neg hi).symm
  · rintro ⟨mid, h, h'⟩
    have apart : Disjoint hs gs := by
      rw [Multiset.disjoint_left]
      intro i hi hi'
      exact h.live i hi (h'.fresh i hi')
    refine ⟨Multiset.nodup_add.mpr ⟨h.nodup, h'.nodup, apart⟩, ?_, ?_, ?_⟩
    · intro i hi
      rcases Multiset.mem_add.mp hi with hi | hi
      · rw [h'.rest i (Multiset.disjoint_left.mp apart hi)]
        exact h.live i hi
      · exact h'.live i hi
    · intro i hi
      rcases Multiset.mem_add.mp hi with hi | hi
      · exact h.fresh i hi
      · by_cases mine : i ∈ hs
        · exact h.fresh i mine
        · rw [← h.rest i mine]
          exact h'.fresh i hi
    · intro i hi
      have : i ∉ hs ∧ i ∉ gs := by simpa using hi
      rw [h'.rest i this.2, h.rest i this.1]

/-! ### Progress -/

/-- Finitely many objects are alive, with good handles. -/
structure Few (good : ι → Prop) (w : Store ι δ) : Prop where
  finite : {i | w i ≠ none}.Finite
  good : ∀ i, w i ≠ none → good i

omit [DecidableEq ι] in
theorem Few.of_live {good : ι → Prop} {w' : Store ι δ} (h : Few good w) (live : ∀ i, w' i ≠ none → w i ≠ none) : Few good w' :=
  ⟨h.finite.subset live, fun i alive => h.good i (live i alive)⟩

theorem Few.make {good : ι → Prop} (h : Few good w) (fine : good i) : Few good (Function.update w i (some d)) := by
  have live : ∀ j, Function.update w i (some d) j ≠ none → j = i ∨ w j ≠ none := by
    intro j alive
    by_cases same : j = i
    · exact Or.inl same
    · rw [Function.update_of_ne same] at alive
      exact Or.inr alive
  refine ⟨(h.finite.insert i).subset live, fun j alive => ?_⟩
  rcases live j alive with rfl | old
  · exact fine
  · exact h.good j old

/-- While few objects are alive there is a handle for one more, and every question has an answer. -/
structure Rules.Roomy (R : Rules ι δ χ ω Ans) (good : ι → Prop) : Prop where
  make : ∀ d w, Few good w → R.needs d w → R.fails d ∨ ∃ i, good i ∧ R.fits d w i ∧ w i = none
  ask : ∀ q w, Few good w → R.allows q w → ∃ a, R.tells q w a

theorem Rules.Roomy.progress {R : Rules ι δ χ ω Ans} {good : ι → Prop} (roomy : R.Roomy good) (o : ObjectOp ι δ χ ω)
    (w : Store ι δ) (few : Few good w) (pre : R.handler.pre o w) : ∃ x w', R.handler.step o w x w' ∧ Few good w' := by
  cases o with
  | make d =>
    rcases roomy.make d w few pre with fails | ⟨i, fine, fits, new⟩
    · exact ⟨none, w, ⟨fails, rfl⟩, few⟩
    · exact ⟨some i, _, ⟨fits, new, rfl⟩, few.make fine⟩
  | change i c =>
    refine ⟨true, _, rfl, few.of_live fun j alive => ?_⟩
    by_cases same : j = i
    · subst same
      exact pre.1
    · rw [Function.update_of_ne same] at alive
      exact alive
  | drop i =>
    refine ⟨(), _, rfl, few.of_live fun j alive => ?_⟩
    have other : j ≠ i := by
      rintro rfl
      exact alive (Function.update_self ..)
    rw [Function.update_of_ne other] at alive
    exact alive
  | ask q =>
    obtain ⟨a, tells⟩ := roomy.ask q w few pre
    exact ⟨a, w, ⟨tells, rfl⟩, few⟩

/-! ### Rules of programs -/

section
variable {R : Rules ι δ χ ω Ans} {α : Type} {Q : α → Store ι δ → Prop}

theorem ensures_make {k : Option ι → Prog (objects ι δ χ ω Ans) α} (owns : Owns hs base w) (needs : R.needs d w)
    (no : R.fails d → (k none).Ensures R.handler Q w)
    (yes : ∀ i, R.fits d w i → w i = none → Owns (i ::ₘ hs) base (Function.update w i (some d)) →
      (k (some i)).Ensures R.handler Q (Function.update w i (some d))) :
    (Prog.op (S := objects ι δ χ ω Ans) (.make d) >>= k).Ensures R.handler Q w := by
  refine ⟨needs, fun x w₁ step => ?_⟩
  cases x with
  | none =>
    obtain ⟨fails, rfl⟩ := step
    exact no fails
  | some i =>
    obtain ⟨fits, new, rfl⟩ := step
    exact yes i fits new (owns.make new)

/-- The change is made, or refused. -/
theorem ensures_change {c : χ} {k : Bool → Prog (objects ι δ χ ω Ans) α} (owns : Owns hs base w) (mine : i ∈ hs)
    (found : w i = some d) (changes : R.changes c i w) (no : R.fails (R.becomes c d) → (k false).Ensures R.handler Q w)
    (yes : Owns hs base (Function.update w i (some (R.becomes c d))) →
      (k true).Ensures R.handler Q (Function.update w i (some (R.becomes c d)))) :
    (Prog.op (S := objects ι δ χ ω Ans) (.change i c) >>= k).Ensures R.handler Q w := by
  refine ⟨⟨owns.live i mine, changes⟩, fun ok w₁ step => ?_⟩
  cases ok with
  | false =>
    obtain ⟨fails, rfl⟩ := step
    exact no (fails d found)
  | true =>
    obtain rfl : w₁ = Function.update w i ((w i).map (R.becomes c)) := step
    rw [found]
    exact yes (owns.change mine)

theorem ensures_drop {k : Unit → Prog (objects ι δ χ ω Ans) α} (owns : Owns (i ::ₘ hs) base w) (frees : R.frees i w)
    (rest : Owns hs base (Function.update w i none) → (k ()).Ensures R.handler Q (Function.update w i none)) :
    (Prog.op (S := objects ι δ χ ω Ans) (.drop i) >>= k).Ensures R.handler Q w := by
  refine ⟨⟨owns.live i (Multiset.mem_cons_self i hs), frees⟩, fun x w₁ step => ?_⟩
  obtain rfl : w₁ = Function.update w i none := step
  exact rest owns.drop

theorem ensures_ask {q : ω} {k : Ans q → Prog (objects ι δ χ ω Ans) α} (allows : R.allows q w)
    (rest : ∀ a, R.tells q w a → (k a).Ensures R.handler Q w) :
    (Prog.op (S := objects ι δ χ ω Ans) (.ask q) >>= k).Ensures R.handler Q w := by
  refine ⟨allows, fun x w₁ step => ?_⟩
  obtain ⟨tells, rfl⟩ := step
  exact rest x tells

end

end

end Parallax.Effects
