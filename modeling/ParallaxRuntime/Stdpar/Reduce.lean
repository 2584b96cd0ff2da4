import ParallaxRuntime.Launcher.Reduce
import ParallaxRuntime.Numeric.GeneralizedSum
import ParallaxRuntime.Numeric.IntType
import Mathlib.Algebra.BigOperators.Fin
import Mathlib.Data.List.Perm.Subperm

/-!
# `parallax::reduce`

The offloading branch adds the elements in the element type `E` and the initial value
in its type `T` afterwards. The serial branch keeps its sums in `T`, but may add two elements first, in `E`.
-/

namespace Parallax.Stdpar
open Memory Arena Launcher

variable (T E : IntType)

/-- `device_reduce<E>`: `kernel` is what `parallax_reduce` stored, if it was called. -/
def deviceReduce (kernel : Option Int) (data : List Int) (init : Int) : Option Int :=
  match kernel with
  | some gpu => E.add init gpu
  | none => data.foldlM E.add init

/-- The offloading branch of `parallax::reduce`. -/
def reduce (kernel : Option Int) (data : List Int) (init : Int) : Option Int :=
  if data.length = 0 then some init
  else (deviceReduce E kernel data 0).bind fun gpu => T.add init (T.wrap gpu)

/-- What `std::reduce` adds: elements of type `E`, and values of type `T`. -/
inductive Operand where
  | element (x : Int)
  | total (x : Int)
  | undefined

def Operand.value : Operand → Int
  | element x | total x => x
  | undefined => 0

def Operand.stored (r : Option Int) : Operand := r.elim .undefined .total

/-- `a + b`, stored in a variable of type `T`. -/
def plus : Operand → Operand → Operand
  | .element a, .element b => .stored ((E.sum a b).map T.wrap)
  | .element a, .total b => .stored (T.addMixed E b a)
  | .total a, .element b => .stored (T.addMixed E a b)
  | .total a, .total b => .stored (T.add a b)
  | _, _ => .undefined

def operands (data : List Int) (init : Int) : List Operand := .total init :: data.map .element

/-- The serial branch, `std::reduce`, groups and orders as it likes. The result is `none` where an addition is undefined. -/
def SerialReduce (data : List Int) (init : Int) (r : Option Int) : Prop :=
  GeneralizedSum (plus T E) (operands data init) (.stored r)

/-- The reduction kernel adds modulo the width of `E`. -/
def kernelSum (data : List Int) : Int := E.wrap data.sum

section
variable {T E} {kernel : Option Int} {data : List Int} {init : Int}

/-- Adding the elements to `init` one by one is one of the groupings. -/
theorem serialReduce_exact (partials : ∀ k, T.Fits (init + (data.take k).sum)) :
    SerialReduce T E data init (some (init + data.sum)) := by
  have folded : (data.map Operand.element).foldl (plus T E) (.total init) = .total (init + data.sum) := by
    induction data generalizing init with
    | nil => simp
    | cons x data ih =>
      have first : T.Fits (init + x) := by simpa using partials 1
      have step : plus T E (.total init) (.element x) = .total (init + x) := by
        rw [plus, IntType.addMixed_of_fits first]
        rfl
      rw [List.map_cons, List.foldl_cons, step, ih, List.sum_cons, add_assoc]
      intro k
      have := partials (k + 1)
      rw [List.take_succ_cons, List.sum_cons, ← add_assoc] at this
      exact this
  have sum : GeneralizedSum (plus T E) (operands data init) _ := GeneralizedSum.foldl (data.map Operand.element) (Operand.total init)
  rw [folded] at sum
  exact sum

/-- Where addition wraps, the host adds modulo the width of the type. -/
theorem foldlM_add_wrap (wraps : E.checked = false) (x : Int) : data.foldlM E.add (E.wrap x) = some (E.wrap (x + data.sum)) := by
  induction data generalizing x with
  | nil => simp
  | cons a data ih =>
    have step : E.add (E.wrap x) a = some (E.wrap (x + a)) := by
      unfold IntType.add
      rw [wraps, if_neg (by decide), IntType.wrap_wrap_add]
    rw [List.foldlM_cons, step, Option.bind_eq_bind, Option.bind_some, ih, List.sum_cons, add_assoc]

/-- Where it may not overflow, each partial sum has to fit. -/
theorem foldlM_add_checked (checked : E.checked = true) {x y : Int} (fits : E.Fits x) :
    data.foldlM E.add x = some y ↔ x + data.sum = y ∧ ∀ k, E.Fits (x + (data.take k).sum) := by
  induction data generalizing x with
  | nil => simp [fits]
  | cons a data ih =>
    rw [List.foldlM_cons]
    unfold IntType.add
    rw [if_pos checked]
    by_cases next : E.Fits (x + a)
    · rw [if_pos next, Option.bind_eq_bind, Option.bind_some]
      have rest := ih next
      unfold IntType.add at rest
      rw [rest, List.sum_cons, add_assoc]
      refine and_congr Iff.rfl ⟨fun all k => ?_, fun all k => ?_⟩
      · cases k with
        | zero => simpa using fits
        | succ k =>
          rw [List.take_succ_cons, List.sum_cons, ← add_assoc]
          exact all k
      · have := all (k + 1)
        rw [List.take_succ_cons, List.sum_cons, ← add_assoc] at this
        exact this
    · rw [if_neg next]
      refine ⟨fun no => (by cases no), fun ⟨_, all⟩ => absurd ?_ next⟩
      simpa using all 1

theorem deviceReduce_eq_iff (computed : kernel = none ∨ kernel = some (kernelSum E data)) {g : Int} :
    deviceReduce E kernel data 0 = some g ↔
      E.wrap data.sum = g ∧ (kernel = none → E.checked = true → ∀ k, E.Fits (data.take k).sum) := by
  rcases computed with rfl | rfl
  · unfold deviceReduce
    dsimp only
    cases checked : E.checked with
    | true =>
      rw [foldlM_add_checked checked IntType.fits_zero]
      simp only [zero_add, forall_const]
      refine and_congr_left fun all => ?_
      have whole := all data.length
      rw [List.take_length] at whole
      rw [IntType.wrap_of_fits whole]
    | false =>
      have sum : data.foldlM E.add (E.wrap 0) = _ := foldlM_add_wrap checked 0
      rw [IntType.wrap_of_fits IntType.fits_zero, zero_add] at sum
      rw [sum]
      simp
  · have add : E.add 0 (kernelSum E data) = some (kernelSum E data) := by
      unfold IntType.add
      rw [zero_add, kernelSum, IntType.wrap_of_fits (IntType.wrap_fits _), if_pos (IntType.wrap_fits _), ite_self]
    unfold deviceReduce
    dsimp only
    rw [add, kernelSum]
    simp

/-- The sum of the elements passes through `E` and into `T` without loss. -/
def SumSurvives (T E : IntType) (kernel : Option Int) (data : List Int) : Prop :=
  (kernel = none → E.checked = true → ∀ k, E.Fits (data.take k).sum) ∧
  (T.checked = true → T.Fits data.sum) ∧
  (2 ^ T.width : Int) ∣ data.sum - E.wrap data.sum

theorem add_init_iff {g S : Int} (fits : T.Fits (init + S)) :
    T.add init (T.wrap g) = some (init + S) ↔ (T.checked = true → T.Fits S) ∧ (2 ^ T.width : Int) ∣ S - g := by
  unfold IntType.add
  cases checked : T.checked with
  | true =>
    rw [if_pos rfl]
    constructor
    · intro sum
      split at sum
      · have same : T.wrap g = S := by
          rw [Option.some.injEq] at sum
          omega
        obtain ⟨inside, dvd⟩ := IntType.wrap_eq_value_iff.mp same
        exact ⟨fun _ => inside, dvd⟩
      · cases sum
    · rintro ⟨inside, dvd⟩
      rw [IntType.wrap_eq_value_iff.mpr ⟨inside rfl, dvd⟩, if_pos fits]
  | false =>
    rw [if_neg (by decide), Option.some.injEq, IntType.wrap_add_wrap, IntType.wrap_eq_value_iff]
    have step : init + S - (init + g) = S - g := by ring
    rw [step]
    simp [fits]

/-- The offloading branch returns the exact sum exactly if it survives `E`. -/
theorem reduce_exact_iff (partials : ∀ k, T.Fits (init + (data.take k).sum))
    (computed : kernel = none ∨ kernel = some (kernelSum E data)) :
    reduce T E kernel data init = some (init + data.sum) ↔ SumSurvives T E kernel data := by
  have fits : T.Fits (init + data.sum) := by
    have := partials data.length
    rwa [List.take_length] at this
  unfold reduce SumSurvives
  by_cases empty : data.length = 0
  · rw [if_pos empty, List.eq_nil_of_length_eq_zero empty]
    simp [IntType.fits_zero, IntType.wrap_of_fits IntType.fits_zero]
  · rw [if_neg empty, Option.bind_eq_some_iff]
    constructor
    · rintro ⟨g, sum, last⟩
      obtain ⟨rfl, survives⟩ := (deviceReduce_eq_iff computed).mp sum
      exact ⟨survives, (add_init_iff fits).mp last⟩
    · rintro ⟨survives, last⟩
      exact ⟨_, (deviceReduce_eq_iff computed).mpr ⟨rfl, survives⟩, (add_init_iff fits).mpr last⟩

/-! ### Groupings of the serial branch -/

variable (T E) in
/-- A group of operands at its sum in `T`; an element alone is what it is. -/
def group : List Operand → Operand
  | [o] => o
  | l => .total (T.wrap (l.map Operand.value).sum)

variable (T E) in
/-- Whichever two groups of operands are added, their sum comes out. -/
def Regroups (data : List Int) (init : Int) : Prop :=
  ∀ {l k rest : List Operand}, l ≠ [] → k ≠ [] → (operands data init).Perm (l ++ k ++ rest) →
    plus T E (group T l) (group T k) = group T (l ++ k)

theorem group_congr {l k : List Operand} (perm : l.Perm k) : group T l = group T k := by
  have sums := (perm.map Operand.value).sum_eq
  unfold group
  split
  · next o =>
    obtain rfl := List.singleton_perm.mp perm
    rfl
  · next many =>
    split
    · next o => exact absurd (List.perm_singleton.mp perm) (many o)
    · rw [sums]

theorem group_of_two {l : List Operand} (two : 2 ≤ l.length) : group T l = .total (T.wrap (l.map Operand.value).sum) := by
  unfold group
  split
  · simp at two
  · rfl

theorem operands_sum : ((operands data init).map Operand.value).sum = init + data.sum := by
  simp [operands, Operand.value, Function.comp_def]

theorem group_operands (fits : T.Fits (init + data.sum)) : group T (operands data init) = .total (init + data.sum) := by
  cases data with
  | nil => simp [operands, group]
  | cons x data => rw [group_of_two (by simp [operands]), operands_sum, IntType.wrap_of_fits fits]

/-- A value of `T` that differs from `s` by a multiple of its modulus, if it is defined. -/
def Sums (T : IntType) (s : Int) (o : Operand) : Prop :=
  o = .undefined ∨ ∃ v, o = .total v ∧ T.Fits v ∧ (2 ^ T.width : Int) ∣ s - v

theorem sums_stored {s : Int} {r : Option Int} (h : ∀ v ∈ r, T.Fits v ∧ (2 ^ T.width : Int) ∣ s - v) : Sums T s (.stored r) := by
  cases r with
  | none => exact Or.inl rfl
  | some v => exact Or.inr ⟨v, rfl, h v rfl⟩

theorem plus_total (a : Int) (o : Operand) : Sums T (a + o.value) (plus T E (.total a) o) := by
  cases o with
  | element x => exact sums_stored fun v sum => IntType.addMixed_eq_some sum
  | total x => exact sums_stored fun v sum => IntType.add_eq_some sum
  | undefined => exact Or.inl rfl

theorem foldl_undefined (rest : List Operand) : rest.foldl (plus T E) .undefined = .undefined := by
  induction rest with
  | nil => rfl
  | cons x rest ih =>
    cases x with
    | element | total | undefined => exact ih

theorem exists_sums_plus (a b : Operand) : ∃ s, Sums T s (plus T E a b) := by
  cases a with
  | total a => exact ⟨_, plus_total a b⟩
  | undefined => exact ⟨0, Or.inl rfl⟩
  | element a =>
    cases b with
    | element b =>
      cases sum : E.sum a b with
      | none => exact ⟨0, Or.inl (by rw [plus, sum]; rfl)⟩
      | some s =>
        refine ⟨s, Or.inr ⟨T.wrap s, by rw [plus, sum]; rfl, IntType.wrap_fits s, IntType.dvd_sub_wrap s⟩⟩
    | total b => exact ⟨b + a, sums_stored fun v sum => IntType.addMixed_eq_some sum⟩
    | undefined => exact ⟨0, Or.inl rfl⟩

theorem Sums.foldl {s : Int} {o : Operand} (h : Sums T s o) (rest : List Operand) :
    Sums T (s + (rest.map Operand.value).sum) (rest.foldl (plus T E) o) := by
  induction rest generalizing s o with
  | nil => simpa using h
  | cons x rest ih =>
    rw [List.map_cons, List.sum_cons, ← add_assoc, List.foldl_cons]
    apply ih
    rcases h with rfl | ⟨a, rfl, fits, dvd⟩
    · exact Or.inl (foldl_undefined (T := T) (E := E) [x])
    · rcases plus_total (T := T) (E := E) a x with undefined | ⟨v, sum, inside, dvd'⟩
      · exact Or.inl undefined
      · refine Or.inr ⟨v, sum, inside, ?_⟩
        have step : s + x.value - v = (s - a) + (a + x.value - v) := by ring
        rw [step]
        exact dvd_add dvd dvd'

/-- If every grouping of the whole comes to the exact sum, so does every grouping of a part. -/
theorem part_of_unique (unique : ∀ r, SerialReduce T E data init r → r = some (init + data.sum))
    {l rest : List Operand} {o : Operand} (sum : GeneralizedSum (plus T E) l o) (split : (operands data init).Perm (l ++ rest)) :
    o = group T l := by
  cases sum with
  | one => rfl
  | @combine xs ys _ a b left right perm =>
    have two : 2 ≤ l.length := by
      obtain ⟨x, xs, rfl⟩ := left.exists_cons
      obtain ⟨y, ys, rfl⟩ := right.exists_cons
      rw [perm.length_eq, List.length_append, List.length_cons, List.length_cons]
      omega
    have whole : GeneralizedSum (plus T E) (operands data init) _ :=
      ((GeneralizedSum.combine left right perm).foldl_append rest).perm split
    obtain ⟨s, sums⟩ := exists_sums_plus (T := T) (E := E) a b
    have values := (split.map Operand.value).sum_eq
    rw [operands_sum, List.map_append, List.sum_append] at values
    rw [group_of_two two]
    rcases sums with undefined | ⟨v, sum, inside, -⟩
    · rw [undefined, foldl_undefined] at whole
      cases unique none whole
    · rw [sum] at whole ⊢
      have folded := Sums.foldl (T := T) (E := E) (s := v) (o := .total v) (Or.inr ⟨v, rfl, inside, by simp⟩) rest
      rcases folded with lost | ⟨w, total, -, dvd⟩
      · rw [lost] at whole
        cases unique none whole
      · rw [total] at whole
        obtain rfl : w = init + data.sum := Option.some.inj (unique (some w) whole)
        have congruent : (2 ^ T.width : Int) ∣ v - (l.map Operand.value).sum := by
          rw [values, add_sub_add_right_eq_sub] at dvd
          exact dvd
        rw [IntType.wrap_eq_value_iff.mpr ⟨inside, congruent⟩]

/-- Every grouping comes to the exact sum exactly if any two groups do. -/
theorem serialReduce_unique_iff (partials : ∀ k, T.Fits (init + (data.take k).sum)) :
    (∀ r, SerialReduce T E data init r → r = some (init + data.sum)) ↔ Regroups T E data init := by
  have fits : T.Fits (init + data.sum) := by
    have := partials data.length
    rwa [List.take_length] at this
  constructor
  · intro unique l k rest hl hk split
    obtain ⟨x, l, rfl⟩ := List.exists_cons_of_ne_nil hl
    obtain ⟨y, k, rfl⟩ := List.exists_cons_of_ne_nil hk
    have left : GeneralizedSum (plus T E) (x :: l) _ := GeneralizedSum.foldl l x
    have right : GeneralizedSum (plus T E) (y :: k) _ := GeneralizedSum.foldl k y
    have first : (operands data init).Perm (x :: l ++ (y :: k ++ rest)) := by rwa [← List.append_assoc]
    have second : (operands data init).Perm (y :: k ++ (x :: l ++ rest)) := split.trans (GeneralizedSum.append_swap _ _ rest)
    have both := part_of_unique unique (left.combine right (List.Perm.refl _)) split
    rw [part_of_unique unique left first, part_of_unique unique right second] at both
    exact both
  · intro regroups r sum
    have all : (operands data init).Perm (operands data init ++ []) := by simp
    have total : Operand.stored r = group T (operands data init) := sum.eq_part (fun _ => rfl) group_congr regroups all
    rw [group_operands fits] at total
    cases r with
    | none => cases total
    | some r =>
      cases total
      rfl

/-! ### Elements whose sums have room -/

/-- The least and the greatest sum of some of the elements. -/
def leastSum (data : List Int) : Int := (data.map fun x => min x 0).sum
def greatestSum (data : List Int) : Int := (data.map fun x => max x 0).sum

/-- Every sum of some of the elements is a value of `E`, and of `T` with and without `init`. -/
structure Roomy (T E : IntType) (data : List Int) (init : Int) : Prop where
  elements : E.Fits (leastSum data) ∧ E.Fits (greatestSum data)
  totals : T.Fits (leastSum data) ∧ T.Fits (greatestSum data)
  withInit : T.Fits (init + leastSum data) ∧ T.Fits (init + greatestSum data)

theorem sublist_between {xs : List Int} (h : xs.Sublist data) : leastSum data ≤ xs.sum ∧ xs.sum ≤ greatestSum data := by
  unfold leastSum greatestSum
  induction h with
  | slnil => simp
  | cons x _ ih =>
    simp only [List.map_cons, List.sum_cons]
    omega
  | cons_cons x _ ih =>
    simp only [List.map_cons, List.sum_cons]
    omega

namespace Roomy
variable {xs : List Int} {l rest : List Operand}

theorem element (room : Roomy T E data init) (h : xs.Sublist data) : E.Fits xs.sum := by
  obtain ⟨⟨low, -⟩, -, high⟩ := room.elements
  have := sublist_between h
  exact ⟨by omega, by omega⟩

theorem total (room : Roomy T E data init) (h : xs.Sublist data) : T.Fits xs.sum := by
  obtain ⟨⟨low, -⟩, -, high⟩ := room.totals
  have := sublist_between h
  exact ⟨by omega, by omega⟩

theorem initTotal (room : Roomy T E data init) (h : xs.Sublist data) : T.Fits (init + xs.sum) := by
  obtain ⟨⟨low, -⟩, -, high⟩ := room.withInit
  have := sublist_between h
  exact ⟨by omega, by omega⟩

theorem sumSurvives (room : Roomy T E data init) : SumSurvives T E kernel data := by
  have whole := room.element (List.Sublist.refl data)
  refine ⟨fun _ _ k => room.element (List.take_sublist k data), fun _ => room.total (List.Sublist.refl data), ?_⟩
  rw [IntType.wrap_of_fits whole, sub_self]
  exact dvd_zero _

/-- A group is some of the elements, with or without `init`. -/
theorem exists_sublist (split : (operands data init).Perm (l ++ rest)) :
    ∃ xs : List Int, xs.Sublist data ∧ (l.Perm (xs.map .element) ∨ l.Perm (.total init :: xs.map .element)) := by
  obtain ⟨l', perm, sub⟩ : l.Subperm (operands data init) := (List.sublist_append_left l rest).subperm.trans split.symm.subperm
  unfold operands at sub
  cases sub with
  | cons _ sub =>
    obtain ⟨xs, part, rfl⟩ := List.sublist_map_iff.mp sub
    exact ⟨xs, part, Or.inl perm.symm⟩
  | cons_cons _ sub =>
    obtain ⟨xs, part, rfl⟩ := List.sublist_map_iff.mp sub
    exact ⟨xs, part, Or.inr perm.symm⟩

theorem elements_sum (xs : List Int) : ((xs.map Operand.element).map Operand.value).sum = xs.sum := by
  simp [Operand.value, Function.comp_def]

theorem fits (room : Roomy T E data init) (split : (operands data init).Perm (l ++ rest)) :
    T.Fits (l.map Operand.value).sum := by
  obtain ⟨xs, part, perm | perm⟩ := exists_sublist split
  · rw [(perm.map _).sum_eq, elements_sum]
    exact room.total part
  · rw [(perm.map _).sum_eq, List.map_cons, List.sum_cons, elements_sum]
    exact room.initTotal part

theorem group_cases (room : Roomy T E data init) (some : l ≠ []) (split : (operands data init).Perm (l ++ rest)) :
    (∃ x, l = [.element x]) ∨ group T l = .total (l.map Operand.value).sum := by
  have inside := room.fits split
  unfold group
  split
  · next o =>
    cases o with
    | element x => exact Or.inl ⟨x, rfl⟩
    | total x => exact Or.inr (by simp [Operand.value])
    | undefined =>
      have member : Operand.undefined ∈ operands data init := split.mem_iff.mpr (List.mem_cons_self ..)
      simp [operands] at member
  · exact Or.inr (by rw [IntType.wrap_of_fits inside])

theorem regroups (room : Roomy T E data init) : Regroups T E data init := by
  intro l k rest hl hk split
  have two : 2 ≤ (l ++ k).length := by
    have := List.length_pos_of_ne_nil hl
    have := List.length_pos_of_ne_nil hk
    rw [List.length_append]
    omega
  have sum := room.fits split
  have first : (operands data init).Perm (l ++ (k ++ rest)) := by rwa [← List.append_assoc]
  have left := room.group_cases hl first
  have right := room.group_cases hk (split.trans (GeneralizedSum.append_swap l k rest))
  rw [group_of_two two, IntType.wrap_of_fits sum, List.map_append, List.sum_append]
  rw [List.map_append, List.sum_append] at sum
  rcases left with ⟨x, rfl⟩ | left <;> rcases right with ⟨y, rfl⟩ | right
  · -- Two elements are added in `E`.
    have inside : E.Fits (x + y) := by
      obtain ⟨xs, part, perm | perm⟩ := exists_sublist split
      · have pair := (perm.map Operand.value).sum_eq
        rw [elements_sum] at pair
        have value : x + y = xs.sum := by simpa [Operand.value] using pair
        rw [value]
        exact room.element part
      · have member : Operand.total init ∈ [Operand.element x] ++ [.element y] := perm.mem_iff.mpr (List.mem_cons_self ..)
        simp at member
    simp only [List.map_cons, List.map_nil, List.sum_cons, List.sum_nil, Operand.value, add_zero] at sum ⊢
    rw [group, group, plus, IntType.sum_of_fits inside, Option.map_some, IntType.wrap_of_fits sum]
    rfl
  · simp only [List.map_cons, List.map_nil, List.sum_cons, List.sum_nil, Operand.value, add_zero] at sum ⊢
    rw [right, group, plus, add_comm, IntType.addMixed_of_fits (by rwa [add_comm])]
    rfl
  · simp only [List.map_cons, List.map_nil, List.sum_cons, List.sum_nil, Operand.value, add_zero] at sum ⊢
    rw [left, group, plus, IntType.addMixed_of_fits sum]
    rfl
  · rw [left, right, plus, IntType.add_of_fits sum]
    rfl

end Roomy

end

/-- What `launch_reduce` stores for elements of type `E` is the sum modulo its width. -/
theorem kernelSum_of_reduced {β : Type} {E : IntType} {c : Codec β (ZMod (2 ^ E.width))} {A : ArenaModel β} {p result : Nat}
    {data : List Int} {s s' : A.State} {out : Option (Fin c.size → β)} (reduced : Reduced c A p data.length result s out s')
    (values : ∀ i (h : i < data.length), c.get (A.mem s) p i = data[i]) :
    ∃ x, out = some x ∧ c.dec x = (kernelSum E data : ZMod (2 ^ E.width)) := by
  obtain ⟨x, stored, total⟩ := reduced.value
  refine ⟨x, stored, ?_⟩
  have sum : ∑ i ∈ Finset.range data.length, c.get (A.mem s) p i = ((data.sum : Int) : ZMod (2 ^ E.width)) := by
    rw [Finset.sum_range, ← Fin.sum_univ_getElem, Int.cast_sum]
    exact Finset.sum_congr rfl fun i _ => values i i.isLt
  rw [total, sum, kernelSum, IntType.zmod_wrap]

def int32 : IntType := ⟨true, 32, by decide⟩
def int64 : IntType := ⟨true, 64, by decide⟩
def uint32 : IntType := ⟨false, 32, by decide⟩
def uint64 : IntType := ⟨false, 64, by decide⟩

theorem roomy_small : Roomy int64 int32 [5, -7] 3 := ⟨by decide, by decide, by decide⟩

/-- With two elements added first, the serial branch loses the same bit. -/
example : SerialReduce uint64 uint32 [2 ^ 32 - 1, 1, 0, 0] 0 (some 0) := by
  have front : GeneralizedSum (plus uint64 uint32) [.element (2 ^ 32 - 1), .element 1] (.total 0) :=
    (GeneralizedSum.one (Operand.element (2 ^ 32 - 1))).combine (.one (.element 1)) (List.Perm.refl _)
  have back : GeneralizedSum (plus uint64 uint32) [.element 0, .element 0] (.total 0) :=
    (GeneralizedSum.one (Operand.element 0)).combine (.one (.element 0)) (List.Perm.refl _)
  exact (GeneralizedSum.one (Operand.total 0)).combine (front.combine back (List.Perm.refl _)) (List.Perm.refl _)

end Parallax.Stdpar
