import Mathlib.Data.List.Induction
import Mathlib.Data.List.Perm.Basic

/-!
# Generalized sums

A list is combined by a binary operation in any grouping and any order. For an associative and
commutative operation all of them come to the fold from the left.
-/

namespace Parallax

inductive GeneralizedSum {T : Type} (op : T → T → T) : List T → T → Prop
  | one (a : T) : GeneralizedSum op [a] a
  | combine {xs ys zs : List T} {a b : T} : GeneralizedSum op xs a → GeneralizedSum op ys b → zs.Perm (xs ++ ys) →
      GeneralizedSum op zs (op a b)

namespace GeneralizedSum
variable {T : Type} {op : T → T → T} {xs : List T} {a r : T}

theorem exists_cons (h : GeneralizedSum op xs r) : ∃ x l, xs = x :: l := by
  induction h with
  | one a => exact ⟨a, [], rfl⟩
  | @combine xs ys zs _ _ _ _ perm left _ =>
    obtain ⟨x, l, rfl⟩ := left
    cases zs with
    | nil => simp at perm
    | cons z zs => exact ⟨z, zs, rfl⟩

theorem cons (h : GeneralizedSum op xs r) (a : T) : GeneralizedSum op (a :: xs) (op a r) :=
  combine (one a) h (List.Perm.refl _)

theorem foldl (xs : List T) (a : T) : GeneralizedSum op (a :: xs) (xs.foldl op a) := by
  induction xs using List.reverseRecOn with
  | nil => exact one a
  | append_singleton xs x ih =>
    rw [List.foldl_append]
    exact combine ih (one x) (List.Perm.refl _)

theorem of_singleton (h : GeneralizedSum op [a] r) : r = a := by
  cases h with
  | one => rfl
  | combine left right perm =>
    obtain ⟨x, xs, rfl⟩ := left.exists_cons
    obtain ⟨y, ys, rfl⟩ := right.exists_cons
    simpa using perm.length_eq

theorem perm {zs : List T} (h : GeneralizedSum op xs r) (perm : zs.Perm xs) : GeneralizedSum op zs r := by
  cases h with
  | one a =>
    obtain rfl := List.perm_singleton.mp perm
    exact one r
  | combine left right split => exact combine left right (perm.trans split)

theorem foldl_append (h : GeneralizedSum op xs r) (rest : List T) : GeneralizedSum op (xs ++ rest) (rest.foldl op r) := by
  induction rest using List.reverseRecOn with
  | nil => simpa using h
  | append_singleton rest x ih =>
    rw [List.foldl_append, ← List.append_assoc]
    exact combine ih (one x) (List.Perm.refl _)

theorem append_swap (l k rest : List T) : (l ++ k ++ rest).Perm (k ++ (l ++ rest)) := by
  rw [← List.append_assoc]
  exact List.perm_append_comm.append_right rest

/-- Where any two parts of a list combine to what `part` says of both together, each part comes to what it says. -/
theorem eq_part {part : List T → T} (single : ∀ x, part [x] = x) (congr : ∀ {l k : List T}, l.Perm k → part l = part k)
    {whole : List T} (parts : ∀ {l k rest : List T}, l ≠ [] → k ≠ [] → whole.Perm (l ++ k ++ rest) → op (part l) (part k) = part (l ++ k))
    (h : GeneralizedSum op xs r) {rest : List T} (split : whole.Perm (xs ++ rest)) : r = part xs := by
  induction h generalizing rest with
  | one x => rw [single]
  | @combine xs ys zs _ _ left right perm ihl ihr =>
    have both := split.trans (perm.append_right rest)
    have first : whole.Perm (xs ++ (ys ++ rest)) := by rwa [← List.append_assoc]
    have second : whole.Perm (ys ++ (xs ++ rest)) := both.trans (append_swap xs ys rest)
    rw [ihl first, ihr second, parts _ _ both, congr perm]
    · obtain ⟨x, l, rfl⟩ := left.exists_cons
      simp
    · obtain ⟨x, l, rfl⟩ := right.exists_cons
      simp

variable [Std.Associative op] [Std.Commutative op]

theorem foldl_perm {x y : T} {l k : List T} (perm : (x :: l).Perm (y :: k)) : l.foldl op x = k.foldl op y := by
  have right : RightCommutative op := inferInstance
  by_cases same : x = y
  · subst same
    exact perm.cons_inv.foldl_eq x
  · have inside : y ∈ l := by
      have := perm.mem_iff.mpr (List.mem_cons_self ..)
      simpa [Ne.symm same] using this
    obtain ⟨rest, split⟩ : ∃ rest, l.Perm (y :: rest) := by
      classical
      exact ⟨l.erase y, List.perm_cons_erase inside⟩
    have tail : k.Perm (x :: rest) := by
      have swapped : (y :: x :: rest).Perm (y :: k) := (List.Perm.swap x y rest).trans ((split.cons x).symm.trans perm)
      exact swapped.cons_inv.symm
    have swap : op x y = op y x := Std.Commutative.comm x y
    rw [split.foldl_eq x, tail.foldl_eq y, List.foldl_cons, List.foldl_cons, swap]

theorem eq_foldl (h : GeneralizedSum op (a :: xs) r) : r = xs.foldl op a := by
  generalize same : a :: xs = zs at h
  induction h generalizing a xs with
  | one b =>
    obtain ⟨rfl, rfl⟩ := List.cons.inj same
    rfl
  | combine left right perm ihl ihr =>
    obtain ⟨x, l, rfl⟩ := left.exists_cons
    obtain ⟨y, k, rfl⟩ := right.exists_cons
    subst same
    have whole : xs.foldl op a = (l ++ y :: k).foldl op x := foldl_perm perm
    rw [ihl rfl, ihr rfl, whole, List.foldl_append, List.foldl_cons, List.foldl_assoc]

end GeneralizedSum
end Parallax
