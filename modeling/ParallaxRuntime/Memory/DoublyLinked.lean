import Mathlib.Data.List.Nodup

/-!
# Null-terminated doubly linked lists

`Linked next prev p l`: the nodes of `l` are chained by `next`, which ends in
`null`, and back by `prev`, which at the first node is `p`. Pushing a node and
unlinking one are the two edits.
-/

namespace Parallax.Memory

variable {ν : Type} {null : ν}

def Linked (null : ν) (next prev : ν → ν) : ν → List ν → Prop
  | _, [] => True
  | p, x :: l => x ≠ null ∧ prev x = p ∧ next x = l.headD null ∧ Linked null next prev x l

/-- The list seen from its head pointer. -/
def IsList (null : ν) (next prev : ν → ν) (head : ν) (l : List ν) : Prop :=
  head = l.headD null ∧ Linked null next prev null l

theorem Linked.ne_null {next prev : ν → ν} {p x : ν} {l : List ν} (h : Linked null next prev p l)
    (hx : x ∈ l) : x ≠ null := by
  induction l generalizing p with
  | nil => cases hx
  | cons y l ih =>
    obtain ⟨hy, -, -, hl⟩ := h
    rcases List.mem_cons.mp hx with rfl | hx
    · exact hy
    · exact ih hl hx

theorem Linked.congr {next prev next' prev' : ν → ν} {p : ν} {l : List ν}
    (h : Linked null next prev p l) (hn : ∀ x ∈ l, next' x = next x) (hp : ∀ x ∈ l, prev' x = prev x) :
    Linked null next' prev' p l := by
  induction l generalizing p with
  | nil => trivial
  | cons x l ih =>
    obtain ⟨hx, back, fwd, hl⟩ := h
    exact ⟨hx, (hp x List.mem_cons_self).trans back, (hn x List.mem_cons_self).trans fwd,
      ih hl (fun y hy => hn y (List.mem_cons_of_mem x hy)) (fun y hy => hp y (List.mem_cons_of_mem x hy))⟩

theorem IsList.congr {next prev next' prev' : ν → ν} {head : ν} {l : List ν}
    (h : IsList null next prev head l) (hn : ∀ x ∈ l, next' x = next x) (hp : ∀ x ∈ l, prev' x = prev x) :
    IsList null next' prev' head l :=
  ⟨h.1, h.2.congr hn hp⟩

/-- Only the first node's back link mentions the predecessor. -/
theorem Linked.relink {next prev next' prev' : ν → ν} {p q x : ν} {l : List ν}
    (h : Linked null next prev p (x :: l)) (fresh : x ∉ l) (hq : prev' x = q)
    (hn : ∀ y ∈ x :: l, next' y = next y) (hp : ∀ y ∈ l, y ≠ x → prev' y = prev y) :
    Linked null next' prev' q (x :: l) := by
  obtain ⟨hx, -, fwd, hl⟩ := h
  refine ⟨hx, hq, (hn x List.mem_cons_self).trans fwd, hl.congr ?_ ?_⟩
  · exact fun y hy => hn y (List.mem_cons_of_mem x hy)
  · exact fun y hy => hp y hy fun same => fresh (same ▸ hy)

/-- Push `x` in front: its own links are set, and the old head points back at it. -/
theorem IsList.push {next prev next' prev' : ν → ν} {head x : ν} {l : List ν}
    (h : IsList null next prev head l) (nd : l.Nodup) (hx : x ≠ null)
    (hnx : next' x = head) (hpx : prev' x = null) (hhead : head ≠ null → prev' head = x)
    (hn : ∀ y ∈ l, next' y = next y) (hp : ∀ y ∈ l, y ≠ head → prev' y = prev y) :
    IsList null next' prev' x (x :: l) := by
  obtain ⟨hh, hl⟩ := h
  refine ⟨rfl, hx, hpx, hnx.trans hh, ?_⟩
  cases l with
  | nil => trivial
  | cons y l =>
    have same : head = y := hh
    subst same
    exact hl.relink (List.nodup_cons.mp nd).1 (hhead hl.1) hn
      fun z hz hne => hp z (List.mem_cons_of_mem head hz) hne

/-- Where `next` leads from the last node of `a` once the list continues with `b`. -/
theorem Linked.append_head {next prev : ν → ν} {p : ν} {a b : List ν}
    (h : Linked null next prev p (a ++ b)) : Linked null next prev (a.getLastD p) b := by
  induction a generalizing p with
  | nil => exact h
  | cons x a ih =>
    rw [List.getLastD_cons]
    exact ih h.2.2.2

theorem Linked.prev_of_mem {next prev : ν → ν} {p x : ν} {a b : List ν}
    (h : Linked null next prev p (a ++ x :: b)) : prev x = a.getLastD p ∧ next x = b.headD null :=
  ⟨h.append_head.2.1, h.append_head.2.2.1⟩

variable [DecidableEq ν]

/-- Unlink `x`: its two neighbours are joined, every other link is kept. -/
theorem Linked.unlink {next prev next' prev' : ν → ν} {p x : ν} {a b : List ν}
    (h : Linked null next prev p (a ++ x :: b)) (nd : (a ++ x :: b).Nodup) (hp0 : p ∉ a ++ x :: b)
    (hn : ∀ y ∈ a ++ b, next' y = if y = prev x then next x else next y)
    (hp : ∀ y ∈ a ++ b, prev' y = if y = next x then prev x else prev y) :
    Linked null next' prev' p (a ++ b) := by
  induction a generalizing p with
  | nil =>
    obtain ⟨hx, back, fwd, hl⟩ := h
    have keepNext : ∀ y ∈ b, next' y = next y := fun y hy => by
      rw [hn y hy, if_neg]
      rintro rfl
      exact hp0 (by rw [← back]; exact List.mem_cons_of_mem x hy)
    cases b with
    | nil => trivial
    | cons z b =>
      have nd' := (List.nodup_cons.mp (List.nodup_cons.mp nd).2).1
      refine hl.relink nd' ?_ keepNext ?_
      · rw [hp z List.mem_cons_self, if_pos (by rw [fwd]; rfl), back]
      · intro y hy hne
        rw [hp y (List.mem_cons_of_mem z hy), if_neg (by rw [fwd]; exact hne)]
  | cons w a ih =>
    obtain ⟨hw, back, fwd, hl⟩ := h
    obtain ⟨hwfresh, nd'⟩ := List.nodup_cons.mp nd
    have ends := hl.prev_of_mem
    have rest := ih hl nd' hwfresh (fun y hy => hn y (List.mem_cons_of_mem w hy))
      (fun y hy => hp y (List.mem_cons_of_mem w hy))
    refine ⟨hw, ?_, ?_, rest⟩
    · rw [hp w List.mem_cons_self, if_neg, back]
      intro same
      have hwb : w ∈ b := by
        rw [ends.2] at same
        cases b with
        | nil => exact absurd same hw
        | cons z b => exact same ▸ List.mem_cons_self
      exact hwfresh (List.mem_append_right a (List.mem_cons_of_mem x hwb))
    · rw [hn w List.mem_cons_self]
      cases a with
      | nil => rw [if_pos (by rw [ends.1]; rfl), ends.2]; rfl
      | cons v a =>
        rw [if_neg, fwd]
        · rfl
        · intro same
          have : w ∈ v :: a := by
            rw [ends.1, List.getLastD_cons] at same
            rw [same]
            exact List.getLastD_mem_cons
          exact hwfresh (List.mem_append_left _ this)

theorem IsList.unlink {next prev next' prev' : ν → ν} {head head' x : ν} {a b : List ν}
    (h : IsList null next prev head (a ++ x :: b)) (nd : (a ++ x :: b).Nodup)
    (hh : head' = if a = [] then next x else head)
    (hn : ∀ y ∈ a ++ b, next' y = if y = prev x then next x else next y)
    (hp : ∀ y ∈ a ++ b, prev' y = if y = next x then prev x else prev y) :
    IsList null next' prev' head' (a ++ b) := by
  refine ⟨?_, h.2.unlink nd (fun hm => h.2.ne_null hm rfl) hn hp⟩
  rw [hh]
  cases a with
  | nil => simpa using h.2.prev_of_mem.2
  | cons y a => simpa using h.1

end Parallax.Memory
