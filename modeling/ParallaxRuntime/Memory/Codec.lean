import Mathlib.Algebra.Order.Ring.Nat
import Mathlib.Tactic.Ring

/-!
# Typed elements in a memory of cells

A codec lays a value out in consecutive cells. `get` and `put` are the elements
of an array at a base address.
-/

namespace Parallax.Memory

structure Codec (β α : Type) where
  size : Nat
  pos : 0 < size
  enc : α → Fin size → β
  dec : (Fin size → β) → α
  dec_enc : ∀ x, dec (enc x) = x

/-- A number in the first of four cells. -/
def Codec.quad : Codec Nat Nat :=
  ⟨4, by decide, fun x k => if k = 0 then x else 0, fun f => f 0, fun _ => rfl⟩

namespace Codec
variable {β α : Type} (c : Codec β α)

def get (m : Nat → β) (p i : Nat) : α := c.dec fun k => m (p + i * c.size + k)

def put (m : Nat → β) (p i : Nat) (x : α) : Nat → β := fun a =>
  if h : p + i * c.size ≤ a ∧ a < p + i * c.size + c.size then c.enc x ⟨a - (p + i * c.size), by omega⟩ else m a

/-- The addresses of the first `n` elements of the array at `p`. -/
def Covers (p n a : Nat) : Prop := p ≤ a ∧ a < p + n * c.size

variable {c}

theorem get_congr {m m' : Nat → β} {p q i j : Nat}
    (h : ∀ k, k < c.size → m' (q + j * c.size + k) = m (p + i * c.size + k)) : c.get m' q j = c.get m p i := by
  unfold get
  congr 1
  funext k
  exact h k k.isLt

theorem put_outside {m : Nat → β} {p i a : Nat} {x : α}
    (h : a < p + i * c.size ∨ p + i * c.size + c.size ≤ a) : c.put m p i x a = m a := by
  unfold put
  rw [dif_neg (by omega)]

theorem elem_le {i n : Nat} (h : i < n) : i * c.size + c.size ≤ n * c.size := by
  calc i * c.size + c.size = (i + 1) * c.size := by ring
    _ ≤ n * c.size := Nat.mul_le_mul_right _ h

theorem covers_mono {p n k a : Nat} (h : c.Covers p n a) (le : n ≤ k) : c.Covers p k a := by
  have := Nat.mul_le_mul_right c.size le
  unfold Covers at *
  omega

theorem put_not_covers {m : Nat → β} {p i n a : Nat} {x : α} (hi : i < n) (h : ¬ c.Covers p n a) :
    c.put m p i x a = m a := by
  have := elem_le (c := c) hi
  unfold Covers at h
  exact put_outside (by omega)

@[simp] theorem get_put_same {m : Nat → β} {p i : Nat} {x : α} : c.get (c.put m p i x) p i = x := by
  have cells : (fun k : Fin c.size => c.put m p i x (p + i * c.size + k)) = c.enc x := by
    funext k
    unfold put
    rw [dif_pos (by omega)]
    congr 1
    exact Fin.ext (Nat.add_sub_cancel_left ..)
  unfold get
  rw [cells, c.dec_enc]

theorem get_put_of_ne {m : Nat → β} {p i j : Nat} {x : α} (h : j ≠ i) :
    c.get (c.put m p i x) p j = c.get m p j :=
  get_congr fun k hk => put_outside (by
    rcases Nat.lt_or_gt_of_ne h with lt | gt
    · have := elem_le (c := c) lt
      omega
    · have := elem_le (c := c) gt
      omega)

theorem get_put {m : Nat → β} {p i j : Nat} {x : α} :
    c.get (c.put m p i x) p j = if j = i then x else c.get m p j := by
  split
  · next same => rw [same, get_put_same]
  · next ne => exact get_put_of_ne ne

theorem get_frame {m m' : Nat → β} {p i n : Nat} (hi : i < n) (h : ∀ a, c.Covers p n a → m' a = m a) :
    c.get m' p i = c.get m p i :=
  get_congr fun k hk => h _ (by
    have := elem_le (c := c) hi
    unfold Covers
    omega)

theorem get_put_apart {δ : Type} {d : Codec β δ} {m : Nat → β} {p q i j n k : Nat} {x : δ} (hi : i < n) (hj : j < k)
    (apart : ∀ a, c.Covers p n a → ¬ d.Covers q k a) : c.get (d.put m q j x) p i = c.get m p i :=
  get_frame hi fun a ha => put_not_covers hj (apart a ha)

/-- Writing an element of the array at `q` leaves the other elements of the array at `p` alone. -/
def Pointwise {δ : Type} (c : Codec β α) (p : Nat) (d : Codec β δ) (q n : Nat) : Prop :=
  ∀ i < n, ∀ j < n, i ≠ j → q + i * d.size + d.size ≤ p + j * c.size ∨ p + j * c.size + c.size ≤ q + i * d.size

theorem Pointwise.get_put {δ : Type} {d : Codec β δ} {m : Nat → β} {p q n i j : Nat} {x : δ} (h : Pointwise c p d q n)
    (hi : i < n) (hj : j < n) (ne : i ≠ j) : c.get (d.put m q i x) p j = c.get m p j := by
  apply get_congr
  intro k hk
  have := h i hi j hj ne
  exact put_outside (by omega)

theorem Pointwise.self {p n : Nat} : Pointwise c p c p n := by
  intro i _ j _ ne
  rcases Nat.lt_or_gt_of_ne ne with lt | gt
  · have := elem_le (c := c) lt
    omega
  · have := elem_le (c := c) gt
    omega

/-! ### Arrays as lists -/

/-- The first `n` elements of the array at `p`. -/
def list (c : Codec β α) (m : Nat → β) (p n : Nat) : List α := (List.range n).map (c.get m p)

section
variable {m m' : Nat → β} {p q n k : Nat}

@[simp] theorem list_length : (c.list m p n).length = n := by simp [list]

@[simp] theorem list_getElem {i : Nat} (h : i < (c.list m p n).length) : (c.list m p n)[i] = c.get m p i := by
  simp [list]

theorem list_eq {l : List α} (length : l.length = n) (elems : ∀ i (h : i < l.length), c.get m p i = l[i]) :
    c.list m p n = l := by
  apply List.ext_getElem
  · simp [length]
  · intro i _ h
    simpa using elems i h

theorem list_congr (h : ∀ i < n, c.get m' q i = c.get m p i) : c.list m' q n = c.list m p n := by
  apply list_eq
  · simp
  · intro i hi
    simpa using h i (by simpa using hi)

theorem list_frame (h : ∀ a, c.Covers p n a → m' a = m a) : c.list m' p n = c.list m p n :=
  list_congr fun _ hi => get_frame hi h

theorem list_copied (h : ∀ i < n * c.size, m' (q + i) = m (p + i)) : c.list m' q n = c.list m p n := by
  apply list_congr
  intro i hi
  apply get_congr
  intro j hj
  have := elem_le (c := c) hi
  simpa [Nat.add_assoc] using h (i * c.size + j) (by omega)

theorem list_take (h : k ≤ n) : (c.list m p n).take k = c.list m p k := by
  rw [list, ← List.map_take, List.take_range, Nat.min_eq_left h, list]

theorem list_succ : c.list m p (n + 1) = c.list m p n ++ [c.get m p n] := by simp [list, List.range_succ]

end

end Codec

/-! ### Runs of cells -/

section
variable {β : Type}

/-- `memcpy(p, x)` -/
def put (m : Nat → β) (p : Nat) (x : List β) : Nat → β := fun a => if p ≤ a then x[a - p]?.getD (m a) else m a

theorem put_congr {m m' : Nat → β} {p a : Nat} (x : List β) (h : m a = m' a) : put m p x a = put m' p x a := by
  unfold put
  rw [h]

theorem put_inside {m m' : Nat → β} {p a : Nat} {x : List β} (h : p ≤ a ∧ a < p + x.length) :
    put m p x a = put m' p x a := by
  unfold put
  rw [if_pos h.1, if_pos h.1, List.getElem?_eq_getElem (by omega)]
  rfl

theorem put_ofFn {α : Type} {c : Codec β α} (m : Nat → β) (p i : Nat) (x : α) :
    put m (p + i * c.size) (List.ofFn (c.enc x)) = c.put m p i x := by
  funext a
  unfold put Codec.put
  by_cases low : p + i * c.size ≤ a
  · by_cases high : a < p + i * c.size + c.size
    · rw [if_pos low, dif_pos ⟨low, high⟩, List.getElem?_eq_getElem (by rw [List.length_ofFn]; omega)]
      simp
    · rw [if_pos low, dif_neg fun h => high h.2, List.getElem?_eq_none (by rw [List.length_ofFn]; omega)]
      rfl
  · rw [if_neg low, dif_neg fun h => low h.1]

theorem put_outside {m : Nat → β} {p a : Nat} {x : List β} (h : ¬ (p ≤ a ∧ a < p + x.length)) : put m p x a = m a := by
  unfold put
  split
  · next le => rw [List.getElem?_eq_none (by omega), Option.getD_none]
  · rfl

theorem put_getElem {m : Nat → β} {p i : Nat} {x : List β} (h : i < x.length) : put m p x (p + i) = x[i] := by
  unfold put
  rw [if_pos (Nat.le_add_right p i), Nat.add_sub_cancel_left, List.getElem?_eq_getElem h]
  rfl

theorem Codec.put_list_not_covers {α : Type} {c : Codec β α} {m : Nat → β} {p a : Nat} {x : Fin c.size → β} (h : ¬ c.Covers p 1 a) :
    Memory.put m p (List.ofFn x) a = m a := by
  apply Memory.put_outside
  rintro ⟨low, high⟩
  rw [List.length_ofFn] at high
  exact h ⟨low, by omega⟩

theorem Codec.get_put_list {α : Type} {c : Codec β α} {m : Nat → β} {p : Nat} {x : Fin c.size → β} :
    c.get (Memory.put m p (List.ofFn x)) p 0 = c.dec x := by
  unfold Codec.get
  congr 1
  funext k
  rw [Nat.zero_mul, Nat.add_zero, put_getElem (by simp)]
  simp

end

end Parallax.Memory
