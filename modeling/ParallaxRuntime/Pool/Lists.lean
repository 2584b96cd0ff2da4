import ParallaxRuntime.Memory.DoublyLinked
import ParallaxRuntime.Pool.Model

/-!
# The bins

`binInsert` and `binRemove` as edits of the lists of free blocks, and the bytes
that they leave alone.
-/

namespace Parallax.Pool
open Memory

/-- Two node addresses are equal or a minimal block apart. -/
def Apart (x y : Nat) : Prop := x = y ∨ x + 32 ≤ y ∨ y + 32 ≤ x

/-- The bytes of a node's two links. -/
def LinkByte (x a : Nat) : Prop := x + 8 ≤ a ∧ a < x + 24

theorem flNext_setNext {m : Mem} {x y v : Nat} (h : Apart x y) (hv : v < 2 ^ 64) :
    flNext (setNext m x v) y = if y = x then v else flNext m y := by
  unfold flNext setNext HDR
  split
  · next same => rw [same, load64_store64 hv]
  · next ne => exact load64_store64_of_disjoint (by unfold Apart at h; omega)

theorem flPrev_setPrev {m : Mem} {x y v : Nat} (h : Apart x y) (hv : v < 2 ^ 64) :
    flPrev (setPrev m x v) y = if y = x then v else flPrev m y := by
  unfold flPrev setPrev HDR
  split
  · next same => rw [same, load64_store64 hv]
  · next ne => exact load64_store64_of_disjoint (by unfold Apart at h; omega)

theorem flPrev_setNext {m : Mem} {x y v : Nat} (h : Apart x y) : flPrev (setNext m x v) y = flPrev m y :=
  load64_store64_of_disjoint (by unfold Apart at h; unfold HDR; omega)

theorem flNext_setPrev {m : Mem} {x y v : Nat} (h : Apart x y) : flNext (setPrev m x v) y = flNext m y :=
  load64_store64_of_disjoint (by unfold Apart at h; unfold HDR; omega)

theorem setNext_outside {m : Mem} {x v a : Nat} (h : ¬ LinkByte x a) : setNext m x v a = m a :=
  store64_outside (by unfold LinkByte at h; unfold HDR; omega)

theorem setPrev_outside {m : Mem} {x v a : Nat} (h : ¬ LinkByte x a) : setPrev m x v a = m a :=
  store64_outside (by unfold LinkByte at h; unfold HDR; omega)

theorem flNext_congr {m m' : Mem} {x : Nat} (h : ∀ a, LinkByte x a → m' a = m a) : flNext m' x = flNext m x :=
  load64_congr fun a _ _ => h a (by unfold HDR at *; unfold LinkByte; omega)

theorem flPrev_congr {m m' : Mem} {x : Nat} (h : ∀ a, LinkByte x a → m' a = m a) : flPrev m' x = flPrev m x :=
  load64_congr fun a _ _ => h a (by unfold HDR at *; unfold LinkByte; omega)

/-- The bins hold the lists `fl`, whose nodes are all distinct and apart. -/
structure Lists (s : State) (fl : Nat → List Nat) : Prop where
  list : ∀ i, IsList 0 (flNext s.mem) (flPrev s.mem) (s.bins i) (fl i)
  nodup : ∀ i, (fl i).Nodup
  once : ∀ i j x, x ∈ fl i → x ∈ fl j → i = j
  apart : ∀ i j x y, x ∈ fl i → y ∈ fl j → Apart x y
  word : ∀ i x, x ∈ fl i → x < 2 ^ 64

theorem Lists.pos {s : State} {fl : Nat → List Nat} (h : Lists s fl) {i x : Nat} (hx : x ∈ fl i) : x ≠ 0 :=
  (h.list i).2.ne_null hx

theorem Lists.frame {s s' : State} {fl : Nat → List Nat} (h : Lists s fl) (bins : s'.bins = s.bins)
    (same : ∀ i x a, x ∈ fl i → LinkByte x a → s'.mem a = s.mem a) : Lists s' fl :=
  { h with
    list := fun i => by
      rw [bins]
      exact (h.list i).congr (fun x hx => flNext_congr fun a => same i x a hx)
        fun x hx => flPrev_congr fun a => same i x a hx }

/-! ### `bin_remove` -/

section Remove
variable {s : State} {fl : Nat → List Nat} {x : Nat}

theorem Lists.neighbours (h : Lists s fl) {i : Nat} {a b : List Nat} (hx : fl i = a ++ x :: b) :
    flPrev s.mem x = a.getLastD 0 ∧ flNext s.mem x = b.headD 0 :=
  (hx ▸ (h.list i).2).prev_of_mem

theorem getLastD_mem_or {a : List Nat} : a.getLastD 0 = 0 ∧ a = [] ∨ a.getLastD 0 ∈ a := by
  cases a with
  | nil => exact Or.inl ⟨rfl, rfl⟩
  | cons y a => exact Or.inr (by rw [List.getLastD_cons]; exact List.getLastD_mem_cons)

theorem headD_mem_or {b : List Nat} : b.headD 0 = 0 ∧ b = [] ∨ b.headD 0 ∈ b := by
  cases b with
  | nil => exact Or.inl ⟨rfl, rfl⟩
  | cons y b => exact Or.inr List.mem_cons_self

theorem binRemove_state (s : State) (x : Nat) :
    (binRemove s x).base = s.base ∧ (binRemove s x).reservation = s.reservation ∧
    (binRemove s x).high = s.high ∧ (binRemove s x).initDone = s.initDone ∧
    (binRemove s x).initFailed = s.initFailed := by
  unfold binRemove
  dsimp only
  refine ⟨?_, ?_, ?_, ?_, ?_⟩ <;> (repeat' split) <;> rfl

theorem binRemove_mem (s : State) (x : Nat) :
    (binRemove s x).mem =
      let m := if flPrev s.mem x ≠ 0 then setNext s.mem (flPrev s.mem x) (flNext s.mem x) else s.mem
      if flNext s.mem x ≠ 0 then setPrev m (flNext s.mem x) (flPrev s.mem x) else m := by
  unfold binRemove
  dsimp only
  by_cases hp : flPrev s.mem x = 0 <;> by_cases hn : flNext s.mem x = 0 <;> simp [hp, hn]

theorem binRemove_bins (s : State) (x : Nat) :
    (binRemove s x).bins = if flPrev s.mem x ≠ 0 then s.bins
      else setBin s.bins (binIndex (bsize s.mem x)) (flNext s.mem x) := by
  unfold binRemove
  dsimp only
  by_cases hp : flPrev s.mem x = 0 <;> by_cases hn : flNext s.mem x = 0 <;> simp [hp, hn]

/-- `bin_remove` writes link bytes of listed nodes only. -/
theorem binRemove_frame (h : Lists s fl) {i : Nat} (hx : x ∈ fl i) {a : Nat}
    (outside : ∀ y ∈ fl i, ¬ LinkByte y a) : (binRemove s x).mem a = s.mem a := by
  obtain ⟨l, r, split⟩ := List.append_of_mem hx
  obtain ⟨hp, hn⟩ := h.neighbours split
  have prevMem : flPrev s.mem x ≠ 0 → flPrev s.mem x ∈ fl i := fun ne => by
    rcases getLastD_mem_or (a := l) with ⟨zero, -⟩ | mem
    · exact absurd (hp.trans zero) ne
    · rw [hp, split]; exact List.mem_append_left _ mem
  have nextMem : flNext s.mem x ≠ 0 → flNext s.mem x ∈ fl i := fun ne => by
    rcases headD_mem_or (b := r) with ⟨zero, -⟩ | mem
    · exact absurd (hn.trans zero) ne
    · rw [hn, split]; exact List.mem_append_right _ (List.mem_cons_of_mem x mem)
  rw [binRemove_mem]
  dsimp only
  have first : (if flPrev s.mem x ≠ 0 then setNext s.mem (flPrev s.mem x) (flNext s.mem x) else s.mem) a =
      s.mem a := by
    split
    · next ne => exact setNext_outside (outside _ (prevMem ne))
    · rfl
  split
  · next ne => rw [setPrev_outside (outside _ (nextMem ne)), first]
  · exact first

/-- The links after `bin_remove`, at any node apart from the two neighbours. -/
theorem binRemove_links (h : Lists s fl) {i j y : Nat} (hx : x ∈ fl i) (hy : y ∈ fl j) :
    flNext (binRemove s x).mem y = (if y = flPrev s.mem x then flNext s.mem x else flNext s.mem y) ∧
    flPrev (binRemove s x).mem y = (if y = flNext s.mem x then flPrev s.mem x else flPrev s.mem y) := by
  obtain ⟨l, r, split⟩ := List.append_of_mem hx
  obtain ⟨hp, hn⟩ := h.neighbours split
  have ypos := h.pos hy
  have prevApart : flPrev s.mem x ≠ 0 → Apart (flPrev s.mem x) y := fun ne => by
    rcases getLastD_mem_or (a := l) with ⟨zero, -⟩ | mem
    · exact absurd (hp.trans zero) ne
    · rw [hp]; exact h.apart i j _ _ (split ▸ List.mem_append_left _ mem) hy
  have nextApart : flNext s.mem x ≠ 0 → Apart (flNext s.mem x) y := fun ne => by
    rcases headD_mem_or (b := r) with ⟨zero, -⟩ | mem
    · exact absurd (hn.trans zero) ne
    · rw [hn]
      exact h.apart i j _ _ (split ▸ List.mem_append_right _ (List.mem_cons_of_mem x mem)) hy
  have np : flNext s.mem x < 2 ^ 64 := load64_lt _ _
  have pp : flPrev s.mem x < 2 ^ 64 := load64_lt _ _
  rw [binRemove_mem]
  dsimp only
  by_cases p0 : flPrev s.mem x = 0 <;> by_cases n0 : flNext s.mem x = 0
  · simp [p0, n0, ypos]
  · simp [p0, n0, ypos, flNext_setPrev (nextApart n0), flPrev_setPrev (nextApart n0)]
  · simp [p0, n0, ypos, flNext_setNext (prevApart p0), flPrev_setNext (prevApart p0)]
  · simp [p0, n0, flNext_setPrev (nextApart n0), flPrev_setPrev (nextApart n0) pp,
      flNext_setNext (prevApart p0) np, flPrev_setNext (prevApart p0)]

theorem binRemove_lists (h : Lists s fl) (hx : x ∈ fl (binIndex (bsize s.mem x))) :
    Lists (binRemove s x) fun i => (fl i).erase x := by
  have sub : ∀ i y, y ∈ (fl i).erase x → y ∈ fl i := fun i y hy => List.mem_of_mem_erase hy
  refine ⟨fun i => ?_, fun i => (h.nodup i).erase x, fun i j y hi hj => h.once i j y (sub i y hi) (sub j y hj),
    fun i j y z hi hj => h.apart i j y z (sub i y hi) (sub j z hj), fun i y hi => h.word i y (sub i y hi)⟩
  by_cases own : i = binIndex (bsize s.mem x)
  · subst own
    obtain ⟨l, r, split⟩ := List.append_of_mem hx
    have nd := h.nodup (binIndex (bsize s.mem x))
    have hl := h.list (binIndex (bsize s.mem x))
    obtain ⟨hp, hn⟩ := h.neighbours split
    have fresh : x ∉ l := fun hxl => by
      rw [split] at nd
      exact List.disjoint_of_nodup_append nd hxl List.mem_cons_self
    have erased : (fl (binIndex (bsize s.mem x))).erase x = l ++ r := by
      rw [split, List.erase_append_right _ fresh, List.erase_cons_head]
    have inList : ∀ y ∈ l ++ r, y ∈ fl (binIndex (bsize s.mem x)) := fun y hy => by
      rw [split]
      rcases List.mem_append.mp hy with hy | hy
      · exact List.mem_append_left _ hy
      · exact List.mem_append_right _ (List.mem_cons_of_mem x hy)
    rw [erased]
    have links : ∀ y ∈ l ++ r, _ := fun y hy => binRemove_links h hx (inList y hy)
    rw [split] at hl nd
    refine hl.unlink nd ?_ (fun y hy => (links y hy).1) fun y hy => (links y hy).2
    -- The head moves exactly when the removed node was the first one.
    rw [binRemove_bins]
    cases l with
    | nil => simp [hp, setBin]
    | cons z l =>
      have ne : flPrev s.mem x ≠ 0 := by
        rw [hp, List.getLastD_cons]
        exact h.pos (inList _ (List.mem_append_left r List.getLastD_mem_cons))
      simp [ne]
  · have fresh : x ∉ fl i := fun hxi => own (h.once i _ x hxi hx)
    have headSame : (binRemove s x).bins i = s.bins i := by
      rw [binRemove_bins]
      split
      · rfl
      · simp [setBin, own]
    rw [List.erase_of_not_mem fresh, headSame]
    refine (h.list i).congr (fun y hy => ?_) fun y hy => ?_
    all_goals
      obtain ⟨l, r, split⟩ := List.append_of_mem hx
      obtain ⟨hp, hn⟩ := h.neighbours split
    · rw [(binRemove_links h hx hy).1, if_neg]
      rintro same
      rcases getLastD_mem_or (a := l) with ⟨zero, -⟩ | mem
      · exact h.pos hy (same.trans (hp.trans zero))
      · refine own (h.once i _ y hy ?_)
        rw [same, hp, split]
        exact List.mem_append_left _ mem
    · rw [(binRemove_links h hx hy).2, if_neg]
      rintro same
      rcases headD_mem_or (b := r) with ⟨zero, -⟩ | mem
      · exact h.pos hy (same.trans (hn.trans zero))
      · refine own (h.once i _ y hy ?_)
        rw [same, hn, split]
        exact List.mem_append_right _ (List.mem_cons_of_mem x mem)

end Remove

/-! ### `bin_insert` -/

section Insert
variable {s : State} {fl : Nat → List Nat} {x : Nat}

/-- The lists after `x` is pushed on bin `i`. -/
def pushed (fl : Nat → List Nat) (i x : Nat) : Nat → List Nat := fun j => if j = i then x :: fl j else fl j

theorem mem_pushed {fl : Nat → List Nat} {i x j y : Nat} :
    y ∈ pushed fl i x j ↔ (j = i ∧ y = x) ∨ y ∈ fl j := by
  unfold pushed
  by_cases h : j = i <;> simp [h]

/-- `bin_insert` writes the new node's links and one link of the old head. -/
theorem binInsert_frame (h : Lists s fl) {a : Nat} (outside : ∀ i y, y ∈ fl i → ¬ LinkByte y a)
    (own : ¬ LinkByte x a) : (binInsert s x).mem a = s.mem a := by
  have head := (h.list (binIndex (bsize s.mem x))).1
  unfold binInsert
  dsimp only
  split
  · next ne =>
    rw [setPrev_outside, setNext_outside own, setPrev_outside own]
    rcases headD_mem_or (b := fl (binIndex (bsize s.mem x))) with ⟨zero, -⟩ | mem
    · exact absurd (head.trans zero) ne
    · exact outside _ _ (head ▸ mem)
  · rw [setNext_outside own, setPrev_outside own]

theorem binInsert_links (h : Lists s fl) {j y : Nat} (hy : y ∈ fl j) (ne : y ≠ x) (apart : Apart x y)
    (hx : x < 2 ^ 64) :
    flNext (binInsert s x).mem y = flNext s.mem y ∧
    flPrev (binInsert s x).mem y =
      (if y = s.bins (binIndex (bsize s.mem x)) then x else flPrev s.mem y) := by
  have head := (h.list (binIndex (bsize s.mem x))).1
  have headApart : s.bins (binIndex (bsize s.mem x)) ≠ 0 → Apart (s.bins (binIndex (bsize s.mem x))) y :=
    fun ne => by
      rcases headD_mem_or (b := fl (binIndex (bsize s.mem x))) with ⟨zero, -⟩ | mem
      · exact absurd (head.trans zero) ne
      · rw [head]; exact h.apart _ _ _ _ mem hy
  have hw : s.bins (binIndex (bsize s.mem x)) < 2 ^ 64 := by
    rcases headD_mem_or (b := fl (binIndex (bsize s.mem x))) with ⟨zero, -⟩ | mem
    · rw [head, zero]; decide
    · rw [head]; exact h.word _ _ mem
  unfold binInsert
  dsimp only
  by_cases h0 : s.bins (binIndex (bsize s.mem x)) = 0
  · simp [h0, h.pos hy, ne, flNext_setNext apart, flNext_setPrev apart, flPrev_setNext apart,
      flPrev_setPrev apart]
  · simp [h0, ne, flNext_setPrev (headApart h0), flPrev_setPrev (headApart h0) hx, flNext_setNext apart hw,
      flNext_setPrev apart, flPrev_setNext apart, flPrev_setPrev apart]

theorem binInsert_own (h : Lists s fl) (hx : x < 2 ^ 64) (fresh : ∀ i, x ∉ fl i)
    (apart : ∀ i y, y ∈ fl i → Apart x y) :
    flNext (binInsert s x).mem x = s.bins (binIndex (bsize s.mem x)) ∧ flPrev (binInsert s x).mem x = 0 := by
  have head := (h.list (binIndex (bsize s.mem x))).1
  have self : Apart x x := Or.inl rfl
  have hw : s.bins (binIndex (bsize s.mem x)) < 2 ^ 64 := by
    rcases headD_mem_or (b := fl (binIndex (bsize s.mem x))) with ⟨zero, -⟩ | mem
    · rw [head, zero]; decide
    · rw [head]; exact h.word _ _ mem
  unfold binInsert
  dsimp only
  by_cases h0 : s.bins (binIndex (bsize s.mem x)) = 0
  · simp [h0, flNext_setNext self, flPrev_setNext self, flPrev_setPrev self]
  · have listed : s.bins (binIndex (bsize s.mem x)) ∈ fl (binIndex (bsize s.mem x)) := by
      rcases headD_mem_or (b := fl (binIndex (bsize s.mem x))) with ⟨zero, -⟩ | mem
      · exact absurd (head.trans zero) h0
      · rw [head]; exact mem
    have ha : Apart (s.bins (binIndex (bsize s.mem x))) x := by
      have := apart _ _ listed
      unfold Apart at this ⊢
      omega
    have ne : x ≠ s.bins (binIndex (bsize s.mem x)) := fun same => by
      rw [← same] at listed
      exact fresh _ listed
    simp [h0, ne, flNext_setPrev ha, flPrev_setPrev ha hx, flNext_setNext self hw, flPrev_setNext self,
      flPrev_setPrev self]

theorem binInsert_lists (h : Lists s fl) (hx : x < 2 ^ 64) (pos : x ≠ 0) (fresh : ∀ i, x ∉ fl i)
    (apart : ∀ i y, y ∈ fl i → Apart x y) :
    Lists (binInsert s x) (pushed fl (binIndex (bsize s.mem x)) x) := by
  have own := binInsert_own h hx fresh apart
  have links : ∀ {i y}, y ∈ fl i → _ := fun {i y} hy =>
    binInsert_links h hy (fun same : y = x => fresh i (same ▸ hy)) (apart i y hy) hx
  refine ⟨fun i => ?_, fun i => ?_, fun i j y hi hj => ?_, fun i j y z hi hj => ?_, fun i y hi => ?_⟩
  · unfold pushed
    have hl := h.list i
    by_cases hi : i = binIndex (bsize s.mem x)
    · rw [if_pos hi]
      have hb : (binInsert s x).bins i = x := by simp [binInsert, setBin, hi]
      rw [hb]
      refine hl.push (h.nodup i) pos ?_ own.2 ?_ (fun y hy => (links hy).1) ?_
      · rw [own.1, hi]
      · intro ne
        rcases headD_mem_or (b := fl i) with ⟨zero, -⟩ | mem
        · exact absurd (hl.1.trans zero) ne
        · rw [← hl.1] at mem
          rw [(links mem).2, if_pos (by rw [hi])]
      · intro y hy ne
        rw [(links hy).2, if_neg (by rw [← hi]; exact ne)]
    · rw [if_neg hi]
      have hb : (binInsert s x).bins i = s.bins i := by simp [binInsert, setBin, hi]
      rw [hb]
      refine hl.congr (fun y hy => (links hy).1) fun y hy => ?_
      rw [(links hy).2, if_neg]
      intro same
      have head := (h.list (binIndex (bsize s.mem x))).1
      rcases headD_mem_or (b := fl (binIndex (bsize s.mem x))) with ⟨zero, -⟩ | mem
      · exact h.pos hy (same.trans (head.trans zero))
      · exact hi (h.once i _ y hy (by rw [same, head]; exact mem))
  · unfold pushed
    split
    · exact List.nodup_cons.mpr ⟨fresh i, h.nodup i⟩
    · exact h.nodup i
  · rcases mem_pushed.mp hi with ⟨hi, rfl⟩ | hi <;> rcases mem_pushed.mp hj with ⟨hj, eq⟩ | hj
    · rw [hi, hj]
    · exact absurd hj (fresh j)
    · exact absurd (eq ▸ hi) (fresh i)
    · exact h.once i j y hi hj
  · rcases mem_pushed.mp hi with ⟨-, hy⟩ | hy <;> rcases mem_pushed.mp hj with ⟨-, hz⟩ | hz
    · exact Or.inl (hy.trans hz.symm)
    · exact hy ▸ apart j z hz
    · have := apart i y hy
      subst hz
      unfold Apart at this ⊢
      omega
    · exact h.apart i j y z hy hz
  · rcases mem_pushed.mp hi with ⟨-, rfl⟩ | hi
    · exact hx
    · exact h.word i y hi

end Insert

end Parallax.Pool
