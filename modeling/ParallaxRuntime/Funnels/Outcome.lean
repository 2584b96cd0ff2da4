import ParallaxRuntime.Funnels.Machine

/-!
# What a funnel leaves behind

The result of an algorithm is a value and the list that it writes. Staging through scratch, and
falling back when the scratch is refused, leave what the staged body leaves.
-/

namespace Parallax.Funnels
open Memory Effects Arena Launcher

variable {β α γ δ : Type}

section
variable {A : ArenaModel β}

/-- The array at `p` now holds `l`, and nothing else that was usable changed. -/
structure Stored (c : Codec β α) (p : Nat) (l : List α) (t t' : World A) : Prop where
  after : After (c.Covers p l.length) t t'
  list : c.list t'.mem p l.length = l

/-- `iso` says which value and which list an algorithm may give for its input. -/
def Meets (c : Codec β α) (input n : Nat) (d : Codec β δ) (output : Nat) (iso : List α → γ → List δ → Prop) (t : World A)
    (r : γ) (t' : World A) : Prop :=
  ∃ l, iso (c.list t.mem input n) r l ∧ Stored d output l t t'

variable {c : Codec β α} {d : Codec β δ} {input output n : Nat} {iso : List α → γ → List δ → Prop} {t t₁ t₂ t₃ : World A}
  {r : γ}

theorem After.list_eq {D : Nat → Prop} (h : After D t t₁) (hin : t.Holds input (n * c.size))
    (apart : ∀ a, c.Covers input n a → ¬ D a) : c.list t₁.mem input n = c.list t.mem input n :=
  Codec.list_frame fun a ha => h.frame a (hin.covers ha) (apart a ha)

theorem Stored.of_length {l : List δ} {m : Nat} (length : l.length = m) (after : After (d.Covers output m) t t₁)
    (list : d.list t₁.mem output m = l) : Stored d output l t t₁ := by
  subst length
  exact ⟨after, list⟩

theorem Stored.nil (h : After (fun _ => False) t t₁) : Stored d output [] t t₁ := ⟨h.untouched, rfl⟩

/-- A result over a state that came from `t` without changes is a result over `t`. -/
theorem Meets.of_after (start : After (fun _ => False) t t₁) (hin : t.Holds input (n * c.size))
    (h : Meets c input n d output iso t₁ r t₂) : Meets c input n d output iso t r t₂ := by
  obtain ⟨l, result, after, list⟩ := h
  rw [start.list_eq hin fun _ _ no => no] at result
  exact ⟨l, result, start.untouched.trans after fun _ _ h => h, list⟩

theorem Meets.after (h : Meets c input n d output iso t r t₂) : After (fun _ => True) t t₂ := by
  obtain ⟨l, _, stored⟩ := h
  exact stored.after.mono fun _ _ _ => trivial

/-- What the caller sees of its memory decides. -/
theorem Meets.settle (h : Meets c input n d output iso t r t₂)
    (room : ∀ r l, iso (c.list t.mem input n) r l → t.Holds output (l.length * d.size)) (valid : A.Valid t₃.arena)
    (live : ∀ b ∈ t.live, b ∈ t₃.live) (mem : ∀ a, t.Usable a → t₃.mem a = t₂.mem a) :
    Meets c input n d output iso t r t₃ := by
  obtain ⟨l, result, after, list⟩ := h
  refine ⟨l, result, ⟨valid, live, fun a ha out => ?_⟩, ?_⟩
  · rw [mem a ha, after.frame a ha out]
  · rw [Codec.list_frame fun a ha => mem a ((room r l result).covers ha), list]

theorem Scratch.wrote {D : Nat → Prop} {p : Nat} (h : Scratch t p (n * c.size) t₁) (since : After D t t₂)
    (wrote : After (c.Covers p n) t₂ t₃) : After D t t₃ :=
  since.trans wrote fun _ ha covered => (h.not_usable covered ha).elim

/-- Two blocks of scratch. -/
structure ScratchPair (t : World A) (p n q k : Nat) (t₁ : World A) : Prop where
  left : Scratch t p n t₁
  right : Scratch t q k t₁
  apart : ∀ i < n, ∀ j < k, p + i ≠ q + j
  ne : p ≠ q

theorem Scratch.weaken {p m : Nat} (h : Scratch t₁ p m t₂) (start : After (fun _ => False) t t₁) : Scratch t p m t₂ where
  after := start.trans h.after fun _ _ no => no
  block := h.block
  fresh b hb := h.fresh b (start.live b hb)
  apart i lt usable := h.apart i lt (start.usable usable)

theorem Scratch.pair {p m q k : Nat} (h : Scratch t p m t₁) (h' : Scratch t₁ q k t₂) : ScratchPair t p m q k t₂ where
  left :=
    { after := h.after.trans h'.after fun _ _ no => no
      block := by
        obtain ⟨size, fits, live⟩ := h.block
        exact ⟨size, fits, h'.after.live _ live⟩
      fresh := h.fresh
      apart := h.apart }
  right := h'.weaken h.after
  apart i hi j hj same := by
    refine h'.apart j hj fun _ => ?_
    rw [← same]
    exact h.inBlock.liveByte (Nat.le_add_right ..) (Nat.add_lt_add_left hi p)
  ne := by
    obtain ⟨size, _, live⟩ := h.block
    exact h'.fresh _ live

theorem ScratchPair.pointwise {p q : Nat} (h : ScratchPair t p (n * c.size) q (n * d.size) t₁) : c.Pointwise p d q n := by
  intro i hi j hj _
  have left := Codec.elem_le (c := c) hj
  have right := Codec.elem_le (c := d) hi
  have := c.pos
  have := d.pos
  by_contra both
  rcases Nat.le_total (q + i * d.size) (p + j * c.size) with le | le
  · exact h.apart (j * c.size) (by omega) (p + j * c.size - q) (by omega) (by omega)
  · exact h.apart (q + i * d.size - p) (by omega) (i * d.size) (by omega) (by omega)

theorem ScratchPair.covers {p q k : Nat} (h : ScratchPair t p (n * c.size) q (k * d.size) t₁) {a : Nat}
    (ha : c.Covers p n a) : ¬ d.Covers q k a := by
  rintro ⟨low, high⟩
  obtain ⟨low', high'⟩ := ha
  exact h.apart (a - p) (by omega) (a - q) (by omega) (by omega)

end

section
variable {A : ArenaModel β} {kernels : ElementKernels β} {shaders : String → Shader β} {mayFail anySet : Prop} {t t₁ : World A}
  {c : Codec β α} {d : Codec β δ} {input output n : Nat} {iso : List α → γ → List δ → Prop}

theorem arenaFree_settles {p : Nat} {D : Nat → Prop} (after : After D t t₁) (own : ∃ k, (p, k) ∈ t₁.live)
    (fresh : ∀ b ∈ t.live, b.1 ≠ p) :
    (arenaFree p).Ensures (funnels A kernels shaders mayFail anySet) (fun _ t₂ => After D t t₂ ∧
      (∀ b ∈ t₁.live, b.1 ≠ p → b ∈ t₂.live) ∧ ∀ a, t.Usable a → t₂.mem a = t₁.mem a) t₁ := by
  apply (arenaFree_ensures after.valid own).mono
  rintro _ t₂ ⟨valid, live, mem⟩
  have stays : ∀ b ∈ t₁.live, b.1 ≠ p → b ∈ t₂.live := by
    intro b hb ne
    rw [live]
    exact mem_released.mpr ⟨hb, ne⟩
  have old : ∀ b ∈ t.live, b ∈ t₂.live := fun b hb => stays b (after.live b hb) (fresh b hb)
  have same : ∀ a, t.Usable a → t₂.mem a = t₁.mem a := fun a ha => mem a (ha.mono old)
  refine ⟨⟨valid, old, fun a ha out => ?_⟩, stays, same⟩
  rw [same a ha, after.frame a ha out]

variable {size align outSize outAlign : Nat} {fallback : Funnel β γ}

theorem meets_withScratch {body : Nat → Funnel β γ} (valid : A.Valid t.arena) (small : size ≤ 2 ^ 62) (aligned : align ≤ 256)
    (hin : t.Holds input (n * c.size))
    (room : ∀ r l, iso (c.list t.mem input n) r l → t.Holds output (l.length * d.size))
    (refused : Refuses t size → ∀ t', After (fun _ => False) t t' →
      fallback.Ensures (funnels A kernels shaders mayFail anySet) (Meets c input n d output iso t') t')
    (staged : ∀ ab t₁, Scratch t ab size t₁ → (body ab).Ensures (funnels A kernels shaders mayFail anySet)
      (fun r t₂ => (∀ b ∈ t₁.live, b ∈ t₂.live) ∧ Meets c input n d output iso t r t₂) t₁) :
    (withScratch size align body fallback).Ensures (funnels A kernels shaders mayFail anySet) (Meets c input n d output iso t) t := by
  apply (arenaAlloc_ensures valid small aligned).bind
  rintro ab t₁ (⟨rfl, null, start⟩ | ⟨nonnull, scratch⟩)
  · rw [if_neg fun no => no rfl]
    exact (refused null t₁ start).mono fun _ _ meets => meets.of_after start hin
  · rw [if_pos nonnull]
    apply (staged ab t₁ scratch).bind
    rintro r t₂ ⟨later, meets⟩
    obtain ⟨k, _, own⟩ := scratch.block
    apply (arenaFree_settles meets.after ⟨k, later _ own⟩ scratch.fresh).bind
    rintro _ t₃ ⟨after, _, mem⟩
    exact meets.settle room after.valid after.live mem

theorem meets_withScratchPair {body : Nat → Nat → Funnel β γ} (valid : A.Valid t.arena)
    (small : size ≤ 2 ^ 62 ∧ outSize ≤ 2 ^ 62) (aligned : align ≤ 256 ∧ outAlign ≤ 256) (hin : t.Holds input (n * c.size))
    (room : ∀ r l, iso (c.list t.mem input n) r l → t.Holds output (l.length * d.size))
    (refused : ∀ t', After (fun _ => False) t t' →
      fallback.Ensures (funnels A kernels shaders mayFail anySet) (Meets c input n d output iso t') t')
    (staged : ∀ ai ao t₁, ScratchPair t ai size ao outSize t₁ → (body ai ao).Ensures (funnels A kernels shaders mayFail anySet)
      (fun r t₂ => (∀ b ∈ t₁.live, b ∈ t₂.live) ∧ Meets c input n d output iso t r t₂) t₁) :
    (withScratchPair size align outSize outAlign body fallback).Ensures (funnels A kernels shaders mayFail anySet)
      (Meets c input n d output iso t) t := by
  apply (arenaAlloc_ensures valid small.1 aligned.1).bind
  intro ai t₀ first
  have start : After (fun _ => False) t t₀ := first.elim (·.2.2) fun got => got.2.after
  apply (arenaAlloc_ensures start.valid small.2 aligned.2).bind
  intro ao t₁ second
  have lost : ∀ t₁, After (fun _ => False) t t₁ →
      fallback.Ensures (funnels A kernels shaders mayFail anySet) (Meets c input n d output iso t) t₁ := fun t₁ start =>
    (refused t₁ start).mono fun _ _ meets => meets.of_after start hin
  rcases first with ⟨rfl, _⟩ | ⟨nonnull, scratch⟩
  · rw [if_neg fun both => both.1 rfl]
    exact lost t₁ (start.trans (second.elim (·.2.2) fun got => got.2.after) fun _ _ no => no)
  · rcases second with ⟨rfl, _, next⟩ | ⟨nonnull', scratch'⟩
    · rw [if_neg fun both => both.2 rfl]
      exact lost t₁ (start.trans next fun _ _ no => no)
    · rw [if_pos ⟨nonnull, nonnull'⟩]
      have pair := scratch.pair scratch'
      apply (staged ai ao t₁ pair).bind
      rintro r t₂ ⟨later, meets⟩
      obtain ⟨k, _, own⟩ := pair.right.block
      apply (arenaFree_settles meets.after ⟨k, later _ own⟩ pair.right.fresh).bind
      rintro _ t₃ ⟨after, stays, mem⟩
      obtain ⟨k, _, own⟩ := pair.left.block
      apply (arenaFree_settles after ⟨k, stays _ (later _ own) pair.ne⟩ pair.left.fresh).bind
      rintro _ t₄ ⟨after, _, mem'⟩
      exact meets.settle room after.valid after.live fun a ha => (mem' a ha).trans (mem a ha)

end

/-! ### The sequential loops -/

section
variable {A : ArenaModel β} {kernels : ElementKernels β} {shaders : String → Shader β} {mayFail anySet : Prop} {t : World A}
  {c : Codec β α} {d : Codec β δ} {input output n p : Nat}

theorem foldl_succ {h : γ → α → γ} {acc : γ} {m : Nat → β} {i : Nat} :
    (c.list m p (i + 1)).foldl h acc = h ((c.list m p i).foldl h acc) (c.get m p i) := by
  rw [Codec.list_succ, List.foldl_append]
  rfl

theorem readLoop_ensures {h : γ → α → γ} {acc : γ} (hp : t.Holds p (n * c.size)) :
    (foldEach (fun i acc => do let x ← load c p i; pure (h acc x)) (List.range n) acc).Ensures
      (funnels A kernels shaders mayFail anySet) (fun r t' => r = (c.list t.mem p n).foldl h acc ∧ t' = t) t := by
  rw [List.range_eq_range']
  apply Prog.Ensures.mono
  · apply foldEach_ensures (fun i r t' => r = (c.list t.mem p i).foldl h acc ∧ t' = t) ⟨rfl, rfl⟩
    rintro i _ _ lt ⟨rfl, rfl⟩
    apply (load_ensures hp (by omega)).bind
    rintro _ _ ⟨rfl, rfl⟩
    exact ⟨foldl_succ.symm, rfl⟩
  · intro r t' read
    rwa [Nat.zero_add] at read

theorem loadAll_ensures (hp : t.Holds p (n * c.size)) :
    (loadAll c p n).Ensures (funnels A kernels shaders mayFail anySet) (fun xs t' => xs = c.list t.mem p n ∧ t' = t) t := by
  apply (readLoop_ensures hp).mono
  rintro _ _ ⟨rfl, rfl⟩
  simp [← List.flatMap_def]

/-- One round reads an element, writes one, and changes the accumulator. -/
theorem writeLoop_ensures (g : γ → α → δ) (h : γ → α → γ) {acc : γ} (valid : A.Valid t.arena)
    (hi : t.Holds input (n * c.size)) (ho : t.Holds output (n * d.size)) (apart : c.Pointwise input d output n) :
    (foldEach (fun i acc => do
      let x ← load c input i
      store d output i (g acc x)
      pure (h acc x)) (List.range n) acc).Ensures (funnels A kernels shaders mayFail anySet)
      (fun _ t' => Stored d output
        ((List.range n).map fun i => g ((c.list t.mem input i).foldl h acc) (c.get t.mem input i)) t t') t := by
  rw [List.range_eq_range']
  apply Prog.Ensures.mono
  · apply foldEach_ensures (fun i r t' => r = (c.list t.mem input i).foldl h acc ∧ After (d.Covers output n) t t' ∧
      (∀ j < i, d.get t'.mem output j = g ((c.list t.mem input j).foldl h acc) (c.get t.mem input j)) ∧
      ∀ j < n, i ≤ j → c.get t'.mem input j = c.get t.mem input j)
      ⟨rfl, After.refl valid, by omega, fun _ _ _ => rfl⟩
    rintro i _ t₁ lt ⟨rfl, after, elems, rest⟩
    apply (load_ensures (after.holds hi) (by omega)).bind
    rintro _ _ ⟨rfl, rfl⟩
    apply (store_ensures after.valid (after.holds ho) (i := i) (by omega)).bind
    rintro _ t₂ ⟨wrote, mem⟩
    rw [rest i (by omega) (Nat.le_refl i)] at mem ⊢
    refine ⟨foldl_succ.symm, after.trans wrote fun _ _ h => h, fun j hj => ?_, fun j hj le => ?_⟩
    · rw [mem, Codec.get_put]
      split
      · next same => rw [same]
      · next other => exact elems j (by omega)
    · rw [mem, apart.get_put (by omega) hj (by omega)]
      exact rest j hj (by omega)
  · rintro _ t' ⟨_, after, elems, _⟩
    rw [← List.range_eq_range']
    constructor
    · simpa using after
    · apply Codec.list_eq
      · rfl
      · intro i hi
        simpa using elems i (by simpa using hi)

theorem mapLoop_ensures {f : α → δ} (valid : A.Valid t.arena) (hi : t.Holds input (n * c.size))
    (ho : t.Holds output (n * d.size)) (apart : c.Pointwise input d output n) :
    (foldEach (fun i _ => do let x ← load c input i; store d output i (f x)) (List.range n) ()).Ensures
      (funnels A kernels shaders mayFail anySet) (fun _ t' => Stored d output ((c.list t.mem input n).map f) t t') t := by
  have same : (List.range n).map (fun i => f (c.get t.mem input i)) = (c.list t.mem input n).map f := by
    simp [Codec.list]
  rw [← same]
  exact writeLoop_ensures (fun (_ : Unit) x => f x) (fun _ _ => ()) valid hi ho apart

theorem storeAll_ensures {l : List α} {i : Nat} (valid : A.Valid t.arena) (hp : t.Holds p ((i + l.length) * c.size)) :
    (storeAll c p i l).Ensures (funnels A kernels shaders mayFail anySet) (fun _ t' =>
      After (c.Covers p (i + l.length)) t t' ∧ c.list t'.mem p (i + l.length) = c.list t.mem p i ++ l) t := by
  induction l generalizing i t with
  | nil => exact ⟨After.refl valid, by simp⟩
  | cons x l ih =>
    rw [List.length_cons, show i + (l.length + 1) = i + 1 + l.length by omega] at hp ⊢
    apply (store_ensures valid hp (i := i) (by omega)).bind
    rintro _ t₁ ⟨wrote, mem⟩
    apply (ih wrote.valid (wrote.holds hp)).mono
    rintro _ t₂ ⟨after, list⟩
    refine ⟨wrote.trans after fun _ _ h => h, ?_⟩
    have before : c.list t₁.mem p i = c.list t.mem p i := by
      rw [mem]
      exact Codec.list_congr fun j hj => Codec.get_put_of_ne (by omega)
    rw [list, Codec.list_succ, before, mem, Codec.get_put_same, List.append_assoc]
    rfl

theorem storeAll_stored {l : List α} (valid : A.Valid t.arena) (hp : t.Holds p (l.length * c.size)) :
    (storeAll c p 0 l).Ensures (funnels A kernels shaders mayFail anySet) (fun _ t' => Stored c p l t t') t := by
  apply (storeAll_ensures valid (i := 0) (by rwa [Nat.zero_add])).mono
  rintro _ t' ⟨after, list⟩
  rw [Nat.zero_add] at after list
  exact ⟨after, list⟩

/-- The elements that pass move forward, over elements that were read already. -/
theorem copyPassing_ensures {pred : α → Bool} (valid : A.Valid t.arena) (hi : t.Holds input (n * c.size))
    (ho : t.Holds output (((c.list t.mem input n).filter pred).length * c.size)) (apart : c.Pointwise input c output n) :
    (copyPassing c pred input output n).Ensures (funnels A kernels shaders mayFail anySet) (fun r t' =>
      r = ((c.list t.mem input n).filter pred).length ∧ Stored c output ((c.list t.mem input n).filter pred) t t') t := by
  have passed : ∀ i ≤ n, ((c.list t.mem input i).filter pred).length ≤ ((c.list t.mem input n).filter pred).length := by
    intro i le
    rw [← Codec.list_take le]
    exact ((List.take_sublist i _).filter pred).length_le
  unfold copyPassing
  rw [List.range_eq_range']
  apply Prog.Ensures.mono
  · apply foldEach_ensures (fun i k t' => k = ((c.list t.mem input i).filter pred).length ∧
      After (c.Covers output ((c.list t.mem input n).filter pred).length) t t' ∧
      c.list t'.mem output k = (c.list t.mem input i).filter pred ∧
      ∀ j < n, i ≤ j → c.get t'.mem input j = c.get t.mem input j)
      ⟨rfl, After.refl valid, rfl, fun _ _ _ => rfl⟩
    rintro i _ t₁ lt ⟨rfl, after, list, rest⟩
    rw [Nat.zero_add] at lt
    have few : ((c.list t.mem input i).filter pred).length ≤ i := by
      simpa using List.length_filter_le pred (c.list t.mem input i)
    apply (load_ensures (after.holds hi) lt).bind
    rintro _ t₁ ⟨rfl, rfl⟩
    rw [rest i lt (Nat.le_refl i)]
    cases pass : pred (c.get t.mem input i) with
    | false =>
      rw [if_neg Bool.false_ne_true]
      have same : (c.list t.mem input (i + 1)).filter pred = (c.list t.mem input i).filter pred := by
        simp [Codec.list_succ, pass]
      rw [Prog.ensures_pure, same]
      exact ⟨rfl, after, list, fun j hj le => rest j hj (by omega)⟩
    | true =>
      rw [if_pos rfl]
      have grown : (c.list t.mem input (i + 1)).filter pred =
          (c.list t.mem input i).filter pred ++ [c.get t.mem input i] := by
        simp [Codec.list_succ, pass]
      have slot := passed (i + 1) lt
      rw [grown, List.length_append, List.length_singleton] at slot
      apply (store_ensures after.valid (after.holds ho) slot).bind
      rintro _ t₂ ⟨wrote, mem⟩
      rw [Prog.ensures_pure, grown]
      refine ⟨by simp, after.trans wrote fun _ _ h => h, ?_, fun j hj le => ?_⟩
      · have before : c.list t₂.mem output ((c.list t.mem input i).filter pred).length = (c.list t.mem input i).filter pred := by
          rw [mem, ← list, Codec.list_length]
          exact Codec.list_congr fun j hj => Codec.get_put_of_ne (Nat.ne_of_lt hj)
        rw [Codec.list_succ, before, mem, Codec.get_put_same]
      · have untouched := apart.get_put (m := t₁.mem) (x := c.get t.mem input i) (Nat.lt_of_le_of_lt few lt) hj (by omega)
        rw [mem, untouched]
        exact rest j hj (by omega)
  · rintro _ t' ⟨rfl, after, list, _⟩
    rw [Nat.zero_add] at list ⊢
    exact ⟨rfl, after, list⟩

end

end Parallax.Funnels
