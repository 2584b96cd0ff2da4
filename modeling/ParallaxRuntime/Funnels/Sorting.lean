import ParallaxRuntime.Funnels.Results

/-!
# Sorting through a padded copy

The sort primitive takes powers of two. `device_sort` pads a copy of its data with the largest
number of the type, sorts it, and takes the front back.
-/

namespace Parallax.Funnels
open Memory Effects Arena Kernel Launcher
open private Nat.nextPowerOfTwo.go from Init.Data.Nat.Power2.Basic

/-- The padded length is the least power of two that is large enough. -/
theorem nextPowerOfTwo_spec (n : Nat) :
    ∃ e, Nat.nextPowerOfTwo n = 2 ^ e ∧ n ≤ 2 ^ e ∧ ∀ e', n ≤ 2 ^ e' → e ≤ e' := by
  have go : ∀ gap e h, n - 2 ^ e = gap → (∀ e', n ≤ 2 ^ e' → e ≤ e') →
      ∃ k, Nat.nextPowerOfTwo.go n (2 ^ e) h = 2 ^ k ∧ n ≤ 2 ^ k ∧ ∀ e', n ≤ 2 ^ e' → k ≤ e' := by
    intro gap
    induction gap using Nat.strong_induction_on with
    | _ gap ih =>
      rintro e h rfl least
      unfold Nat.nextPowerOfTwo.go
      split
      · next less =>
        have next : ∀ e', n ≤ 2 ^ e' → e + 1 ≤ e' := fun e' he => by
          by_contra no
          have := Nat.pow_le_pow_right (n := 2) (by decide) (show e' ≤ e by omega)
          omega
        exact ih (n - 2 ^ (e + 1)) (Nat.nextPowerOfTwo_dec h less) (e + 1) _ rfl next
      · next enough => exact ⟨e, rfl, by omega, least⟩
  exact go _ 0 (by decide) rfl fun _ _ => Nat.zero_le _

/-! ### Lists with a padding -/

section
variable {α : Type} {le : α → α → Bool} {top : α} {xs ys : List α} {k : Nat}

/-- The last `k` of a sorted list that holds `k` paddings and nothing above are the paddings. -/
theorem drop_padded (single : ∀ x ∈ xs, le x top → le top x → x = top) (above : ∀ x ∈ xs, le x top)
    (perm : ys.Perm (xs ++ List.replicate k top)) (sorted : ys.Pairwise (le · ·)) :
    ys.drop xs.length = List.replicate k top := by
  classical
  have length : ys.length = xs.length + k := by simpa using perm.length_eq
  apply List.eq_replicate_iff.mpr
  refine ⟨by simp [length], fun y member => ?_⟩
  by_contra other
  obtain ⟨before, after, split⟩ := List.append_of_mem member
  have whole : ys = (ys.take xs.length ++ before) ++ y :: after := by
    rw [List.append_assoc, ← split, List.take_append_drop]
  have old : y ∈ xs := by
    rcases List.mem_append.mp (perm.mem_iff.mp (List.mem_of_mem_drop member)) with h | h
    · exact h
    · exact absurd (List.eq_of_mem_replicate h) other
  -- All paddings come after `y`, and there is not enough room for them.
  have absent : top ∉ ys.take xs.length ++ before := by
    intro early
    rw [whole] at sorted
    exact other (single y old (above y old) ((List.pairwise_append.mp sorted).2.2 top early y List.mem_cons_self))
  have few : ys.count top ≤ after.length := by
    rw [whole, List.count_append, List.count_eq_zero.mpr absent, List.count_cons_of_ne other, Nat.zero_add]
    exact List.count_le_length
  have many : k ≤ ys.count top := by
    rw [perm.count_eq, List.count_append, List.count_replicate_self]
    exact Nat.le_add_left k _
  have room : (ys.drop xs.length).length = before.length + (after.length + 1) := by
    rw [split, List.length_append, List.length_cons]
  rw [List.length_drop, length] at room
  omega

/-- The front is what was sorted exactly when there is no padding, or nothing above it. -/
theorem take_padded_iff (single : ∀ x ∈ xs, le x top → le top x → x = top)
    (perm : ys.Perm (xs ++ List.replicate k top)) (sorted : ys.Pairwise (le · ·)) :
    (ys.take xs.length).Perm xs ↔ k = 0 ∨ ∀ x ∈ xs, le x top := by
  constructor
  · intro kept
    by_cases none : k = 0
    · exact Or.inl none
    · refine Or.inr fun x member => ?_
      have rest : (ys.drop xs.length).Perm (List.replicate k top) := by
        have both := perm
        rw [← List.take_append_drop xs.length ys] at both
        exact (List.perm_append_left_iff xs).mp ((kept.append_right _).symm.trans both)
      have last : top ∈ ys.drop xs.length := rest.mem_iff.mpr (List.mem_replicate.mpr ⟨none, rfl⟩)
      have order := sorted
      rw [← List.take_append_drop xs.length ys] at order
      exact (List.pairwise_append.mp order).2.2 x (kept.mem_iff.mpr member) top last
  · rintro (rfl | above)
    · have length : ys.length = xs.length := by simpa using perm.length_eq
      rw [← length, List.take_length]
      simpa using perm
    · have dropped := drop_padded single above perm sorted
      rw [← List.take_append_drop xs.length ys, dropped] at perm
      exact (List.perm_append_right_iff _).mp perm

end

/-! ### `device_sort` -/

section
variable {β α : Type} {A : ArenaModel β} {kernels : ElementKernels β} {shaders : String → Shader β} {anySet : Prop} {t : World A}
  {c : Codec β α} {align n fuel data : Nat} {le : α → α → Bool} {top : α} {ctx : Context} {k : String}

/-- The sort primitive sorts arrays of a power of two, up to `2 ^ 30` elements. -/
def SortsPowers (A : ArenaModel β) (kernels : ElementKernels β) (shaders : String → Shader β) (anySet : Prop)
    (ctx : Context) (c : Codec β α) (le : α → α → Bool) (k : String) (fuel : Nat) : Prop :=
  ∀ (t : World A) data e, A.Valid t.arena → InBlock t.live data (2 ^ e * c.size) → e ≤ 30 →
    (parallaxSort ctx k data (2 ^ e) c.size fuel).Ensures (funnels A kernels shaders False anySet) (fun r t' => r = some () ∧
      After (c.Covers data (2 ^ e)) t t' ∧ (c.list t'.mem data (2 ^ e)).Perm (c.list t.mem data (2 ^ e)) ∧
      (c.list t'.mem data (2 ^ e)).Pairwise (le · ·)) t

/-- The same for arrays of elements that `ok` holds of. -/
def SortsPowersOf (ok : α → Prop) (A : ArenaModel β) (kernels : ElementKernels β) (shaders : String → Shader β)
    (anySet : Prop) (ctx : Context) (c : Codec β α) (le : α → α → Bool) (k : String) (fuel : Nat) : Prop :=
  ∀ (t : World A) data e, A.Valid t.arena → InBlock t.live data (2 ^ e * c.size) → e ≤ 30 →
    (∀ x ∈ c.list t.mem data (2 ^ e), ok x) →
    (parallaxSort ctx k data (2 ^ e) c.size fuel).Ensures (funnels A kernels shaders False anySet) (fun r t' => r = some () ∧
      After (c.Covers data (2 ^ e)) t t' ∧ (c.list t'.mem data (2 ^ e)).Perm (c.list t.mem data (2 ^ e)) ∧
      (c.list t'.mem data (2 ^ e)).Pairwise (le · ·)) t

/-- Merge sort, of a list on whose elements the comparison is a total preorder. -/
theorem pairwise_mergeSort_of {ok : α → Prop} {xs : List α} (trans : ∀ a b c, ok a → ok b → ok c → le a b → le b c → le a c)
    (total : ∀ a b, ok a → ok b → le a b || le b a) (elems : ∀ x ∈ xs, ok x) : (xs.mergeSort le).Pairwise (le · ·) := by
  have map : ((xs.attachWith ok elems).mergeSort fun a b => le a b).map Subtype.val = xs.mergeSort le := by
    rw [List.map_mergeSort (f := Subtype.val) (s := le) fun _ _ _ _ => rfl, List.attachWith_map_subtype_val]
  rw [← map]
  apply List.pairwise_map.mpr
  apply List.pairwise_mergeSort
  · exact fun a b c => trans a b c a.2 b.2 c.2
  · exact fun a b => total a b a.2 b.2

/-- The front of a padded list that was sorted. -/
def FrontOfPadded (le : α → α → Bool) (top : α) (xs l : List α) : Prop :=
  ∃ ys : List α, ys.Perm (xs ++ List.replicate (Nat.nextPowerOfTwo xs.length - xs.length) top) ∧ ys.Pairwise (le · ·) ∧
    l = ys.take xs.length

theorem pad_ensures {p m : Nat} {xs : List α} (valid : A.Valid t.arena) (own : InBlock t.live p (m * c.size)) (le_m : n ≤ m)
    (list : c.list t.mem p n = xs) :
    (foldEach (fun i _ => store c p i top) (List.range' n (m - n)) ()).Ensures (funnels A kernels shaders False anySet)
      (fun _ t' => After (c.Covers p m) t t' ∧ c.list t'.mem p m = xs ++ List.replicate (m - n) top) t := by
  apply Prog.Ensures.mono
  · apply foldEach_ensures
      (fun i _ t' => After (c.Covers p m) t t' ∧ n ≤ i ∧ c.list t'.mem p i = xs ++ List.replicate (i - n) top)
      ⟨After.refl valid, Nat.le_refl n, by simp [list]⟩
    rintro i _ t₁ lt ⟨after, from_, padded⟩
    apply (store_ensures after.valid (World.Holds.of_inBlock after.valid (after.inBlock own)) (i := i) (by omega)).mono
    rintro _ t₂ ⟨wrote, mem⟩
    refine ⟨after.trans wrote fun _ _ h => h, by omega, ?_⟩
    have before : c.list t₂.mem p i = c.list t₁.mem p i := by
      rw [mem]
      exact Codec.list_congr fun j hj => Codec.get_put_of_ne (by omega)
    rw [Codec.list_succ, before, padded, mem, Codec.get_put_same, List.append_assoc, ← List.replicate_succ',
      show i - n + 1 = i + 1 - n by omega]
  · rintro _ t' ⟨after, _, padded⟩
    rw [Nat.add_sub_cancel' le_m] at padded
    exact ⟨after, padded⟩

theorem sortLoop_ensures (valid : A.Valid t.arena) (hd : t.Holds data (n * c.size)) :
    (loadAll c data n >>= fun xs => storeAll c data 0 (xs.mergeSort le) >>= fun _ => (pure (some ()) : Funnel β _)).Ensures
      (funnels A kernels shaders False anySet)
      (fun r t' => r = some () ∧ Stored c data ((c.list t.mem data n).mergeSort le) t t') t := by
  apply (loadAll_ensures hd).bind
  rintro xs t₁ ⟨rfl, rfl⟩
  apply (storeAll_stored valid (l := (c.list t₁.mem data n).mergeSort le) (by simpa using hd)).bind
  intro _ t₂ stored
  exact ⟨rfl, stored⟩

/-- The data becomes the front of the padded copy sorted, or is sorted where it is. -/
theorem deviceSort_ensures {loaded : String → Bool} {devBase : Nat} {ok : α → Prop}
    (sorts : SortsPowersOf ok A kernels shaders anySet (contextOf A loaded devBase) c le k fuel)
    (trans : ∀ a b c, ok a → ok b → ok c → le a b → le b c → le a c) (total : ∀ a b, ok a → ok b → le a b || le b a)
    (okTop : ok top) (elems : ∀ x ∈ c.list t.mem data n, ok x) (valid : A.Valid t.arena)
    (hd : t.Holds data (n * c.size)) (size : c.size ≤ 2 ^ 30) (aligned : align ≤ 256) (small : n ≤ 2 ^ 30) :
    (deviceSort (contextOf A loaded devBase) c align le top (some k) data n fuel).Ensures (funnels A kernels shaders False anySet)
      (Meets c data n c data (fun xs r l => r = some () ∧ (FrontOfPadded le top xs l ∨
        (Refuses t (Nat.nextPowerOfTwo n * c.size) ∧ l.Perm xs ∧ l.Pairwise (le · ·)))) t) t := by
  obtain ⟨e, power, enough, least⟩ := nextPowerOfTwo_spec n
  have exponent : e ≤ 30 := least 30 small
  have large : 2 ^ e ≤ 2 ^ 30 := Nat.pow_le_pow_right (by decide) exponent
  obtain ⟨fits, bytes⟩ := bytes_small (c := c) (n := 2 ^ e) size (by omega)
  obtain ⟨_, bytes'⟩ := bytes_small (c := c) (n := n) size (by omega)
  unfold deviceSort
  dsimp only [Option.elim]
  rw [power, bytes, bytes']
  apply Prog.ensures_ite
  · intro inside
    obtain ⟨same, contained⟩ := inside
    subst same
    apply (sorts t data e valid (hd.inBlock contained) exponent elems).mono
    rintro r t' ⟨done, after, perm, sorted⟩
    refine ⟨_, ⟨done, Or.inl ⟨c.list t'.mem data (2 ^ e), ?_, sorted, ?_⟩⟩, Stored.of_length (by simp) after rfl⟩
    · simpa [power] using perm
    · rw [Codec.list_length, List.take_of_length_le (by simp)]
  intro _
  apply meets_withScratch valid fits aligned hd
  · rintro _ l ⟨_, ⟨ys, perm, _, rfl⟩ | ⟨_, perm, _⟩⟩
    · exact hd.sub (Nat.mul_le_mul_right _ (by simp))
    · exact hd.sub (by simp [perm.length_eq])
  · intro null t' start
    apply (sortLoop_ensures start.valid (start.holds hd)).mono
    rintro _ t₂ ⟨rfl, stored⟩
    have same := start.list_eq hd fun _ _ no => no
    refine ⟨_, ⟨rfl, Or.inr ⟨null, List.mergeSort_perm _ le, ?_⟩⟩, stored⟩
    exact pairwise_mergeSort_of trans total (same ▸ elems)
  · intro pad t₁ scratch
    have room : Scratch t pad (n * c.size) t₁ :=
      { scratch with
        block := by
          obtain ⟨j, fit, own⟩ := scratch.block
          exact ⟨j, le_trans (Nat.mul_le_mul_right _ enough) fit, own⟩
        apart := fun i lt => scratch.apart i (lt_of_lt_of_le lt (Nat.mul_le_mul_right _ enough)) }
    apply (stage_ensures room hd).bind
    rintro _ t₂ ⟨since, grown, staged⟩
    have own := inBlock_mono grown scratch.inBlock
    apply (pad_ensures since.valid own enough staged).bind
    rintro _ t₃ ⟨padding, padded⟩
    have since₃ := scratch.wrote since padding
    have okPadded : ∀ x ∈ c.list t₃.mem pad (2 ^ e), ok x := by
      intro x member
      rw [padded] at member
      rcases List.mem_append.mp member with old | new
      · exact elems x old
      · rw [List.eq_of_mem_replicate new]
        exact okTop
    apply (sorts t₃ pad e since₃.valid (padding.inBlock own) exponent okPadded).bind
    rintro r t₄ ⟨done, sorting, perm, sorted⟩
    have own₄ := sorting.inBlock (padding.inBlock own)
    have front : InBlock t₄.live pad (n * c.size) :=
      own₄.sub (Nat.le_refl _) (Nat.add_le_add_left (Nat.mul_le_mul_right _ enough) _)
    apply (unstage_ensures (scratch.wrote since₃ sorting) front hd).bind
    rintro _ t₅ ⟨grown', stored⟩
    rw [padded] at perm
    refine ⟨fun b hb => grown' b (sorting.live b (padding.live b (grown b hb))), _, ⟨done, Or.inl ⟨_, ?_, sorted, ?_⟩⟩, stored⟩
    · simpa [power] using perm
    · rw [Codec.list_length, Codec.list_take enough]

end

section
variable {β α : Type} [LinearOrder α] {A : ArenaModel β} {kernels : ElementKernels β} {shaders : String → Shader β}
  {t : World A} {c : Codec β α} {align n fuel data : Nat} {top : α} {loaded : String → Bool} {devBase : Nat} {k : Option String}

theorem bitonic_sortsPowers {k : String} (known : loaded k = true) (found : shaders k = bitonicShader c) (rounds : 30 < fuel) :
    SortsPowers A kernels shaders anySet (contextOf A loaded devBase) c (fun a b => decide (a ≤ b)) k fuel := by
  intro t data e valid block small
  apply (parallaxSort_ensures known found valid block small (by omega)).mono
  rintro r t' ⟨done, after, perm, sorted⟩
  exact ⟨done, after, perm, by simpa using sorted⟩

theorem eq_mergeSort {xs l : List α} (perm : l.Perm xs) (sorted : l.Pairwise fun a b => decide (a ≤ b) = true) :
    l = xs.mergeSort fun a b => decide (a ≤ b) := by
  have other : (xs.mergeSort fun a b => decide (a ≤ b)).Pairwise fun a b => decide (a ≤ b) = true :=
    List.pairwise_mergeSort (by simpa using fun a b c => le_trans) (by simpa using le_total) xs
  simp only [decide_eq_true_eq] at sorted other
  exact List.Perm.eq_of_pairwise (fun _ _ _ _ => le_antisymm) sorted other (perm.trans (List.mergeSort_perm xs _).symm)

theorem deviceSort_sorts (kernel : ∀ name ∈ k, loaded name = true ∧ shaders name = bitonicShader c) (above : ∀ x, x ≤ top)
    (valid : A.Valid t.arena) (hd : t.Holds data (n * c.size)) (size : c.size ≤ 2 ^ 30) (aligned : align ≤ 256)
    (small : n ≤ 2 ^ 30) (rounds : 30 < fuel) :
    (deviceSort (contextOf A loaded devBase) c align (fun a b => decide (a ≤ b)) top k data n fuel).Ensures
      (funnels A kernels shaders False anySet)
      (Meets c data n c data (fun xs r l => r = some () ∧ l = xs.mergeSort fun a b => decide (a ≤ b)) t) t := by
  cases k with
  | none =>
    apply (sortLoop_ensures valid hd).mono
    rintro _ t' ⟨rfl, stored⟩
    exact ⟨_, ⟨rfl, rfl⟩, stored⟩
  | some k =>
    obtain ⟨known, found⟩ := kernel k rfl
    have sorts : SortsPowersOf (fun _ => True) A kernels shaders anySet (contextOf A loaded devBase) c (fun a b => decide (a ≤ b)) k fuel :=
      fun t data e valid block small _ => bitonic_sortsPowers known found rounds t data e valid block small
    apply (deviceSort_ensures sorts (by simpa using fun a b c => le_trans) (by simpa using le_total) trivial
      (fun _ _ => trivial) valid hd size aligned small).mono
    rintro r t' ⟨l, ⟨done, ⟨ys, perm, sorted, rfl⟩ | ⟨_, perm, sorted⟩⟩, stored⟩
    · have kept := (take_padded_iff (by simpa using fun x _ => le_antisymm) perm sorted).mpr
        (Or.inr fun x _ => by simpa using above x)
      exact ⟨_, ⟨done, eq_mergeSort kept (sorted.sublist (List.take_sublist _ _))⟩, stored⟩
    · exact ⟨_, ⟨done, eq_mergeSort perm sorted⟩, stored⟩

end

end Parallax.Funnels
