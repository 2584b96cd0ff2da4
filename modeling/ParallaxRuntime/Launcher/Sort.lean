import ParallaxRuntime.Kernel.Bitonic
import ParallaxRuntime.Launcher.Granted

/-!
# The bitonic sort

`launch_sort` over `bitonic.comp`: the loops run the stages of the sorting network, and
any prefix of them permutes the array.
-/

namespace Parallax.Launcher
open Memory Effects Arena Kernel

section
variable {β α : Type} {c : Codec β α} {A : ArenaModel β} {s : A.State} {data n : Nat}

/-- The array at `data` was permuted, and nothing else changed. -/
structure Permuted (c : Codec β α) (A : ArenaModel β) (data n : Nat) (s s' : A.State) : Prop extends
    Wrote A (c.Covers data (2 ^ n)) s s' where
  perm : (elements c (A.mem s') data (2 ^ n)).Perm (elements c (A.mem s) data (2 ^ n))

theorem Permuted.refl (valid : A.Valid s) : Permuted c A data n s s :=
  ⟨⟨valid, rfl, fun _ _ _ => rfl⟩, List.Perm.refl _⟩

theorem Permuted.trans {s' s'' : A.State} (h : Permuted c A data n s s') (h' : Permuted c A data n s' s'') :
    Permuted c A data n s s'' := ⟨h.toWrote.trans h'.toWrote, h'.perm.trans h.perm⟩

end

section
variable {β α : Type} [LinearOrder α]

def bitonicShader (c : Codec β α) : Shader β :=
  arrayShader c c (fun push _ => push.count) (fun _ _ => 0) fun data _ push groups =>
    InAnyOrder (groups * 256) (bitonicInvocation c data push.count push.stage.1 push.stage.2)

variable {c : Codec β α} {A : ArenaModel β} {shaders : String → Shader β} {mayFail : Prop} {s : A.State}
  {kernel : String} {data n groups : Nat} {loaded : String → Bool} {devBase : Nat}

theorem ensures_sortStage {k t : Nat} {Q : Bool → A.State → Prop} (found : shaders kernel = bitonicShader c)
    (valid : A.Valid s) (block : InBlock (A.live s) data (2 ^ n * c.size)) (ht : t < k) (hk : k ≤ n)
    (enough : 2 ^ n ≤ groups * 256) (fail : mayFail → Q false s)
    (ok : ∀ s', Permuted c A data n s s' →
      (∀ i < 2 ^ n, c.get (A.mem s') data i = compareExchange (2 ^ k) (2 ^ t) (c.get (A.mem s) data) i) → Q true s') :
    (dispatchSortStage kernel (arrayBinding c A data (2 ^ n)) (2 ^ n) (2 ^ k) (2 ^ t) groups).Ensures
      (machine A shaders mayFail fun _ _ => True) Q s := by
  refine ensures_arrayDispatch found valid block block ⟨le_refl _, Nat.zero_le _⟩ trivial (fun m run a dead => ?_) fail
    fun s' valid' live run => ?_
  · exact (bitonic_spec run ht hk enough).2.2 a fun h => dead (liveByte_of_covers block h)
  · obtain ⟨elems, perm, frame⟩ := bitonic_spec run ht hk enough
    exact ok s' ⟨⟨valid', live, fun a _ out => frame a out⟩, perm⟩ elems

theorem sortInner_ensures {k t : Nat} (found : shaders kernel = bitonicShader c) (valid : A.Valid s)
    (block : InBlock (A.live s) data (2 ^ n * c.size)) (ht : t ≤ k) (hk : k ≤ n) (enough : 2 ^ n ≤ groups * 256) :
    (sortInner kernel (arrayBinding c A data (2 ^ n)) (2 ^ n) (2 ^ k) groups (2 ^ t / 2)).Ensures
      (machine A shaders mayFail fun _ _ => True)
      (fun r s' => (r = false → mayFail) ∧ Permuted c A data n s s' ∧
        (r = true → ∀ i < 2 ^ n, c.get (A.mem s') data i = mergeStages (2 ^ k) t (c.get (A.mem s) data) i)) s := by
  induction t generalizing s with
  | zero =>
    rw [sortInner]
    exact ⟨fun no => Bool.noConfusion no, Permuted.refl valid, fun _ _ _ => rfl⟩
  | succ t ih =>
    have half : 2 ^ (t + 1) / 2 = 2 ^ t := by rw [Nat.pow_succ, Nat.mul_div_cancel _ (by decide)]
    rw [sortInner, half, if_pos (Nat.two_pow_pos t)]
    refine Prog.ensures_bind.mpr (ensures_sortStage found valid block ht hk enough (fun may => ?_) fun s₁ stage elems => ?_)
    · rw [if_neg Bool.false_ne_true]
      exact ⟨fun _ => may, Permuted.refl valid, fun no => Bool.noConfusion no⟩
    · rw [if_pos rfl]
      refine (ih stage.valid (stage.live ▸ block) (by omega)).mono fun r s' ⟨failed, rest, done⟩ =>
        ⟨failed, stage.trans rest, fun on i hi => ?_⟩
      rw [done on i hi]
      exact mergeStages_congr (by omega) elems i hi

theorem sortOuter_ensures {x : Nat → α} {k fuel : Nat} (found : shaders kernel = bitonicShader c) (valid : A.Valid s)
    (block : InBlock (A.live s) data (2 ^ n * c.size)) (hk : k ≤ n) (hn : n ≤ 30) (enough : 2 ^ n ≤ groups * 256)
    (rounds : n - k < fuel) (sorted : ∀ i < 2 ^ n, c.get (A.mem s) data i = sortRounds k x i) :
    (sortOuter kernel (arrayBinding c A data (2 ^ n)) (2 ^ n) groups fuel (2 ^ (k + 1))).Ensures
      (machine A shaders mayFail fun _ _ => True)
      (fun r s' => r ≠ none ∧ (r = some false → mayFail) ∧ Permuted c A data n s s' ∧
        (r = some true → ∀ i < 2 ^ n, c.get (A.mem s') data i = sortRounds n x i)) s := by
  induction fuel generalizing k s with
  | zero => omega
  | succ fuel ih =>
    rw [sortOuter]
    apply Prog.ensures_ite
    · intro more
      have next : k + 1 ≤ n := (Nat.pow_le_pow_iff_right (by decide)).mp more
      have shift : 2 ^ (k + 1) * 2 % 2 ^ 32 = 2 ^ (k + 1 + 1) := by
        rw [← Nat.pow_succ, Nat.mod_eq_of_lt (Nat.pow_lt_pow_right (by decide) (by omega))]
      rw [shift]
      refine Prog.ensures_bind.mpr ((sortInner_ensures found valid block le_rfl next enough).mono
        fun ok s₁ ⟨failed, moved, merged⟩ => Prog.ensures_ite (fun on => ?_) fun off => ?_)
      · refine (ih moved.valid (moved.live ▸ block) next (by omega) fun i hi => ?_).mono
          fun r s' ⟨back, lost, rest, done⟩ => ⟨back, lost, moved.trans rest, done⟩
        rw [merged on i hi, sortRounds]
        exact mergeStages_congr next sorted i hi
      · refine ⟨Option.some_ne_none _, fun _ => failed (Bool.eq_false_of_not_eq_true off), moved, fun no => ?_⟩
        exact Bool.noConfusion (Option.some.inj no)
    intro done
    have last : k = n := by
      have := (Nat.pow_le_pow_iff_right (by decide : 1 < 2) (n := k + 1) (m := n)).not.mp done
      omega
    subst last
    exact ⟨Option.some_ne_none _, fun no => Bool.noConfusion (Option.some.inj no), Permuted.refl valid, fun _ => sorted⟩

/-- Whatever happened, the array is a permutation of the input; it is sorted if the answer is
true, and only a failed call makes it false. -/
def SortOutcome (c : Codec β α) (A : ArenaModel β) (mayFail : Prop) (data n : Nat) (s : A.State) (r : Option Bool)
    (s' : A.State) : Prop :=
  r ≠ none ∧ (r = some false → mayFail) ∧ Permuted c A data n s s' ∧
  (r = some true → (elements c (A.mem s') data (2 ^ n)).Pairwise (· ≤ ·))

theorem launchSort_ensures {fuel : Nat} (known : loaded kernel = true) (found : shaders kernel = bitonicShader c)
    (valid : A.Valid s) (block : InBlock (A.live s) data (2 ^ n * c.size)) (hn : n ≤ 30) (enough : n < fuel) :
    (launchSort (contextOf A loaded devBase) kernel data (2 ^ n) c.size fuel).Ensures
      (machine A shaders mayFail fun _ _ => True) (SortOutcome c A mayFail data n s) s := by
  have pos := Nat.two_pow_pos n
  have small : 2 ^ n ≤ 2 ^ 30 := Nat.pow_le_pow_right (by decide) hn
  have bounds := block.bounds valid
  unfold launchSort
  apply ensures_withArenaSync
  apply Prog.ensures_ite
  · intro missing
    exact absurd missing (by simp [contextOf, known])
  intro _
  apply Prog.ensures_ite
  · intro one
    refine ⟨Option.some_ne_none _, fun no => Bool.noConfusion (Option.some.inj no), Permuted.refl valid, fun _ => ?_⟩
    refine List.pairwise_ofFn.mpr fun i j lt => ?_
    have := j.isLt
    omega
  intro many
  apply Prog.ensures_ite
  · intro ragged
    exact absurd (by rw [Nat.and_two_pow_sub_one_eq_mod, Nat.mod_self]) ragged
  intro _
  rw [wmul_of_lt (by omega)]
  apply ensures_resolve valid block (Nat.mul_pos pos c.pos)
  dsimp only [Option.elim]
  rw [Nat.mod_eq_of_lt (by omega)]
  refine Prog.ensures_bind.mpr ((sortOuter_ensures (k := 0) (x := c.get (A.mem s) data) found valid block (Nat.zero_le n) hn
    (by omega) (by omega) fun i _ => rfl).mono fun r s' ⟨back, lost, moved, sorted⟩ => ?_)
  have ascending : r = some true → (elements c (A.mem s') data (2 ^ n)).Pairwise (· ≤ ·) := fun on =>
    List.pairwise_ofFn.mpr fun i j lt => by
      rw [sorted on i i.isLt, sorted on j j.isLt]
      exact sortRounds_sorted _ (le_of_lt lt) j.isLt
  refine Prog.ensures_ite (fun on => ?_) fun off => ⟨back, lost, moved, ascending⟩
  exact ensures_download moved.valid (moved.live ▸ block) (Nat.mul_pos pos c.pos) ⟨back, lost, moved, ascending⟩

/-! ### The run in which nothing fails -/

theorem bitonicShader_runs {base : Nat} {ok : Dispatch β → Prop} : (bitonicShader c).Runs base ok False := by
  refine arrayShader_runs fun data _ push groups m => ?_
  obtain ⟨m', run⟩ := InAnyOrder.exists_run (groups * 256) (bitonicInvocation c data push.count push.stage.1 push.stage.2) m
  exact ⟨m', run, fun no => no.elim⟩

theorem sortInner_asks {binding : Binding} {count k j : Nat} (runs : ∀ ok, (shaders kernel).Runs A.base ok False) :
    (sortInner kernel binding count k groups j).Ensures (asking A shaders fun _ _ => True) (fun _ left => left = []) [] := by
  induction j using Nat.strong_induction_on with
  | _ j ih =>
    rw [sortInner]
    apply Prog.ensures_ite
    · intro more
      refine Prog.ensures_bind.mpr (asks_dispatch (runs _).last ?_)
      rw [if_pos rfl]
      exact ih (j / 2) (by omega)
    · exact fun _ => rfl

theorem sortOuter_asks {binding : Binding} {count fuel k : Nat} (runs : ∀ ok, (shaders kernel).Runs A.base ok False) :
    (sortOuter kernel binding count groups fuel k).Ensures (asking A shaders fun _ _ => True) (fun _ left => left = []) [] := by
  induction fuel generalizing k with
  | zero => exact rfl
  | succ fuel ih =>
    rw [sortOuter]
    apply Prog.ensures_ite
    · intro more
      refine (sortInner_asks runs).bind ?_
      rintro ok _ rfl
      exact Prog.ensures_ite (fun _ => ih) fun _ => rfl
    · exact fun _ => rfl

theorem launchSort_asks {count es fuel : Nat} (runs : ∀ ok, (shaders kernel).Runs A.base ok False)
    (contains : 1 < count → (contextOf A loaded devBase).contains data = true) :
    (launchSort (contextOf A loaded devBase) kernel data count es fuel).Ensures (asking A shaders fun _ _ => True) (fun _ _ => True) [] := by
  unfold launchSort
  apply asks_withArenaSync
  refine Prog.ensures_ite (fun _ => trivial) fun _ => Prog.ensures_ite (fun _ => trivial) fun many =>
    Prog.ensures_ite (fun _ => trivial) fun _ => ?_
  have contains := contains (by omega)
  apply asks_resolve contains
  dsimp only [Option.elim]
  refine (sortOuter_asks runs).bind ?_
  rintro done _ rfl
  exact Prog.ensures_ite (fun _ => asks_download contains trivial) fun _ => trivial

theorem launchSort_exists {fuel : Nat} (known : loaded kernel = true) (found : shaders kernel = bitonicShader c)
    (valid : A.Valid s) (block : InBlock (A.live s) data (2 ^ n * c.size)) (hn : n ≤ 30) (enough : n < fuel) :
    ∃ s', (launchSort (contextOf A loaded devBase) kernel data (2 ^ n) c.size fuel).Run (machineStep A shaders False) s (some true) s' := by
  have sorts : (launchSort (contextOf A loaded devBase) kernel data (2 ^ n) c.size fuel).Ensures
      (machine A shaders False fun _ _ => True) (SortOutcome c A False data n s) s :=
    launchSort_ensures known found valid block hn enough
  have contains : (contextOf A loaded devBase).contains data = true :=
    contains_of_inBlock valid block (Nat.mul_pos (Nat.two_pow_pos n) c.pos)
  obtain ⟨r, s', left, run, -⟩ :=
    exists_granted_run sorts (launchSort_asks (fun _ => found ▸ bitonicShader_runs) fun _ => contains) trivial
  obtain ⟨back, failed, -⟩ := sorts.run run
  obtain ⟨done, rfl⟩ := Option.ne_none_iff_exists'.mp back
  cases done with
  | false => exact (failed rfl).elim
  | true => exact ⟨s', run⟩

/-- There is a run of `launch_sort` on `2 ^ n` elements in which nothing fails, each such run sorts, and
whichever stage fails leaves a permutation of the input. -/
theorem launchSort_sorts {fuel : Nat} (known : loaded kernel = true) (found : shaders kernel = bitonicShader c)
    (valid : A.Valid s) (block : InBlock (A.live s) data (2 ^ n * c.size)) (hn : n ≤ 30) (enough : n < fuel) :
    (∃ s', (launchSort (contextOf A loaded devBase) kernel data (2 ^ n) c.size fuel).Run (machineStep A shaders False)
      s (some true) s') ∧
    ∀ (mayFail : Prop) r s', (launchSort (contextOf A loaded devBase) kernel data (2 ^ n) c.size fuel).Run
      (machineStep A shaders mayFail) s r s' → SortOutcome c A mayFail data n s r s' :=
  ⟨launchSort_exists known found valid block hn enough, fun _ _ _ run => (launchSort_ensures known found valid block hn enough).run run⟩

end

/-- A sort of 256 numbers in the first block of the small arena. -/
theorem launchSort_sorts_256 :
    let s : Legacy.smallArena.State := (Legacy.twoBlocks, fun a => a * 7919 % 1000)
    let shaders : String → Shader Nat := fun _ => bitonicShader Codec.quad
    let sort : Launch Nat (Option Bool) :=
      launchSort (contextOf Legacy.smallArena (fun _ => true) 0) "bitonic" 4096 (2 ^ 8) Codec.quad.size 32
    (∃ s', sort.Run (machineStep Legacy.smallArena shaders False) s (some true) s') ∧
    ∀ (mayFail : Prop) r s', sort.Run (machineStep Legacy.smallArena shaders mayFail) s r s' →
      SortOutcome Codec.quad Legacy.smallArena mayFail 4096 8 s r s' := by
  intro s shaders sort
  apply launchSort_sorts
  · rfl
  · rfl
  · exact Legacy.twoBlocks_valid _
  · exact Legacy.twoBlocks_first (by decide)
  · decide
  · decide

end Parallax.Launcher
