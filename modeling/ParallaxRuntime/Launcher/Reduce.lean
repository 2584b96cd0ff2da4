import ParallaxRuntime.Kernel.Reduce
import ParallaxRuntime.Launcher.Granted

/-!
# The multi-level reduction

`launch_reduce` over the kernel `reduce.comp`: two scratch blocks take turns as source
and destination until one element is left.
-/

namespace Parallax.Launcher
open Memory Effects Arena Kernel

section
variable {β α : Type}

/-- A level reads and writes different bytes, and its partials fit in a block that is not
one of `L`. -/
def LevelFits (c : Codec β α) (A : ArenaModel β) (L : List (Nat × Nat)) (d : Dispatch β) (t : A.State) : Prop :=
  (∀ a, c.Covers (A.base + d.binding0.offset) d.push.count a → ¬ c.Covers (A.base + d.binding1.offset) d.groups a) ∧
  ∃ b ∈ A.live t, b ∉ L ∧ b.1 = A.base + d.binding1.offset ∧ d.groups * c.size ≤ b.2

/-- The two scratch blocks, with room for `cap` partials each. -/
structure Scratch (c : Codec β α) (A : ArenaModel β) (L : List (Nat × Nat)) (scratch cap : Bool → Nat) (s : A.State) :
    Prop where
  blocks : ∀ t, ∃ n, (scratch t, n) ∈ A.live s ∧ (scratch t, n) ∉ L ∧ cap t * c.size ≤ n
  apart : ∀ a, c.Covers (scratch true) (cap true) a → ¬ c.Covers (scratch false) (cap false) a

variable {c : Codec β α} {A : ArenaModel β} {L : List (Nat × Nat)} {scratch cap : Bool → Nat} {s s' : A.State}

theorem Scratch.inBlock (h : Scratch c A L scratch cap s) (t : Bool) :
    InBlock (A.live s) (scratch t) (cap t * c.size) := by
  obtain ⟨n, live, -, fits⟩ := h.blocks t
  exact ⟨_, live, Nat.le_refl _, Nat.add_le_add_left fits _⟩

/-- The partials of one level are the source of the next, in the other block. -/
theorem Scratch.turn (h : Scratch c A L scratch cap s) (t : Bool) {a : Nat} (ha : c.Covers (scratch t) (cap t) a) :
    ¬ c.Covers (scratch !t) (cap !t) a := by
  cases t with
  | false => exact fun other => h.apart a other ha
  | true => exact h.apart a ha

theorem Scratch.of_live (h : Scratch c A L scratch cap s) (live : A.live s' = A.live s) : Scratch c A L scratch cap s' :=
  ⟨fun t => live ▸ h.blocks t, h.apart⟩

theorem owned_ofFn {out : Nat} (owned : ∀ a, c.Covers out 1 a → A.Usable (A.live s) a) (x : Fin c.size → β) :
    A.Owned s out (List.ofFn x).length := by
  intro a low high
  rw [List.length_ofFn] at high
  exact owned a ⟨low, by omega⟩

section
variable {s₁ s₂ : A.State} {p₀ n₀ p₁ n₁ cap₀ cap₁ : Nat}

theorem scratch_of_live (valid₁ : A.Valid s₁)
    (live₁ : A.live s₁ = (p₀, n₀) :: L) (valid₂ : A.Valid s₂) (live₂ : A.live s₂ = (p₁, n₁) :: (p₀, n₀) :: L)
    (fits₀ : cap₀ * c.size ≤ n₀) (fits₁ : cap₁ * c.size ≤ n₁) :
    Scratch c A L (fun t => if t then p₁ else p₀) (fun t => if t then cap₁ else cap₀) s₂ := by
  refine ⟨fun t => ?_, fun a ha other => ?_⟩
  · cases t with
    | false =>
      exact ⟨n₀, live₂ ▸ List.mem_cons_of_mem _ List.mem_cons_self, fun old => A.head_fresh valid₁ live₁ _ old rfl, fits₀⟩
    | true =>
      exact ⟨n₁, live₂ ▸ List.mem_cons_self,
        fun old => A.head_fresh valid₂ live₂ _ (List.mem_cons_of_mem _ old) rfl, fits₁⟩
  · obtain ⟨low, high⟩ := ha
    exact A.head_apart valid₂ live₂ ⟨low, Nat.lt_of_lt_of_le high (Nat.add_le_add_left fits₁ _)⟩
      (liveByte_of_covers (InBlock.head fits₀) other)

theorem scratch_not_old (valid₁ : A.Valid s₁) (live₁ : A.live s₁ = (p₀, n₀) :: L) (valid₂ : A.Valid s₂)
    (live₂ : A.live s₂ = (p₁, n₁) :: (p₀, n₀) :: L) (fits₀ : cap₀ * c.size ≤ n₀) (fits₁ : cap₁ * c.size ≤ n₁) {a : Nat}
    (old : A.Usable L a) (t : Bool) : ¬ c.Covers (if t then p₁ else p₀) (if t then cap₁ else cap₀) a := by
  rintro ⟨low, high⟩
  cases t with
  | false => exact A.head_not_usable valid₁ live₁ ⟨low, Nat.lt_of_lt_of_le high (Nat.add_le_add_left fits₀ _)⟩ old
  | true => exact A.head_not_usable valid₂ live₂ ⟨low, Nat.lt_of_lt_of_le high (Nat.add_le_add_left fits₁ _)⟩ old.cons

end

end

section
variable {β M : Type} [AddCommMonoid M]

def reduceShader (c : Codec β M) : Shader β :=
  arrayShader c c (fun push _ => push.count) (fun _ groups => groups) fun indata partials push groups =>
    InAnyOrder groups (reduceGroup c indata partials push.count)

variable {c : Codec β M} {A : ArenaModel β} {shaders : String → Shader β} {mayFail : Prop}
  {s : A.State} {kernel : String} {src dst count groups : Nat} {loaded : String → Bool} {devBase : Nat}
  {L : List (Nat × Nat)} {scratch cap : Bool → Nat} {Q : Bool → A.State → Prop}

theorem ensures_reducePass {check : Dispatch β → A.State → Prop} (found : shaders kernel = reduceShader c)
    (valid : A.Valid s) (hs : InBlock (A.live s) src (count * c.size)) (hd : InBlock (A.live s) dst (groups * c.size))
    (small : count < 2 ^ 32) (apart : ∀ a, c.Covers src count a → ¬ c.Covers dst groups a)
    (checked : check ⟨kernel, arrayBinding c A src count, arrayBinding c A dst groups, none,
      (contextOf A loaded devBase).makePushBlock count, groups⟩ s) (fail : mayFail → Q false s)
    (ok : ∀ s', Wrote A (c.Covers dst groups) s s' →
      (∀ k < groups, c.get (A.mem s') dst k = blockSum 256 (padded count (c.get (A.mem s) src)) k) → Q true s') :
    (dispatchReduceLevel (contextOf A loaded devBase) kernel (arrayBinding c A src count) (arrayBinding c A dst groups)
      count groups).Ensures (machine A shaders mayFail check) Q s := by
  have whole : ((contextOf A loaded devBase).makePushBlock count : Push β).count = count := makePushBlock_count small
  refine ensures_arrayDispatch found valid hs hd ⟨le_of_eq whole, le_refl _⟩ checked (fun m run a dead => ?_) fail
    fun s' valid' live run => ?_
  · rw [whole] at run
    exact (reduce_spec run apart).2 a fun h => dead (liveByte_of_covers hd h)
  · rw [whole] at run
    obtain ⟨totals, frame⟩ := reduce_spec run apart
    exact ok s' ⟨valid', live, fun a _ out => frame a out⟩ totals

/-- Each level fits and leaves the sum of the array it reads. -/
theorem reduceLevels_ensures (found : shaders kernel = reduceShader c) (n src : Nat) (toggle : Bool) (s : A.State)
    (valid : A.Valid s) (one : 1 ≤ n) (small : n < 2 ^ 32) (hs : InBlock (A.live s) src (n * c.size))
    (room : Scratch c A L scratch cap s) (apart : ∀ a, c.Covers src n a → ¬ c.Covers (scratch toggle) (cap toggle) a)
    (fits : 1 < n → (n + 255) / 256 ≤ cap toggle ∧ ((n + 255) / 256 + 255) / 256 ≤ cap !toggle) :
    (reduceLevels (contextOf A loaded devBase) kernel c.size scratch src n toggle).Ensures
      (machine A shaders mayFail (LevelFits c A L))
      (fun r s' => (r = none → mayFail) ∧ ∀ p, r = some p →
        Wrote A (fun a => ∃ t, c.Covers (scratch t) (cap t) a) s s' ∧ InBlock (A.live s) p c.size ∧
        c.get (A.mem s') p 0 = ∑ i ∈ Finset.range n, c.get (A.mem s) src i) s := by
  induction n using Nat.strong_induction_on generalizing src toggle s with
  | _ n ih =>
    rw [reduceLevels]
    apply Prog.ensures_ite
    · intro more
      have := c.pos
      have bounds := hs.bounds valid
      have fewer : (n + 255) / 256 * c.size ≤ n * c.size := Nat.mul_le_mul_right _ (by omega)
      obtain ⟨here, there⟩ := fits more
      dsimp only
      rw [groupsOf_eq small, wmul_of_lt (a := n) (by omega), wmul_of_lt (by omega)]
      generalize hg : (n + 255) / 256 = groups at *
      apply ensures_resolve valid hs (Nat.mul_pos one c.pos)
      have hd : InBlock (A.live s) (scratch toggle) (groups * c.size) :=
        (room.inBlock toggle).sub (Nat.le_refl _) (Nat.add_le_add_left (Nat.mul_le_mul_right _ here) _)
      have disjoint : ∀ a, c.Covers src n a → ¬ c.Covers (scratch toggle) groups a := fun a ha h =>
        apart a ha (Codec.covers_mono h here)
      refine Prog.ensures_bind.mpr (ensures_reducePass found valid hs hd small disjoint ⟨?_, ?_⟩ (fun may => ?_)
        fun s₁ wrote totals => ?_)
      · dsimp only
        rw [arrayBinding_addr valid hs, arrayBinding_addr valid hd, makePushBlock_count small]
        exact disjoint
      · obtain ⟨k, live, new, fit⟩ := room.blocks toggle
        refine ⟨_, live, new, (arrayBinding_addr valid hd).symm, le_trans (Nat.mul_le_mul_right _ here) fit⟩
      · rw [if_neg Bool.false_ne_true]
        exact ⟨fun _ => may, fun p no => by cases no⟩
      · rw [if_pos rfl]
        refine (ih groups (by omega) (scratch toggle) (!toggle) s₁ wrote.valid (by omega) (by omega) (wrote.live ▸ hd)
          (room.of_live wrote.live) (fun a ha => room.turn toggle (Codec.covers_mono ha here)) fun more' => ?_).mono
            fun r s' ⟨failed, done⟩ => ⟨failed, fun p hp => ?_⟩
        · rw [Bool.not_not]
          omega
        · obtain ⟨wrote', block, value⟩ := done p hp
          have first : Wrote A (fun a => ∃ t, c.Covers (scratch t) (cap t) a) s s₁ :=
            wrote.mono fun a ha => ⟨toggle, Codec.covers_mono ha here⟩
          refine ⟨first.trans wrote', wrote.live ▸ block, ?_⟩
          calc c.get (A.mem s') p 0 = ∑ k ∈ Finset.range groups, c.get (A.mem s₁) (scratch toggle) k := value
            _ = ∑ k ∈ Finset.range groups, blockSum 256 (padded n (c.get (A.mem s) src)) k :=
              Finset.sum_congr rfl fun k hk => totals k (Finset.mem_range.mp hk)
            _ = ∑ i ∈ Finset.range n, c.get (A.mem s) src i := by
              rw [sum_blocks, sum_padded _ (by omega)]
    intro last
    obtain rfl : n = 1 := by omega
    refine ⟨fun no => Option.some_ne_none src no |>.elim, fun p hp => ?_⟩
    cases hp
    exact ⟨⟨valid, rfl, fun _ _ _ => rfl⟩, by simpa using hs, by simp⟩

/-- The result stored at `out` is the sum, every block that was live still is, with all but the result as before,
and no other is left. -/
structure Reduced (c : Codec β M) (A : ArenaModel β) (data count out : Nat) (s : A.State) (stored : Option (Fin c.size → β))
    (s' : A.State) : Prop extends Wrote A (c.Covers out 1) s s' where
  value : ∃ x, stored = some x ∧ c.dec x = ∑ i ∈ Finset.range count, c.get (A.mem s) data i
  sum : c.get (A.mem s') out 0 = ∑ i ∈ Finset.range count, c.get (A.mem s) data i

section
variable {s₃ : A.State} {p p₀ n₀ p₁ n₁ out data : Nat} {check : Dispatch β → A.State → Prop}
  {R : Bool × Option (Fin c.size → β) → A.State → Prop}

/-- What follows the last level: the result is stored and both scratch blocks are freed. -/
theorem reduceResult_ensures (valid : A.Valid s₃) (live : A.live s₃ = (p₁, n₁) :: (p₀, n₀) :: A.live s)
    (fresh₁ : p₁ ≠ p₀) (fresh₀ : ∀ b ∈ A.live s, b.1 ≠ p₀) (block : InBlock (A.live s₃) p c.size)
    (old : ∀ a, A.Usable (A.live s) a → A.mem s₃ a = A.mem s a) (owned : ∀ a, c.Covers out 1 a → A.Usable (A.live s) a)
    (total : c.get (A.mem s₃) p 0 = ∑ i ∈ Finset.range count, c.get (A.mem s) data i)
    (h : ∀ r s', r.1 = true → Reduced c A data count out s r.2 s' → R r s') :
    (invalidateFromDevice >>= fun _ => read p c.size >>= fun x => write out (List.ofFn x) >>= fun _ =>
      deallocate p₀ >>= fun _ => deallocate p₁ >>= fun _ => (pure (true, some x) : Launch β _)).Ensures
      (machine A shaders mayFail check) R s₃ := by
  refine ensures_invalidate (ensures_read valid block ?_)
  have owned₃ : ∀ a, c.Covers out 1 a → A.Usable (A.live s₃) a := by
    intro a ha
    rw [live]
    exact (owned a ha).cons.cons
  refine ensures_write valid (owned_ofFn owned₃ _) fun s₄ valid₄ live₄ mem₄ => ?_
  rw [live] at live₄
  refine ensures_deallocate valid₄ (live₄ ▸ List.mem_cons_of_mem _ List.mem_cons_self) fun s₅ valid₅ live₅ mem₅ => ?_
  rw [live₄, released_cons_of_ne fresh₁, released_cons fresh₀] at live₅
  refine ensures_deallocate valid₅ (live₅ ▸ List.mem_cons_self) fun s₆ valid₆ live₆ mem₆ => ?_
  rw [live₅, released_cons (A.head_fresh valid₅ live₅)] at live₆
  rw [live₆] at mem₆
  rw [live₅] at mem₅
  have mem : ∀ a, A.Usable (A.live s) a → A.mem s₆ a = A.mem s₄ a := fun a ha => (mem₆ a ha).trans (mem₅ a ha.cons)
  have value : c.dec (fun k : Fin c.size => A.mem s₃ (p + k)) = ∑ i ∈ Finset.range count, c.get (A.mem s) data i := by
    rw [← total]
    simp [Codec.get]
  refine h _ _ rfl ⟨⟨valid₆, live₆, fun a ha other => ?_⟩, ⟨_, rfl, value⟩, ?_⟩
  · rw [mem a ha, mem₄, Codec.put_list_not_covers other, old a ha]
  · rw [Codec.get_frame Nat.one_pos fun a ha => mem a (owned a ha), mem₄, Codec.get_put_list, value]

end

theorem launchReduce_ensures [Zero β] {data out : Nat} (known : loaded kernel = true) (found : shaders kernel = reduceShader c)
    (valid : A.Valid s) (block : InBlock (A.live s) data (count * c.size)) (owned : ∀ a, c.Covers out 1 a → A.Usable (A.live s) a)
    (pos : 1 ≤ count) (small : count < 2 ^ 32) :
    (launchReduce (contextOf A loaded devBase) kernel data count c.size out).Ensures
      (machine A shaders mayFail (LevelFits c A (A.live s)))
      (fun r s' => (r.1 = false → mayFail) ∧ (r.1 = true → Reduced c A data count out s r.2 s')) s := by
  unfold launchReduce
  apply ensures_withArenaSync
  refine Prog.ensures_ite (fun missing => ?_) fun _ => Prog.ensures_ite (fun zero => by omega) fun _ =>
    Prog.ensures_ite (fun one => ?_) fun many => Prog.ensures_ite (fun no => Bool.noConfusion no) fun _ => ?_
  · exact absurd missing (by simp [contextOf, known])
  · subst one
    have whole : InBlock (A.live s) data c.size := by simpa using block
    have value : c.dec (fun k : Fin c.size => A.mem s (data + k)) = ∑ i ∈ Finset.range 1, c.get (A.mem s) data i := by
      simp [Codec.get]
    refine ensures_read valid whole (ensures_write valid (owned_ofFn owned _) fun s₁ valid₁ live₁ mem₁ => ?_)
    refine ⟨fun no => Bool.noConfusion no, fun _ => ⟨⟨valid₁, live₁, fun a _ other => ?_⟩, ⟨_, rfl, value⟩, ?_⟩⟩
    · rw [mem₁, Codec.put_list_not_covers other]
    · rw [mem₁, Codec.get_put_list, value]
  · have bounds := block.bounds valid
    have first : (count + 255) / 256 * c.size ≤ count * c.size := Nat.mul_le_mul_right _ (by omega)
    have second : (((count + 255) / 256 + 255) / 256 + 1) * c.size ≤ count * c.size := Nat.mul_le_mul_right _ (by omega)
    dsimp only
    rw [wadd_of_lt (by omega), wadd_of_lt (by omega), wmul_of_lt (by omega), wmul_of_lt (by omega)]
    generalize hg : (count + 255) / 256 = groups at *
    have lost : mayFail → ∀ t, (pure (false, none) : Launch β _).Ensures (machine A shaders mayFail (LevelFits c A (A.live s)))
        (fun r s' => (r.1 = false → mayFail) ∧ (r.1 = true → Reduced c A data count out s r.2 s')) t :=
      fun may t => ⟨fun _ => may, fun no => Bool.noConfusion no⟩
    refine ensures_allocate valid (by omega) (fun may s₁ valid₁ _ _ => ?_) fun p₀ n₀ s₁ nonnull₀ fits₀ valid₁ live₁ mem₁ => ?_
    · -- The second allocation is made even if the first failed.
      refine ensures_allocate valid₁ (by omega) (fun may s₂ _ _ _ => ?_) fun p₁ n₁ s₂ _ _ _ _ _ => ?_
      · rw [if_pos (Or.inl rfl)]
        exact lost may s₂
      · rw [if_pos (Or.inl rfl)]
        exact lost may s₂
    · refine ensures_allocate valid₁ (by omega) (fun may s₂ _ _ _ => ?_) fun p₁ n₁ s₂ nonnull₁ fits₁ valid₂ live₂ mem₂ => ?_
      · rw [if_pos (Or.inr rfl)]
        exact lost may s₂
      · rw [if_neg (by simp [nonnull₀, nonnull₁])]
        have live : A.live s₂ = (p₁, n₁) :: (p₀, n₀) :: A.live s := live₂.trans (by rw [live₁])
        have mem : ∀ a, A.Usable (A.live s) a → A.mem s₂ a = A.mem s a := fun a ha =>
          (mem₂ a (live₁ ▸ ha.cons)).trans (mem₁ a ha)
        have room := scratch_of_live (c := c) valid₁ live₁ valid₂ live fits₀ fits₁
        refine Prog.ensures_bind.mpr ((reduceLevels_ensures found count data false s₂ valid₂ pos small (live ▸ block.cons.cons)
          room (fun a ha h => ?_) fun _ => ⟨Nat.le_of_eq hg, ?_⟩).mono fun r s₃ ⟨failed, done⟩ => ?_)
        · exact scratch_not_old valid₁ live₁ valid₂ live fits₀ fits₁ (usable_of_covers block ha) false h
        · rw [hg]
          exact Nat.le_succ _
        · cases r with
          | none => exact lost (failed rfl) s₃
          | some p =>
            obtain ⟨wrote, inside, value⟩ := done p rfl
            have old : ∀ a, A.Usable (A.live s) a → A.mem s₃ a = A.mem s a := fun a ha =>
              (wrote.frame a (live ▸ ha.cons.cons) fun ⟨t, h⟩ =>
                scratch_not_old valid₁ live₁ valid₂ live fits₀ fits₁ ha t h).trans (mem a ha)
            have ne : p₁ ≠ p₀ := fun same => A.head_fresh valid₂ live _ List.mem_cons_self same.symm
            have total : c.get (A.mem s₃) p 0 = ∑ i ∈ Finset.range count, c.get (A.mem s) data i := by
              rw [value]
              exact Finset.sum_congr rfl fun i hi =>
                Codec.get_frame (Finset.mem_range.mp hi) fun a ha => mem a (usable_of_covers block ha)
            exact reduceResult_ensures wrote.valid (wrote.live.trans live) ne (A.head_fresh valid₁ live₁) (wrote.live ▸ inside)
              old owned total fun r s' on reduced => ⟨fun off => absurd (on.symm.trans off) (by decide), fun _ => reduced⟩

/-! ### The run in which nothing fails -/

/-- The sizes of the two scratch blocks. -/
def reduceScratch (es count : Nat) : List Nat :=
  if count ≤ 1 then [] else [(count + 255) / 256 * es, (((count + 255) / 256 + 255) / 256 + 1) * es]

theorem reduceShader_runs {base : Nat} {ok : Dispatch β → Prop} : (reduceShader c).Runs base ok False := by
  refine arrayShader_runs fun data partials push groups m => ?_
  obtain ⟨m', run⟩ := InAnyOrder.exists_run groups (reduceGroup c data partials push.count) m
  exact ⟨m', run, fun no => no.elim⟩

theorem reduceLevels_asks {check : Dispatch β → A.State → Prop} {es : Nat}
    (runs : (shaders kernel).Runs A.base (fun d => ∃ s, check d s) False) (inArena : ∀ t, scratch t ≠ 0 ∧ A.InArena (scratch t))
    (n src : Nat) (toggle : Bool) (contains : (contextOf A loaded devBase).contains src = true) :
    (reduceLevels (contextOf A loaded devBase) kernel es scratch src n toggle).Ensures (asking A shaders check) (fun _ left => left = []) [] := by
  induction n using Nat.strong_induction_on generalizing src toggle with
  | _ n ih =>
    rw [reduceLevels]
    apply Prog.ensures_ite
    · intro more
      have fewer := groupsOf_le n
      apply asks_resolve contains
      refine Prog.ensures_bind.mpr (asks_dispatch runs.last ?_)
      rw [if_pos rfl]
      exact ih (groupsOf n) (by omega) _ _ (contains_of_inArena (inArena toggle).1 (inArena toggle).2)
    · exact fun _ => rfl

theorem launchReduce_asks [Zero β] {check : Dispatch β → A.State → Prop} {es data out : Nat}
    (runs : (shaders kernel).Runs A.base (fun d => ∃ s, check d s) False)
    (contains : (contextOf A loaded devBase).contains data = true) (pos : 0 < es) (one : 1 ≤ count) (small : count * es ≤ 2 ^ 62) :
    (launchReduce (contextOf A loaded devBase) kernel data count es out).Ensures (asking A shaders check) (fun _ _ => True)
      (reduceScratch es count) := by
  unfold launchReduce reduceScratch
  apply asks_withArenaSync
  refine Prog.ensures_ite (fun _ => trivial) fun _ => Prog.ensures_ite (fun zero => by omega) fun _ =>
    Prog.ensures_ite (fun single => ?_) fun many => Prog.ensures_ite (fun no => Bool.noConfusion no) fun _ => ?_
  · exact asks_read fun x => asks_write trivial
  · have le : count ≤ count * es := Nat.le_mul_of_pos_right count pos
    have first : (count + 255) / 256 * es ≤ count * es := Nat.mul_le_mul_right _ (by omega)
    have second : (((count + 255) / 256 + 255) / 256 + 1) * es ≤ count * es := Nat.mul_le_mul_right _ (by omega)
    rw [if_neg (by omega)]
    dsimp only
    rw [wadd_of_lt (by omega), wadd_of_lt (by omega), wmul_of_lt (by omega), wmul_of_lt (by omega)]
    refine asks_allocate (Nat.mul_pos (by omega) pos) fun p₀ nonnull₀ inside₀ =>
      asks_allocate (Nat.mul_pos (by omega) pos) fun p₁ nonnull₁ inside₁ => ?_
    rw [if_neg (by simp [nonnull₀, nonnull₁])]
    have inArena : ∀ t : Bool, (if t then p₁ else p₀) ≠ 0 ∧ A.InArena (if t then p₁ else p₀) := by
      intro t
      cases t
      · exact ⟨nonnull₀, inside₀⟩
      · exact ⟨nonnull₁, inside₁⟩
    refine (reduceLevels_asks runs inArena count data false contains).bind ?_
    rintro r _ rfl
    cases r with
    | none => trivial
    | some p => exact asks_invalidate (asks_read fun x => asks_write (asks_deallocate (asks_deallocate trivial)))

theorem launchReduce_exists [Zero β] {data out : Nat} (runs : (shaders kernel).Runs A.base (fun d => ∃ t, LevelFits c A (A.live s) d t) False)
    (valid : A.Valid s) (block : InBlock (A.live s) data (count * c.size)) (pos : 1 ≤ count)
    (safe : (launchReduce (contextOf A loaded devBase) kernel data count c.size out).Ensures
      (machine A shaders False (LevelFits c A (A.live s)))
      (fun r s' => (r.1 = false → False) ∧ (r.1 = true → Reduced c A data count out s r.2 s')) s)
    (granted : A.Grants (reduceScratch c.size count) s) :
    ∃ x s', (launchReduce (contextOf A loaded devBase) kernel data count c.size out).Run (machineStep A shaders False) s (true, some x) s' := by
  have contains : (contextOf A loaded devBase).contains data = true :=
    contains_of_inBlock valid block (Nat.mul_pos pos c.pos)
  obtain ⟨r, s', left, run, -⟩ :=
    exists_granted_run safe (launchReduce_asks runs contains c.pos pos (block.bounds valid).2.2.2) granted
  obtain ⟨failed, reduced⟩ := safe.run run
  obtain ⟨on, stored⟩ := r
  obtain rfl : on = true := Bool.eq_true_of_not_eq_false failed
  obtain ⟨x, rfl, -⟩ := (reduced rfl).value
  exact ⟨x, s', run⟩

end

end Parallax.Launcher
