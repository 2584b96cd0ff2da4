import Mathlib.Order.Bounds.Basic
import ParallaxRuntime.Arena.Legacy
import ParallaxRuntime.Launcher.Granted

/-!
# The first match

`launch_find` and `launch_mismatch` over a kernel that leaves the first match of each block of 256
elements, or the number of elements.
-/

namespace Parallax.Launcher
open Memory Effects Arena

variable {β α : Type}

/-- The first index in `P`, or `count` where there is none below it. -/
def First (count : Nat) (P : Nat → Prop) (r : Nat) : Prop := IsLeast (insert count {i | i < count ∧ P i}) r

section
variable {count a b r : Nat} {P Q : Nat → Prop}

theorem First.congr (h : First count P r) (same : ∀ i < count, P i ↔ Q i) : First count Q r := by
  have sets : insert count {i | i < count ∧ Q i} = insert count {i | i < count ∧ P i} := by
    ext i
    exact or_congr_right (and_congr_right fun lt => (same i lt).symm)
  unfold First
  rw [sets]
  exact h

theorem First.or (h : First count P a) (h' : First count Q b) : First count (fun i => P i ∨ Q i) (min a b) := by
  have sets : insert count {i | i < count ∧ (P i ∨ Q i)} = insert count {i | i < count ∧ P i} ∪ insert count {i | i < count ∧ Q i} := by
    ext i
    simp only [Set.mem_insert_iff, Set.mem_ofPred_eq, Set.mem_union]
    tauto
  unfold First
  rw [sets]
  exact h.union h'

theorem first_nothing : First count (fun _ => False) count :=
  ⟨Set.mem_insert _ _, fun _ hi => (hi.resolve_right fun h => h.2).ge⟩

end

/-- A kernel stores the first hit of each block, and writes nothing else. -/
structure FirstKernel (hv : HostValues β) (hit : Nat → Dispatch β → (Nat → β) → Nat → Prop) (k : Shader β) : Prop where
  pre : ∀ d, k.pre d
  stored : ∀ {base d m m'}, k.run base d m m' → ∀ b < d.groups, First d.push.count (fun i => hit base d m i ∧ i / 256 = b)
    (hv.uint32 fun j : Fin 4 => m' (base + d.binding1.offset + b * 4 + j))
  frame : ∀ {base d m m'}, k.run base d m m' →
    ∀ a, ¬ (base + d.binding1.offset ≤ a ∧ a < base + d.binding1.offset + d.groups * 4) → m' a = m a

/-- The element at an index is one that `accepts` takes, given what was pushed. -/
def Accepted (c : Codec β α) (accepts : Bool → List β → α → Prop) (base : Nat) (d : Dispatch β) (m : Nat → β) (i : Nat) : Prop :=
  match d.push with
  | .find _ negate value => accepts negate value (c.get m (base + d.binding0.offset) i)
  | _ => False

/-- The two arrays differ at an index. -/
def Differ (c : Codec β α) (base : Nat) (d : Dispatch β) (m : Nat → β) (i : Nat) : Prop :=
  ∃ b ∈ d.binding3, c.get m (base + d.binding0.offset) i ≠ c.get m (base + b.offset) i

/-- The kernel that leaves the first hit of each block in the first cell of its winner. -/
def firstHits (hit : Nat → Dispatch Nat → (Nat → Nat) → Nat → Bool) : Shader Nat where
  pre _ := True
  run base d m m' :=
    let winner b := ((List.range' (b * 256) 256).find? fun i => decide (i < d.push.count) && hit base d m i).getD d.push.count
    let out := base + d.binding1.offset
    m' = fun a => if out ≤ a ∧ a < out + d.groups * 4 then winner ((a - out) / 4) else m a

theorem first_find (count : Nat) (p : Nat → Bool) (b : Nat) : First count (fun i => p i = true ∧ i / 256 = b)
    (((List.range' (b * 256) 256).find? fun i => decide (i < count) && p i).getD count) := by
  cases found : (List.range' (b * 256) 256).find? fun i => decide (i < count) && p i with
  | none =>
    rw [List.find?_range'_eq_none] at found
    refine ⟨Set.mem_insert _ _, fun i hi => ?_⟩
    rcases hi with rfl | ⟨lt, accepted, inside⟩
    · exact le_rfl
    · have := found i (by omega) (by omega)
      simp [lt, accepted] at this
  | some i =>
    rw [List.find?_range'_eq_some] at found
    obtain ⟨hit, mem, before⟩ := found
    simp only [Bool.and_eq_true, decide_eq_true_eq] at hit
    rw [List.mem_range'_1] at mem
    have here : i / 256 = b := by omega
    refine ⟨Or.inr ⟨hit.1, hit.2, here⟩, fun j hj => ?_⟩
    rcases hj with rfl | ⟨lt, accepted, inside⟩
    · exact hit.1.le
    · by_contra earlier
      have := before j (by omega) (by simpa using earlier)
      simp [lt, accepted] at this

theorem firstHits_stores {hit : Nat → Dispatch Nat → (Nat → Nat) → Nat → Bool} {P : Nat → Dispatch Nat → (Nat → Nat) → Nat → Prop}
    (same : ∀ base d m i, hit base d m i = true ↔ P base d m i) : FirstKernel firstCell P (firstHits hit) where
  pre _ := trivial
  stored := by
    intro base d m m' run b hb
    have least := first_find d.push.count (hit base d m) b
    rw [firstHits] at run
    subst run
    have inside : base + d.binding1.offset ≤ base + d.binding1.offset + b * 4 ∧
        base + d.binding1.offset + b * 4 < base + d.binding1.offset + d.groups * 4 := by omega
    have block : (base + d.binding1.offset + b * 4 - (base + d.binding1.offset)) / 4 = b := by omega
    simp only [firstCell, Codec.quad, Fin.val_zero, Nat.add_zero, if_pos inside, block]
    exact least.congr fun i _ => and_congr_left fun _ => same base d m i
  frame := by
    intro base d m m' run a outside
    rw [firstHits] at run
    subst run
    exact if_neg outside

theorem firstHits_runs {hit : Nat → Dispatch Nat → (Nat → Nat) → Nat → Bool} {base : Nat} {ok : Dispatch Nat → Prop} :
    (firstHits hit).Runs base ok False := fun _ _ _ _ => ⟨_, rfl, fun no => no.elim⟩

/-- `find` and `find_if_not` for one value. -/
def sameCell (negate : Bool) (value : List Nat) (x : Nat) : Bool := (x == value.headD 0) != negate

def findCell (base : Nat) (d : Dispatch Nat) (m : Nat → Nat) (i : Nat) : Bool :=
  match d.push with
  | .find _ negate value => sameCell negate value (Codec.quad.get m (base + d.binding0.offset) i)
  | _ => false

def differCell (base : Nat) (d : Dispatch Nat) (m : Nat → Nat) (i : Nat) : Bool :=
  d.binding3.any fun b => Codec.quad.get m (base + d.binding0.offset) i != Codec.quad.get m (base + b.offset) i

section
variable {hv : HostValues β} {hit : Nat → Dispatch β → (Nat → β) → Nat → Prop} {A : ArenaModel β} {shaders : String → Shader β}
  {mayFail : Prop} {s : A.State} {count groups : Nat} {P : Nat → Prop} {loaded : String → Bool} {devBase : Nat}
  {check : Dispatch β → A.State → Prop}

/-- The blocks together have the first match of all. -/
theorem leastWinner_ensures {outi : Nat} (valid : A.Valid s) (block : InBlock (A.live s) outi (groups * 4))
    (winners : ∀ b < groups, First count (fun i => P i ∧ i / 256 = b) (hv.uint32 fun j : Fin 4 => A.mem s (outi + b * 4 + j)))
    (blocks : List Nat) (within : ∀ b ∈ blocks, b < groups) {Q : Nat → Prop} {best : Nat} (h : First count Q best) :
    (leastWinner hv outi blocks best).Ensures (machine A shaders mayFail check)
      (fun r s' => s' = s ∧ First count (fun i => Q i ∨ ∃ b ∈ blocks, P i ∧ i / 256 = b) r) s := by
  induction blocks generalizing best Q with
  | nil =>
    refine ⟨rfl, ?_⟩
    simpa using h
  | cons b blocks ih =>
    have hb := within b List.mem_cons_self
    have both := (winners b hb).or h
    rw [leastWinner]
    apply ensures_read valid (block.sub (by omega) (by omega))
    rw [← min_def_lt]
    apply (ih (fun b' hb' => within b' (List.mem_cons_of_mem b hb')) both).mono
    intro r s' ⟨same, least⟩
    refine ⟨same, least.congr fun i _ => ?_⟩
    simp only [List.exists_mem_cons_iff]
    tauto

/-- The buffers are bound, then the kernel runs, and the least of its winners is the answer. -/
theorem findFirst_ensures {kernel : String} {input : Binding} {other : Option Binding} {push : Push β}
    (stores : FirstKernel hv hit (shaders kernel)) (valid : A.Valid s) (bound : ∀ b ∈ input :: other.toList, b.Within A.base (A.live s))
    (nonempty : 0 < count) (small : count < 2 ^ 32) (pushed : push.count = count)
    (hits : ∀ s' outi, Kept A (fun _ => False) s s' → ∀ i < count,
      hit A.base ⟨kernel, input, outi, other, push, (count + 255) / 256⟩ (A.mem s') i ↔ P i) :
    (findFirst hv (contextOf A loaded devBase) kernel input other push count).Ensures (machine A shaders mayFail fun _ _ => True)
      (fun r s' => Kept A (fun _ => False) s s' ∧ ((r = count ∧ mayFail) ∨ First count P r)) s := by
  unfold findFirst
  dsimp only
  rw [groupsOf_eq small, wmul_of_lt (by omega)]
  generalize hg : (count + 255) / 256 = groups at *
  apply ensures_allocate valid (by omega)
  · intro may s₁ valid₁ live₁ mem₁
    have kept : Kept A (fun _ => False) s s₁ := ⟨valid₁, fun b hb => live₁ ▸ hb, fun a ha _ => mem₁ a ha⟩
    exact Prog.ensures_ite (fun _ => ⟨kept, Or.inl ⟨rfl, may⟩⟩) fun no => absurd rfl no
  intro outi n s₁ nonnull fits valid₁ live₁ mem₁
  have kept₁ : Kept A (fun _ => False) s s₁ := Kept.of_cons valid₁ live₁ mem₁
  have block : InBlock (A.live s₁) outi (groups * 4) := live₁ ▸ InBlock.head fits
  have place : A.base + (outi - A.base) = outi := by
    have := block.bounds valid₁
    omega
  refine Prog.ensures_ite (fun null => absurd null nonnull) fun _ => ?_
  apply Prog.Ensures.bind (R := fun ok s' => (ok = false → mayFail ∧ s' = s₁) ∧ (ok = true → A.Valid s' ∧ A.live s' = A.live s₁ ∧
    (∀ a, A.Usable (A.live s) a → A.mem s' a = A.mem s₁ a) ∧
    ∀ b < groups, First count (fun i => P i ∧ i / 256 = b) (hv.uint32 fun j : Fin 4 => A.mem s' (outi + b * 4 + j))))
  · apply ensures_dispatch
    · refine ⟨valid₁, stores.pre _, fun b hb => ?_, trivial⟩
      have own : Binding.Within ⟨.arena, outi - A.base, some (groups * 4)⟩ A.base (A.live s₁) := by
        refine ⟨rfl, groups * 4, rfl, ?_⟩
        rw [place]
        exact block
      have arrays : ∀ b ∈ input :: other.toList, b.Within A.base (A.live s₁) := by
        intro b hb
        obtain ⟨arena, r, range, old⟩ := bound b hb
        exact ⟨arena, r, range, kept₁.inBlock old⟩
      rcases List.mem_cons.mp hb with rfl | hb
      · exact arrays _ List.mem_cons_self
      · rcases List.mem_cons.mp hb with rfl | hb
        · exact own
        · exact arrays b (List.mem_cons_of_mem _ hb)
    · intro m run a dead
      apply stores.frame run
      intro inside
      dsimp only [Context.offsetOf, contextOf] at inside
      rw [place] at inside
      exact dead (block.liveByte inside.1 inside.2)
    · exact fun may => ⟨fun _ => ⟨may, rfl⟩, fun no => Bool.noConfusion no⟩
    · intro s₂ valid₂ live₂ run
      refine ⟨fun no => Bool.noConfusion no, fun _ => ⟨valid₂, live₂, fun a ha => ?_, fun b hb => ?_⟩⟩
      · apply stores.frame run
        intro inside
        dsimp only [Context.offsetOf, contextOf] at inside
        rw [place] at inside
        exact A.head_not_usable valid₁ live₁ ⟨inside.1, Nat.lt_of_lt_of_le inside.2 (Nat.add_le_add_left fits _)⟩ ha
      · have winner := stores.stored run b hb
        dsimp only [Context.offsetOf, contextOf] at winner
        rw [place, pushed] at winner
        exact winner.congr fun i lt => and_congr_left fun _ => hits s₁ _ kept₁ i lt
  intro ok s₂ ⟨failed, done⟩
  apply Prog.ensures_ite
  · intro off
    obtain ⟨may, rfl⟩ := failed off
    exact ⟨kept₁, Or.inl ⟨rfl, may⟩⟩
  intro on
  obtain ⟨valid₂, live₂, mem₂, winners⟩ := done (by simpa using on)
  apply ensures_invalidate
  apply (leastWinner_ensures valid₂ (live₂ ▸ block) winners _ (fun b hb => List.mem_range.mp hb) first_nothing).bind
  intro r s₃ ⟨same, least⟩
  subst same
  apply ensures_deallocate valid₂ (live₂ ▸ live₁ ▸ List.mem_cons_self)
  intro s₄ valid₄ live₄ mem₄
  have live : A.live s₄ = A.live s := by rw [live₄, live₂, live₁, released_cons (A.head_fresh valid₁ live₁)]
  refine ⟨⟨valid₄, fun b hb => live ▸ hb, fun a ha _ => ?_⟩, Or.inr (least.congr fun i lt => ?_)⟩
  · rw [mem₄ a (live ▸ ha), mem₂ a ha, mem₁ a ha]
  · have inside : i / 256 < groups := by omega
    simp only [List.mem_range, false_or]
    exact ⟨fun ⟨b, _, found, _⟩ => found, fun found => ⟨i / 256, inside, found, rfl⟩⟩

/-! ### What is asked for -/

theorem leastWinner_asks {outi : Nat} (blocks : List Nat) (best : Nat) {sizes : List Nat} :
    (leastWinner hv outi blocks best).Ensures (asking A shaders check) (fun _ left => left = sizes) sizes := by
  induction blocks generalizing best with
  | nil => rfl
  | cons b blocks ih => exact asks_read fun x => ih _

theorem findFirst_asks {ctx : Context} {kernel : String} {input : Binding} {other : Option Binding} {push : Push β}
    (runs : (shaders kernel).Runs A.base (fun d => ∃ s, check d s) False) (nonempty : 0 < count) (small : count < 2 ^ 32) :
    (findFirst hv ctx kernel input other push count).Ensures (asking A shaders check) (fun _ _ => True) [(count + 255) / 256 * 4] := by
  unfold findFirst
  dsimp only
  rw [groupsOf_eq small, wmul_of_lt (by omega)]
  refine asks_allocate (by omega) fun outi nonnull _ => Prog.ensures_ite (fun null => absurd null nonnull) fun _ => ?_
  refine Prog.Ensures.bind (R := fun ok left => ok = true ∧ left = []) (asks_dispatch runs.last ⟨rfl, rfl⟩) ?_
  rintro _ _ ⟨rfl, rfl⟩
  refine Prog.ensures_ite (fun no => Bool.noConfusion no) fun _ => asks_invalidate ((leastWinner_asks _ _).bind ?_)
  rintro r _ rfl
  exact asks_deallocate trivial

theorem launchFind_asks {kernel : String} {data es : Nat} {negate : Bool} {value : Option (List β)}
    (runs : (shaders kernel).Runs A.base (fun d => ∃ s, check d s) False)
    (contains : (contextOf A loaded devBase).contains data = true) (nonempty : 0 < count) (small : count < 2 ^ 32) :
    (launchFind hv (contextOf A loaded devBase) kernel data count es negate value).Ensures (asking A shaders check) (fun _ _ => True)
      [(count + 255) / 256 * 4] := by
  unfold launchFind
  refine asks_withArenaSync (Prog.ensures_ite (fun _ => trivial) fun _ => Prog.ensures_ite (fun zero => by omega) fun _ =>
    Prog.ensures_ite (fun no => Bool.noConfusion no) fun _ => ?_)
  exact asks_resolve contains (findFirst_asks runs nonempty small)

theorem launchMismatch_asks {kernel : String} {a b es : Nat} (runs : (shaders kernel).Runs A.base (fun d => ∃ s, check d s) False)
    (contains : ∀ p ∈ [a, b], (contextOf A loaded devBase).contains p = true) (nonempty : 0 < count) (small : count < 2 ^ 32) :
    (launchMismatch hv (contextOf A loaded devBase) kernel a b count es).Ensures (asking A shaders check) (fun _ _ => True)
      [(count + 255) / 256 * 4] := by
  unfold launchMismatch
  refine asks_withArenaSync (Prog.ensures_ite (fun _ => trivial) fun _ => Prog.ensures_ite (fun zero => by omega) fun _ =>
    Prog.ensures_ite (fun no => Bool.noConfusion no) fun _ => ?_)
  refine asks_resolve (contains a (by simp)) (asks_resolve (contains b (by simp)) ?_)
  exact findFirst_asks runs nonempty small

/-- The bytes of `push.value`. -/
def pushedValue (es : Nat) : Option (List β) → List β
  | some value => if es ≤ 8 then value.take es else []
  | none => []

/-- Whatever fails, `launch_find` changes no live block, and it answers with the first match or with `count`;
when nothing fails, it answers with `count` only where there is no match. -/
theorem launchFind_first {c : Codec β α} (accepts : Bool → List β → α → Prop) {kernel : String} {data : Nat} {negate : Bool}
    {value : Option (List β)} (known : loaded kernel = true) (finds : FirstKernel hv (Accepted c accepts) (shaders kernel))
    (valid : A.Valid s) (block : InBlock (A.live s) data (count * c.size)) (small : count < 2 ^ 32) :
    (launchFind hv (contextOf A loaded devBase) kernel data count c.size negate value).Ensures
      (machine A shaders mayFail fun _ _ => True) (fun r s' => Kept A (fun _ => False) s s' ∧ ((r = count ∧ mayFail) ∨
        First count (fun i => accepts negate (pushedValue c.size value) (c.get (A.mem s) data i)) r)) s := by
  unfold launchFind
  apply ensures_withArenaSync
  apply Prog.ensures_ite
  · exact fun missing => absurd missing (by simp [contextOf, known])
  intro _
  apply Prog.ensures_ite
  · intro none
    subst none
    exact ⟨.refl valid, Or.inr ⟨Set.mem_insert _ _, fun _ _ => Nat.zero_le _⟩⟩
  intro some
  have nonempty : 0 < count := Nat.pos_of_ne_zero some
  refine Prog.ensures_ite (fun no => Bool.noConfusion no) fun _ => ?_
  have bounds := block.bounds valid
  rw [wmul_of_lt (by omega)]
  apply ensures_resolve valid block (Nat.mul_pos nonempty c.pos)
  refine findFirst_ensures finds valid ?_ nonempty small (by exact Nat.mod_eq_of_lt small) ?_
  · intro b hb
    obtain rfl := List.mem_singleton.mp hb
    exact arrayBinding_within valid block
  · intro s' outi kept i lt
    have place : A.base + (data - A.base) = data := by omega
    rw [Accepted]
    dsimp only
    rw [place, Codec.get_frame lt fun a ha => kept.frame a (usable_of_covers block ha) id]
    exact Iff.rfl

theorem launchFind_first_cell :
    let s : Legacy.smallArena.State := (Legacy.twoBlocks, fun a => a / 4100)
    let find : Launch Nat Nat := launchFind firstCell (contextOf Legacy.smallArena (fun _ => true) 0) "find" 4096 1000 4 true (some [5, 0, 0, 0])
    ∃ r s', find.Run (machineStep Legacy.smallArena (fun _ => firstHits findCell) False) s r s' ∧
      Kept Legacy.smallArena (fun _ => False) s s' ∧ ((r = 1000 ∧ False) ∨ First 1000
        (fun i => sameCell true (pushedValue 4 (some [5, 0, 0, 0])) (Codec.quad.get (fun a => a / 4100) 4096 i) = true) r) := by
  intro s find
  have finds : FirstKernel firstCell (Accepted Codec.quad fun negate value x => sameCell negate value x = true) (firstHits findCell) := by
    apply firstHits_stores
    intro base d m i
    rw [findCell, Accepted]
    cases d.push <;> simp
  have first := @launchFind_first _ _ firstCell Legacy.smallArena (fun _ => firstHits findCell) False s 1000 (fun _ => true) 0
    Codec.quad (fun negate value x => sameCell negate value x = true) "find" 4096 true (some [5, 0, 0, 0]) rfl finds
    (Legacy.twoBlocks_valid _) (Legacy.twoBlocks_first (by decide)) (by decide)
  have asks : find.Ensures (asking Legacy.smallArena (fun _ => firstHits findCell) fun _ _ => True) (fun _ _ => True) [16] :=
    launchFind_asks firstHits_runs (by decide) (by decide) (by decide)
  obtain ⟨r, s', left, run, -⟩ := exists_granted_run first asks (Legacy.grants_iff.mpr (by decide))
  exact ⟨r, s', run, first.run run⟩

/-- Whatever fails, `launch_mismatch` changes no live block, and it answers with the first difference or with
`count`; when nothing fails, it answers with `count` only where the arrays are equal. -/
theorem launchMismatch_first {c : Codec β α} {kernel : String} {a b : Nat} (known : loaded kernel = true)
    (compares : FirstKernel hv (Differ c) (shaders kernel)) (valid : A.Valid s) (ha : InBlock (A.live s) a (count * c.size))
    (hb : InBlock (A.live s) b (count * c.size)) (small : count < 2 ^ 32) :
    (launchMismatch hv (contextOf A loaded devBase) kernel a b count c.size).Ensures
      (machine A shaders mayFail fun _ _ => True) (fun r s' => Kept A (fun _ => False) s s' ∧ ((r = count ∧ mayFail) ∨
        First count (fun i => c.get (A.mem s) a i ≠ c.get (A.mem s) b i) r)) s := by
  unfold launchMismatch
  apply ensures_withArenaSync
  apply Prog.ensures_ite
  · exact fun missing => absurd missing (by simp [contextOf, known])
  intro _
  apply Prog.ensures_ite
  · intro none
    subst none
    exact ⟨.refl valid, Or.inr ⟨Set.mem_insert _ _, fun _ _ => Nat.zero_le _⟩⟩
  intro some
  have nonempty : 0 < count := Nat.pos_of_ne_zero some
  refine Prog.ensures_ite (fun no => Bool.noConfusion no) fun _ => ?_
  have bounds := ha.bounds valid
  have bounds' := hb.bounds valid
  rw [wmul_of_lt (by omega)]
  apply ensures_resolve valid ha (Nat.mul_pos nonempty c.pos)
  apply ensures_resolve valid hb (Nat.mul_pos nonempty c.pos)
  refine findFirst_ensures compares valid ?_ nonempty small (by exact Nat.mod_eq_of_lt small) ?_
  · intro d hd
    rcases List.mem_cons.mp hd with rfl | hd
    · exact arrayBinding_within valid ha
    · obtain rfl := List.mem_singleton.mp hd
      exact arrayBinding_within valid hb
  · intro s' outi kept i lt
    have first : A.base + (a - A.base) = a := by omega
    have second : A.base + (b - A.base) = b := by omega
    simp only [Differ, Option.mem_def, Option.some.injEq, exists_eq_left', first, second]
    rw [Codec.get_frame lt fun x hx => kept.frame x (usable_of_covers ha hx) id,
      Codec.get_frame lt fun x hx => kept.frame x (usable_of_covers hb hx) id]

theorem launchMismatch_first_cell :
    let s : Legacy.smallArena.State := (Legacy.twoBlocks, fun a => a / 8200)
    let mismatch : Launch Nat Nat := launchMismatch firstCell (contextOf Legacy.smallArena (fun _ => true) 0) "mismatch" 4096 8192 1000 4
    ∃ r s', mismatch.Run (machineStep Legacy.smallArena (fun _ => firstHits differCell) False) s r s' ∧
      Kept Legacy.smallArena (fun _ => False) s s' ∧ ((r = 1000 ∧ False) ∨ First 1000
        (fun i => Codec.quad.get (fun a => a / 8200) 4096 i ≠ Codec.quad.get (fun a => a / 8200) 8192 i) r) := by
  intro s mismatch
  have compares : FirstKernel firstCell (Differ Codec.quad) (firstHits differCell) := by
    apply firstHits_stores
    intro base d m i
    rw [differCell, Differ]
    cases d.binding3 <;> simp
  have first := @launchMismatch_first _ _ firstCell Legacy.smallArena (fun _ => firstHits differCell) False s 1000 (fun _ => true) 0
    Codec.quad "mismatch" 4096 8192 rfl compares (Legacy.twoBlocks_valid _) (Legacy.twoBlocks_first (by decide))
    (Legacy.twoBlocks_second (by decide)) (by decide)
  have asks : mismatch.Ensures (asking Legacy.smallArena (fun _ => firstHits differCell) fun _ _ => True) (fun _ _ => True) [16] :=
    launchMismatch_asks firstHits_runs (by decide) (by decide) (by decide)
  obtain ⟨r, s', left, run, -⟩ := exists_granted_run first asks (Legacy.grants_iff.mpr (by decide))
  exact ⟨r, s', run, first.run run⟩

end

end Parallax.Launcher
