import ParallaxRuntime.Launcher.Lanes
import ParallaxRuntime.Launcher.Reduce

/-!
# `reduce.comp`, access by access

Between two barriers no lane writes what another one uses, so the lanes of a workgroup add up what the workgroup does
as one step.
-/

namespace Parallax.Launcher
open Memory Effects Arena Kernel

variable {β M : Type}

/-- `if (tid == 0u) partials[gl_WorkGroupID.x] = sdata[0]` -/
def leaderLane (c : Codec β M) (partials wg tid : Nat) : Prog (laneOps β M) Unit :=
  if tid = 0 then do
    let x ← sharedGet wg 0
    globalStore c partials wg x
  else pure ()

theorem after_leaderLane {c : Codec β M} {partials wg tid : Nat} {m : Contents β M} : (laneCells β M).after (leaderLane c partials wg tid) m =
    if tid = 0 then m.setGlobal (c.put m.global partials wg (m.shared wg 0)) else m := by
  unfold leaderLane
  split
  · rw [← put_ofFn]
    rfl
  · rfl

section
variable [AddCommMonoid M]

/-- `if (tid < s) sdata[tid] += sdata[tid + s]` -/
def addLane (wg tid s : Nat) : Prog (laneOps β M) Unit :=
  if tid < s then do
    let x ← sharedGet wg tid
    let y ← sharedGet wg (tid + s)
    sharedSet wg tid (x + y)
  else pure ()

/-- The loop over the strides and what comes after it. -/
def reduceLoop (c : Codec β M) (partials wg tid : Nat) : List Nat → Prog (laneOps β M) Unit
  | [] => leaderLane c partials wg tid
  | s :: rest => do
    addLane wg tid s
    barrier
    reduceLoop c partials wg tid rest

/-- `main` of `reduce.comp` -/
def reduceMain (c : Codec β M) (indata partials count wg tid : Nat) : Prog (laneOps β M) Unit := do
  loadLane c indata count wg tid
  barrier
  reduceLoop c partials wg tid reduceStrides

variable {c : Codec β M} {indata partials count wg s : Nat} {x : Nat → M} {m : Contents β M}

/-- What a workgroup may read, and what it may write. -/
def groupReads (c : Codec β M) (indata partials count wg : Nat) : Place → Prop
  | .global a => c.Covers indata count a ∨ Cell c partials wg a
  | .shared wg' _ => wg' = wg

def groupWrites (c : Codec β M) (partials wg : Nat) : Place → Prop
  | .global a => Cell c partials wg a
  | .shared wg' _ => wg' = wg

/-- Below the stride a lane reads its own cell and the one that is a stride further. -/
def addReads (wg s tid : Nat) : Place → Prop
  | .global _ => False
  | .shared wg' i => wg' = wg ∧ tid < s ∧ (i = tid ∨ i = tid + s)

def addWrites (wg s tid : Nat) : Place → Prop
  | .global _ => False
  | .shared wg' i => wg' = wg ∧ tid < s ∧ i = tid

def leaderReads (c : Codec β M) (partials wg tid : Nat) : Place → Prop
  | .global a => tid = 0 ∧ Cell c partials wg a
  | .shared wg' i => wg' = wg ∧ tid = 0 ∧ i = 0

def leaderWrites (c : Codec β M) (partials wg tid : Nat) : Place → Prop
  | .global a => tid = 0 ∧ Cell c partials wg a
  | .shared _ _ => False

theorem addLane_raceFree : (laneCells β M).RaceFree (fun t : Fin 256 => addReads wg s t) (fun t : Fin 256 => addWrites wg s t)
    (fun t : Fin 256 => addLane wg t s) m where
  own t k wrote := by
    cases k with
    | global a => exact wrote.elim
    | shared wg' i => exact ⟨wrote.1, wrote.2.1, Or.inl wrote.2.2⟩
  apart t t' k ne wrote read := by
    cases k with
    | global a => exact wrote
    | shared wg' i =>
      obtain ⟨-, lt, rfl⟩ := wrote
      obtain ⟨-, -, same | far⟩ := read
      · exact ne (Fin.ext same)
      · omega
  within t := by
    unfold addLane
    refine Prog.ensures_ite (fun lt => ?_) fun _ => trivial
    apply ensures_sharedGet ⟨rfl, lt, Or.inl rfl⟩
    apply ensures_sharedGet ⟨rfl, lt, Or.inr rfl⟩
    exact ensures_sharedSet ⟨rfl, lt, rfl⟩ trivial

theorem after_addLane {tid : Nat} : (laneCells β M).after (addLane wg tid s) m =
    if tid < s then m.setShared wg tid (m.shared wg tid + m.shared wg (tid + s)) else m := by
  unfold addLane
  split
  · rfl
  · rfl

theorem addLane_rest {tid : Nat} : (laneCells β M).rest (addLane wg tid s) m = .ret () := by
  unfold addLane
  split
  · rfl
  · rfl

/-- One round of the loop over all lanes. -/
theorem addLane_merged (small : s ≤ 128) : Merged (fun t : Fin 256 => addWrites wg s t)
    (fun t : Fin 256 => (laneCells β M).after (addLane wg t s)) (m.sharing wg x) (m.sharing wg (reduceRound x s)) := by
  constructor
  · intro t k wrote
    cases k with
    | global a => exact wrote.elim
    | shared wg' i =>
      obtain ⟨rfl, lt, rfl⟩ := wrote
      have value : Contents.shared ((laneCells β M).after (addLane wg' t s) (m.sharing wg' x)) wg' t = reduceRound x s t := by
        rw [after_addLane, if_pos lt, Contents.setShared_shared, Contents.sharing_shared t.isLt, Contents.sharing_shared (by omega)]
        exact (if_pos lt).symm
      exact (Contents.sharing_shared t.isLt).trans value.symm
  · intro k none
    cases k with
    | global a => rfl
    | shared wg' i =>
      by_cases inside : wg' = wg ∧ i < 256
      · obtain ⟨rfl, lt⟩ := inside
        have ge : ¬ i < s := fun low => none ⟨i, lt⟩ ⟨rfl, low, rfl⟩
        have same : reduceRound x s i = x i := if_neg ge
        exact ((Contents.sharing_shared lt).trans same).trans (Contents.sharing_shared lt).symm
      · exact (if_neg inside).trans (if_neg inside).symm

omit [AddCommMonoid M] in
theorem leaderLane_phased : (laneCells β M).Phased (groupReads c indata partials count wg) (groupWrites c partials wg)
    (fun t : Fin 256 => leaderLane c partials wg t) (m.sharing wg x)
    ((m.sharing wg x).setGlobal (c.put m.global partials wg (x 0))) := by
  refine .last (E := fun t : Fin 256 => leaderReads c partials wg t) (U := fun t : Fin 256 => leaderWrites c partials wg t)
    ⟨⟨?_, ?_, ?_⟩, ?_, ?_, ?_, ?_⟩ ?_
  · intro t k wrote
    cases k with
    | global a => exact wrote
    | shared wg' i => exact wrote.elim
  · intro t t' k ne wrote read
    cases k with
    | global a => exact ne (Fin.ext (wrote.1.trans read.1.symm))
    | shared wg' i => exact wrote
  · intro t
    unfold leaderLane
    refine Prog.ensures_ite (fun leads => ?_) fun _ => trivial
    apply ensures_sharedGet ⟨rfl, leads, rfl⟩
    exact ensures_globalStore (fun a inside => ⟨leads, inside⟩) trivial
  · intro t k read
    cases k with
    | global a => exact Or.inr read.2
    | shared wg' i => exact read.1
  · intro t k wrote
    cases k with
    | global a => exact wrote.2
    | shared wg' i => exact wrote.elim
  · intro t k wrote
    cases k with
    | global a =>
      obtain ⟨leads, inside⟩ := wrote
      have value : Contents.global ((laneCells β M).after (leaderLane c partials wg t) (m.sharing wg x)) a =
          c.put m.global partials wg (x 0) a := by
        rw [after_leaderLane, if_pos leads, Contents.sharing_shared (by decide)]
        rfl
      exact value.symm
    | shared wg' i => exact wrote.elim
  · intro k none
    cases k with
    | global a =>
      exact put_not_cell fun inside => none 0 ⟨rfl, inside⟩
    | shared wg' i => rfl
  · intro t
    unfold leaderLane
    split
    · exact ⟨(), rfl⟩
    · exact ⟨(), rfl⟩

theorem reduceLoop_phased {strides : List Nat} (small : ∀ s ∈ strides, s ≤ 128) :
    (laneCells β M).Phased (groupReads c indata partials count wg) (groupWrites c partials wg)
      (fun t : Fin 256 => reduceLoop c partials wg t strides) (m.sharing wg x)
      ((m.sharing wg (strides.foldl reduceRound x)).setGlobal (c.put m.global partials wg (strides.foldl reduceRound x 0))) := by
  induction strides generalizing x with
  | nil => exact leaderLane_phased
  | cons s rest ih =>
    refine .barrier rfl addLane_raceFree (fun _ => addLane_rest) ?_ ?_ (addLane_merged (small s List.mem_cons_self))
      (ih fun s' mem => small s' (List.mem_cons_of_mem s mem))
    · intro t k read
      cases k with
      | global a => exact read.elim
      | shared wg' i => exact read.1
    · intro t k wrote
      cases k with
      | global a => exact wrote.elim
      | shared wg' i => exact wrote.1

/-- The lanes of a workgroup do what the workgroup does as one step. -/
theorem reduceMain_phased : (laneCells β M).Phased (groupReads c indata partials count wg) (groupWrites c partials wg)
    (fun t : Fin 256 => reduceMain c indata partials count wg t) m
    ((m.sharing wg (reduceLanes (loaded c indata count wg m.global))).setGlobal (reduceGroup c indata partials count wg m.global)) := by
  have small : ∀ s ∈ reduceStrides, s ≤ 128 := by decide
  refine .barrier rfl loadLane_raceFree (fun _ => loadLane_rest) ?_ ?_ loadLane_merged (reduceLoop_phased small)
  · intro t k read
    cases k with
    | global a => exact Or.inl (read.2.covers read.1)
    | shared wg' i => exact read.1
  · intro t k wrote
    cases k with
    | global a => exact wrote.elim
    | shared wg' i => exact wrote.1

theorem reduceGroup_contained {groups : Nat} (g : Fin groups) {w : Nat → β} :
    Contained (fun a => groupReads c indata partials count g (.global a)) (fun a => groupWrites c partials g (.global a))
      (reduceGroup c indata partials count g) w := by
  intro w' same
  have sums : loaded c indata count g w' = loaded c indata count g w := by
    funext tid
    unfold loaded
    split
    · next lt => exact Codec.get_frame lt fun a inside => same a (Or.inl inside)
    · rfl
  have stores : reduceGroup c indata partials count g w' = c.put w' partials g (reduceLanes (loaded c indata count g w) 0) :=
    congrArg (fun x => c.put w' partials g (reduceLanes x 0)) sums
  constructor
  · intro a inside
    rw [stores]
    exact put_cell inside
  · intro a out
    rw [stores]
    exact put_not_cell out

end

/-! ### Dispatches -/

section
variable {c : Codec β M} {indata partials count groups : Nat} {m : Contents β M}

theorem groups_apart (apart : ∀ a, c.Covers indata count a → ¬ c.Covers partials groups a) (g g' : Fin groups) (k : Place) (ne : g ≠ g')
    (wrote : groupWrites c partials g k) : ¬ groupReads c indata partials count g' k := by
  intro read
  cases k with
  | global a =>
    rcases read with input | other
    · exact apart a input (wrote.covers g.isLt)
    · exact ne (Fin.ext (other.unique wrote))
  | shared wg i => exact ne (Fin.ext (wrote.symm.trans read))

theorem groups_own (g : Fin groups) (k : Place) (wrote : groupWrites c partials g k) : groupReads c indata partials count g k := by
  cases k with
  | global a => exact Or.inr wrote
  | shared wg i => exact wrote

variable [AddCommMonoid M]

theorem reduce_lanes_safe (apart : ∀ a, c.Covers indata count a → ¬ c.Covers partials groups a)
    {lanes : Fin groups → Fin 256 → Prog (laneOps β M) Unit} {m' : Contents β M}
    (run : LanesTurn (fun (g : Fin groups) t => reduceMain c indata partials count g t) m lanes m') : ¬ Race lanes ∧ CanEnd lanes m' :=
  ⟨Cells.Phased.no_conflicts (groups_apart apart) groups_own (fun _ => reduceMain_phased) run,
    Cells.Phased.exists_groups (groups_apart apart) (fun _ => reduceMain_phased) run⟩

theorem reduce_lanes_iff (apart : ∀ a, c.Covers indata count a → ¬ c.Covers partials groups a) {out : Nat → β} :
    LanesEnd (fun (g : Fin groups) t => reduceMain c indata partials count g t) m out ↔
      InAnyOrder groups (reduceGroup c indata partials count) m.global out :=
  lanesEnd_iff groups_own (groups_apart apart) (fun _ => reduceMain_phased) (fun _ => rfl) fun g => reduceGroup_contained g

/-- `reduce.comp` has no data race and no lane of it waits for good, and that its lanes take turns at every access does not show. -/
theorem reduce_race_free (apart : ∀ a, c.Covers indata count a → ¬ c.Covers partials groups a) :
    (∀ lanes m', LanesTurn (fun (g : Fin groups) t => reduceMain c indata partials count g t) m lanes m' → ¬ Race lanes ∧ CanEnd lanes m') ∧
    ∀ out, LanesEnd (fun (g : Fin groups) t => reduceMain c indata partials count g t) m out ↔
      InAnyOrder groups (reduceGroup c indata partials count) m.global out := by
  constructor
  · intro lanes m' run
    exact reduce_lanes_safe apart run
  · intro out
    exact reduce_lanes_iff apart

/-- One workgroup that adds three ones. -/
theorem reduce_race_free_three :
    (∀ a, Codec.quad.Covers 0 3 a → ¬ Codec.quad.Covers 4096 1 a) ∧
    (∀ lanes m', LanesTurn (fun (g : Fin 1) t => reduceMain Codec.quad 0 4096 3 g t) ones lanes m' → ¬ Race lanes ∧ CanEnd lanes m') ∧
    ∀ out, LanesEnd (fun (g : Fin 1) t => reduceMain Codec.quad 0 4096 3 g t) ones out ↔
      InAnyOrder 1 (reduceGroup Codec.quad 0 4096 3) ones.global out := by
  have apart : ∀ a, Codec.quad.Covers 0 3 a → ¬ Codec.quad.Covers 4096 1 a := by
    intro a input output
    simp only [Codec.Covers, Codec.quad] at input output
    omega
  exact ⟨apart, reduce_race_free apart⟩

end

/-! ### The reduction, access by access -/

section
variable {α : Type} {A : ArenaModel β} {fine coarse : String → Shader β} {mayFail : Prop} {check : Dispatch β → A.State → Prop}
  {Q : α → A.State → Prop} {s : A.State}

/-- Kernels may be replaced by others that do no more wherever they are dispatched. -/
theorem ensures_refined {p : Launch β α} (h : p.Ensures (machine A coarse mayFail check) Q s)
    (pre : ∀ d, (coarse d.kernel).pre d → (fine d.kernel).pre d)
    (run : ∀ d s m, check d s → (fine d.kernel).run A.base d (A.mem s) m → (coarse d.kernel).run A.base d (A.mem s) m) :
    p.Ensures (machine A fine mayFail check) Q s := by
  have moved : p.Ensures (machine A fine mayFail check) (fun r t => ∃ t', Q r t' ∧ t' = t) s := by
    refine h.transport (R := Eq) ?_ ?_ rfl
    · rintro o s _ rfl before
      cases o with
      | submit d => exact ⟨before.1, pre d before.2.1, before.2.2⟩
      | _ => exact before
    · rintro o s _ x t' rfl before step
      cases o with
      | submit d =>
        refine ⟨t', ?_, rfl⟩
        rcases step with ⟨on, m, ran, same⟩ | failed
        · exact Or.inl ⟨on, m, run d s m before.2.2.2 ran, same⟩
        · exact Or.inr failed
      | _ => exact ⟨t', step, rfl⟩
  refine moved.mono ?_
  rintro r _ ⟨s', holds, rfl⟩
  exact holds

end

section
variable [AddCommMonoid M] {c : Codec β M}

/-- `reduce.comp` with lanes that take turns at every access, whatever the shared arrays hold before. -/
def reduceDispatch (c : Codec β M) : Shader β :=
  arrayShader c c (fun push _ => push.count) (fun _ groups => groups) fun indata partials push groups m m' =>
    ∃ w : Contents β M, w.global = m ∧ LanesEnd (fun (g : Fin groups) t => reduceMain c indata partials push.count g t) w m'

variable {A : ArenaModel β} {shaders : String → Shader β} {mayFail : Prop} {s : A.State} {kernel : String} {data out count devBase : Nat}
  {loaded : String → Bool}

theorem launchReduce_lanes_ensures [Zero β] (known : loaded kernel = true) (found : shaders kernel = reduceDispatch c)
    (valid : A.Valid s) (block : InBlock (A.live s) data (count * c.size)) (owned : ∀ a, c.Covers out 1 a → A.Usable (A.live s) a)
    (pos : 1 ≤ count) (small : count < 2 ^ 32) :
    (launchReduce (contextOf A loaded devBase) kernel data count c.size out).Ensures
      (machine A shaders mayFail (LevelFits c A (A.live s)))
      (fun r s' => (r.1 = false → mayFail) ∧ (r.1 = true → Reduced c A data count out s r.2 s')) s := by
  let coarse : String → Shader β := fun k => if k = kernel then reduceShader c else shaders k
  have whole : coarse kernel = reduceShader c := if_pos rfl
  refine ensures_refined (launchReduce_ensures known whole valid block owned pos small) (fun d before => ?_) fun d t m fits run => ?_
  · by_cases same : d.kernel = kernel
    · rw [same, whole] at before
      rw [same, found]
      exact before
    · rwa [show coarse d.kernel = shaders d.kernel from if_neg same] at before
  · by_cases same : d.kernel = kernel
    · rw [same, found] at run
      rw [same, whole]
      obtain ⟨w, here, ends⟩ := run
      have order := (reduce_lanes_iff fits.1).mp ends
      rw [here] at order
      exact order
    · rwa [show coarse d.kernel = shaders d.kernel from if_neg same]

/-- From any memory the lanes of a level that fits can all be run to their ends. -/
theorem reduceDispatch_runs {L : List (Nat × Nat)} : (reduceDispatch c).Runs A.base (fun d => ∃ t, LevelFits c A L d t) False := by
  rintro d m - ⟨t, apart, -⟩
  let w : Contents β M
    | .global a => m a
    | .shared _ _ => (0 : M)
  obtain ⟨-, lanes, m', run, ended⟩ := reduce_lanes_safe apart (.refl (fun (g : Fin d.groups) (t : Fin 256) =>
    reduceMain c (A.base + d.binding0.offset) (A.base + d.binding1.offset) d.push.count g t) w)
  exact ⟨m'.global, ⟨w, rfl, lanes, m', run, ended, rfl⟩, fun no => no.elim⟩

end

end Parallax.Launcher
