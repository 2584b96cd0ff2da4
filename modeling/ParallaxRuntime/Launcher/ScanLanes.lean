import ParallaxRuntime.Kernel.Scan
import ParallaxRuntime.Launcher.Lanes

/-!
# `scan.comp`, access by access

A lane reads the cell of another one before the first barrier of a round and writes its own after it.
-/

namespace Parallax.Launcher
open Memory Effects Kernel

variable {β M : Type}

section
variable [AddCommMonoid M]

/-- `float v = 0.0; if (tid >= offset) v = temp[tid - offset];` -/
def earlierLane (wg tid offset : Nat) : Prog (laneOps β M) M :=
  if tid ≥ offset then sharedGet wg (tid - offset) else pure 0

/-- `temp[tid] += v` -/
def accumulateLane (wg tid : Nat) (v : M) : Prog (laneOps β M) Unit := do
  let x ← sharedGet wg tid
  sharedSet wg tid (x + v)

end

/-- `if (gid < count) data[gid] = temp[tid]` -/
def storeBackLane (c : Codec β M) (data count wg tid : Nat) : Prog (laneOps β M) Unit :=
  let gid := wg * 256 + tid
  if gid < count then do
    let x ← sharedGet wg tid
    globalStore c data gid x
  else pure ()

/-- `if (tid == 255u) blocksums[gl_WorkGroupID.x] = temp[255u]` -/
def totalLane (c : Codec β M) (blocksums wg tid : Nat) : Prog (laneOps β M) Unit :=
  if tid = 255 then do
    let x ← sharedGet wg 255
    globalStore c blocksums wg x
  else pure ()

section
variable [AddCommMonoid M]

/-- The loop over the offsets and what comes after it. -/
def scanLoop (c : Codec β M) (data blocksums count wg tid : Nat) : List Nat → Prog (laneOps β M) Unit
  | [] => do
    storeBackLane c data count wg tid
    totalLane c blocksums wg tid
  | offset :: rest => do
    let v ← earlierLane wg tid offset
    -- all reads of old values complete
    barrier
    accumulateLane wg tid v
    -- all writes complete before next round
    barrier
    scanLoop c data blocksums count wg tid rest

/-- `main` of `scan.comp` -/
def scanMain (c : Codec β M) (data blocksums count wg tid : Nat) : Prog (laneOps β M) Unit := do
  loadLane c data count wg tid
  barrier
  scanLoop c data blocksums count wg tid scanOffsets

end

/-! ### Footprints -/

section
variable {c : Codec β M} {data blocksums count wg tid : Nat} {x : Nat → M} {m : Contents β M}

/-- The element and the total that a lane stores. -/
def Stored (c : Codec β M) (data blocksums count wg tid a : Nat) : Prop :=
  (wg * 256 + tid < count ∧ Cell c data (wg * 256 + tid) a) ∨ (tid = 255 ∧ Cell c blocksums wg a)

/-- What a workgroup reads and writes. -/
def scanUses (c : Codec β M) (data blocksums count wg : Nat) : Place → Prop
  | .global a => ∃ t : Fin 256, Stored c data blocksums count wg t a
  | .shared wg' _ => wg' = wg

def earlierReads (wg : Nat) : Place → Prop
  | .global _ => False
  | .shared wg' _ => wg' = wg

def endReads (c : Codec β M) (data blocksums count wg tid : Nat) : Place → Prop
  | .global a => Stored c data blocksums count wg tid a
  | .shared wg' _ => wg' = wg

def endWrites (c : Codec β M) (data blocksums count wg tid : Nat) : Place → Prop
  | .global a => Stored c data blocksums count wg tid a
  | .shared _ _ => False

theorem after_storeBackLane : (laneCells β M).after (storeBackLane c data count wg tid) m =
    if wg * 256 + tid < count then m.setGlobal (c.put m.global data (wg * 256 + tid) (m.shared wg tid)) else m := by
  unfold storeBackLane
  dsimp only
  split
  · rw [← put_ofFn]
    rfl
  · rfl

theorem after_totalLane : (laneCells β M).after (totalLane c blocksums wg tid) m =
    if tid = 255 then m.setGlobal (c.put m.global blocksums wg (m.shared wg 255)) else m := by
  unfold totalLane
  split
  · rw [← put_ofFn]
    rfl
  · rfl

theorem storeBackLane_rest : (laneCells β M).rest (storeBackLane c data count wg tid) m = .ret () := by
  unfold storeBackLane
  dsimp only
  split
  · rfl
  · rfl

theorem totalLane_rest : (laneCells β M).rest (totalLane c blocksums wg tid) m = .ret () := by
  unfold totalLane
  split
  · rfl
  · rfl

/-- The stores of one lane at the end. -/
def storeEnd (c : Codec β M) (data blocksums count wg : Nat) (x : Nat → M) (tid : Nat) (m : Nat → β) : Nat → β :=
  let m := if wg * 256 + tid < count then c.put m data (wg * 256 + tid) (x tid) else m
  if tid = 255 then c.put m blocksums wg (x 255) else m

theorem after_end (lt : tid < 256) : Contents.global ((laneCells β M).after
    (storeBackLane c data count wg tid >>= fun _ => totalLane c blocksums wg tid) (m.sharing wg x)) =
      storeEnd c data blocksums count wg x tid m.global := by
  have stored : (laneCells β M).rest (storeBackLane c data count wg tid) (m.sharing wg x) = .ret () := storeBackLane_rest
  obtain ⟨-, after⟩ := Cells.rest_bind (f := fun _ => totalLane c blocksums wg tid) stored
  rw [after, after_storeBackLane, after_totalLane]
  unfold storeEnd
  dsimp only
  rw [Contents.sharing_shared lt]
  by_cases inside : wg * 256 + tid < count
  · rw [if_pos inside, if_pos inside]
    split
    · have last : (m.sharing wg x).shared wg 255 = x 255 := Contents.sharing_shared (by decide)
      rw [Contents.setGlobal_shared, last]
      rfl
    · rfl
  · rw [if_neg inside, if_neg inside]
    split
    · rw [Contents.sharing_shared (by decide)]
      rfl
    · rfl

variable {groups a t : Nat} {w : Nat → β} {y : Nat → M}

theorem storeEnd_stored {w' : Nat → β} (here : Stored c data blocksums count wg t a) :
    storeEnd c data blocksums count wg x t w' a = storeEnd c data blocksums count wg x t w a := by
  have element : Cell c blocksums wg a ∧ t = 255 ∨ (wg * 256 + t < count ∧ Cell c data (wg * 256 + t) a) :=
    here.symm.imp And.symm id
  unfold storeEnd
  by_cases total : t = 255 ∧ Cell c blocksums wg a
  · rw [if_pos total.1, if_pos total.1]
    exact put_cell total.2
  · obtain ⟨lt, inside⟩ := element.resolve_left fun ⟨h, h'⟩ => total ⟨h', h⟩
    rw [if_pos lt, if_pos lt]
    split
    · next last =>
      have out : ¬ Cell c blocksums wg a := fun h => total ⟨last, h⟩
      rw [put_not_cell out, put_not_cell out]
      exact put_cell inside
    · exact put_cell inside

theorem storeEnd_congr (same : x t = y t) (last : x 255 = y 255) :
    storeEnd c data blocksums count wg x t w = storeEnd c data blocksums count wg y t w := by
  unfold storeEnd
  rw [same, last]

/-- All the stores of a workgroup, in the order of the lanes. -/
def storeAll (c : Codec β M) (data blocksums count wg : Nat) (x : Nat → M) (m : Nat → β) : Nat → β :=
  c.put (runAll (storeLane c data (wg * 256 + · < count) (wg * 256 + ·) x) (List.range 256) m) blocksums wg (x 255)

theorem storeAll_merged (small : wg < groups) (apart : ∀ a, c.Covers data count a → ¬ c.Covers blocksums groups a) :
    Merged (fun t : Fin 256 => Stored c data blocksums count wg t) (fun t : Fin 256 => storeEnd c data blocksums count wg x t) w
      (storeAll c data blocksums count wg x w) := by
  have elements : Merged (fun (t : Fin 256) a => wg * 256 + t < count ∧ Cell c data (wg * 256 + t) a)
      (fun t : Fin 256 => storeLane c data (wg * 256 + · < count) (wg * 256 + ·) x t) w
      (runAll (storeLane c data (wg * 256 + · < count) (wg * 256 + ·) x) (List.range 256) w) := by
    refine inAnyOrder_merged (fun _ _ wrote => wrote) ?_ ?_ ⟨List.range 256, List.Perm.refl _, rfl⟩
    · intro t t' a ne ⟨_, mine⟩ ⟨_, other⟩
      have := other.unique mine
      exact ne (Fin.ext (by omega))
    · intro t w' _
      unfold storeLane
      refine ⟨fun a ⟨lt, inside⟩ => ?_, fun a out => ?_⟩
      · rw [if_pos lt, if_pos lt]
        exact put_cell inside
      · split
        · next lt => exact put_not_cell fun inside => out ⟨lt, inside⟩
        · rfl
  constructor
  · rintro t a (⟨lt, inside⟩ | ⟨last, inside⟩)
    · have out : ¬ Cell c blocksums wg a := fun total => apart a (inside.covers lt) (total.covers small)
      have first : storeAll c data blocksums count wg x w a = storeLane c data (wg * 256 + · < count) (wg * 256 + ·) x t w a :=
        (put_not_cell out).trans (elements.1 t a ⟨lt, inside⟩)
      rw [first]
      unfold storeLane storeEnd
      dsimp only
      rw [if_pos lt]
      split
      · exact (put_not_cell out).symm
      · rfl
    · unfold storeEnd
      dsimp only
      rw [if_pos last]
      exact put_cell inside
  · intro a none
    have out : ¬ Cell c blocksums wg a := fun total => none ⟨255, by decide⟩ (Or.inr ⟨rfl, total⟩)
    exact (put_not_cell out).trans (elements.2 a fun t inside => none t (Or.inl inside))

theorem stored_unique {t t' : Fin 256} (small : wg < groups) (apart : ∀ a, c.Covers data count a → ¬ c.Covers blocksums groups a)
    (mine : Stored c data blocksums count wg t a) (other : Stored c data blocksums count wg t' a) : t = t' := by
  rcases mine with ⟨lt, mine⟩ | ⟨last, mine⟩
  · rcases other with ⟨_, other⟩ | ⟨_, other⟩
    · have := other.unique mine
      exact Fin.ext (by omega)
    · exact absurd (other.covers small) (apart a (mine.covers lt))
  · rcases other with ⟨lt, other⟩ | ⟨last', other⟩
    · exact absurd (mine.covers small) (apart a (other.covers lt))
    · exact Fin.ext (last.trans last'.symm)

/-! ### Phases -/

theorem end_phased (small : wg < groups) (apart : ∀ a, c.Covers data count a → ¬ c.Covers blocksums groups a) :
    (laneCells β M).Phased (scanUses c data blocksums count wg) (scanUses c data blocksums count wg)
      (fun t : Fin 256 => storeBackLane c data count wg t >>= fun _ => totalLane c blocksums wg t) (m.sharing wg x)
      ((m.sharing wg x).setGlobal (storeAll c data blocksums count wg x m.global)) := by
  obtain ⟨stores, frame⟩ := storeAll_merged (x := x) (w := m.global) small apart
  refine .last (E := fun t : Fin 256 => endReads c data blocksums count wg t) (U := fun t : Fin 256 => endWrites c data blocksums count wg t)
    ⟨⟨?_, ?_, ?_⟩, ?_, ?_, ?_, ?_⟩ ?_
  · intro t k wrote
    cases k with
    | global a => exact wrote
    | shared wg' i => exact wrote.elim
  · intro t t' k ne wrote read
    cases k with
    | global a => exact ne (stored_unique small apart wrote read)
    | shared wg' i => exact wrote
  · intro t
    have own : ∀ i, endReads c data blocksums count wg t (.shared wg i) := fun _ => rfl
    have total : ∀ m, (totalLane c blocksums wg t).Ensures ((laneCells β M).within (endReads c data blocksums count wg t)
        (endWrites c data blocksums count wg t)) (fun _ _ => True) m := by
      intro m
      unfold totalLane
      refine Prog.ensures_ite (fun last => ?_) fun _ => trivial
      apply ensures_sharedGet (own _)
      exact ensures_globalStore (fun a inside => Or.inr ⟨last, inside⟩) trivial
    refine Prog.ensures_bind.mpr ?_
    unfold storeBackLane
    dsimp only
    split
    · next lt =>
      apply ensures_sharedGet (own _)
      exact ensures_globalStore (fun a inside => Or.inl ⟨lt, inside⟩) (total _)
    · exact total _
  · intro t k read
    cases k with
    | global a => exact ⟨t, read⟩
    | shared wg' i => exact read
  · intro t k wrote
    cases k with
    | global a => exact ⟨t, wrote⟩
    | shared wg' i => exact wrote.elim
  · intro t k wrote
    cases k with
    | global a => exact (stores t a wrote).trans (congrFun (after_end t.isLt) a).symm
    | shared wg' i => exact wrote.elim
  · intro k none
    cases k with
    | global a => exact frame a fun t wrote => none t wrote
    | shared wg' i => rfl
  · intro t
    have stored : (laneCells β M).rest (storeBackLane c data count wg t) (m.sharing wg x) = .ret () := storeBackLane_rest
    obtain ⟨rest, -⟩ := Cells.rest_bind (f := fun _ => totalLane c blocksums wg t) stored
    exact ⟨(), rest.trans totalLane_rest⟩

theorem loadWrites_uses {t : Nat} {k : Place} (wrote : loadWrites wg t k) : scanUses c data blocksums count wg k := by
  cases k with
  | global a => exact wrote.elim
  | shared wg' i => exact wrote.1

variable [AddCommMonoid M] {offset : Nat}

/-- What a lane adds in a round. -/
def earlier (x : Nat → M) (offset tid : Nat) : M := if tid ≥ offset then x (tid - offset) else 0

theorem earlierLane_rest (lt : tid < 256) : (laneCells β M).rest (earlierLane wg tid offset) (m.sharing wg x) = .ret (earlier x offset tid) := by
  unfold earlierLane earlier
  split
  · have cell : (m.sharing wg x).shared wg (tid - offset) = x (tid - offset) := Contents.sharing_shared (by omega)
    exact congrArg Prog.ret cell
  · rfl

theorem earlierLane_raceFree : (laneCells β M).RaceFree (fun _ : Fin 256 => earlierReads wg) (fun _ _ => False)
    (fun t : Fin 256 => earlierLane wg t offset) m where
  own _ _ no := no.elim
  apart _ _ _ _ no := no.elim
  within t := by
    have read : ∀ i, earlierReads wg (.shared wg i) := fun _ => rfl
    unfold earlierLane
    refine Prog.ensures_ite (fun _ => ?_) fun _ => trivial
    exact ensures_sharedGet (f := pure) (read _) trivial

theorem after_accumulateLane {v : M} :
    (laneCells β M).after (accumulateLane wg tid v) m = m.setShared wg tid (m.shared wg tid + v) := rfl

theorem accumulateLane_raceFree {v : Fin 256 → M} : (laneCells β M).RaceFree (fun t : Fin 256 => loadWrites wg t)
    (fun t : Fin 256 => loadWrites wg t) (fun t : Fin 256 => accumulateLane wg t (v t)) m where
  own _ _ wrote := wrote
  apart t t' k ne wrote read := by
    cases k with
    | global a => exact wrote
    | shared wg' i => exact ne (Fin.ext (wrote.2.symm.trans read.2))
  within t := by
    have own : loadWrites wg t (.shared wg t) := ⟨rfl, rfl⟩
    apply ensures_sharedGet own
    exact ensures_sharedSet own trivial

theorem accumulateLane_merged : Merged (fun t : Fin 256 => loadWrites wg t)
    (fun t : Fin 256 => (laneCells β M).after (accumulateLane wg t (earlier x offset t))) (m.sharing wg x) (m.sharing wg (scanRound x offset)) := by
  constructor
  · intro t k wrote
    cases k with
    | global a => exact wrote.elim
    | shared wg' i =>
      obtain ⟨rfl, rfl⟩ := wrote
      have value : Contents.shared ((laneCells β M).after (accumulateLane wg' t (earlier x offset t)) (m.sharing wg' x)) wg' t =
          scanRound x offset t := by
        rw [after_accumulateLane, Contents.setShared_shared, Contents.sharing_shared t.isLt]
        rfl
      exact (Contents.sharing_shared t.isLt).trans value.symm
  · intro k none
    cases k with
    | global a => rfl
    | shared wg' i =>
      have out : ¬ (wg' = wg ∧ i < 256) := fun inside => none ⟨i, inside.2⟩ ⟨inside.1, rfl⟩
      exact (if_neg out).trans (if_neg out).symm

theorem scanLoop_phased {offsets : List Nat} (small : wg < groups) (apart : ∀ a, c.Covers data count a → ¬ c.Covers blocksums groups a) :
    (laneCells β M).Phased (scanUses c data blocksums count wg) (scanUses c data blocksums count wg)
      (fun t : Fin 256 => scanLoop c data blocksums count wg t offsets) (m.sharing wg x)
      ((m.sharing wg (offsets.foldl scanRound x)).setGlobal (storeAll c data blocksums count wg (offsets.foldl scanRound x) m.global)) := by
  induction offsets generalizing x with
  | nil => exact end_phased small apart
  | cons offset rest ih =>
    have reads : ∀ (_ : Fin 256) k, earlierReads wg k → scanUses c data blocksums count wg k := by
      intro _ k read
      cases k with
      | global a => exact read.elim
      | shared wg' i => exact read
    refine .barrier rfl earlierLane_raceFree (fun t => earlierLane_rest t.isLt) reads (fun _ _ no => no.elim)
      ⟨fun _ _ no => no.elim, fun _ _ => rfl⟩ ?_
    exact .barrier rfl accumulateLane_raceFree (fun _ => rfl) (fun _ _ => loadWrites_uses) (fun _ _ => loadWrites_uses)
      accumulateLane_merged ih

/-- The lanes of a workgroup do what the workgroup does as one step. -/
theorem scanMain_phased (small : wg < groups) (apart : ∀ a, c.Covers data count a → ¬ c.Covers blocksums groups a) :
    (laneCells β M).Phased (scanUses c data blocksums count wg) (scanUses c data blocksums count wg)
      (fun t : Fin 256 => scanMain c data blocksums count wg t) m
      ((m.sharing wg (scanLanes (loaded c data count wg m.global))).setGlobal (scanGroup c data blocksums count wg m.global)) := by
  refine .barrier rfl loadLane_raceFree (fun _ => loadLane_rest) ?_ (fun _ _ => loadWrites_uses) loadLane_merged
    (scanLoop_phased (m := m) small apart)
  intro t k read
  cases k with
  | global a => exact ⟨t, Or.inl read⟩
  | shared wg' i => exact read.1

theorem scanLanes_congr (same : ∀ t < 256, x t = y t) {t : Nat} (lt : t < 256) : scanLanes x t = scanLanes y t := by
  rw [scanLanes_eq x lt, scanLanes_eq y lt]
  refine Finset.sum_congr rfl fun i mem => same i ?_
  have := Finset.mem_range.mp mem
  omega

theorem scanGroup_contained (small : wg < groups) (apart : ∀ a, c.Covers data count a → ¬ c.Covers blocksums groups a) :
    Contained (fun a => scanUses c data blocksums count wg (.global a)) (fun a => scanUses c data blocksums count wg (.global a))
      (scanGroup c data blocksums count wg) w := by
  intro w' same
  have sums : ∀ t < 256, scanLanes (loaded c data count wg w') t = scanLanes (loaded c data count wg w) t := by
    intro t lt
    refine scanLanes_congr (fun t lt => ?_) lt
    unfold loaded
    split
    · next inside =>
      apply Codec.get_congr
      intro k hk
      have own : Cell c data (wg * 256 + t) (data + (wg * 256 + t) * c.size + k) := by
        unfold Cell
        omega
      exact same _ ⟨⟨t, lt⟩, Or.inl ⟨inside, own⟩⟩
    · rfl
  obtain ⟨stores, -⟩ := storeAll_merged (x := scanLanes (loaded c data count wg w)) (w := w) small apart
  obtain ⟨stores', frame⟩ := storeAll_merged (x := scanLanes (loaded c data count wg w')) (w := w') small apart
  refine ⟨fun a ⟨t, wrote⟩ => ?_, fun a out => frame a fun t wrote => out ⟨t, wrote⟩⟩
  calc scanGroup c data blocksums count wg w' a
    _ = storeEnd c data blocksums count wg (scanLanes (loaded c data count wg w')) t w' a := stores' t a wrote
    _ = storeEnd c data blocksums count wg (scanLanes (loaded c data count wg w)) t w' a := by
      rw [storeEnd_congr (sums t t.isLt) (sums 255 (by decide))]
    _ = storeEnd c data blocksums count wg (scanLanes (loaded c data count wg w)) t w a := storeEnd_stored wrote
    _ = scanGroup c data blocksums count wg w a := (stores t a wrote).symm

end

/-! ### Dispatches -/

section
variable {c : Codec β M} {data blocksums count groups : Nat} {m : Contents β M}

theorem scanUses_apart (apart : ∀ a, c.Covers data count a → ¬ c.Covers blocksums groups a) (g g' : Fin groups) (k : Place) (ne : g ≠ g')
    (wrote : scanUses c data blocksums count g k) : ¬ scanUses c data blocksums count g' k := by
  intro read
  cases k with
  | global a =>
    obtain ⟨t, ⟨lt, mine⟩ | ⟨_, mine⟩⟩ := wrote
    · obtain ⟨t', ⟨_, other⟩ | ⟨_, other⟩⟩ := read
      · have := other.unique mine
        exact ne (Fin.ext (by omega))
      · exact apart a (mine.covers lt) (other.covers g'.isLt)
    · obtain ⟨t', ⟨lt, other⟩ | ⟨_, other⟩⟩ := read
      · exact apart a (other.covers lt) (mine.covers g.isLt)
      · exact ne (Fin.ext (other.unique mine))
  | shared wg i => exact ne (Fin.ext (wrote.symm.trans read))

variable [AddCommMonoid M]

/-- `scan.comp` has no data race and no lane of it waits for good, and that its lanes take turns at every access does not show. -/
theorem scan_race_free (apart : ∀ a, c.Covers data count a → ¬ c.Covers blocksums groups a) :
    (∀ lanes m', LanesTurn (fun (g : Fin groups) t => scanMain c data blocksums count g t) m lanes m' → ¬ Race lanes ∧ CanEnd lanes m') ∧
    ∀ out, LanesEnd (fun (g : Fin groups) t => scanMain c data blocksums count g t) m out ↔
      InAnyOrder groups (scanGroup c data blocksums count) m.global out := by
  constructor
  · intro lanes m' run
    exact ⟨Cells.Phased.no_conflicts (scanUses_apart apart) (fun _ _ => id) (fun g => scanMain_phased g.isLt apart) run,
      Cells.Phased.exists_groups (scanUses_apart apart) (fun g => scanMain_phased g.isLt apart) run⟩
  · intro out
    exact lanesEnd_iff (fun _ _ => id) (scanUses_apart apart) (fun g => scanMain_phased g.isLt apart) (fun _ => rfl)
      fun g => scanGroup_contained g.isLt apart

/-- Two workgroups that scan three hundred ones. -/
theorem scan_race_free_ones :
    (∀ a, Codec.quad.Covers 0 300 a → ¬ Codec.quad.Covers 4096 2 a) ∧
    (∀ lanes m', LanesTurn (fun (g : Fin 2) t => scanMain Codec.quad 0 4096 300 g t) ones lanes m' → ¬ Race lanes ∧ CanEnd lanes m') ∧
    ∀ out, LanesEnd (fun (g : Fin 2) t => scanMain Codec.quad 0 4096 300 g t) ones out ↔
      InAnyOrder 2 (scanGroup Codec.quad 0 4096 300) ones.global out := by
  have apart : ∀ a, Codec.quad.Covers 0 300 a → ¬ Codec.quad.Covers 4096 2 a := by
    intro a input output
    simp only [Codec.Covers, Codec.quad] at input output
    omega
  exact ⟨apart, scan_race_free apart⟩

end

end Parallax.Launcher
