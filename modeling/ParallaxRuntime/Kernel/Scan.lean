import ParallaxRuntime.Kernel.Order
import ParallaxRuntime.Kernel.Sums

/-!
# `scan.comp` and `scan_add.comp`

One workgroup has 256 lanes that step together between barriers. Device arrays are
addressed by their base; elements are read and written through a codec.
-/

namespace Parallax.Kernel
open Memory

variable {β M : Type} [AddCommMonoid M]

/-- One round: every lane reads before any lane writes. -/
def scanRound (temp : Nat → M) (offset : Nat) : Nat → M := fun tid =>
  let v := if tid ≥ offset then temp (tid - offset) else 0
  temp tid + v

/-- `for (offset = 1; offset < 256; offset <<= 1)` -/
def scanOffsets : List Nat := [1, 2, 4, 8, 16, 32, 64, 128]

def scanLanes (temp : Nat → M) : Nat → M := scanOffsets.foldl scanRound temp

/-- A workgroup of `scan.comp`. -/
def scanGroup (c : Codec β M) (data blocksums count wg : Nat) (m : Nat → β) : Nat → β :=
  let temp := scanLanes fun tid => if wg * 256 + tid < count then c.get m data (wg * 256 + tid) else 0
  let m := runAll (storeLane c data (wg * 256 + · < count) (wg * 256 + ·) temp) (List.range 256) m
  c.put m blocksums wg (temp 255)

/-- An invocation of `scan_add.comp`. -/
def scanAddInvocation (c : Codec β M) (data offsets count gid : Nat) (m : Nat → β) : Nat → β :=
  let wgid := gid / 256
  if gid < count ∧ wgid > 0 then c.put m data gid (c.get m data gid + c.get m offsets (wgid - 1)) else m

/-! ### The Hillis–Steele loop -/

theorem scanRound_window (k : Nat) (x : Nat → M) : scanRound (window k x) k = window (2 * k) x :=
  funext fun t => window_double k x t

theorem scanLanes_eq (x : Nat → M) {t : Nat} (h : t < 256) : scanLanes x t = ∑ i ∈ Finset.range (t + 1), x i := by
  have rounds : scanLanes x = window 256 x := by
    unfold scanLanes scanOffsets
    simp only [List.foldl_cons, List.foldl_nil]
    conv_lhs => rw [← window_one x]
    simp only [scanRound_window]
  rw [rounds, window_of_le x h]

/-! ### What the dispatches leave -/

section
variable {c : Codec β M} {data sums count groups : Nat} {m m' : Nat → β}

theorem scanGroup_get {wg i : Nat} (hi : i < count) (hg : wg < groups)
    (apart : ∀ a, c.Covers data count a → ¬ c.Covers sums groups a) :
    c.get (scanGroup c data sums count wg m) data i =
      if i / 256 = wg then ∑ j ∈ Finset.range (i % 256 + 1), padded count (c.get m data) (wg * 256 + j)
      else c.get m data i := by
  unfold scanGroup
  dsimp only
  rw [Codec.get_put_apart hi hg apart]
  have inj : ∀ s t, wg * 256 + s = wg * 256 + t → s = t := fun s t same => by omega
  obtain ⟨hit, miss⟩ := storeLanes_get (wg * 256 + · < count) (scanLanes fun tid => padded count (c.get m data) (wg * 256 + tid))
    List.nodup_range inj i
  split
  · next own =>
    have lane : i % 256 < 256 := Nat.mod_lt _ (by decide)
    rw [← scanLanes_eq _ lane]
    exact hit (i % 256) (List.mem_range.mpr lane) (by omega) (by omega)
  · next other =>
    exact miss fun t ht _ same => other (by have := List.mem_range.mp ht; omega)

theorem scanGroup_sum {wg k : Nat} (hk : k < groups)
    (apart : ∀ a, c.Covers data count a → ¬ c.Covers sums groups a) :
    c.get (scanGroup c data sums count wg m) sums k =
      if k = wg then blockSum 256 (padded count (c.get m data)) wg else c.get m sums k := by
  unfold scanGroup
  dsimp only
  rw [Codec.get_put]
  split
  · rw [scanLanes_eq _ (by decide)]
    rfl
  · exact Codec.get_frame hk fun a ha =>
      storeLanes_outside (fun _ _ act => act) fun covers => apart a covers ha

theorem scanGroup_outside {wg a : Nat} (hg : wg < groups) (hd : ¬ c.Covers data count a)
    (hs : ¬ c.Covers sums groups a) : scanGroup c data sums count wg m a = m a := by
  unfold scanGroup
  rw [Codec.put_not_covers hg hs]
  exact storeLanes_outside (fun _ _ act => act) hd

/-- After `scan.comp`, each block holds its own prefix sums and `blocksums` the totals. -/
theorem scan_spec (run : InAnyOrder groups (scanGroup c data sums count) m m')
    (apart : ∀ a, c.Covers data count a → ¬ c.Covers sums groups a) (enough : count ≤ groups * 256) :
    (∀ i < count, c.get m' data i =
      ∑ j ∈ Finset.range (i % 256 + 1), padded count (c.get m data) (i / 256 * 256 + j)) ∧
    (∀ k < groups, c.get m' sums k = blockSum 256 (padded count (c.get m data)) k) ∧
    ∀ a, ¬ c.Covers data count a → ¬ c.Covers sums groups a → m' a = m a := by
  have inv := run.invariant (P := fun done w =>
    (∀ i < count, (done (i / 256) → c.get w data i =
        ∑ j ∈ Finset.range (i % 256 + 1), padded count (c.get m data) (i / 256 * 256 + j)) ∧
      (¬ done (i / 256) → c.get w data i = c.get m data i)) ∧
    (∀ k < groups, done k → c.get w sums k = blockSum 256 (padded count (c.get m data)) k) ∧
    ∀ a, ¬ c.Covers data count a → ¬ c.Covers sums groups a → w a = m a)
    ⟨fun i _ => ⟨fun no => no.elim, fun _ => rfl⟩, fun _ _ no => no.elim, fun _ _ _ => rfl⟩
    fun done wg w hg fresh ⟨elems, totals, frame⟩ => by
      -- The workgroup reads its own block only, which no other one has written.
      have own : ∀ j < 256, padded count (c.get w data) (wg * 256 + j) =
          padded count (c.get m data) (wg * 256 + j) := fun j hj => by
        unfold padded
        split
        · next h => exact (elems _ h).2 (by rw [show (wg * 256 + j) / 256 = wg by omega]; exact fresh)
        · rfl
      refine ⟨fun i hi => ?_, fun k hk => ?_, fun a hd hs => ?_⟩
      · rw [scanGroup_get hi hg apart]
        by_cases mine : i / 256 = wg
        · rw [if_pos mine, mine]
          refine ⟨fun _ => Finset.sum_congr rfl fun j hj => own j ?_, fun no => absurd (Or.inl rfl) no⟩
          have := Finset.mem_range.mp hj
          omega
        · rw [if_neg mine]
          exact ⟨fun h => (elems i hi).1 (h.resolve_left mine), fun h => (elems i hi).2 fun no => h (Or.inr no)⟩
      · rw [scanGroup_sum hk apart]
        split
        · next same =>
          intro _
          rw [same]
          exact Finset.sum_congr rfl fun j hj => own j (Finset.mem_range.mp hj)
        · next other => exact fun h => totals k hk (h.resolve_left other)
      · rw [scanGroup_outside hg hd hs, frame a hd hs]
  obtain ⟨elems, totals, frame⟩ := inv
  exact ⟨fun i hi => (elems i hi).1 (by omega), fun k hk => totals k hk hk, frame⟩

theorem scanAdd_spec {offsets : Nat} (run : InAnyOrder (groups * 256) (scanAddInvocation c data offsets count) m m')
    (apart : ∀ a, c.Covers data count a → ¬ c.Covers offsets groups a) (enough : count ≤ groups * 256) :
    (∀ i < count, c.get m' data i =
      if i / 256 = 0 then c.get m data i else c.get m data i + c.get m offsets (i / 256 - 1)) ∧
    ∀ a, ¬ c.Covers data count a → m' a = m a := by
  have inv := run.invariant (P := fun done w =>
    (∀ i < count, (done i → c.get w data i =
        if i / 256 = 0 then c.get m data i else c.get m data i + c.get m offsets (i / 256 - 1)) ∧
      (¬ done i → c.get w data i = c.get m data i)) ∧
    ∀ a, ¬ c.Covers data count a → w a = m a)
    ⟨fun i _ => ⟨fun no => no.elim, fun _ => rfl⟩, fun _ _ => rfl⟩
    fun done gid w hg fresh ⟨elems, frame⟩ => by
      unfold scanAddInvocation
      dsimp only
      split
      · next act =>
        have offset : c.get w offsets (gid / 256 - 1) = c.get m offsets (gid / 256 - 1) :=
          Codec.get_frame (n := groups) (by omega) fun a ha => frame a fun covers => apart a covers ha
        refine ⟨fun i hi => ?_, fun a hd => ?_⟩
        · rw [Codec.get_put]
          split
          · next same =>
            refine ⟨fun _ => ?_, fun no => absurd (Or.inl same) no⟩
            rw [offset, (elems gid act.1).2 fresh, same, if_neg (by omega)]
          · next other =>
            exact ⟨fun h => (elems i hi).1 (h.resolve_left other), fun h => (elems i hi).2 fun no => h (Or.inr no)⟩
        · rw [Codec.put_not_covers act.1 hd, frame a hd]
      · next idle =>
        refine ⟨fun i hi => ⟨fun h => ?_, fun h => (elems i hi).2 fun no => h (Or.inr no)⟩, frame⟩
        rcases h with rfl | h
        · rw [(elems i hi).2 fresh, if_pos (by omega)]
        · exact (elems i hi).1 h
  obtain ⟨elems, frame⟩ := inv
  exact ⟨fun i hi => (elems i hi).1 (by omega), frame⟩

end

end Parallax.Kernel
