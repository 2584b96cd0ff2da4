import Mathlib.Data.List.Perm.Subperm
import ParallaxRuntime.Pool.Rep

/-!
# `block_alloc`

The bin search finds a fitting block when there is one, and taking it keeps the
representation.
-/

namespace Parallax.Pool
open Memory

section Search
variable {s : State} {bs : List Block} {fl : Nat → List Nat}

theorem findFit_list {m : Mem} {fuel p : Nat} {l : List Nat} (need : Nat)
    (h : Linked 0 (flNext m) (flPrev m) p l) (enough : l.length < fuel) :
    findFit m need fuel (l.headD 0) = some ((l.find? fun x => bsize m x ≥ need).getD 0) := by
  induction l generalizing p fuel with
  | nil =>
    obtain ⟨fuel, rfl⟩ : ∃ n, fuel = n + 1 := ⟨fuel - 1, by simp at enough; omega⟩
    rfl
  | cons x l ih =>
    obtain ⟨hx, -, fwd, hl⟩ := h
    rw [List.length_cons] at enough
    obtain ⟨fuel, rfl⟩ : ∃ n, fuel = n + 1 := ⟨fuel - 1, by omega⟩
    rw [List.headD_cons, findFit, if_neg hx]
    by_cases fits : bsize m x ≥ need
    · rw [if_pos fits, List.find?_cons_of_pos (by simpa using fits)]
      rfl
    · rw [if_neg fits, fwd, ih hl (by omega), List.find?_cons_of_neg (by simpa using fits)]

theorem Rep.length_lt_fuel (h : Rep s bs fl) (i : Nat) : (fl i).length < s.fuel := by
  have sub : fl i ⊆ bs.map Block.addr := fun x hx => by
    obtain ⟨b, hb, same, -⟩ := (h.listed i x).mp hx
    exact List.mem_map.mpr ⟨b, hb, same⟩
  have short := ((h.lists.nodup i).subperm sub).length_le
  have room := h.tiles.length_le fun b hb => (h.sizes b hb).1
  rw [List.length_map] at short
  unfold State.fuel MIN_BSIZE
  omega

theorem Rep.findBlock_cases (h : Rep s bs fl) (need : Nat) (is : List Nat) :
    (findBlock s need s.fuel is = some 0 ∧ ∀ i ∈ is, ∀ x ∈ fl i, bsize s.mem x < need) ∨
    ∃ B, findBlock s need s.fuel is = some (B + 1) ∧ need ≤ bsize s.mem (B + 1) ∧
      ∃ i ∈ is, B + 1 ∈ fl i := by
  induction is with
  | nil => exact Or.inl ⟨rfl, by simp⟩
  | cons i is ih =>
    have hl := h.lists.list i
    have step := findFit_list need hl.2 (h.length_lt_fuel i)
    rw [← hl.1] at step
    unfold findBlock
    rw [step]
    cases found : (fl i).find? fun x => bsize s.mem x ≥ need with
    | none =>
      simp only [Option.getD_none]
      have small : ∀ x ∈ fl i, bsize s.mem x < need := fun x hx => by
        simpa using List.find?_eq_none.mp found x hx
      rcases ih with ⟨none, rest⟩ | ⟨B, some, fits, j, hj, hB⟩
      · refine Or.inl ⟨none, fun j hj => ?_⟩
        rcases List.mem_cons.mp hj with rfl | hj
        · exact small
        · exact rest j hj
      · exact Or.inr ⟨B, some, fits, j, List.mem_cons_of_mem i hj, hB⟩
    | some x =>
      have mem := List.mem_of_find?_eq_some found
      have fits : need ≤ bsize s.mem x := by simpa using List.find?_some found
      obtain ⟨B, rfl⟩ : ∃ B, x = B + 1 := ⟨x - 1, by have := h.lists.pos mem; omega⟩
      exact Or.inr ⟨B, rfl, fits, i, List.mem_cons_self, mem⟩

/-- The search of `block_alloc` fails only when no free block is large enough. -/
theorem Rep.search_cases (h : Rep s bs fl) (need : Nat) :
    (findBlock s need s.fuel (List.range' (binIndex need) (NBINS - binIndex need)) = some 0 ∧
      ∀ b ∈ bs, b.used = false → b.size < need) ∨
    ∃ b ∈ bs, findBlock s need s.fuel (List.range' (binIndex need) (NBINS - binIndex need)) = some b.addr ∧
      b.used = false ∧ need ≤ b.size := by
  rcases h.findBlock_cases need (List.range' (binIndex need) (NBINS - binIndex need)) with
    ⟨none, small⟩ | ⟨B, found, fits, i, -, hB⟩
  · refine Or.inl ⟨none, fun b hb free => ?_⟩
    by_contra big
    have inRange : binIndex b.size ∈ List.range' (binIndex need) (NBINS - binIndex need) := by
      have := binIndex_mono (show need ≤ b.size by omega)
      have := binIndex_lt b.size
      rw [List.mem_range'_1]
      unfold NBINS
      omega
    have := small _ inRange _ (h.mem_list hb free)
    rw [h.bsize_eq hb] at this
    omega
  · obtain ⟨b, hb, same, free, -⟩ := (h.listed i _).mp hB
    rw [← same, h.bsize_eq hb] at fits
    exact Or.inr ⟨b, hb, by rw [found, same], free, fits⟩

end Search

/-! ### Carving -/

/-- The blocks that replace a free block from which `need` bytes are taken. -/
def carve (b : Block) (need : Nat) : List Block :=
  if b.size - need ≥ 32 then [⟨b.addr, need, true⟩, ⟨b.addr + need, b.size - need, false⟩]
  else [⟨b.addr, b.size, true⟩]

theorem carve_tiles {b : Block} {need lo hi : Nat} (size : GoodSize need) (fits : need ≤ b.size)
    (h : Tiles lo [b] hi) : Tiles lo (carve b need) hi := by
  obtain ⟨addr, pos, stop⟩ := h
  have stop : lo + b.size = hi := stop
  have := size.1
  unfold carve
  split
  · refine ⟨addr, by dsimp only; omega, by dsimp only; omega, by dsimp only; omega, ?_⟩
    change lo + need + (b.size - need) = hi
    omega
  · exact ⟨addr, pos, stop⟩

/-- The block that `carve` hands out. -/
def carved (b : Block) (need : Nat) : Block := ⟨b.addr, if b.size - need ≥ 32 then need else b.size, true⟩

theorem carved_addr (b : Block) (need : Nat) : (carved b need).addr = b.addr := rfl

theorem carved_size {b : Block} {need : Nat} (fits : need ≤ b.size) :
    need ≤ (carved b need).size ∧ (carved b need).size ≤ b.size := by
  unfold carved
  dsimp only
  split <;> omega

theorem carved_mem (b : Block) (need : Nat) : carved b need ∈ carve b need := by
  unfold carve carved
  split <;> simp

theorem mem_carve {b c : Block} {need : Nat} (h : c ∈ carve b need) :
    c = carved b need ∨ (b.size - need ≥ 32 ∧ c = ⟨b.addr + need, b.size - need, false⟩) := by
  unfold carve at h
  unfold carved
  split at h
  · next big =>
    rw [if_pos big]
    rcases List.mem_cons.mp h with rfl | h
    · exact Or.inl rfl
    · exact Or.inr ⟨big, List.mem_singleton.mp h⟩
  · next small =>
    rw [if_neg small]
    exact Or.inl (List.mem_singleton.mp h)

theorem carve_good {b c : Block} {need : Nat} (hb : GoodSize b.size) (size : GoodSize need)
    (hc : c ∈ carve b need) : GoodSize c.size := by
  unfold GoodSize at *
  rcases mem_carve hc with rfl | ⟨big, rfl⟩
  · unfold carved
    dsimp only
    split <;> omega
  · dsimp only
    omega

theorem carve_coalesced {pre post : List Block} {b : Block} {need : Nat} (free : b.used = false)
    (h : (pre ++ b :: post).IsChain fun a b => a.used = true ∨ b.used = true) :
    (pre ++ carve b need ++ post).IsChain fun a b => a.used = true ∨ b.used = true := by
  rw [List.append_assoc]
  rw [List.isChain_append, List.isChain_cons] at h
  obtain ⟨hpre, ⟨hnext, hpost⟩, hlast⟩ := h
  unfold carve
  split
  · rw [List.isChain_append]
    refine ⟨hpre, ?_, fun x hx y hy => ?_⟩
    · simp only [List.cons_append, List.nil_append, List.isChain_cons, List.head?_cons,
        Option.mem_def, Option.some.injEq, forall_eq', true_or, true_and, Bool.false_eq_true, false_or]
      refine ⟨fun y hy => ?_, hpost⟩
      simpa [free] using hnext y hy
    · simp only [List.cons_append, List.head?_cons, Option.mem_def, Option.some.injEq] at hy
      exact Or.inr (by rw [← hy])
  · rw [List.isChain_append]
    refine ⟨hpre, ?_, fun x hx y hy => ?_⟩
    · simp only [List.cons_append, List.nil_append, List.isChain_cons, true_or, implies_true, true_and]
      exact hpost
    · simp only [List.cons_append, List.head?_cons, Option.mem_def, Option.some.injEq] at hy
      exact Or.inr (by rw [← hy])

/-! ### `block_alloc` keeps the representation -/

theorem mem_mid {pre mid post : List Block} {c : Block} :
    c ∈ pre ++ mid ++ post ↔ c ∈ mid ∨ c ∈ pre ++ post := by
  simp only [List.mem_append]
  tauto

theorem mem_mid_cons {pre post : List Block} {b c : Block} :
    c ∈ pre ++ b :: post ↔ c = b ∨ c ∈ pre ++ post := by
  simp only [List.mem_append, List.mem_cons]
  tauto

section Carve
variable {s : State} {pre post : List Block} {b : Block} {fl : Nat → List Nat} {need : Nat}

/-- Before the first store of an operation on the block `b`, with the bytes of `T` writable. -/
theorem Rep.start (h : Rep s (pre ++ b :: post) fl) {T : Nat → Prop}
    (inFree : ∀ a, FreeByte (pre ++ b :: post) a → T a) :
    Hole s s (fun c => c ∈ pre ++ b :: post) b.addr b.addr T where
  listed := ⟨fl, h.toListed⟩
  tags := h.tags
  sizes := h.sizes
  disjoint c d hc hd := h.tiles.disjoint hc hd
  apart c hc := by
    have hb : b ∈ pre ++ b :: post := mem_mid_cons.mpr (Or.inl rfl)
    rcases h.tiles.disjoint hb hc with rfl | apart
    · exact Or.inr (Nat.le_refl _)
    · omega
  statics := ⟨rfl, rfl, rfl, rfl⟩
  high := rfl
  writes a _ := rfl
  inHole a ha ha' := absurd ha (by omega)
  inFree c hc hf a ha ha' := inFree a ⟨c, hc, hf, ha, ha'⟩

theorem Rep.not_mem (h : Rep s (pre ++ b :: post) fl) : b ∉ pre ++ post := fun mem => by
  have := h.tiles.apart mem
  have := (h.sizes b (mem_mid_cons.mpr (Or.inl rfl))).1
  omega

/-- Taking a free block off its bin opens a hole of its extent. -/
theorem Rep.removed (h : Rep s (pre ++ b :: post) fl) (free : b.used = false) :
    Hole s (binRemove s b.addr) (fun c => c ∈ pre ++ post) b.addr (b.addr + b.size)
      (FreeByte (pre ++ b :: post)) := by
  have hb : b ∈ pre ++ b :: post := mem_mid_cons.mpr (Or.inl rfl)
  have widened := (h.start fun _ ha => ha).remove hb free (fun a ha ha' => Or.inl ⟨ha, ha'⟩) fun c hc ne =>
    h.tiles.apart ((mem_mid_cons.mp hc).resolve_left ne)
  refine widened.congr fun c => ?_
  rw [mem_mid_cons]
  have := h.not_mem
  constructor
  · exact fun hc => ⟨Or.inr hc, fun same => this (same ▸ hc)⟩
  · exact fun hc => hc.1.resolve_left hc.2

/-- What `carveBlock` leaves: the lists, the tags and the bytes outside free blocks. -/
structure Carved (s s' : State) (pre mid post : List Block) (T : Nat → Prop) : Prop where
  listed : ∃ fl, Listed s' (fun c => c ∈ pre ++ mid ++ post ∧ c.used = false) fl
  tags : ∀ c ∈ pre ++ mid ++ post, Tagged s'.mem c
  writes : ∀ a, ¬ T a → s'.mem a = s.mem a
  statics : SameStatics s s'
  high : s'.high = s.high

theorem Rep.carve_split (h : Rep s (pre ++ b :: post) fl) (free : b.used = false) (size : GoodSize need)
    (big : b.size - need ≥ 32) :
    Carved s (carveBlock s b.addr need) pre
      [⟨b.addr, need, true⟩, ⟨b.addr + need, b.size - need, false⟩] post (FreeByte (pre ++ b :: post)) := by
  have hb : b ∈ pre ++ b :: post := mem_mid_cons.mpr (Or.inl rfl)
  have hole := h.removed free
  have ⟨hn32, hn16⟩ := size
  have ⟨hb32, hb16⟩ := h.sizes b hb
  have := h.bounds hb
  have := h.top
  have := h.base_pos
  have sizer : GoodSize (b.size - need) := ⟨by omega, by omega⟩
  unfold carveBlock
  rw [h.bsize_eq hb]
  dsimp only
  rw [if_pos (show b.size - need ≥ MIN_BSIZE from big)]
  generalize binRemove s b.addr = s₁ at hole ⊢
  -- The used part, then the remainder, are tagged inside the hole.
  have wrote := hole.write (m := setBlock s₁.mem b.addr need true) fun a outside =>
    setBlock_outside size fun tag => outside (by have := tag_in size tag; dsimp only at this; omega)
  have wrote := wrote.write (m := setBlock (setBlock s₁.mem b.addr need true) (b.addr + need) (b.size - need) false)
    fun a outside => setBlock_outside sizer fun tag =>
      outside (by have := tag_in sizer tag; dsimp only at this; omega)
  have tagr : Tagged (setBlock (setBlock s₁.mem b.addr need true) (b.addr + need) (b.size - need) false)
      ⟨b.addr + need, b.size - need, false⟩ := setBlock_tagged sizer (by omega) (by omega)
  have tagu : Tagged (setBlock (setBlock s₁.mem b.addr need true) (b.addr + need) (b.size - need) false)
      ⟨b.addr, need, true⟩ := by
    refine (setBlock_tagged size (by omega) (by omega)).frame size fun a tag => setBlock_outside sizer fun tagr => ?_
    have h1 := tag_in size tag
    have h2 := tag_in sizer tagr
    dsimp only at h1 h2
    omega
  obtain ⟨⟨fl', listed⟩, tags, writes⟩ := wrote.insert (r := ⟨b.addr + need, b.size - need, false⟩) sizer tagr
    (by dsimp only; omega) (by dsimp only; omega) (by dsimp only; omega)
  refine ⟨⟨fl', listed.congr fun c => ?_⟩, fun c hc => tags c ?_, writes, wrote.statics, wrote.high⟩
  · simp only [mem_mid, List.mem_cons, List.not_mem_nil, or_false]
    constructor
    · rintro ⟨(rfl | rfl) | hc, hf⟩
      · cases hf
      · exact Or.inl rfl
      · exact Or.inr ⟨hc, hf⟩
    · rintro (rfl | ⟨hc, hf⟩)
      · exact ⟨Or.inl (Or.inr rfl), rfl⟩
      · exact ⟨Or.inr hc, hf⟩
  · simp only [mem_mid, List.mem_cons, List.not_mem_nil, or_false] at hc
    rcases hc with (rfl | rfl) | hc
    · exact Or.inr (Or.inr ⟨size, tagu, by dsimp only; omega, by dsimp only; omega, Or.inr (by dsimp only; omega)⟩)
    · exact Or.inr (Or.inl rfl)
    · exact Or.inl hc

theorem Rep.carve_whole (h : Rep s (pre ++ b :: post) fl) (free : b.used = false)
    (small : ¬ b.size - need ≥ 32) :
    Carved s (carveBlock s b.addr need) pre [⟨b.addr, b.size, true⟩] post (FreeByte (pre ++ b :: post)) := by
  have hb : b ∈ pre ++ b :: post := mem_mid_cons.mpr (Or.inl rfl)
  have hole := h.removed free
  have size := h.sizes b hb
  have := h.bounds hb
  have := h.top
  have := h.base_pos
  unfold carveBlock
  rw [h.bsize_eq hb]
  dsimp only
  rw [if_neg (show ¬ b.size - need ≥ MIN_BSIZE from small)]
  generalize binRemove s b.addr = s₁ at hole ⊢
  have wrote := hole.write (m := setBlock s₁.mem b.addr b.size true) fun a outside =>
    setBlock_outside size fun tag => outside (tag_in size tag)
  obtain ⟨fl', listed⟩ := wrote.listed
  refine ⟨⟨fl', listed.congr fun c => ?_⟩, fun c hc => ?_, wrote.writes, wrote.statics, wrote.high⟩
  · simp only [mem_mid, List.mem_cons, List.not_mem_nil, or_false]
    constructor
    · rintro ⟨rfl | hc, hf⟩
      · cases hf
      · exact ⟨hc, hf⟩
    · exact fun ⟨hc, hf⟩ => ⟨Or.inr hc, hf⟩
  · simp only [mem_mid, List.mem_cons, List.not_mem_nil, or_false] at hc
    rcases hc with rfl | hc
    · exact setBlock_tagged size (by omega) (by omega)
    · exact wrote.tags c hc

theorem Rep.carve_parts (h : Rep s (pre ++ b :: post) fl) (free : b.used = false) (size : GoodSize need) :
    Carved s (carveBlock s b.addr need) pre (carve b need) post (FreeByte (pre ++ b :: post)) := by
  unfold carve
  split
  · next big => exact h.carve_split free size big
  · next small => exact h.carve_whole free small

/-- The high-water mark covers the block just taken, and nothing else changes. -/
theorem raiseHigh_spec (s : State) (B : Nat) :
    (raiseHigh s B).mem = s.mem ∧ (raiseHigh s B).bins = s.bins ∧ SameStatics s (raiseHigh s B) ∧
    s.high ≤ (raiseHigh s B).high ∧ B - s.base + bsize s.mem B ≤ (raiseHigh s B).high := by
  unfold raiseHigh SameStatics
  dsimp only
  split
  · exact ⟨rfl, rfl, ⟨rfl, rfl, rfl, rfl⟩, by dsimp only; omega, Nat.le_refl _⟩
  · exact ⟨rfl, rfl, ⟨rfl, rfl, rfl, rfl⟩, Nat.le_refl _, by omega⟩

/-- Taking `need` bytes from a free block replaces it by its two parts. -/
theorem takeBlock_rep (h : Rep s (pre ++ b :: post) fl) (free : b.used = false) (size : GoodSize need)
    (fits : need ≤ b.size) :
    (∃ fl', Rep (takeBlock s b.addr need) (pre ++ carve b need ++ post) fl') ∧
    (∀ a, ¬ FreeByte (pre ++ b :: post) a → (takeBlock s b.addr need).mem a = s.mem a) ∧
    SameStatics s (takeBlock s b.addr need) := by
  have hb : b ∈ pre ++ b :: post := mem_mid_cons.mpr (Or.inl rfl)
  obtain ⟨⟨fl', listed⟩, tags, writes, ⟨base, res, done, failed⟩, high⟩ := h.carve_parts free size
  obtain ⟨mem', bins', ⟨base', res', done', failed'⟩, above, covers⟩ :=
    raiseHigh_spec (carveBlock s b.addr need) b.addr
  have sizes : ∀ c ∈ pre ++ carve b need ++ post, GoodSize c.size := fun c hc => by
    rcases mem_mid.mp hc with hc | hc
    · exact carve_good (h.sizes b hb) size hc
    · exact h.sizes c (mem_mid_cons.mpr (Or.inr hc))
  have own := (tags _ (mem_mid.mpr (Or.inl (carved_mem b need)))).bsize_eq
    (sizes _ (mem_mid.mpr (Or.inl (carved_mem b need))))
  refine ⟨⟨fl', ?_⟩, fun a outside => ?_, ?_⟩
  · unfold takeBlock
    generalize raiseHigh (carveBlock s b.addr need) b.addr = s' at *
    have listed' := listed.frame bins' fun c a _ _ => by rw [mem']
    exact {
      base_pos := by rw [base', base]; exact h.base_pos
      base_aligned := by rw [base', base]; exact h.base_aligned
      top := by rw [base', base, res', res]; exact h.top
      tiles := by
        rw [base', base, res', res]
        have tiles : Tiles s.base (pre ++ [b] ++ post) (s.base + s.reservation) := by
          simpa using h.tiles
        exact tiles.replace fun lo hi => carve_tiles size fits
      sizes := sizes
      tags := fun c hc => mem' ▸ tags c hc
      lists := listed'.lists
      listed := listed'.listed
      coalesced := carve_coalesced free h.coalesced
      high := fun c hc used => by
        rcases mem_mid.mp hc with hc | hc
        · rcases mem_carve hc with rfl | ⟨-, rfl⟩
          · have := h.bounds hb
            have hc : (carved b need).addr = b.addr := rfl
            rw [hc] at own
            rw [own, base] at covers
            rw [base', base, hc]
            omega
          · cases used
        · have := h.high c (mem_mid_cons.mpr (Or.inr hc)) used
          omega }
  · unfold takeBlock
    rw [mem', writes a outside]
  · exact ⟨base'.trans base, res'.trans res, done'.trans done, failed'.trans failed⟩

end Carve

/-- `block_alloc` either finds no free block of the size and changes nothing, or takes `need`
bytes from the start of a free block, writing only inside free blocks. -/
theorem blockAlloc_cases {s : State} {bs : List Block} {fl : Nat → List Nat} {need : Nat}
    (h : Rep s bs fl) (size : GoodSize need) :
    (blockAlloc s need = some (0, s) ∧ ∀ b ∈ bs, b.used = false → b.size < need) ∨
    ∃ pre b post, bs = pre ++ b :: post ∧ b.used = false ∧ need ≤ b.size ∧
      blockAlloc s need = some (b.addr, takeBlock s b.addr need) ∧
      (∃ fl', Rep (takeBlock s b.addr need) (pre ++ carve b need ++ post) fl') ∧
      (∀ a, ¬ FreeByte bs a → (takeBlock s b.addr need).mem a = s.mem a) ∧
      SameStatics s (takeBlock s b.addr need) := by
  unfold blockAlloc
  rcases h.search_cases need with ⟨none, small⟩ | ⟨b, hb, found, free, fits⟩
  · exact Or.inl ⟨by rw [none], small⟩
  · obtain ⟨pre, post, rfl⟩ := List.append_of_mem hb
    refine Or.inr ⟨pre, b, post, rfl, free, fits, ?_, takeBlock_rep h free size fits⟩
    rw [found]
    obtain ⟨n, hn⟩ : ∃ n, b.addr = n + 1 := ⟨b.addr - 1, by have := h.bounds hb; have := h.base_pos; omega⟩
    rw [hn]

end Parallax.Pool
