import ParallaxRuntime.Pool.BlockAlloc

/-!
# `block_free`

The freed block absorbs its free neighbours, and the merged block goes back to a bin.
-/

namespace Parallax.Pool
open Memory

/-- The state and the size once a free successor is absorbed. -/
def absorbNext (s : State) (B bs : Nat) : State × Nat :=
  let next := B + bs
  if next < s.base + s.reservation ∧ !allocated s.mem next then
    let s := binRemove s next
    (s, bs + bsize s.mem next)
  else (s, bs)

/-- The state, the address and the size once a free predecessor is absorbed. -/
def absorbPrev (s : State) (B bs : Nat) : State × Nat × Nat :=
  if B > s.base then
    let prevBs := load64 s.mem (B - FTR)
    let prev := B - prevBs
    if prev ≥ s.base ∧ !allocated s.mem prev then
      let s := binRemove s prev
      (s, prev, bs + bsize s.mem prev)
    else (s, B, bs)
  else (s, B, bs)

def putFree (s : State) (B bs : Nat) : State := binInsert { s with mem := setBlock s.mem B bs false } B

theorem blockFree_eq (s : State) (B : Nat) :
    blockFree s B =
      let n := absorbNext s B (bsize s.mem B)
      let p := absorbPrev n.1 B n.2
      putFree p.1 p.2.1 p.2.2 := rfl

/-- The bytes that freeing `b` may write. -/
def FreeingByte (bs : List Block) (b : Block) (a : Nat) : Prop :=
  FreeByte bs a ∨ (b.addr ≤ a ∧ a < b.addr + b.size)

section
variable {s : State} {pre post : List Block} {b : Block} {fl : Nat → List Nat}

theorem Rep.freeing (h : Rep s (pre ++ b :: post) fl) (used : b.used = true) :
    Hole s s (fun c => c ∈ pre ++ post) b.addr (b.addr + b.size) (FreeingByte (pre ++ b :: post) b) where
  listed := ⟨fl, h.toListed.congr fun c => by
    rw [mem_mid_cons]
    constructor
    · exact fun hc => ⟨Or.inr hc.1, hc.2⟩
    · rintro ⟨rfl | hc, free⟩
      · rw [used] at free
        cases free
      · exact ⟨hc, free⟩⟩
  tags c hc := h.tags c (mem_mid_cons.mpr (Or.inr hc))
  sizes c hc := h.sizes c (mem_mid_cons.mpr (Or.inr hc))
  disjoint c d hc hd := h.tiles.disjoint (mem_mid_cons.mpr (Or.inr hc)) (mem_mid_cons.mpr (Or.inr hd))
  apart c hc := h.tiles.apart hc
  statics := ⟨rfl, rfl, rfl, rfl⟩
  high := rfl
  writes a _ := rfl
  inHole a ha ha' := Or.inr ⟨ha, ha'⟩
  inFree c hc hf a ha ha' := Or.inl ⟨c, mem_mid_cons.mpr (Or.inr hc), hf, ha, ha'⟩

theorem mem_mid_ne {pre post : List Block} {n : Block} (fresh : n ∉ pre ++ post) (c : Block) :
    c ∈ pre ++ post ↔ c ∈ pre ++ n :: post ∧ c ≠ n := by
  rw [mem_mid_cons]
  constructor
  · exact fun hc => ⟨Or.inr hc, fun same => fresh (same ▸ hc)⟩
  · exact fun hc => hc.1.resolve_left hc.2

/-- The neighbour above is free: it leaves its bin and joins the hole. -/
theorem absorbNext_free {n : Block} (h : Rep s (pre ++ b :: n :: post) fl) (used : b.used = true)
    (free : n.used = false) :
    (absorbNext s b.addr b.size).2 = b.size + n.size ∧
    Hole s (absorbNext s b.addr b.size).1 (fun c => c ∈ pre ++ post) b.addr (b.addr + b.size + n.size)
      (FreeingByte (pre ++ b :: n :: post) b) := by
  have hn : n ∈ pre ++ b :: n :: post := by simp
  have hn' : n ∈ pre ++ n :: post := by simp
  have start := h.freeing used
  have bound := h.bounds hn
  have size := h.sizes n hn
  have addr : n.addr = b.addr + b.size := (tiles_cons.mp h.tiles.around.2).1
  have fresh : n ∉ pre ++ post := fun mem => by
    have split : pre ++ b :: n :: post = (pre ++ [b]) ++ n :: post := by simp
    refine (split ▸ h).not_mem ?_
    simp only [List.mem_append] at mem ⊢
    tauto
  have body : absorbNext s b.addr b.size =
      (binRemove s n.addr, b.size + bsize (binRemove s n.addr).mem n.addr) := by
    unfold absorbNext
    dsimp only
    rw [← addr, h.allocated_eq hn, free, if_pos ⟨by have := size.1; omega, rfl⟩]
  have joined := start.remove_next hn' free addr
  rw [body, start.remove_tag hn' free]
  dsimp only
  exact ⟨rfl, joined.congr (mem_mid_ne fresh)⟩

theorem absorbNext_used (h : Rep s (pre ++ b :: post) fl) (used : ∀ n ∈ post.head?, n.used = true) :
    absorbNext s b.addr b.size = (s, b.size) := by
  unfold absorbNext
  dsimp only
  cases post with
  | nil =>
    have stop : b.addr + b.size = s.base + s.reservation := h.tiles.around.2
    rw [if_neg (by omega)]
  | cons n post =>
    have addr : n.addr = b.addr + b.size := (tiles_cons.mp h.tiles.around.2).1
    have nused : n.used = true := used n rfl
    rw [← addr, h.allocated_eq (b := n) (by simp), nused, if_neg (by simp)]

theorem GoodSize.add {m n : Nat} (hm : GoodSize m) (hn : GoodSize n) : GoodSize (m + n) := by
  unfold GoodSize at *
  omega

/-- What `absorbNext` leaves: the hole reaches up to a used block or to the end. -/
theorem absorbNext_spec (h : Rep s (pre ++ b :: post) fl) (used : b.used = true) :
    ∃ mid post' size, post = mid ++ post' ∧ (∀ c ∈ mid, c.used = false) ∧ GoodSize size ∧
      Tiles (b.addr + size) post' (s.base + s.reservation) ∧ (∀ c ∈ post'.head?, c.used = true) ∧
      (absorbNext s b.addr b.size).2 = size ∧
      Hole s (absorbNext s b.addr b.size).1 (fun c => c ∈ pre ++ post') b.addr (b.addr + size)
        (FreeingByte (pre ++ b :: post) b) := by
  have good := h.sizes b (by simp)
  by_cases kept : ∀ n ∈ post.head?, n.used = true
  · rw [absorbNext_used h kept]
    exact ⟨[], post, b.size, rfl, by simp, good, h.tiles.around.2, kept, rfl, h.freeing used⟩
  · cases post with
    | nil => exact absurd (by simp) kept
    | cons n post =>
      have free : n.used = false := by simpa using kept
      obtain ⟨addr, -, above⟩ := tiles_cons.mp h.tiles.around.2
      obtain ⟨size, hole⟩ := absorbNext_free h used free
      rw [Nat.add_assoc] at above hole
      refine ⟨[n], post, b.size + n.size, rfl, by simpa using free, good.add (h.sizes n (by simp)), above, ?_,
        size, hole⟩
      have chain := h.coalesced
      rw [List.isChain_append, List.isChain_cons, List.isChain_cons] at chain
      intro c hc
      simpa [free] using chain.2.1.2.1 c hc

/-- What `absorbPrev` leaves of a hole: it reaches down to a used block or to the base. -/
theorem absorbPrev_spec {s₀ : State} {T : Nat → Prop} {B size : Nat}
    (hole : Hole s₀ s (fun c => c ∈ pre ++ post) B (B + size) T) (good : GoodSize size)
    (tiles : Tiles s.base pre B) (chain : pre.IsChain fun a b => a.used = true ∨ b.used = true)
    (fresh : (pre ++ post).Nodup) :
    ∃ pre' mid lo size', pre = pre' ++ mid ∧ (∀ c ∈ mid, c.used = false) ∧ GoodSize size' ∧
      lo + size' = B + size ∧ Tiles s.base pre' lo ∧ (∀ c ∈ pre'.getLast?, c.used = true) ∧
      (absorbPrev s B size).2 = (lo, size') ∧
      Hole s₀ (absorbPrev s B size).1 (fun c => c ∈ pre' ++ post) lo (lo + size') T := by
  rcases List.eq_nil_or_concat' pre with rfl | ⟨pre, p, rfl⟩
  · have base : s.base = B := tiles
    unfold absorbPrev
    rw [if_neg (by omega)]
    exact ⟨[], [], B, size, rfl, by simp, good, rfl, base, by simp, rfl, hole⟩
  · obtain ⟨mid, below, last⟩ := tiles_append.mp tiles
    obtain ⟨addr, pos, stop⟩ := tiles_singleton.mp last
    have le := below.le
    have hp : p ∈ pre ++ [p] ++ post := by simp
    have goodp := hole.sizes p hp
    have footer : load64 s.mem (B - FTR) = p.size := by
      rw [← (hole.tags p hp).footer, addr, stop]
      rfl
    have prev : B - p.size = p.addr := by omega
    have body : absorbPrev s B size =
        if p.addr ≥ s.base ∧ !p.used then
          (binRemove s p.addr, p.addr, size + bsize (binRemove s p.addr).mem p.addr)
        else (s, B, size) := by
      unfold absorbPrev
      dsimp only
      rw [if_pos (by omega), footer, prev, (hole.tags p hp).allocated_eq goodp]
    rw [body]
    cases used : p.used with
    | true =>
      rw [if_neg (by simp)]
      exact ⟨pre ++ [p], [], B, size, by simp, by simp, good, rfl, tiles, by simpa using used, rfl, hole⟩
    | false =>
      rw [if_pos ⟨by omega, rfl⟩]
      have split : pre ++ [p] ++ post = pre ++ p :: post := by simp
      rw [split] at hole hp fresh
      have fresh : p ∉ pre ++ post := (List.nodup_middle.mp fresh).notMem
      have stop : p.addr + p.size = B := by omega
      have same : B + size = p.addr + (size + p.size) := by omega
      have joined := hole.remove_prev hp used stop
      rw [hole.remove_tag hp used]
      dsimp only
      rw [same] at joined
      refine ⟨pre, [p], p.addr, size + p.size, rfl, by simpa using used, good.add goodp, same.symm, addr ▸ below,
        ?_, rfl, joined.congr (mem_mid_ne fresh)⟩
      intro c hc
      rw [List.isChain_append] at chain
      simpa [used] using chain.2.2 c hc p

/-- Tagging the hole as one free block and listing it completes the representation. -/
theorem putFree_rep {s₀ s : State} {pre post : List Block} {T : Nat → Prop} {lo size : Nat}
    (hole : Hole s₀ s (fun c => c ∈ pre ++ post) lo (lo + size) T) (good : GoodSize size)
    (base_pos : 0 < s₀.base) (base_aligned : s₀.base % 16 = 0) (top : s₀.base + s₀.reservation ≤ 2 ^ 64)
    (below : Tiles s₀.base pre lo) (above : Tiles (lo + size) post (s₀.base + s₀.reservation))
    (chain : (pre ++ ⟨lo, size, false⟩ :: post).IsChain fun a b => a.used = true ∨ b.used = true)
    (high : ∀ c ∈ pre ++ post, c.used = true → c.addr + c.size ≤ s₀.base + s₀.high) :
    (∃ fl, Rep (putFree s lo size) (pre ++ ⟨lo, size, false⟩ :: post) fl) ∧
    (∀ a, ¬ T a → (putFree s lo size).mem a = s₀.mem a) ∧ SameStatics s₀ (putFree s lo size) := by
  have := good.1
  have := below.le
  have := above.le
  have wrote := hole.write (m := setBlock s.mem lo size false) fun a outside =>
    setBlock_outside good fun tag => outside (tag_in good tag)
  have tag : Tagged (setBlock s.mem lo size false) ⟨lo, size, false⟩ := setBlock_tagged good (by omega) (by omega)
  obtain ⟨⟨fl, listed⟩, tags, writes⟩ := wrote.insert (r := ⟨lo, size, false⟩) good tag
    (by dsimp only; omega) (by dsimp only; omega) ⟨Nat.le_refl _, Nat.le_refl _⟩
  obtain ⟨base, res, done, failed⟩ := hole.statics
  refine ⟨⟨fl, ?_⟩, writes, base, res, done, failed⟩
  have eq : (putFree s lo size).base = s₀.base ∧ (putFree s lo size).reservation = s₀.reservation ∧
    (putFree s lo size).high = s₀.high := ⟨base, res, hole.high⟩
  unfold putFree at eq ⊢
  have nodes : ∀ c, c ∈ pre ++ ⟨lo, size, false⟩ :: post ∧ c.used = false ↔
      c = ⟨lo, size, false⟩ ∨ c ∈ pre ++ post ∧ c.used = false := fun c => by
    rw [mem_mid_cons]
    constructor
    · rintro ⟨rfl | hc, hf⟩
      · exact Or.inl rfl
      · exact Or.inr ⟨hc, hf⟩
    · rintro (rfl | ⟨hc, hf⟩)
      · exact ⟨Or.inl rfl, rfl⟩
      · exact ⟨Or.inr hc, hf⟩
  have listed' := listed.congr nodes
  generalize binInsert { s with mem := setBlock s.mem lo size false } lo = s' at *
  exact {
    base_pos := by rw [eq.1]; exact base_pos
    base_aligned := by rw [eq.1]; exact base_aligned
    top := by rw [eq.1, eq.2.1]; exact top
    tiles := by
      rw [eq.1, eq.2.1]
      exact tiles_append.mpr ⟨lo, below, rfl, by dsimp only; omega, above⟩
    sizes := fun c hc => by
      rcases mem_mid_cons.mp hc with rfl | hc
      · exact good
      · exact hole.sizes c hc
    tags := fun c hc => by
      rcases mem_mid_cons.mp hc with rfl | hc
      · exact tags _ (Or.inr (Or.inl rfl))
      · exact tags c (Or.inl hc)
    lists := listed'.lists
    listed := listed'.listed
    coalesced := chain
    high := fun c hc used => by
      rw [eq.1, eq.2.2]
      rcases mem_mid_cons.mp hc with rfl | hc
      · cases used
      · exact high c hc used }

/-- `block_free` replaces a used block and its free neighbours by one free block, writing only
inside the block and inside free blocks. -/
theorem blockFree_rep (h : Rep s (pre ++ b :: post) fl) (used : b.used = true) :
    ∃ pre' r post', (∃ fl', Rep (blockFree s b.addr) (pre' ++ r :: post') fl') ∧ r.used = false ∧
      (∀ c, c.used = true → (c ∈ pre' ++ post' ↔ c ∈ pre ++ post)) ∧
      (∀ a, ¬ FreeingByte (pre ++ b :: post) b a → (blockFree s b.addr).mem a = s.mem a) ∧
      SameStatics s (blockFree s b.addr) := by
  obtain ⟨midN, post', size, splitN, freeN, good, above, headN, sizeN, hole⟩ := absorbNext_spec h used
  have chain := h.coalesced
  have nodup := h.tiles.nodup
  have eq := blockFree_eq s b.addr
  rw [h.bsize_eq (by simp)] at eq
  dsimp only at eq
  rw [sizeN] at eq
  generalize (absorbNext s b.addr b.size).1 = s₁ at hole eq
  subst splitN
  obtain ⟨base, -, -, -⟩ := hole.statics
  obtain ⟨pre', midP, lo, size', splitP, freeP, good', stop, below, lastP, sizeP, hole'⟩ :=
    absorbPrev_spec hole good (base ▸ h.tiles.around.1) (List.isChain_append.mp chain).1
      (nodup.sublist (by simp))
  rw [sizeP] at eq
  dsimp only at eq
  generalize (absorbPrev s₁ b.addr size).1 = s₂ at hole' eq
  subst splitP
  rw [base] at below
  rw [← stop] at above
  have chain' : (pre' ++ ⟨lo, size', false⟩ :: post').IsChain fun a b => a.used = true ∨ b.used = true := by
    rw [List.isChain_append, List.isChain_append, List.isChain_cons, List.isChain_append] at chain
    rw [List.isChain_append, List.isChain_cons]
    exact ⟨chain.1.1, ⟨fun c hc => Or.inr (headN c hc), chain.2.1.2.2.1⟩, fun c hc _ _ => Or.inl (lastP c hc)⟩
  have sub : ∀ c ∈ pre' ++ post', c ∈ pre' ++ midP ++ b :: (midN ++ post') := fun c hc => by
    simp only [List.mem_append, List.mem_cons] at hc ⊢
    tauto
  obtain ⟨rep, writes, statics⟩ := putFree_rep hole' good' h.base_pos h.base_aligned h.top below above chain'
    fun c hc => h.high c (sub c hc)
  rw [eq]
  refine ⟨pre', _, post', rep, rfl, fun c hc => ?_, writes, statics⟩
  have notN : c ∉ midN := fun mem => by rw [freeN c mem] at hc; cases hc
  have notP : c ∉ midP := fun mem => by rw [freeP c mem] at hc; cases hc
  simp only [List.mem_append]
  tauto

end

end Parallax.Pool
