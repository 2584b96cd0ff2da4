import ParallaxRuntime.Memory.Tiling
import ParallaxRuntime.Pool.Lists

/-!
# The representation of a pool

`Rep s bs fl`: the memory of `s` encodes the physical blocks `bs` by boundary tags
and the free ones among them by the bins `fl`.
-/

namespace Parallax.Pool
open Memory

/-- A header and a footer that agree with the block. -/
structure Tagged (m : Mem) (b : Block) : Prop where
  header : hdr m b.addr = b.size + b.used.toNat
  footer : load64 m (b.addr + b.size - 8) = b.size

/-- A size that `block_alloc` hands out. -/
def GoodSize (n : Nat) : Prop := 32 ≤ n ∧ n % 16 = 0

structure Rep (s : State) (bs : List Block) (fl : Nat → List Nat) : Prop where
  base_pos : 0 < s.base
  base_aligned : s.base % 16 = 0
  top : s.base + s.reservation ≤ 2 ^ 64
  tiles : Tiles s.base bs (s.base + s.reservation)
  sizes : ∀ b ∈ bs, GoodSize b.size
  tags : ∀ b ∈ bs, Tagged s.mem b
  lists : Lists s fl
  listed : ∀ i x, x ∈ fl i ↔ ∃ b ∈ bs, b.addr = x ∧ b.used = false ∧ binIndex b.size = i
  coalesced : bs.IsChain fun a b => a.used = true ∨ b.used = true
  high : ∀ b ∈ bs, b.used = true → b.addr + b.size ≤ s.base + s.high

theorem binIndex_lt (n : Nat) : binIndex n < 44 := by
  unfold binIndex NBINS
  dsimp only
  split <;> omega

theorem binIndex_mono {m n : Nat} (h : m ≤ n) : binIndex m ≤ binIndex n := by
  have logs : Nat.log2 m ≤ Nat.log2 n := by
    rcases Nat.eq_zero_or_pos m with rfl | pos
    · simp
    · exact (Nat.le_log2 (by omega)).mpr ((Nat.log2_self_le (by omega)).trans h)
  unfold binIndex NBINS
  dsimp only
  split <;> split <;> omega

theorem clear_alloc_bit {x : Nat} (hx : x < 2 ^ 64) : x &&& wnot ALLOC_BIT = x / 2 * 2 :=
  and_wnot_two_pow 1 (by decide) hx

theorem bsize_of_hdr {m : Mem} {B n : Nat} {u : Bool} (h : hdr m B = n + u.toNat) (hn : n % 16 = 0) :
    bsize m B = n ∧ allocated m B = u := by
  have hlt : hdr m B < 2 ^ 64 := load64_lt _ _
  unfold bsize allocated
  rw [clear_alloc_bit hlt, ALLOC_BIT, Nat.and_one_is_mod, h]
  cases u
  · simp only [Bool.toNat_false]
    exact ⟨by omega, by simp; omega⟩
  · simp only [Bool.toNat_true]
    exact ⟨by omega, by simp; omega⟩

theorem Tagged.bsize_eq {m : Mem} {b : Block} (h : Tagged m b) (size : GoodSize b.size) :
    bsize m b.addr = b.size :=
  (bsize_of_hdr h.header size.2).1

theorem Tagged.allocated_eq {m : Mem} {b : Block} (h : Tagged m b) (size : GoodSize b.size) :
    allocated m b.addr = b.used :=
  (bsize_of_hdr h.header size.2).2

/-! ### Tags and frames -/

/-- The bytes of a block's header and footer. -/
def TagByte (b : Block) (a : Nat) : Prop :=
  (b.addr ≤ a ∧ a < b.addr + 8) ∨ (b.addr + b.size - 8 ≤ a ∧ a < b.addr + b.size)

theorem Tagged.frame {m m' : Mem} {b : Block} (h : Tagged m b) (size : GoodSize b.size)
    (same : ∀ a, TagByte b a → m' a = m a) : Tagged m' b := by
  have := size.1
  have header : hdr m' b.addr = hdr m b.addr := load64_congr fun a _ _ => same a (Or.inl (by omega))
  have footer : load64 m' (b.addr + b.size - 8) = load64 m (b.addr + b.size - 8) :=
    load64_congr fun a _ _ => same a (Or.inr (by omega))
  exact ⟨header.trans h.header, footer.trans h.footer⟩

theorem lor_alloc_bit {n : Nat} (hn : n % 16 = 0) (u : Bool) :
    n ||| (if u then ALLOC_BIT else 0) = n + u.toNat := by
  cases u
  · simp
  · have even : n = 2 ^ 1 * (n / 2) := by omega
    simp only [ALLOC_BIT, if_true, Bool.toNat_true]
    rw [even, ← Nat.two_pow_add_eq_or_of_lt (by decide : 1 < 2 ^ 1)]

theorem setBlock_tagged {m : Mem} {B n : Nat} {u : Bool} (size : GoodSize n) (top : B + n ≤ 2 ^ 64)
    (pos : 0 < B) : Tagged (setBlock m B n u) ⟨B, n, u⟩ := by
  have ⟨h32, h16⟩ := size
  have hu := u.toNat_le
  have body : setBlock m B n u = store64 (store64 m B (n + u.toNat)) (B + n - 8) n := by
    unfold setBlock FTR
    rw [lor_alloc_bit h16]
  rw [body]
  constructor
  · dsimp only [hdr]
    rw [load64_store64_of_disjoint (by omega), load64_store64 (by omega)]
  · dsimp only
    rw [load64_store64 (by omega)]

theorem setBlock_outside {m : Mem} {B n : Nat} {u : Bool} {a : Nat} (size : GoodSize n)
    (h : ¬ TagByte ⟨B, n, u⟩ a) : setBlock m B n u a = m a := by
  have := size.1
  unfold TagByte at h
  dsimp only at h
  unfold setBlock FTR
  rw [store64_outside (by omega), store64_outside (by omega)]

/-- The tag bytes of a block are apart from the link bytes of every block. -/
theorem tag_not_link {b c : Block} {a : Nat} (hb : GoodSize b.size) (hc : GoodSize c.size)
    (apart : c = b ∨ c.addr + c.size ≤ b.addr ∨ b.addr + b.size ≤ c.addr) (tag : TagByte b a) :
    ¬ LinkByte c.addr a := by
  have := hb.1
  have := hc.1
  unfold TagByte at tag
  unfold LinkByte
  rcases apart with rfl | apart <;> omega

theorem tag_in {b : Block} {a : Nat} (hb : GoodSize b.size) (tag : TagByte b a) :
    b.addr ≤ a ∧ a < b.addr + b.size := by
  have := hb.1
  unfold TagByte at tag
  omega

theorem link_in {b : Block} {a : Nat} (hb : GoodSize b.size) (link : LinkByte b.addr a) :
    b.addr ≤ a ∧ a < b.addr + b.size := by
  have := hb.1
  unfold LinkByte at link
  omega

/-! ### Consequences of the representation -/

section
variable {s : State} {bs : List Block} {fl : Nat → List Nat}

theorem Rep.bounds (h : Rep s bs fl) {b : Block} (hb : b ∈ bs) :
    s.base ≤ b.addr ∧ b.addr + b.size ≤ s.base + s.reservation :=
  ⟨(h.tiles.bounds hb).1, (h.tiles.bounds hb).2.1⟩

theorem Rep.bsize_eq (h : Rep s bs fl) {b : Block} (hb : b ∈ bs) : bsize s.mem b.addr = b.size :=
  (h.tags b hb).bsize_eq (h.sizes b hb)

theorem Rep.allocated_eq (h : Rep s bs fl) {b : Block} (hb : b ∈ bs) : allocated s.mem b.addr = b.used :=
  (h.tags b hb).allocated_eq (h.sizes b hb)

theorem Rep.mem_list (h : Rep s bs fl) {b : Block} (hb : b ∈ bs) (free : b.used = false) :
    b.addr ∈ fl (binIndex b.size) :=
  (h.listed _ _).mpr ⟨b, hb, rfl, free, rfl⟩

end

/-! ### Between the stores of an operation -/

/-- The lists hold exactly the blocks of `F`, which are disjoint from each other. -/
structure Listed (s : State) (F : Block → Prop) (fl : Nat → List Nat) : Prop where
  lists : Lists s fl
  sizes : ∀ b, F b → GoodSize b.size
  apart : ∀ b c, F b → F c → b = c ∨ c.addr + c.size ≤ b.addr ∨ b.addr + b.size ≤ c.addr
  exact : ∀ i x, x ∈ fl i ↔ ∃ b, F b ∧ b.addr = x ∧ binIndex b.size = i

section
variable {s : State} {F : Block → Prop} {fl : Nat → List Nat}

theorem Listed.mem (h : Listed s F fl) {b : Block} (hb : F b) : b.addr ∈ fl (binIndex b.size) :=
  (h.exact _ _).mpr ⟨b, hb, rfl, rfl⟩

theorem Listed.node (h : Listed s F fl) {i x : Nat} (hx : x ∈ fl i) : ∃ b, F b ∧ b.addr = x := by
  obtain ⟨b, hb, same, -⟩ := (h.exact i x).mp hx
  exact ⟨b, hb, same⟩

theorem Listed.eq_of_addr (h : Listed s F fl) {b c : Block} (hb : F b) (hc : F c)
    (same : b.addr = c.addr) : b = c := by
  have := (h.sizes b hb).1
  have := (h.sizes c hc).1
  rcases h.apart b c hb hc with eq | apart
  · exact eq
  · omega

theorem Listed.congr {F' : Block → Prop} (h : Listed s F fl) (same : ∀ b, F' b ↔ F b) : Listed s F' fl where
  lists := h.lists
  sizes b hb := h.sizes b ((same b).mp hb)
  apart b c hb hc := h.apart b c ((same b).mp hb) ((same c).mp hc)
  exact i x := by simp only [h.exact, same]

theorem Listed.frame (h : Listed s F fl) {s' : State} (bins : s'.bins = s.bins)
    (same : ∀ b a, F b → LinkByte b.addr a → s'.mem a = s.mem a) : Listed s' F fl :=
  { h with
    lists := h.lists.frame bins fun i x a hx link => by
      obtain ⟨b, hb, rfl⟩ := h.node hx
      exact same b a hb link }

theorem Listed.remove (h : Listed s F fl) {b : Block} (hb : F b) (tag : bsize s.mem b.addr = b.size) :
    (∃ fl', Listed (binRemove s b.addr) (fun c => F c ∧ c ≠ b) fl') ∧
    ∀ a, (∀ c, F c → ¬ LinkByte c.addr a) → (binRemove s b.addr).mem a = s.mem a := by
  have hmem : b.addr ∈ fl (binIndex (bsize s.mem b.addr)) := tag ▸ h.mem hb
  refine ⟨⟨fun i => (fl i).erase b.addr, binRemove_lists h.lists hmem, ?_, ?_, ?_⟩, fun a outside => ?_⟩
  · exact fun c hc => h.sizes c hc.1
  · exact fun c d hc hd => h.apart c d hc.1 hd.1
  · intro i x
    rw [(h.lists.nodup i).mem_erase_iff, h.exact]
    constructor
    · rintro ⟨ne, c, hc, rfl, bin⟩
      exact ⟨c, ⟨hc, fun same => ne (same ▸ rfl)⟩, rfl, bin⟩
    · rintro ⟨c, ⟨hc, ne⟩, rfl, bin⟩
      exact ⟨fun same => ne (h.eq_of_addr hc hb same), c, hc, rfl, bin⟩
  · refine binRemove_frame h.lists hmem fun y hy => ?_
    obtain ⟨c, hc, rfl⟩ := h.node hy
    exact outside c hc

theorem Listed.insert (h : Listed s F fl) {b : Block} (size : GoodSize b.size)
    (tag : bsize s.mem b.addr = b.size) (pos : 0 < b.addr) (top : b.addr + b.size ≤ 2 ^ 64)
    (apart : ∀ c, F c → c.addr + c.size ≤ b.addr ∨ b.addr + b.size ≤ c.addr) :
    (∃ fl', Listed (binInsert s b.addr) (fun c => c = b ∨ F c) fl') ∧
    ∀ a, (∀ c, c = b ∨ F c → ¬ LinkByte c.addr a) → (binInsert s b.addr).mem a = s.mem a := by
  have hb := size.1
  have nodeApart : ∀ c, F c → Apart b.addr c.addr ∧ b.addr ≠ c.addr := fun c hc => by
    have := (h.sizes c hc).1
    have := apart c hc
    unfold Apart
    omega
  refine ⟨⟨pushed fl (binIndex b.size) b.addr, ?_, ?_, ?_, ?_⟩, fun a outside => ?_⟩
  · rw [← tag]
    refine binInsert_lists h.lists (by omega) (by omega) (fun i hi => ?_) fun i y hy => ?_
    · obtain ⟨c, hc, same⟩ := h.node hi
      exact (nodeApart c hc).2 same.symm
    · obtain ⟨c, hc, rfl⟩ := h.node hy
      exact (nodeApart c hc).1
  · rintro c (rfl | hc)
    · exact size
    · exact h.sizes c hc
  · rintro c d (hc | hc) (hd | hd)
    · exact Or.inl (hc.trans hd.symm)
    · exact Or.inr (hc ▸ apart d hd)
    · exact Or.inr (hd ▸ (apart c hc).symm)
    · exact h.apart c d hc hd
  · intro i x
    rw [mem_pushed, h.exact]
    constructor
    · rintro (⟨rfl, rfl⟩ | ⟨c, hc, same⟩)
      · exact ⟨b, Or.inl rfl, rfl, rfl⟩
      · exact ⟨c, Or.inr hc, same⟩
    · rintro ⟨c, rfl | hc, rfl, rfl⟩
      · exact Or.inl ⟨rfl, rfl⟩
      · exact Or.inr ⟨c, hc, rfl, rfl⟩
  · refine binInsert_frame h.lists (fun i y hy => ?_) (outside b (Or.inl rfl))
    obtain ⟨c, hc, rfl⟩ := h.node hy
    exact outside c (Or.inr hc)

end

/-- The parts of a state that block operations never change. -/
def SameStatics (s s' : State) : Prop :=
  s'.base = s.base ∧ s'.reservation = s.reservation ∧ s'.initDone = s.initDone ∧ s'.initFailed = s.initFailed

theorem SameStatics.trans {s s' s'' : State} (h : SameStatics s s') (h' : SameStatics s' s'') : SameStatics s s'' :=
  ⟨h'.1.trans h.1, h'.2.1.trans h.2.1, h'.2.2.1.trans h.2.2.1, h'.2.2.2.trans h.2.2.2⟩

theorem SameStatics.setMem {s s' : State} (h : SameStatics s s') (m : Mem) : SameStatics s { s' with mem := m } :=
  ⟨h.1, h.2.1, h.2.2.1, h.2.2.2⟩

/-- A state that an operation started from `s₀` has reached while it rebuilds the range
`[lo, hi)`: the blocks `B` around the hole are encoded, and only bytes of `T` have changed. -/
structure Hole (s₀ s : State) (B : Block → Prop) (lo hi : Nat) (T : Nat → Prop) : Prop where
  listed : ∃ fl, Listed s (fun b => B b ∧ b.used = false) fl
  tags : ∀ b, B b → Tagged s.mem b
  sizes : ∀ b, B b → GoodSize b.size
  disjoint : ∀ b c, B b → B c → b = c ∨ c.addr + c.size ≤ b.addr ∨ b.addr + b.size ≤ c.addr
  apart : ∀ b, B b → b.addr + b.size ≤ lo ∨ hi ≤ b.addr
  statics : SameStatics s₀ s
  high : s.high = s₀.high
  writes : ∀ a, ¬ T a → s.mem a = s₀.mem a
  inHole : ∀ a, lo ≤ a → a < hi → T a
  inFree : ∀ b, B b → b.used = false → ∀ a, b.addr ≤ a → a < b.addr + b.size → T a

section
variable {s₀ s : State} {B : Block → Prop} {lo hi : Nat} {T : Nat → Prop}

theorem Hole.congr {B' : Block → Prop} (h : Hole s₀ s B lo hi T) (same : ∀ c, B' c ↔ B c) :
    Hole s₀ s B' lo hi T := by
  have eq : B' = B := funext fun c => propext (same c)
  exact eq ▸ h

/-- Taking a free block next to the hole off its bin widens the hole. -/
theorem Hole.remove (h : Hole s₀ s B lo hi T) {b : Block} (hb : B b) (free : b.used = false) {lo' hi' : Nat}
    (next : ∀ a, lo' ≤ a → a < hi' → (b.addr ≤ a ∧ a < b.addr + b.size) ∨ (lo ≤ a ∧ a < hi))
    (apart : ∀ c, B c → c ≠ b → c.addr + c.size ≤ lo' ∨ hi' ≤ c.addr) :
    Hole s₀ (binRemove s b.addr) (fun c => B c ∧ c ≠ b) lo' hi' T := by
  obtain ⟨fl, listed⟩ := h.listed
  obtain ⟨⟨fl', listed'⟩, frame⟩ := listed.remove ⟨hb, free⟩ ((h.tags b hb).bsize_eq (h.sizes b hb))
  obtain ⟨base, res, high, done, failed⟩ := binRemove_state s b.addr
  obtain ⟨base₀, res₀, done₀, failed₀⟩ := h.statics
  exact {
    listed := ⟨fl', listed'.congr fun c => by simp only [and_right_comm]⟩
    tags := fun c hc => (h.tags c hc.1).frame (h.sizes c hc.1) fun a tag => frame a fun d hd =>
      tag_not_link (h.sizes c hc.1) (h.sizes d hd.1) ((h.disjoint c d hc.1 hd.1).imp Eq.symm id) tag
    sizes := fun c hc => h.sizes c hc.1
    disjoint := fun c d hc hd => h.disjoint c d hc.1 hd.1
    apart := fun c hc => apart c hc.1 hc.2
    statics := ⟨base.trans base₀, res.trans res₀, done.trans done₀, failed.trans failed₀⟩
    high := high.trans h.high
    writes := fun a outside => by
      rw [frame, h.writes a outside]
      intro c hc link
      have := link_in (h.sizes c hc.1) link
      exact outside (h.inFree c hc.1 hc.2 a this.1 this.2)
    inHole := fun a ha ha' => by
      rcases next a ha ha' with own | own
      · exact h.inFree b hb free a own.1 own.2
      · exact h.inHole a own.1 own.2
    inFree := fun c hc => h.inFree c hc.1 }

theorem Hole.remove_tag (h : Hole s₀ s B lo hi T) {b : Block} (hb : B b) (free : b.used = false) :
    bsize (binRemove s b.addr).mem b.addr = b.size := by
  obtain ⟨fl, listed⟩ := h.listed
  have size := h.sizes b hb
  obtain ⟨-, frame⟩ := listed.remove ⟨hb, free⟩ ((h.tags b hb).bsize_eq size)
  have tagged := (h.tags b hb).frame size fun a tag => frame a fun d hd =>
    tag_not_link size (h.sizes d hd.1) ((h.disjoint b d hb hd.1).imp Eq.symm id) tag
  exact tagged.bsize_eq size

theorem Hole.remove_next (h : Hole s₀ s B lo hi T) {b : Block} (hb : B b) (free : b.used = false)
    (next : b.addr = hi) :
    Hole s₀ (binRemove s b.addr) (fun c => B c ∧ c ≠ b) lo (hi + b.size) T := by
  refine h.remove hb free (fun a ha ha' => by omega) fun c hc ne => ?_
  have := (h.sizes c hc).1
  have := h.apart c hc
  rcases h.disjoint c b hc hb with same | apart
  · exact absurd same ne
  · omega

theorem Hole.remove_prev (h : Hole s₀ s B lo hi T) {b : Block} (hb : B b) (free : b.used = false)
    (prev : b.addr + b.size = lo) :
    Hole s₀ (binRemove s b.addr) (fun c => B c ∧ c ≠ b) b.addr hi T := by
  refine h.remove hb free (fun a ha ha' => by omega) fun c hc ne => ?_
  have := (h.sizes c hc).1
  have := h.apart c hc
  rcases h.disjoint c b hc hb with same | apart
  · exact absurd same ne
  · omega

theorem Hole.write (h : Hole s₀ s B lo hi T) {m : Mem} (inside : ∀ a, ¬ (lo ≤ a ∧ a < hi) → m a = s.mem a) :
    Hole s₀ { s with mem := m } B lo hi T := by
  obtain ⟨fl, listed⟩ := h.listed
  refine { h with listed := ⟨fl, listed.frame rfl fun b a hb link => inside a ?_⟩, tags := fun b hb => ?_,
                  writes := fun a outside => ?_ }
  · have := link_in (h.sizes b hb.1) link
    have := h.apart b hb.1
    omega
  · refine (h.tags b hb).frame (h.sizes b hb) fun a tag => inside a ?_
    have := tag_in (h.sizes b hb) tag
    have := h.apart b hb
    omega
  · rw [← h.writes a outside]
    exact inside a fun ha => outside (h.inHole a ha.1 ha.2)

/-- Listing a tagged free block of the hole keeps the tags around it and those of every block
of the hole that is disjoint from it. -/
theorem Hole.insert (h : Hole s₀ s B lo hi T) {r : Block} (size : GoodSize r.size) (tag : Tagged s.mem r)
    (pos : 0 < r.addr) (top : r.addr + r.size ≤ 2 ^ 64) (inside : lo ≤ r.addr ∧ r.addr + r.size ≤ hi) :
    (∃ fl, Listed (binInsert s r.addr) (fun c => c = r ∨ B c ∧ c.used = false) fl) ∧
    (∀ b, B b ∨ b = r ∨ GoodSize b.size ∧ Tagged s.mem b ∧ lo ≤ b.addr ∧ b.addr + b.size ≤ hi ∧
      (r.addr + r.size ≤ b.addr ∨ b.addr + b.size ≤ r.addr) → Tagged (binInsert s r.addr).mem b) ∧
    ∀ a, ¬ T a → (binInsert s r.addr).mem a = s₀.mem a := by
  obtain ⟨fl, listed⟩ := h.listed
  have ne := size.1
  have apart : ∀ c, B c → c.addr + c.size ≤ r.addr ∨ r.addr + r.size ≤ c.addr := fun c hc => by
    have := h.apart c hc
    omega
  obtain ⟨listed', frame⟩ := listed.insert size (tag.bsize_eq size) pos top fun c hc => apart c hc.1
  refine ⟨listed', fun b hb => ?_, fun a outside => ?_⟩
  · have hb' : GoodSize b.size ∧ Tagged s.mem b ∧ (r = b ∨ r.addr + r.size ≤ b.addr ∨ b.addr + b.size ≤ r.addr) ∧
        ∀ c, B c → c = b ∨ c.addr + c.size ≤ b.addr ∨ b.addr + b.size ≤ c.addr := by
      rcases hb with hb | rfl | ⟨sizeb, tagb, lob, hib, apartb⟩
      · exact ⟨h.sizes b hb, h.tags b hb, Or.inr (apart b hb).symm,
          fun c hc => (h.disjoint b c hb hc).imp Eq.symm id⟩
      · exact ⟨size, tag, Or.inl rfl, fun c hc => Or.inr (apart c hc)⟩
      · refine ⟨sizeb, tagb, Or.inr apartb, fun c hc => ?_⟩
        have := h.apart c hc
        omega
    obtain ⟨sizeb, tagb, apartr, apartc⟩ := hb'
    refine tagb.frame sizeb fun a taga => frame a fun c hc => ?_
    rcases hc with rfl | hc
    · exact tag_not_link sizeb size apartr taga
    · exact tag_not_link sizeb (h.sizes c hc.1) (apartc c hc.1) taga
  · rw [frame, h.writes a outside]
    rintro c (rfl | hc) link
    · have := link_in size link
      exact outside (h.inHole a (by omega) (by omega))
    · have := link_in (h.sizes c hc.1) link
      exact outside (h.inFree c hc.1 hc.2 a this.1 this.2)

end

/-- The addresses inside the free blocks, and inside `b`. -/
def FreeByte (bs : List Block) (a : Nat) : Prop :=
  ∃ c ∈ bs, c.used = false ∧ c.addr ≤ a ∧ a < c.addr + c.size

theorem Rep.toListed {s : State} {bs : List Block} {fl : Nat → List Nat} (h : Rep s bs fl) :
    Listed s (fun b => b ∈ bs ∧ b.used = false) fl where
  lists := h.lists
  sizes b hb := h.sizes b hb.1
  apart b c hb hc := h.tiles.disjoint hb.1 hc.1
  exact i x := by
    rw [h.listed]
    constructor
    · rintro ⟨b, hb, rfl, free, bin⟩
      exact ⟨b, ⟨hb, free⟩, rfl, bin⟩
    · rintro ⟨b, ⟨hb, free⟩, rfl, bin⟩
      exact ⟨b, hb, rfl, free, bin⟩

theorem Listed.listed {s : State} {bs : List Block} {fl : Nat → List Nat}
    (h : Listed s (fun b => b ∈ bs ∧ b.used = false) fl) (i x : Nat) :
    x ∈ fl i ↔ ∃ b ∈ bs, b.addr = x ∧ b.used = false ∧ binIndex b.size = i := by
  rw [h.exact]
  constructor
  · rintro ⟨b, ⟨hb, free⟩, rfl, bin⟩
    exact ⟨b, hb, rfl, free, bin⟩
  · rintro ⟨b, hb, rfl, free, bin⟩
    exact ⟨b, ⟨hb, free⟩, rfl, bin⟩

end Parallax.Pool
