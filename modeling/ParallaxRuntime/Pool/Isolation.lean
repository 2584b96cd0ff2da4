import ParallaxRuntime.Pool.Entry

/-!
# Isolation of live allocations

Runs of the entry points, interleaved with arbitrary writes into live allocations.
Each live pointer keeps a used block of its own.
-/

namespace Parallax.Pool
open Memory

/-- A pointer handed out and not freed, with the size and alignment it was requested with. -/
structure Live where
  ptr : Nat
  size : Nat
  align : Nat
deriving DecidableEq

/-- `b` is the block behind the live pointer `l`. -/
structure Owns (s : State) (bs : List Block) (l : Live) (b : Block) : Prop where
  mem : b ∈ bs
  used : b.used = true
  back : headerOf s.mem l.ptr = b.addr
  lower : b.addr + 16 ≤ l.ptr
  upper : l.ptr + l.size + 8 ≤ b.addr + b.size
  aligned : l.ptr % roundedAlign l.align = 0

/-- The pool is represented, and live pointers have used blocks of their own. -/
structure Held (s : State) (bs : List Block) (fl : Nat → List Nat) (L : List Live) : Prop where
  rep : Rep s bs fl
  done : s.initDone = true
  ok : s.initFailed = false
  owns : ∀ l ∈ L, ∃ b, Owns s bs l b
  apart : L.Pairwise fun l l' => headerOf s.mem l.ptr ≠ headerOf s.mem l'.ptr

/-- The bytes of `L`, back-pointers included, and their extents are as before. -/
def Untouched (s s' : State) (L : List Live) : Prop :=
  ∀ l ∈ L, pxPoolUsableSize s' l.ptr = pxPoolUsableSize s l.ptr ∧
    ∀ a, l.ptr - 8 ≤ a → a < l.ptr + pxPoolUsableSize s l.ptr → s'.mem a = s.mem a

/-- The allocations that are left once `l` is freed. -/
def dropped (L : List Live) (l : Live) : List Live := L.filter fun l' => l'.ptr ≠ l.ptr

section
variable {s s' : State} {bs bs' : List Block} {fl fl' : Nat → List Nat} {L : List Live} {l l' : Live} {b c : Block}

theorem Owns.ptr_pos (h : Owns s bs l b) : 16 ≤ l.ptr := by
  have := h.lower
  omega

theorem Owns.usable (h : Owns s bs l b) (rep : Rep s bs fl) :
    l.ptr + pxPoolUsableSize s l.ptr + 8 = b.addr + b.size := by
  have := h.lower
  have := h.upper
  have := (rep.bounds h.mem).2
  have := rep.top
  unfold pxPoolUsableSize FTR
  dsimp only
  rw [if_neg (by omega), h.back, rep.bsize_eq h.mem, wsub_of_le (by omega) (by omega)]
  omega

theorem Owns.frame (h : Owns s bs l b) (mem : b ∈ bs')
    (same : ∀ a, b.addr ≤ a → a < b.addr + b.size → s'.mem a = s.mem a) : Owns s' bs' l b where
  mem := mem
  used := h.used
  back := by
    have := h.lower
    have := h.upper
    rw [← h.back]
    exact load64_congr fun a _ _ => same a (by omega) (by omega)
  lower := h.lower
  upper := h.upper
  aligned := h.aligned

theorem Owns.untouched (h : Owns s bs l b) (rep : Rep s bs fl) (h' : Owns s' bs' l b) (rep' : Rep s' bs' fl')
    (same : ∀ a, b.addr ≤ a → a < b.addr + b.size → s'.mem a = s.mem a) :
    pxPoolUsableSize s' l.ptr = pxPoolUsableSize s l.ptr ∧
    ∀ a, l.ptr - 8 ≤ a → a < l.ptr + pxPoolUsableSize s l.ptr → s'.mem a = s.mem a := by
  have size := h.usable rep
  have size' := h'.usable rep'
  have := h.lower
  exact ⟨by omega, fun a _ _ => same a (by omega) (by omega)⟩

theorem Rep.used_not_free (h : Rep s bs fl) (hb : b ∈ bs) (used : b.used = true) {a : Nat}
    (lower : b.addr ≤ a) (upper : a < b.addr + b.size) : ¬ FreeByte bs a := by
  rintro ⟨c, hc, free, low, high⟩
  rcases h.tiles.disjoint hb hc with rfl | apart
  · rw [used] at free
    cases free
  · omega

theorem Untouched.refl (s : State) (L : List Live) : Untouched s s L := fun _ _ => ⟨rfl, fun _ _ _ => rfl⟩

theorem Held.header_ne (h : Held s bs fl L) (hl : l ∈ L) (hl' : l' ∈ L) (ne : l'.ptr ≠ l.ptr) :
    headerOf s.mem l'.ptr ≠ headerOf s.mem l.ptr := by
  have symm : Std.Symm fun l l' : Live => headerOf s.mem l.ptr ≠ headerOf s.mem l'.ptr := ⟨fun _ _ => Ne.symm⟩
  exact h.apart.forall hl' hl fun same => ne (same ▸ rfl)

/-- An operation after which every pointer of `L'` still has its untouched block. -/
theorem Held.frame (h : Held s bs fl L) {L' : List Live} (sub : L'.Sublist L) (rep : Rep s' bs' fl')
    (statics : SameStatics s s')
    (kept : ∀ l ∈ L', ∀ b, Owns s bs l b → b ∈ bs' ∧ ∀ a, b.addr ≤ a → a < b.addr + b.size → s'.mem a = s.mem a) :
    Held s' bs' fl' L' ∧ Untouched s s' L' := by
  have owned : ∀ l ∈ L', ∃ b, Owns s bs l b ∧ Owns s' bs' l b ∧
      ∀ a, b.addr ≤ a → a < b.addr + b.size → s'.mem a = s.mem a := fun l hl => by
    obtain ⟨b, hb⟩ := h.owns l (sub.subset hl)
    obtain ⟨mem, same⟩ := kept l hl b hb
    exact ⟨b, hb, hb.frame mem same, same⟩
  refine ⟨⟨rep, statics.2.2.1.trans h.done, statics.2.2.2.trans h.ok, fun l hl => ?_, ?_⟩, fun l hl => ?_⟩
  · obtain ⟨b, -, hb, -⟩ := owned l hl
    exact ⟨b, hb⟩
  · refine (h.apart.sublist sub).imp_of_mem fun hl hl' ne => ?_
    obtain ⟨b, hb, hb', -⟩ := owned _ hl
    obtain ⟨c, hc, hc', -⟩ := owned _ hl'
    rw [hb'.back, hc'.back, ← hb.back, ← hc.back]
    exact ne
  · obtain ⟨b, hb, hb', same⟩ := owned l hl
    exact hb.untouched h.rep hb' rep same

/-! ### What each entry point does to the live allocations -/

/-- The live allocations after `px_pool_alloc` returned `p`. -/
def grown (L : List Live) (p size align : Nat) : List Live := if p = 0 then L else ⟨p, size, align⟩ :: L

theorem held_alloc (h : Held s bs fl L) (env : Env) {size align : Nat} (safe : NoOverflow size (roundedAlign align)) :
    ∃ p s' bs' fl', pxPoolAlloc env s size align = some (p, s') ∧ Held s' bs' fl' (grown L p size align) ∧
      Untouched s s' L ∧ SameStatics s s' := by
  rcases pxPoolAlloc_cases h.rep h.done h.ok env safe with null | ⟨p, s', found, spec⟩
  · exact ⟨0, s, bs, fl, null, h, Untouched.refl s L, rfl, rfl, rfl, rfl⟩
  · obtain ⟨pre, b, post, need, fl', rfl, free, fits, rep, back, lower, upper⟩ := spec.taken
    have used : ∀ l ∈ L, ∀ c, Owns s (pre ++ b :: post) l c → c ∈ pre ++ post := fun l hl c hc => by
      rcases mem_mid_cons.mp hc.mem with rfl | mem
      · rw [hc.used] at free
        cases free
      · exact mem
    obtain ⟨held, untouched⟩ := h.frame (List.Sublist.refl L) rep spec.statics fun l hl c hc =>
      ⟨mem_mid.mpr (Or.inr (used l hl c hc)), fun a low high => spec.writes a (h.rep.used_not_free hc.mem hc.used low high)⟩
    refine ⟨p, s', pre ++ carve b need ++ post, fl', found, ?_, untouched, spec.statics⟩
    unfold grown
    rw [if_neg (by omega)]
    refine { held with owns := fun l hl => ?_, apart := List.pairwise_cons.mpr ⟨fun l hl => ?_, held.apart⟩ }
    · rcases List.mem_cons.mp hl with rfl | hl
      · exact ⟨carved b need, mem_mid.mpr (Or.inl (carved_mem b need)), rfl, back, lower, upper, spec.aligned⟩
      · exact held.owns l hl
    · obtain ⟨c, hc⟩ := h.owns l hl
      have mem := used l hl c hc
      have hc' : Owns s' (pre ++ carve b need ++ post) l c := hc.frame (mem_mid.mpr (Or.inr mem)) fun a low high =>
        spec.writes a (h.rep.used_not_free hc.mem hc.used low high)
      rw [back, hc'.back]
      intro same
      have hb : b ∈ pre ++ b :: post := mem_mid_cons.mpr (Or.inl rfl)
      have eq := h.rep.tiles.eq_of_addr hc.mem hb same.symm
      exact h.rep.not_mem (eq ▸ mem)

theorem held_free (h : Held s bs fl L) (hl : l ∈ L) :
    ∃ bs' fl', Held (pxPoolFree s l.ptr) bs' fl' (dropped L l) ∧ Untouched s (pxPoolFree s l.ptr) (dropped L l) ∧
      SameStatics s (pxPoolFree s l.ptr) := by
  obtain ⟨b, hb⟩ := h.owns l hl
  have body : pxPoolFree s l.ptr = blockFree s b.addr := by
    have := hb.ptr_pos
    unfold pxPoolFree
    rw [if_neg (by omega), hb.back]
  obtain ⟨pre, post, rfl⟩ := List.append_of_mem hb.mem
  obtain ⟨pre', r, post', ⟨fl', rep⟩, -, kept, writes, statics⟩ := blockFree_rep h.rep hb.used
  rw [body]
  suffices kept : ∀ l' ∈ dropped L l, ∀ c, Owns s (pre ++ b :: post) l' c → c ∈ pre' ++ r :: post' ∧
      ∀ a, c.addr ≤ a → a < c.addr + c.size → (blockFree s b.addr).mem a = s.mem a by
    obtain ⟨held, untouched⟩ := h.frame List.filter_sublist rep statics kept
    exact ⟨_, fl', held, untouched, statics⟩
  intro l' hl' c hc
  obtain ⟨hl', ne⟩ := List.mem_filter.mp hl'
  have other := h.header_ne hl hl' (by simpa using ne)
  rw [hc.back, hb.back] at other
  have mem : c ∈ pre ++ post := (mem_mid_cons.mp hc.mem).resolve_left fun same => other (same ▸ rfl)
  refine ⟨mem_mid_cons.mpr (Or.inr ((kept c hc.used).mpr mem)), fun a low high => writes a ?_⟩
  rintro (free | inside)
  · exact h.rep.used_not_free hc.mem hc.used low high free
  · have := h.rep.tiles.apart mem
    omega

/-- Outside of the reservation no allocation and no free writes. -/
theorem pxPoolAlloc_outside (h : Held s bs fl L) {env : Env} {size align p : Nat} (safe : NoOverflow size (roundedAlign align))
    (result : pxPoolAlloc env s size align = some (p, s')) {a : Nat} (outside : ¬ InReservation s a) : s'.mem a = s.mem a := by
  rcases pxPoolAlloc_cases h.rep h.done h.ok env safe with null | ⟨p', s₁, found, spec⟩
  · rw [null] at result
    cases result
    rfl
  · rw [found] at result
    cases result
    exact spec.writes a fun ⟨b, hb, _, low, high⟩ => outside (h.rep.reserved hb low high)

theorem pxPoolFree_outside (h : Held s bs fl L) (hl : l ∈ L) {a : Nat} (outside : ¬ InReservation s a) :
    (pxPoolFree s l.ptr).mem a = s.mem a := by
  obtain ⟨b, hb⟩ := h.owns l hl
  have := hb.ptr_pos
  unfold pxPoolFree
  rw [if_neg (by omega), hb.back]
  obtain ⟨pre, post, rfl⟩ := List.append_of_mem hb.mem
  obtain ⟨-, -, -, -, -, -, writes, -⟩ := blockFree_rep h.rep hb.used
  apply writes a
  rintro (⟨c, hc, -, low, high⟩ | ⟨low, high⟩)
  · exact outside (h.rep.reserved hc low high)
  · exact outside (h.rep.reserved hb.mem low high)

/-- The bytes that the program may write: those of live allocations. -/
def UserByte (s : State) (L : List Live) (a : Nat) : Prop :=
  ∃ l ∈ L, l.ptr ≤ a ∧ a < l.ptr + pxPoolUsableSize s l.ptr

theorem held_write (h : Held s bs fl L) {m : Mem} (same : ∀ a, InReservation s a → ¬ UserByte s L a → m a = s.mem a) :
    Held { s with mem := m } bs fl L ∧
    ∀ l ∈ L, pxPoolUsableSize { s with mem := m } l.ptr = pxPoolUsableSize s l.ptr := by
  have rep : Rep { s with mem := m } bs fl := h.rep.payload_write fun a own outside => same a own fun ⟨l, hl, low, high⟩ => by
    obtain ⟨b, hb⟩ := h.owns l hl
    have size := hb.usable h.rep
    have := hb.lower
    exact outside ⟨b, hb.mem, hb.used, by omega, by omega⟩
  -- No live range reaches the word before a live pointer.
  have back : ∀ l ∈ L, headerOf m l.ptr = headerOf s.mem l.ptr := fun l hl => by
    obtain ⟨b, hb⟩ := h.owns l hl
    have := hb.lower
    have := hb.upper
    refine load64_congr fun a low high => same a (h.rep.reserved hb.mem (by omega) (by omega)) fun ⟨l', hl', low', high'⟩ => ?_
    obtain ⟨c, hc⟩ := h.owns l' hl'
    have size := hc.usable h.rep
    have := hc.lower
    rcases h.rep.tiles.disjoint hb.mem hc.mem with rfl | apart
    · by_cases eq : l'.ptr = l.ptr
      · omega
      · exact h.header_ne hl hl' eq (hc.back.trans hb.back.symm)
    · omega
  have owned : ∀ l ∈ L, ∀ b, Owns s bs l b → Owns { s with mem := m } bs l b := fun l hl b hb =>
    { hb with back := (back l hl).trans hb.back }
  refine ⟨⟨rep, h.done, h.ok, fun l hl => ?_, h.apart.imp_of_mem fun hl hl' ne => ?_⟩, fun l hl => ?_⟩
  · obtain ⟨b, hb⟩ := h.owns l hl
    exact ⟨b, owned l hl b hb⟩
  · dsimp only
    rw [back _ hl, back _ hl']
    exact ne
  · obtain ⟨b, hb⟩ := h.owns l hl
    have size := hb.usable h.rep
    have size' := (owned l hl b hb).usable rep
    omega

theorem mem_dropped {k : Live} : k ∈ dropped L l ↔ k ∈ L ∧ k.ptr ≠ l.ptr := by
  unfold dropped
  simp

theorem Held.ptr_nodup (h : Held s bs fl L) : (L.map Live.ptr).Nodup := by
  apply List.Pairwise.map _ _ h.apart
  intro l l' apart same
  apply apart
  rw [same]

theorem Held.map_dropped (h : Held s bs fl L) (l : Live) :
    ((L.map Live.ptr).erase l.ptr).Perm ((dropped L l).map Live.ptr) := by
  rw [h.ptr_nodup.erase_eq_filter, List.filter_map]
  have keep : ((fun x => x != l.ptr) ∘ Live.ptr) = fun l' : Live => decide (l'.ptr ≠ l.ptr) := by
    funext l'
    by_cases same : l'.ptr = l.ptr <;> simp [same]
  rw [keep]
  exact List.Perm.refl _

/-- The live allocations after `px_pool_realloc` of `l` to `n` bytes returned `q`. -/
def regrown (L : List Live) (l : Live) (n q : Nat) : List Live :=
  if n = 0 then dropped L l
  else if q = 0 then L
  else if q = l.ptr then ⟨l.ptr, n, l.align⟩ :: dropped L l
  else ⟨q, n, ALIGN⟩ :: dropped L l

theorem held_resize (h : Held s bs fl L) (hl : l ∈ L) {n : Nat} (fits : n ≤ pxPoolUsableSize s l.ptr) :
    Held s bs fl (⟨l.ptr, n, l.align⟩ :: dropped L l) := by
  refine { h with owns := fun k hk => ?_, apart := List.pairwise_cons.mpr ⟨fun k hk => ?_, ?_⟩ }
  · rcases List.mem_cons.mp hk with rfl | hk
    · obtain ⟨b, hb⟩ := h.owns l hl
      have size := hb.usable h.rep
      exact ⟨b, hb.mem, hb.used, hb.back, hb.lower, by dsimp only; omega, hb.aligned⟩
    · exact h.owns k (mem_dropped.mp hk).1
  · obtain ⟨hk, ne⟩ := mem_dropped.mp hk
    exact (h.header_ne hl hk ne).symm
  · exact h.apart.sublist List.filter_sublist

theorem Untouched.trans {s'' : State} (h : Untouched s s' L) (h' : Untouched s' s'' L) : Untouched s s'' L :=
  fun l hl => by
    obtain ⟨size, same⟩ := h l hl
    obtain ⟨size', same'⟩ := h' l hl
    refine ⟨size'.trans size, fun a low high => ?_⟩
    rw [same' a low (by omega), same a low high]

theorem Untouched.subset {L' : List Live} (h : Untouched s s' L) (sub : ∀ l ∈ L', l ∈ L) : Untouched s s' L' :=
  fun l hl => h l (sub l hl)

theorem Held.disjoint (h : Held s bs fl L) (hl : l ∈ L) (hl' : l' ∈ L)
    (ne : headerOf s.mem l.ptr ≠ headerOf s.mem l'.ptr) :
    l.ptr + pxPoolUsableSize s l.ptr ≤ l'.ptr - 8 ∨ l'.ptr + pxPoolUsableSize s l'.ptr ≤ l.ptr - 8 := by
  obtain ⟨b, hb⟩ := h.owns l hl
  obtain ⟨c, hc⟩ := h.owns l' hl'
  have size := hb.usable h.rep
  have size' := hc.usable h.rep
  have := hb.lower
  have := hc.lower
  rw [hb.back, hc.back] at ne
  rcases h.rep.tiles.disjoint hb.mem hc.mem with rfl | apart
  · exact absurd rfl ne
  · omega

/-- The copy of the old contents is a write into the new allocation. -/
theorem held_copy (h : Held s bs fl (l' :: L)) (l : Live) {n : Nat} (fits : n ≤ pxPoolUsableSize s l'.ptr) :
    Held { s with mem := copyBytes s.mem l'.ptr l.ptr n } bs fl (l' :: L) ∧
    Untouched s { s with mem := copyBytes s.mem l'.ptr l.ptr n } L ∧
    pxPoolUsableSize { s with mem := copyBytes s.mem l'.ptr l.ptr n } l'.ptr = pxPoolUsableSize s l'.ptr := by
  have outside : ∀ a, ¬ (l'.ptr ≤ a ∧ a < l'.ptr + n) → copyBytes s.mem l'.ptr l.ptr n a = s.mem a :=
    fun a ha => if_neg ha
  obtain ⟨held, size⟩ := held_write h (m := copyBytes s.mem l'.ptr l.ptr n) fun a _ ha => outside a fun here =>
    ha ⟨l', List.mem_cons_self, here.1, by omega⟩
  refine ⟨held, fun k hk => ⟨size k (List.mem_cons_of_mem l' hk), fun a low high => outside a fun here => ?_⟩,
    size l' List.mem_cons_self⟩
  have apart := h.disjoint List.mem_cons_self (List.mem_cons_of_mem l' hk) ((List.pairwise_cons.mp h.apart).1 k hk)
  omega

/-- `px_pool_realloc` once the new block is found: copy, then free the old one. -/
theorem held_move (h : Held s bs fl (l' :: L)) (hl : l ∈ L) {n : Nat} (fits : n ≤ pxPoolUsableSize s l'.ptr)
    (moved : pxPoolFree { s with mem := copyBytes s.mem l'.ptr l.ptr n } l.ptr = s') :
    (∃ bs' fl', Held s' bs' fl' (l' :: dropped L l)) ∧ Untouched s s' (dropped L l) ∧ SameStatics s s' ∧
      l'.ptr ≠ l.ptr ∧ pxPoolUsableSize s' l'.ptr = pxPoolUsableSize s l'.ptr ∧
      ∀ i < n, s'.mem (l'.ptr + i) = s.mem (l.ptr + i) := by
  have other : l'.ptr ≠ l.ptr := fun same =>
    (List.pairwise_cons.mp h.apart).1 l hl (by rw [same])
  obtain ⟨copied, kept, size⟩ := held_copy h l fits
  obtain ⟨bs', fl', held, untouched, statics⟩ := held_free copied (List.mem_cons_of_mem l' hl)
  have split : dropped (l' :: L) l = l' :: dropped L l := List.filter_cons_of_pos (by simpa using other)
  rw [moved] at held untouched statics
  rw [split] at held untouched
  have sub : ∀ k ∈ dropped L l, k ∈ L := fun k hk => (mem_dropped.mp hk).1
  obtain ⟨size', same⟩ := untouched l' List.mem_cons_self
  refine ⟨⟨bs', fl', held⟩, (kept.subset sub).trans (untouched.subset fun k hk => List.mem_cons_of_mem l' hk), statics,
    other, size'.trans size, ?_⟩
  intro i hi
  rw [same (l'.ptr + i) (by omega) (by omega)]
  have inside : copyBytes s.mem l'.ptr l.ptr n (l'.ptr + i) = s.mem (l.ptr + (l'.ptr + i - l'.ptr)) := if_pos (by omega)
  rw [Nat.add_sub_cancel_left] at inside
  exact inside

theorem held_alloc_null (h : Held s bs fl L) {env : Env} {size align : Nat} (safe : NoOverflow size (roundedAlign align))
    (result : pxPoolAlloc env s size align = some (0, s')) : s' = s := by
  rcases pxPoolAlloc_cases h.rep h.done h.ok env safe with null | ⟨p, s₁, found, spec⟩
  · rw [null] at result
    cases result
    rfl
  · obtain ⟨_, b, _, _, _, -, -, -, -, -, lower, -⟩ := spec.taken
    rw [found] at result
    cases result
    omega

/-- What `px_pool_realloc` of `p` to `n` bytes answers: null and no change, or a pointer with room for `n` bytes that
start with those of `p`. -/
def Reallocated (s s' : State) (p n q : Nat) : Prop :=
  q = 0 ∧ s' = s ∨ q ≠ 0 ∧ n ≤ pxPoolUsableSize s' q ∧ ∀ i < min (pxPoolUsableSize s p) n, s'.mem (q + i) = s.mem (p + i)

theorem held_realloc (h : Held s bs fl L) (hl : l ∈ L) (env : Env) {n : Nat}
    (safe : n ≤ pxPoolUsableSize s l.ptr ∨ NoOverflow n (roundedAlign ALIGN)) :
    ∃ q s' bs' fl', pxPoolRealloc env s l.ptr n = some (q, s') ∧ Held s' bs' fl' (regrown L l n q) ∧
      Untouched s s' (dropped L l) ∧ SameStatics s s' ∧ (0 < n → Reallocated s s' l.ptr n q) := by
  obtain ⟨b, hb⟩ := h.owns l hl
  have pos := hb.ptr_pos
  unfold pxPoolRealloc regrown
  rw [if_neg (by omega)]
  by_cases zero : n = 0
  · rw [if_pos zero]
    simp only [if_pos zero]
    obtain ⟨bs', fl', held, untouched, statics⟩ := held_free h hl
    exact ⟨0, _, bs', fl', rfl, held, untouched, statics, fun some => absurd zero (Nat.ne_of_gt some)⟩
  rw [if_neg zero]
  simp only [if_neg zero]
  by_cases fits : n ≤ pxPoolUsableSize s l.ptr
  · rw [if_pos fits]
    refine ⟨l.ptr, s, bs, fl, rfl, ?_, Untouched.refl s _, ⟨rfl, rfl, rfl, rfl⟩, fun _ => Or.inr ⟨?_, fits, fun _ _ => rfl⟩⟩
    · rw [if_neg (by omega), if_pos rfl]
      exact held_resize h hl fits
    · omega
  rw [if_neg fits]
  have safe := safe.resolve_left fits
  obtain ⟨q, s₁, bs₁, fl₁, result, held, untouched, statics⟩ := held_alloc h env safe
  rw [result, Option.bind_some]
  have sub : ∀ k ∈ dropped L l, k ∈ L := fun k hk => (mem_dropped.mp hk).1
  by_cases null : q = 0
  · rw [null, grown, if_pos rfl] at held
    rw [null] at result
    refine ⟨0, s₁, bs₁, fl₁, if_pos null, ?_, untouched.subset sub, statics, fun _ => Or.inl ⟨rfl, held_alloc_null h safe result⟩⟩
    rw [if_pos rfl]
    exact held
  · rw [grown, if_neg null] at held
    obtain ⟨c, hc⟩ := held.owns ⟨q, n, ALIGN⟩ List.mem_cons_self
    have size := hc.usable held.rep
    have room := hc.upper
    dsimp only at size room
    obtain ⟨⟨bs₂, fl₂, held₂⟩, untouched₂, statics₂, moved, usable, copied⟩ :=
      held_move held hl (show pxPoolUsableSize s l.ptr ≤ pxPoolUsableSize s₁ q by omega) rfl
    refine ⟨q, _, bs₂, fl₂, if_neg null, ?_, (untouched.subset sub).trans untouched₂, statics.trans statics₂,
      fun _ => Or.inr ⟨null, ?_, ?_⟩⟩
    · rw [if_neg null, if_neg moved]
      exact held₂
    · show n ≤ pxPoolUsableSize (pxPoolFree { s₁ with mem := copyBytes s₁.mem q l.ptr (pxPoolUsableSize s l.ptr) } l.ptr) q
      rw [usable]
      show n ≤ pxPoolUsableSize s₁ q
      omega
    · intro i hi
      rw [copied i (by omega)]
      exact (untouched l hl).2 (l.ptr + i) (by omega) (by omega)

end

/-! ### Runs -/

/-- Runs of the entry points from a fresh pool, with the live allocations. Between calls the
program writes any bytes into live allocations. -/
inductive Run (env : Env) : State → List Live → Prop
  | start {p : Nat} (m : Mem) (maps : env.mmap = some p) (mapped : Mapped p env.reservation) :
      Run env (ensureInitLocked env { mem := m }).2 []
  | alloc {s s' : State} {L : List Live} {size align p : Nat} (run : Run env s L) (hs : size ≤ 2 ^ 62)
      (ha : align ≤ 2 ^ 62) (result : pxPoolAlloc env s size align = some (p, s')) :
      Run env s' (grown L p size align)
  | free {s : State} {L : List Live} {l : Live} (run : Run env s L) (hl : l ∈ L) :
      Run env (pxPoolFree s l.ptr) (dropped L l)
  | realloc {s s' : State} {L : List Live} {l : Live} {n q : Nat} (run : Run env s L) (hl : l ∈ L)
      (hn : n ≤ 2 ^ 62) (result : pxPoolRealloc env s l.ptr n = some (q, s')) :
      Run env s' (regrown L l n q)
  | write {s : State} {L : List Live} {m : Mem} (run : Run env s L)
      (inside : ∀ a, ¬ UserByte s L a → m a = s.mem a) : Run env { s with mem := m } L

theorem Run.held {env : Env} {s : State} {L : List Live} (run : Run env s L) : ∃ bs fl, Held s bs fl L := by
  induction run with
  | start m maps mapped =>
    obtain ⟨fl, rep⟩ := init_rep m maps mapped
    rw [ensureInitLocked_fresh m maps] at rep ⊢
    exact ⟨_, fl, rep, rfl, rfl, by simp, List.Pairwise.nil⟩
  | alloc run hs ha result ih =>
    obtain ⟨bs, fl, h⟩ := ih
    obtain ⟨p, s', bs', fl', result', held, -⟩ := held_alloc h env (noOverflow_of_small hs ha)
    rw [result'] at result
    cases result
    exact ⟨bs', fl', held⟩
  | free run hl ih =>
    obtain ⟨bs, fl, h⟩ := ih
    obtain ⟨bs', fl', held, -⟩ := held_free h hl
    exact ⟨bs', fl', held⟩
  | realloc run hl hn result ih =>
    obtain ⟨bs, fl, h⟩ := ih
    obtain ⟨q, s', bs', fl', result', held, -⟩ :=
      held_realloc h hl env (Or.inr (noOverflow_of_small hn (by decide : ALIGN ≤ 2 ^ 62)))
    rw [result'] at result
    cases result
    exact ⟨bs', fl', held⟩
  | write run inside ih =>
    obtain ⟨bs, fl, h⟩ := ih
    exact ⟨bs, fl, (held_write h fun a _ => inside a).1⟩

/-- A live pointer is aligned and its usable bytes, with the back-pointer before them, lie
between the header and the footer of one allocated block of the reservation. -/
structure Placed (s : State) (l : Live) (B : Nat) : Prop where
  block : B ∈ s.blocks
  live : allocated s.mem B = true
  back : headerOf s.mem l.ptr = B
  aligned : l.ptr % roundedAlign l.align = 0
  enough : l.size ≤ pxPoolUsableSize s l.ptr
  header : B + HDR + 8 ≤ l.ptr
  footer : l.ptr + pxPoolUsableSize s l.ptr ≤ B + bsize s.mem B - FTR
  inside : s.base ≤ B ∧ B + bsize s.mem B ≤ s.base + s.reservation

structure Isolated (env : Env) (s : State) (L : List Live) : Prop where
  placed : ∀ l ∈ L, ∃ B, Placed s l B
  disjoint : L.Pairwise fun l l' =>
    l.ptr + pxPoolUsableSize s l.ptr ≤ l'.ptr - 8 ∨ l'.ptr + pxPoolUsableSize s l'.ptr ≤ l.ptr - 8
  alloc : ∀ size align, size ≤ 2 ^ 62 → align ≤ 2 ^ 62 →
    ∃ p s', pxPoolAlloc env s size align = some (p, s') ∧ Untouched s s' L
  free : ∀ l ∈ L, Untouched s (pxPoolFree s l.ptr) (dropped L l)
  realloc : ∀ l ∈ L, ∀ n, n ≤ 2 ^ 62 →
    ∃ q s', pxPoolRealloc env s l.ptr n = some (q, s') ∧ Untouched s s' (dropped L l)

theorem Owns.placed {s : State} {bs : List Block} {fl : Nat → List Nat} {l : Live} {b : Block}
    (h : Owns s bs l b) (rep : Rep s bs fl) : Placed s l b.addr := by
  have size := h.usable rep
  have upper := h.upper
  have same := rep.bsize_eq h.mem
  refine ⟨?_, by rw [rep.allocated_eq h.mem, h.used], h.back, h.aligned, by omega, h.lower, ?_, ?_⟩
  · rw [rep.blocks_eq]
    exact List.mem_map_of_mem h.mem
  · rw [same]
    unfold FTR
    omega
  · rw [same]
    exact rep.bounds h.mem

/-- Every run keeps the live allocations isolated from each other and from the pool. -/
theorem Run.isolated {env : Env} {s : State} {L : List Live} (run : Run env s L) : Isolated env s L := by
  obtain ⟨bs, fl, h⟩ := run.held
  refine ⟨fun l hl => ?_, h.apart.imp_of_mem fun hl hl' ne => h.disjoint hl hl' ne, fun size align hs ha => ?_,
    fun l hl => ?_, fun l hl n hn => ?_⟩
  · obtain ⟨b, hb⟩ := h.owns l hl
    exact ⟨b.addr, hb.placed h.rep⟩
  · obtain ⟨p, s', _, _, result, -, untouched, -⟩ := held_alloc h env (noOverflow_of_small hs ha)
    exact ⟨p, s', result, untouched⟩
  · obtain ⟨_, _, -, untouched, -⟩ := held_free h hl
    exact untouched
  · obtain ⟨q, s', _, _, result, -, untouched, -⟩ :=
      held_realloc h hl env (Or.inr (noOverflow_of_small hn (by decide : ALIGN ≤ 2 ^ 62)))
    exact ⟨q, s', result, untouched⟩

theorem Run.isolated_after_alloc : ∃ s',
    pxPoolAlloc ⟨some 65536, 1⟩ (ensureInitLocked ⟨some 65536, 1⟩ { mem := fun _ => 0 }).2 100 64 =
      some (65600, s') ∧ Isolated ⟨some 65536, 1⟩ s' [⟨65600, 100, 64⟩] := by
  have fresh : Run ⟨some 65536, 1⟩ (ensureInitLocked ⟨some 65536, 1⟩ { mem := fun _ => 0 }).2 [] :=
    .start (fun _ => 0) rfl ⟨by decide, by decide, by decide, by decide⟩
  obtain ⟨p, s', result, -⟩ := (Run.isolated fresh).alloc 100 64 (by decide) (by decide)
  have ptr : (pxPoolAlloc ⟨some 65536, 1⟩ (ensureInitLocked ⟨some 65536, 1⟩ { mem := fun _ => 0 }).2 100 64).map
      Prod.fst = some 65600 := by decide +kernel
  rw [result] at ptr
  cases ptr
  exact ⟨s', result, Run.isolated (fresh.alloc (by decide) (by decide) result)⟩

end Parallax.Pool
