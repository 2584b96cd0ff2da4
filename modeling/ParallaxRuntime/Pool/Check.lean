import ParallaxRuntime.Effects.Walk
import ParallaxRuntime.Pool.Invariant

/-!
# The heap checker

`check_locked` walks from header to header, over whatever the memory holds. Offsets are words: a size near 2^64
takes the walk back.
-/

namespace Parallax.Pool
open Memory Effects StateTransition

/-- The loop of `check_locked`: its answer, and the addresses of the words it read. -/
def checkLoop (s : State) : Nat → Nat → Option (Nat × List Nat)
  | 0, _ => none
  | fuel + 1, off =>
    if off < s.reservation then
      let B := wadd s.base off
      let bs := bsize s.mem B
      let footer := wsub (wadd B bs) FTR
      if bs < MIN_BSIZE ∨ bs &&& (ALIGN - 1) ≠ 0 then some (0, [B])
      else if wadd off bs > s.reservation then some (0, [B])
      else if load64 s.mem footer ≠ bs then some (0, [B, footer])
      else (checkLoop s fuel (wadd off bs)).map fun r => (r.1, B :: footer :: r.2)
    else some (if off = s.reservation then 1 else 0, [])

def pxPoolCheck (s : State) (fuel : Nat) : Option (Nat × List Nat) :=
  if s.base = 0 then some (1, []) else checkLoop s fuel 0

/-- Before initialisation there is no reservation; after it, whole pages that `mmap` returned. -/
def Reserved (s : State) : Prop :=
  s.base = 0 ∧ s.reservation = 0 ∨ Mapped s.base s.reservation ∧ s.reservation % 4096 = 0

/-! ### What the checker is for -/

/-- From `a` on, the header and the footer of each block are its size in `sizes`. -/
def TaggedBy (m : Mem) : Nat → List Nat → Prop
  | _, [] => True
  | a, z :: sizes => bsize m a = z ∧ load64 m (a + z - FTR) = z ∧ TaggedBy m (a + z) sizes

def Tiled (s : State) : Prop :=
  ∃ sizes : List Nat, (∀ z ∈ sizes, GoodSize z) ∧ sizes.sum = s.reservation ∧ TaggedBy s.mem s.base sizes

/-- `px_pool_check` returns, reads only words of the reservation, and answers 1 just when blocks tile it. -/
def Checks (s : State) : Prop :=
  ∃ fuel r, pxPoolCheck s fuel = some r ∧ (∀ a ∈ r.2, s.base ≤ a ∧ a + 8 ≤ s.base + s.reservation) ∧ (r.1 = 1 ↔ Tiled s)

/-! ### Chains of tags -/

/-- At offset `o` there is a header whose size leads, as a word, to the end `o'` of a block with the same size in
its footer. -/
structure Linked (s : State) (o o' : Nat) : Prop where
  start : o < s.reservation
  size : GoodSize (bsize s.mem (s.base + o))
  stop : o' = wadd o (bsize s.mem (s.base + o))
  inside : o' ≤ s.reservation
  footer : load64 s.mem (wsub (s.base + o') FTR) = bsize s.mem (s.base + o)

def Chain (s : State) : Nat → Nat → Prop := Relation.ReflTransGen (Linked s)

/-- No chain of tags from offset 0 meets a size that leads back to offset 0, and none that goes back ends where the
reservation does. -/
structure Straight (s : State) : Prop where
  start : ∀ o, Chain s 0 o → o < s.reservation → o + bsize s.mem (s.base + o) ≠ 2 ^ 64
  back : ∀ o o', Chain s 0 o → Linked s o o' → o' < o → ¬ Chain s o' s.reservation

instance (n : Nat) : Decidable (GoodSize n) := inferInstanceAs (Decidable (_ ∧ _))

/-- One turn of the loop. -/
def next (s : State) (o : Nat) : Option Nat :=
  let bs := bsize s.mem (s.base + o)
  let stop := wadd o bs
  if o < s.reservation ∧ GoodSize bs ∧ stop ≤ s.reservation ∧ load64 s.mem (wsub (s.base + stop) FTR) = bs then some stop
  else none

/-- The words read in one turn. -/
def readsAt (s : State) (o : Nat) : List Nat :=
  let bs := bsize s.mem (s.base + o)
  let stop := wadd o bs
  if o < s.reservation then
    if GoodSize bs ∧ stop ≤ s.reservation then [s.base + o, wsub (s.base + stop) FTR] else [s.base + o]
  else []

def verdict (s : State) (o : Nat) : Nat := if o = s.reservation then 1 else 0

section
variable {s : State} {o o' x y : Nat}

theorem Reserved.bounds (h : Reserved s) :
    s.reservation % 16 = 0 ∧ s.base + s.reservation < 2 ^ 64 ∧ (0 < s.reservation → 4096 ≤ s.base) := by
  rcases h with ⟨base, res⟩ | ⟨⟨nonnull, paged, -, space⟩, pages⟩
  · rw [base, res]
    decide
  · omega

theorem ensureInitLocked_reserved {env : Env} {p : Nat} (m : Mem) (maps : env.mmap = some p)
    (mapped : Mapped p env.reservation) : Reserved (ensureInitLocked env { mem := m }).2 := by
  rw [ensureInitLocked_fresh m maps]
  exact Or.inr ⟨mapped, roundUp_aligned _ 12 (by decide)⟩

theorem bsize_lt (m : Mem) (B : Nat) : bsize m B < 2 ^ 64 := Nat.lt_of_le_of_lt Nat.and_le_left (load64_lt m B)

theorem goodSize_iff {n : Nat} : GoodSize n ↔ ¬ (n < MIN_BSIZE ∨ n &&& (ALIGN - 1) ≠ 0) := by
  have low : n &&& (ALIGN - 1) = n % 16 := Nat.and_two_pow_sub_one_eq_mod n 4
  rw [low]
  unfold GoodSize MIN_BSIZE
  omega

/-! ### Turns and links -/

theorem next_eq_some : next s o = some o' ↔ Linked s o o' := by
  unfold next
  dsimp only
  constructor
  · intro turn
    split at turn
    · next here =>
      cases turn
      exact ⟨here.1, here.2.1, rfl, here.2.2.1, here.2.2.2⟩
    · cases turn
  · rintro ⟨start, size, rfl, inside, footer⟩
    exact if_pos ⟨start, size, inside, footer⟩

theorem reaches_iff : Reaches (next s) o o' ↔ Chain s o o' := by
  have same : (fun a b => b ∈ next s a) = Linked s := by
    funext a b
    exact propext next_eq_some
  unfold Reaches Chain
  rw [same]

/-- Links lead forward, or back past 2^64. -/
theorem Linked.cases (link : Linked s o o') (word : s.reservation < 2 ^ 64) :
    o' = o + bsize s.mem (s.base + o) ∨ o' + 2 ^ 64 = o + bsize s.mem (s.base + o) := by
  have start := link.start
  have size := bsize_lt s.mem (s.base + o)
  have stop := link.stop
  unfold wadd at stop
  omega

/-- The footer says where a link came from. -/
theorem Linked.undo (link : Linked s x o) (link' : Linked s y o) (word : s.reservation < 2 ^ 64) : x = y := by
  have same : bsize s.mem (s.base + x) = bsize s.mem (s.base + y) := by rw [← link.footer, link'.footer]
  have := link.start
  have := link'.start
  have := link.cases word
  have := link'.cases word
  omega

theorem Chain.keeps (chain : Chain s o o') (aligned : o % 16 = 0) (inside : o ≤ s.reservation) :
    o' % 16 = 0 ∧ o' ≤ s.reservation := by
  induction chain with
  | refl => exact ⟨aligned, inside⟩
  | tail _ link ih =>
    have size := link.size.2
    have stop := link.stop
    unfold wadd at stop
    exact ⟨by omega, link.inside⟩

/-! ### The loop -/

theorem checkLoop_succ (word : s.base + s.reservation < 2 ^ 64) (fuel : Nat) : checkLoop s (fuel + 1) o =
    match next s o with
    | some o' => (checkLoop s fuel o').map fun r => (r.1, readsAt s o ++ r.2)
    | none => some (verdict s o, readsAt s o) := by
  by_cases start : o < s.reservation
  · have header : wadd s.base o = s.base + o := wadd_of_lt (by omega)
    have footer : wsub (wadd (s.base + o) (bsize s.mem (s.base + o))) FTR =
        wsub (s.base + wadd o (bsize s.mem (s.base + o))) FTR := by
      unfold wsub wadd FTR
      omega
    have short : verdict s o = 0 := if_neg (by omega)
    simp only [checkLoop, next, readsAt, header, footer, short, start, true_and]
    by_cases size : GoodSize (bsize s.mem (s.base + o))
    · rw [if_neg (goodSize_iff.mp size)]
      by_cases inside : wadd o (bsize s.mem (s.base + o)) ≤ s.reservation
      · rw [if_neg (Nat.not_lt.mpr inside)]
        by_cases same : load64 s.mem (wsub (s.base + wadd o (bsize s.mem (s.base + o))) FTR) = bsize s.mem (s.base + o)
        · simp [size, inside, same]
        · simp [size, inside, same]
      · rw [if_pos (Nat.lt_of_not_le inside)]
        simp [inside]
    · rw [if_pos (not_not.mp (mt goodSize_iff.mpr size))]
      simp [size]
  · simp [checkLoop, next, readsAt, verdict, start]

/-- The loop ends where no link leads on, and has read the words of all turns. -/
theorem checkLoop_sound (word : s.base + s.reservation < 2 ^ 64) {fuel : Nat} {r : Nat × List Nat}
    (run : checkLoop s fuel o = some r) : ∃ x ∈ eval (next s) o, r.1 = verdict s x ∧
      ∀ a, a ∈ r.2 ↔ ∃ y, Chain s o y ∧ a ∈ readsAt s y := by
  induction fuel generalizing o r with
  | zero => cases run
  | succ fuel ih =>
    rw [checkLoop_succ word] at run
    cases turn : next s o with
    | none =>
      simp only [turn] at run
      cases run
      have alone : ∀ y, Chain s o y → y = o := by
        intro y chain
        rcases Relation.ReflTransGen.cases_head chain with same | ⟨z, link, -⟩
        · exact same.symm
        · rw [next_eq_some.mpr link] at turn
          cases turn
      refine ⟨o, mem_eval.mpr ⟨.refl, turn⟩, rfl, ?_⟩
      intro a
      constructor
      · exact fun read => ⟨o, .refl, read⟩
      · rintro ⟨y, chain, read⟩
        rwa [alone y chain] at read
    | some o' =>
      simp only [turn] at run
      obtain ⟨r', run', rfl⟩ := Option.map_eq_some_iff.mp run
      have link := next_eq_some.mp turn
      obtain ⟨x, ends, answer, reads⟩ := ih run'
      refine ⟨x, by rwa [reaches_eval (.single turn)], answer, ?_⟩
      intro a
      rw [List.mem_append, reads]
      constructor
      · rintro (here | ⟨y, chain, read⟩)
        · exact ⟨o, .refl, here⟩
        · exact ⟨y, chain.head link, read⟩
      · rintro ⟨y, chain, read⟩
        rcases Relation.ReflTransGen.cases_head chain with rfl | ⟨z, link', rest⟩
        · exact Or.inl read
        · rw [link'.stop, ← link.stop] at rest
          exact Or.inr ⟨y, rest, read⟩

theorem checkLoop_total (word : s.base + s.reservation < 2 ^ 64) (ends : x ∈ eval (next s) o) :
    ∃ fuel r, checkLoop s (fuel + 1) o = some r := by
  obtain ⟨reach, last⟩ := mem_eval.mp ends
  induction reach using Relation.ReflTransGen.head_induction_on with
  | refl => exact ⟨0, _, by rw [checkLoop_succ word, last]⟩
  | @head o o' turn rest ih =>
    obtain ⟨fuel, r, run⟩ := ih (mem_eval.mpr ⟨rest, last⟩)
    have turn : next s o = some o' := turn
    exact ⟨fuel + 1, (r.1, readsAt s o ++ r.2), by rw [checkLoop_succ word, turn]; simp [run]⟩

theorem checkLoop_of_pxPoolCheck (h : Reserved s) {fuel : Nat} {r : Nat × List Nat} (run : pxPoolCheck s fuel = some r) :
    ∃ fuel, checkLoop s fuel 0 = some r := by
  unfold pxPoolCheck at run
  split at run
  · next null =>
    have empty : s.reservation = 0 := by
      have := h.bounds.2.2
      omega
    exact ⟨1, by simp [checkLoop, empty, ← run]⟩
  · exact ⟨fuel, run⟩

theorem pxPoolCheck_of_checkLoop (h : Reserved s) {fuel : Nat} {r : Nat × List Nat}
    (run : checkLoop s (fuel + 1) 0 = some r) : pxPoolCheck s (fuel + 1) = some r := by
  unfold pxPoolCheck
  split
  · next null =>
    have empty : s.reservation = 0 := by
      have := h.bounds.2.2
      omega
    simpa [checkLoop, empty] using run
  · exact run

theorem next_reservation : next s s.reservation = none := if_neg fun here => Nat.lt_irrefl _ here.1

/-- The checker as a walk along the chain of tags. -/
theorem checks_iff_chain (h : Reserved s) : Checks s ↔ (∃ x, x ∈ eval (next s) 0) ∧
    (∀ y, Chain s 0 y → ∀ a ∈ readsAt s y, s.base ≤ a ∧ a + 8 ≤ s.base + s.reservation) ∧
    (Chain s 0 s.reservation ↔ Tiled s) := by
  have word := h.bounds.2.1
  have answer : ∀ {x}, x ∈ eval (next s) 0 → (verdict s x = 1 ↔ Chain s 0 s.reservation) := by
    intro x ends
    unfold verdict
    constructor
    · intro one
      split at one
      · next top =>
        rw [← top]
        exact reaches_iff.mp (mem_eval.mp ends).1
      · cases one
    · intro chain
      have top := mem_eval.mpr ⟨reaches_iff.mpr chain, next_reservation⟩
      exact if_pos (Part.mem_unique ends top)
  constructor
  · rintro ⟨fuel, r, run, inside, correct⟩
    obtain ⟨fuel, run⟩ := checkLoop_of_pxPoolCheck h run
    obtain ⟨x, ends, value, reads⟩ := checkLoop_sound word run
    refine ⟨⟨x, ends⟩, ?_, ?_⟩
    · intro y chain a read
      exact inside a ((reads a).mpr ⟨y, chain, read⟩)
    · rw [← correct, value, answer ends]
  · rintro ⟨⟨x, ends⟩, inside, correct⟩
    obtain ⟨fuel, r, run⟩ := checkLoop_total word ends
    obtain ⟨x, ends, value, reads⟩ := checkLoop_sound word run
    refine ⟨fuel + 1, r, pxPoolCheck_of_checkLoop h run, ?_, ?_⟩
    · intro a read
      obtain ⟨y, chain, here⟩ := (reads a).mp read
      exact inside y chain a here
    · rw [value, answer ends, correct]

/-! ### Reads -/

/-- The only word outside of the reservation that a turn can read is the one before it. -/
theorem reads_inside_iff (h : Reserved s) (chain : Chain s 0 o) :
    (∀ a ∈ readsAt s o, s.base ≤ a ∧ a + 8 ≤ s.base + s.reservation) ↔
      (o < s.reservation → o + bsize s.mem (s.base + o) ≠ 2 ^ 64) := by
  obtain ⟨pages, word, first⟩ := h.bounds
  obtain ⟨aligned, -⟩ := chain.keeps rfl (Nat.zero_le _)
  have size := bsize_lt s.mem (s.base + o)
  unfold readsAt
  dsimp only
  generalize bsize s.mem (s.base + o) = n at *
  by_cases start : o < s.reservation
  · have base := first (by omega)
    have header : s.base ≤ s.base + o ∧ s.base + o + 8 ≤ s.base + s.reservation := by omega
    rw [if_pos start]
    by_cases turn : GoodSize n ∧ wadd o n ≤ s.reservation
    · have footer : wsub (s.base + wadd o n) FTR = s.base + wadd o n - 8 := wsub_of_le (by omega) (by unfold FTR; omega)
      have size16 := turn.1.2
      have least := turn.1.1
      have stop : wadd o n = 0 ↔ o + n = 2 ^ 64 := by
        unfold wadd
        omega
      have stop16 : wadd o n % 16 = 0 := by
        unfold wadd
        omega
      simp only [if_pos turn, List.forall_mem_cons, footer, header, start, true_and, forall_const]
      have inside := turn.2
      generalize wadd o n = stop at *
      simp only [List.not_mem_nil, false_implies, implies_true, and_true]
      omega
    · have forward : o + n ≠ 2 ^ 64 := by
        intro whole
        apply turn
        refine ⟨⟨by omega, by omega⟩, ?_⟩
        unfold wadd
        omega
      simp only [if_neg turn, List.forall_mem_singleton, header, and_self, true_iff]
      exact fun _ => forward
  · simp [start]

/-! ### Tilings -/

/-- Along a tiling the chain goes forward to its end. -/
theorem chain_of_tagged {sizes : List Nat} (word : s.base + s.reservation < 2 ^ 64) (good : ∀ z ∈ sizes, GoodSize z)
    (sum : o + sizes.sum = s.reservation) (tags : TaggedBy s.mem (s.base + o) sizes) :
    Chain s o s.reservation ∧ ∀ x x', Chain s o x → Linked s x x' → x < x' := by
  induction sizes generalizing o with
  | nil =>
    obtain rfl : o = s.reservation := sum
    refine ⟨.refl, ?_⟩
    intro x x' chain link
    rcases Relation.ReflTransGen.cases_head chain with same | ⟨z, first, -⟩
    · have := link.start
      omega
    · have := first.start
      omega
  | cons z sizes ih =>
    obtain ⟨header, footer, rest⟩ := tags
    have size := good z List.mem_cons_self
    have least := size.1
    rw [List.sum_cons] at sum
    have stop : wadd o z = o + z := wadd_of_lt (by omega)
    have link : Linked s o (o + z) := by
      refine ⟨by omega, by rwa [header], by rw [header, stop], by omega, ?_⟩
      rw [wsub_of_le (by omega) (by unfold FTR; omega), header, ← Nat.add_assoc]
      exact footer
    rw [Nat.add_assoc] at rest
    obtain ⟨chain, forward⟩ := ih (fun w hw => good w (List.mem_cons_of_mem z hw)) (by omega) rest
    refine ⟨chain.head link, ?_⟩
    intro x x' chain' link'
    rcases Relation.ReflTransGen.cases_head chain' with rfl | ⟨y, first, onward⟩
    · rw [link'.stop, ← link.stop]
      omega
    · rw [first.stop, ← link.stop] at onward
      exact forward x x' onward link'

theorem tagged_of_chain (word : s.base + s.reservation < 2 ^ 64) (chain : Chain s o s.reservation)
    (forward : ∀ x x', Chain s o x → Linked s x x' → x < x') :
    ∃ sizes : List Nat, (∀ z ∈ sizes, GoodSize z) ∧ o + sizes.sum = s.reservation ∧ TaggedBy s.mem (s.base + o) sizes := by
  induction chain using Relation.ReflTransGen.head_induction_on with
  | refl => exact ⟨[], by simp, by simp, trivial⟩
  | @head o o' link rest ih =>
    have link : Linked s o o' := link
    obtain ⟨sizes, good, sum, tags⟩ := ih fun x x' chain => forward x x' (chain.head link)
    have ahead := forward o o' .refl link
    have start := link.start
    have size := bsize_lt s.mem (s.base + o)
    have least := link.size.1
    have stop : o' = o + bsize s.mem (s.base + o) := by
      have := link.cases (by omega)
      omega
    have footer := link.footer
    refine ⟨bsize s.mem (s.base + o) :: sizes, List.forall_mem_cons.mpr ⟨link.size, good⟩, ?_, rfl, ?_, ?_⟩
    · rw [List.sum_cons]
      omega
    · rw [wsub_of_le (by have := link.inside; omega) (by unfold FTR; omega), stop, ← Nat.add_assoc] at footer
      exact footer
    · rw [Nat.add_assoc, ← stop]
      exact tags

theorem tiled_of_straight (h : Reserved s) (straight : Straight s) (chain : Chain s 0 s.reservation) : Tiled s := by
  have word := h.bounds.2.1
  obtain ⟨sizes, good, sum, tags⟩ := tagged_of_chain word chain <| by
    intro x x' first link
    by_contra back
    have least := link.size.1
    have size := bsize_lt s.mem (s.base + x)
    have moved := link.cases (by omega)
    -- what comes after `x` is on the one chain from offset 0, which ends with the reservation
    apply straight.back x x' first link (by omega)
    rcases reaches_total (reaches_iff.mpr chain) (reaches_iff.mpr (first.tail link)) with past | before
    · rcases Relation.ReflTransGen.cases_head (reaches_iff.mp past) with same | ⟨y, passes, -⟩
      · rw [same]
        exact .refl
      · have := passes.start
        omega
    · exact reaches_iff.mp before
  exact ⟨sizes, good, by omega, tags⟩

theorem ends_of_straight (h : Reserved s) (straight : Straight s) : ∃ x, x ∈ eval (next s) 0 := by
  have word := h.bounds.2.1
  apply ends_of_injective
  · apply (Set.finite_le_nat s.reservation).subset
    intro x reach
    exact ((reaches_iff.mp reach).keeps rfl (Nat.zero_le _)).2
  · intro x y z turn turn'
    exact (next_eq_some.mp turn).undo (next_eq_some.mp turn') (by omega)
  · intro x reach turn
    have link := next_eq_some.mp turn
    have least := link.size.1
    have := straight.start x (reaches_iff.mp reach) link.start
    have := link.cases (by omega)
    omega

/-- The checker is right about a memory just when its tags are straight. -/
theorem checks_iff (h : Reserved s) : Checks s ↔ Straight s := by
  have word := h.bounds.2.1
  rw [checks_iff_chain h]
  constructor
  · rintro ⟨-, inside, correct⟩
    constructor
    · intro o chain
      exact (reads_inside_iff h chain).mp (inside o chain)
    · intro o o' chain link back onward
      obtain ⟨sizes, good, sum, tags⟩ := correct.mp ((chain.tail link).trans onward)
      have ahead := (chain_of_tagged (o := 0) word good (by omega) tags).2 o o' chain link
      omega
  · intro straight
    refine ⟨ends_of_straight h straight, ?_, tiled_of_straight h straight, ?_⟩
    · intro o chain
      exact (reads_inside_iff h chain).mpr (straight.start o chain)
    · rintro ⟨sizes, good, sum, tags⟩
      exact (chain_of_tagged (o := 0) word good (by omega) tags).1

end

/-! ### Two pages -/

/-- A page with a block of 64 bytes that is allocated, and a free block behind it. -/
def splitPage : State where
  mem := setBlock (setBlock (fun _ => 0) 4096 64 true) 4160 4032 false
  base := 4096
  reservation := 4096

theorem checks_iff_splitPage : Checks splitPage ∧ pxPoolCheck splitPage 3 = some (1, [4096, 4152, 4160, 8184]) := by
  have turns : next splitPage 0 = some 64 ∧ next splitPage 64 = some 4096 ∧ next splitPage 4096 = none := by decide
  have chain : ∀ o, Chain splitPage 0 o → o = 0 ∨ o = 64 ∨ o = 4096 := by
    intro o chain
    induction chain with
    | refl => exact Or.inl rfl
    | tail _ link ih =>
      have turn := next_eq_some.mpr link
      rcases ih with rfl | rfl | rfl
      · exact Or.inr (Or.inl (Option.some.inj (turn.symm.trans turns.1)))
      · exact Or.inr (Or.inr (Option.some.inj (turn.symm.trans turns.2.1)))
      · cases turn.symm.trans turns.2.2
  refine ⟨(checks_iff (Or.inr ⟨⟨by decide, by decide, by decide, by decide⟩, by decide⟩)).mpr ⟨?_, ?_⟩, by decide⟩
  · intro o from0 below
    rcases chain o from0 with rfl | rfl | rfl
    · decide
    · decide
    · exact absurd below (by decide)
  · intro o o' from0 link back
    have turn := next_eq_some.mpr link
    rcases chain o from0 with rfl | rfl | rfl
    · cases turn.symm.trans turns.1
      omega
    · cases turn.symm.trans turns.2.1
      omega
    · cases turn.symm.trans turns.2.2

/-- A block of 64 bytes, behind it a size of -32, and from there a block up to the end of the page. -/
def twistedPage : State where
  mem := store64 (store64 (store64 (store64 (store64 (store64 (fun _ => 0) 4096 64) 4152 64) 4160 (2 ^ 64 - 32))
    4120 (2 ^ 64 - 32)) 4128 4064) 8184 4064
  base := 4096
  reservation := 4096

theorem twistedPage_untiled : ¬ Tiled twistedPage := by
  rintro ⟨sizes, -, sum, tags⟩
  have first : bsize twistedPage.mem 4096 = 64 := by decide
  have second : bsize twistedPage.mem 4160 = 2 ^ 64 - 32 := by decide
  match sizes, sum, tags with
  | [], sum, _ => cases sum
  | [z], sum, tags =>
    have z64 : z = 64 := tags.1.symm.trans first
    rw [z64] at sum
    cases sum
  | z :: w :: rest, sum, tags =>
    have z64 : z = 64 := tags.1.symm.trans first
    have next := tags.2.2.1
    rw [z64] at next
    have large : w = 2 ^ 64 - 32 := next.symm.trans second
    have total : z + (w + rest.sum) = 4096 := sum
    omega

theorem twistedPage_accepted : Reserved twistedPage ∧
    pxPoolCheck twistedPage 4 = some (1, [4096, 4152, 4160, 4120, 4128, 8184]) ∧ ¬ Tiled twistedPage ∧
    ¬ Checks twistedPage := by
  have reserved : Reserved twistedPage := Or.inr ⟨⟨by decide, by decide, by decide, by decide⟩, by decide⟩
  refine ⟨reserved, by decide, twistedPage_untiled, ?_⟩
  intro checks
  have out : Linked twistedPage 0 64 := next_eq_some.mp (by decide)
  have back : Linked twistedPage 64 32 := next_eq_some.mp (by decide)
  have last : Linked twistedPage 32 4096 := next_eq_some.mp (by decide)
  have chain : Chain twistedPage 0 4096 := ((Relation.ReflTransGen.single out).tail back).tail last
  exact twistedPage_untiled (((checks_iff_chain reserved).mp checks).2.2.mp chain)

end Parallax.Pool
