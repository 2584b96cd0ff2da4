import Mathlib.Data.Nat.Bitwise
import Mathlib.Order.Hom.Basic
import Mathlib.Order.MinMax
import Mathlib.Order.BooleanAlgebra.Basic
import Mathlib.Tactic.Common

/-!
# The bitonic schedule as a sorting network

One stage compares each index with its partner. For zeros and ones a merge halves
clean and bitonic windows; the 0–1 principle gives every linear order.
-/

namespace Parallax.Kernel

variable {α γ : Type} [LinearOrder α] [LinearOrder γ]

/-- One stage `(k, j)`: the lower index of a pair takes the minimum when its `k`-bit is 0. -/
def compareExchange (k j : Nat) (x : Nat → α) : Nat → α := fun i =>
  if i < i ^^^ j ↔ i &&& k = 0 then min (x i) (x (i ^^^ j)) else max (x i) (x (i ^^^ j))

/-- The stages `j = 2 ^ (t - 1), …, 2, 1`. -/
def mergeStages (k : Nat) : Nat → (Nat → α) → Nat → α
  | 0, x => x
  | t + 1, x => mergeStages k t (compareExchange k (2 ^ t) x)

/-- The rounds `k = 2, 4, …, 2 ^ s`. -/
def sortRounds : Nat → (Nat → α) → Nat → α
  | 0, x => x
  | s + 1, x => mergeStages (2 ^ (s + 1)) (s + 1) (sortRounds s x)

/-! ### Partners -/

theorem xor_one (q : Nat) : q ^^^ 1 = if q % 2 = 0 then q + 1 else q - 1 := by
  have half : (q ^^^ 1) / 2 = q / 2 := by simpa using Nat.xor_div_two_pow (a := q) (b := 1) (n := 1)
  have low : (q ^^^ 1) % 2 = q % 2 ^^^ 1 := by simpa using Nat.xor_mod_two_pow (a := q) (b := 1) (n := 1)
  rcases Nat.mod_two_eq_zero_or_one q with even | odd
  · rw [even, show 0 ^^^ 1 = 1 from rfl] at low
    rw [if_pos even]
    omega
  · rw [odd, show 1 ^^^ 1 = 0 from rfl] at low
    rw [if_neg (by omega)]
    omega

/-- The partner at distance `2 ^ t` lies in the other half of the same window. -/
theorem xor_two_pow (i t : Nat) :
    i ^^^ 2 ^ t = if i / 2 ^ t % 2 = 0 then i + 2 ^ t else i - 2 ^ t := by
  have pos := Nat.two_pow_pos t
  have high : (i ^^^ 2 ^ t) / 2 ^ t = i / 2 ^ t ^^^ 1 := by
    rw [Nat.xor_div_two_pow, Nat.div_self pos]
  have low : (i ^^^ 2 ^ t) % 2 ^ t = i % 2 ^ t := by
    rw [Nat.xor_mod_two_pow, Nat.mod_self, Nat.xor_zero]
  rw [xor_one] at high
  have whole := Nat.div_add_mod (i ^^^ 2 ^ t) (2 ^ t)
  have split := Nat.div_add_mod i (2 ^ t)
  by_cases even : i / 2 ^ t % 2 = 0
  · rw [high, low, if_pos even, Nat.mul_add, Nat.mul_one] at whole
    rw [if_pos even]
    omega
  · rw [high, low, if_neg even, Nat.mul_sub, Nat.mul_one] at whole
    rw [if_neg even]
    have : 2 ^ t ≤ 2 ^ t * (i / 2 ^ t) := Nat.le_mul_of_pos_right _
      (Nat.pos_of_ne_zero fun zero => even (by rw [zero]))
    omega

theorem and_two_pow_eq_zero (i s : Nat) : i &&& 2 ^ s = 0 ↔ i / 2 ^ s % 2 = 0 := by
  rw [Nat.and_two_pow, Nat.testBit_eq_decide_div_mod_eq]
  rcases Nat.mod_two_eq_zero_or_one (i / 2 ^ s) with even | odd
  · simp [even]
  · simp [odd]

theorem lt_xor_two_pow (i t : Nat) : i < i ^^^ 2 ^ t ↔ i / 2 ^ t % 2 = 0 := by
  have := Nat.two_pow_pos t
  rw [xor_two_pow]
  split <;> omega

theorem compareExchange_eq (s t : Nat) (x : Nat → α) (i : Nat) :
    compareExchange (2 ^ s) (2 ^ t) x i =
      if i / 2 ^ t % 2 = 0 ↔ i / 2 ^ s % 2 = 0 then min (x i) (x (i ^^^ 2 ^ t)) else max (x i) (x (i ^^^ 2 ^ t)) := by
  simp only [compareExchange, lt_xor_two_pow, and_two_pow_eq_zero]

theorem xor_two_pow_div {i t s : Nat} (h : t < s) : (i ^^^ 2 ^ t) / 2 ^ s = i / 2 ^ s := by
  rw [Nat.xor_div_two_pow, Nat.div_eq_of_lt (Nat.pow_lt_pow_right (by decide) h), Nat.xor_zero]

theorem partner_lt {i t n : Nat} (ht : t < n) (hi : i < 2 ^ n) : i ^^^ 2 ^ t < 2 ^ n :=
  Nat.xor_lt_two_pow hi (Nat.pow_lt_pow_right (by decide) ht)

theorem compareExchange_congr {k j i : Nat} {x y : Nat → α} (h : x i = y i) (h' : x (i ^^^ j) = y (i ^^^ j)) :
    compareExchange k j x i = compareExchange k j y i := by
  unfold compareExchange
  rw [h, h']

/-- The first `2 ^ n` elements depend on these only. -/
theorem mergeStages_congr {k t n : Nat} {x y : Nat → α} (le : t ≤ n) (same : ∀ i < 2 ^ n, x i = y i) :
    ∀ i < 2 ^ n, mergeStages k t x i = mergeStages k t y i := by
  induction t generalizing x y with
  | zero => exact same
  | succ t ih =>
    exact ih (by omega) fun i hi => compareExchange_congr (same i hi) (same _ (partner_lt (by omega) hi))

/-! ### Windows of zeros and ones -/

/-- On `[0, w)` the bits differ from `v` exactly between `lo` and `hi`. -/
def Bitonic (w : Nat) (u : Nat → Bool) : Prop := ∃ v lo hi, ∀ r < w, u r = (v ^^ decide (lo ≤ r ∧ r < hi))

theorem bitonic_interval (lo hi : Nat) {w : Nat} {u : Nat → Bool} {P : Nat → Prop} [DecidablePred P]
    (hu : ∀ r < w, u r = decide (P r)) (iff : ∀ r < w, P r ↔ lo ≤ r ∧ r < hi) : Bitonic w u :=
  ⟨false, lo, hi, fun r hr => by rw [hu r hr, Bool.false_xor, decide_eq_decide, iff r hr]⟩

theorem bitonic_gap (lo hi : Nat) {w : Nat} {u : Nat → Bool} {P : Nat → Prop} [DecidablePred P]
    (hu : ∀ r < w, u r = decide (P r)) (iff : ∀ r < w, P r ↔ ¬ (lo ≤ r ∧ r < hi)) : Bitonic w u :=
  ⟨true, lo, hi, fun r hr => by rw [hu r hr, Bool.true_xor, ← decide_not, decide_eq_decide, iff r hr]⟩

theorem Bitonic.not {w : Nat} {u : Nat → Bool} (h : Bitonic w u) : Bitonic w fun r => !u r := by
  obtain ⟨v, lo, hi, hu⟩ := h
  refine ⟨!v, lo, hi, fun r hr => ?_⟩
  dsimp only
  rw [hu r hr, Bool.not_xor]

theorem Bitonic.congr {w : Nat} {u u' : Nat → Bool} (h : Bitonic w u) (same : ∀ r < w, u' r = u r) : Bitonic w u' := by
  obtain ⟨v, lo, hi, hu⟩ := h
  exact ⟨v, lo, hi, fun r hr => (same r hr).trans (hu r hr)⟩

/-- The two halves of a window after one stage. -/
structure Halves (h : Nat) (u : Nat → Bool) : Prop where
  low : Bitonic h fun r => u r && u (r + h)
  high : Bitonic h fun r => u r || u (r + h)
  clean : (∀ r < h, (u r && u (r + h)) = false) ∨ ∀ r < h, (u r || u (r + h)) = true

theorem halfClean_interval (lo hi : Nat) {h : Nat} {u : Nat → Bool} (hu : ∀ r < 2 * h, u r = decide (lo ≤ r ∧ r < hi)) :
    Halves h u := by
  have both : ∀ r < h, (u r && u (r + h)) = decide ((lo ≤ r ∧ r < hi) ∧ lo ≤ r + h ∧ r + h < hi) := fun r hr => by
    rw [hu r (by omega), hu (r + h) (by omega), ← Bool.decide_and]
  have either : ∀ r < h, (u r || u (r + h)) = decide ((lo ≤ r ∧ r < hi) ∨ lo ≤ r + h ∧ r + h < hi) := fun r hr => by
    rw [hu r (by omega), hu (r + h) (by omega), ← Bool.decide_or]
  by_cases across : lo < h ∧ h < hi
  · refine ⟨bitonic_interval lo (hi - h) both fun r hr => by omega,
      bitonic_gap (hi - h) lo either fun r hr => by omega, ?_⟩
    by_cases short : hi - h ≤ lo
    · exact Or.inl fun r hr => (both r hr).trans (decide_eq_false (by omega))
    · exact Or.inr fun r hr => (either r hr).trans (decide_eq_true (by omega))
  · -- The ones lie in one half, so the minimum is zero everywhere.
    refine ⟨bitonic_interval 0 0 both fun r hr => by omega, ?_,
      Or.inl fun r hr => (both r hr).trans (decide_eq_false (by omega))⟩
    by_cases left : hi ≤ h
    · exact bitonic_interval lo hi either fun r hr => by omega
    · exact bitonic_interval (lo - h) (hi - h) either fun r hr => by omega

/-- One stage leaves two bitonic halves, the lower one below the upper one. -/
theorem halfClean {h : Nat} {u : Nat → Bool} (hu : Bitonic (2 * h) u) : Halves h u := by
  obtain ⟨v, lo, hi, hu⟩ := hu
  cases v with
  | false => exact halfClean_interval lo hi fun r hr => by rw [hu r hr, Bool.false_xor]
  | true =>
    -- The complement is an interval; under it the two halves change places.
    have half : Halves h fun r => !u r := halfClean_interval lo hi fun r hr => by simp [hu r hr]
    refine ⟨by simpa using half.high.not, by simpa using half.low.not, half.clean.symm.imp (fun ones r hr => ?_)
      fun zeros r hr => ?_⟩
    · have := ones r hr
      rw [← Bool.not_and] at this
      exact (Bool.not_eq_true' _).mp this
    · have := zeros r hr
      rw [← Bool.not_or] at this
      exact (Bool.not_eq_false' _).mp this

/-! ### Merging -/

/-- The stage in a window that sorts upwards. -/
def cleanStage (t : Nat) (z : Nat → Bool) : Nat → Bool := fun i =>
  if i / 2 ^ t % 2 = 0 then z i && z (i ^^^ 2 ^ t) else z i || z (i ^^^ 2 ^ t)

/-- The windows of `2 ^ t` bits are bitonic, and ordered inside each one of `2 ^ s`. -/
structure Windows (s t : Nat) (z : Nat → Bool) : Prop where
  bitonic : ∀ b, Bitonic (2 ^ t) fun r => z (b * 2 ^ t + r)
  ordered : ∀ i i', i / 2 ^ s = i' / 2 ^ s → i / 2 ^ t < i' / 2 ^ t → z i ≤ z i'

section
variable {s t : Nat} {z : Nat → Bool}

theorem window_div {b r w : Nat} (hr : r < w) : (b * w + r) / w = b := by
  rw [Nat.mul_comm, Nat.mul_add_div (by omega), Nat.div_eq_of_lt hr, Nat.add_zero]

/-- A cleaned half window in terms of the whole window. -/
theorem cleanStage_at {b r : Nat} (hr : r < 2 ^ t) :
    cleanStage t z (b * 2 ^ t + r) =
      if b % 2 = 0 then z (b / 2 * 2 ^ (t + 1) + r) && z (b / 2 * 2 ^ (t + 1) + (r + 2 ^ t))
      else z (b / 2 * 2 ^ (t + 1) + r) || z (b / 2 * 2 ^ (t + 1) + (r + 2 ^ t)) := by
  have double : b / 2 * 2 ^ (t + 1) = b / 2 * 2 * 2 ^ t := by rw [Nat.pow_succ', Nat.mul_assoc]
  unfold cleanStage
  rw [xor_two_pow, window_div hr, double]
  rcases Nat.mod_two_eq_zero_or_one b with even | odd
  · rw [if_pos even, if_pos even, if_pos even, show b / 2 * 2 = b by omega, Nat.add_assoc]
  · rw [if_neg (by omega), if_neg (by omega), if_neg (by omega)]
    have whole : b * 2 ^ t = b / 2 * 2 * 2 ^ t + 2 ^ t := by
      rw [← Nat.succ_mul, Nat.succ_eq_add_one, show b / 2 * 2 + 1 = b by omega]
    rw [whole, show b / 2 * 2 * 2 ^ t + 2 ^ t + r - 2 ^ t = b / 2 * 2 * 2 ^ t + r by omega,
      show b / 2 * 2 * 2 ^ t + 2 ^ t + r = b / 2 * 2 * 2 ^ t + (r + 2 ^ t) by omega, Bool.or_comm]

theorem Windows.halves (h : Windows s (t + 1) z) (b : Nat) :
    Halves (2 ^ t) fun r => z (b * 2 ^ (t + 1) + r) := halfClean (by rw [← Nat.pow_succ']; exact h.bitonic b)

/-- A stage cleans windows that lie inside the ones to be sorted. -/
theorem Windows.stage (h : Windows s (t + 1) z) (le : t + 1 ≤ s) : Windows s t (cleanStage t z) := by
  refine ⟨fun b => ?_, fun i i' same lt => ?_⟩
  · by_cases even : b % 2 = 0
    · exact (h.halves (b / 2)).low.congr fun r hr => by rw [cleanStage_at hr, if_pos even]
    · exact (h.halves (b / 2)).high.congr fun r hr => by rw [cleanStage_at hr, if_neg even]
  · have parent : ∀ j, j / 2 ^ t / 2 = j / 2 ^ (t + 1) := fun j => by rw [Nat.div_div_eq_div_mul, Nat.pow_succ]
    by_cases siblings : i / 2 ^ t / 2 = i' / 2 ^ t / 2
    · -- Two halves of one window.
      have low : i / 2 ^ t % 2 = 0 := by omega
      have high : ¬ i' / 2 ^ t % 2 = 0 := by omega
      have pos := Nat.two_pow_pos t
      rw [← Nat.div_add_mod' i (2 ^ t), ← Nat.div_add_mod' i' (2 ^ t), cleanStage_at (Nat.mod_lt _ pos),
        cleanStage_at (Nat.mod_lt _ pos), if_pos low, if_neg high, siblings]
      rcases (h.halves (i' / 2 ^ t / 2)).clean with zeros | ones
      · rw [zeros _ (Nat.mod_lt _ pos)]
        exact Bool.false_le _
      · rw [ones _ (Nat.mod_lt _ pos)]
        exact Bool.le_true _
    · -- Both partners of `i` lie below both partners of `i'`.
      have before : i / 2 ^ (t + 1) < i' / 2 ^ (t + 1) := by
        rw [← parent, ← parent]
        omega
      have le : ∀ j j', (j = i ∨ j = i ^^^ 2 ^ t) → (j' = i' ∨ j' = i' ^^^ 2 ^ t) → z j ≤ z j' := by
        intro j j' hj hj'
        have window : j / 2 ^ s = i / 2 ^ s ∧ j / 2 ^ (t + 1) = i / 2 ^ (t + 1) := by
          rcases hj with rfl | rfl
          · exact ⟨rfl, rfl⟩
          · exact ⟨xor_two_pow_div (by omega), xor_two_pow_div (by omega)⟩
        have window' : j' / 2 ^ s = i' / 2 ^ s ∧ j' / 2 ^ (t + 1) = i' / 2 ^ (t + 1) := by
          rcases hj' with rfl | rfl
          · exact ⟨rfl, rfl⟩
          · exact ⟨xor_two_pow_div (by omega), xor_two_pow_div (by omega)⟩
        exact h.ordered j j' (by rw [window.1, window'.1, same]) (by rw [window.2, window'.2]; exact before)
      have up : cleanStage t z i ≤ (z i || z (i ^^^ 2 ^ t)) := by
        unfold cleanStage
        split
        · cases z i <;> cases z (i ^^^ 2 ^ t) <;> decide
        · exact le_rfl
      have down : (z i' && z (i' ^^^ 2 ^ t)) ≤ cleanStage t z i' := by
        unfold cleanStage
        split
        · exact le_rfl
        · cases z i' <;> cases z (i' ^^^ 2 ^ t) <;> decide
      have middle : (z i || z (i ^^^ 2 ^ t)) ≤ (z i' && z (i' ^^^ 2 ^ t)) := by
        have h1 := le i i' (Or.inl rfl) (Or.inl rfl)
        have h2 := le i (i' ^^^ 2 ^ t) (Or.inl rfl) (Or.inr rfl)
        have h3 := le (i ^^^ 2 ^ t) i' (Or.inr rfl) (Or.inl rfl)
        have h4 := le (i ^^^ 2 ^ t) (i' ^^^ 2 ^ t) (Or.inr rfl) (Or.inr rfl)
        exact sup_le (le_inf h1 h2) (le_inf h3 h4)
      exact up.trans (middle.trans down)

/-- The stages `2 ^ (t - 1), …, 1` in windows that sort upwards. -/
def cleanStages : Nat → (Nat → Bool) → Nat → Bool
  | 0, z => z
  | t + 1, z => cleanStages t (cleanStage t z)

theorem Windows.stages (h : Windows s t z) (le : t ≤ s) : Windows s 0 (cleanStages t z) := by
  induction t generalizing z with
  | zero => exact h
  | succ t ih => exact ih (h.stage le) (by omega)

/-- The direction of the window of an index: set where the round sorts downwards. -/
def downwards (s i : Nat) : Bool := i / 2 ^ s % 2 = 1

/-- Turned upside down where it sorts downwards, a stage sorts upwards everywhere. -/
theorem compareExchange_flip (y : Nat → Bool) (i : Nat) (lt : t < s) :
    (compareExchange (2 ^ s) (2 ^ t) y i ^^ downwards s i) = cleanStage t (fun i => y i ^^ downwards s i) i := by
  have partner : downwards s (i ^^^ 2 ^ t) = downwards s i := by
    unfold downwards
    rw [xor_two_pow_div lt]
  rw [compareExchange_eq]
  unfold cleanStage
  dsimp only
  rw [partner]
  unfold downwards
  rcases Nat.mod_two_eq_zero_or_one (i / 2 ^ s) with up | down
  · simp only [up, iff_true, zero_ne_one, decide_false, Bool.xor_false]
    split <;> simp
  · simp only [down, one_ne_zero, iff_false, decide_true, Bool.xor_true]
    by_cases low : i / 2 ^ t % 2 = 0
    · simp [low]
    · simp [low]

theorem mergeStages_flip (y : Nat → Bool) (le : t ≤ s) :
    (fun i => mergeStages (2 ^ s) t y i ^^ downwards s i) = cleanStages t fun i => y i ^^ downwards s i := by
  induction t generalizing y with
  | zero => rfl
  | succ t ih =>
    rw [mergeStages, cleanStages, ih _ (by omega)]
    congr 1
    exact funext fun i => compareExchange_flip y i le

/-! ### Rounds -/

/-- Each window of `2 ^ s` bits is sorted, in its direction. -/
def SortedWindows (s : Nat) (y : Nat → Bool) : Prop :=
  ∀ i i', i / 2 ^ s = i' / 2 ^ s → i ≤ i' → (y i ^^ downwards s i) ≤ (y i' ^^ downwards s i')

theorem threshold {h : Nat} {u : Nat → Bool} (mono : ∀ r r', r ≤ r' → r' < h → u r ≤ u r') :
    ∃ p ≤ h, ∀ r < h, u r = decide (p ≤ r) := by
  induction h with
  | zero => exact ⟨0, le_rfl, fun r hr => absurd hr (Nat.not_lt_zero r)⟩
  | succ h ih =>
    obtain ⟨p, le, hp⟩ := ih fun r r' le lt => mono r r' le (by omega)
    cases last : u h with
    | true =>
      refine ⟨p, by omega, fun r hr => ?_⟩
      rcases Nat.lt_succ_iff_lt_or_eq.mp hr with lt | rfl
      · exact hp r lt
      · rw [last, decide_eq_true le]
    | false =>
      refine ⟨h + 1, le_rfl, fun r hr => ?_⟩
      have := mono r h (by omega) (by omega)
      rw [last] at this
      rw [Bool.eq_false_of_le_false this, decide_eq_false (by omega)]

/-- An upward window followed by a downward one is bitonic. -/
theorem SortedWindows.windows (h : SortedWindows s z) : Windows (s + 1) (s + 1) fun i => z i ^^ downwards (s + 1) i := by
  refine ⟨fun b => ?_, fun i i' same lt => absurd same (Nat.ne_of_lt lt)⟩
  have half : ∀ c r, r < 2 ^ s → downwards s (c * 2 ^ s + r) = decide (c % 2 = 1) := fun c r hr => by
    unfold downwards
    rw [window_div hr]
  have double : b * 2 ^ (s + 1) = b * 2 * 2 ^ s := by rw [Nat.pow_succ', Nat.mul_assoc]
  have within : ∀ c r r', r ≤ r' → r' < 2 ^ s →
      (z (c * 2 ^ s + r) ^^ decide (c % 2 = 1)) ≤ (z (c * 2 ^ s + r') ^^ decide (c % 2 = 1)) := fun c r r' le lt => by
    have := h (c * 2 ^ s + r) (c * 2 ^ s + r') (by rw [window_div lt, window_div (by omega)]) (by omega)
    rwa [half c r (by omega), half c r' lt] at this
  obtain ⟨p, hp, first⟩ := threshold (within (b * 2))
  obtain ⟨q, hq, second⟩ := threshold (within (b * 2 + 1))
  rw [show decide (b * 2 % 2 = 1) = false from decide_eq_false (by omega)] at first
  rw [show decide ((b * 2 + 1) % 2 = 1) = true from decide_eq_true (by omega)] at second
  refine ⟨decide (b % 2 = 1), p, 2 ^ s + q, fun r hr => ?_⟩
  have turn : downwards (s + 1) (b * 2 ^ (s + 1) + r) = decide (b % 2 = 1) := by
    unfold downwards
    rw [window_div hr]
  dsimp only
  rw [turn, Bool.xor_comm, double]
  congr 1
  rw [Nat.pow_succ'] at hr
  by_cases left : r < 2 ^ s
  · have := first r left
    rw [Bool.xor_false] at this
    rw [this]
    exact decide_eq_decide.mpr (by omega)
  · have := second (r - 2 ^ s) (by omega)
    rw [Bool.xor_true, Nat.succ_mul, show b * 2 * 2 ^ s + 2 ^ s + (r - 2 ^ s) = b * 2 * 2 ^ s + r by omega] at this
    rw [← Bool.not_not (z _), this, ← decide_not]
    exact decide_eq_decide.mpr (by omega)

theorem sortRounds_bool (y : Nat → Bool) (s : Nat) : SortedWindows s (sortRounds s y) := by
  induction s with
  | zero =>
    intro i i' same _
    rw [Nat.pow_zero, Nat.div_one, Nat.div_one] at same
    rw [same]
  | succ s ih =>
    have sorted := ih.windows.stages le_rfl
    rw [← mergeStages_flip _ le_rfl] at sorted
    intro i i' same le
    rcases Nat.eq_or_lt_of_le le with rfl | lt
    · exact le_rfl
    · exact sorted.ordered i i' same (by simpa using lt)

end

/-! ### The 0–1 principle -/

theorem compareExchange_map {f : α → γ} (mono : Monotone f) (k j : Nat) (x : Nat → α) :
    compareExchange k j (f ∘ x) = f ∘ compareExchange k j x := by
  funext i
  unfold compareExchange
  simp only [Function.comp_apply]
  split
  · exact mono.map_min.symm
  · exact mono.map_max.symm

theorem mergeStages_map {f : α → γ} (mono : Monotone f) (k t : Nat) (x : Nat → α) :
    mergeStages k t (f ∘ x) = f ∘ mergeStages k t x := by
  induction t generalizing x with
  | zero => rfl
  | succ t ih => rw [mergeStages, mergeStages, compareExchange_map mono, ih]

theorem sortRounds_map {f : α → γ} (mono : Monotone f) (s : Nat) (x : Nat → α) :
    sortRounds s (f ∘ x) = f ∘ sortRounds s x := by
  induction s with
  | zero => rfl
  | succ s ih => rw [sortRounds, sortRounds, ih, mergeStages_map mono]

/-- The schedule sorts the first `2 ^ m` elements. -/
theorem sortRounds_sorted (x : Nat → α) {m i i' : Nat} (le : i ≤ i') (lt : i' < 2 ^ m) :
    sortRounds m x i ≤ sortRounds m x i' := by
  by_contra above
  have mono : Monotone fun a => decide (sortRounds m x i' < a) := fun a b le => by
    by_cases pass : sortRounds m x i' < a
    · simp [pass, lt_of_lt_of_le pass le]
    · simp [pass]
  have sorted := sortRounds_bool (fun j => decide (sortRounds m x i' < x j)) m i i'
    (by rw [Nat.div_eq_of_lt lt, Nat.div_eq_of_lt (by omega)]) le
  have both := congrFun (sortRounds_map mono m x)
  have up : ∀ j < 2 ^ m, downwards m j = false := fun j hj => by
    unfold downwards
    rw [Nat.div_eq_of_lt hj]
    rfl
  rw [up i (by omega), up i' lt, Bool.xor_false, Bool.xor_false] at sorted
  have hi := both i
  have hi' := both i'
  simp only [Function.comp_def] at hi hi'
  rw [hi, hi', decide_eq_true (lt_of_not_ge above), decide_eq_false (lt_irrefl _)] at sorted
  exact absurd sorted (by decide)

end Parallax.Kernel
