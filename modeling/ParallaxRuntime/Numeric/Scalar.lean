import Mathlib.Data.Prod.Lex
import ParallaxRuntime.Memory.LittleEndian
import ParallaxRuntime.Numeric.Double

/-!
# Element types

Integers and floating-point numbers of 32 and 64 bits, as their bits. The language compares the
values.
-/

namespace Parallax.Memory

inductive Scalar where
  | int32 | int64 | uint32 | uint64 | float | double

namespace Scalar

inductive Kind where
  | signed
  | unsigned
  | floating (f : FloatFormat)

def kind : Scalar → Kind
  | int32 | int64 => .signed
  | uint32 | uint64 => .unsigned
  | float => .floating .single
  | double => .floating .double

/-- `sizeof` and `alignof`. -/
def size : Scalar → Nat
  | int32 | uint32 | float => 4
  | int64 | uint64 | double => 8

theorem size_pos (s : Scalar) : 0 < s.size := by
  cases s <;> decide

abbrev Bits (s : Scalar) := BitVec (8 * s.size)

def codec (s : Scalar) : Codec UInt8 s.Bits := Codec.word s.size s.size_pos

variable (s : Scalar)

/-- `operator<` -/
def less (x y : s.Bits) : Bool :=
  match s.kind with
  | .signed => x.slt y
  | .unsigned => x.ult y
  | .floating f => (f.decode x.toNat).less (f.decode y.toNat)

/-- `numeric_limits::max()` -/
def max : s.Bits :=
  match s.kind with
  | .signed => BitVec.intMax _
  | .unsigned => BitVec.allOnes _
  | .floating f => BitVec.ofNat _ f.greatest

def le (x y : s.Bits) : Bool := !s.less y x

def value (x : s.Bits) : Double :=
  match s.kind with
  | .signed => .finite x.toInt
  | .unsigned => .finite x.toNat
  | .floating f => f.decode x.toNat

def Number (x : s.Bits) : Prop := s.value x ≠ .nan

/-- Positive infinity. -/
def Infinite (x : s.Bits) : Prop := s.value x = .num ((⊤ : WithTop ℚ) : WithBot (WithTop ℚ))

variable {s} {x y z : s.Bits} {a b : WithBot (WithTop ℚ)}

@[simp] theorem codec_size : s.codec.size = s.size := rfl

theorem size_le : s.size ≤ 8 := by
  cases s <;> decide

theorem floating_bits {f : FloatFormat} (h : s.kind = .floating f) : 2 ≤ f.exponent ∧ 8 * s.size = f.fraction + f.exponent + 1 := by
  cases s <;> simp only [kind, Kind.floating.injEq, reduceCtorEq] at h <;> subst h <;> decide

theorem less_value : s.less x y = (s.value x).less (s.value y) := by
  unfold less value
  cases s.kind with
  | signed => simp [BitVec.slt_eq_decide]
  | unsigned => simp [BitVec.ult_eq_decide]
  | floating f => rfl

theorem Number.num (h : s.Number x) : ∃ a, s.value x = .num a := by
  cases value : s.value x with
  | nan => exact absurd value h
  | num a => exact ⟨a, rfl⟩

theorem le_num (hx : s.value x = .num a) (hy : s.value y = .num b) : s.le x y = decide (a ≤ b) := by
  rw [le, less_value, hx, hy, Double.less, ← decide_not]
  simp only [not_lt]

theorem le_trans (hx : s.Number x) (hy : s.Number y) (hz : s.Number z) (first : s.le x y) (second : s.le y z) : s.le x z := by
  obtain ⟨a, ha⟩ := hx.num
  obtain ⟨b, hb⟩ := hy.num
  obtain ⟨c, hc⟩ := hz.num
  simp only [le_num ha hb, le_num hb hc, le_num ha hc, decide_eq_true_eq] at *
  exact first.trans second

theorem le_total (hx : s.Number x) (hy : s.Number y) : s.le x y || s.le y x := by
  obtain ⟨a, ha⟩ := hx.num
  obtain ⟨b, hb⟩ := hy.num
  simpa [le_num ha hb, le_num hb ha] using LinearOrder.le_total a b

/-! ### The largest finite number -/

theorem value_signed (h : s.kind = .signed) : s.value x = .finite x.toInt := by
  simp [value, h]

theorem value_unsigned (h : s.kind = .unsigned) : s.value x = .finite x.toNat := by
  simp [value, h]

theorem value_floating {f : FloatFormat} (h : s.kind = .floating f) : s.value x = f.decode x.toNat := by
  simp [value, h]

/-- Except for the infinities `max` is the largest number, and no other pattern has its value. -/
theorem exists_limit (s : Scalar) : ∃ top : ℚ, s.value s.max = .finite top ∧ ∀ x, s.Number x →
    s.value x = .num ⊥ ∨ s.Infinite x ∨ ∃ q, s.value x = .finite q ∧ q ≤ top ∧ (q = top → x = s.max) := by
  cases kind : s.kind with
  | signed =>
    have max : s.max = BitVec.intMax _ := by simp [Scalar.max, kind]
    refine ⟨(s.max.toInt : ℚ), value_signed kind, fun x _ => Or.inr (Or.inr ⟨_, value_signed kind, ?_⟩)⟩
    constructor
    · rw [max, BitVec.toInt_intMax]
      exact_mod_cast BitVec.toInt_le
    · intro same
      exact BitVec.toInt_inj.mp (by exact_mod_cast same)
  | unsigned =>
    have max : s.max = BitVec.allOnes _ := by simp [Scalar.max, kind]
    refine ⟨(s.max.toNat : ℚ), value_unsigned kind, fun x _ => Or.inr (Or.inr ⟨_, value_unsigned kind, ?_⟩)⟩
    constructor
    · have bound : x.toNat ≤ s.max.toNat := by
        rw [max, BitVec.toNat_allOnes]
        exact Nat.le_sub_one_of_lt x.isLt
      exact_mod_cast bound
    · intro same
      exact BitVec.eq_of_toNat_eq (by exact_mod_cast same)
  | floating f =>
    obtain ⟨wide, bits⟩ := floating_bits kind
    have max : s.max = BitVec.ofNat _ f.greatest := by simp [Scalar.max, kind]
    have fits : f.greatest < 2 ^ (8 * s.size) := by
      rw [bits]
      exact FloatFormat.greatest_lt
    have pattern : s.max.toNat = f.greatest := by rw [max, BitVec.toNat_ofNat, Nat.mod_eq_of_lt fits]
    refine ⟨f.limit, ?_, fun x number => ?_⟩
    · rw [value_floating kind, pattern, FloatFormat.decode_greatest wide]
    · have size : x.toNat < 2 ^ (f.fraction + f.exponent + 1) := bits ▸ x.isLt
      unfold Number Infinite at *
      rw [value_floating kind] at number ⊢
      rcases FloatFormat.decode_cases wide number size with low | high | ⟨q, value, bound, unique⟩
      · exact Or.inl low
      · exact Or.inr (Or.inl high)
      · refine Or.inr (Or.inr ⟨q, value, bound, fun same => ?_⟩)
        exact BitVec.eq_of_toNat_eq ((unique same).trans pattern.symm)

theorem number_max : s.Number s.max := by
  obtain ⟨top, value, _⟩ := s.exists_limit
  simp [Number, value, Double.finite]

theorem le_max_iff (h : s.Number x) : s.le x s.max ↔ ¬ s.Infinite x := by
  obtain ⟨top, limit, cases⟩ := s.exists_limit
  rcases cases x h with low | high | ⟨q, value, bound, _⟩
  · rw [le_num low limit, Infinite, low]
    simp
  · rw [le_num high limit, Infinite, high]
    simp
  · rw [le_num value limit, Infinite, value]
    simp [Double.finite, bound]

theorem eq_max (h : s.Number x) (above : s.le x s.max) (below : s.le s.max x) : x = s.max := by
  obtain ⟨top, limit, cases⟩ := s.exists_limit
  rcases cases x h with low | high | ⟨q, value, bound, unique⟩
  · rw [le_num limit low] at below
    simp at below
  · exact absurd high ((le_max_iff h).mp above)
  · rw [le_num limit value, decide_eq_true_eq] at below
    exact unique (bound.antisymm (by simpa using below))

/-! ### An order of the patterns -/

/-- Patterns of one value differ in their bits. What is not a number comes last. -/
def key (s : Scalar) (x : s.Bits) : WithTop (WithBot (WithTop ℚ)) ×ₗ Nat :=
  match s.value x with
  | .nan => toLex (⊤, x.toNat)
  | .num a => toLex ((a : WithTop (WithBot (WithTop ℚ))), x.toNat)

theorem key_snd : (ofLex (s.key x)).2 = x.toNat := by
  unfold key
  cases s.value x with
  | nan => rfl
  | num a => rfl

theorem key_injective : Function.Injective s.key := by
  intro x y same
  apply BitVec.eq_of_toNat_eq
  rw [← key_snd, same, key_snd]

/-- A linear order in which smaller numbers come first. -/
@[reducible] def order (s : Scalar) : LinearOrder s.Bits := LinearOrder.lift' s.key key_injective

theorem le_of_order (hx : s.Number x) (hy : s.Number y) (h : s.order.le x y) : s.le x y := by
  obtain ⟨a, ha⟩ := hx.num
  obtain ⟨b, hb⟩ := hy.num
  have keys : s.key x ≤ s.key y := h
  rw [key, key, ha, hb, Prod.Lex.toLex_le_toLex] at keys
  rw [le_num ha hb, decide_eq_true_eq]
  rcases keys with less | ⟨same, _⟩
  · exact (WithTop.coe_lt_coe.mp less).le
  · exact (WithTop.coe_eq_coe.mp same).le

end Scalar

end Parallax.Memory
