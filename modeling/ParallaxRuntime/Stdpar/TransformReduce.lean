import ParallaxRuntime.Numeric.GeneralizedSum
import ParallaxRuntime.Funnels.Results
import Mathlib.Algebra.Group.Int.Defs

/-!
# `parallax::transform_reduce`

The funnel adds what `uop` gives, on the device or on the host, and `init` is added to it. `bop` is handed to the serial
branch only.
-/

namespace Parallax.Stdpar
open Memory Arena Effects Funnels Launcher

variable {E T : Type}

/-- `device_transform_reduce<E, T>`: `kernel` is what `parallax_reduce` stored, if it was called. -/
def deviceTransformReduce [Zero T] [Add T] (kernel : Option T) (data : List E) (uop : E → T) : T :=
  match kernel with
  | some gpu => gpu
  | none => data.foldl (fun acc x => acc + uop x) 0

/-- The offloading branch of `parallax::transform_reduce`. -/
def transformReduce [Zero T] [Add T] (kernel : Option T) (data : List E) (init : T) (_bop : T → T → T) (uop : E → T) : T :=
  if data.length = 0 then init else init + deviceTransformReduce kernel data uop

/-- The serial branch, `std::transform_reduce`, groups and orders as it likes. -/
def SerialTransformReduce (data : List E) (init : T) (bop : T → T → T) (uop : E → T) : T → Prop :=
  GeneralizedSum bop (init :: data.map uop)

/-- Either the funnel takes the host loop, or the kernel adds with `+`, and zeros in the lanes past the end. -/
def SumsWithPlus [Zero T] [Add T] (kernel : Option T) (data : List E) (uop : E → T) : Prop :=
  ∀ gpu ∈ kernel, ∃ idle, GeneralizedSum (· + ·) (data.map uop ++ List.replicate idle 0) gpu

section
variable [AddZeroClass T] {kernel : Option T} {data : List E} {init r : T} {uop : E → T}

theorem foldl_zeros (a : T) (idle : Nat) : (List.replicate idle 0).foldl (· + ·) a = a := by
  induction idle with
  | zero => rfl
  | succ idle ih => rw [List.replicate_succ, List.foldl_cons, add_zero, ih]

theorem deviceTransformReduce_eq_foldl [Std.Associative (fun a b : T => a + b)] [Std.Commutative (fun a b : T => a + b)]
    (sums : SumsWithPlus kernel data uop) : deviceTransformReduce kernel data uop = (data.map uop).foldl (· + ·) 0 := by
  cases kernel with
  | none =>
    rw [List.foldl_map]
    rfl
  | some gpu =>
    obtain ⟨idle, sum⟩ := sums gpu rfl
    have whole := (sum.cons 0).eq_foldl
    rw [List.foldl_append, foldl_zeros, zero_add] at whole
    exact whole

/-- Where `+` regroups, the offloading branch is the fold with `+`. -/
theorem transformReduce_eq_foldl [Std.Associative (fun a b : T => a + b)] [Std.Commutative (fun a b : T => a + b)]
    {bop : T → T → T} (sums : SumsWithPlus kernel data uop) :
    transformReduce kernel data init bop uop = (data.map uop).foldl (· + ·) init := by
  unfold transformReduce
  split
  · next empty => simp [List.eq_nil_of_length_eq_zero empty]
  · have regrouped : (data.map uop).foldl (· + ·) (init + 0) = init + (data.map uop).foldl (· + ·) 0 := List.foldl_assoc
    rw [deviceTransformReduce_eq_foldl sums, ← regrouped, add_zero]

/-- On one element the two branches combine once. -/
theorem transformReduce_one {bop : T → T → T} (x : E) : transformReduce none [x] init bop uop = init + uop x := by
  simp [transformReduce, deviceTransformReduce]

theorem transformReduce_eq_serial_iff [Nonempty E] (bop : T → T → T) [Std.Associative bop] [Std.Commutative bop] :
    (∀ (kernel : Option T) (data : List E) (init : T) (uop : E → T) (r : T), SumsWithPlus kernel data uop →
      SerialTransformReduce data init bop uop r → transformReduce kernel data init bop uop = r) ↔
    ∀ a b, bop a b = a + b := by
  constructor
  · intro honoured a b
    obtain ⟨x⟩ := ‹Nonempty E›
    have serial : SerialTransformReduce [x] a bop (fun _ => b) (bop a b) := GeneralizedSum.foldl [b] a
    have same := honoured none [x] a (fun _ => b) _ (by simp [SumsWithPlus]) serial
    rw [← same, transformReduce_one]
  · intro plus kernel data init uop r sums serial
    obtain rfl : bop = fun a b => a + b := funext fun a => funext (plus a)
    rw [transformReduce_eq_foldl sums, serial.eq_foldl]

/-- Over an empty range the branches agree whatever `bop` is. -/
theorem transformReduce_nil (bop : T → T → T) (serial : SerialTransformReduce ([] : List E) init bop uop r) :
    transformReduce kernel [] init bop uop = r := serial.of_singleton.symm

end

theorem transformReduce_honours_plus : transformReduce none [1, 2] 10 (fun a b : Int => a + b) id = 13 :=
  (transformReduce_eq_serial_iff (fun a b : Int => a + b)).mpr (fun _ _ => rfl) none [1, 2] 10 id 13
    (by simp [SumsWithPlus]) (GeneralizedSum.foldl [1, 2] 10)

/-- The maximum of 1 and 2 comes out as their sum. -/
theorem transformReduce_ignores_max : ¬ ∀ (kernel : Option Int) (data : List Int) (init : Int) (uop : Int → Int) (r : Int),
    SumsWithPlus kernel data uop → SerialTransformReduce data init max uop r →
    transformReduce kernel data init max uop = r := by
  intro honoured
  have wrong := honoured none [1, 2] 0 id 2 (by simp [SumsWithPlus]) (GeneralizedSum.foldl [1, 2] 0)
  exact absurd wrong (by decide)

/-- A run of the funnel in which no step fails and no launch takes the set of another call returns what either path gives. -/
theorem deviceTransformReduce_agrees {β : Type} [Zero β] {A : ArenaModel β} {kernels : ElementKernels β}
    {shaders : String → Shader β} {t : World A} {loaded : String → Bool} {devBase align alignU n input gpuAt : Nat}
    [AddCommMonoid T] {c : Codec β E} {d : Codec β T} {kx kr : Option String} {empty : Bool} {uop : E → T}
    (generated : ∀ x ∈ kx, ∀ r ∈ kr, Transforms kernels x none c d uop ∧ loaded r = true ∧ shaders r = reduceShader d)
    (zero : d.dec (fun _ => 0) = 0) (outside : Outside A gpuAt d.size) (valid : A.Valid t.arena) (hi : t.Holds input (n * c.size))
    (size : c.size ≤ 2 ^ 30 ∧ d.size ≤ 2 ^ 30) (aligned : align ≤ 256 ∧ alignU ≤ 256) (small : n < 2 ^ 32)
    {kernel : Option T} (sums : SumsWithPlus kernel (c.list t.mem input n) uop) :
    (Funnels.deviceTransformReduce (contextOf A loaded devBase) c align d alignU kx kr empty uop input n gpuAt).Ensures
      (funnels A kernels shaders False False)
      (fun r _ => r = deviceTransformReduce kernel (c.list t.mem input n) uop) t := by
  apply (deviceTransformReduce_ensures generated zero outside valid hi size aligned small).mono
  rintro _ t' ⟨_, ⟨rfl, _⟩, _⟩
  rw [deviceTransformReduce_eq_foldl sums, List.sum_eq_foldl]

end Parallax.Stdpar
