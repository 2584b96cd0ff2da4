import ParallaxRuntime.Launcher.Session

/-!
# Descriptor sets of the synchronous primitives

Each dispatch of a primitive takes a set from the pool, and no set is ever given back. Here
everything that a primitive asks for is granted, and its sets are counted.
-/

namespace Parallax.Launcher
open Memory Effects

/-- `pool_info.maxSets` -/
def maxSets : Nat := 1024

/-- The sets taken from the pool, and whether one was asked for that the pool does not guarantee. -/
structure Budget where
  sets : Nat
  exceeded : Bool
deriving DecidableEq

def Budget.take (b : Budget) : Budget := ⟨b.sets + 1, b.exceeded || decide (maxSets ≤ b.sets)⟩

def Budget.charge (b : Budget) : Nat → Budget
  | 0 => b
  | n + 1 => b.take.charge n

variable {β α γ : Type}

def grantingStep (ctx : Context) : Step (ops β) Budget
  | .allocate _ _, b, p, b' => @Ne Nat p 0 ∧ ctx.contains p = true ∧ b' = b
  | .allocateDescriptorSet, b, ok, b' => ok = true ∧ b' = b.take
  | .submit _, b, ok, b' => ok = true ∧ b' = b
  | _, b, _, b' => b' = b

def granting (ctx : Context) : Handler (ops β) Budget where
  pre
    | .getBuffer _, _ | .registerExternalBuffer _ _, _ | .syncBeforeKernel _, _ | .syncAfterKernel _, _ => False
    | _, _ => True
  step := grantingStep ctx

/-- The program takes `n` sets and answers as `R` says. -/
def Costs (ctx : Context) (n : Nat) (R : α → Prop) (p : Launch β α) : Prop :=
  ∀ b, p.Ensures (granting ctx) (fun r b' => R r ∧ b' = b.charge n) b

/-! ### Sets that a primitive takes -/

/-- One for each level of a reduction. -/
def reduceSets (n : Nat) : Nat :=
  if n > 1 then reduceSets (groupsOf n) + 1 else 0
termination_by n
decreasing_by
  have := groupsOf_le n
  omega

/-- One for the blocks, and for several blocks those of their scan and one for the offsets. -/
def scanSets (count : Nat) : Nat :=
  if count ≤ 1 then 0
  else (if groupsOf count > 1 then scanSets (groupsOf count) + 1 else 0) + 1
termination_by count
decreasing_by
  have := groupsOf_le count
  omega

/-- `1 + 2 + ⋯ + m` -/
def triangle : Nat → Nat
  | 0 => 0
  | m + 1 => triangle m + (m + 1)

/-- The stages of a bitonic sort; other lengths are refused. -/
def sortSets (count : Nat) : Nat :=
  if count ≤ 1 ∨ count &&& (count - 1) ≠ 0 then 0 else triangle (Nat.log2 (count % 2 ^ 32))

def Action.sets : Action β → Nat
  | reduce _ _ count _ _ => reduceSets count
  | scan _ _ _ count _ => scanSets count
  | exclusiveScan _ _ _ _ _ count _ _ => if count = 0 then 0 else scanSets count + 1
  | sort _ _ count _ _ => sortSets count
  | compact _ _ _ _ _ _ count _ _ _ => if count = 0 then 0 else scanSets count + 2
  | argminmax _ _ count _ _ _ _ => if count ≤ 1 then 0 else 1
  | find _ _ count _ _ _ | mismatch _ _ _ count _ => if count = 0 then 0 else 1
  | _ => 0

def Action.kernels : Action β → List String
  | reduce kernel _ _ _ _ | sort kernel _ _ _ _ | argminmax kernel _ _ _ _ _ _ | find kernel _ _ _ _ _
  | mismatch kernel _ _ _ _ => [kernel]
  | scan scanKernel addKernel _ _ _ => [scanKernel, addKernel]
  | exclusiveScan scanKernel addKernel shiftKernel _ _ _ _ _ => [scanKernel, addKernel, shiftKernel]
  | compact flagsKernel scanKernel addKernel scatterKernel _ _ _ _ _ _ =>
    [flagsKernel, scanKernel, addKernel, scatterKernel]
  | _ => []

section
variable {ctx : Context} {n m : Nat} {R : γ → Prop} {R' : α → Prop} {b : Budget}

theorem charge_add : b.charge (n + m) = (b.charge n).charge m := by
  induction n generalizing b with
  | zero => rw [Nat.zero_add]; rfl
  | succ n ih =>
    rw [Nat.add_right_comm]
    exact ih

theorem charge_sets : (b.charge n).sets = b.sets + n := by
  induction n generalizing b with
  | zero => rfl
  | succ n ih =>
    rw [Budget.charge, ih, Nat.add_comm n 1, ← Nat.add_assoc]
    rfl

theorem charge_exceeded : (b.charge n).exceeded = true ↔ b.exceeded = true ∨ 0 < n ∧ maxSets < b.sets + n := by
  induction n generalizing b with
  | zero => simp [Budget.charge]
  | succ n ih =>
    rw [Budget.charge, ih]
    simp only [Budget.take, Bool.or_eq_true, decide_eq_true_eq, or_assoc]
    apply or_congr_right
    omega

theorem costs_pure {r : α} (h : R' r) : Costs ctx 0 R' (pure r : Launch β α) := fun _ => ⟨h, rfl⟩

theorem Costs.bind {p : Launch β γ} {f : γ → Launch β α} (h : Costs ctx n R p) (h' : ∀ r, R r → Costs ctx m R' (f r)) :
    Costs ctx (n + m) R' (p >>= f) := by
  intro b
  refine Prog.ensures_bind.mpr ((h b).mono ?_)
  rintro r b' ⟨hr, rfl⟩
  rw [charge_add]
  exact h' r hr _

theorem Costs.mono {p : Launch β α} {R : α → Prop} (h : Costs ctx n R p) (weaker : ∀ r, R r → R' r) :
    Costs ctx n R' p := fun b => (h b).mono fun r _ post => ⟨weaker r post.1, post.2⟩

theorem costs_ite {c : Prop} [Decidable c] {p q : Launch β α} (hp : c → Costs ctx n R' p) (hq : ¬ c → Costs ctx n R' q) :
    Costs ctx n R' (if c then p else q) := fun b => Prog.ensures_ite (fun h => hp h b) fun h => hq h b

theorem costs_call {o : Op β} {f : o.Res → Launch β α} (pre : ∀ b, (granting ctx).pre o b)
    (step : ∀ b x b', grantingStep ctx o b x b' → b' = b) (h : ∀ x, Costs ctx n R' (f x)) :
    Costs ctx n R' (Prog.op (S := ops β) o >>= f) := by
  intro b
  refine ⟨pre b, fun x b' moved => ?_⟩
  obtain rfl := step b x b' moved
  exact h x b'

theorem granting_scope {body : Launch β α} {Q : α → Budget → Prop} (h : body.Ensures (granting ctx) Q b) :
    (withArenaSync body).Ensures (granting ctx) Q b := by
  apply Prog.ensures_call trivial
  intro _ b₁ same
  obtain rfl : b₁ = b := same
  refine Prog.ensures_bind.mpr (h.mono fun r b₂ hQ => ⟨trivial, fun _ b₃ same => ?_⟩)
  obtain rfl : b₃ = b₂ := same
  exact hQ

theorem costs_scope {body : Launch β α} (h : Costs ctx n R' body) : Costs ctx n R' (withArenaSync body) :=
  fun b => granting_scope (h b)

theorem costs_allocate {size align : Nat} {f : Nat → Launch β α}
    (h : ∀ p, p ≠ 0 → ctx.contains p = true → Costs ctx n R' (f p)) : Costs ctx n R' (allocate size align >>= f) := by
  intro b
  refine ⟨trivial, fun p b' ⟨nonnull, inside, same⟩ => ?_⟩
  subst same
  exact h p nonnull inside b'

theorem costs_deallocate {q : Nat} {f : Unit → Launch β α} (h : Costs ctx n R' (f ())) :
    Costs ctx n R' (deallocate q >>= f) := costs_call (fun _ => trivial) (fun _ _ _ same => same) fun _ => h

theorem costs_write {q : Nat} {x : List β} {f : Unit → Launch β α} (h : Costs ctx n R' (f ())) :
    Costs ctx n R' (write q x >>= f) := costs_call (fun _ => trivial) (fun _ _ _ same => same) fun _ => h

theorem costs_read {q k : Nat} {f : (Fin k → β) → Launch β α} (h : ∀ x, Costs ctx n R' (f x)) :
    Costs ctx n R' (read q k >>= f) := costs_call (fun _ => trivial) (fun _ _ _ same => same) h

theorem costs_invalidate {f : Unit → Launch β α} (h : Costs ctx n R' (f ())) :
    Costs ctx n R' (invalidateFromDevice >>= f) := costs_call (fun _ => trivial) (fun _ _ _ same => same) fun _ => h

theorem granting_resolve {q range : Nat} {upload : Bool} {f : Option Binding → Launch β α} {Q : α → Budget → Prop}
    (inside : ctx.contains q = true) (h : ∀ binding, (f (some binding)).Ensures (granting ctx) Q b) :
    (ctx.resolve q range upload >>= f).Ensures (granting ctx) Q b := by
  unfold Context.resolve
  rw [if_pos inside]
  exact h _

theorem granting_download {q : Nat} {f : Unit → Launch β α} {Q : α → Budget → Prop} (inside : ctx.contains q = true)
    (h : (f ()).Ensures (granting ctx) Q b) : (ctx.download q >>= f).Ensures (granting ctx) Q b := by
  unfold Context.download
  rw [if_neg (ne_false_of_eq_true inside)]
  exact h

theorem costs_resolve {q range : Nat} {upload : Bool} {f : Option Binding → Launch β α} (inside : ctx.contains q = true)
    (h : ∀ binding, Costs ctx n R' (f (some binding))) : Costs ctx n R' (ctx.resolve q range upload >>= f) :=
  fun b => granting_resolve inside fun binding => h binding b

theorem costs_download {q : Nat} {f : Unit → Launch β α} (inside : ctx.contains q = true) (h : Costs ctx n R' (f ())) :
    Costs ctx n R' (ctx.download q >>= f) := fun b => granting_download inside (h b)

theorem costs_dispatch (d : Dispatch β) : Costs ctx 1 (· = true) (dispatch d) := by
  intro b
  refine Prog.ensures_op_bind.mpr ⟨trivial, fun (set : Bool) b' ⟨made, same⟩ => ?_⟩
  subst same
  apply Prog.ensures_ite
  · intro off
    cases off.symm.trans made
  intro _
  apply Prog.ensures_call trivial
  intro _ b₁ same
  · obtain rfl : b₁ = b.take := same
    refine Prog.ensures_op_bind.mpr ⟨trivial, fun (submitted : Bool) b₂ ⟨done, same⟩ => ?_⟩
    subst same
    refine Prog.ensures_ite (fun off => ?_) fun _ => ⟨trivial, fun _ b₃ same => ⟨rfl, same⟩⟩
    cases off.symm.trans done

theorem costs_dispatched {d : Dispatch β} {p q : Launch β α} (h : Costs ctx n R' q) :
    Costs ctx (n + 1) R' (dispatch d >>= fun ok => if ok = false then p else q) := by
  rw [Nat.add_comm]
  refine (costs_dispatch d).bind fun ok done => ?_
  rw [if_neg (ne_false_of_eq_true done)]
  exact h

/-! ### What each primitive costs -/

theorem costs_reduceLevels {kernel : String} {es : Nat} {scratch : Bool → Nat}
    (hscratch : ∀ toggle, ctx.contains (scratch toggle) = true) (src n : Nat) (toggle : Bool)
    (inside : ctx.contains src = true) :
    Costs (β := β) ctx (reduceSets n) (fun r => r.isSome) (reduceLevels ctx kernel es scratch src n toggle) := by
  induction n using Nat.strong_induction_on generalizing src toggle with
  | _ n ih =>
    rw [reduceLevels, reduceSets]
    by_cases many : n > 1
    · rw [if_pos many, if_pos many, Nat.add_comm]
      have less := groupsOf_le n
      refine costs_resolve inside fun srcBinding => (costs_dispatch _).bind fun ok done => ?_
      rw [if_pos done]
      exact ih _ (by omega) _ _ (hscratch toggle)
    · rw [if_neg many, if_neg many]
      exact costs_pure rfl

theorem costs_launchReduce [Zero β] {kernel : String} {data count es outResult : Nat} (loaded : ctx.loaded kernel = true)
    (valid : ctx.arenaValid = true) (inside : ctx.contains data = true) :
    Costs (β := β) ctx (reduceSets count) (fun _ => True) (launchReduce ctx kernel data count es outResult) := by
  unfold launchReduce
  apply costs_scope
  rw [if_neg (ne_false_of_eq_true loaded)]
  by_cases zero : count = 0
  · rw [if_pos zero, zero, reduceSets]
    exact costs_write (costs_pure trivial)
  by_cases one : count = 1
  · rw [if_neg zero, if_pos one, one, reduceSets]
    exact costs_read fun x => costs_write (costs_pure trivial)
  rw [if_neg zero, if_neg one, if_neg (ne_false_of_eq_true valid)]
  refine costs_allocate fun scratch0 nonnull0 inside0 => costs_allocate fun scratch1 nonnull1 inside1 => ?_
  rw [if_neg (not_or.mpr ⟨nonnull0, nonnull1⟩), ← Nat.add_zero (reduceSets count)]
  have hscratch : ∀ toggle : Bool, ctx.contains (if toggle then scratch1 else scratch0) = true := by
    intro toggle
    cases toggle
    · exact inside0
    · exact inside1
  refine (costs_reduceLevels hscratch data count false inside).bind fun result found => ?_
  obtain ⟨src, rfl⟩ := Option.isSome_iff_exists.mp found
  exact costs_invalidate <| costs_read fun x => costs_write <| costs_deallocate <| costs_deallocate <| costs_pure trivial

theorem costs_launchScan {scanKernel addKernel : String} {es : Nat} (loaded : ctx.loaded scanKernel = true)
    (loaded' : ctx.loaded addKernel = true) (valid : ctx.arenaValid = true) (data count : Nat)
    (inside : ctx.contains data = true) :
    Costs (β := β) ctx (scanSets count) (· = true) (launchScan ctx scanKernel addKernel data count es) := by
  induction count using Nat.strong_induction_on generalizing data with
  | _ count ih =>
    rw [launchScan, scanSets]
    apply costs_scope
    rw [if_neg (not_or.mpr ⟨ne_false_of_eq_true loaded, ne_false_of_eq_true loaded'⟩)]
    by_cases few : count ≤ 1
    · rw [if_pos few, if_pos few]
      exact costs_pure rfl
    · rw [if_neg few, if_neg few, if_neg (ne_false_of_eq_true valid)]
      have less := groupsOf_le count
      refine costs_resolve inside fun binding => costs_allocate fun blocksums nonnull inside' => ?_
      rw [if_neg nonnull]
      apply costs_dispatched
      rw [← Nat.add_zero (ite _ _ _)]
      refine Costs.bind (R := (· = true)) ?_ fun ok done => ?_
      · by_cases many : groupsOf count > 1
        · rw [if_pos many, if_pos many]
          refine (ih _ (by omega) _ inside').bind fun ok done => ?_
          rw [if_neg (ne_false_of_eq_true done)]
          exact costs_dispatch _
        · rw [if_neg many, if_neg many]
          exact costs_pure rfl
      · rw [if_neg (ne_false_of_eq_true done)]
        exact costs_download inside <| costs_deallocate <| costs_pure rfl

theorem costs_launchExclusiveScan {scanKernel addKernel shiftKernel : String} {input output count es : Nat}
    {init : Option (List β)} (loaded : ctx.loaded scanKernel = true) (loaded' : ctx.loaded addKernel = true)
    (loaded'' : ctx.loaded shiftKernel = true) (valid : ctx.arenaValid = true) (hin : ctx.contains input = true)
    (hout : ctx.contains output = true) :
    Costs ctx (if count = 0 then 0 else scanSets count + 1) (fun _ => True)
      (launchExclusiveScan ctx scanKernel addKernel shiftKernel input output count es init) := by
  unfold launchExclusiveScan
  apply costs_scope
  rw [if_neg (ne_false_of_eq_true loaded'')]
  by_cases zero : count = 0
  · rw [if_pos zero, if_pos zero]
    exact costs_pure trivial
  · rw [if_neg zero, if_neg zero, if_neg (ne_false_of_eq_true valid)]
    refine Costs.bind (R := (· = true)) ?_ fun ok done => ?_
    · by_cases many : count > 1
      · rw [if_pos many]
        exact costs_launchScan loaded loaded' valid _ _ hin
      · rw [if_neg many, scanSets, if_pos (by omega)]
        exact costs_pure rfl
    · rw [if_neg (ne_false_of_eq_true done)]
      exact costs_resolve hin fun _ => costs_resolve hout fun _ => costs_dispatched <| costs_download hout <| costs_pure trivial

theorem costs_sortInner {kernel : String} {data : Binding} {len k groups : Nat} (i : Nat) :
    Costs (β := β) ctx (i + 1) (· = true) (sortInner kernel data len k groups (2 ^ i)) := by
  induction i with
  | zero =>
    rw [sortInner, if_pos (by decide), Nat.add_comm]
    refine (costs_dispatch _).bind fun ok done => ?_
    rw [if_pos done, sortInner, if_neg (by decide)]
    exact costs_pure rfl
  | succ i ih =>
    have half : 2 ^ (i + 1) / 2 = 2 ^ i := by rw [Nat.pow_succ, Nat.mul_div_cancel _ (by decide)]
    rw [sortInner, if_pos (Nat.two_pow_pos _), half, Nat.add_comm]
    refine (costs_dispatch _).bind fun ok done => ?_
    rw [if_pos done]
    exact ih

/-- With `k` wrapped around to 0 the rounds never end. -/
theorem sortOuter_wrapped {kernel : String} {data : Binding} {len groups : Nat} (fuel : Nat) :
    (sortOuter (β := β) kernel data len groups fuel 0).Ensures (granting ctx) (fun r _ => r = none) b := by
  induction fuel with
  | zero => exact rfl
  | succ fuel ih =>
    rw [sortOuter, if_pos (Nat.zero_le _), sortInner, if_neg (by decide)]
    exact ih

theorem triangle_mono {i j : Nat} (h : i ≤ j) : triangle i ≤ triangle j := by
  induction h with
  | refl => exact Nat.le_refl _
  | step _ ih => exact ih.trans (Nat.le_add_right _ _)

/-- The rounds from `k = 2 ^ (i + 1)` on, if they end. -/
theorem sortOuter_costs {kernel : String} {data : Binding} {groups i : Nat} (fuel : Nat) (hm : m ≤ 31) (hi : i ≤ m) :
    (sortOuter (β := β) kernel data (2 ^ m) groups fuel (2 ^ (i + 1) % 2 ^ 32)).Ensures (granting ctx)
      (fun r b' => r ≠ none → b' = b.charge (triangle m - triangle i)) b := by
  induction fuel generalizing i b with
  | zero => exact fun no => absurd rfl no
  | succ fuel ih =>
    rcases Nat.lt_or_eq_of_le hi with more | rfl
    · have round : 2 ^ (i + 1) % 2 ^ 32 = 2 ^ (i + 1) := Nat.mod_eq_of_lt (Nat.pow_lt_pow_right (by decide) (by omega))
      have half : 2 ^ (i + 1) / 2 = 2 ^ i := by rw [Nat.pow_succ, Nat.mul_div_cancel _ (by decide)]
      have total : triangle m - triangle i = (i + 1) + (triangle m - triangle (i + 1)) := by
        have := triangle_mono (show i + 1 ≤ m from more)
        have step : triangle (i + 1) = triangle i + (i + 1) := rfl
        omega
      rw [sortOuter, round, if_pos (Nat.pow_le_pow_right (by decide) more), half, ← Nat.pow_succ, total]
      refine Prog.ensures_bind.mpr ((costs_sortInner i b).mono ?_)
      rintro ok b₁ ⟨done, rfl⟩
      rw [if_pos done, charge_add]
      exact ih more
    · rcases Nat.lt_or_eq_of_le hm with small | rfl
      · have round : 2 ^ (i + 1) % 2 ^ 32 = 2 ^ (i + 1) := Nat.mod_eq_of_lt (Nat.pow_lt_pow_right (by decide) (by omega))
        rw [sortOuter, round, if_neg (by rw [Nat.pow_le_pow_iff_right (by decide)]; omega), Nat.sub_self]
        exact fun _ => rfl
      · exact (sortOuter_wrapped (fuel + 1)).mono fun r _ none no => absurd none no

theorem launchSort_costs {kernel : String} {data count es fuel : Nat} (loaded : ctx.loaded kernel = true)
    (inside : ctx.contains data = true) :
    (launchSort (β := β) ctx kernel data count es fuel).Ensures (granting ctx)
      (fun r b' => r ≠ none → b' = b.charge (sortSets count)) b := by
  unfold launchSort sortSets
  apply granting_scope
  rw [if_neg (ne_false_of_eq_true loaded)]
  by_cases few : count ≤ 1
  · rw [if_pos few, if_pos (Or.inl few)]
    exact fun _ => rfl
  by_cases ragged : count &&& (count - 1) ≠ 0
  · rw [if_neg few, if_pos ragged, if_pos (Or.inr ragged)]
    exact fun _ => rfl
  rw [if_neg few, if_neg ragged, if_neg (not_or.mpr ⟨few, ragged⟩)]
  obtain ⟨e, rfl⟩ := (Nat.and_sub_one_eq_zero_iff_isPowerOfTwo (by omega)).mp (not_not.mp ragged)
  refine granting_resolve inside fun dataBinding => Prog.ensures_bind.mpr (Prog.Ensures.mono ?_ fun done b' post =>
    Prog.ensures_ite (fun _ => granting_download inside post) fun _ => post)
  by_cases small : e ≤ 31
  · rw [Nat.mod_eq_of_lt (Nat.pow_lt_pow_right (by decide) (by omega)), Nat.log2_two_pow]
    exact sortOuter_costs (i := 0) fuel small (Nat.zero_le _)
  · have none : 2 ^ e % 2 ^ 32 = 0 := Nat.mod_eq_zero_of_dvd (Nat.pow_dvd_pow 2 (by omega))
    rw [none]
    cases fuel with
    | zero => exact fun no => absurd rfl no
    | succ fuel =>
      rw [sortOuter, if_neg (by decide)]
      exact fun _ => rfl

theorem costs_storeKept {hv : HostValues β} {out : Option Nat} {kept : Nat} {f : Unit → Launch β α}
    (h : Costs ctx n R' (f ())) : Costs ctx n R' (storeKept hv out kept >>= f) := by
  cases out with
  | none => exact h
  | some p => exact costs_write h

theorem costs_launchCompact {hv : HostValues β} {flagsKernel scanKernel addKernel scatterKernel : String}
    {input output count es : Nat} {elemIsFloat : Bool} {outKept : Option Nat} (hflags : ctx.loaded flagsKernel = true)
    (hscan : ctx.loaded scanKernel = true) (hadd : ctx.loaded addKernel = true)
    (hscatter : ctx.loaded scatterKernel = true) (valid : ctx.arenaValid = true) (hin : ctx.contains input = true)
    (hout : ctx.contains output = true) :
    Costs ctx (if count = 0 then 0 else scanSets count + 2) (fun _ => True)
      (launchCompact hv ctx flagsKernel scanKernel addKernel scatterKernel input output count es elemIsFloat outKept) := by
  unfold launchCompact
  apply costs_scope
  rw [if_neg (not_or.mpr ⟨ne_false_of_eq_true hflags, ne_false_of_eq_true hscatter⟩)]
  apply costs_storeKept
  by_cases zero : count = 0
  · rw [if_pos zero, if_pos zero]
    exact costs_pure trivial
  · rw [if_neg zero, if_neg zero, if_neg (ne_false_of_eq_true valid)]
    refine costs_resolve hin fun _ => costs_resolve hout fun _ => costs_allocate fun positions nonnull inside => ?_
    rw [if_neg nonnull]
    refine costs_dispatched (n := scanSets count + 1) ((costs_launchScan hscan hadd valid _ _ inside).bind fun ok done => ?_)
    rw [if_neg (ne_false_of_eq_true done)]
    refine costs_invalidate <| costs_read fun last => costs_storeKept <| costs_dispatched ?_
    exact costs_download hout <| costs_deallocate <| costs_pure trivial

theorem costs_combineWinners {hv : HostValues β} {vals idxs count es : Nat} {isFloat wantMax wantLast : Bool}
    (blocks : List Nat) (bestIdx : Nat) (bestVal : hv.Val) :
    Costs ctx 0 (fun _ => True) (combineWinners hv vals idxs count es isFloat wantMax wantLast blocks bestIdx bestVal) := by
  induction blocks generalizing bestIdx bestVal with
  | nil => exact costs_pure trivial
  | cons b blocks ih =>
    rw [combineWinners]
    exact costs_read fun word => costs_ite (fun _ => ih _ _) fun _ => costs_read fun bytes =>
      costs_ite (fun _ => ih _ _) fun _ => ih _ _

theorem costs_launchArgminmax {hv : HostValues β} {kernel : String} {data count es : Nat}
    {isFloat wantMax wantLast : Bool} (loaded : ctx.loaded kernel = true) (valid : ctx.arenaValid = true)
    (inside : ctx.contains data = true) :
    Costs ctx (if count ≤ 1 then 0 else 1) (fun _ => True)
      (launchArgminmax hv ctx kernel data count es isFloat wantMax wantLast) := by
  unfold launchArgminmax
  apply costs_scope
  rw [if_neg (ne_false_of_eq_true loaded)]
  by_cases zero : count = 0
  · rw [if_pos zero, if_pos (by omega)]
    exact costs_pure trivial
  by_cases one : count = 1
  · rw [if_neg zero, if_pos one, if_pos (by omega)]
    exact costs_pure trivial
  rw [if_neg zero, if_neg one, if_neg (ne_false_of_eq_true valid), if_neg (by omega)]
  refine costs_resolve inside fun _ => costs_allocate fun vals nonnull _ => costs_allocate fun idxs nonnull' _ => ?_
  rw [if_neg (not_or.mpr ⟨nonnull, nonnull'⟩)]
  refine costs_dispatched <| costs_invalidate <| (costs_combineWinners _ _ _).bind (m := 0) fun best _ => ?_
  exact costs_deallocate <| costs_deallocate <| costs_pure trivial

theorem costs_leastWinner {hv : HostValues β} {outi : Nat} (blocks : List Nat) (best : Nat) :
    Costs ctx 0 (fun _ => True) (leastWinner hv outi blocks best) := by
  induction blocks generalizing best with
  | nil => exact costs_pure trivial
  | cons b blocks ih => exact costs_read fun word => ih _

theorem costs_findFirst {hv : HostValues β} {kernel : String} {input : Binding} {other : Option Binding}
    {push : Push β} {count : Nat} : Costs ctx 1 (fun _ => True) (findFirst hv ctx kernel input other push count) := by
  unfold findFirst
  refine costs_allocate fun outi nonnull _ => ?_
  rw [if_neg nonnull]
  refine costs_dispatched <| costs_invalidate <| (costs_leastWinner _ _).bind (m := 0) fun best _ => ?_
  exact costs_deallocate <| costs_pure trivial

theorem costs_launchFind {hv : HostValues β} {kernel : String} {data count es : Nat} {negate : Bool}
    {value : Option (List β)} (loaded : ctx.loaded kernel = true) (valid : ctx.arenaValid = true)
    (inside : ctx.contains data = true) :
    Costs ctx (if count = 0 then 0 else 1) (fun _ => True) (launchFind hv ctx kernel data count es negate value) := by
  unfold launchFind
  apply costs_scope
  rw [if_neg (ne_false_of_eq_true loaded), if_neg (ne_false_of_eq_true valid)]
  by_cases zero : count = 0
  · rw [if_pos zero, if_pos zero]
    exact costs_pure trivial
  · rw [if_neg zero, if_neg zero]
    exact costs_resolve inside fun _ => costs_findFirst

theorem costs_launchMismatch {hv : HostValues β} {kernel : String} {p q count es : Nat}
    (loaded : ctx.loaded kernel = true) (valid : ctx.arenaValid = true) (hp : ctx.contains p = true)
    (hq : ctx.contains q = true) :
    Costs ctx (if count = 0 then 0 else 1) (fun _ => True) (launchMismatch hv ctx kernel p q count es) := by
  unfold launchMismatch
  apply costs_scope
  rw [if_neg (ne_false_of_eq_true loaded), if_neg (ne_false_of_eq_true valid)]
  by_cases zero : count = 0
  · rw [if_pos zero, if_pos zero]
    exact costs_pure trivial
  · rw [if_neg zero, if_neg zero]
    exact costs_resolve hp fun _ => costs_resolve hq fun _ => costs_findFirst

/-- The kernels are loaded, the arena is there, and the arrays lie in it. -/
def Action.Ready (ctx : Context) (a : Action β) : Prop :=
  (∀ kernel ∈ a.kernels, ctx.loaded kernel = true) ∧ ctx.arenaValid = true ∧ a.OnArena ctx

/-- The answer of a call that has come back. -/
def Action.Returned : (a : Action β) → a.Res → Prop
  | sort _ _ _ _ _, r => r ≠ (none : Option Bool)
  | _, _ => True

/-- A call that comes back has taken its sets, and keeps them. -/
theorem Action.costs [Zero β] {hv : HostValues β} {a : Action β} (ready : a.Ready ctx) :
    (a.prog hv ctx).Ensures (granting ctx) (fun r b' => a.Returned r → b' = b.charge a.sets) b := by
  obtain ⟨loaded, valid, inside⟩ := ready
  have all : ∀ {γ : Type} {p : Launch β γ} {n : Nat}, Costs ctx n (fun _ => True) p →
      p.Ensures (granting ctx) (fun _ b' => True → b' = b.charge n) b := fun h =>
    (h b).mono fun _ _ post _ => post.2
  cases a with
  | allocate size align => exact ⟨trivial, fun _ _ step _ => step.2.2⟩
  | deallocate p => exact ⟨trivial, fun _ _ same _ => same⟩
  | write p x => exact ⟨trivial, fun _ _ same _ => same⟩
  | reduce => exact all (costs_launchReduce (loaded _ (by simp [kernels])) valid inside)
  | scan =>
    refine all (Costs.mono (costs_launchScan ?_ ?_ valid _ _ inside) fun _ _ => trivial)
    · exact loaded _ (by simp [kernels])
    · exact loaded _ (by simp [kernels])
  | exclusiveScan =>
    exact all (costs_launchExclusiveScan (loaded _ (by simp [kernels])) (loaded _ (by simp [kernels]))
      (loaded _ (by simp [kernels])) valid inside.1 inside.2)
  | sort => exact launchSort_costs (loaded _ (by simp [kernels])) inside
  | compact =>
    exact all (costs_launchCompact (loaded _ (by simp [kernels])) (loaded _ (by simp [kernels]))
      (loaded _ (by simp [kernels])) (loaded _ (by simp [kernels])) valid inside.1 inside.2)
  | argminmax => exact all (costs_launchArgminmax (loaded _ (by simp [kernels])) valid inside)
  | find => exact all (costs_launchFind (loaded _ (by simp [kernels])) valid inside)
  | mismatch => exact all (costs_launchMismatch (loaded _ (by simp [kernels])) valid inside.1 inside.2)

end

end Parallax.Launcher
