import ParallaxRuntime.Launcher.Primitives

/-!
# The order of a launcher's calls

Dispatches come only inside a scope, and between the flush and the invalidate of a scope
the host reads its own copy of the arena only after an invalidate that no dispatch
followed. Every synchronous primitive keeps to this on arena pointers.
-/

namespace Parallax.Launcher
open Memory Effects

/-- How many scopes are open, and whether the host's copy is up to date. -/
structure Phase where
  depth : Nat
  fresh : Bool

variable {β α γ : Type}

def phaseStep (ctx : Context) : Step (ops β) Phase
  | .enter, g, _, g' => g' = { g with depth := g.depth + 1 }
  | .leave, g, _, g' => g' = ⟨g.depth - 1, g.fresh || decide (g.depth = 1)⟩
  | .invalidateFromDevice, g, _, g' => g' = { g with fresh := true }
  | .submit _, g, ok, g' => g' = { g with fresh := g.fresh && !ok }
  | .allocate _ _, g, p, g' => (p = (0 : Nat) ∨ ctx.contains p = true) ∧ g' = g
  | _, g, _, g' => g' = g

def phases (ctx : Context) : Handler (ops β) Phase where
  pre
    | .leave, g | .invalidateFromDevice, g | .submit _, g => 0 < g.depth
    | .read _ _, g => g.fresh = true
    | .getBuffer _, _ | .registerExternalBuffer _ _, _ | .syncBeforeKernel _, _ | .syncAfterKernel _, _ => False
    | _, _ => True
  step := phaseStep ctx

/-- Inside a scope, and with an up-to-date host copy if `fresh`, the program keeps the order
and closes the scopes that it opens. -/
def Keeps (ctx : Context) (fresh : Bool) (p : Launch β α) : Prop :=
  ∀ g : Phase, 0 < g.depth → (fresh = true → g.fresh = true) →
    p.Ensures (phases ctx) (fun _ g' => g'.depth = g.depth) g

section
variable {ctx : Context} {fresh : Bool} {p : Launch β γ} {f : γ → Launch β α}

theorem keeps_pure {a : α} : Keeps ctx fresh (pure a : Launch β α) := fun _ _ _ => rfl

theorem Keeps.weaken {p : Launch β α} (h : Keeps ctx false p) : Keeps ctx fresh p := fun g deep _ =>
  h g deep fun no => by cases no

theorem Keeps.bind (h : Keeps ctx fresh p) (h' : ∀ a, Keeps ctx false (f a)) : Keeps ctx fresh (p >>= f) := by
  intro g deep start
  apply (h g deep start).bind
  intro a g' same
  have deep' : 0 < g'.depth := by omega
  exact (h' a g' deep' fun no => by cases no).mono fun _ _ same' => same'.trans same

theorem keeps_ite {c : Prop} [Decidable c] {p q : Launch β α} (hp : c → Keeps ctx fresh p) (hq : ¬ c → Keeps ctx fresh q) :
    Keeps ctx fresh (if c then p else q) := fun g deep start =>
  Prog.ensures_ite (fun h => hp h g deep start) fun h => hq h g deep start

theorem keeps_call {o : Op β} {f : o.Res → Launch β α} (pre : ∀ g : Phase, 0 < g.depth → (fresh = true → g.fresh = true) →
    (phases ctx).pre o g) (step : ∀ g x g', phaseStep ctx o g x g' → g' = g) (h : ∀ x, Keeps ctx fresh (f x)) :
    Keeps ctx fresh (Prog.op (S := ops β) o >>= f) := by
  intro g deep start
  refine ⟨pre g deep start, fun x g' moved => ?_⟩
  obtain rfl := step g x g' moved
  exact h x g' deep start

theorem keeps_allocate {size align : Nat} {f : Nat → Launch β α}
    (h : ∀ p, p = 0 ∨ ctx.contains p = true → Keeps ctx fresh (f p)) :
    Keeps ctx fresh (allocate size align >>= f) := by
  intro g deep start
  refine ⟨trivial, fun x g' ⟨inside, same⟩ => ?_⟩
  subst same
  exact h x inside g' deep start

theorem keeps_deallocate {q : Nat} {f : Unit → Launch β α} (h : Keeps ctx fresh (f ())) :
    Keeps ctx fresh (deallocate q >>= f) :=
  keeps_call (fun _ _ _ => trivial) (fun _ _ _ same => same) fun _ => h

theorem keeps_write {q : Nat} {x : List β} {f : Unit → Launch β α} (h : Keeps ctx fresh (f ())) :
    Keeps ctx fresh (write q x >>= f) :=
  keeps_call (fun _ _ _ => trivial) (fun _ _ _ same => same) fun _ => h

theorem keeps_read {q n : Nat} {f : (Fin n → β) → Launch β α} (h : ∀ x, Keeps ctx true (f x)) :
    Keeps ctx true (read q n >>= f) := by
  refine keeps_call (o := .read q n) ?_ (fun _ _ _ same => same) h
  exact fun g _ start => start rfl

theorem keeps_invalidate {f : Unit → Launch β α} (h : Keeps ctx true (f ())) :
    Keeps ctx fresh (invalidateFromDevice >>= f) := by
  intro g deep _
  refine ⟨deep, fun x g' same => ?_⟩
  obtain rfl : g' = { g with fresh := true } := same
  exact h { g with fresh := true } deep fun _ => rfl

theorem keeps_dispatch (d : Dispatch β) : Keeps ctx fresh (dispatch d) := by
  unfold dispatch
  refine keeps_call (fun _ _ _ => trivial) (fun _ _ _ same => same) fun (set : Bool) => ?_
  apply keeps_ite fun _ => keeps_pure
  intro _
  refine keeps_call (fun _ _ _ => trivial) (fun _ _ _ same => same) fun _ g deep _ =>
    ⟨deep, fun (ok : Bool) g' same => ?_⟩
  obtain rfl : g' = { g with fresh := g.fresh && !ok } := same
  have rest : Keeps (β := β) ctx false (if ok = false then pure false else do sync; pure true) :=
    keeps_ite (fun _ => keeps_pure) fun _ =>
      keeps_call (o := .sync) (fun _ _ _ => trivial) (fun _ _ _ same => same) fun _ => keeps_pure
  exact rest { g with fresh := g.fresh && !ok } deep fun no => by cases no

theorem keeps_resolve {q range : Nat} {upload : Bool} {f : Option Binding → Launch β α} (inside : ctx.contains q = true)
    (h : ∀ b, Keeps ctx fresh (f (some b))) : Keeps ctx fresh (ctx.resolve q range upload >>= f) := by
  unfold Context.resolve
  rw [if_pos inside]
  exact h _

theorem keeps_download {q : Nat} {f : Unit → Launch β α} (inside : ctx.contains q = true) (h : Keeps ctx fresh (f ())) :
    Keeps ctx fresh (ctx.download q >>= f) := by
  unfold Context.download
  rw [if_neg (by rw [inside]; decide)]
  exact h

/-- A nested scope does not migrate, so it keeps the order if its body does. -/
theorem keeps_scope {body : Launch β α} (h : Keeps ctx false body) : Keeps ctx fresh (withArenaSync body) := by
  intro g deep _
  apply Prog.ensures_call trivial
  intro _ g₁ same
  obtain rfl : g₁ = { g with depth := g.depth + 1 } := same
  have inner := h { g with depth := g.depth + 1 } (Nat.succ_pos g.depth) fun no => by cases no
  apply inner.bind
  intro r g₂ depth
  dsimp only at depth
  refine ⟨show 0 < g₂.depth by omega, fun _ g₃ same => ?_⟩
  obtain rfl : g₃ = ⟨g₂.depth - 1, g₂.fresh || decide (g₂.depth = 1)⟩ := same
  show g₂.depth - 1 = g.depth
  omega

/-- The outermost scope starts and ends with an up-to-date host copy. -/
theorem ensures_scope {body : Launch β α} (h : Keeps ctx true body) :
    (withArenaSync body).Ensures (phases ctx) (fun _ g => g = ⟨0, true⟩) ⟨0, true⟩ := by
  apply Prog.ensures_call trivial
  intro _ g₁ same
  obtain rfl : g₁ = ⟨1, true⟩ := same
  have inner := h ⟨1, true⟩ Nat.one_pos fun _ => rfl
  apply inner.bind
  intro r g₂ depth
  dsimp only at depth
  refine ⟨show 0 < g₂.depth by omega, fun _ g₃ same => ?_⟩
  obtain rfl : g₃ = ⟨g₂.depth - 1, g₂.fresh || decide (g₂.depth = 1)⟩ := same
  show (⟨_, _⟩ : Phase) = _
  rw [depth]
  simp

end

/-! ### The primitives -/

section
variable {ctx : Context}

theorem keeps_reduceLevels {kernel : String} {es : Nat} {scratch : Bool → Nat} (inside : ∀ b, ctx.contains (scratch b) = true)
    (src n : Nat) (toggle : Bool) (hsrc : ctx.contains src = true) :
    Keeps (β := β) ctx false (reduceLevels ctx kernel es scratch src n toggle) := by
  induction n using Nat.strong_induction_on generalizing src toggle with
  | _ n ih =>
    rw [reduceLevels]
    refine keeps_ite (fun more => ?_) fun _ => keeps_pure
    refine keeps_resolve hsrc fun b => (keeps_dispatch _).bind fun ok => keeps_ite (fun _ => ?_) fun _ => keeps_pure
    have less := groupsOf_le n
    exact ih _ (by omega) _ _ (inside toggle)

theorem launchReduce_order [Zero β] {kernel : String} {data count es out : Nat} (inside : ctx.contains data = true) :
    (launchReduce (β := β) ctx kernel data count es out).Ensures (phases ctx) (fun _ g => g = ⟨0, true⟩) ⟨0, true⟩ := by
  unfold launchReduce
  refine ensures_scope (keeps_ite (fun _ => keeps_pure) fun _ => keeps_ite (fun _ => keeps_write keeps_pure) fun _ =>
    keeps_ite (fun _ => keeps_read fun x => keeps_write keeps_pure) fun _ => keeps_ite (fun _ => keeps_pure) fun _ => ?_)
  refine keeps_allocate fun scratch0 h0 => keeps_allocate fun scratch1 h1 => keeps_ite (fun _ => keeps_pure) fun some => ?_
  have scratch : ∀ b : Bool, ctx.contains (if b then scratch1 else scratch0) = true := by
    intro b
    cases b with
    | false => exact h0.resolve_left fun null => some (Or.inl null)
    | true => exact h1.resolve_left fun null => some (Or.inr null)
  refine (keeps_reduceLevels scratch data count false inside).weaken.bind fun result => ?_
  cases result with
  | none => exact keeps_pure
  | some src =>
    exact keeps_invalidate <| keeps_read fun x => keeps_write <| keeps_deallocate <| keeps_deallocate keeps_pure

/-- A scan is one scope, whose body keeps the order in the nested scans as well. -/
theorem launchScan_scope {scanKernel addKernel : String} {es : Nat} (data count : Nat) (inside : ctx.contains data = true) :
    ∃ body : Launch β Bool, launchScan ctx scanKernel addKernel data count es = withArenaSync body ∧
      Keeps ctx false body := by
  induction count using Nat.strong_induction_on generalizing data with
  | _ count ih =>
    rw [launchScan]
    refine ⟨_, rfl, keeps_ite (fun _ => keeps_pure) fun _ => keeps_ite (fun _ => keeps_pure) fun many =>
      keeps_ite (fun _ => keeps_pure) fun _ => keeps_resolve inside fun b => keeps_allocate fun blocksums h =>
      keeps_ite (fun _ => keeps_pure) fun nonnull => (keeps_dispatch _).bind fun ok => keeps_ite (fun _ => keeps_pure)
      fun _ => ?_⟩
    have less := groupsOf_le count
    have rest : ∀ ok : Bool, Keeps (β := β) ctx false (if ok = false then pure false else do
        ctx.download data
        deallocate blocksums
        pure true) := fun ok =>
      keeps_ite (fun _ => keeps_pure) fun _ => keeps_download inside (keeps_deallocate keeps_pure)
    refine Keeps.bind (keeps_ite (fun _ => ?_) fun _ => keeps_pure) rest
    obtain ⟨body, same, keeps⟩ := ih (groupsOf count) (by omega) blocksums (h.resolve_left nonnull)
    rw [same]
    exact (keeps_scope keeps).bind fun ok => keeps_ite (fun _ => keeps_pure) fun _ => keeps_dispatch _

theorem keeps_launchScan {fresh : Bool} {scanKernel addKernel : String} {data count es : Nat}
    (inside : ctx.contains data = true) :
    Keeps (β := β) ctx fresh (launchScan ctx scanKernel addKernel data count es) := by
  obtain ⟨body, same, keeps⟩ := launchScan_scope (β := β) data count inside
  rw [same]
  exact keeps_scope keeps

theorem launchScan_order {scanKernel addKernel : String} {data count es : Nat} (inside : ctx.contains data = true) :
    (launchScan (β := β) ctx scanKernel addKernel data count es).Ensures (phases ctx) (fun _ g => g = ⟨0, true⟩)
      ⟨0, true⟩ := by
  obtain ⟨body, same, keeps⟩ := launchScan_scope (β := β) data count inside
  rw [same]
  exact ensures_scope keeps.weaken

theorem launchExclusiveScan_order {scanKernel addKernel shiftKernel : String} {input output count es : Nat}
    {init : Option (List β)} (hin : ctx.contains input = true) (hout : ctx.contains output = true) :
    (launchExclusiveScan ctx scanKernel addKernel shiftKernel input output count es init).Ensures (phases ctx)
      (fun _ g => g = ⟨0, true⟩) ⟨0, true⟩ := by
  unfold launchExclusiveScan
  refine ensures_scope (keeps_ite (fun _ => keeps_pure) fun _ => keeps_ite (fun _ => keeps_pure) fun _ =>
    keeps_ite (fun _ => keeps_pure) fun _ => ?_)
  refine Keeps.bind (keeps_ite (fun _ => keeps_launchScan hin) fun _ => keeps_pure) fun ok =>
    keeps_ite (fun _ => keeps_pure) fun _ => keeps_resolve hin fun b => keeps_resolve hout fun b' => ?_
  exact (keeps_dispatch _).bind fun ok => keeps_ite (fun _ => keeps_pure) fun _ => keeps_download hout keeps_pure

theorem keeps_sortInner {kernel : String} {data : Binding} {n k groups : Nat} (j : Nat) :
    Keeps (β := β) ctx false (sortInner kernel data n k groups j) := by
  induction j using Nat.strong_induction_on with
  | _ j ih =>
    rw [sortInner]
    exact keeps_ite (fun pos => (keeps_dispatch _).bind fun ok => keeps_ite (fun _ => ih _ (by omega)) fun _ => keeps_pure)
      fun _ => keeps_pure

theorem keeps_sortOuter {kernel : String} {data : Binding} {n groups : Nat} (fuel k : Nat) :
    Keeps (β := β) ctx false (sortOuter kernel data n groups fuel k) := by
  induction fuel generalizing k with
  | zero => exact keeps_pure
  | succ fuel ih =>
    rw [sortOuter]
    exact keeps_ite (fun _ => (keeps_sortInner _).bind fun ok => keeps_ite (fun _ => ih _) fun _ => keeps_pure)
      fun _ => keeps_pure

theorem launchSort_order {kernel : String} {data count es fuel : Nat} (inside : ctx.contains data = true) :
    (launchSort (β := β) ctx kernel data count es fuel).Ensures (phases ctx) (fun _ g => g = ⟨0, true⟩) ⟨0, true⟩ := by
  unfold launchSort
  refine ensures_scope (keeps_ite (fun _ => keeps_pure) fun _ => keeps_ite (fun _ => keeps_pure) fun _ =>
    keeps_ite (fun _ => keeps_pure) fun _ => keeps_resolve inside fun b => ?_)
  exact (keeps_sortOuter _ _).weaken.bind fun done => keeps_ite (fun _ => keeps_download inside keeps_pure) fun _ => keeps_pure

theorem keeps_storeKept {fresh : Bool} {α : Type} {hv : HostValues β} {out : Option Nat} {kept : Nat}
    {f : Unit → Launch β α} (h : Keeps ctx fresh (f ())) : Keeps ctx fresh (storeKept hv out kept >>= f) := by
  cases out with
  | none => exact h
  | some p => exact keeps_write h

theorem launchCompact_order {hv : HostValues β} {flagsKernel scanKernel addKernel scatterKernel : String}
    {input output count es : Nat} {elemIsFloat : Bool} {outKept : Option Nat} (hin : ctx.contains input = true)
    (hout : ctx.contains output = true) :
    (launchCompact hv ctx flagsKernel scanKernel addKernel scatterKernel input output count es elemIsFloat
      outKept).Ensures (phases ctx) (fun _ g => g = ⟨0, true⟩) ⟨0, true⟩ := by
  unfold launchCompact
  refine ensures_scope (keeps_ite (fun _ => keeps_pure) fun _ => keeps_storeKept <|
    keeps_ite (fun _ => keeps_pure) fun _ => keeps_ite (fun _ => keeps_pure) fun _ => keeps_resolve hin fun inBinding =>
    keeps_resolve hout fun outBinding => keeps_allocate fun positions h => keeps_ite (fun _ => keeps_pure) fun nonnull =>
    (keeps_dispatch _).bind fun ok => keeps_ite (fun _ => keeps_deallocate keeps_pure) fun _ => ?_)
  refine (keeps_launchScan (h.resolve_left nonnull)).bind fun ok =>
    keeps_ite (fun _ => keeps_deallocate keeps_pure) fun _ => ?_
  refine keeps_invalidate <| keeps_read fun last => keeps_storeKept <| (keeps_dispatch _).bind fun ok => ?_
  exact keeps_ite (fun _ => keeps_deallocate keeps_pure) fun _ => keeps_download hout <| keeps_deallocate keeps_pure

theorem keeps_combineWinners {hv : HostValues β} {vals idxs count es : Nat} {isFloat wantMax wantLast : Bool}
    (blocks : List Nat) (bestIdx : Nat) (bestVal : hv.Val) :
    Keeps ctx true (combineWinners hv vals idxs count es isFloat wantMax wantLast blocks bestIdx bestVal) := by
  induction blocks generalizing bestIdx bestVal with
  | nil => exact keeps_pure
  | cons b blocks ih =>
    rw [combineWinners]
    exact keeps_read fun word => keeps_ite (fun _ => ih _ _) fun _ => keeps_read fun bytes =>
      keeps_ite (fun _ => ih _ _) fun _ => ih _ _

theorem launchArgminmax_order {hv : HostValues β} {kernel : String} {data count es : Nat}
    {isFloat wantMax wantLast : Bool} (inside : ctx.contains data = true) :
    (launchArgminmax hv ctx kernel data count es isFloat wantMax wantLast).Ensures (phases ctx)
      (fun _ g => g = ⟨0, true⟩) ⟨0, true⟩ := by
  unfold launchArgminmax
  refine ensures_scope (keeps_ite (fun _ => keeps_pure) fun _ => keeps_ite (fun _ => keeps_pure) fun _ =>
    keeps_ite (fun _ => keeps_pure) fun _ => keeps_ite (fun _ => keeps_pure) fun _ => keeps_resolve inside fun b =>
    keeps_allocate fun vals _ => keeps_allocate fun idxs _ => keeps_ite (fun _ => keeps_pure) fun _ =>
    (keeps_dispatch _).bind fun ok => keeps_ite (fun _ => keeps_pure) fun _ => keeps_invalidate ?_)
  exact (keeps_combineWinners _ _ _).bind fun best => keeps_deallocate <| keeps_deallocate keeps_pure

theorem keeps_leastWinner {hv : HostValues β} {outi : Nat} (blocks : List Nat) (best : Nat) :
    Keeps ctx true (leastWinner hv outi blocks best) := by
  induction blocks generalizing best with
  | nil => exact keeps_pure
  | cons b blocks ih => exact keeps_read fun word => ih _

theorem keeps_findFirst {fresh : Bool} {hv : HostValues β} {kernel : String} {input : Binding} {other : Option Binding}
    {push : Push β} {count : Nat} : Keeps ctx fresh (findFirst hv ctx kernel input other push count) := by
  unfold findFirst
  refine keeps_allocate fun outi _ => keeps_ite (fun _ => keeps_pure) fun _ => (keeps_dispatch _).bind fun ok =>
    keeps_ite (fun _ => keeps_pure) fun _ => keeps_invalidate ?_
  exact (keeps_leastWinner _ _).bind fun best => keeps_deallocate keeps_pure

theorem launchFind_order {hv : HostValues β} {kernel : String} {data count es : Nat} {negate : Bool}
    {value : Option (List β)} (inside : ctx.contains data = true) :
    (launchFind hv ctx kernel data count es negate value).Ensures (phases ctx) (fun _ g => g = ⟨0, true⟩) ⟨0, true⟩ := by
  unfold launchFind
  exact ensures_scope <| keeps_ite (fun _ => keeps_pure) fun _ => keeps_ite (fun _ => keeps_pure) fun _ =>
    keeps_ite (fun _ => keeps_pure) fun _ => keeps_resolve inside fun b => keeps_findFirst

theorem launchMismatch_order {hv : HostValues β} {kernel : String} {a b count es : Nat} (ha : ctx.contains a = true)
    (hb : ctx.contains b = true) :
    (launchMismatch hv ctx kernel a b count es).Ensures (phases ctx) (fun _ g => g = ⟨0, true⟩) ⟨0, true⟩ := by
  unfold launchMismatch
  exact ensures_scope <| keeps_ite (fun _ => keeps_pure) fun _ => keeps_ite (fun _ => keeps_pure) fun _ =>
    keeps_ite (fun _ => keeps_pure) fun _ => keeps_resolve ha fun aBinding => keeps_resolve hb fun bBinding =>
    keeps_findFirst

end

end Parallax.Launcher
