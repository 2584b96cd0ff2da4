import Mathlib.Data.UInt
import ParallaxRuntime.Arena.Alignment
import ParallaxRuntime.Launcher.Budget
import ParallaxRuntime.Launcher.Machine

/-!
# The offsets of storage buffers

A primitive binds its arrays where the caller put them, and scratch where the arena put it.
-/

namespace Parallax.Launcher
open Memory Effects Arena

/-- The storage buffers that a call binds. -/
def Op.bound {β : Type} : Op β → List Binding
  | submit d => d.bindings
  | _ => []

/-- The launchers over an arena, with a list of the storage buffers that they have bound. -/
def bindingStep (B : Backing) (shaders : String → Shader UInt8) (mayFail : Prop) :
    Step (ops UInt8) (B.arena.State × List Binding) := fun o s x s' =>
  machineStep B.arena shaders mayFail o s.1 x s'.1 ∧ s'.2 = s.2 ++ o.bound

variable {B : Backing} {shaders : String → Shader UInt8} {mayFail : Prop} {limit : Nat} {loaded : String → Bool} {devBase : Nat}
  {α γ : Type} {p : Launch UInt8 γ} {f : γ → Launch UInt8 α} {s s' : B.arena.State × List Binding}

/-! ### Programs that only bind at multiples of a limit -/

def aligning (B : Backing) (shaders : String → Shader UInt8) (mayFail : Prop) (limit : Nat) :
    Handler (ops UInt8) (B.arena.State × List Binding) where
  pre o _ := ∀ b ∈ o.bound, limit ∣ b.offset
  step := bindingStep B shaders mayFail

def Aligns (B : Backing) (shaders : String → Shader UInt8) (mayFail : Prop) (limit : Nat) (p : Launch UInt8 α) : Prop :=
  ∀ s, p.Ensures (aligning B shaders mayFail limit) (fun _ _ => True) s

theorem Aligns.run {p : Launch UInt8 α} {r : α} (h : Aligns B shaders mayFail limit p)
    (run : p.Run (bindingStep B shaders mayFail) s r s') (before : ∀ b ∈ s.2, limit ∣ b.offset) : ∀ b ∈ s'.2, limit ∣ b.offset := by
  have ensured := h s
  clear h
  induction p generalizing s with
  | ret a =>
    obtain ⟨rfl, rfl⟩ := run
    exact before
  | call o k ih =>
    obtain ⟨x, s₁, step, run⟩ := run
    apply ih x run
    · intro b hb
      rw [step.2] at hb
      rcases List.mem_append.mp hb with old | new
      · exact before b old
      · exact ensured.1 b new
    · exact ensured.2 x s₁ step

theorem aligns_pure {a : α} : Aligns B shaders mayFail limit (pure a) := fun _ => trivial

theorem Aligns.bind (h : Aligns B shaders mayFail limit p) (rest : ∀ a, Aligns B shaders mayFail limit (f a)) :
    Aligns B shaders mayFail limit (p >>= f) := fun s => (h s).bind fun a t _ => rest a t

theorem aligns_op {o : Op UInt8} (quiet : o.bound = []) : Aligns B shaders mayFail limit (Prog.op (S := ops UInt8) o) := by
  intro s
  refine ⟨?_, fun _ _ _ => trivial⟩
  intro b hb
  rw [quiet] at hb
  cases hb

theorem aligns_ite {c : Prop} [Decidable c] {p q : Launch UInt8 α} (hp : c → Aligns B shaders mayFail limit p)
    (hq : ¬ c → Aligns B shaders mayFail limit q) : Aligns B shaders mayFail limit (if c then p else q) := by
  split
  · next h => exact hp h
  · next h => exact hq h

theorem aligns_scope {body : Launch UInt8 α} (h : Aligns B shaders mayFail limit body) :
    Aligns B shaders mayFail limit (withArenaSync body) :=
  (aligns_op rfl).bind fun _ => h.bind fun _ => (aligns_op rfl).bind fun _ => aligns_pure

theorem aligns_dispatch {d : Dispatch UInt8} (near : ∀ b ∈ d.bindings, limit ∣ b.offset) :
    Aligns B shaders mayFail limit (dispatch d) := by
  unfold dispatch
  apply (aligns_op rfl).bind
  intro (set : Bool)
  apply aligns_ite fun _ => aligns_pure
  intro _
  apply (aligns_op rfl).bind
  intro _
  apply Aligns.bind (p := submit d) fun _ => ⟨near, fun _ _ _ => trivial⟩
  intro (submitted : Bool)
  exact aligns_ite (fun _ => aligns_pure) fun _ => (aligns_op rfl).bind fun _ => aligns_pure

@[simp] theorem contextOf_offsetOf {β : Type} {A : ArenaModel β} {q : Nat} :
    (contextOf A loaded devBase).offsetOf q = q - A.base := rfl

theorem aligns_allocate {size : Nat} {f : Nat → Launch UInt8 α} (divides : limit ∣ 256)
    (h : ∀ q, limit ∣ q - B.arena.base → Aligns B shaders mayFail limit (f q)) :
    Aligns B shaders mayFail limit (allocate size 256 >>= f) := by
  intro s
  refine ⟨by simp [Op.bound, aligning], ?_⟩
  intro (q : Nat) t step
  apply h q
  rcases B.allocates_dvd (k := 8) (by decide) step.1.1 with null | aligned
  · rw [null, Nat.zero_sub]
    exact Nat.dvd_zero limit
  · exact divides.trans aligned

theorem ensures_nearBinding {ctx : Context} {q range n : Nat} {upload : Bool} (near : ctx.contains q = true → n ∣ ctx.offsetOf q) :
    (ctx.resolve q range upload).Ensures (aligning B shaders mayFail limit) (fun r _ => ∀ b ∈ r, n ∣ b.offset) s := by
  unfold Context.resolve
  apply Prog.ensures_ite
  · rintro inside b ⟨rfl⟩
    exact near inside
  · intro _
    apply (aligns_op rfl s).bind
    intro (known : Nat) s₁ _
    apply Prog.Ensures.bind (R := fun _ _ => True)
    · have registered : Aligns B shaders mayFail limit
          (if known = 0 then (registerExternalBuffer q range >>= fun _ => getBuffer q) else pure known) :=
        aligns_ite (fun _ => (aligns_op rfl).bind fun _ => aligns_op rfl) fun _ => aligns_pure
      exact registered s₁
    intro (reg : Nat) s₂ _
    apply Prog.ensures_ite
    · rintro _ b ⟨⟩
    · intro _
      apply Prog.Ensures.bind (R := fun _ _ => True)
      · have sent : Aligns B shaders mayFail limit (if upload then syncBeforeKernel q else pure ()) :=
          aligns_ite (fun _ => aligns_op rfl) fun _ => aligns_pure
        exact sent s₂
      · rintro _ s₃ _ b ⟨rfl⟩
        exact Nat.dvd_zero n

theorem aligns_resolve {ctx : Context} {q range n : Nat} {upload : Bool} {f : Binding → Launch UInt8 α} {failed : Launch UInt8 α}
    (near : ctx.contains q = true → n ∣ ctx.offsetOf q) (none : Aligns B shaders mayFail limit failed)
    (some : ∀ b : Binding, n ∣ b.offset → Aligns B shaders mayFail limit (f b)) :
    Aligns B shaders mayFail limit (ctx.resolve q range upload >>= fun bound => bound.elim failed f) := by
  intro s
  apply (ensures_nearBinding near).bind
  intro bound t found
  cases bound with
  | none => exact none t
  | some b => exact some b (found b rfl) t

/-! ### The primitives -/

/-- A pointer outside of the arena, or one at a multiple of the limit. -/
def Near (ctx : Context) (limit q : Nat) : Prop := ctx.contains q = true → limit ∣ ctx.offsetOf q

section
variable {hv : HostValues UInt8} {count es : Nat}

theorem aligns_freed {q : Nat} {r : α} : Aligns B shaders mayFail limit (deallocate q >>= fun _ => (pure r : Launch UInt8 α)) :=
  (aligns_op rfl).bind fun _ => aligns_pure

theorem aligns_download {ctx : Context} {q : Nat} : Aligns B shaders mayFail limit (ctx.download q) :=
  aligns_ite (fun _ => aligns_op rfl) fun _ => aligns_pure

theorem aligns_reduceLevels {ctx : Context} {kernel : String} {scratch : Bool → Nat} (src n : Nat) (toggle : Bool)
    (near : 1 < n → Near ctx limit src) (scratches : ∀ t, limit ∣ ctx.offsetOf (scratch t)) :
    Aligns B shaders mayFail limit (reduceLevels ctx kernel es scratch src n toggle) := by
  induction n using Nat.strong_induction_on generalizing src toggle with
  | _ n ih =>
    rw [reduceLevels]
    apply aligns_ite
    · intro more
      apply aligns_resolve (near more) aligns_pure
      intro b hb
      apply (aligns_dispatch (by simp [Dispatch.bindings, hb, scratches])).bind
      intro done
      apply aligns_ite
      · intro _
        have less := groupsOf_le n
        exact ih _ (by omega) _ _ fun _ _ => scratches toggle
      · intro _
        exact aligns_pure
    · intro _
      exact aligns_pure

theorem aligns_launchReduce {kernel : String} {data outResult : Nat} (divides : limit ∣ 256)
    (near : 1 < count → Near (contextOf B.arena loaded devBase) limit data) :
    Aligns B shaders mayFail limit (launchReduce (contextOf B.arena loaded devBase) kernel data count es outResult) := by
  unfold launchReduce
  apply aligns_scope
  apply aligns_ite fun _ => aligns_pure
  intro _
  apply aligns_ite fun _ => (aligns_op rfl).bind fun _ => aligns_pure
  intro _
  apply aligns_ite fun _ => (aligns_op rfl).bind fun _ => (aligns_op rfl).bind fun _ => aligns_pure
  intro _
  apply aligns_ite fun _ => aligns_pure
  intro _
  apply aligns_allocate divides
  intro scratch0 first
  apply aligns_allocate divides
  intro scratch1 second
  apply aligns_ite fun _ => aligns_pure
  intro _
  apply (aligns_reduceLevels _ _ _ near (by simp [first, second])).bind
  intro result
  cases result with
  | none => exact aligns_pure
  | some src =>
    apply (aligns_op rfl).bind
    intro _
    apply (aligns_op rfl).bind
    intro x
    apply (aligns_op rfl).bind
    intro _
    exact (aligns_op rfl).bind fun _ => aligns_freed

theorem aligns_launchScan {scanKernel addKernel : String} (divides : limit ∣ 256) (data count : Nat)
    (near : 1 < count → Near (contextOf B.arena loaded devBase) limit data) :
    Aligns B shaders mayFail limit (launchScan (contextOf B.arena loaded devBase) scanKernel addKernel data count es) := by
  induction count using Nat.strong_induction_on generalizing data with
  | _ count ih =>
    rw [launchScan]
    apply aligns_scope
    apply aligns_ite fun _ => aligns_pure
    intro _
    apply aligns_ite fun _ => aligns_pure
    intro many
    apply aligns_ite fun _ => aligns_pure
    intro _
    apply aligns_resolve (near (by omega)) aligns_pure
    intro b hb
    apply aligns_allocate divides
    intro blocksums low
    apply aligns_ite fun _ => aligns_pure
    intro _
    have pass : ∀ kernel, Aligns B shaders mayFail limit (dispatchReduceLevel (contextOf B.arena loaded devBase) kernel b
        ⟨.arena, (contextOf B.arena loaded devBase).offsetOf blocksums, some (wmul (groupsOf count) es)⟩ count
        (groupsOf count)) := fun kernel => aligns_dispatch (by simp [Dispatch.bindings, hb, low])
    apply (pass scanKernel).bind
    intro done
    apply aligns_ite fun _ => aligns_pure
    intro _
    apply Aligns.bind
    · apply aligns_ite
      · intro _
        have less := groupsOf_le count
        apply (ih _ (by omega) blocksums fun _ _ => low).bind
        intro done
        exact aligns_ite (fun _ => aligns_pure) fun _ => pass addKernel
      · intro _
        exact aligns_pure
    · intro done
      apply aligns_ite fun _ => aligns_pure
      intro _
      exact aligns_download.bind fun _ => aligns_freed

theorem aligns_launchExclusiveScan {scanKernel addKernel shiftKernel : String} {input output : Nat} {init : Option (List UInt8)}
    (divides : limit ∣ 256) (nearIn : 0 < count → Near (contextOf B.arena loaded devBase) limit input)
    (nearOut : 0 < count → Near (contextOf B.arena loaded devBase) limit output) :
    Aligns B shaders mayFail limit
      (launchExclusiveScan (contextOf B.arena loaded devBase) scanKernel addKernel shiftKernel input output count es init) := by
  unfold launchExclusiveScan
  apply aligns_scope
  apply aligns_ite fun _ => aligns_pure
  intro _
  apply aligns_ite fun _ => aligns_pure
  intro nonzero
  apply aligns_ite fun _ => aligns_pure
  intro _
  have positive : 0 < count := Nat.pos_of_ne_zero nonzero
  apply Aligns.bind
  · exact aligns_ite (fun _ => aligns_launchScan divides _ _ fun _ => nearIn positive) fun _ => aligns_pure
  · intro done
    apply aligns_ite fun _ => aligns_pure
    intro _
    apply aligns_resolve (nearIn positive) aligns_pure
    intro b hb
    apply aligns_resolve (nearOut positive) aligns_pure
    intro b' hb'
    apply (aligns_dispatch (by simp [Dispatch.bindings, hb, hb'])).bind
    intro done
    exact aligns_ite (fun _ => aligns_pure) fun _ => aligns_download.bind fun _ => aligns_pure

theorem aligns_sortInner {kernel : String} {data : Binding} {n k groups : Nat} (near : limit ∣ data.offset) (j : Nat) :
    Aligns B shaders mayFail limit (sortInner kernel data n k groups j) := by
  induction j using Nat.strong_induction_on with
  | _ j ih =>
    rw [sortInner]
    apply aligns_ite
    · intro positive
      apply (aligns_dispatch (by simp [Dispatch.bindings, near])).bind
      intro done
      exact aligns_ite (fun _ => ih _ (by omega)) fun _ => aligns_pure
    · intro _
      exact aligns_pure

theorem aligns_sortOuter {kernel : String} {data : Binding} {n groups : Nat} (near : limit ∣ data.offset) (fuel k : Nat) :
    Aligns B shaders mayFail limit (sortOuter kernel data n groups fuel k) := by
  induction fuel generalizing k with
  | zero => exact aligns_pure
  | succ fuel ih =>
    rw [sortOuter]
    apply aligns_ite
    · intro _
      apply (aligns_sortInner near _).bind
      intro done
      exact aligns_ite (fun _ => ih _) fun _ => aligns_pure
    · intro _
      exact aligns_pure

/-- A sort of at most one element has no stage. -/
theorem sortOuter_few (kernel : String) (data : Binding) (groups : Nat) {n : Nat} (few : ¬ 1 < n) (fuel : Nat) :
    ∃ r, sortOuter (β := UInt8) kernel data n groups fuel 2 = pure r := by
  cases fuel with
  | zero => exact ⟨none, rfl⟩
  | succ fuel =>
    rw [sortOuter, if_neg (by omega)]
    exact ⟨some true, rfl⟩

theorem aligns_launchSort {kernel : String} {data fuel : Nat}
    (near : 1 < count % 2 ^ 32 → Near (contextOf B.arena loaded devBase) limit data) :
    Aligns B shaders mayFail limit (launchSort (contextOf B.arena loaded devBase) kernel data count es fuel) := by
  have stored : ∀ done : Option Bool, Aligns B shaders mayFail limit
      (if done = some true then ((contextOf B.arena loaded devBase).download data >>= fun _ => pure done) else pure done) :=
    fun done => aligns_ite (fun _ => aligns_download.bind fun _ => aligns_pure) fun _ => aligns_pure
  unfold launchSort
  apply aligns_scope
  apply aligns_ite fun _ => aligns_pure
  intro _
  apply aligns_ite fun _ => aligns_pure
  intro _
  apply aligns_ite fun _ => aligns_pure
  intro _
  by_cases many : 1 < count % 2 ^ 32
  · apply aligns_resolve (near many) aligns_pure
    intro b hb
    exact (aligns_sortOuter hb _ _).bind stored
  · apply aligns_resolve (n := 1) (fun _ => Nat.one_dvd _) aligns_pure
    intro b _
    dsimp only
    obtain ⟨r, none⟩ := sortOuter_few kernel b ((count % 2 ^ 32 + 255) % 2 ^ 32 / 256) many fuel
    rw [none]
    exact stored r

theorem aligns_launchCompact {flagsKernel scanKernel addKernel scatterKernel : String} {input output : Nat} {isFloat : Bool}
    {outKept : Option Nat} (divides : limit ∣ 256) (nearIn : 0 < count → Near (contextOf B.arena loaded devBase) limit input)
    (nearOut : 0 < count → Near (contextOf B.arena loaded devBase) limit output) :
    Aligns B shaders mayFail limit (launchCompact hv (contextOf B.arena loaded devBase) flagsKernel scanKernel addKernel
      scatterKernel input output count es isFloat outKept) := by
  have kept : ∀ n, Aligns B shaders mayFail limit (storeKept hv outKept n) := by
    intro n
    cases outKept with
    | none => exact aligns_pure
    | some p => exact aligns_op rfl
  unfold launchCompact
  apply aligns_scope
  apply aligns_ite fun _ => aligns_pure
  intro _
  apply (kept 0).bind
  intro _
  apply aligns_ite fun _ => aligns_pure
  intro nonzero
  apply aligns_ite fun _ => aligns_pure
  intro _
  have positive : 0 < count := Nat.pos_of_ne_zero nonzero
  apply aligns_resolve (nearIn positive) aligns_pure
  intro b hb
  apply aligns_resolve (nearOut positive) aligns_pure
  intro b' hb'
  apply aligns_allocate divides
  intro positions low
  apply aligns_ite fun _ => aligns_pure
  intro _
  apply (aligns_dispatch (by simp [Dispatch.bindings, hb, low])).bind
  intro done
  apply aligns_ite fun _ => aligns_freed
  intro _
  apply (aligns_launchScan divides _ _ fun _ _ => low).bind
  intro done
  apply aligns_ite fun _ => aligns_freed
  intro _
  apply (aligns_op rfl).bind
  intro _
  apply (aligns_op rfl).bind
  intro last
  apply (kept _).bind
  intro _
  apply (aligns_dispatch (by simp [Dispatch.bindings, hb, hb', low])).bind
  intro done
  apply aligns_ite fun _ => aligns_freed
  intro _
  exact aligns_download.bind fun _ => aligns_freed

theorem aligns_combineWinners {vals idxs : Nat} {isFloat wantMax wantLast : Bool} (blocks : List Nat) (bestIdx : Nat)
    (bestVal : hv.Val) :
    Aligns B shaders mayFail limit
      (combineWinners hv vals idxs count es isFloat wantMax wantLast blocks bestIdx bestVal) := by
  induction blocks generalizing bestIdx bestVal with
  | nil => exact aligns_pure
  | cons b blocks ih =>
    rw [combineWinners]
    apply (aligns_op rfl).bind
    intro word
    apply aligns_ite fun _ => ih _ _
    intro _
    apply (aligns_op rfl).bind
    intro bytes
    exact aligns_ite (fun _ => ih _ _) fun _ => ih _ _

theorem aligns_launchArgminmax {kernel : String} {data : Nat} {isFloat wantMax wantLast : Bool} (divides : limit ∣ 256)
    (near : 1 < count → Near (contextOf B.arena loaded devBase) limit data) :
    Aligns B shaders mayFail limit
      (launchArgminmax hv (contextOf B.arena loaded devBase) kernel data count es isFloat wantMax wantLast) := by
  unfold launchArgminmax
  apply aligns_scope
  apply aligns_ite fun _ => aligns_pure
  intro _
  apply aligns_ite fun _ => aligns_pure
  intro _
  apply aligns_ite fun _ => aligns_pure
  intro _
  apply aligns_ite fun _ => aligns_pure
  intro _
  apply aligns_resolve (near (by omega)) aligns_pure
  intro b hb
  apply aligns_allocate divides
  intro vals first
  apply aligns_allocate divides
  intro idxs second
  apply aligns_ite fun _ => aligns_pure
  intro _
  apply (aligns_dispatch (by simp [Dispatch.bindings, hb, first, second])).bind
  intro done
  apply aligns_ite fun _ => aligns_pure
  intro _
  apply (aligns_op rfl).bind
  intro _
  apply (aligns_combineWinners _ _ _).bind
  intro best
  exact (aligns_op rfl).bind fun _ => aligns_freed

theorem aligns_leastWinner {outi : Nat} (blocks : List Nat) (best : Nat) :
    Aligns B shaders mayFail limit (leastWinner hv outi blocks best) := by
  induction blocks generalizing best with
  | nil => exact aligns_pure
  | cons b blocks ih => exact (aligns_op rfl).bind fun word => ih _

theorem aligns_findFirst {kernel : String} {input : Binding} {other : Option Binding} {push : Push UInt8} (divides : limit ∣ 256)
    (near : limit ∣ input.offset) (nearOther : ∀ b ∈ other, limit ∣ b.offset) :
    Aligns B shaders mayFail limit (findFirst hv (contextOf B.arena loaded devBase) kernel input other push count) := by
  unfold findFirst
  apply aligns_allocate divides
  intro outi low
  apply aligns_ite fun _ => aligns_pure
  intro _
  have all : ∀ b ∈ Dispatch.bindings ⟨kernel, input, ⟨.arena, (contextOf B.arena loaded devBase).offsetOf outi,
      some (wmul (groupsOf count) 4)⟩, other, push, groupsOf count⟩, limit ∣ b.offset := by
    simpa [Dispatch.bindings, near, low] using nearOther
  apply (aligns_dispatch all).bind
  intro done
  apply aligns_ite fun _ => aligns_pure
  intro _
  apply (aligns_op rfl).bind
  intro _
  exact (aligns_leastWinner _ _).bind fun best => aligns_freed

theorem aligns_launchFind {kernel : String} {data : Nat} {negate : Bool} {value : Option (List UInt8)} (divides : limit ∣ 256)
    (near : 0 < count → Near (contextOf B.arena loaded devBase) limit data) :
    Aligns B shaders mayFail limit (launchFind hv (contextOf B.arena loaded devBase) kernel data count es negate value) := by
  unfold launchFind
  apply aligns_scope
  apply aligns_ite fun _ => aligns_pure
  intro _
  apply aligns_ite fun _ => aligns_pure
  intro nonzero
  apply aligns_ite fun _ => aligns_pure
  intro _
  apply aligns_resolve (near (Nat.pos_of_ne_zero nonzero)) aligns_pure
  intro b hb
  exact aligns_findFirst divides hb (by simp)

theorem aligns_launchMismatch {kernel : String} {a b : Nat} (divides : limit ∣ 256)
    (nearA : 0 < count → Near (contextOf B.arena loaded devBase) limit a)
    (nearB : 0 < count → Near (contextOf B.arena loaded devBase) limit b) :
    Aligns B shaders mayFail limit (launchMismatch hv (contextOf B.arena loaded devBase) kernel a b count es) := by
  unfold launchMismatch
  apply aligns_scope
  apply aligns_ite fun _ => aligns_pure
  intro _
  apply aligns_ite fun _ => aligns_pure
  intro nonzero
  apply aligns_ite fun _ => aligns_pure
  intro _
  apply aligns_resolve (nearA (Nat.pos_of_ne_zero nonzero)) aligns_pure
  intro aBinding hA
  apply aligns_resolve (nearB (Nat.pos_of_ne_zero nonzero)) aligns_pure
  intro bBinding hB
  exact aligns_findFirst divides hA (by simpa using hB)

end

end Parallax.Launcher
