import ParallaxRuntime.Launcher.Offsets

/-!
# The arrays that a primitive binds

A primitive that goes through has bound every array of its caller, each at its own offset.
-/

namespace Parallax.Launcher
open Memory Effects Arena

/-- The array is among the storage buffers, at its own offset. -/
def Named (base : Nat) (bound : List Binding) (q : Nat) : Prop := ∃ b ∈ bound, b.buffer = .arena ∧ b.offset = q - base

variable {B : Backing} {shaders : String → Shader UInt8} {mayFail : Prop} {loaded : String → Bool} {devBase : Nat}
  {α γ : Type} {ok : α → Prop} {Q : List Nat} {p : Launch UInt8 γ} {f : γ → Launch UInt8 α} {s : B.arena.State × List Binding}

def listing (B : Backing) (shaders : String → Shader UInt8) (mayFail : Prop) : Handler (ops UInt8) (B.arena.State × List Binding) :=
  ⟨fun _ _ => True, bindingStep B shaders mayFail⟩

/-- Every run with an answer that is `ok` has bound the arrays `Q`. -/
def Binds (B : Backing) (shaders : String → Shader UInt8) (mayFail : Prop) (ok : α → Prop) (Q : List Nat) (p : Launch UInt8 α) :
    Prop := ∀ s, p.Ensures (listing B shaders mayFail) (fun r s' => ok r → ∀ q ∈ Q, Named B.arena.base s'.2 q) s

theorem ensures_grows (p : Launch UInt8 α) (s : B.arena.State × List Binding) :
    p.Ensures (listing B shaders mayFail) (fun _ s' => s.2 ⊆ s'.2) s := by
  induction p generalizing s with
  | ret a => exact List.Subset.refl _
  | call o k ih =>
    refine ⟨trivial, ?_⟩
    intro x t step
    apply (ih x t).mono
    intro r s' more
    apply List.Subset.trans _ more
    rw [step.2]
    exact List.subset_append_left _ _

theorem binds_pure {r : α} (no : ¬ ok r) : Binds B shaders mayFail ok Q (pure r) := fun _ yes => absurd yes no

theorem binds_nothing {p : Launch UInt8 α} : Binds B shaders mayFail ok [] p := by
  intro s
  apply (ensures_grows p s).mono
  intro r s' _ _ q hq
  cases hq

/-- Where there is nothing to do, nothing has to be bound. -/
theorem binds_when {c : Prop} [Decidable c] {p : Launch UInt8 α} (h : c → Binds B shaders mayFail ok Q p) :
    Binds B shaders mayFail ok (if c then Q else []) p := by
  split
  · next some => exact h some
  · exact binds_nothing

theorem Binds.after (rest : ∀ a, Binds B shaders mayFail ok Q (f a)) : Binds B shaders mayFail ok Q (p >>= f) := fun s =>
  (ensures_grows p s).bind fun a t _ => rest a t

theorem Binds.before (h : Binds B shaders mayFail (fun _ => True) Q p) : Binds B shaders mayFail ok Q (p >>= f) := by
  intro s
  apply (h s).bind
  intro a t named
  apply (ensures_grows (f a) t).mono
  intro r s' more _ q hq
  obtain ⟨b, hb, here⟩ := named trivial q hq
  exact ⟨b, more hb, here⟩

theorem binds_ite {c : Prop} [Decidable c] {p q : Launch UInt8 α} (hp : c → Binds B shaders mayFail ok Q p)
    (hq : ¬ c → Binds B shaders mayFail ok Q q) : Binds B shaders mayFail ok Q (if c then p else q) := by
  split
  · next h => exact hp h
  · next h => exact hq h

theorem binds_scope {body : Launch UInt8 α} (h : Binds B shaders mayFail ok Q body) :
    Binds B shaders mayFail ok Q (withArenaSync body) := by
  apply Binds.after
  intro _ s
  apply (h s).bind
  intro r t named
  refine ⟨trivial, ?_⟩
  rintro _ t' ⟨-, same⟩ yes
  rw [same.trans (List.append_nil _)]
  exact named yes

theorem binds_resolve {q range : Nat} {upload : Bool} {f : Binding → Launch UInt8 α} {failed : Launch UInt8 α}
    (inside : (contextOf B.arena loaded devBase).contains q = true)
    (h : Binds B shaders mayFail ok Q (f ⟨.arena, q - B.arena.base, some range⟩)) :
    Binds B shaders mayFail ok Q ((contextOf B.arena loaded devBase).resolve q range upload >>= fun bound => bound.elim failed f) := by
  unfold Context.resolve
  rw [if_pos inside]
  exact h

theorem binds_allocate {size : Nat} {f : Nat → Launch UInt8 α} (sure : ¬ mayFail)
    (h : ∀ q, q ≠ 0 → Binds B shaders mayFail ok Q (f q)) : Binds B shaders mayFail ok Q (allocate size 256 >>= f) := by
  intro s
  refine ⟨trivial, ?_⟩
  intro q t step
  exact h q (step.1.2.resolve_right sure) t

theorem ensures_bound {d : Dispatch UInt8} (sure : ¬ mayFail) :
    (dispatch d).Ensures (listing B shaders mayFail) (fun _ s' => d.bindings ⊆ s'.2) s := by
  apply Prog.ensures_op_bind.mpr
  refine ⟨trivial, ?_⟩
  intro (set : Bool) s₁ taken
  have granted : set = true := taken.1.1.resolve_right sure
  rw [if_neg (by simp [granted])]
  refine ⟨trivial, ?_⟩
  intro _ s₂ _
  refine ⟨trivial, ?_⟩
  intro submitted s₃ step
  apply (ensures_grows _ s₃).mono
  intro r s' more
  apply List.Subset.trans _ more
  rw [step.2]
  exact List.subset_append_right _ _

theorem binds_dispatch {d : Dispatch UInt8} (sure : ¬ mayFail) (named : ∀ q ∈ Q, Named B.arena.base d.bindings q) :
    Binds B shaders mayFail (fun _ => True) Q (dispatch d) := by
  intro s
  apply (ensures_bound sure).mono
  intro r s' within _ q hq
  obtain ⟨b, hb, here⟩ := named q hq
  exact ⟨b, within hb, here⟩

/-! ### The primitives -/

/-- The arrays that a call binds: none when there is nothing to do. -/
def Action.arrays {β : Type} : Action β → List Nat
  | reduce _ data count _ _ | scan _ _ data count _ | argminmax _ data count _ _ _ _ => if 1 < count then [data] else []
  | sort _ data count _ _ => if 1 < count % 2 ^ 32 then [data] else []
  | exclusiveScan _ _ _ input output count _ _ | compact _ _ _ _ input output count _ _ _ =>
    if 0 < count then [input, output] else []
  | find _ data count _ _ _ => if 0 < count then [data] else []
  | mismatch _ a b count _ => if 0 < count then [a, b] else []
  | _ => []

/-- What the caller sees of a call that has gone through. -/
def Action.Succeeded {β : Type} : (a : Action β) → a.Res → Prop
  | reduce _ _ _ es _, r => (r : Bool × Option (Fin es → β)).1 = true
  | compact _ _ _ _ _ _ _ _ _ _, r => (r : Bool × Option Nat).1 = true
  | scan _ _ _ _ _, r | exclusiveScan _ _ _ _ _ _ _ _, r => r = true
  | sort _ _ _ _ _, r => r = some true
  | _, _ => True

section
variable {hv : HostValues UInt8} {count es : Nat}

theorem named_one {base q range : Nat} {bound : List Binding} :
    ∀ x ∈ [q], Named base (⟨.arena, q - base, some range⟩ :: bound) x := by
  intro x hx
  rw [List.mem_singleton.mp hx]
  exact ⟨_, List.mem_cons_self, rfl, rfl⟩

theorem named_two {base p q pRange qRange : Nat} {bound : List Binding} :
    ∀ x ∈ [p, q], Named base (⟨.arena, p - base, some pRange⟩ :: ⟨.arena, q - base, some qRange⟩ :: bound) x := by
  intro x hx
  rcases List.mem_pair.mp hx with rfl | rfl
  · exact ⟨_, List.mem_cons_self, rfl, rfl⟩
  · exact ⟨_, List.mem_cons_of_mem _ List.mem_cons_self, rfl, rfl⟩

theorem binds_launchReduce {kernel : String} {data outResult : Nat} {ok : Bool × Option (Fin es → UInt8) → Prop} (sure : ¬ mayFail)
    (found : loaded kernel = true) (inside : (contextOf B.arena loaded devBase).contains data = true) (many : 1 < count) :
    Binds B shaders mayFail ok [data] (launchReduce (contextOf B.arena loaded devBase) kernel data count es outResult) := by
  unfold launchReduce
  apply binds_scope
  rw [if_neg (by simp [contextOf, found]), if_neg (by omega), if_neg (by omega), if_neg (by simp [contextOf])]
  apply binds_allocate sure
  intro scratch0 first
  apply binds_allocate sure
  intro scratch1 second
  rw [if_neg (by simp [first, second]), reduceLevels, if_pos many]
  apply Binds.before
  apply binds_resolve inside
  exact (binds_dispatch sure named_one).before

theorem binds_launchScan {scanKernel addKernel : String} {data : Nat} (sure : ¬ mayFail) (foundScan : loaded scanKernel = true)
    (foundAdd : loaded addKernel = true) (inside : (contextOf B.arena loaded devBase).contains data = true) (many : 1 < count) :
    Binds B shaders mayFail (fun r => r = true) [data]
      (launchScan (contextOf B.arena loaded devBase) scanKernel addKernel data count es) := by
  rw [launchScan]
  apply binds_scope
  rw [if_neg (by simp [contextOf, foundScan, foundAdd]), if_neg (by omega), if_neg (by simp [contextOf])]
  apply binds_resolve inside
  apply binds_allocate sure
  intro blocksums nonnull
  rw [if_neg nonnull]
  exact (binds_dispatch sure named_one).before

theorem binds_launchExclusiveScan {scanKernel addKernel shiftKernel : String} {input output : Nat} {init : Option (List UInt8)}
    (sure : ¬ mayFail) (found : loaded shiftKernel = true) (insideIn : (contextOf B.arena loaded devBase).contains input = true)
    (insideOut : (contextOf B.arena loaded devBase).contains output = true) (some : 0 < count) :
    Binds B shaders mayFail (fun r => r = true) [input, output]
      (launchExclusiveScan (contextOf B.arena loaded devBase) scanKernel addKernel shiftKernel input output count es init) := by
  unfold launchExclusiveScan
  apply binds_scope
  rw [if_neg (by simp [contextOf, found]), if_neg (by omega), if_neg (by simp [contextOf])]
  apply Binds.after
  intro done
  apply binds_ite
  · intro _
    exact binds_pure (by simp)
  intro _
  apply binds_resolve insideIn
  apply binds_resolve insideOut
  exact (binds_dispatch sure named_two).before

theorem binds_launchSort {kernel : String} {data fuel : Nat} (sure : ¬ mayFail) (found : loaded kernel = true)
    (inside : (contextOf B.arena loaded devBase).contains data = true) (many : 1 < count % 2 ^ 32) :
    Binds B shaders mayFail (fun r => r = .some true) [data]
      (launchSort (contextOf B.arena loaded devBase) kernel data count es fuel) := by
  unfold launchSort
  apply binds_scope
  rw [if_neg (by simp [contextOf, found]), if_neg (by omega)]
  apply binds_ite
  · intro _
    exact binds_pure (by simp)
  intro _
  apply binds_resolve inside
  cases fuel with
  | zero =>
    intro s yes
    cases yes
  | succ fuel =>
    dsimp only
    rw [sortOuter, if_pos (by omega), sortInner, if_pos (by decide)]
    apply Binds.before
    apply Binds.before
    exact (binds_dispatch sure named_one).before

theorem binds_launchCompact {flagsKernel scanKernel addKernel scatterKernel : String} {input output : Nat} {isFloat : Bool}
    {outKept : Option Nat} (sure : ¬ mayFail) (foundFlags : loaded flagsKernel = true) (foundScatter : loaded scatterKernel = true)
    (insideIn : (contextOf B.arena loaded devBase).contains input = true)
    (insideOut : (contextOf B.arena loaded devBase).contains output = true) (some : 0 < count) :
    Binds B shaders mayFail (fun r => r.1 = true) [input, output] (launchCompact hv (contextOf B.arena loaded devBase) flagsKernel
      scanKernel addKernel scatterKernel input output count es isFloat outKept) := by
  have failed : ∀ (positions : Nat) (k : Option Nat), Binds B shaders mayFail (fun r => r.1 = true) [input, output]
      (deallocate positions >>= fun _ => (pure (false, k) : Launch UInt8 (Bool × Option Nat))) := fun positions k =>
    Binds.after fun _ => binds_pure Bool.false_ne_true
  unfold launchCompact
  apply binds_scope
  rw [if_neg (by simp [contextOf, foundFlags, foundScatter])]
  apply Binds.after
  intro _
  rw [if_neg (by omega), if_neg (by simp [contextOf])]
  apply binds_resolve insideIn
  apply binds_resolve insideOut
  apply binds_allocate sure
  intro positions nonnull
  rw [if_neg nonnull]
  apply Binds.after
  intro done
  apply binds_ite fun _ => failed _ _
  intro _
  apply Binds.after
  intro done
  apply binds_ite fun _ => failed _ _
  intro _
  apply Binds.after
  intro _
  apply Binds.after
  intro last
  apply Binds.after
  intro _
  exact (binds_dispatch sure named_two).before

theorem binds_launchArgminmax {kernel : String} {data : Nat} {isFloat wantMax wantLast : Bool} {ok : Nat → Prop} (sure : ¬ mayFail)
    (found : loaded kernel = true) (inside : (contextOf B.arena loaded devBase).contains data = true) (many : 1 < count) :
    Binds B shaders mayFail ok [data]
      (launchArgminmax hv (contextOf B.arena loaded devBase) kernel data count es isFloat wantMax wantLast) := by
  unfold launchArgminmax
  apply binds_scope
  rw [if_neg (by simp [contextOf, found]), if_neg (by omega), if_neg (by omega), if_neg (by simp [contextOf])]
  apply binds_resolve inside
  apply binds_allocate sure
  intro vals first
  apply binds_allocate sure
  intro idxs second
  rw [if_neg (by simp [first, second])]
  exact (binds_dispatch sure named_one).before

theorem binds_findFirst {kernel : String} {input : Binding} {other : Option Binding} {push : Push UInt8} {ok : Nat → Prop}
    (sure : ¬ mayFail) (named : ∀ q ∈ Q, Named B.arena.base (input :: other.toList) q) :
    Binds B shaders mayFail ok Q (findFirst hv (contextOf B.arena loaded devBase) kernel input other push count) := by
  unfold findFirst
  apply binds_allocate sure
  intro outi nonnull
  rw [if_neg nonnull]
  apply (binds_dispatch sure ?_).before
  intro q hq
  obtain ⟨b, hb, here⟩ := named q hq
  refine ⟨b, ?_, here⟩
  rcases List.mem_cons.mp hb with rfl | second
  · exact List.mem_cons_self
  · exact List.mem_cons_of_mem _ (List.mem_cons_of_mem _ second)

theorem binds_launchFind {kernel : String} {data : Nat} {negate : Bool} {value : Option (List UInt8)} {ok : Nat → Prop}
    (sure : ¬ mayFail) (found : loaded kernel = true) (inside : (contextOf B.arena loaded devBase).contains data = true)
    (some : 0 < count) : Binds B shaders mayFail ok [data]
      (launchFind hv (contextOf B.arena loaded devBase) kernel data count es negate value) := by
  unfold launchFind
  apply binds_scope
  rw [if_neg (by simp [contextOf, found]), if_neg (by omega), if_neg (by simp [contextOf])]
  apply binds_resolve inside
  exact binds_findFirst sure named_one

theorem binds_launchMismatch {kernel : String} {a b : Nat} {ok : Nat → Prop} (sure : ¬ mayFail) (found : loaded kernel = true)
    (insideA : (contextOf B.arena loaded devBase).contains a = true)
    (insideB : (contextOf B.arena loaded devBase).contains b = true) (some : 0 < count) : Binds B shaders mayFail ok [a, b]
      (launchMismatch hv (contextOf B.arena loaded devBase) kernel a b count es) := by
  unfold launchMismatch
  apply binds_scope
  rw [if_neg (by simp [contextOf, found]), if_neg (by omega), if_neg (by simp [contextOf])]
  apply binds_resolve insideA
  apply binds_resolve insideB
  exact binds_findFirst sure named_two

/-- With its arrays at multiples of the limit, a call binds nothing elsewhere. -/
theorem Action.aligns {limit : Nat} (divides : limit ∣ 256) {a : Action UInt8}
    (near : ∀ q ∈ a.arrays, Near (contextOf B.arena loaded devBase) limit q) :
    Aligns B shaders mayFail limit (a.prog hv (contextOf B.arena loaded devBase)) := by
  cases a with
  | allocate | deallocate | write => exact aligns_op rfl
  | reduce kernel data count es outResult =>
    exact aligns_launchReduce divides fun many => near data (by simpa [arrays] using many)
  | scan scanKernel addKernel data count es =>
    exact aligns_launchScan divides _ _ fun many => near data (by simpa [arrays] using many)
  | exclusiveScan scanKernel addKernel shiftKernel input output count es init =>
    exact aligns_launchExclusiveScan divides (fun some => near input (by simpa [arrays] using some))
      fun some => near output (by simpa [arrays] using some)
  | sort kernel data count es fuel => exact aligns_launchSort fun many => near data (by simpa [arrays] using many)
  | compact flagsKernel scanKernel addKernel scatterKernel input output count es elemIsFloat outKept =>
    exact aligns_launchCompact divides (fun some => near input (by simpa [arrays] using some))
      fun some => near output (by simpa [arrays] using some)
  | argminmax kernel data count es isFloat wantMax wantLast =>
    exact aligns_launchArgminmax divides fun many => near data (by simpa [arrays] using many)
  | find kernel data count es negate value =>
    exact aligns_launchFind divides fun some => near data (by simpa [arrays] using some)
  | mismatch kernel a b count es =>
    exact aligns_launchMismatch divides (fun some => near a (by simpa [arrays] using some))
      fun some => near b (by simpa [arrays] using some)

/-- A call that finds its kernels and goes through has bound its arrays. -/
theorem Action.binds (sure : ¬ mayFail) {a : Action UInt8} (ready : a.Ready (contextOf B.arena loaded devBase)) :
    Binds B shaders mayFail a.Succeeded a.arrays (a.prog hv (contextOf B.arena loaded devBase)) := by
  obtain ⟨found, -, inside⟩ := ready
  cases a with
  | allocate | deallocate | write => exact binds_nothing
  | reduce kernel data count es outResult =>
    exact binds_when fun many => binds_launchReduce sure (found kernel (by simp [kernels])) inside many
  | scan scanKernel addKernel data count es =>
    exact binds_when fun many =>
      binds_launchScan sure (found scanKernel (by simp [kernels])) (found addKernel (by simp [kernels])) inside many
  | exclusiveScan scanKernel addKernel shiftKernel input output count es init =>
    exact binds_when fun some => binds_launchExclusiveScan sure (found shiftKernel (by simp [kernels])) inside.1 inside.2 some
  | sort kernel data count es fuel =>
    exact binds_when fun many => binds_launchSort sure (found kernel (by simp [kernels])) inside many
  | compact flagsKernel scanKernel addKernel scatterKernel input output count es elemIsFloat outKept =>
    exact binds_when fun some => binds_launchCompact sure (found flagsKernel (by simp [kernels]))
      (found scatterKernel (by simp [kernels])) inside.1 inside.2 some
  | argminmax kernel data count es isFloat wantMax wantLast =>
    exact binds_when fun many => binds_launchArgminmax sure (found kernel (by simp [kernels])) inside many
  | find kernel data count es negate value =>
    exact binds_when fun some => binds_launchFind sure (found kernel (by simp [kernels])) inside some
  | mismatch kernel a b count es =>
    exact binds_when fun some => binds_launchMismatch sure (found kernel (by simp [kernels])) inside.1 inside.2 some

end

end Parallax.Launcher
