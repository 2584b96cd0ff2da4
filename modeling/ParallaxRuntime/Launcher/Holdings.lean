import ParallaxRuntime.Effects.Simulation
import ParallaxRuntime.Launcher.Machine

/-!
# The scratch that the primitives hold

An operation takes scratch, and steps of it may fail. A failing step is spared if the operation
gives everything back on that path; which steps are spared is told by the number of blocks held.
-/

namespace Parallax.Launcher
open Memory Effects

/-- The live blocks of the arena, and those among them that the operation holds. -/
structure Holdings where
  live : List Nat
  held : Nat
  /-- An allocation of this operation was refused. -/
  refused : Bool
  /-- A buffer outside the arena is being registered. -/
  registering : Bool
  /-- A step failed that is not spared, or scratch was taken after some was refused. -/
  faulted : Bool

namespace Holdings

def fail (spared : List Nat) (s : Holdings) : Holdings := { s with faulted := s.faulted || decide (s.held ∉ spared) }

def refuse (spared : List Nat) (s : Holdings) : Holdings := { s.fail spared with refused := true }

def take (s : Holdings) (p : Nat) : Holdings :=
  { s with live := p :: s.live, held := s.held + 1, faulted := s.faulted || s.refused }

def release (s : Holdings) (p : Nat) : Holdings := { s with live := s.live.erase p, held := s.held - 1 }

def register (s : Holdings) : Holdings := { s with registering := true }

/-- `get_buffer` finds no buffer after a registration that failed. -/
def lookup (spared : List Nat) (s : Holdings) (found : Nat) : Holdings :=
  { (if found = 0 ∧ s.registering = true then s.fail spared else s) with registering := false }

/-- Nothing has been refused, and nothing is being registered. -/
def Calm (s : Holdings) : Prop := s.refused = false ∧ s.registering = false

/-- An operation that ends with `extra` on top of what it began with. -/
structure Residue (s s' : Holdings) (extra : List Nat) : Prop where
  live : s'.live = extra ++ s.live
  apart : ∀ p ∈ extra, p ∉ s.live
  held : s'.held = s.held + extra.length

/-- It has failed: a fault unless the failure is spared and everything was given back. -/
def Failed (spared : List Nat) (s s' : Holdings) : Prop :=
  ∃ extra, Residue s s' extra ∧ s'.faulted = (s.faulted || decide (s.held ∉ spared ∨ extra ≠ []))

section
variable {spared : List Nat} {s s' : Holdings} {extra : List Nat} {p : Nat}

@[simp] theorem fail_live : (s.fail spared).live = s.live := rfl
@[simp] theorem fail_held : (s.fail spared).held = s.held := rfl
@[simp] theorem take_held : (s.take p).held = s.held + 1 := rfl

theorem Calm.take (calm : s.Calm) : (s.take p).Calm := calm

theorem Calm.take_faulted (calm : s.Calm) : (s.take p).faulted = s.faulted := by
  simp [Holdings.take, calm.1]

theorem Calm.release_take (calm : s.Calm) : (s.take p).release p = s := by
  obtain ⟨live, held, refused, registering, faulted⟩ := s
  obtain ⟨rfl, rfl⟩ := calm
  simp [Holdings.take, Holdings.release]

theorem failed_fail : Failed spared s (s.fail spared) :=
  ⟨[], ⟨rfl, by simp, rfl⟩, by simp [fail]⟩

theorem failed_refuse : Failed spared s (s.refuse spared) :=
  ⟨[], ⟨rfl, by simp, rfl⟩, by simp [refuse, fail]⟩

theorem Residue.keep (h : Residue (s.take p) s' extra) (fresh : p ∉ s.live) : Residue s s' (extra ++ [p]) := by
  refine ⟨?_, ?_, ?_⟩
  · rw [h.live, List.append_assoc]
    rfl
  · intro q member
    rcases List.mem_append.mp member with inside | last
    · exact fun live => h.apart q inside (List.mem_cons_of_mem p live)
    · obtain rfl := List.mem_singleton.mp last
      exact fresh
  · rw [h.held, take_held, List.length_append, List.length_singleton, Nat.add_right_comm, Nat.add_assoc]

theorem Residue.release (h : Residue (s.take p) s' extra) : Residue s (s'.release p) extra := by
  have absent : p ∉ extra := fun member => h.apart p member List.mem_cons_self
  refine ⟨?_, ?_, ?_⟩
  · show s'.live.erase p = extra ++ s.live
    rw [h.live, List.erase_append_right _ absent]
    exact congrArg (extra ++ ·) (List.erase_cons_head ..)
  · exact fun q member live => h.apart q member (List.mem_cons_of_mem p live)
  · show s'.held - 1 = s.held + extra.length
    rw [h.held, take_held]
    omega

theorem Failed.keep (h : Failed spared (s.take p) s') (calm : s.Calm) (fresh : p ∉ s.live)
    (lost : s.held + 1 ∉ spared) : Failed spared s s' := by
  obtain ⟨extra, residue, faulted⟩ := h
  refine ⟨extra ++ [p], residue.keep fresh, ?_⟩
  simp [faulted, lost, calm.take_faulted]

theorem Failed.release (h : Failed spared (s.take p) s') (calm : s.Calm) (inner : s.held + 1 ∈ spared)
    (outer : s.held ∈ spared) : Failed spared s (s'.release p) := by
  obtain ⟨extra, residue, faulted⟩ := h
  refine ⟨extra, residue.release, ?_⟩
  show s'.faulted = _
  simp [faulted, inner, outer, calm.take_faulted]

theorem failed_refuse_refuse : Failed spared s ((s.refuse spared).refuse spared) :=
  ⟨[], ⟨rfl, by simp, rfl⟩, by simp [refuse, fail]⟩

theorem failed_refuse_take (fresh : p ∉ s.live) : Failed spared s ((s.refuse spared).take p) := by
  refine ⟨[p], ⟨rfl, ?_, rfl⟩, by simp [refuse, take]⟩
  intro q member
  obtain rfl := List.mem_singleton.mp member
  exact fresh

theorem Calm.failed_take_refuse (calm : s.Calm) (fresh : p ∉ s.live) (lost : s.held + 1 ∉ spared) :
    Failed spared s ((s.take p).refuse spared) := failed_refuse.keep calm fresh lost

theorem Failed.release_pair {q : Nat} (h : Failed spared ((s.take p).take q) s') (calm : s.Calm) (inner : s.held + 2 ∈ spared)
    (outer : s.held ∈ spared) : Failed spared s ((s'.release q).release p) := by
  obtain ⟨extra, residue, faulted⟩ := h
  refine ⟨extra, residue.release.release, ?_⟩
  show s'.faulted = _
  simp [faulted, inner, outer, calm.take.take_faulted, calm.take_faulted]

end

end Holdings

open Holdings

variable {β α γ : Type}

/-- An allocation answers null or a block that is not live. -/
def holdingStep (spared : List Nat) : Step (ops β) Holdings
  | .allocate _ _, s, p, s' =>
    (@Eq Nat p 0 ∧ s' = s.refuse spared) ∨ (@Ne Nat p 0 ∧ p ∉ s.live ∧ s' = s.take p)
  | .deallocate p, s, _, s' => s' = s.release p
  | .allocateDescriptorSet, s, ok, s' | .submit _, s, ok, s' =>
    (@Eq Bool ok true ∧ s' = s) ∨ (@Eq Bool ok false ∧ s' = s.fail spared)
  | .registerExternalBuffer _ _, s, _, s' => s' = s.register
  | .getBuffer _, s, found, s' => s' = s.lookup spared found
  | _, s, _, s' => s' = s

def holding (spared : List Nat) : Handler (ops β) Holdings := ⟨fun _ _ => True, holdingStep spared⟩

/-! ### What each call does to the holdings -/

section
variable {ctx : Context} {spared : List Nat} {s : Holdings} {Q : α → Holdings → Prop}

theorem holds_call {o : Op β} {f : o.Res → Launch β α} (same : ∀ x s', holdingStep spared o s x s' → s' = s)
    (h : ∀ x, (f x).Ensures (holding spared) Q s) : (Prog.op (S := ops β) o >>= f).Ensures (holding spared) Q s := by
  apply Prog.ensures_call trivial
  intro x s' step
  obtain rfl := same x s' step
  exact h x

theorem holds_scope {body : Launch β α} (h : body.Ensures (holding spared) Q s) :
    (withArenaSync body).Ensures (holding spared) Q s := by
  refine holds_call (fun _ _ same => same) fun _ => Prog.ensures_bind.mpr (h.mono fun r s' post => ?_)
  exact holds_call (fun _ _ same => same) fun _ => post

theorem holds_allocate {size align : Nat} {f : Nat → Launch β α}
    (null : (f 0).Ensures (holding spared) Q (s.refuse spared))
    (ok : ∀ p, p ≠ 0 → p ∉ s.live → (f p).Ensures (holding spared) Q (s.take p)) :
    (allocate size align >>= f).Ensures (holding spared) Q s := by
  apply Prog.ensures_call trivial
  intro p s' step
  rcases step with ⟨zero, same⟩ | ⟨nonnull, fresh, same⟩
  · obtain rfl : p = (0 : Nat) := zero
    rw [same]
    exact null
  · rw [same]
    exact ok p nonnull fresh

theorem holds_deallocate {p : Nat} {f : Unit → Launch β α} (h : (f ()).Ensures (holding spared) Q (s.release p)) :
    (deallocate p >>= f).Ensures (holding spared) Q s := by
  apply Prog.ensures_call trivial
  intro _ s' same
  obtain rfl : s' = s.release p := same
  exact h

theorem holds_read {p n : Nat} {f : (Fin n → β) → Launch β α} (h : ∀ x, (f x).Ensures (holding spared) Q s) :
    (read p n >>= f).Ensures (holding spared) Q s := holds_call (fun _ _ same => same) h

theorem holds_write {p : Nat} {x : List β} {f : Unit → Launch β α} (h : (f ()).Ensures (holding spared) Q s) :
    (write p x >>= f).Ensures (holding spared) Q s := holds_call (fun _ _ same => same) fun _ => h

theorem holds_invalidate {f : Unit → Launch β α} (h : (f ()).Ensures (holding spared) Q s) :
    (invalidateFromDevice >>= f).Ensures (holding spared) Q s := holds_call (fun _ _ same => same) fun _ => h

theorem holds_storeKept {hv : HostValues β} {out : Option Nat} {kept : Nat} {f : Unit → Launch β α}
    (h : (f ()).Ensures (holding spared) Q s) : (storeKept hv out kept >>= f).Ensures (holding spared) Q s := by
  cases out with
  | none => exact h
  | some p => exact holds_write h

theorem holds_download {p : Nat} {f : Unit → Launch β α} (h : (f ()).Ensures (holding spared) Q s) :
    (ctx.download p >>= f).Ensures (holding spared) Q s := by
  unfold Context.download
  split
  · exact holds_call (fun _ _ same => same) fun _ => h
  · exact h

theorem dispatch_holds {d : Dispatch β} {Q : Bool → Holdings → Prop} (ok : Q true s) (bad : Q false (s.fail spared)) :
    (dispatch d).Ensures (holding spared) Q s := by
  apply Prog.ensures_call trivial
  intro (set : Bool) s₁ made
  rcases made with ⟨rfl, rfl⟩ | ⟨rfl, rfl⟩
  swap
  · exact bad
  refine holds_call (fun _ _ same => same) fun _ => ⟨trivial, fun (sent : Bool) s₂ done => ?_⟩
  rcases done with ⟨rfl, rfl⟩ | ⟨rfl, rfl⟩
  · exact holds_call (fun _ _ same => same) fun _ => ok
  · exact bad

theorem holds_dispatch {d : Dispatch β} {f : Bool → Launch β α} (ok : (f true).Ensures (holding spared) Q s)
    (bad : (f false).Ensures (holding spared) Q (s.fail spared)) :
    (dispatch d >>= f).Ensures (holding spared) Q s := Prog.ensures_bind.mpr (dispatch_holds ok bad)

theorem Holdings.Calm.lookup (calm : s.Calm) (found : Nat) : s.lookup spared found = s := by
  obtain ⟨live, held, refused, registering, faulted⟩ := s
  obtain ⟨rfl, rfl⟩ := calm
  simp [Holdings.lookup]

theorem Holdings.Calm.lookup_registered (calm : s.Calm) (found : Nat) :
    s.register.lookup spared found = if found = 0 then s.fail spared else s := by
  obtain ⟨live, held, refused, registering, faulted⟩ := s
  obtain ⟨rfl, rfl⟩ := calm
  unfold Holdings.lookup register fail
  by_cases none : found = 0 <;> simp [none]

/-- A pointer outside the arena may have to be registered, which may fail. -/
theorem resolve_holds {p range : Nat} {upload : Bool} (calm : s.Calm) :
    (ctx.resolve p range upload : Launch β _).Ensures (holding spared)
      (fun b s' => b.isSome = true ∧ s' = s ∨ b = none ∧ s' = s.fail spared) s := by
  unfold Context.resolve
  refine Prog.ensures_ite (fun _ => Or.inl ⟨rfl, rfl⟩) fun _ => ?_
  apply Prog.ensures_call trivial
  intro (known : Nat) s₁ same
  obtain rfl : s₁ = s := same.trans (calm.lookup known)
  refine Prog.ensures_bind.mpr (Prog.Ensures.mono
    (Q := fun (reg : Nat) s' => reg ≠ 0 ∧ s' = s₁ ∨ reg = 0 ∧ s' = s₁.fail spared) ?_ fun reg s' found => ?_)
  · refine Prog.ensures_ite (fun _ => ?_) fun known => Or.inl ⟨known, rfl⟩
    apply Prog.ensures_call trivial
    intro _ s₂ same
    obtain rfl : s₂ = s₁.register := same
    apply Prog.ensures_call trivial
    intro (reg : Nat) s₃ same
    have found : s₃ = if reg = 0 then s₁.fail spared else s₁ := same.trans (calm.lookup_registered reg)
    by_cases none : reg = 0
    · exact Or.inr ⟨none, found.trans (if_pos none)⟩
    · exact Or.inl ⟨none, found.trans (if_neg none)⟩
  · rcases found with ⟨nonnull, rfl⟩ | ⟨null, rfl⟩
    · refine Prog.ensures_ite (fun null => absurd null nonnull) fun _ => ?_
      apply Prog.ensures_bind.mpr
      cases upload
      · exact Or.inl ⟨rfl, rfl⟩
      · apply Prog.ensures_call trivial
        intro _ s' same
        exact Or.inl ⟨rfl, same⟩
    · refine Prog.ensures_ite (fun _ => ?_) fun nonnull => absurd null nonnull
      exact Or.inr ⟨rfl, rfl⟩

theorem holds_resolve {p range : Nat} {upload : Bool} {f : Option Binding → Launch β α} (calm : s.Calm)
    (ok : ∀ b, (f (some b)).Ensures (holding spared) Q s)
    (bad : (f none).Ensures (holding spared) Q (s.fail spared)) :
    (ctx.resolve p range upload >>= f).Ensures (holding spared) Q s := by
  apply (resolve_holds calm).bind
  intro b s' found
  rcases found with ⟨found, rfl⟩ | ⟨rfl, rfl⟩
  · obtain ⟨b, rfl⟩ := Option.isSome_iff_exists.mp found
    exact ok b
  · exact bad

/-! ### What the primitives leave -/

theorem reduceLevels_holds {kernel : String} {es : Nat} {scratch : Bool → Nat} (n src : Nat) (toggle : Bool) (calm : s.Calm) :
    (reduceLevels ctx kernel es scratch src n toggle : Launch β _).Ensures (holding spared)
      (fun r s' => r.isSome = true ∧ s' = s ∨ r = none ∧ s' = s.fail spared) s := by
  induction n using Nat.strong_induction_on generalizing src toggle with
  | _ n ih =>
    rw [reduceLevels]
    refine Prog.ensures_ite (fun many => ?_) fun _ => Or.inl ⟨rfl, rfl⟩
    have less := groupsOf_le n
    refine holds_resolve calm (fun b => ?_) <| Or.inr ⟨rfl, rfl⟩
    apply holds_dispatch
    · exact ih _ (by omega) _ _
    · exact Or.inr ⟨rfl, rfl⟩

/-- Blocks above those that the operation holds on entry are not spared. -/
def Above (spared : List Nat) (held : Nat) : Prop := ∀ h, held < h → h ∉ spared

theorem Above.next {held : Nat} (h : Above spared held) : held + 1 ∉ spared := h _ (Nat.lt_succ_self _)

theorem Above.succ {held : Nat} (h : Above spared held) : Above spared (held + 1) := fun _ lt => h _ (by omega)

/-- Two blocks asked for together: the second request is made even if the first was refused. -/
theorem holds_pair {size align size' align' : Nat} {f : Nat → Nat → Launch β α} {r : α} (calm : s.Calm)
    (above : Above spared s.held) (none : ∀ {p q}, p = 0 ∨ q = 0 → f p q = pure r) (settled : ∀ s', Failed spared s s' → Q r s')
    (both : ∀ p q, p ≠ 0 → q ≠ 0 → (((s.take p).take q).release p).release q = s →
      (∀ s', Failed spared ((s.take p).take q) s' → Failed spared s s') →
      (f p q).Ensures (holding spared) Q ((s.take p).take q)) :
    (allocate size align >>= fun p => allocate size' align' >>= fun q => f p q).Ensures (holding spared) Q s := by
  apply holds_allocate
  · apply holds_allocate
    · rw [none (Or.inl rfl)]
      exact settled _ failed_refuse_refuse
    · intro q _ fresh
      rw [none (Or.inl rfl)]
      exact settled _ (failed_refuse_take fresh)
  intro p nonnull fresh
  apply holds_allocate
  · rw [none (Or.inr rfl)]
    exact settled _ (calm.failed_take_refuse fresh above.next)
  intro q nonnull' fresh'
  apply both p q nonnull nonnull'
  · have apart : q ≠ p := fun same => fresh' (same ▸ List.mem_cons_self)
    have swap : ((s.take p).take q).release p = s.take q := by
      simp [take, release, calm.1, apart]
    rw [swap, calm.release_take]
  · exact fun s' failed => (failed.keep calm.take fresh' above.succ.next).keep calm fresh above.next

theorem launchReduce_holds [Zero β] {kernel : String} {data count es outResult : Nat} (calm : s.Calm)
    (above : Above spared s.held) : (launchReduce (β := β) ctx kernel data count es outResult).Ensures (holding spared)
      (fun _ s' => s' = s ∨ Failed spared s s') s := by
  unfold launchReduce
  apply holds_scope
  refine Prog.ensures_ite (fun _ => Or.inl rfl) fun _ => Prog.ensures_ite (fun _ => ?_) fun _ =>
    Prog.ensures_ite (fun _ => ?_) fun _ => Prog.ensures_ite (fun _ => Or.inl rfl) fun _ => ?_
  · exact holds_write (Or.inl rfl)
  · exact holds_read fun x => holds_write (Or.inl rfl)
  apply holds_pair calm above
  · exact fun missing => if_pos missing
  · exact fun s' failed => Or.inr failed
  intro p q nonnull nonnull' returned lost
  rw [if_neg (not_or.mpr ⟨nonnull, nonnull'⟩)]
  apply (reduceLevels_holds (s := (s.take p).take q) _ _ _ calm).bind
  intro r s' post
  rcases post with ⟨found, rfl⟩ | ⟨rfl, rfl⟩
  · obtain ⟨src, rfl⟩ := Option.isSome_iff_exists.mp found
    exact holds_invalidate <| holds_read fun x => holds_write <| holds_deallocate <| holds_deallocate (Or.inl returned)
  · exact Or.inr (lost _ failed_fail)

theorem launchScan_holds {scanKernel addKernel : String} {es : Nat} (data count : Nat) {s : Holdings} (calm : s.Calm)
    (above : Above spared s.held) : (launchScan (β := β) ctx scanKernel addKernel data count es).Ensures (holding spared)
      (fun r s' => r = true ∧ s' = s ∨ r = false ∧ (Failed spared s s' ∨ s' = s ∧
        (ctx.loaded scanKernel = false ∨ ctx.loaded addKernel = false ∨ ctx.arenaValid = false))) s := by
  induction count using Nat.strong_induction_on generalizing data s with
  | _ count ih =>
    rw [launchScan]
    apply holds_scope
    refine Prog.ensures_ite (fun missing => Or.inr ⟨rfl, Or.inr ⟨rfl, ?_⟩⟩) fun loaded => Prog.ensures_ite (fun _ => Or.inl ⟨rfl, rfl⟩)
      fun many => Prog.ensures_ite (fun off => Or.inr ⟨rfl, Or.inr ⟨rfl, Or.inr (Or.inr off)⟩⟩) fun valid => ?_
    · exact missing.imp_right Or.inl
    have less := groupsOf_le count
    refine holds_resolve calm (fun b => ?_) <| Or.inr ⟨rfl, Or.inl failed_fail⟩
    apply holds_allocate
    · exact Or.inr ⟨rfl, Or.inl failed_refuse⟩
    intro p nonnull fresh
    rw [if_neg nonnull]
    have lost : ∀ {s'}, Failed spared (s.take p) s' → Failed spared s s' := fun h => h.keep calm fresh above.next
    apply holds_dispatch
    swap
    · exact Or.inr ⟨rfl, Or.inl (lost failed_fail)⟩
    refine Prog.ensures_bind.mpr (Prog.Ensures.mono
      (Q := fun ok s' => ok = true ∧ s' = s.take p ∨ ok = false ∧ Failed spared (s.take p) s') ?_ fun ok s' post => ?_)
    · refine Prog.ensures_ite (fun _ => ?_) fun _ => Or.inl ⟨rfl, rfl⟩
      apply (ih _ (by omega) p calm.take above.succ).bind
      intro ok s' post
      rcases post with ⟨rfl, rfl⟩ | ⟨rfl, failed | ⟨-, no⟩⟩
      · exact dispatch_holds (Or.inl ⟨rfl, rfl⟩) (Or.inr ⟨rfl, failed_fail⟩)
      · exact Or.inr ⟨rfl, failed⟩
      · rcases no with no | no | no
        · exact absurd (Or.inl no) loaded
        · exact absurd (Or.inr no) loaded
        · exact absurd no valid
    · rcases post with ⟨rfl, rfl⟩ | ⟨rfl, failed⟩
      · refine holds_download <| holds_deallocate (Or.inl ⟨rfl, ?_⟩)
        exact calm.release_take
      · exact Or.inr ⟨rfl, Or.inl (lost failed)⟩

theorem launchExclusiveScan_holds {scanKernel addKernel shiftKernel : String} {input output count es : Nat}
    {init : Option (List β)} (calm : s.Calm) (above : Above spared s.held) :
    (launchExclusiveScan ctx scanKernel addKernel shiftKernel input output count es init).Ensures (holding spared)
      (fun _ s' => s' = s ∨ Failed spared s s') s := by
  unfold launchExclusiveScan
  apply holds_scope
  refine Prog.ensures_ite (fun _ => Or.inl rfl) fun _ => Prog.ensures_ite (fun _ => Or.inl rfl) fun _ =>
    Prog.ensures_ite (fun _ => Or.inl rfl) fun _ => ?_
  refine Prog.ensures_bind.mpr (Prog.Ensures.mono
    (Q := fun ok s' => s' = s ∨ ok = false ∧ Failed spared s s') ?_ fun ok s' post => ?_)
  · refine Prog.ensures_ite (fun _ => ?_) fun _ => Or.inl rfl
    refine (launchScan_holds _ _ calm above).mono fun ok s' post => ?_
    rcases post with ⟨-, same⟩ | ⟨off, failed | ⟨same, -⟩⟩
    · exact Or.inl same
    · exact Or.inr ⟨off, failed⟩
    · exact Or.inl same
  · rcases post with rfl | ⟨rfl, failed⟩
    swap
    · exact Or.inr failed
    refine Prog.ensures_ite (fun _ => Or.inl rfl) fun _ => ?_
    refine holds_resolve calm (fun b => holds_resolve calm (fun b' => ?_) ?_) ?_
    · apply holds_dispatch
      · exact holds_download (Or.inl rfl)
      · exact Or.inr failed_fail
    · exact Or.inr failed_fail
    · exact Or.inr failed_fail

/-- `positions` are given back on every path. -/
theorem launchCompact_holds {hv : HostValues β} {flagsKernel scanKernel addKernel scatterKernel : String}
    {input output count es : Nat} {elemIsFloat : Bool} {outKept : Option Nat} (calm : s.Calm) (outer : s.held ∈ spared)
    (inner : s.held + 1 ∈ spared) (above : Above spared (s.held + 1)) :
    (launchCompact hv ctx flagsKernel scanKernel addKernel scatterKernel input output count es elemIsFloat outKept).Ensures
      (holding spared) (fun _ s' => s' = s ∨ Failed spared s s') s := by
  unfold launchCompact
  apply holds_scope
  refine Prog.ensures_ite (fun _ => Or.inl rfl) fun _ => holds_storeKept ?_
  refine Prog.ensures_ite (fun _ => Or.inl rfl) fun _ => Prog.ensures_ite (fun _ => Or.inl rfl) fun _ => ?_
  refine holds_resolve calm (fun b => holds_resolve calm (fun b' => ?_) ?_) ?_
  · apply holds_allocate
    · exact Or.inr failed_refuse
    intro p nonnull fresh
    rw [if_neg nonnull]
    have dropped : ∀ {s'}, Failed spared (s.take p) s' → Failed spared s (s'.release p) := fun h => h.release calm inner outer
    apply holds_dispatch
    swap
    · exact holds_deallocate (Or.inr (dropped failed_fail))
    apply (launchScan_holds p count calm.take above).bind
    intro ok s' post
    rcases post with ⟨rfl, rfl⟩ | ⟨rfl, failed | ⟨rfl, -⟩⟩
    · refine holds_invalidate <| holds_read fun last => holds_storeKept ?_
      apply holds_dispatch
      · exact holds_download <| holds_deallocate (Or.inl calm.release_take)
      · exact holds_deallocate (Or.inr (dropped failed_fail))
    · exact holds_deallocate (Or.inr (dropped failed))
    · exact holds_deallocate (Or.inl calm.release_take)
  · exact Or.inr failed_fail
  · exact Or.inr failed_fail

theorem combineWinners_holds {hv : HostValues β} {vals idxs count es : Nat} {isFloat wantMax wantLast : Bool}
    (blocks : List Nat) (bestIdx : Nat) (bestVal : hv.Val) :
    (combineWinners hv vals idxs count es isFloat wantMax wantLast blocks bestIdx bestVal).Ensures (holding spared)
      (fun _ s' => s' = s) s := by
  induction blocks generalizing bestIdx bestVal with
  | nil => exact rfl
  | cons b blocks ih =>
    rw [combineWinners]
    refine holds_read fun word => Prog.ensures_ite (fun _ => ih _ _) fun _ => holds_read fun bytes => ?_
    exact Prog.ensures_ite (fun _ => ih _ _) fun _ => ih _ _

theorem launchArgminmax_holds {hv : HostValues β} {kernel : String} {data count es : Nat} {isFloat wantMax wantLast : Bool}
    (calm : s.Calm) (above : Above spared s.held) :
    (launchArgminmax hv ctx kernel data count es isFloat wantMax wantLast).Ensures (holding spared)
      (fun _ s' => s' = s ∨ Failed spared s s') s := by
  unfold launchArgminmax
  apply holds_scope
  refine Prog.ensures_ite (fun _ => Or.inl rfl) fun _ => Prog.ensures_ite (fun _ => Or.inl rfl) fun _ =>
    Prog.ensures_ite (fun _ => Or.inl rfl) fun _ => Prog.ensures_ite (fun _ => Or.inl rfl) fun _ => ?_
  refine holds_resolve calm (fun b => ?_) <| Or.inr failed_fail
  apply holds_pair calm above
  · exact fun missing => if_pos missing
  · exact fun s' failed => Or.inr failed
  intro vals idxs nonnull nonnull' returned lost
  rw [if_neg (not_or.mpr ⟨nonnull, nonnull'⟩)]
  apply holds_dispatch
  · refine holds_invalidate <| Prog.ensures_bind.mpr ((combineWinners_holds _ _ _).mono fun best s' same => ?_)
    subst same
    exact holds_deallocate <| holds_deallocate (Or.inl returned)
  · exact Or.inr (lost _ failed_fail)

theorem leastWinner_holds {hv : HostValues β} {outi : Nat} (blocks : List Nat) (best : Nat) :
    (leastWinner hv outi blocks best).Ensures (holding spared) (fun _ s' => s' = s) s := by
  induction blocks generalizing best with
  | nil => exact rfl
  | cons b blocks ih => exact holds_read fun word => ih _

theorem findFirst_holds {hv : HostValues β} {kernel : String} {input : Binding} {other : Option Binding} {push : Push β}
    {count : Nat} (calm : s.Calm) (above : Above spared s.held) :
    (findFirst hv ctx kernel input other push count).Ensures (holding spared) (fun _ s' => s' = s ∨ Failed spared s s') s := by
  unfold findFirst
  apply holds_allocate
  · exact Or.inr failed_refuse
  intro p nonnull fresh
  rw [if_neg nonnull]
  apply holds_dispatch
  · refine holds_invalidate <| Prog.ensures_bind.mpr ((leastWinner_holds _ _).mono fun best s' same => ?_)
    subst same
    exact holds_deallocate (Or.inl calm.release_take)
  · exact Or.inr (failed_fail.keep calm fresh above.next)

theorem launchFind_holds {hv : HostValues β} {kernel : String} {data count es : Nat} {negate : Bool}
    {value : Option (List β)} (calm : s.Calm) (above : Above spared s.held) :
    (launchFind hv ctx kernel data count es negate value).Ensures (holding spared)
      (fun _ s' => s' = s ∨ Failed spared s s') s := by
  unfold launchFind
  apply holds_scope
  refine Prog.ensures_ite (fun _ => Or.inl rfl) fun _ => Prog.ensures_ite (fun _ => Or.inl rfl) fun _ =>
    Prog.ensures_ite (fun _ => Or.inl rfl) fun _ => ?_
  exact holds_resolve calm (fun b => findFirst_holds calm above) (Or.inr failed_fail)

theorem launchMismatch_holds {hv : HostValues β} {kernel : String} {a b count es : Nat} (calm : s.Calm)
    (above : Above spared s.held) : (launchMismatch hv ctx kernel a b count es).Ensures (holding spared)
      (fun _ s' => s' = s ∨ Failed spared s s') s := by
  unfold launchMismatch
  apply holds_scope
  refine Prog.ensures_ite (fun _ => Or.inl rfl) fun _ => Prog.ensures_ite (fun _ => Or.inl rfl) fun _ =>
    Prog.ensures_ite (fun _ => Or.inl rfl) fun _ => ?_
  refine holds_resolve calm (fun b => ?_) <| Or.inr failed_fail
  exact holds_resolve calm (fun b' => findFirst_holds calm above) (Or.inr failed_fail)

end

/-! ### The blocks of an arena are such holdings -/

section
open Arena
variable {A : ArenaModel β} {shaders : String → Shader β} {check : Dispatch β → A.State → Prop} {spared : List Nat}
  {g : Holdings} {s s' : A.State}

/-- The live blocks of the arena. -/
structure Tracks (A : ArenaModel β) (g : Holdings) (s : A.State) : Prop where
  valid : A.Valid s
  live : g.live = (A.live s).map Prod.fst

/-- Kernels write live blocks only. -/
def Tame (A : ArenaModel β) (shaders : String → Shader β) (check : Dispatch β → A.State → Prop) : Prop :=
  ∀ d s m, (machine A shaders True check).pre (Op.submit d) s → (shaders d.kernel).run A.base d (A.mem s) m →
    ∀ a, ¬ LiveByte (A.live s) a → m a = A.mem s a

theorem map_released {L : List (Nat × Nat)} (distinct : L.Pairwise fun b b' => b.1 ≠ b'.1) (p : Nat) :
    (released L p).map Prod.fst = (L.map Prod.fst).erase p := by
  have nodup : (L.map Prod.fst).Nodup := List.pairwise_map.mpr distinct
  rw [nodup.erase_eq_filter, List.filter_map]
  refine congrArg (List.map Prod.fst) (List.filter_congr fun b _ => ?_)
  by_cases same : b.1 = p <;> simp [same]

theorem Tracks.of_live (h : Tracks A g s) {g' : Holdings} (valid : A.Valid s') (live : A.live s' = A.live s)
    (same : g'.live = g.live) : Tracks A g' s' := ⟨valid, by rw [same, h.live, live]⟩

theorem Tracks.step (h : Tracks A g s) (tame : Tame A shaders check) {o : Op β} {x : o.Res}
    (pre : (machine A shaders True check).pre o s) (step : machineStep A shaders True o s x s') :
    ∃ g', holdingStep spared o g x g' ∧ Tracks A g' s' := by
  cases o with
  | allocate size align =>
    obtain ⟨valid, small, rfl⟩ := pre
    obtain ⟨valid', -, result⟩ := A.allocate_spec valid small step.1
    rcases result with ⟨zero, live⟩ | ⟨nonnull, n, -, live⟩
    · exact ⟨g.refuse spared, Or.inl ⟨zero, rfl⟩, h.of_live valid' live rfl⟩
    · have fresh : x ∉ g.live := by
        rw [h.live]
        intro member
        obtain ⟨b, old, same⟩ := List.mem_map.mp member
        exact A.head_fresh valid' live b old same
      exact ⟨g.take x, Or.inr ⟨nonnull, fresh, rfl⟩, valid', by rw [live, List.map_cons, ← h.live]; rfl⟩
  | deallocate p =>
    obtain ⟨valid, n, member⟩ := pre
    obtain ⟨valid', live, -⟩ := A.free_spec valid member step
    refine ⟨g.release p, rfl, valid', ?_⟩
    rw [live, map_released ((A.disjoint valid).imp And.right), ← h.live]
    rfl
  | allocateDescriptorSet =>
    obtain ⟨-, rfl⟩ := step
    cases x with
    | true => exact ⟨g, Or.inl ⟨rfl, rfl⟩, h⟩
    | false => exact ⟨g.fail spared, Or.inr ⟨rfl, rfl⟩, h.of_live h.valid rfl rfl⟩
  | submit d =>
    rcases step with ⟨done, m, run, rfl⟩ | ⟨lost, -, rfl⟩
    · obtain ⟨valid', live, -⟩ := A.write_spec pre.1 fun a own => tame d s m pre run a fun live => own live.usable
      exact ⟨g, Or.inl ⟨done, rfl⟩, h.of_live valid' live rfl⟩
    · exact ⟨g.fail spared, Or.inr ⟨lost, rfl⟩, h.of_live h.valid rfl rfl⟩
  | read p n =>
    obtain ⟨-, rfl⟩ := step
    exact ⟨g, rfl, h⟩
  | write p x =>
    obtain ⟨owned, rfl⟩ := step
    obtain ⟨valid', live, -⟩ := put_spec pre.1 owned
    exact ⟨g, rfl, h.of_live valid' live rfl⟩
  | enter | leave | invalidateFromDevice | sync =>
    obtain rfl : s' = s := step
    exact ⟨g, rfl, h⟩
  | getBuffer | registerExternalBuffer | syncBeforeKernel | syncAfterKernel => exact pre.elim

theorem Tracks.run (h : Tracks A g s) (tame : Tame A shaders check) {p : Launch β α} {Q : α → A.State → Prop}
    (safe : p.Ensures (machine A shaders True check) Q s) {r : α} (run : p.Run (machineStep A shaders True) s r s') :
    ∃ g', p.Run (holdingStep spared) g r g' ∧ Tracks A g' s' := by
  have any : p.Ensures (holding spared) (fun _ _ => True) g := by
    clear run safe h
    induction p generalizing g with
    | ret a => exact trivial
    | call o k ih => exact ⟨trivial, fun x g' _ => ih x⟩
  have lift : ∀ o (t : A.State) (g : Holdings) (s : A.State) x s', (machine A shaders True check).pre o t →
      (holding spared).pre o g → t = s ∧ Tracks A g s → machineStep A shaders True o s x s' →
      ∃ t' g', machineStep A shaders True o t x t' ∧ holdingStep spared o g x g' ∧ t' = s' ∧ Tracks A g' s' := by
    rintro o t g s x s' pre - ⟨rfl, tracks⟩ step
    obtain ⟨g', moved, tracks'⟩ := tracks.step tame pre step
    exact ⟨s', g', step, moved, rfl, tracks'⟩
  obtain ⟨-, g', -, run', -, tracks⟩ := safe.simulate lift any ⟨rfl, h⟩ run
  exact ⟨g', run', tracks⟩

end

end Parallax.Launcher
