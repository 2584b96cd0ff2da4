import ParallaxRuntime.Launcher.Session

/-!
# Programs of whole dispatches

A synchronous primitive takes descriptor sets, submits and waits only by whole dispatches. What a dispatch keeps it keeps
through every run, and what is asked of its dispatches is asked of them one by one.
-/

namespace Parallax.Launcher
open Memory Effects

variable {β α γ : Type}

/-- A call that neither takes a descriptor set nor submits nor waits. -/
def Op.Quiet : Op β → Prop
  | allocateDescriptorSet | sync | submit _ => False
  | _ => True

/-- Quiet calls, and dispatches that `ok` holds of. -/
inductive Dispatches (ok : Dispatch β → Prop) : {α : Type} → Launch β α → Prop
  | ret {α : Type} (a : α) : Dispatches ok (Prog.ret a)
  | call {α : Type} (o : Op β) (quiet : o.Quiet) (k : o.Res → Launch β α) (rest : ∀ x, Dispatches ok (k x)) :
      Dispatches ok (Prog.call (S := ops β) o k)
  | whole {α : Type} (d : Dispatch β) (h : ok d) (k : Bool → Launch β α) (rest : ∀ done, Dispatches ok (k done)) :
      Dispatches ok (dispatch d >>= k)

section
variable {ok ok' : Dispatch β → Prop} {p : Launch β γ} {f : γ → Launch β α}

theorem dispatches_pure {a : α} : Dispatches ok (pure a : Launch β α) := .ret a

theorem dispatches_op (o : Op β) (quiet : o.Quiet) : Dispatches ok (Prog.op (S := ops β) o) :=
  .call o quiet _ fun x => .ret x

theorem dispatches_dispatch {d : Dispatch β} (h : ok d) : Dispatches ok (dispatch d) := by
  have same : dispatch d = dispatch d >>= Prog.ret := by
    have right : ∀ q : Launch β Bool, q = q >>= Prog.ret := by
      intro q
      induction q with
      | ret a => rfl
      | call o k ih => exact congrArg (Prog.call o) (funext ih)
    exact right _
  rw [same]
  exact .whole d h _ fun done => .ret done

theorem Dispatches.bind (h : Dispatches ok p) (h' : ∀ a, Dispatches ok (f a)) : Dispatches ok (p >>= f) := by
  induction h with
  | ret a => exact h' a
  | call o quiet k _ ih => exact .call o quiet _ ih
  | whole d h k _ ih =>
    rw [Prog.bind_assoc]
    exact .whole d h _ ih

theorem dispatches_ite {c : Prop} [Decidable c] {p q : Launch β α} (hp : c → Dispatches ok p) (hq : ¬ c → Dispatches ok q) :
    Dispatches ok (if c then p else q) := by
  split
  · next h => exact hp h
  · next h => exact hq h

theorem dispatches_elim {o : Option γ} {q : Launch β α} (none : Dispatches ok q) (some : ∀ a, Dispatches ok (f a)) :
    Dispatches ok (o.elim q f) := by
  cases o with
  | none => exact none
  | some a => exact some a

/-- What quiet calls and dispatches keep, the program keeps. -/
theorem Dispatches.ensures {σ : Type} {H : Handler (ops β) σ} {I : σ → Prop} {p : Launch β α} {s : σ} (h : Dispatches ok p)
    (quiet : ∀ o s, o.Quiet → I s → H.pre o s ∧ ∀ x s', H.step o s x s' → I s')
    (whole : ∀ d s, ok d → I s → (dispatch d).Ensures H (fun _ s' => I s') s) (start : I s) :
    p.Ensures H (fun _ s' => I s') s := by
  induction h generalizing s with
  | ret a => exact start
  | call o silent k _ ih =>
    obtain ⟨pre, step⟩ := quiet o s silent start
    exact ⟨pre, fun x s' moved => ih x (step x s' moved)⟩
  | whole d h k _ ih =>
    apply (whole d s h start).bind
    intro done s' next
    exact ih done next

theorem dispatches_scope {body : Launch β α} (h : Dispatches ok body) : Dispatches ok (withArenaSync body) :=
  (dispatches_op .enter trivial).bind fun _ => h.bind fun _ => (dispatches_op .leave trivial).bind fun _ => dispatches_pure

theorem dispatches_resolve {ctx : Context} {q range : Nat} {upload : Bool} :
    Dispatches ok (ctx.resolve (β := β) q range upload) := by
  unfold Context.resolve
  apply dispatches_ite
  · intro _
    exact dispatches_pure
  · intro _
    apply (dispatches_op (.getBuffer q) trivial).bind
    intro (known : Nat)
    apply Dispatches.bind
    · apply dispatches_ite
      · intro _
        exact (dispatches_op (.registerExternalBuffer q range) trivial).bind fun _ => dispatches_op (.getBuffer q) trivial
      · intro _
        exact dispatches_pure
    · intro (reg : Nat)
      apply dispatches_ite
      · intro _
        exact dispatches_pure
      · intro _
        apply Dispatches.bind
        · exact dispatches_ite (fun _ => dispatches_op (.syncBeforeKernel q) trivial) fun _ => dispatches_pure
        · intro _
          exact dispatches_pure

theorem dispatches_download {ctx : Context} {q : Nat} : Dispatches ok (ctx.download (β := β) q) :=
  dispatches_ite (fun _ => dispatches_op (.syncAfterKernel q) trivial) fun _ => dispatches_pure

end

/-! ### The dispatches of the primitives -/

/-- The lengths that a reduction or a scan comes to, level by level. -/
inductive Level (count : Nat) : Nat → Prop
  | first : Level count count
  | next {n : Nat} (level : Level count n) (more : 1 < n) : Level count (groupsOf n)

theorem Level.under {count n : Nat} (more : 1 < count) (level : Level (groupsOf count) n) : Level count n := by
  induction level with
  | first => exact .next .first more
  | next _ more' ih => exact .next ih more'

/-- One invocation for each of `n` elements, as the code counts them. -/
def Dispatch.For (n : Nat) (d : Dispatch β) : Prop := d.push.count = n % 2 ^ 32 ∧ d.groups = groupsOf n

/-- What each primitive may submit. -/
def Action.Submits : Action β → Dispatch β → Prop
  | .reduce _ _ count _ _, d | .scan _ _ _ count _, d | .exclusiveScan _ _ _ _ _ count _ _, d
  | .compact _ _ _ _ _ _ count _ _ _, d => ∃ n, Level count n ∧ 0 < n ∧ d.For n
  | .argminmax _ _ count _ _ _ _, d | .find _ _ count _ _ _, d | .mismatch _ _ _ count _, d => 0 < count ∧ d.For count
  | .sort _ _ _ _ _, _ => True
  | _, _ => False

section
variable {ctx : Context} {ok : Dispatch β → Prop} {count : Nat}

theorem dispatches_reduceLevels {kernel : String} {es : Nat} {scratch : Bool → Nat} (src n : Nat) (toggle : Bool)
    (levels : ∀ d k, Level n k → 0 < k → d.For k → ok d) :
    Dispatches ok (reduceLevels ctx kernel es scratch src n toggle) := by
  induction n using Nat.strong_induction_on generalizing src toggle with
  | _ n ih =>
    rw [reduceLevels]
    apply dispatches_ite
    · intro more
      apply dispatches_resolve.bind
      intro bound
      apply dispatches_elim dispatches_pure
      intro srcBinding
      apply (dispatches_dispatch (levels _ n .first (by omega) ⟨rfl, rfl⟩)).bind
      intro done
      apply dispatches_ite
      · intro _
        have less := groupsOf_le n
        exact ih _ (by omega) _ _ fun d k level => levels d k (level.under more)
      · intro _
        exact dispatches_pure
    · intro _
      exact dispatches_pure

theorem dispatches_launchReduce [Zero β] {kernel : String} {data es outResult : Nat}
    (levels : ∀ d k, Level count k → 0 < k → d.For k → ok d) :
    Dispatches ok (launchReduce (β := β) ctx kernel data count es outResult) := by
  unfold launchReduce
  apply dispatches_scope
  apply dispatches_ite fun _ => dispatches_pure
  intro _
  apply dispatches_ite
  · intro _
    exact (dispatches_op (.write _ _) trivial).bind fun _ => dispatches_pure
  intro _
  apply dispatches_ite
  · intro _
    exact (dispatches_op (.read _ _) trivial).bind fun _ => (dispatches_op (.write _ _) trivial).bind fun _ => dispatches_pure
  intro _
  apply dispatches_ite fun _ => dispatches_pure
  intro _
  apply (dispatches_op (.allocate _ _) trivial).bind
  intro (scratch0 : Nat)
  apply (dispatches_op (.allocate _ _) trivial).bind
  intro (scratch1 : Nat)
  apply dispatches_ite fun _ => dispatches_pure
  intro _
  apply (dispatches_reduceLevels _ _ _ levels).bind
  intro result
  apply dispatches_elim dispatches_pure
  intro src
  apply (dispatches_op .invalidateFromDevice trivial).bind
  intro _
  apply (dispatches_op (.read _ _) trivial).bind
  intro x
  apply (dispatches_op (.write _ _) trivial).bind
  intro _
  exact (dispatches_op (.deallocate _) trivial).bind fun _ => (dispatches_op (.deallocate _) trivial).bind fun _ =>
    dispatches_pure

theorem dispatches_launchScan {scanKernel addKernel : String} {es : Nat} (data count : Nat)
    (levels : ∀ d k, Level count k → 0 < k → d.For k → ok d) :
    Dispatches ok (launchScan ctx scanKernel addKernel data count es) := by
  induction count using Nat.strong_induction_on generalizing data with
  | _ count ih =>
    rw [launchScan]
    apply dispatches_scope
    apply dispatches_ite fun _ => dispatches_pure
    intro _
    apply dispatches_ite fun _ => dispatches_pure
    intro many
    have pass : ∀ kernel a b, Dispatches ok (dispatchReduceLevel ctx kernel a b count (groupsOf count)) := fun kernel a b =>
      dispatches_dispatch (levels _ count .first (by omega) ⟨rfl, rfl⟩)
    apply dispatches_ite fun _ => dispatches_pure
    intro _
    apply dispatches_resolve.bind
    intro bound
    apply dispatches_elim dispatches_pure
    intro dataBinding
    apply (dispatches_op (.allocate _ _) trivial).bind
    intro (blocksums : Nat)
    apply dispatches_ite fun _ => dispatches_pure
    intro _
    apply (pass _ _ _).bind
    intro done
    apply dispatches_ite fun _ => dispatches_pure
    intro _
    apply Dispatches.bind
    · apply dispatches_ite
      · intro _
        have less := groupsOf_le count
        apply (ih _ (by omega) blocksums fun d k level => levels d k (level.under (by omega))).bind
        intro done
        exact dispatches_ite (fun _ => dispatches_pure) fun _ => pass _ _ _
      · intro _
        exact dispatches_pure
    · intro done
      apply dispatches_ite fun _ => dispatches_pure
      intro _
      exact dispatches_download.bind fun _ => (dispatches_op (.deallocate _) trivial).bind fun _ => dispatches_pure

theorem dispatches_launchExclusiveScan {scanKernel addKernel shiftKernel : String} {input output es : Nat}
    {init : Option (List β)} (levels : ∀ d k, Level count k → 0 < k → d.For k → ok d) :
    Dispatches ok (launchExclusiveScan ctx scanKernel addKernel shiftKernel input output count es init) := by
  unfold launchExclusiveScan
  apply dispatches_scope
  apply dispatches_ite fun _ => dispatches_pure
  intro _
  apply dispatches_ite fun _ => dispatches_pure
  intro some
  apply dispatches_ite fun _ => dispatches_pure
  intro _
  apply Dispatches.bind
  · exact dispatches_ite (fun _ => dispatches_launchScan _ _ levels) fun _ => dispatches_pure
  · intro done
    apply dispatches_ite fun _ => dispatches_pure
    intro _
    apply dispatches_resolve.bind
    intro bound
    apply dispatches_elim dispatches_pure
    intro inBinding
    apply dispatches_resolve.bind
    intro bound
    apply dispatches_elim dispatches_pure
    intro outBinding
    apply (dispatches_dispatch (levels _ count .first (by omega) ⟨rfl, rfl⟩)).bind
    intro done
    apply dispatches_ite fun _ => dispatches_pure
    intro _
    exact dispatches_download.bind fun _ => dispatches_pure

theorem dispatches_sortInner {kernel : String} {data : Binding} {n k groups : Nat} (j : Nat) :
    Dispatches (fun _ => True) (sortInner (β := β) kernel data n k groups j) := by
  induction j using Nat.strong_induction_on with
  | _ j ih =>
    rw [sortInner]
    apply dispatches_ite
    · intro pos
      apply (dispatches_dispatch trivial).bind
      intro done
      exact dispatches_ite (fun _ => ih _ (by omega)) fun _ => dispatches_pure
    · intro _
      exact dispatches_pure

theorem dispatches_sortOuter {kernel : String} {data : Binding} {n groups : Nat} (fuel k : Nat) :
    Dispatches (fun _ => True) (sortOuter (β := β) kernel data n groups fuel k) := by
  induction fuel generalizing k with
  | zero => exact dispatches_pure
  | succ fuel ih =>
    rw [sortOuter]
    apply dispatches_ite
    · intro _
      apply (dispatches_sortInner _).bind
      intro done
      exact dispatches_ite (fun _ => ih _) fun _ => dispatches_pure
    · intro _
      exact dispatches_pure

theorem dispatches_launchSort {kernel : String} {data es fuel : Nat} :
    Dispatches (fun _ => True) (launchSort (β := β) ctx kernel data count es fuel) := by
  unfold launchSort
  apply dispatches_scope
  apply dispatches_ite fun _ => dispatches_pure
  intro _
  apply dispatches_ite fun _ => dispatches_pure
  intro _
  apply dispatches_ite fun _ => dispatches_pure
  intro _
  apply dispatches_resolve.bind
  intro bound
  apply dispatches_elim dispatches_pure
  intro dataBinding
  apply (dispatches_sortOuter _ _).bind
  intro done
  exact dispatches_ite (fun _ => dispatches_download.bind fun _ => dispatches_pure) fun _ => dispatches_pure

theorem dispatches_storeKept {hv : HostValues β} {out : Option Nat} {kept : Nat} : Dispatches ok (storeKept hv out kept) := by
  cases out with
  | none => exact dispatches_pure
  | some p => exact dispatches_op (.write _ _) trivial

theorem dispatches_launchCompact {hv : HostValues β} {flagsKernel scanKernel addKernel scatterKernel : String}
    {input output es : Nat} {elemIsFloat : Bool} {outKept : Option Nat}
    (levels : ∀ d k, Level count k → 0 < k → d.For k → ok d) :
    Dispatches ok (launchCompact hv ctx flagsKernel scanKernel addKernel scatterKernel input output count es elemIsFloat
      outKept) := by
  unfold launchCompact
  apply dispatches_scope
  apply dispatches_ite fun _ => dispatches_pure
  intro _
  apply dispatches_storeKept.bind
  intro _
  apply dispatches_ite fun _ => dispatches_pure
  intro some
  have whole : ∀ d : Dispatch β, d.For count → Dispatches ok (dispatch d) := fun d here =>
    dispatches_dispatch (levels d count .first (by omega) here)
  have freed : ∀ (positions : Nat) (r : Bool × Option Nat),
      Dispatches ok (deallocate positions >>= fun _ => (pure r : Launch β _)) := fun positions r =>
    (dispatches_op (.deallocate positions) trivial).bind fun _ => dispatches_pure
  apply dispatches_ite fun _ => dispatches_pure
  intro _
  apply dispatches_resolve.bind
  intro bound
  apply dispatches_elim dispatches_pure
  intro inBinding
  apply dispatches_resolve.bind
  intro bound
  apply dispatches_elim dispatches_pure
  intro outBinding
  apply (dispatches_op (.allocate _ _) trivial).bind
  intro (positions : Nat)
  apply dispatches_ite fun _ => dispatches_pure
  intro _
  apply (whole _ ⟨rfl, rfl⟩).bind
  intro done
  apply dispatches_ite fun _ => freed _ _
  intro _
  apply (dispatches_launchScan _ _ levels).bind
  intro done
  apply dispatches_ite fun _ => freed _ _
  intro _
  apply (dispatches_op .invalidateFromDevice trivial).bind
  intro _
  apply (dispatches_op (.read _ _) trivial).bind
  intro last
  apply dispatches_storeKept.bind
  intro _
  apply (whole _ ⟨rfl, rfl⟩).bind
  intro done
  apply dispatches_ite fun _ => freed _ _
  intro _
  exact dispatches_download.bind fun _ => freed _ _

theorem dispatches_combineWinners {hv : HostValues β} {vals idxs es : Nat} {isFloat wantMax wantLast : Bool}
    (blocks : List Nat) (bestIdx : Nat) (bestVal : hv.Val) :
    Dispatches ok (combineWinners hv vals idxs count es isFloat wantMax wantLast blocks bestIdx bestVal) := by
  induction blocks generalizing bestIdx bestVal with
  | nil => exact dispatches_pure
  | cons b blocks ih =>
    rw [combineWinners]
    apply (dispatches_op (.read _ _) trivial).bind
    intro word
    apply dispatches_ite fun _ => ih _ _
    intro _
    apply (dispatches_op (.read _ _) trivial).bind
    intro bytes
    exact dispatches_ite (fun _ => ih _ _) fun _ => ih _ _

theorem dispatches_launchArgminmax {hv : HostValues β} {kernel : String} {data es : Nat} {isFloat wantMax wantLast : Bool}
    (here : ∀ d, 0 < count → d.For count → ok d) :
    Dispatches ok (launchArgminmax hv ctx kernel data count es isFloat wantMax wantLast) := by
  unfold launchArgminmax
  apply dispatches_scope
  apply dispatches_ite fun _ => dispatches_pure
  intro _
  apply dispatches_ite fun _ => dispatches_pure
  intro some
  apply dispatches_ite fun _ => dispatches_pure
  intro _
  apply dispatches_ite fun _ => dispatches_pure
  intro _
  apply dispatches_resolve.bind
  intro bound
  apply dispatches_elim dispatches_pure
  intro dataBinding
  apply (dispatches_op (.allocate _ _) trivial).bind
  intro (vals : Nat)
  apply (dispatches_op (.allocate _ _) trivial).bind
  intro (idxs : Nat)
  apply dispatches_ite fun _ => dispatches_pure
  intro _
  apply (dispatches_dispatch (here _ (by omega) ⟨rfl, rfl⟩)).bind
  intro done
  apply dispatches_ite fun _ => dispatches_pure
  intro _
  apply (dispatches_op .invalidateFromDevice trivial).bind
  intro _
  apply (dispatches_combineWinners _ _ _).bind
  intro best
  exact (dispatches_op (.deallocate _) trivial).bind fun _ => (dispatches_op (.deallocate _) trivial).bind fun _ =>
    dispatches_pure

theorem dispatches_leastWinner {hv : HostValues β} {outi : Nat} (blocks : List Nat) (best : Nat) :
    Dispatches ok (leastWinner hv outi blocks best) := by
  induction blocks generalizing best with
  | nil => exact dispatches_pure
  | cons b blocks ih => exact (dispatches_op (.read _ _) trivial).bind fun word => ih _

theorem dispatches_findFirst {hv : HostValues β} {kernel : String} {input : Binding} {other : Option Binding}
    {push : Push β} (pushed : push.count = count % 2 ^ 32) (here : ∀ d : Dispatch β, d.For count → ok d) :
    Dispatches ok (findFirst hv ctx kernel input other push count) := by
  unfold findFirst
  apply (dispatches_op (.allocate _ _) trivial).bind
  intro (outi : Nat)
  apply dispatches_ite fun _ => dispatches_pure
  intro _
  apply (dispatches_dispatch (here _ ⟨pushed, rfl⟩)).bind
  intro done
  apply dispatches_ite fun _ => dispatches_pure
  intro _
  apply (dispatches_op .invalidateFromDevice trivial).bind
  intro _
  apply (dispatches_leastWinner _ _).bind
  intro best
  exact (dispatches_op (.deallocate _) trivial).bind fun _ => dispatches_pure

theorem dispatches_launchFind {hv : HostValues β} {kernel : String} {data es : Nat} {negate : Bool}
    {value : Option (List β)} (here : ∀ d, 0 < count → d.For count → ok d) :
    Dispatches ok (launchFind hv ctx kernel data count es negate value) := by
  unfold launchFind
  apply dispatches_scope
  apply dispatches_ite fun _ => dispatches_pure
  intro _
  apply dispatches_ite fun _ => dispatches_pure
  intro some
  apply dispatches_ite fun _ => dispatches_pure
  intro _
  apply dispatches_resolve.bind
  intro bound
  apply dispatches_elim dispatches_pure
  intro dataBinding
  exact dispatches_findFirst rfl fun d => here d (by omega)

theorem dispatches_launchMismatch {hv : HostValues β} {kernel : String} {a b es : Nat}
    (here : ∀ d, 0 < count → d.For count → ok d) : Dispatches ok (launchMismatch hv ctx kernel a b count es) := by
  unfold launchMismatch
  apply dispatches_scope
  apply dispatches_ite fun _ => dispatches_pure
  intro _
  apply dispatches_ite fun _ => dispatches_pure
  intro some
  apply dispatches_ite fun _ => dispatches_pure
  intro _
  apply dispatches_resolve.bind
  intro bound
  apply dispatches_elim dispatches_pure
  intro aBinding
  apply dispatches_resolve.bind
  intro bound
  apply dispatches_elim dispatches_pure
  intro bBinding
  exact dispatches_findFirst rfl fun d => here d (by omega)

/-- Every primitive works by whole dispatches over its elements. -/
theorem Action.dispatches [Zero β] (hv : HostValues β) (ctx : Context) (a : Action β) : Dispatches a.Submits (a.prog hv ctx) := by
  cases a with
  | allocate size align => exact dispatches_op (.allocate size align) trivial
  | deallocate p => exact dispatches_op (.deallocate p) trivial
  | write p x => exact dispatches_op (.write p x) trivial
  | reduce => exact dispatches_launchReduce fun d k level pos here => ⟨k, level, pos, here⟩
  | scan => exact dispatches_launchScan _ _ fun d k level pos here => ⟨k, level, pos, here⟩
  | exclusiveScan => exact dispatches_launchExclusiveScan fun d k level pos here => ⟨k, level, pos, here⟩
  | sort => exact dispatches_launchSort
  | compact => exact dispatches_launchCompact fun d k level pos here => ⟨k, level, pos, here⟩
  | argminmax => exact dispatches_launchArgminmax fun d pos here => ⟨pos, here⟩
  | find => exact dispatches_launchFind fun d pos here => ⟨pos, here⟩
  | mismatch => exact dispatches_launchMismatch fun d pos here => ⟨pos, here⟩

end
end Parallax.Launcher
