import ParallaxRuntime.Effects.Trace
import ParallaxRuntime.Elementwise.DescriptorPool
import ParallaxRuntime.Launcher.Argminmax
import ParallaxRuntime.Launcher.BoundArrays
import ParallaxRuntime.Pool.Realloc

/-!
# Descriptor offsets over whole runs

Storage buffers in the arena are bound at the offset of the caller's pointer. No operation looks at the alignment
that the device asks for.
-/

namespace Parallax.Elementwise
open Memory Launcher Effects Arena

/-! ### Element-wise calls -/

section
variable {β : Type}

/-- The storage buffers of a set. -/
def DescriptorSet.bindings (set : DescriptorSet β) : List Binding := set.binding0.toList ++ set.binding1.toList

/-- The dispatch that a call records, which the queue may refuse. -/
def Call.recorded (ctx : Context) (o : Outcome) (l : KernelLauncher β) (c : Call β) : Option (Executed β) :=
  (perform ctx { o with submits := true } l c).2

def Call.bound (ctx : Context) (o : Outcome) (l : KernelLauncher β) (c : Call β) : List Binding :=
  (c.recorded ctx o l).elim [] fun e => e.set.bindings

/-- The arrays whose descriptors a call writes. A cached set is only written by `launch`. -/
def Call.arrays (l : KernelLauncher β) : Call β → List Nat
  | .launch _ buffer _ _ => [buffer]
  | .launchWithCaptures kernel buffer _ _ _ => if (l.cache (kernel, buffer)).isSome then [] else [buffer]
  | .launchTransform kernel input output _ _ _ captures =>
    if captures = [] ∧ (l.cache (kernel, output)).isSome then [] else [input, output]

/-- A set whose storage buffers all lie at multiples of the limit. -/
def Legal (limit : Nat) (set : DescriptorSet β) : Prop := ∀ b ∈ set.bindings, limit ∣ b.offset

/-- And so do those of the cached sets. -/
def CacheLegal (limit : Nat) (l : KernelLauncher β) : Prop := ∀ key set, l.cache key = some set → Legal limit set

/-- A call that leaves the cache legal and has recorded a legal set, if any. -/
def Keeps (limit : Nat) (r : KernelLauncher β × Option (Executed β)) : Prop := CacheLegal limit r.1 ∧ ∀ e ∈ r.2, Legal limit e.set

variable {ctx : Context} {o : Outcome} {l : KernelLauncher β} {limit : Nat} {kernel : String} {count : Nat} {set : DescriptorSet β}

theorem legal_iff : Legal limit set ↔ (∀ b ∈ set.binding0, limit ∣ b.offset) ∧ ∀ b ∈ set.binding1, limit ∣ b.offset := by
  simp [Legal, DescriptorSet.bindings, or_imp, forall_and]

theorem keeps_none (cached : CacheLegal limit l) : Keeps limit (l, none) := by
  refine ⟨cached, ?_⟩
  intro e found
  cases found

theorem keeps_ite {c : Prop} [Decidable c] {r r' : KernelLauncher β × Option (Executed β)} (hr : Keeps limit r) (hr' : Keeps limit r') :
    Keeps limit (if c then r else r') := by
  split
  · exact hr
  · exact hr'

theorem keeps_elim {α : Type} {x : Option α} {r : KernelLauncher β × Option (Executed β)}
    {f : α → KernelLauncher β × Option (Executed β)} (none : x = .none → Keeps limit r)
    (some : ∀ a, x = .some a → Keeps limit (f a)) : Keeps limit (x.elim r f) := by
  cases x with
  | none => exact none rfl
  | some a => exact some a rfl

theorem submit_keeps (cached : CacheLegal limit l) (legal : Legal limit set) : Keeps limit (submit ctx o l kernel set count) := by
  apply keeps_ite (keeps_none cached)
  refine ⟨cached, ?_⟩
  rintro e ⟨⟩
  exact legal

theorem cacheLegal_update {key : String × Nat} (cached : CacheLegal limit l) (legal : Legal limit set) {l' : KernelLauncher β}
    (written : l'.cache = Function.update l.cache key (some set)) : CacheLegal limit l' := by
  intro key' set' found
  rw [written] at found
  by_cases same : key' = key
  · subst same
    rw [Function.update_self] at found
    cases found
    exact legal
  · rw [Function.update_of_ne same] at found
    exact cached key' set' found

theorem submitNew_keeps {key : Option (String × Nat)} (cached : CacheLegal limit l) (legal : Legal limit set) :
    Keeps limit (submitNew ctx o l key kernel set count) := by
  apply keeps_ite (keeps_none cached)
  apply submit_keeps _ legal
  cases key with
  | none => exact cached
  | some key => exact cacheLegal_update cached legal rfl

theorem resolve_near {m : MemoryManager β} {p range : Nat} {b : BufferRef × Nat} (near : Near ctx limit p)
    (found : (resolve ctx o m p range).2 = some b) : limit ∣ b.2 := by
  unfold resolve at found
  split at found
  · next inside =>
    cases found
    exact near inside
  · obtain ⟨_, -, rfl⟩ := Option.map_eq_some_iff.mp found
    exact Nat.dvd_zero limit

theorem perform_keeps {c : Call β} (cached : CacheLegal limit l) (near : ∀ q ∈ c.arrays l, Near ctx limit q) :
    Keeps limit (perform ctx o l c) := by
  have still : ∀ m, CacheLegal limit { l with manager := m } := fun _ => cached
  cases c with
  | launch kernel buffer count es =>
    apply keeps_ite (keeps_none cached)
    apply keeps_elim fun _ => keeps_none (still _)
    intro b found
    have low := resolve_near (near buffer (by simp [Call.arrays])) found
    apply keeps_elim
    · intro _
      exact submitNew_keeps (still _) (by simp [legal_iff, low])
    · intro set known
      have old := (legal_iff.mp (cached _ _ known)).2
      have legal : Legal (β := β) limit { set with binding0 := some ⟨b.1, b.2, some (wmul count es)⟩, uniform := capturesBlock [] } := by
        rw [legal_iff]
        exact ⟨by simp [low], old⟩
      exact submit_keeps (cacheLegal_update (still _) legal rfl) legal
  | launchWithCaptures kernel buffer count captures es =>
    apply keeps_ite (keeps_none cached)
    apply keeps_elim fun _ => keeps_none (still _)
    intro b found
    apply keeps_elim
    · intro (unknown : l.cache (kernel, buffer) = none)
      have low := resolve_near (near buffer (by simp [Call.arrays, unknown])) found
      exact submitNew_keeps (still _) (by simp [legal_iff, low])
    · intro set known
      exact submit_keeps (still _) (cached _ _ known)
  | launchTransform kernel input output count es outEs captures =>
    apply keeps_ite (keeps_none cached)
    apply keeps_elim fun _ => keeps_none (still _)
    intro b found
    apply keeps_elim fun _ => keeps_none (still _)
    intro b' found'
    have new : ¬ (captures = [] ∧ (l.cache (kernel, output)).isSome) → Legal limit (β := β)
        ⟨some ⟨b.1, b.2, wholeIfZero (wmul count es)⟩, some ⟨b'.1, b'.2, wholeIfZero (wmul count (outElemSize es outEs))⟩,
          capturesBlock captures⟩ := by
      intro writes
      have low := resolve_near (near input (by simp [Call.arrays, writes])) found
      have low' := resolve_near (near output (by simp [Call.arrays, writes])) found'
      simp [legal_iff, low, low']
    dsimp only
    split
    · next capturing => exact submitNew_keeps (still _) (new fun no => capturing no.1)
    · apply keeps_elim
      · intro (unknown : l.cache (kernel, output) = none)
        exact submitNew_keeps (still _) (new (by simp [unknown]))
      · intro set known
        exact submit_keeps (still _) (cached _ _ known)

theorem offset_of_resolve {m : MemoryManager β} {p range : Nat} {b : BufferRef × Nat} (inside : ctx.contains p = true)
    (found : (resolve ctx o m p range).2 = some b) : b = (.arena, ctx.offsetOf p) := by
  unfold resolve at found
  rw [if_pos inside] at found
  cases found
  rfl

/-- A call that writes a legal set was given arrays at multiples of the limit. -/
theorem near_of_executed {c : Call β} {l' : KernelLauncher β} {e : Executed β} (h : perform ctx o l c = (l', some e))
    (legal : Legal limit e.set) : ∀ q ∈ c.arrays l, Near ctx limit q := by
  obtain ⟨first, second⟩ := legal_iff.mp legal
  cases c with
  | launch kernel buffer count es =>
    obtain ⟨b, found, binding, -⟩ := launch_executed h
    intro q hq inside
    obtain rfl : q = buffer := List.mem_singleton.mp hq
    obtain rfl := offset_of_resolve inside found
    exact first _ binding
  | launchWithCaptures kernel buffer count captures es =>
    obtain ⟨b, found, -, ⟨known, -⟩ | ⟨unknown, set, -⟩⟩ := launchWithCaptures_executed h
    · simp [Call.arrays, known]
    · rw [set] at first
      intro q hq inside
      obtain rfl : q = buffer := by simpa [Call.arrays, unknown] using hq
      obtain rfl := offset_of_resolve inside found
      exact first _ rfl
  | launchTransform kernel input output count es outEs captures =>
    obtain ⟨b, b', found, found', -, ⟨capturing, known, -⟩ | ⟨unknown, set, -⟩⟩ := launchTransform_executed h
    · simp [Call.arrays, capturing, known]
    · rw [set] at first second
      have writes : ¬ (captures = [] ∧ (l.cache (kernel, output)).isSome) := by
        rintro ⟨capturing, known⟩
        rw [unknown capturing] at known
        cases known
      intro q hq inside
      rw [Call.arrays, if_neg writes] at hq
      rcases List.mem_pair.mp hq with rfl | rfl
      · obtain rfl := offset_of_resolve inside found
        exact first _ rfl
      · obtain rfl := offset_of_resolve inside found'
        exact second _ rfl

theorem bound_near {c : Call β} (cached : CacheLegal limit l) (near : ∀ q ∈ c.arrays l, Near ctx limit q) :
    ∀ b ∈ c.bound ctx o l, limit ∣ b.offset := by
  have kept := (perform_keeps (o := { o with submits := true }) cached near).2
  unfold Call.bound Call.recorded
  cases found : (perform ctx { o with submits := true } l c).2 with
  | none => simp
  | some e => exact kept e found

theorem near_of_bound {c : Call β} (recorded : (c.recorded ctx o l).isSome) (legal : ∀ b ∈ c.bound ctx o l, limit ∣ b.offset) :
    ∀ q ∈ c.arrays l, Near ctx limit q := by
  obtain ⟨e, found⟩ := Option.isSome_iff_exists.mp recorded
  unfold Call.bound at legal
  rw [found] at legal
  exact near_of_executed (Prod.ext rfl found) legal

end

/-! ### Runs of operations -/

/-- What an operation bound, and whether it got as far as binding everything. -/
structure Event where
  op : Operation UInt8
  bound : List Binding
  complete : Prop

def Operation.arrays {β : Type} (l : KernelLauncher β) : Operation β → List Nat
  | .primitive a => a.arrays
  | .elementwise c => c.arrays l

/-- One operation, whatever fails. Before it the program and the kernels may have written any memory and the program
may have registered any buffers. -/
inductive Operates (hv : HostValues UInt8) (B : Backing) (shaders : String → Shader UInt8) (mayFail : Prop) (ctx : Context) :
    KernelLauncher UInt8 × B.arena.State → Event → KernelLauncher UInt8 × B.arena.State → Prop
  | primitive {l : KernelLauncher UInt8} {s s' : B.arena.State} {a : Launcher.Action UInt8} {r : a.Res} {bound : List Binding}
      (mem : Nat → UInt8) (run : (a.prog hv ctx).Run (bindingStep B shaders mayFail) (B.arena.setMem s mem, []) r (s', bound)) :
      Operates hv B shaders mayFail ctx (l, s) ⟨.primitive a, bound, a.Ready ctx ∧ a.Succeeded r⟩ (l, s')
  | elementwise {l : KernelLauncher UInt8} {s : B.arena.State} {c : Call UInt8} (mem : Nat → UInt8) (m : MemoryManager UInt8)
      (o : Outcome) :
      Operates hv B shaders mayFail ctx (l, s)
        ⟨.elementwise c, c.bound ctx o { l with manager := m }, (c.recorded ctx o { l with manager := m }).isSome⟩
        ((perform ctx o { l with manager := m } c).1, B.arena.setMem s mem)

section
variable {hv : HostValues UInt8} {B : Backing} {shaders : String → Shader UInt8} {mayFail : Prop} {loaded : String → Bool}
  {devBase limit : Nat} {t t' : KernelLauncher UInt8 × B.arena.State} {e : Event}

/-- The arrays that an operation binds lie outside of the arena or at multiples of the limit. -/
def Suits (ctx : Context) (limit : Nat) (l : KernelLauncher UInt8) (op : Operation UInt8) : Prop :=
  ∀ q ∈ op.arrays l, Near ctx limit q

theorem operates_legal (divides : limit ∣ 256) (step : Operates hv B shaders mayFail (contextOf B.arena loaded devBase) t e t')
    (cached : CacheLegal limit t.1) (suits : Suits (contextOf B.arena loaded devBase) limit t.1 e.op) :
    CacheLegal limit t'.1 ∧ ∀ b ∈ e.bound, limit ∣ b.offset := by
  cases step with
  | primitive mem run => exact ⟨cached, (Launcher.Action.aligns divides suits).run run (by simp)⟩
  | @elementwise l s c mem m o =>
    have still : CacheLegal limit { l with manager := m } := cached
    have near : ∀ q ∈ c.arrays { l with manager := m }, Near (contextOf B.arena loaded devBase) limit q := by
      cases c <;> exact suits
    exact ⟨(perform_keeps still near).1, bound_near still near⟩

theorem operates_suits (sure : ¬ mayFail) (step : Operates hv B shaders mayFail (contextOf B.arena loaded devBase) t e t')
    (complete : e.complete) (legal : ∀ b ∈ e.bound, limit ∣ b.offset) :
    Suits (contextOf B.arena loaded devBase) limit t.1 e.op := by
  cases step with
  | @primitive l s s' a r bound mem run =>
    have named := (Launcher.Action.binds sure complete.1 _).run run complete.2
    intro q hq _
    obtain ⟨b, hb, -, offset⟩ := named q hq
    have low := legal b hb
    rw [offset] at low
    exact low
  | @elementwise l s c mem m o =>
    have near := near_of_bound complete legal
    cases c <;> exact near

/-- Every pointer that the arena's `allocate` returns suits. -/
theorem allocated_near {s s' : B.arena.State} {size k p : Nat} (hk : k < 64) (divides : limit ∣ 256)
    (h : B.arena.Allocates s size (2 ^ k) p s') : Near (contextOf B.arena loaded devBase) limit p := by
  intro inside
  rcases B.allocates_dvd hk h with rfl | aligned
  · simp [Context.contains] at inside
  · exact divides.trans aligned

/-- In a run, offsets are legal when the arrays suit; and where nothing fails, only then. -/
theorem offsets_legal_iff {start last : KernelLauncher UInt8 × B.arena.State}
    {steps : List ((KernelLauncher UInt8 × B.arena.State) × Event)} {k : Nat} (small : k ≤ 8) (fresh : start.1.cache = fun _ => none)
    (run : Trace (Operates hv B shaders mayFail (contextOf B.arena loaded devBase)) start steps last) :
    ((∀ t ∈ steps, Suits (contextOf B.arena loaded devBase) (2 ^ k) t.1.1 t.2.op) →
      ∀ t ∈ steps, ∀ b ∈ t.2.bound, 2 ^ k ∣ b.offset) ∧
    (¬ mayFail → (∀ t ∈ steps, t.2.complete) → (∀ t ∈ steps, ∀ b ∈ t.2.bound, 2 ^ k ∣ b.offset) →
      ∀ t ∈ steps, Suits (contextOf B.arena loaded devBase) (2 ^ k) t.1.1 t.2.op) := by
  have divides : 2 ^ k ∣ 256 := Nat.pow_dvd_pow 2 small
  constructor
  · intro suits
    have first : CacheLegal (2 ^ k) start.1 := by
      intro key set found
      rw [fresh] at found
      cases found
    have cached := run.along (I := fun t => CacheLegal (2 ^ k) t.1) first
      fun t e t' here legal step => (operates_legal divides step legal (suits (t, e) here)).1
    rintro ⟨t, e⟩ here
    obtain ⟨t', step⟩ := run.moved here
    exact (operates_legal divides step (cached _ here) (suits _ here)).2
  · rintro sure complete legal ⟨t, e⟩ here
    obtain ⟨t', step⟩ := run.moved here
    exact operates_suits sure step (complete _ here) (legal _ here)

end

/-! ### A heap pool of one mebibyte -/

theorem heap_small : 2 ^ 20 ≤ 2 ^ 62 := by decide

theorem heap_paged : 65536 % 4096 = 0 := by decide

def heapArena : Backing := .pool Pool.smallEnv 65536 (2 ^ 20) heap_small heap_paged

def heapContext : Context := contextOf heapArena.arena (fun _ => true) 0

/-- A new launcher, after the program took 64 bytes from the heap. -/
def heapStart : KernelLauncher UInt8 × heapArena.arena.State :=
  (⟨⟨fun _ => none, 0, fun _ => 0, fun _ => 0⟩, fun _ => none, 0⟩, (Pool.afterAlloc Pool.smallPool 64 16, [⟨65552, 64, 16⟩]))

/-- A launch on 16 elements at `p`. -/
def launchedAt (p : Nat) : Event where
  op := .elementwise (.launch "square" p 16 4)
  bound := (Call.launch "square" p 16 4).bound heapContext ⟨fun _ => none, true, true⟩ heapStart.1
  complete := ((Call.launch "square" p 16 4).recorded heapContext ⟨fun _ => none, true, true⟩ heapStart.1).isSome

theorem exists_launchedAt (p : Nat) : ∃ last,
    Trace (Operates littleEndian heapArena (fun _ => ⟨fun _ => True, fun _ _ m m' => m' = m⟩) False heapContext) heapStart
      [(heapStart, launchedAt p)] last :=
  ⟨_, Trace.start.next (.elementwise (fun _ => 0) heapStart.1.manager ⟨fun _ => none, true, true⟩)⟩

theorem offsets_legal_iff_launchedAt : ∃ last,
    Trace (Operates littleEndian heapArena (fun _ => ⟨fun _ => True, fun _ _ m m' => m' = m⟩) False heapContext) heapStart
      [(heapStart, launchedAt 65792)] last ∧
    ((∀ t ∈ [(heapStart, launchedAt 65792)], Suits heapContext (2 ^ 8) t.1.1 t.2.op) →
      ∀ t ∈ [(heapStart, launchedAt 65792)], ∀ b ∈ t.2.bound, 2 ^ 8 ∣ b.offset) ∧
    (¬ False → (∀ t ∈ [(heapStart, launchedAt 65792)], t.2.complete) →
      (∀ t ∈ [(heapStart, launchedAt 65792)], ∀ b ∈ t.2.bound, 2 ^ 8 ∣ b.offset) →
      ∀ t ∈ [(heapStart, launchedAt 65792)], Suits heapContext (2 ^ 8) t.1.1 t.2.op) := by
  obtain ⟨last, run⟩ := exists_launchedAt 65792
  exact ⟨last, run, offsets_legal_iff (by decide) rfl run⟩

/-- A device that asks for 64 gets 16 for a block that the heap pool handed out. -/
theorem captured_misaligned : (Pool.pxPoolAlloc Pool.smallEnv Pool.smallPool 64 16).map Prod.fst = some 65552 ∧
    heapContext.contains 65552 = true ∧
    ∃ last, Trace (Operates littleEndian heapArena (fun _ => ⟨fun _ => True, fun _ _ m m' => m' = m⟩) False heapContext)
      heapStart [(heapStart, launchedAt 65552)] last ∧
      ¬ ∀ t ∈ [(heapStart, launchedAt 65552)], ∀ b ∈ t.2.bound, 2 ^ 6 ∣ b.offset := by
  have bound : (launchedAt 65552).bound = [⟨.arena, 16, some 64⟩] := rfl
  refine ⟨by decide +kernel, by decide, ?_⟩
  obtain ⟨last, run⟩ := exists_launchedAt 65552
  refine ⟨last, run, fun legal => ?_⟩
  have low := legal _ List.mem_cons_self ⟨.arena, 16, some 64⟩ (by simp [bound])
  exact absurd low (by decide)

end Parallax.Elementwise
