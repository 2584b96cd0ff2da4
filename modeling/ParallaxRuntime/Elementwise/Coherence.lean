import ParallaxRuntime.Elementwise.Bindings

/-!
# Buffers outside the arena

`register_external_buffer` copies the host's bytes into the memory of a new Vulkan buffer
once. From then on `sync_before_kernel` flushes that memory and `sync_after_kernel` marks its
blocks: neither copies between it and the host's bytes. For a pointer of `parallax_umalloc`
the two are the same memory. So kernels read what the host wrote, and the host sees their results, while
copies are only read, and only until the host writes again.
-/

namespace Parallax.Elementwise
open Memory Launcher

variable {β : Type}

/-- What kernels compute from the bytes that they are bound to. -/
structure Kernels (β : Type) where
  elementwise : Executed β → (n : Nat) → (Fin n → β) → Nat → β
  scan : (scanKernel addKernel : String) → (count es n : Nat) → (Fin n → β) → Nat → β
  sort : (kernel : String) → (count es n : Nat) → (Fin n → β) → Nat → β

/-- The kernel's effect: `n` cells at `src` are read, `k` cells at `dst` written. -/
def runKernel (memory : Nat → β) (src dst n k : Nat) (f : (Fin n → β) → Nat → β) : Nat → β := fun a =>
  if dst ≤ a ∧ a < dst + k then f (fun i => memory (src + i)) (a - dst) else memory a

/-- The address at which a binding's range begins. -/
def address (ctx : Context) (m : MemoryManager β) (b : Binding) : Nat :=
  match b.buffer with
  | .arena => ctx.hostBase + b.offset
  | .external h => m.mapping h + b.offset

/-- The binding that the kernel of a call writes through. -/
def Call.outputBinding (set : DescriptorSet β) : Call β → Option Binding
  | .launch _ _ _ _ | .launchWithCaptures _ _ _ _ _ => set.binding0
  | .launchTransform _ _ _ _ _ _ _ => set.binding1

/-- `parallax_scan` and `parallax_sort`. -/
inductive InPlace where
  | scan (scanKernel addKernel : String)
  | sort (kernel : String)

/-- The checks of `launch_scan` and `launch_sort` before the buffer is looked up. -/
def InPlace.dispatches (ctx : Context) (count : Nat) : InPlace → Bool
  | scan scanKernel addKernel => ctx.loaded scanKernel && ctx.loaded addKernel && decide (1 < count) && ctx.arenaValid
  | sort kernel => ctx.loaded kernel && decide (1 < count) && decide (count &&& (count - 1) = 0)

def Kernels.inPlace (K : Kernels β) (count es n : Nat) : InPlace → (Fin n → β) → Nat → β
  | .scan scanKernel addKernel => K.scan scanKernel addKernel count es n
  | .sort kernel => K.sort kernel count es n

/-- What the host does between and with the buffers. -/
inductive HostAction (β : Type) where
  | write (p : Nat) (x : List β)
  | allocate (size : Nat) (created : Option Nat)
  | deallocate (p : Nat)
  | registerExternalBuffer (p size : Nat) (created : Option Nat)
  | kernelLaunch (c : Call β) (o : Outcome)
  /-- A call in which some dispatch fails leaves any bytes behind. -/
  | inPlace (op : InPlace) (data count es : Nat) (o : Outcome) (failed : Option (Nat → β))

section
variable (K : Kernels β) (ctx : Context)

/-- The kernel of a dispatched call runs, and the C function calls `sync_after_kernel`. -/
def finish (s : KernelLauncher β) (c : Call β) (e : Executed β) : KernelLauncher β :=
  let memory := e.set.binding0.elim s.manager.memory fun src => (c.outputBinding e.set).elim s.manager.memory fun dst =>
    runKernel s.manager.memory (address ctx s.manager src) (address ctx s.manager dst) c.input.2 c.output.2
      (K.elementwise e c.input.2)
  { s with manager := { s.manager with memory := memory }.syncAfterKernel c.output.1 }

/-- `launch_scan` and `launch_sort` after the buffer is bound. -/
def finishInPlace (s : KernelLauncher β) (data n : Nat) (b : BufferRef × Nat) (f : (Fin n → β) → Nat → β)
    (failed : Option (Nat → β)) : KernelLauncher β :=
  let base := address ctx s.manager ⟨b.1, b.2, none⟩
  let computed := failed.elim f fun left _ => left
  let manager := { s.manager with memory := runKernel s.manager.memory base base n n computed }
  { s with manager :=
      if ctx.contains data = false ∧ failed.isNone then manager.syncAfterKernel data else manager }

def hostStep (s : KernelLauncher β) : HostAction β → KernelLauncher β
  | .write p x =>
    { s with manager.memory := fun a => if p ≤ a then (x[a - p]?).getD (s.manager.memory a) else s.manager.memory a }
  | .allocate size created => { s with manager := s.manager.allocate size created }
  | .deallocate p => { s with manager := s.manager.deallocate p }
  | .registerExternalBuffer p size created => { s with manager := s.manager.registerExternalBuffer p size created }
  | .kernelLaunch c o =>
    let r := perform ctx o s c
    r.2.elim r.1 fun e => finish K ctx r.1 c e
  | .inPlace op data count es o failed =>
    if op.dispatches ctx count then
      let n := wmul count es
      let r := resolve ctx o s.manager data n
      let s := { s with manager := r.1 }
      r.2.elim s fun b => finishInPlace ctx s data n b (K.inPlace count es n op) failed
    else s

end

/-! ### Coherence -/

section
variable (K : Kernels β) (ctx : Context)

/-- A kernel bound at `base` reads what the host has at `p`, and leaves its results at `q`. -/
def Coherent (before after : Nat → β) (base p n q k : Nat) (f : (Fin n → β) → Nat → β) : Prop :=
  (∀ i < n, before (base + i) = before (p + i)) ∧ ∀ i < k, after (q + i) = f (fun i => before (base + i)) i

/-- The step is coherent if it dispatches. -/
def StepCoherent (s : KernelLauncher β) : HostAction β → Prop
  | .kernelLaunch c o => ∀ s' e, perform ctx o s c = (s', some e) →
    ∃ src, e.set.binding0 = some src ∧ Coherent s'.manager.memory (finish K ctx s' c e).manager.memory
      (address ctx s'.manager src) c.input.1 c.input.2 c.output.1 c.output.2 (K.elementwise e c.input.2)
  | .inPlace op data count es o none => op.dispatches ctx count = true →
    let n := wmul count es
    let f := K.inPlace count es n op
    let r := resolve ctx o s.manager data n
    ∀ b, r.2 = some b → Coherent r.1.memory (finishInPlace ctx { s with manager := r.1 } data n b f none).manager.memory
      (address ctx r.1 ⟨b.1, b.2, none⟩) data n data n f
  | _ => True

end

/-- Two ranges of addresses do not meet. -/
def Apart (p n q k : Nat) : Prop := p + n ≤ q ∨ q + k ≤ p

/-- What the operating system does when memory is mapped: a new mapping is apart from the bytes that are copied there. -/
def NewApart (o : Outcome) (arrays : List (Nat × Nat)) : Prop :=
  ∀ x ∈ arrays, ∀ base ∈ o.created x.1, Apart base x.2 x.1 x.2

/-- And whenever the step makes a buffer. -/
def HostAction.MapsApart : HostAction β → Prop
  | .registerExternalBuffer p size created => ∀ base ∈ created, Apart base size p size
  | .kernelLaunch c o => NewApart o [c.input, c.output]
  | .inPlace _ data count es o _ => ∀ base ∈ o.created data, Apart base (wmul count es) data (wmul count es)
  | _ => True

/-- A property of each step of a host's run. -/
def HostAlong (K : Kernels β) (ctx : Context) (P : KernelLauncher β → HostAction β → Prop) :
    KernelLauncher β → List (HostAction β) → Prop
  | _, [] => True
  | s, a :: actions => P s a ∧ HostAlong K ctx P (hostStep K ctx s a) actions

/-! ### When the calls of a run are coherent -/

/-- The slot was written for this pointer, with the memory that it has now, and for at least as many bytes. -/
structure Serves (ctx : Context) (h : History) (array : Nat × Nat) (slot : Slot) : Prop where
  pointer : slot.pointer = array.1
  place : h.place ctx array.1 = some slot.place
  range : ∀ bytes ∈ slot.range, array.2 ≤ bytes
  room : slot.place.Room ctx array.1 array.2

namespace History
variable (ctx : Context)

instance (o : Outcome) (h : History) (c : Call β) : Decidable (h.Dispatches ctx o c) := inferInstanceAs (Decidable (_ ∧ _ ∧ _ ∧ _))

/-- A pointer's memory is its own, or a copy, and neither was written to since it was made. -/
def Current (h : History) (p n : Nat) : Prop :=
  ∀ r, h.place ctx p = some (.buffer r) → r.base = p ∨ ∀ i < n, h.touched (p + i) ≤ r.number ∧ h.touched (r.base + i) ≤ r.number

/-- Nothing is written, or to the pointer's own memory. -/
def Shared (h : History) (q k : Nat) : Prop := k = 0 ∨ h.address ctx q = q

def afterHost (h : History) : HostAction β → History
  | .write p x => h.write p x.length
  | .allocate size created => created.elim h fun p => h.make p size p
  | .deallocate p => h.free p
  | .registerExternalBuffer p size created => h.register p size created
  | .kernelLaunch c o =>
    if h.Dispatches ctx o c then (h.call ctx o c).write ((h.reached ctx o c).address ctx c.output.1) c.output.2
    else h.call ctx o c
  | .inPlace op data count es o _ =>
    if op.dispatches ctx count then
      let h := h.reach ctx o data (wmul count es)
      (h.place ctx data).elim h fun _ => h.write (h.address ctx data) (wmul count es)
    else h

def HostAlong (P : History → HostAction β → Prop) : History → List (HostAction β) → Prop
  | _, [] => True
  | h, a :: actions => P h a ∧ HostAlong P (h.afterHost ctx a) actions

/-- If nothing stops the step: its set was written for its arrays, its input is current, and its output shared. -/
def StepMeets (h : History) : HostAction β → Prop
  | .kernelLaunch c o => h.Dispatches ctx o c → ∀ slots ∈ h.fresh ctx o c,
    SlotsMeet (fun x slot => x.2 = 0 ∨ Serves ctx (h.reached ctx o c) x slot) (h.used c slots) c ∧
    (h.reached ctx o c).Current ctx c.input.1 c.input.2 ∧ (h.reached ctx o c).Shared ctx c.output.1 c.output.2
  | .inPlace op data count es o none => op.dispatches ctx count = true →
    let h := h.reach ctx o data (wmul count es)
    ∀ l ∈ h.place ctx data, l.Room ctx data (wmul count es) ∧ h.Current ctx data (wmul count es) ∧ h.Shared ctx data (wmul count es)
  | _ => True

end History

/-! ### Copies -/

namespace History

/-- A copy has the bytes it was made of, where neither was written to since. -/
def Copies (h : History) (memory : Nat → β) : Prop :=
  ∀ p r, h.registered p = some r → ∀ i < r.size, h.touched (p + i) ≤ r.number → h.touched (r.base + i) ≤ r.number →
    memory (r.base + i) = memory (p + i)

variable {ctx : Context} {o : Outcome} {m : MemoryManager β} {h : History} {memory memory' : Nat → β} {p n size base : Nat}

theorem Copies.write (copies : h.Copies memory) (owned : ∀ q r, h.registered q = some r → h.Owns q r)
    (same : ∀ a, ¬ (p ≤ a ∧ a < p + n) → memory' a = memory a) : (h.write p n).Copies memory' := by
  intro q r registered i lt before before'
  have old : r.number < h.made := (owned q r registered).1
  simp only [History.write] at before before'
  split at before
  · omega
  · next out =>
    split at before'
    · omega
    · next out' =>
      rw [same _ out, same _ out']
      exact copies q r registered i lt before before'

/-- A new buffer that has the bytes of its pointer. -/
theorem Copies.make (copies : h.Copies memory) (same : ∀ i < size, memory (base + i) = memory (p + i)) :
    (h.make p size base).Copies memory := by
  intro q r registered i lt before before'
  simp only [History.make] at registered
  by_cases here : q = p
  · subst here
    rw [Function.update_self, Option.some.injEq] at registered
    subst registered
    exact same i lt
  · rw [Function.update_of_ne here] at registered
    exact copies q r registered i lt before before'

theorem Copies.free (copies : h.Copies memory) : (h.free p).Copies memory := by
  intro q r registered
  simp only [History.free] at registered
  by_cases here : q = p
  · subst here
    rw [Function.update_self] at registered
    cases registered
  · rw [Function.update_of_ne here] at registered
    exact copies q r registered

theorem memcpy_apart {dst src n a len i : Nat} (h : Apart dst n a len) (hi : i < len) :
    memcpy memory dst src n (a + i) = memory (a + i) := by
  unfold memcpy
  unfold Apart at h
  exact if_neg (by omega)

theorem memcpy_self {dst src n i : Nat} (hi : i < n) : memcpy memory dst src n (dst + i) = memory (src + i) := by
  unfold memcpy
  rw [if_pos (by omega), Nat.add_sub_cancel_left]

theorem Copies.register (copies : h.Copies m.memory) (t : h.TracksBuffers m) {created : Option Nat}
    (apart : ∀ base ∈ created, Apart base size p size) :
    (h.register p size created).Copies (m.registerExternalBuffer p size created).memory := by
  obtain ⟨same, same'⟩ | ⟨base, made, same, same'⟩ := t.register_cases p size created
  · rw [same, same']
    exact copies
  · rw [same, same']
    refine (copies.write t.owned fun a out => ?_).make fun i lt => ?_
    · exact if_neg out
    · exact (memcpy_self lt).trans (memcpy_apart (apart base made) lt).symm

theorem Copies.resolve (copies : h.Copies m.memory) (t : h.TracksBuffers m) (apart : ∀ base ∈ o.created p, Apart base n p n) :
    (h.reach ctx o p n).Copies (Elementwise.resolve ctx o m p n).1.memory := by
  obtain ⟨same, same'⟩ | ⟨same, same'⟩ := resolve_cases m h ctx o p n
  · rw [same, same']
    exact copies
  · rw [same, same']
    exact copies.register t apart

/-- What a kernel reads is what the host has. -/
theorem Copies.reads (copies : h.Copies memory) {l : Place} (here : h.place ctx p = some l) (room : l.Room ctx p n)
    (current : h.Current ctx p n) : ∀ i < n, memory (h.address ctx p + i) = memory (p + i) := by
  intro i lt
  have current := current
  unfold History.Current History.place at current
  unfold History.place at here
  unfold History.address
  split at here
  · next inside => rw [if_pos inside]
  · next outside =>
    obtain ⟨r, registered, rfl⟩ := Option.map_eq_some_iff.mp here
    rw [if_neg outside, registered, Option.elim_some]
    rw [if_neg outside, registered] at current
    rcases current r rfl with same | untouched
    · rw [same]
    · obtain ⟨before, before'⟩ := untouched i lt
      exact copies p r registered i (Nat.lt_of_lt_of_le lt room) before before'

theorem Shared.coherent {q k src : Nat} {f : (Fin n → β) → Nat → β} (shared : h.Shared ctx q k)
    (reads : ∀ i < n, memory (src + i) = memory (p + i)) :
    Coherent memory (runKernel memory src (h.address ctx q) n k f) src p n q k f := by
  refine ⟨reads, fun i lt => ?_⟩
  rcases shared with none | same
  · omega
  · rw [same]
    unfold runKernel
    rw [if_pos (by omega), Nat.add_sub_cancel_left]

/-- A pointer is bound where the history has it. -/
theorem address_resolved (t : h.TracksBuffers m) {l : Place} (here : h.place ctx p = some l) (range : Option Nat) :
    Elementwise.address ctx m ⟨(l.resolved ctx p).1, (l.resolved ctx p).2, range⟩ = h.address ctx p := by
  unfold History.place at here
  unfold Elementwise.address History.address
  split at here
  · next inside =>
    cases here
    have low := contains_low inside
    rw [if_pos inside]
    simp only [Place.resolved, Context.offsetOf]
    omega
  · next outside =>
    obtain ⟨r, registered, rfl⟩ := Option.map_eq_some_iff.mp here
    rw [if_neg outside, registered]
    simp [Place.resolved, t.mapped _ r registered]

theorem address_binding (t : h.TracksBuffers m) {array : Nat × Nat} {slot : Slot} (serves : Serves ctx h array slot) :
    Elementwise.address ctx m (slot.binding ctx) = h.address ctx array.1 := by
  rw [← address_resolved t serves.place slot.range, ← serves.pointer]
  rfl

end History

/-! ### Steps -/

section
variable {K : Kernels β} {ctx : Context} {o : Outcome} {s s' : KernelLauncher β} {h : History} {c : Call β} {e : Executed β}

/-- The manager after both pointers of a call are looked up. -/
def resolveBoth (ctx : Context) (o : Outcome) (m : MemoryManager β) : Call β → MemoryManager β
  | .launch _ buffer count es | .launchWithCaptures _ buffer count _ es => (resolve ctx o m buffer (wmul count es)).1
  | .launchTransform _ input output count es outEs _ =>
    (resolve ctx o (resolve ctx o m input (wmul count es)).1 output (wmul count (outElemSize es outEs))).1

theorem submitNew_manager {kernel : String} {key : Option (String × Nat)} {set : DescriptorSet β} {count : Nat} :
    (submitNew ctx o s key kernel set count).1.manager = s.manager := by
  unfold submitNew
  split
  · rfl
  · rw [submit_fst]

theorem perform_manager (loaded : ctx.loaded c.kernel = true) :
    (perform ctx o s c).1.manager = resolveBoth ctx o s.manager c := by
  cases c with
  | launch kernel buffer count es =>
    have known : ¬ ctx.loaded kernel = false := ne_false_of_eq_true loaded
    simp only [perform, launch, resolveBoth]
    rw [if_neg known]
    cases (resolve ctx o s.manager buffer (wmul count es)).2 with
    | none => rfl
    | some b =>
      rw [Option.elim_some]
      cases s.cache (kernel, buffer) with
      | none => rw [Option.elim_none, submitNew_manager]
      | some set => rw [Option.elim_some, submit_fst]
  | launchWithCaptures kernel buffer count captures es =>
    have known : ¬ ctx.loaded kernel = false := ne_false_of_eq_true loaded
    simp only [perform, launchWithCaptures, resolveBoth]
    rw [if_neg known]
    cases (resolve ctx o s.manager buffer (wmul count es)).2 with
    | none => rfl
    | some b =>
      rw [Option.elim_some]
      cases s.cache (kernel, buffer) with
      | none => rw [Option.elim_none, submitNew_manager]
      | some set => rw [Option.elim_some, submit_fst]
  | launchTransform kernel input output count es outEs captures =>
    have known : ¬ ctx.loaded kernel = false := ne_false_of_eq_true loaded
    simp only [perform, launchTransform, resolveBoth]
    rw [if_neg known]
    cases (resolve ctx o s.manager input (wmul count es)).2 with
    | none => rfl
    | some b =>
      cases (resolve ctx o (resolve ctx o s.manager input (wmul count es)).1 output (wmul count (outElemSize es outEs))).2 with
      | none => rfl
      | some b' =>
        rw [Option.elim_some, Option.elim_some]
        split
        · rw [submitNew_manager]
        · cases s.cache (kernel, output) with
          | none => rw [Option.elim_none, submitNew_manager]
          | some set => rw [Option.elim_some, submit_fst]

theorem perform_unloaded (unloaded : ctx.loaded c.kernel = false) : perform ctx o s c = (s, none) := by
  cases c with
  | launch | launchWithCaptures | launchTransform => exact if_pos unloaded

/-- The launcher is in step with the history, and its copies are as made. -/
structure InStep (ctx : Context) (s : KernelLauncher β) (h : History) : Prop extends h.Tracks ctx s where
  copies : h.Copies s.manager.memory

theorem InStep.reached (t : InStep ctx s h) (apart : NewApart o [c.input, c.output]) :
    (h.reached ctx o c).Copies (resolveBoth ctx o s.manager c).memory := by
  have once : (h.reach ctx o c.input.1 c.input.2).Copies (resolve ctx o s.manager c.input.1 c.input.2).1.memory :=
    t.copies.resolve t.toTracksBuffers (apart c.input List.mem_cons_self)
  cases c with
  | launch | launchWithCaptures => exact once
  | launchTransform kernel input output count es outEs captures =>
    exact once.resolve (t.toTracksBuffers.resolve ctx o input (wmul count es))
      (apart (output, wmul count (outElemSize es outEs)) (List.mem_cons_of_mem _ List.mem_cons_self))

/-- Before its kernel runs, a call has only registered its pointers and written a set. -/
theorem InStep.performed (t : InStep ctx s h) (apart : NewApart o [c.input, c.output]) :
    InStep ctx (perform ctx o s c).1 (h.call ctx o c) := by
  refine ⟨(History.perform_follows t.toTracks c).tracks, ?_⟩
  cases known : ctx.loaded c.kernel with
  | false =>
    rw [perform_unloaded known, History.call_unloaded known]
    exact t.copies
  | true =>
    obtain ⟨written, same⟩ := History.call_loaded (h := h) (o := o) known
    rw [same, perform_manager known]
    exact t.reached apart

theorem InStep.wrote (t : InStep ctx s h) {q k : Nat} {memory : Nat → β}
    (same : ∀ a, ¬ (q ≤ a ∧ a < q + k) → memory a = s.manager.memory a) :
    InStep ctx { s with manager.memory := memory } (h.write q k) where
  toTracks := t.toTracks.mono ((t.toTracksBuffers.write q k).withMemory memory) rfl id
  copies := t.copies.write t.owned same

theorem InStep.marked (t : InStep ctx s h) (p : Nat) (f : List DirtyBlock → List DirtyBlock) :
    InStep ctx { s with manager := s.manager.mapBlocks p f } h where
  toTracks := t.toTracks.mono (t.toTracksBuffers.mapBlocks p f) rfl id
  copies := t.copies

theorem runKernel_other {memory : Nat → β} {src dst n k a : Nat} {f : (Fin n → β) → Nat → β} (out : ¬ (dst ≤ a ∧ a < dst + k)) :
    runKernel memory src dst n k f a = memory a := if_neg out

/-- Where nothing is read from or written to does not matter. -/
theorem runKernel_congr {memory : Nat → β} {src src' dst dst' n k : Nat} {f : (Fin n → β) → Nat → β}
    (input : n = 0 ∨ src = src') (output : k = 0 ∨ dst = dst') :
    runKernel memory src dst n k f = runKernel memory src' dst' n k f := by
  have reads : (fun i : Fin n => memory (src + i)) = fun i : Fin n => memory (src' + i) := by
    funext i
    rcases input with none | same
    · exact absurd i.isLt (by omega)
    · rw [same]
  funext a
  unfold runKernel
  rw [reads]
  rcases output with none | same
  · rw [if_neg (by omega), if_neg (by omega)]
  · rw [same]

/-- A dispatch reads what the host has in its input, and leaves its results in its output. -/
structure RunsOnArrays (K : Kernels β) (ctx : Context) (h : History) (s : KernelLauncher β) (c : Call β) (e : Executed β) : Prop where
  bound : ∃ src, e.set.binding0 = some src ∧ (c.input.2 = 0 ∨ h.address ctx c.input.1 = address ctx s.manager src)
  reads : ∀ i < c.input.2, s.manager.memory (h.address ctx c.input.1 + i) = s.manager.memory (c.input.1 + i)
  shared : h.Shared ctx c.output.1 c.output.2
  ran : (finish K ctx s c e).manager.memory = runKernel s.manager.memory (h.address ctx c.input.1) (h.address ctx c.output.1)
    c.input.2 c.output.2 (K.elementwise e c.input.2)

theorem SlotsMeet.input {P : Nat × Nat → Slot → Prop} {slots : Slot × Option Slot} (meets : SlotsMeet P slots c) :
    P c.input slots.1 := by
  cases c with
  | launch | launchWithCaptures => exact meets
  | launchTransform => exact meets.1

theorem InStep.dispatched (t : InStep ctx s h) (apart : NewApart o [c.input, c.output]) (meets : h.StepMeets ctx (.kernelLaunch c o))
    (executed : perform ctx o s c = (s', some e)) : RunsOnArrays K ctx (h.reached ctx o c) s' c e := by
  have follows := History.perform_follows (o := o) t.toTracks c
  rw [executed] at follows
  have dispatches := follows.dispatches.mp rfl
  obtain ⟨slots, fresh, first, second⟩ := follows.set e rfl
  obtain ⟨serves, current, shared⟩ := meets dispatches slots fresh
  have buffers := follows.tracks.toTracksBuffers.of_call dispatches.1
  have bound : ∀ {array : Nat × Nat} {slot : Slot}, array.2 = 0 ∨ Serves ctx (h.reached ctx o c) array slot →
      array.2 = 0 ∨ address ctx s'.manager (slot.binding ctx) = (h.reached ctx o c).address ctx array.1 :=
    fun served => served.imp_right fun serves => History.address_binding buffers serves
  refine ⟨⟨_, first, (bound serves.input).imp_right Eq.symm⟩, ?_, shared, ?_⟩
  · rcases serves.input with none | serves
    · intro i lt
      omega
    · have manager : s'.manager = resolveBoth ctx o s.manager c := by rw [← perform_manager dispatches.1, executed]
      rw [manager]
      exact (t.reached apart).reads serves.place serves.room current
  · cases c with
    | launch | launchWithCaptures =>
      simp only [finish, Call.outputBinding, first, Option.elim_some, MemoryManager.syncAfterKernel, MemoryManager.mapBlocks]
      exact runKernel_congr (bound serves) (bound serves)
    | launchTransform =>
      obtain ⟨input, slot, member, output⟩ := serves
      have second := second.trans (congrArg (Option.map _) member)
      simp only [finish, Call.outputBinding, first, second, Option.map_some, Option.elim_some, MemoryManager.syncAfterKernel,
        MemoryManager.mapBlocks]
      exact runKernel_congr (bound input) (bound output)

theorem Coherent.bound {before after : Nat → β} {base base' p n q k : Nat} {f : (Fin n → β) → Nat → β}
    (coherent : Coherent before after base p n q k f) (same : n = 0 ∨ base = base') : Coherent before after base' p n q k f := by
  rcases same with rfl | rfl
  · have nothing : (fun i : Fin 0 => before (base + i)) = fun i : Fin 0 => before (base' + i) := funext fun i => i.elim0
    refine ⟨fun i lt => absurd lt (Nat.not_lt_zero i), fun i lt => ?_⟩
    rw [← nothing]
    exact coherent.2 i lt
  · exact coherent

/-- A step that meets its condition is coherent, whatever the kernels compute. -/
theorem InStep.coherent (t : InStep ctx s h) (K : Kernels β) {a : HostAction β} (apart : a.MapsApart) (meets : h.StepMeets ctx a) :
    StepCoherent K ctx s a := by
  cases a with
  | write | allocate | deallocate | registerExternalBuffer => trivial
  | kernelLaunch c o =>
    intro s' e executed
    obtain ⟨⟨src, first, bound⟩, reads, shared, ran⟩ := t.dispatched (K := K) apart meets executed
    refine ⟨src, first, ?_⟩
    rw [ran]
    exact (shared.coherent reads).bound bound
  | inPlace op data count es o failed =>
    cases failed with
    | some left => trivial
    | none =>
      intro dispatches n f r b found
      have buffers := t.toTracksBuffers.resolve ctx o data n
      have copies : (h.reach ctx o data n).Copies r.1.memory := t.copies.resolve t.toTracksBuffers apart
      have answer := t.toTracksBuffers.resolved ctx o data n
      obtain ⟨l, here, rfl⟩ := Option.map_eq_some_iff.mp (answer.symm.trans found)
      obtain ⟨room, current, shared⟩ := meets dispatches l here
      have ran : (finishInPlace ctx { s with manager := r.1 } data n (l.resolved ctx data) f none).manager.memory =
          runKernel r.1.memory ((h.reach ctx o data n).address ctx data) ((h.reach ctx o data n).address ctx data) n n f := by
        unfold finishInPlace
        rw [History.address_resolved buffers here]
        dsimp only
        split <;> rfl
      rw [ran, History.address_resolved buffers here]
      exact shared.coherent (copies.reads here room current)

theorem InStep.resolve (t : InStep ctx s h) {p n : Nat} (apart : ∀ base ∈ o.created p, Apart base n p n) :
    InStep ctx { s with manager := (resolve ctx o s.manager p n).1 } (h.reach ctx o p n) where
  toTracks := t.toTracks.resolve o p n
  copies := t.copies.resolve t.toTracksBuffers apart

/-- In place, the kernels write where the pointer is bound, whether or not they all ran. -/
theorem InStep.finishInPlace (t : InStep ctx s h) {data n : Nat} {l : Place} (here : h.place ctx data = some l)
    (f : (Fin n → β) → Nat → β) (failed : Option (Nat → β)) :
    InStep ctx (finishInPlace ctx s data n (l.resolved ctx data) f failed) (h.write (h.address ctx data) n) := by
  let base := h.address ctx data
  have wrote : InStep ctx { s with manager.memory := runKernel s.manager.memory base base n n (failed.elim f fun left _ => left) }
      (h.write base n) := t.wrote fun a out => runKernel_other out
  unfold Elementwise.finishInPlace
  rw [History.address_resolved t.toTracksBuffers here]
  dsimp only
  split
  · exact wrote.marked _ _
  · exact wrote

/-- What the host does to buffers and bytes, and what kernels leave, the history knows. -/
theorem InStep.step (t : InStep ctx s h) (K : Kernels β) {a : HostAction β} (apart : a.MapsApart) (meets : h.StepMeets ctx a) :
    InStep ctx (hostStep K ctx s a) (h.afterHost ctx a) := by
  cases a with
  | write p x =>
    refine t.wrote fun a out => ?_
    split
    · rw [List.getElem?_eq_none (by omega), Option.getD_none]
    · rfl
  | allocate size created =>
    cases created with
    | none => exact t
    | some p =>
      exact ⟨t.toTracks.mono (t.toTracksBuffers.store p size p) rfl History.keeps_make, t.copies.make fun _ _ => rfl⟩
  | deallocate p =>
    refine ⟨t.toTracks.mono (t.toTracksBuffers.deallocate p) rfl History.keeps_free, ?_⟩
    have memory : (s.manager.deallocate p).memory = s.manager.memory := by
      unfold MemoryManager.deallocate
      split <;> rfl
    exact memory ▸ t.copies.free
  | registerExternalBuffer p size created =>
    exact ⟨t.toTracks.mono (t.toTracksBuffers.register p size created) History.written_register History.keeps_register,
      t.copies.register t.toTracksBuffers apart⟩
  | kernelLaunch c o =>
    have after : InStep ctx (Elementwise.perform ctx o s c).1 (h.call ctx o c) := t.performed apart
    have dispatches := (History.perform_follows (o := o) t.toTracks c).dispatches
    simp only [hostStep, History.afterHost]
    cases executed : (Elementwise.perform ctx o s c).2 with
    | none =>
      rw [executed] at dispatches
      rw [if_neg fun d => absurd (dispatches.mpr d) Bool.false_ne_true]
      exact after
    | some e =>
      rw [executed] at dispatches
      rw [if_pos (dispatches.mp rfl), Option.elim_some]
      have ran := (t.dispatched (K := K) apart meets (Prod.ext rfl executed)).ran
      refine InStep.marked (s := { (Elementwise.perform ctx o s c).1 with manager.memory := _ }) (after.wrote fun a out => ?_) _ _
      refine (congrFun ran a).trans (runKernel_other out)
  | inPlace op data count es o failed =>
    simp only [hostStep, History.afterHost]
    cases dispatches : op.dispatches ctx count with
    | false => exact t
    | true =>
      have resolved := t.resolve (n := wmul count es) apart
      have answer := t.toTracksBuffers.resolved ctx o data (wmul count es)
      rw [if_pos rfl, if_pos rfl, answer]
      cases here : (h.reach ctx o data (wmul count es)).place ctx data with
      | none => exact resolved
      | some l =>
        exact resolved.finishInPlace here _ failed

/-! ### Runs -/

theorem InStep.along (t : InStep ctx s h) (K : Kernels β) (actions : List (HostAction β)) (apart : ∀ a ∈ actions, a.MapsApart)
    (kept : History.HostAlong ctx (History.StepMeets ctx) h actions) :
    HostAlong K ctx (fun s a => ∀ K', StepCoherent K' ctx s a) s actions := by
  induction actions generalizing s h with
  | nil => trivial
  | cons a actions ih =>
    have first := apart a List.mem_cons_self
    exact ⟨fun K' => t.coherent K' first kept.1,
      ih (t.step K first kept.1) (fun a member => apart a (List.mem_cons_of_mem _ member)) kept.2⟩

theorem start_inStep (memory : Nat → β) : InStep ctx (start memory) History.empty where
  toTracks := start_tracks memory
  copies _ _ no := by cases no

/-- In a run from the start, whatever the kernels compute, the dispatches read what the host wrote and leave their results
with the host, if each set in use was written for the arrays of its call, no copy was written to since it was made, nor
the bytes it was made of, and results go to memory that the host shares. -/
theorem coherent_along (K : Kernels β) (memory : Nat → β) (actions : List (HostAction β)) (fresh : ∀ a ∈ actions, a.MapsApart)
    (kept : History.HostAlong ctx (History.StepMeets ctx) History.empty actions) :
    HostAlong K ctx (fun s a => ∀ K', StepCoherent K' ctx s a) (start memory) actions :=
  (start_inStep memory).along K actions fresh kept

end

/-- Kernels that write one value everywhere. -/
def Kernels.const (x : β) : Kernels β := ⟨fun _ _ _ _ => x, fun _ _ _ _ _ _ _ => x, fun _ _ _ _ _ _ => x⟩

/-- A buffer of `parallax_umalloc` is written by the host and given to a kernel, twice with one set, and then takes the
results of a transform of plain host memory. -/
theorem coherent_along_allocated : HostAlong (Kernels.const 1) smallArena (fun s a => ∀ K', StepCoherent K' smallArena s a)
    (start fun _ => 0)
    [.allocate 64 (some 100000), .write 100000 [1, 2, 3, 4],
      .kernelLaunch (.launchWithCaptures "kernel_0" 100000 16 [5] 4) ⟨fun _ => none, true, true⟩, .write 100000 [6],
      .kernelLaunch (.launchWithCaptures "kernel_0" 100000 8 [5] 4) ⟨fun _ => none, true, true⟩,
      .kernelLaunch (.launchTransform "kernel_1" 300000 100000 4 4 4 []) ⟨fun _ => some 400000, true, true⟩] := by
  refine coherent_along _ _ _ ?_ ⟨trivial, trivial, ?_, trivial, ?_, ?_, trivial⟩
  · simp only [List.mem_cons, List.not_mem_nil, or_false]
    rintro a (rfl | rfl | rfl | rfl | rfl | rfl)
    · trivial
    · trivial
    · rintro x - base ⟨⟩
    · trivial
    · rintro x - base ⟨⟩
    · rintro x member base ⟨⟩
      have arrays : x = (300000, 16) ∨ x = (100000, 16) := by
        simpa [Call.input, Call.output, outElemSize, wmul] using member
      rcases arrays with rfl | rfl
      · exact Or.inr (by decide)
      · exact Or.inr (by decide)
  · rintro - slots ⟨⟩
    refine ⟨Or.inr ⟨rfl, rfl, ?_, by decide⟩, ?_, Or.inr rfl⟩
    · rintro bytes ⟨⟩
      decide
    · rintro r ⟨⟩
      exact Or.inl rfl
  · rintro - slots ⟨⟩
    refine ⟨Or.inr ⟨rfl, rfl, ?_, by decide⟩, ?_, Or.inr rfl⟩
    · rintro bytes ⟨⟩
      decide
    · rintro r ⟨⟩
      exact Or.inl rfl
  · rintro - slots ⟨⟩
    refine ⟨⟨Or.inr ⟨rfl, rfl, ?_, by decide⟩, _, rfl, Or.inr ⟨rfl, rfl, ?_, by decide⟩⟩, ?_, Or.inr rfl⟩
    · rintro bytes ⟨⟩
      decide
    · rintro bytes ⟨⟩
      decide
    · rintro r ⟨⟩
      exact Or.inr (by decide)

/-- The results of a kernel on plain host memory stay in the device's copy. -/
theorem results_not_copied_back : ¬ ∀ (K : Kernels Nat) (ctx : Context) (memory : Nat → Nat) (actions : List (HostAction Nat)),
    (∀ a ∈ actions, a.MapsApart) → HostAlong K ctx (StepCoherent K ctx) (start memory) actions := by
  intro coherent
  have run := coherent (Kernels.const 1) smallArena (fun _ => 0)
    [.kernelLaunch (.launch "kernel_0" 100000 1 4) ⟨fun _ => some 200000, true, true⟩] ?_
  · obtain ⟨src, -, -, results⟩ := run.1 _ _ rfl
    have same : (0 : Nat) = 1 := results 0 (by decide)
    exact absurd same (by decide)
  · intro a member
    obtain rfl := List.mem_singleton.mp member
    intro x array base made
    cases made
    have one : x = (100000, 4) := by simpa [Call.input, Call.output, wmul] using array
    subst one
    exact Or.inr (by decide)

end Parallax.Elementwise
