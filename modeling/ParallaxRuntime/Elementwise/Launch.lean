import ParallaxRuntime.Launcher.Ops
import Mathlib.Logic.Function.Basic

/-!
# Element-wise launches

`launch`, `launch_with_captures` and `launch_transform` of the kernel launcher with the two
maps they consult: `buffers_` of the memory manager, by host pointer, and `descriptor_cache_`,
by kernel and one pointer. Each kernel has its own descriptor-set layout.
-/

namespace Parallax.Elementwise
open Memory Launcher

structure DirtyBlock where
  onHost : Bool
  onDevice : Bool
deriving DecidableEq

def DirtyBlock.needsHostToDevice (b : DirtyBlock) : Bool := b.onHost && !b.onDevice

/-- The Vulkan buffer by number, and its size. -/
structure UnifiedBuffer where
  handle : Nat
  size : Nat
  blocks : List DirtyBlock

/-- `init_dirty_tracking` with 4096-byte blocks. -/
def initDirtyTracking (size : Nat) : List DirtyBlock := List.replicate (wadd size 4095 / 4096) ⟨true, false⟩

/-- `transfer_dirty_blocks` from the host: the flush of coherent memory moves nothing. -/
def transferDirtyBlocks (blocks : List DirtyBlock) : List DirtyBlock :=
  if blocks.any DirtyBlock.needsHostToDevice then
    blocks.map fun b => if b.needsHostToDevice then ⟨false, false⟩ else b
  else blocks

/-- `mark_all_dirty_on_device` -/
def markAllDirtyOnDevice (blocks : List DirtyBlock) : List DirtyBlock := blocks.map fun _ => ⟨false, true⟩

/-- `buffers_`, the number of Vulkan buffers made so far with where each is mapped, and the bytes
of the address space. -/
structure MemoryManager (β : Type) where
  buffers : Nat → Option UnifiedBuffer
  created : Nat
  mapping : Nat → Nat
  memory : Nat → β

/-- `memcpy` -/
def memcpy {β : Type} (memory : Nat → β) (dst src n : Nat) : Nat → β := fun a =>
  if dst ≤ a ∧ a < dst + n then memory (src + (a - dst)) else memory a

namespace MemoryManager
variable {β : Type} (m : MemoryManager β)

/-- The buffer that `create_buffer` made goes into the map. -/
def store (p size address : Nat) : MemoryManager β :=
  { m with
    buffers := Function.update m.buffers p (some ⟨m.created, size, initDirtyTracking size⟩)
    created := m.created + 1
    mapping := Function.update m.mapping m.created address }

/-- The host pointer is where `create_buffer` maps the memory, unless it fails. -/
def allocate (size : Nat) (created : Option Nat) : MemoryManager β :=
  created.elim m fun p => m.store p size p

def deallocate (p : Nat) : MemoryManager β :=
  if (m.buffers p).isNone then m else { m with buffers := Function.update m.buffers p none }

def registerExternalBuffer (p size : Nat) (created : Option Nat) : MemoryManager β :=
  if p = 0 ∨ size = 0 then m
  else if (m.buffers p).isSome then m
  else created.elim m fun address => { m.store p size address with memory := memcpy m.memory address p size }

/-- Changes the dirty blocks of the buffer known at `p`, if there is one. -/
def mapBlocks (p : Nat) (f : List DirtyBlock → List DirtyBlock) : MemoryManager β :=
  let changed := (m.buffers p).map fun b => { b with blocks := f b.blocks }
  { m with buffers := Function.update m.buffers p changed }

def syncBeforeKernel (p : Nat) : MemoryManager β := m.mapBlocks p transferDirtyBlocks

def syncAfterKernel (p : Nat) : MemoryManager β := m.mapBlocks p markAllDirtyOnDevice

end MemoryManager

/-- What the bindings of a set name. The bytes of a uniform block that nobody wrote are `none`. -/
structure DescriptorSet (β : Type) where
  binding0 : Option Binding := none
  binding1 : Option Binding := none
  uniform : List (Option β) := []

/-- The captures block, of at least 64 bytes. Null captures are empty. -/
def capturesBlock {β : Type} (captures : List β) : List (Option β) :=
  captures.map some ++ List.replicate (64 - captures.length) none

/-- A dispatch that was submitted: what the set in use named then. -/
structure Executed (β : Type) where
  kernel : String
  set : DescriptorSet β
  push : Push β
  groups : Nat

structure KernelLauncher (β : Type) where
  manager : MemoryManager β
  cache : String × Nat → Option (DescriptorSet β)
  /-- Descriptor sets taken from the pool. -/
  sets : Nat

/-- What Vulkan answers during one launch; `created` is asked of a pointer to be registered. -/
structure Outcome where
  created : Nat → Option Nat
  allocatesSet : Bool
  submits : Bool

/-- `range ? range : VK_WHOLE_SIZE` -/
def wholeIfZero (range : Nat) : Option Nat := if range = 0 then none else some range

section
variable {β : Type} (ctx : Context) (o : Outcome)

/-- The buffer and the offset that a launch binds for `p`. -/
def resolve (m : MemoryManager β) (p range : Nat) : MemoryManager β × Option (BufferRef × Nat) :=
  if ctx.contains p then (m, some (.arena, ctx.offsetOf p))
  else
    let known := if (m.buffers p).isNone then m.registerExternalBuffer p range (o.created p) else m
    (known.syncBeforeKernel p, (known.buffers p).map fun b => (.external b.handle, 0))

/-- Recording and submitting with the set as it is. -/
def submit (s : KernelLauncher β) (kernel : String) (set : DescriptorSet β) (count : Nat) :
    KernelLauncher β × Option (Executed β) :=
  if o.submits = false then (s, none) else (s, some ⟨kernel, set, ctx.makePushBlock count, groupsOf count⟩)

/-- A new set is written, and cached under `key` if there is one. -/
def submitNew (s : KernelLauncher β) (key : Option (String × Nat)) (kernel : String) (set : DescriptorSet β)
    (count : Nat) : KernelLauncher β × Option (Executed β) :=
  if o.allocatesSet = false then (s, none)
  else
    submit ctx o { s with
      sets := s.sets + 1
      cache := key.elim s.cache fun key => Function.update s.cache key (some set) } kernel set count

/-- `launch` writes bindings 0 and 2 of a cached set too. -/
def launch (s : KernelLauncher β) (kernel : String) (buffer count es : Nat) :
    KernelLauncher β × Option (Executed β) :=
  if ctx.loaded kernel = false then (s, none)
  else
    let range := wmul count es
    let r := resolve ctx o s.manager buffer range
    let s := { s with manager := r.1 }
    r.2.elim (s, none) fun b =>
      let binding := some ⟨b.1, b.2, some range⟩
      (s.cache (kernel, buffer)).elim
        (submitNew ctx o s (some (kernel, buffer)) kernel ⟨binding, none, capturesBlock []⟩ count) fun set =>
          let set := { set with binding0 := binding, uniform := capturesBlock [] }
          submit ctx o { s with cache := Function.update s.cache (kernel, buffer) (some set) } kernel set count

def launchWithCaptures (s : KernelLauncher β) (kernel : String) (buffer count : Nat) (captures : List β) (es : Nat) :
    KernelLauncher β × Option (Executed β) :=
  if ctx.loaded kernel = false then (s, none)
  else
    let range := wmul count es
    let r := resolve ctx o s.manager buffer range
    let s := { s with manager := r.1 }
    r.2.elim (s, none) fun b =>
      (s.cache (kernel, buffer)).elim
        (submitNew ctx o s (some (kernel, buffer)) kernel
          ⟨some ⟨b.1, b.2, wholeIfZero range⟩, none, capturesBlock captures⟩ count) fun set =>
        submit ctx o s kernel set count

/-- `if (out_elem_size == 0) out_elem_size = elem_size` -/
def outElemSize (es outEs : Nat) : Nat := if outEs = 0 then es else outEs

/-- A transform with captures neither looks at the cache nor enters it. -/
def launchTransform (s : KernelLauncher β) (kernel : String) (input output count es outEs : Nat) (captures : List β) :
    KernelLauncher β × Option (Executed β) :=
  if ctx.loaded kernel = false then (s, none)
  else
    let inSize := wmul count es
    let outSize := wmul count (outElemSize es outEs)
    let r := resolve ctx o s.manager input inSize
    let r' := resolve ctx o r.1 output outSize
    let s := { s with manager := r'.1 }
    r.2.elim (s, none) fun b => r'.2.elim (s, none) fun b' =>
      let set : DescriptorSet β := ⟨some ⟨b.1, b.2, wholeIfZero inSize⟩, some ⟨b'.1, b'.2, wholeIfZero outSize⟩,
        capturesBlock captures⟩
      if captures ≠ [] then submitNew ctx o s none kernel set count
      else
        (s.cache (kernel, output)).elim (submitNew ctx o s (some (kernel, output)) kernel set count) fun set =>
          submit ctx o s kernel set count

end

/-! ### What a launch that dispatches has done -/

section
variable {β : Type} {ctx : Context} {o : Outcome} {s s' : KernelLauncher β} {kernel : String} {e : Executed β}

theorem submit_fst {set : DescriptorSet β} {count : Nat} : (submit ctx o s kernel set count).1 = s := by
  unfold submit
  split <;> rfl

theorem submit_executed {set : DescriptorSet β} {count : Nat} (h : submit ctx o s kernel set count = (s', some e)) :
    s' = s ∧ e.set = set := by
  unfold submit at h
  split at h
  · cases h
  · cases h
    exact ⟨rfl, rfl⟩

theorem submitNew_executed {key : Option (String × Nat)} {set : DescriptorSet β} {count : Nat}
    (h : submitNew ctx o s key kernel set count = (s', some e)) :
    e.set = set ∧ s' = { s with
      sets := s.sets + 1
      cache := key.elim s.cache fun key => Function.update s.cache key (some set) } := by
  unfold submitNew at h
  split at h
  · cases h
  · obtain ⟨same, set⟩ := submit_executed h
    exact ⟨set, same⟩

/-- `launch` has written its binding and cached the set. -/
theorem launch_executed {buffer count es : Nat} (h : launch ctx o s kernel buffer count es = (s', some e)) :
    ∃ b, (resolve ctx o s.manager buffer (wmul count es)).2 = some b ∧
      e.set.binding0 = some ⟨b.1, b.2, some (wmul count es)⟩ ∧
      s' = { manager := (resolve ctx o s.manager buffer (wmul count es)).1
             cache := Function.update s.cache (kernel, buffer) (some e.set)
             sets := s.sets + if (s.cache (kernel, buffer)).isNone then 1 else 0 } := by
  unfold launch at h
  split at h
  · cases h
  · dsimp only at h
    cases found : (resolve ctx o s.manager buffer (wmul count es)).2 with
    | none =>
      rw [found] at h
      cases h
    | some b =>
      rw [found, Option.elim_some] at h
      cases cached : s.cache (kernel, buffer) with
      | none =>
        rw [cached, Option.elim_none] at h
        obtain ⟨set, rfl⟩ := submitNew_executed h
        exact ⟨b, rfl, by rw [set], by rw [set]; rfl⟩
      | some set =>
        rw [cached, Option.elim_some] at h
        obtain ⟨rfl, set⟩ := submit_executed h
        exact ⟨b, rfl, by rw [set], by rw [set]; rfl⟩

/-- `launch_with_captures` has found its set or written a new one. -/
theorem launchWithCaptures_executed {buffer count es : Nat} {captures : List β}
    (h : launchWithCaptures ctx o s kernel buffer count captures es = (s', some e)) :
    ∃ b, (resolve ctx o s.manager buffer (wmul count es)).2 = some b ∧
      s'.manager = (resolve ctx o s.manager buffer (wmul count es)).1 ∧
      (s.cache (kernel, buffer) = some e.set ∧ s'.cache = s.cache ∧ s'.sets = s.sets ∨
        s.cache (kernel, buffer) = none ∧
        e.set = ⟨some ⟨b.1, b.2, wholeIfZero (wmul count es)⟩, none, capturesBlock captures⟩ ∧
        s'.cache = Function.update s.cache (kernel, buffer) (some e.set) ∧ s'.sets = s.sets + 1) := by
  unfold launchWithCaptures at h
  split at h
  · cases h
  · dsimp only at h
    cases found : (resolve ctx o s.manager buffer (wmul count es)).2 with
    | none =>
      rw [found] at h
      cases h
    | some b =>
      rw [found, Option.elim_some] at h
      cases cached : s.cache (kernel, buffer) with
      | none =>
        rw [cached, Option.elim_none] at h
        obtain ⟨set, rfl⟩ := submitNew_executed h
        exact ⟨b, rfl, rfl, Or.inr ⟨rfl, set, by rw [set]; rfl, rfl⟩⟩
      | some set =>
        rw [cached, Option.elim_some] at h
        obtain ⟨rfl, set⟩ := submit_executed h
        exact ⟨b, rfl, rfl, Or.inl ⟨by rw [set], rfl, rfl⟩⟩

/-- `launch_transform` has found its set or written a new one, which it caches if there are no captures. -/
theorem launchTransform_executed {input output count es outEs : Nat} {captures : List β}
    (h : launchTransform ctx o s kernel input output count es outEs captures = (s', some e)) :
    ∃ b b', (resolve ctx o s.manager input (wmul count es)).2 = some b ∧
      (resolve ctx o (resolve ctx o s.manager input (wmul count es)).1 output (wmul count (outElemSize es outEs))).2 =
        some b' ∧
      s'.manager =
        (resolve ctx o (resolve ctx o s.manager input (wmul count es)).1 output (wmul count (outElemSize es outEs))).1 ∧
      (captures = [] ∧ s.cache (kernel, output) = some e.set ∧ s'.cache = s.cache ∧ s'.sets = s.sets ∨
        (captures = [] → s.cache (kernel, output) = none) ∧
        e.set = ⟨some ⟨b.1, b.2, wholeIfZero (wmul count es)⟩,
          some ⟨b'.1, b'.2, wholeIfZero (wmul count (outElemSize es outEs))⟩, capturesBlock captures⟩ ∧
        s'.cache = (if captures = [] then Function.update s.cache (kernel, output) (some e.set) else s.cache) ∧
        s'.sets = s.sets + 1) := by
  unfold launchTransform at h
  split at h
  · cases h
  · dsimp only at h
    generalize wmul count (outElemSize es outEs) = outSize at h ⊢
    generalize wmul count es = inSize at h ⊢
    cases foundIn : (resolve ctx o s.manager input inSize).2 with
    | none =>
      rw [foundIn] at h
      cases h
    | some b =>
      cases foundOut : (resolve ctx o (resolve ctx o s.manager input inSize).1 output outSize).2 with
      | none =>
        rw [foundIn, foundOut] at h
        cases h
      | some b' =>
        rw [foundIn, foundOut, Option.elim_some, Option.elim_some] at h
        refine ⟨b, b', rfl, rfl, ?_⟩
        by_cases capturing : captures = []
        · rw [if_neg (not_not.mpr capturing)] at h
          cases cached : s.cache (kernel, output) with
          | none =>
            rw [cached, Option.elim_none] at h
            obtain ⟨set, rfl⟩ := submitNew_executed h
            exact ⟨rfl, Or.inr ⟨fun _ => rfl, set, by rw [set, if_pos capturing]; rfl, rfl⟩⟩
          | some set =>
            rw [cached, Option.elim_some] at h
            obtain ⟨rfl, set⟩ := submit_executed h
            exact ⟨rfl, Or.inl ⟨capturing, by rw [set], rfl, rfl⟩⟩
        · rw [if_pos capturing] at h
          obtain ⟨set, rfl⟩ := submitNew_executed h
          exact ⟨rfl, Or.inr ⟨fun no => absurd no capturing, set, (if_neg capturing).symm, rfl⟩⟩

/-! ### When a launch dispatches -/

theorem submit_isSome {set : DescriptorSet β} {count : Nat} :
    (submit ctx o s kernel set count).2.isSome ↔ o.submits = true := by
  unfold submit
  cases o.submits <;> simp

theorem submitNew_isSome {key : Option (String × Nat)} {set : DescriptorSet β} {count : Nat} :
    (submitNew ctx o s key kernel set count).2.isSome ↔ o.allocatesSet = true ∧ o.submits = true := by
  unfold submitNew
  cases o.allocatesSet
  · simp
  · simp [submit_isSome]

theorem launchWithCaptures_isSome {buffer count es : Nat} {captures : List β} :
    (launchWithCaptures ctx o s kernel buffer count captures es).2.isSome ↔
      ctx.loaded kernel = true ∧ (resolve ctx o s.manager buffer (wmul count es)).2.isSome ∧
      ((s.cache (kernel, buffer)).isSome ∨ o.allocatesSet = true) ∧ o.submits = true := by
  unfold launchWithCaptures
  cases ctx.loaded kernel with
  | false => simp
  | true =>
    cases found : (resolve ctx o s.manager buffer (wmul count es)).2 with
    | none => simp [found]
    | some b =>
      cases cached : s.cache (kernel, buffer) with
      | none => simp [found, cached, submitNew_isSome]
      | some set => simp [found, cached, submit_isSome]

theorem launchTransform_isSome {input output count es outEs : Nat} {captures : List β} :
    (launchTransform ctx o s kernel input output count es outEs captures).2.isSome ↔
      ctx.loaded kernel = true ∧ (resolve ctx o s.manager input (wmul count es)).2.isSome ∧
      (resolve ctx o (resolve ctx o s.manager input (wmul count es)).1 output
        (wmul count (outElemSize es outEs))).2.isSome ∧
      (captures = [] ∧ (s.cache (kernel, output)).isSome ∨ o.allocatesSet = true) ∧ o.submits = true := by
  unfold launchTransform
  cases ctx.loaded kernel with
  | false => simp
  | true =>
    generalize wmul count (outElemSize es outEs) = outSize
    generalize wmul count es = inSize
    cases foundIn : (resolve ctx o s.manager input inSize).2 with
    | none => simp [foundIn]
    | some b =>
      cases foundOut : (resolve ctx o (resolve ctx o s.manager input inSize).1 output outSize).2 with
      | none => simp [foundIn, foundOut]
      | some b' =>
        by_cases capturing : captures = []
        · cases cached : s.cache (kernel, output) with
          | none => simp [foundIn, foundOut, capturing, cached, submitNew_isSome]
          | some set => simp [foundIn, foundOut, capturing, cached, submit_isSome]
        · simp [foundIn, foundOut, capturing, submitNew_isSome]

end

/-- A call of the launcher. -/
inductive Call (β : Type) where
  | launch (kernel : String) (buffer count es : Nat)
  | launchWithCaptures (kernel : String) (buffer count : Nat) (captures : List β) (es : Nat)
  | launchTransform (kernel : String) (input output count es outEs : Nat) (captures : List β)

/-- The pointer a call reads from, and its bytes. -/
def Call.input {β : Type} : Call β → Nat × Nat
  | .launch _ buffer count es | .launchWithCaptures _ buffer count _ es => (buffer, wmul count es)
  | .launchTransform _ input _ count es _ _ => (input, wmul count es)

/-- The pointer a call writes to, and its bytes. -/
def Call.output {β : Type} : Call β → Nat × Nat
  | .launch _ buffer count es | .launchWithCaptures _ buffer count _ es => (buffer, wmul count es)
  | .launchTransform _ _ output count es outEs _ => (output, wmul count (outElemSize es outEs))

def perform {β : Type} (ctx : Context) (o : Outcome) (s : KernelLauncher β) :
    Call β → KernelLauncher β × Option (Executed β)
  | .launch kernel buffer count es => launch ctx o s kernel buffer count es
  | .launchWithCaptures kernel buffer count captures es => launchWithCaptures ctx o s kernel buffer count captures es
  | .launchTransform kernel input output count es outEs captures =>
    launchTransform ctx o s kernel input output count es outEs captures

/-- An arena of 64 KiB at 4096, and every kernel loaded. -/
def smallArena : Context := ⟨fun _ => true, true, 4096, 0, 65536⟩

end Parallax.Elementwise
