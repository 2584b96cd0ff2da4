import ParallaxRuntime.Effects.Objects
import Mathlib.Data.BitVec

/-!
# The objects of a Vulkan device

The calls by which the runtime makes and destroys objects of its device, what each call needs
to be valid, and the answers of the driver. Failures come as the driver likes.
-/

namespace Parallax.Vulkan
open Effects

inductive Kind where
  | buffer
  | memory
  | mapping
  | shaderModule
  | descriptorSetLayout
  | pipelineLayout
  | pipeline
  | descriptorPool
  | commandPool
  | fence
deriving DecidableEq

/-- A mapping has the number of the memory it maps. `VK_NULL_HANDLE` is 0. -/
structure Handle where
  kind : Kind
  number : Nat
deriving DecidableEq

/-- What a buffer is for: storage, the staging copies, or a uniform block. -/
inductive Usage where
  | storage
  | staging
  | uniform
deriving DecidableEq

/-- `VkBufferCreateInfo` -/
structure BufferInfo where
  size : Nat
  usage : Usage
  deviceAddress : Bool
  imported : Bool
deriving DecidableEq

/-- `VkMemoryAllocateInfo`, with the host pointer that is imported. -/
structure MemoryInfo where
  size : Nat
  type : Nat
  deviceAddress : Bool
  host : Option Nat
deriving DecidableEq

inductive DescriptorType where
  | storageBuffer
  | uniformBuffer
deriving DecidableEq

/-- A buffer becomes a `boundBuffer` when it is bound. -/
inductive CreateInfo where
  | buffer (info : BufferInfo)
  | boundBuffer (info : BufferInfo) (memory : Nat)
  | memory (info : MemoryInfo)
  | mapping (memory size address : Nat)
  | shaderModule (code size : Nat)
  | descriptorSetLayout (bindings : List DescriptorType)
  | pipelineLayout (setLayout pushBytes : Nat)
  | pipeline (shaderModule layout : Nat)
  | descriptorPool (storage uniform sets : Nat)
  | commandPool
  | fence (signaled : Bool)
deriving DecidableEq

@[simp] def CreateInfo.kind : CreateInfo → Kind
  | .buffer _ => .buffer
  | .boundBuffer _ _ => .buffer
  | .memory _ => .memory
  | .mapping _ _ _ => .mapping
  | .shaderModule _ _ => .shaderModule
  | .descriptorSetLayout _ => .descriptorSetLayout
  | .pipelineLayout _ _ => .pipelineLayout
  | .pipeline _ _ => .pipeline
  | .descriptorPool _ _ _ => .descriptorPool
  | .commandPool => .commandPool
  | .fence _ => .fence

/-- Where a mapping is. -/
def CreateInfo.address : CreateInfo → Nat
  | .mapping _ _ p => p
  | _ => 0

/-- The other calls. -/
inductive Query where
  | memoryRequirements (buffer : Nat)
  | memoryProperties
  | hostPointerProperties (p : Nat)
  | address (memory : Nat)
  | bufferDeviceAddress (buffer : Nat)
  | allocateCommandBuffers (pool : Nat)
  | flushMappedMemoryRanges (memory : Nat)
  | invalidateMappedMemoryRanges (memory : Nat)
  | deviceWaitIdle

/-- `memoryTypeBits` and property flags are 32-bit masks. -/
abbrev Answer : Query → Type
  | .memoryRequirements _ => Nat × BitVec 32
  | .memoryProperties => List (BitVec 32)
  | .hostPointerProperties _ => Option (BitVec 32)
  | .address _ => Nat
  | .bufferDeviceAddress _ => Nat
  | .allocateCommandBuffers _ => Option Nat
  | _ => Unit

def deviceLocal : BitVec 32 := 1
def hostVisible : BitVec 32 := 2
def hostCoherent : BitVec 32 := 4

/-- What the driver reports, and which objects it may fail to make, or to bind. `host` is the process's own memory. -/
structure Driver where
  types : List (BitVec 32)
  few : types.length ≤ 32
  requirements : BufferInfo → Nat × BitVec 32
  hostTypes : Nat → Option (BitVec 32)
  host : Nat → Prop
  fails : CreateInfo → Prop

abbrev Objects := Store Handle CreateInfo

/-- The property flags of a memory type, if there is one of that number. -/
def Driver.flags (V : Driver) (type : Nat) : BitVec 32 := V.types.getD type 0

/-- The memory is of a type and a size that the buffer can be bound to. -/
def Driver.Suits (V : Driver) (b : BufferInfo) (m : MemoryInfo) : Prop :=
  (V.requirements b).2.getLsbD m.type = true ∧ (V.requirements b).1 ≤ m.size ∧ (b.deviceAddress = true → m.deviceAddress = true)

/-- The buffer is bound to the memory, or the driver would not bind it. -/
def Driver.Bound (V : Driver) (w : Objects) (b : Nat) (info : BufferInfo) (m : Nat) : Prop :=
  w ⟨.buffer, b⟩ = some (.boundBuffer info m) ∨ V.fails (.boundBuffer info m) ∧ w ⟨.buffer, b⟩ = some (.buffer info)

/-- Valid usage. A buffer is asked what it requires and then bound, once, to memory that suits it. Memory is mapped
once at a time, and only where the host can see it; the address is one that nothing else has. No result of
`vkBindBufferMemory` is looked at, so a buffer that could not be bound is used as if it were. -/
def Driver.rules (V : Driver) : Rules Handle CreateInfo Nat Query Answer where
  needs
    | .boundBuffer _ _, _ => False
    | .mapping m _ _, w => w ⟨.mapping, m⟩ = none ∧
      ∃ info, w ⟨.memory, m⟩ = some (.memory info) ∧ V.flags info.type &&& hostVisible = hostVisible
    | .memory info, _ => ∀ p, info.host = some p → ∃ bits, V.hostTypes p = some bits ∧ bits.getLsbD info.type = true
    | .pipelineLayout l _, w => w ⟨.descriptorSetLayout, l⟩ ≠ none
    | .pipeline s l, w => w ⟨.shaderModule, s⟩ ≠ none ∧ w ⟨.pipelineLayout, l⟩ ≠ none
    | _, _ => True
  changes m i w := ∃ info info', w i = some (.buffer info) ∧ w ⟨.memory, m⟩ = some (.memory info') ∧ V.Suits info info'
  frees _ _ := True
  allows
    | .memoryRequirements b, w => ∃ info, w ⟨.buffer, b⟩ = some (.buffer info)
    | .flushMappedMemoryRanges m, w => w ⟨.mapping, m⟩ ≠ none
    | .invalidateMappedMemoryRanges m, w => w ⟨.mapping, m⟩ ≠ none
    | .bufferDeviceAddress b, w => ∃ info m, V.Bound w b info m ∧ info.deviceAddress = true
    | .allocateCommandBuffers p, w => w ⟨.commandPool, p⟩ ≠ none
    | _, _ => True
  fits info w i := i.kind = info.kind ∧ i.number ≠ 0 ∧ match info with
    | .memory info => info.type < V.types.length ∧ w ⟨.mapping, i.number⟩ = none
    | .mapping m _ _ => i.number = m
    | _ => True
  fails info := V.fails info ∨ match info with
    | .memory info => V.types.length ≤ info.type
    | _ => False
  becomes m
    | .buffer info => .boundBuffer info m
    | d => d
  tells
    | .memoryRequirements b, w, a => ∃ info, w ⟨.buffer, b⟩ = some (.buffer info) ∧ a = V.requirements info
    | .memoryProperties, _, a => a = V.types
    | .hostPointerProperties p, _, a => a = V.hostTypes p
    | .address _, w, p => p ≠ 0 ∧ ¬ V.host p ∧ ∀ m size, w ⟨.mapping, m⟩ ≠ some (.mapping m size p)
    | _, _, _ => True

abbrev Driver.handler (V : Driver) : Handler (objects Handle CreateInfo Nat Query Answer) Objects := V.rules.handler

abbrev Calls := Prog (objects Handle CreateInfo Nat Query Answer)

def create (info : CreateInfo) : Calls (Option Nat) := do
  let i ← Prog.op (S := objects Handle CreateInfo Nat Query Answer) (.make info)
  pure (i.map Handle.number)

def destroy (kind : Kind) (n : Nat) : Calls Unit :=
  Prog.op (S := objects Handle CreateInfo Nat Query Answer) (.drop ⟨kind, n⟩)

/-- `if (h != VK_NULL_HANDLE) vkDestroy(h)` -/
def destroyHeld (kind : Kind) (n : Nat) : Calls Unit := if n ≠ 0 then destroy kind n else pure ()

/-- `vkBindBufferMemory` -/
def bindBufferMemory (buffer memory : Nat) : Calls Bool :=
  Prog.op (S := objects Handle CreateInfo Nat Query Answer) (.change ⟨.buffer, buffer⟩ memory)

/-- The calls that make and change nothing. -/
def query (q : Query) : Calls (Answer q) := Prog.op (S := objects Handle CreateInfo Nat Query Answer) (.ask q)

/-- `vkMapMemory` -/
def mapMemory (memory size : Nat) : Calls (Option Nat) := do
  let p ← query (.address memory)
  let mapped ← create (.mapping memory size p)
  pure (mapped.map fun _ => p)

/-- The handle in a field that may be null. -/
def held (kind : Kind) (n : Nat) : Multiset Handle := if n = 0 then 0 else {⟨kind, n⟩}

/-- `find_memory_type`: the first type that the filter allows and that has the properties, or `UINT32_MAX`. -/
def findMemoryType (types : List (BitVec 32)) (filter props : BitVec 32) : Nat :=
  ((List.range types.length).find? fun i => filter.getLsbD i && types.getD i 0 &&& props == props).getD (2 ^ 32 - 1)

def findType (filter props : BitVec 32) : Calls Nat := do
  let types ← query .memoryProperties
  pure (findMemoryType types filter props)

/-- Memory for a buffer, of the size it requires and of a type it allows. -/
def allocateFor (buffer : Nat) (props : BitVec 32) (deviceAddress : Bool) : Calls (Option Nat) := do
  let req ← query (.memoryRequirements buffer)
  let type ← findType req.2 props
  create (.memory ⟨req.1, type, deviceAddress, none⟩)

def Driver.memoryFor (V : Driver) (b : BufferInfo) (props : BitVec 32) (deviceAddress : Bool) : MemoryInfo :=
  ⟨(V.requirements b).1, findMemoryType V.types (V.requirements b).2 props, deviceAddress, none⟩

@[simp] theorem held_zero {kind : Kind} : held kind 0 = 0 := rfl

theorem held_pos {kind : Kind} {n : Nat} (h : n ≠ 0) : held kind n = {⟨kind, n⟩} := if_neg h

section
variable {V : Driver} {α : Type} {Q : α → Objects → Prop} {hs : Multiset Handle} {base w : Objects}

/-- A type that was found is allowed and has the properties. -/
theorem findMemoryType_spec {filter props : BitVec 32} (exists' : findMemoryType V.types filter props < V.types.length) :
    filter.getLsbD (findMemoryType V.types filter props) = true ∧
      V.flags (findMemoryType V.types filter props) &&& props = props := by
  unfold findMemoryType at exists' ⊢
  cases found : (List.range V.types.length).find? fun i => filter.getLsbD i && V.types.getD i 0 &&& props == props with
  | none =>
    have := V.few
    simp only [found, Option.getD_none] at exists'
    omega
  | some i =>
    have := List.find?_some found
    simpa [Driver.flags] using this

theorem flags_of_subset {type : Nat} {props part : BitVec 32} (has : V.flags type &&& props = props)
    (sub : props &&& part = part) : V.flags type &&& part = part := by
  have := congrArg (· &&& part) has
  simp only [BitVec.and_assoc, sub] at this
  exact this

theorem Driver.suits_memoryFor {b : BufferInfo} {props : BitVec 32} {deviceAddress : Bool}
    (exists' : (V.memoryFor b props deviceAddress).type < V.types.length) (addressed : b.deviceAddress = true → deviceAddress = true) :
    V.Suits b (V.memoryFor b props deviceAddress) := ⟨(findMemoryType_spec exists').1, le_rfl, addressed⟩

/-- The object `n` of `w'` is new, and everything else is as in `w`. -/
structure Made (V : Driver) (w : Objects) (info : CreateInfo) (n : Nat) (w' : Objects) : Prop where
  fits : V.rules.fits info w ⟨info.kind, n⟩
  unused : w ⟨info.kind, n⟩ = none
  here : w' ⟨info.kind, n⟩ = some info
  kept : ∀ i x, w i = some x → w' i = some x
  others : ∀ i, i ≠ ⟨info.kind, n⟩ → w' i = w i

theorem Made.nonzero {info : CreateInfo} {n : Nat} {w' : Objects} (made : Made V w info n w') : n ≠ 0 := made.fits.2.1

theorem ensures_create {info : CreateInfo} {k : Option Nat → Calls α} (owns : Owns hs base w) (needs : V.rules.needs info w)
    (no : V.rules.fails info → (k none).Ensures V.handler Q w)
    (yes : ∀ n w', Made V w info n w' → Owns (held info.kind n + hs) base w' → (k (some n)).Ensures V.handler Q w') :
    (create info >>= k).Ensures V.handler Q w := by
  have made : (Prog.op (S := objects Handle CreateInfo Nat Query Answer) (.make info) >>= fun i =>
      k (i.map Handle.number)).Ensures V.handler Q w := by
    apply ensures_make owns needs
    · exact no
    · intro i fits new owned
      obtain ⟨kind, n⟩ := i
      obtain rfl : kind = info.kind := fits.1
      apply yes n _ ⟨fits, new, Function.update_self .., fun _ _ => update_kept new, fun _ other => Function.update_of_ne other ..⟩
      rw [held_pos fits.2.1]
      exact owned
  exact made

/-- Whether or not the object could be made, the field holds what there is of it. -/
theorem ensures_create_getD {info : CreateInfo} {k : Option Nat → Calls α} (owns : Owns hs base w)
    (needs : V.rules.needs info w) (rest : ∀ o w', (∀ i x, w i = some x → w' i = some x) →
      Owns (held info.kind (o.getD 0) + hs) base w' → (k o).Ensures V.handler Q w') :
    (create info >>= k).Ensures V.handler Q w := by
  apply ensures_create owns needs
  · intro _
    apply rest _ _ fun _ _ found => found
    rw [Option.getD_none, held_zero, Multiset.zero_add]
    exact owns
  · intro n w' made owned
    exact rest (some n) w' made.kept owned

theorem ensures_destroy {kind : Kind} {n : Nat} {k : Unit → Calls α} (nonzero : n ≠ 0) (owns : Owns (held kind n + hs) base w)
    (rest : ∀ w', Owns hs base w' → (k ()).Ensures V.handler Q w') : (destroy kind n >>= k).Ensures V.handler Q w := by
  rw [held_pos nonzero, Multiset.singleton_add] at owns
  exact ensures_drop owns trivial (rest _)

theorem ensures_destroyHeld {kind : Kind} {n : Nat} {k : Unit → Calls α} (owns : Owns (held kind n + hs) base w)
    (rest : ∀ w', Owns hs base w' → (k ()).Ensures V.handler Q w') : (destroyHeld kind n >>= k).Ensures V.handler Q w := by
  unfold destroyHeld
  split
  · next nonzero => exact ensures_destroy nonzero owns rest
  · next zero =>
    obtain rfl := not_not.mp zero
    rw [held_zero, Multiset.zero_add] at owns
    exact rest w owns

theorem ensures_query {q : Query} {k : Answer q → Calls α} (allows : V.rules.allows q w)
    (rest : ∀ a, V.rules.tells q w a → (k a).Ensures V.handler Q w) : (query q >>= k).Ensures V.handler Q w :=
  ensures_ask allows rest

theorem Driver.Bound.kept {b m : Nat} {info : BufferInfo} {w' : Objects} (h : V.Bound w b info m)
    (kept : ∀ i x, w i = some x → w' i = some x) : V.Bound w' b info m :=
  h.imp (kept _ _) fun h => ⟨h.1, kept _ _ h.2⟩

theorem Driver.Bound.same {b m : Nat} {info : BufferInfo} {w' : Objects} (h : V.Bound w b info m)
    (same : w' ⟨.buffer, b⟩ = w ⟨.buffer, b⟩) : V.Bound w' b info m := by
  unfold Driver.Bound
  rw [same]
  exact h

/-- Only the buffer changes, if anything does. -/
theorem ensures_bind {b m : Nat} {info : BufferInfo} {info' : MemoryInfo} {k : Bool → Calls α} (owns : Owns hs base w)
    (mine : ⟨.buffer, b⟩ ∈ hs) (found : w ⟨.buffer, b⟩ = some (.buffer info)) (memory : w ⟨.memory, m⟩ = some (.memory info'))
    (suits : V.Suits info info') (rest : ∀ ok w', V.Bound w' b info m → (∀ i, i ≠ ⟨.buffer, b⟩ → w' i = w i) → Owns hs base w' →
      (k ok).Ensures V.handler Q w') : (bindBufferMemory b m >>= k).Ensures V.handler Q w := by
  refine ensures_change owns mine found ⟨info, info', found, memory, suits⟩ ?_ ?_
  · rintro (fails | missing)
    · exact rest false w (Or.inr ⟨fails, found⟩) (fun _ _ => rfl) owns
    · exact missing.elim
  · intro owned
    exact rest true _ (Or.inl (Function.update_self ..)) (fun i other => Function.update_of_ne other ..) owned

theorem ensures_findType {filter props : BitVec 32} {k : Nat → Calls α}
    (rest : (k (findMemoryType V.types filter props)).Ensures V.handler Q w) :
    (findType filter props >>= k).Ensures V.handler Q w := by
  unfold findType
  rw [Prog.bind_assoc]
  apply ensures_query
  · trivial
  · intro types told
    obtain rfl : types = V.types := told
    exact rest

theorem ensures_allocateFor {b : Nat} {info : BufferInfo} {props : BitVec 32} {deviceAddress : Bool} {k : Option Nat → Calls α}
    (owns : Owns hs base w) (found : w ⟨.buffer, b⟩ = some (.buffer info))
    (no : V.rules.fails (.memory (V.memoryFor info props deviceAddress)) → (k none).Ensures V.handler Q w)
    (yes : ∀ m w', Made V w (.memory (V.memoryFor info props deviceAddress)) m w' → Owns (held .memory m + hs) base w' →
      (k (some m)).Ensures V.handler Q w') : (allocateFor b props deviceAddress >>= k).Ensures V.handler Q w := by
  unfold allocateFor
  rw [Prog.bind_assoc]
  apply ensures_query
  · simp [Driver.rules, found]
  intro req told
  obtain ⟨info', found', rfl⟩ := told
  obtain rfl : info = info' := by simpa [found] using found'
  rw [Prog.bind_assoc]
  apply ensures_findType
  apply ensures_create owns
  · simp [Driver.rules]
  · exact no
  · exact yes

/-- Finitely many objects leave a number that is none of theirs, and an address where nothing is mapped. -/
theorem exists_number (few : Few (fun i : Handle => i.number ≠ 0) w) : ∃ n, n ≠ 0 ∧ ∀ kind, w ⟨kind, n⟩ = none := by
  obtain ⟨n, unused⟩ := ((few.finite.image Handle.number).insert 0).exists_notMem
  rw [Set.mem_insert_iff, not_or] at unused
  refine ⟨n, unused.1, fun kind => ?_⟩
  by_contra alive
  exact unused.2 ⟨⟨kind, n⟩, alive, rfl⟩

theorem exists_address (few : Few (fun i : Handle => i.number ≠ 0) w) (room : {p | ¬ V.host p}.Infinite) :
    ∃ p, p ≠ 0 ∧ ¬ V.host p ∧ ∀ m size, w ⟨.mapping, m⟩ ≠ some (.mapping m size p) := by
  let used : Set Nat := {p | ∃ i ∈ {i | w i ≠ none}, (w i).elim 0 CreateInfo.address = p}
  have finite : used.Finite := few.finite.image fun i => (w i).elim 0 CreateInfo.address
  obtain ⟨p, outside, unused⟩ := room.exists_notMem_finite (finite.insert 0)
  rw [Set.mem_insert_iff, not_or] at unused
  refine ⟨p, unused.1, outside, fun m size mapped => unused.2 ⟨⟨.mapping, m⟩, ?_, ?_⟩⟩
  · simp [mapped]
  · simp [mapped, CreateInfo.address]

/-- The driver can answer every valid call, as long as it has addresses to map at. -/
theorem Driver.roomy (room : {p | ¬ V.host p}.Infinite) : V.rules.Roomy fun i => i.number ≠ 0 := by
  constructor
  · intro d w few needs
    obtain ⟨n, nonzero, unused⟩ := exists_number few
    cases d with
    | mapping m size p =>
      obtain ⟨unmapped, info, memory, -⟩ := needs
      have alive : m ≠ 0 := few.good ⟨.memory, m⟩ (by simp [memory])
      exact Or.inr ⟨⟨.mapping, m⟩, alive, ⟨rfl, alive, rfl⟩, unmapped⟩
    | memory info =>
      by_cases known : info.type < V.types.length
      · exact Or.inr ⟨⟨.memory, n⟩, nonzero, ⟨rfl, nonzero, known, unused _⟩, unused _⟩
      · exact Or.inl (Or.inr (Nat.le_of_not_lt known))
    | boundBuffer info m => exact needs.elim
    | _ => exact Or.inr ⟨⟨_, n⟩, nonzero, ⟨rfl, nonzero, trivial⟩, unused _⟩
  · intro q w few allows
    cases q with
    | memoryRequirements b =>
      obtain ⟨info, found⟩ := allows
      exact ⟨_, info, found, rfl⟩
    | memoryProperties => exact ⟨_, rfl⟩
    | hostPointerProperties p => exact ⟨_, rfl⟩
    | address m => exact exists_address few room
    | bufferDeviceAddress b => exact ⟨0, trivial⟩
    | allocateCommandBuffers p => exact ⟨none, trivial⟩
    | _ => exact ⟨(), trivial⟩

/-- A program that is safe from no objects on has a run. -/
theorem exists_run_from {p : Calls α} (room : {p | ¬ V.host p}.Infinite) (h : p.Ensures V.handler Q fun _ => none) :
    ∃ r w, p.Run V.handler.step (fun _ => none) r w ∧ Q r w := by
  obtain ⟨r, w, run, -⟩ := h.exists_run_within ⟨by simp, by simp⟩ (Driver.roomy room).progress
  exact ⟨r, w, run, h.run run⟩

/-- Memory that was just made of a host-visible type, and to which a buffer was bound, can be mapped. -/
theorem Made.mappable {info : MemoryInfo} {b m size p : Nat} {w' w'' : Objects} (made : Made V w (.memory info) m w')
    (others : ∀ i, i ≠ ⟨.buffer, b⟩ → w'' i = w' i) (visible : V.flags info.type &&& hostVisible = hostVisible) :
    V.rules.needs (.mapping m size p) w'' := by
  have unmapped : w' ⟨.mapping, m⟩ = none := (made.others _ (by simp)).trans made.fits.2.2.2
  exact ⟨(others _ (by simp)).trans unmapped, info, (others _ (by simp)).trans made.here, visible⟩

theorem ensures_mapMemory {m size : Nat} {k : Option Nat → Calls α} (owns : Owns hs base w)
    (needs : ∀ p, V.rules.needs (.mapping m size p) w) (no : (∃ p, V.rules.fails (.mapping m size p)) → (k none).Ensures V.handler Q w)
    (yes : ∀ p w', V.rules.tells (.address m) w p → Made V w (.mapping m size p) m w' → Owns (held .mapping m + hs) base w' →
      (k (some p)).Ensures V.handler Q w') : (mapMemory m size >>= k).Ensures V.handler Q w := by
  unfold mapMemory
  rw [Prog.bind_assoc]
  apply ensures_query
  · trivial
  intro p told
  rw [Prog.bind_assoc]
  apply ensures_create owns (needs p)
  · exact fun fails => no ⟨p, fails⟩
  · intro n w' made owned
    obtain rfl : n = m := made.fits.2.2
    exact yes p w' told made owned

/-- The buffer was bound to the memory and the memory was mapped at `p`, where nothing else is. -/
structure BoundAndMapped (V : Driver) (w : Objects) (b : Nat) (info : BufferInfo) (m size p : Nat) (w' : Objects) : Prop where
  memory : m ≠ 0
  bound : V.Bound w' b info m
  mapping : w' ⟨.mapping, m⟩ = some (.mapping m size p)
  address : p ≠ 0 ∧ ¬ V.host p ∧ ∀ n size, w ⟨.mapping, n⟩ ≠ some (.mapping n size p)
  kept : ∀ i x, i ≠ ⟨.buffer, b⟩ → w i = some x → w' i = some x

/-- A buffer is bound to memory that was just made of a type that the host can see, and the memory is mapped. -/
theorem ensures_bindAndMap {b m size : Nat} {info : BufferInfo} {info' : MemoryInfo} {k : Option Nat → Calls α} {first : Objects}
    (owns : Owns hs base w) (mine : ⟨.buffer, b⟩ ∈ hs) (found : w ⟨.buffer, b⟩ = some (.buffer info))
    (made : Made V first (.memory info') m w) (suits : V.Suits info info') (visible : V.flags info'.type &&& hostVisible = hostVisible)
    (no : ∀ w', Owns hs base w' → (k none).Ensures V.handler Q w')
    (yes : ∀ p w', BoundAndMapped V w b info m size p w' → Owns (held .mapping m + hs) base w' → (k (some p)).Ensures V.handler Q w') :
    (bindBufferMemory b m >>= fun _ => mapMemory m size >>= k).Ensures V.handler Q w := by
  apply ensures_bind owns mine found made.here suits
  intro _ w₁ bound others owns
  apply ensures_mapMemory owns
  · exact fun p => made.mappable others visible
  · exact fun _ => no w₁ owns
  intro p w₂ ⟨nonzero, outside, other⟩ mapped owns
  refine yes p w₂ ⟨mapped.nonzero, bound.kept mapped.kept, mapped.here, ⟨nonzero, outside, fun n size used => ?_⟩,
    fun i x away here => ?_⟩ owns
  · exact other n size ((others _ (by simp)).trans used)
  · exact mapped.kept i x ((others i away).trans here)

end

end Parallax.Vulkan
