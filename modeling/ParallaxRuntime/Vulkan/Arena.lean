import ParallaxRuntime.Vulkan.Backend
import ParallaxRuntime.Vulkan.Kernels
import ParallaxRuntime.Arena.Legacy

/-!
# The objects of the arena

`UnifiedArena::initialize`, `initialize_from_pool` and `destroy`: one device buffer with its memory,
mapped, staged through a second buffer, or imported from the heap pool.
-/

namespace Parallax.Vulkan
open Effects Memory Arena

/-- `PARALLAX_ARENA_SIZE` in MiB, 0 where it is not set, and the switches that are set. -/
structure Environment where
  sizeMb : Nat
  forceStaging : Bool
  forceLegacy : Bool

structure UnifiedArena where
  buffer : Nat := 0
  memory : Nat := 0
  hostBase : Nat := 0
  deviceAddress : Nat := 0
  uma : Bool := true
  poolBacked : Bool := false
  stagingBuffer : Nat := 0
  stagingMemory : Nat := 0
  xferPool : Nat := 0
  xferCmd : Nat := 0
  xferFence : Nat := 0
  capacity : Nat := 0
  blocks : Legacy.State := {}

def kDefaultCapacity : Nat := 256 * 1024 * 1024

/-- `UINT32_MAX`, the memory type that is none. -/
def noType : Nat := 2 ^ 32 - 1

/-- The capacity with the override, rounded up to the alignment. -/
def arenaCapacity (sizeMb capacity : Nat) : Nat :=
  Legacy.alignUp (if sizeMb > 0 then wmul (wmul sizeMb 1024) 1024 else capacity) Legacy.kDefaultAlignment

/-- The first memory type in the mask. -/
def firstType (bits : BitVec 32) : Nat := ((List.range 32).find? bits.getLsbD).getD 32

namespace UnifiedArena

/-- The fields that `destroy` looks at, in its order. -/
def fields (a : UnifiedArena) : List (Kind × Nat) :=
  [(.fence, a.xferFence), (.commandPool, a.xferPool), (.buffer, a.stagingBuffer), (.memory, a.stagingMemory),
    (.buffer, a.buffer), (.memory, a.memory)]

/-- The memory that is mapped for the host. -/
def hostMemory (a : UnifiedArena) : Nat := if a.uma then a.memory else a.stagingMemory

/-- `destroy` -/
def destroyArena (a : UnifiedArena) : Calls UnifiedArena := do
  if a.hostBase ≠ 0 ∧ a.poolBacked = false then
    destroy .mapping a.hostMemory
    destroyFields a.fields
    pure { xferCmd := if a.xferPool ≠ 0 then 0 else a.xferCmd }
  else
    destroyFields a.fields
    pure { xferCmd := if a.xferPool ≠ 0 then 0 else a.xferCmd }

/-- `destroy(); return false;` -/
def fail (a : UnifiedArena) : Calls (Bool × UnifiedArena) := do
  let a ← a.destroyArena
  pure (false, a)

/-- Device memory that the host can see is mapped directly. -/
def initializeMapped (a : UnifiedArena) (caps : Capabilities) (size type : Nat) : Calls (Bool × UnifiedArena) := do
  let a := { a with uma := true }
  match ← create (.memory ⟨size, type, caps.bufferDeviceAddress, none⟩) with
  | none => a.fail
  | some m =>
    let a := { a with memory := m }
    let _ ← bindBufferMemory a.buffer m
    match ← mapMemory m a.capacity with
    | none => a.fail
    | some p => pure (true, { a with hostBase := p })

/-- The host's side of the discrete path: the staging buffer, mapped, and what the copies need. -/
def initializeStaging (a : UnifiedArena) : Calls (Bool × UnifiedArena) := do
  match ← create (.buffer ⟨a.capacity, .staging, false, false⟩) with
  | none => a.fail
  | some s =>
    let a := { a with stagingBuffer := s }
    let req ← query (.memoryRequirements s)
    let type ← findType req.2 (hostVisible ||| hostCoherent)
    if type = noType then a.fail
    else
      match ← create (.memory ⟨req.1, type, false, none⟩) with
      | none => a.fail
      | some m =>
        let a := { a with stagingMemory := m }
        let _ ← bindBufferMemory s m
        match ← mapMemory m a.capacity with
        | none => a.fail
        | some p =>
          let pool ← create .commandPool
          let cmd ← query (.allocateCommandBuffers (pool.getD 0))
          let fence ← create (.fence false)
          pure (true, { a with hostBase := p, xferPool := pool.getD 0, xferCmd := cmd.getD 0, xferFence := fence.getD 0 })

def initializeDiscrete (a : UnifiedArena) (caps : Capabilities) (req : Nat × BitVec 32) : Calls (Bool × UnifiedArena) := do
  let a := { a with uma := false }
  let type ← findType req.2 deviceLocal
  if type = noType then a.fail
  else
    match ← create (.memory ⟨req.1, type, caps.bufferDeviceAddress, none⟩) with
    | none => a.fail
    | some m =>
      let a := { a with memory := m }
      let _ ← bindBufferMemory a.buffer m
      a.initializeStaging

/-- `PARALLAX_FORCE_STAGING` takes the discrete path on any device. -/
def mappedType (env : Environment) (filter : BitVec 32) : Calls Nat :=
  if env.forceStaging then pure noType else findType filter (deviceLocal ||| hostVisible ||| hostCoherent)

def initializeMemory (a : UnifiedArena) (caps : Capabilities) (env : Environment) (req : Nat × BitVec 32) :
    Calls (Bool × UnifiedArena) := do
  let type ← mappedType env req.2
  if type ≠ noType then a.initializeMapped caps req.1 type else a.initializeDiscrete caps req

/-- The buffer's address, where the device has addresses. -/
def takeAddress (a : UnifiedArena) (caps : Capabilities) : Calls UnifiedArena :=
  if caps.bufferDeviceAddress then do
    let address ← query (.bufferDeviceAddress a.buffer)
    pure { a with deviceAddress := address }
  else pure a

/-- `initialize` -/
def initializeArena (a : UnifiedArena) (caps : Capabilities) (env : Environment) (capacity : Nat) :
    Calls (Bool × UnifiedArena) := do
  let a := { a with capacity := arenaCapacity env.sizeMb capacity }
  match ← create (.buffer ⟨a.capacity, .storage, caps.bufferDeviceAddress, false⟩) with
  | none => pure (false, a)
  | some b =>
    let a := { a with buffer := b }
    let req ← query (.memoryRequirements b)
    let r ← a.initializeMemory caps env req
    if r.1 then
      let a ← r.2.takeAddress caps
      pure (true, { a with blocks := { a.blocks with bump := 0, highWater := 0 } })
    else pure r

/-- `initialize_from_pool`, given `px_pool_base()` and `px_pool_reservation()`; `proc`: the extension's
function was found. -/
def initializeFromPool (a : UnifiedArena) (caps : Capabilities) (proc : Bool) (base res : Nat) : Calls (Bool × UnifiedArena) := do
  if caps.externalMemoryHost = false then pure (false, a)
  else if base = 0 ∨ res = 0 then pure (false, a)
  else if base % caps.minImportedHostPointerAlignment ≠ 0 then pure (false, a)
  else if proc = false then pure (false, a)
  else
    match ← query (.hostPointerProperties base) with
    | none => pure (false, a)
    | some types =>
      if types = 0 then pure (false, a)
      else
        match ← create (.buffer ⟨res, .storage, caps.bufferDeviceAddress, true⟩) with
        | none => pure (false, a)
        | some b =>
          let a := { a with buffer := b }
          let req ← query (.memoryRequirements b)
          let bits := req.2 &&& types
          if bits = 0 then a.fail
          else
            match ← create (.memory ⟨res, firstType bits, caps.bufferDeviceAddress, some base⟩) with
            | none => a.fail
            | some m =>
              let a := { a with memory := m }
              let _ ← bindBufferMemory b m
              let a ← a.takeAddress caps
              pure (true, { a with hostBase := base, capacity := res, uma := true, poolBacked := true })

/-- What the arena's fields name. -/
def holds (a : UnifiedArena) : Multiset Handle :=
  (if a.hostBase ≠ 0 ∧ a.poolBacked = false then {⟨.mapping, a.hostMemory⟩} else 0) + heldBy a.fields

def bufferInfo (a : UnifiedArena) (caps : Capabilities) : BufferInfo :=
  ⟨a.capacity, .storage, caps.bufferDeviceAddress, a.poolBacked⟩

/-- What an arena is that can be used. The host sees its memory, or the staging memory; a pool-backed
one is the memory of the heap pool. -/
structure Ready (V : Driver) (caps : Capabilities) (a : UnifiedArena) (w : Objects) : Prop where
  hostBase : a.hostBase ≠ 0
  buffer : V.Bound w a.buffer (a.bufferInfo caps) a.memory
  memory : ∃ m, w ⟨.memory, a.memory⟩ = some (.memory m) ∧ V.Suits (a.bufferInfo caps) m ∧
    if a.poolBacked then m.host = some a.hostBase else V.flags m.type &&& deviceLocal = deviceLocal
  mapped : a.poolBacked = false → w ⟨.mapping, a.hostMemory⟩ = some (.mapping a.hostMemory a.capacity a.hostBase) ∧
    ∃ m, w ⟨.memory, a.hostMemory⟩ = some (.memory m) ∧
      V.flags m.type &&& (hostVisible ||| hostCoherent) = hostVisible ||| hostCoherent
  staged : a.uma = false → V.Bound w a.stagingBuffer ⟨a.capacity, .staging, false, false⟩ a.stagingMemory
  address : caps.bufferDeviceAddress = false → a.deviceAddress = 0
  blocks : a.blocks = {}

/-- The arena is ready and holds what it made, or nothing is left of the attempt. -/
def Attempted (V : Driver) (caps : Capabilities) (how : UnifiedArena → Prop) (base : Objects) (r : Bool × UnifiedArena)
    (w : Objects) : Prop :=
  (r.1 = true ∧ how r.2 ∧ Ready V caps r.2 w ∧ Owns r.2.holds base w) ∨ (r.1 = false ∧ r.2 = { capacity := r.2.capacity } ∧ w = base)

section
variable {V : Driver} {base w : Objects} {hs : Multiset Handle} {a : UnifiedArena} {caps : Capabilities} {b c : Nat}

theorem ensures_destroyArena (owns : Owns (a.holds + hs) base w) : a.destroyArena.Ensures V.handler (fun a' w' =>
    a' = { xferCmd := if a.xferPool ≠ 0 then 0 else a.xferCmd } ∧ Owns hs base w') w := by
  unfold destroyArena
  unfold holds at owns
  split
  · next mapped =>
    rw [if_pos mapped, add_assoc, Multiset.singleton_add] at owns
    apply ensures_drop owns trivial
    intro owns
    apply (ensures_destroyFields owns).bind
    exact fun _ w' left => ⟨rfl, left⟩
  · next unmapped =>
    rw [if_neg unmapped, zero_add] at owns
    apply (ensures_destroyFields owns).bind
    exact fun _ w' left => ⟨rfl, left⟩

theorem ensures_fail {how : UnifiedArena → Prop} (owns : Owns a.holds base w) (cmd : a.xferCmd = 0) :
    a.fail.Ensures V.handler (Attempted V caps how base) w := by
  unfold fail
  rw [← add_zero a.holds] at owns
  apply (ensures_destroyArena owns).bind
  rintro _ w' ⟨rfl, left⟩
  exact Or.inr ⟨rfl, by simp [cmd], owns_zero.mp left⟩

/-- The arena right after its buffer was made. -/
def fresh (b c : Nat) : UnifiedArena := { buffer := b, capacity := c }

theorem ensures_initializeMapped {size type : Nat} (owns : Owns (fresh b c).holds base w) (nonzero : b ≠ 0)
    (made : w ⟨.buffer, b⟩ = some (.buffer ((fresh b c).bufferInfo caps)))
    (suits : V.Suits ((fresh b c).bufferInfo caps) ⟨size, type, caps.bufferDeviceAddress, none⟩)
    (has : V.flags type &&& (deviceLocal ||| hostVisible ||| hostCoherent) = deviceLocal ||| hostVisible ||| hostCoherent) :
    ((fresh b c).initializeMapped caps size type).Ensures V.handler (Attempted V caps (·.poolBacked = false) base) w := by
  unfold initializeMapped
  apply ensures_create owns
  · simp [Driver.rules]
  · exact fun _ => ensures_fail owns rfl
  intro m w₁ made' owns
  have owned : Owns ({ fresh b c with memory := m } : UnifiedArena).holds base w₁ := by
    simpa [holds, fields, fresh, add_comm] using owns
  have visible : V.flags type &&& (hostVisible ||| hostCoherent) = hostVisible ||| hostCoherent :=
    flags_of_subset has (by decide)
  apply ensures_bindAndMap owned (by simp [holds, fields, fresh, heldBy, held_pos nonzero]) (made'.kept _ _ made) made' suits
    (flags_of_subset has (by decide))
  · exact fun _ owned => ensures_fail owned rfl
  intro p w₂ ready owns
  have memory := ready.kept ⟨.memory, m⟩ _ (by simp) made'.here
  refine Or.inl ⟨rfl, rfl, ⟨ready.address.1, ready.bound, ?_, ?_, ?_, ?_, rfl⟩, ?_⟩
  · exact ⟨_, memory, suits, flags_of_subset has (by decide)⟩
  · exact fun _ => ⟨ready.mapping, _, memory, visible⟩
  · simp [fresh]
  · simp [fresh]
  · simpa [holds, fields, fresh, ready.address.1, hostMemory, held_pos ready.memory] using owns

theorem type_found {V : Driver} {filter props : BitVec 32} (found : findMemoryType V.types filter props ≠ noType) :
    findMemoryType V.types filter props < V.types.length := by
  unfold findMemoryType at found ⊢
  cases first : (List.range V.types.length).find? fun i => filter.getLsbD i && V.types.getD i 0 &&& props == props with
  | none =>
    rw [first] at found
    exact absurd rfl found
  | some i => exact List.mem_range.mp (List.mem_of_find?_eq_some first)

/-- The arena of a discrete device before there is anything for the host. -/
def unstaged (b c m : Nat) : UnifiedArena := { buffer := b, capacity := c, uma := false, memory := m }

theorem ensures_initializeStaging (pools : ¬ V.fails .commandPool) {m : Nat} {info : MemoryInfo}
    (owns : Owns (unstaged b c m).holds base w) (bound : V.Bound w b ((fresh b c).bufferInfo caps) m)
    (found : w ⟨.memory, m⟩ = some (.memory info))
    (suits : V.Suits ((fresh b c).bufferInfo caps) info) (has : V.flags info.type &&& deviceLocal = deviceLocal) :
    (unstaged b c m).initializeStaging.Ensures V.handler (Attempted V caps (·.poolBacked = false) base) w := by
  unfold initializeStaging
  apply ensures_create owns
  · trivial
  · exact fun _ => ensures_fail owns rfl
  intro s w₁ new owns
  have owned : Owns ({ unstaged b c m with stagingBuffer := s } : UnifiedArena).holds base w₁ := by
    simpa [holds, fields, unstaged] using owns
  have here : w₁ ⟨.buffer, s⟩ = some (.buffer ⟨c, .staging, false, false⟩) := new.here
  apply ensures_query
  · simp [Driver.rules, here]
  intro req told
  obtain ⟨info', same, rfl⟩ := told
  obtain rfl : ⟨c, .staging, false, false⟩ = info' := by simpa [here] using same
  apply ensures_findType
  apply Prog.ensures_ite
  · exact fun _ => ensures_fail owned rfl
  intro exists'
  obtain ⟨allowed, visible⟩ := findMemoryType_spec (type_found exists')
  apply ensures_create owned
  · simp [Driver.rules]
  · exact fun _ => ensures_fail owned rfl
  intro m' w₂ new' owns
  have owned : Owns ({ unstaged b c m with stagingBuffer := s, stagingMemory := m' } : UnifiedArena).holds base w₂ := by
    have same : ({ unstaged b c m with stagingBuffer := s, stagingMemory := m' } : UnifiedArena).holds =
        held .memory m' + ({ unstaged b c m with stagingBuffer := s } : UnifiedArena).holds := by
      simp only [holds, fields, unstaged, heldBy, held_zero, List.map_cons, List.map_nil, List.sum_cons, List.sum_nil,
        ne_eq, not_true_eq_false, false_and, if_false, zero_add]
      abel
    rw [same]
    exact owns
  apply ensures_bindAndMap owned (by simp [holds, fields, unstaged, heldBy, held_pos new.nonzero]) (new'.kept _ _ here) new'
    ⟨allowed, le_rfl, by simp⟩ (flags_of_subset visible (by decide))
  · exact fun _ owned => ensures_fail owned rfl
  intro p w₃ staged owns
  apply ensures_create owns
  · trivial
  · rintro (fails | missing)
    · exact absurd fails pools
    · exact missing.elim
  intro pool w₄ pooled owns
  have alive : w₄ ⟨.commandPool, pool⟩ = _ := pooled.here
  apply ensures_query
  · simp [Driver.rules, alive]
  intro cmd _
  apply ensures_create_getD owns
  · trivial
  intro fence w₅ kept owns
  have later : ∀ i x, w₃ i = some x → w₅ i = some x := fun i x found => kept i x (pooled.kept i x found)
  have before : ∀ i x, w i = some x → w₃ i = some x := by
    intro i x found
    have other : i ≠ ⟨.buffer, s⟩ := by
      rintro rfl
      exact absurd (new.unused.symm.trans found) (by simp)
    exact staged.kept i x other (new'.kept i x (new.kept i x found))
  have memory := staged.kept ⟨.memory, m'⟩ _ (by simp) new'.here
  refine Or.inl ⟨rfl, rfl, ⟨staged.address.1, ?_, ?_, ?_, ?_, ?_, rfl⟩, ?_⟩
  · exact (bound.kept before).kept later
  · exact ⟨info, later _ _ (before _ _ found), suits, has⟩
  · exact fun _ => ⟨later _ _ staged.mapping, _, later _ _ memory, visible⟩
  · exact fun _ => staged.bound.kept later
  · simp [unstaged]
  · have same : UnifiedArena.holds
          { unstaged b c m with
            stagingBuffer := s, stagingMemory := m', hostBase := p
            xferPool := pool, xferCmd := cmd.getD 0, xferFence := fence.getD 0 } =
        held .fence (fence.getD 0) + (held .commandPool pool + (held .mapping m' +
          ({ unstaged b c m with stagingBuffer := s, stagingMemory := m' } : UnifiedArena).holds)) := by
      simp only [holds, fields, unstaged, heldBy, hostMemory, held_zero, held_pos staged.memory, List.map_cons, List.map_nil,
        List.sum_cons, List.sum_nil, ne_eq, staged.address.1, not_true_eq_false, not_false_eq_true, false_and, true_and, if_false,
        if_true, zero_add, Bool.false_eq_true]
      abel
    rw [show (some pool).getD 0 = pool from rfl, same]
    exact owns

theorem ensures_initializeDiscrete (pools : ¬ V.fails .commandPool) (owns : Owns (fresh b c).holds base w) (nonzero : b ≠ 0)
    (made : w ⟨.buffer, b⟩ = some (.buffer ((fresh b c).bufferInfo caps))) :
    ((fresh b c).initializeDiscrete caps (V.requirements ((fresh b c).bufferInfo caps))).Ensures V.handler
      (Attempted V caps (·.poolBacked = false) base) w := by
  unfold initializeDiscrete
  apply ensures_findType
  apply Prog.ensures_ite
  · exact fun _ => ensures_fail (a := { fresh b c with uma := false }) owns rfl
  intro exists'
  obtain ⟨allowed, has⟩ := findMemoryType_spec (type_found exists')
  apply ensures_create owns
  · simp [Driver.rules]
  · exact fun _ => ensures_fail (a := { fresh b c with uma := false }) owns rfl
  intro m w₁ made' owns
  have owned : Owns (unstaged b c m).holds base w₁ := by
    simpa [holds, fields, fresh, unstaged, add_comm] using owns
  have buffer := made'.kept _ _ made
  have memory : w₁ ⟨.memory, m⟩ = _ := made'.here
  have suits : V.Suits ((fresh b c).bufferInfo caps) ⟨(V.requirements ((fresh b c).bufferInfo caps)).1, _,
    caps.bufferDeviceAddress, none⟩ := ⟨allowed, le_rfl, id⟩
  apply ensures_bind owned (by simp [holds, fields, unstaged, heldBy, held_pos nonzero]) buffer memory suits
  intro _ w₂ bound others owned
  exact ensures_initializeStaging pools owned bound ((others _ (by simp)).trans memory) suits has

theorem ensures_initializeMemory (pools : ¬ V.fails .commandPool) {env : Environment} (owns : Owns (fresh b c).holds base w)
    (nonzero : b ≠ 0) (made : w ⟨.buffer, b⟩ = some (.buffer ((fresh b c).bufferInfo caps))) :
    ((fresh b c).initializeMemory caps env (V.requirements ((fresh b c).bufferInfo caps))).Ensures V.handler
      (Attempted V caps (·.poolBacked = false) base) w := by
  unfold initializeMemory mappedType
  split
  · exact ensures_initializeDiscrete pools owns nonzero made
  · apply ensures_findType
    apply Prog.ensures_ite
    · intro exists'
      obtain ⟨allowed, has⟩ := findMemoryType_spec (type_found exists')
      exact ensures_initializeMapped owns nonzero made ⟨allowed, le_rfl, id⟩ has
    · exact fun _ => ensures_initializeDiscrete pools owns nonzero made

theorem ensures_takeAddress {info : BufferInfo} {m : Nat} (bound : V.Bound w a.buffer info m)
    (same : info.deviceAddress = caps.bufferDeviceAddress) :
    (a.takeAddress caps).Ensures V.handler (fun a' w' => w' = w ∧ ∃ address, a' = { a with deviceAddress := address } ∧
      (caps.bufferDeviceAddress = false → address = a.deviceAddress)) w := by
  unfold takeAddress
  split
  · next has =>
    apply ensures_query
    · exact ⟨_, _, bound, same.trans has⟩
    · intro address _
      exact ⟨rfl, address, rfl, fun hasn't => absurd (has.symm.trans hasn't) (by simp)⟩
  · exact ⟨rfl, a.deviceAddress, rfl, fun _ => rfl⟩

/-- The address is in no one's way. -/
theorem Ready.withAddress (ready : Ready V caps a w) {address : Nat}
    (none' : caps.bufferDeviceAddress = false → address = a.deviceAddress) :
    Ready V caps { a with deviceAddress := address } w :=
  { ready with address := fun hasn't => (none' hasn't).trans (ready.address hasn't) }

/-- What is left of `initialize` once there is memory, or none. -/
theorem ensures_ready {r : Bool × UnifiedArena} (attempted : Attempted V caps (·.poolBacked = false) base r w) :
    (if r.1 then do
      let a ← r.2.takeAddress caps
      pure (true, { a with blocks := { a.blocks with bump := 0, highWater := 0 } })
    else pure r : Calls (Bool × UnifiedArena)).Ensures V.handler (Attempted V caps (·.poolBacked = false) base) w := by
  obtain ⟨done, unpooled, ready, owns⟩ | ⟨failed, left⟩ := attempted
  · rw [if_pos done]
    apply (ensures_takeAddress ready.buffer rfl).bind
    rintro _ w' ⟨rfl, address, rfl, none'⟩
    have blocks : { r.2.blocks with bump := 0, highWater := 0 } = r.2.blocks := by rw [ready.blocks]
    dsimp only
    rw [blocks]
    exact Or.inl ⟨rfl, unpooled, ready.withAddress none', owns⟩
  · rw [if_neg (by simp [failed])]
    exact Or.inr ⟨failed, left⟩

theorem ensures_initializeArena (pools : ¬ V.fails .commandPool) {env : Environment} {capacity : Nat} :
    (initializeArena { capacity := c } caps env capacity).Ensures V.handler (Attempted V caps (·.poolBacked = false) base) base := by
  unfold initializeArena
  apply ensures_create (owns_zero.mpr rfl)
  · trivial
  · exact fun _ => Or.inr ⟨rfl, rfl, rfl⟩
  intro b w made owns
  set size := arenaCapacity env.sizeMb capacity
  have here : w ⟨.buffer, b⟩ = some (.buffer ((fresh b size).bufferInfo caps)) := made.here
  have owned : Owns (fresh b size).holds base w := by
    simpa [holds, fields, fresh] using owns
  apply ensures_query
  · simp [Driver.rules, here]
  intro req told
  obtain ⟨info, same, rfl⟩ := told
  obtain rfl : (fresh b size).bufferInfo caps = info := by simpa [here] using same
  apply (ensures_initializeMemory pools owned made.nonzero here).bind
  exact fun r w' attempted => ensures_ready attempted

theorem firstType_spec {bits : BitVec 32} (some' : bits ≠ 0) : bits.getLsbD (firstType bits) = true := by
  unfold firstType
  cases first : (List.range 32).find? bits.getLsbD with
  | some i => exact List.find?_some first
  | none =>
    refine absurd (BitVec.eq_of_getLsbD_eq fun i hi => ?_) some'
    rw [List.find?_eq_none] at first
    simpa using first i (List.mem_range.mpr hi)

/-- The pool is imported as it is, so its buffer must not need more than there is of it. -/
theorem ensures_initializeFromPool {proc : Bool} {p res : Nat} (whole : p ≠ 0 → ∀ address,
      (V.requirements ⟨res, .storage, address, true⟩).1 ≤ res) :
    (initializeFromPool {} caps proc p res).Ensures V.handler
      (Attempted V caps (fun a => a.poolBacked = true ∧ a.hostBase = p ∧ a.capacity = res) base) base := by
  have nothing : Attempted V caps (fun a => a.poolBacked = true ∧ a.hostBase = p ∧ a.capacity = res) base (false, {}) base :=
    Or.inr ⟨rfl, rfl, rfl⟩
  unfold initializeFromPool
  apply Prog.ensures_ite
  · exact fun _ => nothing
  intro _
  apply Prog.ensures_ite
  · exact fun _ => nothing
  intro some'
  apply Prog.ensures_ite
  · exact fun _ => nothing
  intro _
  apply Prog.ensures_ite
  · exact fun _ => nothing
  intro _
  apply ensures_query
  · trivial
  intro types told
  obtain rfl : types = V.hostTypes p := told
  cases found : V.hostTypes p with
  | none => exact nothing
  | some types =>
    apply Prog.ensures_ite
    · exact fun _ => nothing
    intro _
    apply ensures_create (owns_zero.mpr rfl)
    · trivial
    · exact fun _ => nothing
    intro b w made owns
    have here : w ⟨.buffer, b⟩ = some (.buffer ⟨res, .storage, caps.bufferDeviceAddress, true⟩) := made.here
    have owned : Owns ({ buffer := b } : UnifiedArena).holds base w := by
      simpa [holds, fields] using owns
    apply ensures_query
    · simp [Driver.rules, here]
    intro req told
    obtain ⟨info, same, rfl⟩ := told
    obtain rfl : ⟨res, .storage, caps.bufferDeviceAddress, true⟩ = info := by simpa [here] using same
    apply Prog.ensures_ite
    · exact fun _ => ensures_fail owned rfl
    intro common
    have allowed := firstType_spec common
    rw [BitVec.getLsbD_and, Bool.and_eq_true] at allowed
    apply ensures_create owned
    · simp [Driver.rules, found, allowed.2]
    · exact fun _ => ensures_fail owned rfl
    intro m w₁ made' owns
    have buffer := made'.kept _ _ here
    have memory : w₁ ⟨.memory, m⟩ = _ := made'.here
    have suits : V.Suits ⟨res, .storage, caps.bufferDeviceAddress, true⟩ ⟨res, _, caps.bufferDeviceAddress, some p⟩ :=
      ⟨allowed.1, whole (fun zero => some' (Or.inl zero)) _, id⟩
    have owned : Owns ({ buffer := b, memory := m } : UnifiedArena).holds base w₁ := by
      simpa [holds, fields, add_comm] using owns
    apply ensures_bind owned (by simp [holds, fields, heldBy, held_pos made.nonzero]) buffer memory suits
    intro _ w₂ bound others owned
    have memory := (others ⟨.memory, m⟩ (by simp)).trans memory
    apply (ensures_takeAddress (a := { buffer := b, memory := m }) bound rfl).bind
    rintro _ w₃ ⟨rfl, address, rfl, none'⟩
    refine Or.inl ⟨rfl, ⟨rfl, rfl, rfl⟩, ⟨fun zero => some' (Or.inl zero), bound, ⟨_, memory, suits, rfl⟩, ?_, ?_, none', rfl⟩, ?_⟩
    · intro unbacked
      cases unbacked
    · intro discrete
      cases discrete
    · simpa [holds, fields] using owned

theorem Attempted.mono {how how' : UnifiedArena → Prop} {r : Bool × UnifiedArena} (h : Attempted V caps how base r w)
    (weaker : how r.2 → Ready V caps r.2 w → how' r.2) : Attempted V caps how' base r w := by
  obtain ⟨done, made, ready, owns⟩ | failed := h
  · exact Or.inl ⟨done, weaker made ready, ready, owns⟩
  · exact Or.inr failed

end

end UnifiedArena

end Parallax.Vulkan
