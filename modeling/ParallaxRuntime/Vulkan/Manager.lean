import ParallaxRuntime.Vulkan.Kernels
import ParallaxRuntime.Elementwise.Launch

/-!
# The objects of the memory manager

`MemoryManager`: each buffer of `parallax_umalloc` or of a registered pointer is a Vulkan buffer
with mapped memory of its own. It does to its map what the manager of the element-wise launches does.
-/

namespace Parallax.Vulkan
open Effects

structure UnifiedBuffer where
  hostPtr : Nat
  buffer : Nat
  memory : Nat
  size : Nat
  isMapped : Bool
  blocks : List Elementwise.DirtyBlock

structure MemoryManager where
  commandPool : Nat := 0
  commandBuffer : Nat := 0
  buffers : AList fun _ : Nat => UnifiedBuffer := ∅

def newMemoryManager : Calls MemoryManager := do
  match ← create .commandPool with
  | none => pure {}
  | some pool =>
    let commandBuffer ← query (.allocateCommandBuffers pool)
    pure { commandPool := pool, commandBuffer := commandBuffer.getD 0 }

/-- `create_buffer`: the buffer, its memory and where that is mapped. -/
def createBuffer (size : Nat) : Calls (Option (Nat × Nat × Nat)) := do
  match ← create (.buffer ⟨size, .storage, false, false⟩) with
  | none => pure none
  | some buffer =>
    match ← allocateFor buffer (hostVisible ||| hostCoherent) false with
    | none =>
      destroy .buffer buffer
      pure none
    | some memory =>
      let _ ← bindBufferMemory buffer memory
      match ← mapMemory memory size with
      | none =>
        destroy .memory memory
        destroy .buffer buffer
        pure none
      | some p => pure (some (buffer, memory, p))

namespace UnifiedBuffer

/-- A buffer right after it was made, with all of it dirty on the host. -/
def fresh (p buffer memory size : Nat) : UnifiedBuffer := ⟨p, buffer, memory, size, true, Elementwise.initDirtyTracking size⟩

def holds (b : UnifiedBuffer) : Multiset Handle :=
  (if b.isMapped then {⟨.mapping, b.memory⟩} else 0) + (held .buffer b.buffer + held .memory b.memory)

/-- `transfer_dirty_blocks` to the device -/
def transferDirtyBlocks (b : UnifiedBuffer) : Calls UnifiedBuffer :=
  if b.blocks.any Elementwise.DirtyBlock.needsHostToDevice then do
    query (.flushMappedMemoryRanges b.memory)
    pure { b with blocks := Elementwise.transferDirtyBlocks b.blocks }
  else pure b

def unmap (b : UnifiedBuffer) : Calls Unit := if b.isMapped then destroy .mapping b.memory else pure ()

/-- The destructor's part for one buffer. -/
def destroyBuffer (b : UnifiedBuffer) : Calls Unit :=
  if b.memory ≠ 0 then do
    b.unmap
    destroyHeld .buffer b.buffer
    destroy .memory b.memory
  else pure ()

end UnifiedBuffer

namespace MemoryManager

def allocate (m : MemoryManager) (size : Nat) : Calls (Nat × MemoryManager) := do
  match ← createBuffer size with
  | none => pure (0, m)
  | some (buffer, memory, p) => pure (p, { m with buffers := m.buffers.insert p (.fresh p buffer memory size) })

def deallocate (m : MemoryManager) (p : Nat) : Calls MemoryManager :=
  match m.buffers.lookup p with
  | none => pure m
  | some b => do
    b.unmap
    destroy .buffer b.buffer
    destroy .memory b.memory
    pure { m with buffers := m.buffers.erase p }

def registerExternalBuffer (m : MemoryManager) (p size : Nat) : Calls (Bool × MemoryManager) :=
  if p = 0 ∨ size = 0 then pure (false, m)
  else if (m.buffers.lookup p).isSome then pure (true, m)
  else do
    match ← createBuffer size with
    | none => pure (false, m)
    | some (buffer, memory, _) => pure (true, { m with buffers := m.buffers.insert p (.fresh p buffer memory size) })

def sync (m : MemoryManager) (p : Nat) (toDevice : Bool) : Calls Unit :=
  match m.buffers.lookup p with
  | none => pure ()
  | some b => if toDevice then query (.flushMappedMemoryRanges b.memory) else query (.invalidateMappedMemoryRanges b.memory)

def syncBeforeKernel (m : MemoryManager) (p : Nat) : Calls MemoryManager :=
  match m.buffers.lookup p with
  | none => pure m
  | some b => do
    let b ← b.transferDirtyBlocks
    pure { m with buffers := m.buffers.insert p b }

def syncAfterKernel (m : MemoryManager) (p : Nat) : MemoryManager :=
  (m.buffers.lookup p).elim m fun b =>
    { m with buffers := m.buffers.insert p { b with blocks := Elementwise.markAllDirtyOnDevice b.blocks } }

def destroyBuffers : List UnifiedBuffer → Calls Unit
  | [] => pure ()
  | b :: bs => do
    b.destroyBuffer
    destroyBuffers bs

/-- `~MemoryManager`, which meets the buffers in the order of the hash table. -/
def destruct (m : MemoryManager) (order : List UnifiedBuffer) : Calls Unit := do
  destroyBuffers order
  destroyFields [(.commandPool, m.commandPool)]

def all (m : MemoryManager) : List UnifiedBuffer := m.buffers.entries.map Sigma.snd

def holds (m : MemoryManager) : Multiset Handle := (m.all.map UnifiedBuffer.holds).sum + held .commandPool m.commandPool

end MemoryManager

inductive ManagerCall where
  | allocate (size : Nat)
  | deallocate (p : Nat)
  | registerExternalBuffer (p size : Nat)
  | sync (p : Nat) (toDevice : Bool)
  | syncBeforeKernel (p : Nat)
  | syncAfterKernel (p : Nat)

namespace ManagerCall

def perform (m : MemoryManager) : ManagerCall → Calls MemoryManager
  | .allocate size => do
    let r ← m.allocate size
    pure r.2
  | .deallocate p => m.deallocate p
  | .registerExternalBuffer p size => do
    let r ← m.registerExternalBuffer p size
    pure r.2
  | .sync p toDevice => do
    m.sync p toDevice
    pure m
  | .syncBeforeKernel p => m.syncBeforeKernel p
  | .syncAfterKernel p => pure (m.syncAfterKernel p)

/-- The call of the launches' manager; `created` is where the memory of a new buffer was mapped. -/
def follow {β : Type} (M : Elementwise.MemoryManager β) (created : Option Nat) : ManagerCall → Elementwise.MemoryManager β
  | .allocate size => M.allocate size created
  | .deallocate p => M.deallocate p
  | .registerExternalBuffer p size => M.registerExternalBuffer p size created
  | .sync _ _ => M
  | .syncBeforeKernel p => M.syncBeforeKernel p
  | .syncAfterKernel p => M.syncAfterKernel p

/-- What is registered is memory of the process. -/
def Allowed (V : Driver) : ManagerCall → Prop
  | .registerExternalBuffer p _ => V.host p
  | _ => True

end ManagerCall

/-- The calls of the launches' manager, one after the other. -/
def followAll {β : Type} (M : Elementwise.MemoryManager β) (calls : List (ManagerCall × Option Nat)) : Elementwise.MemoryManager β :=
  calls.foldl (fun M c => c.1.follow M c.2) M

/-- A manager from its constructor to its destructor. -/
def managerLifetime (calls : List ManagerCall) (order : MemoryManager → List UnifiedBuffer) : Calls Unit := do
  let m ← newMemoryManager
  let m ← calls.foldlM ManagerCall.perform m
  m.destruct (order m)

/-- The buffer is bound, unless the driver refused, to memory that suits it, which is mapped, for `parallax_umalloc` at the
pointer itself. -/
structure Backed (V : Driver) (w : Objects) (p : Nat) (b : UnifiedBuffer) : Prop where
  hostPtr : b.hostPtr = p
  isMapped : b.isMapped = true
  nonzero : b.buffer ≠ 0 ∧ b.memory ≠ 0
  buffer : V.Bound w b.buffer ⟨b.size, .storage, false, false⟩ b.memory
  memory : ∃ info, w ⟨.memory, b.memory⟩ = some (.memory info) ∧ V.Suits ⟨b.size, .storage, false, false⟩ info ∧
    V.flags info.type &&& (hostVisible ||| hostCoherent) = hostVisible ||| hostCoherent
  mapping : ∃ q, w ⟨.mapping, b.memory⟩ = some (.mapping b.memory b.size q) ∧ (q = p ∨ V.host p)

/-- The two managers have the same buffers, mapped at the same addresses. -/
def Agree {β : Type} (w : Objects) (m : MemoryManager) (M : Elementwise.MemoryManager β) : Prop :=
  ∀ p, Option.Rel (fun b B => B.size = b.size ∧ B.blocks = b.blocks ∧
    w ⟨.mapping, b.memory⟩ = some (.mapping b.memory b.size (M.mapping B.handle))) (m.buffers.lookup p) (M.buffers p)

/-- The buffers of the launches' manager are numbered in the order in which they are made. -/
def Numbered {β : Type} (M : Elementwise.MemoryManager β) : Prop := ∀ p B, M.buffers p = some B → B.handle < M.created

structure Managed {β : Type} (V : Driver) (base : Objects) (m : MemoryManager) (M : Elementwise.MemoryManager β) (w : Objects) :
    Prop where
  owns : Owns m.holds base w
  backed : ∀ p b, m.buffers.lookup p = some b → Backed V w p b
  agree : Agree w m M
  numbered : Numbered M

section
variable {V : Driver} {β : Type} {hs : Multiset Handle} {base w w' : Objects} {m : MemoryManager} {b : UnifiedBuffer} {p : Nat}
  {M : Elementwise.MemoryManager β}

theorem ensures_newMemoryManager : newMemoryManager.Ensures V.handler (fun m w' =>
    m.buffers = ∅ ∧ Owns (held .commandPool m.commandPool) base w') base := by
  unfold newMemoryManager
  apply ensures_create (owns_zero.mpr rfl)
  · trivial
  · exact fun _ => ⟨rfl, owns_zero.mpr rfl⟩
  intro pool w made owns
  have alive : w ⟨.commandPool, pool⟩ = _ := made.here
  apply ensures_query
  · simp [Driver.rules, alive]
  · intro _ _
    exact ⟨rfl, by simpa using owns⟩

/-- What a new buffer brings. The address is that of no other mapping. -/
structure Brought (V : Driver) (w : Objects) (size n k q : Nat) (w' : Objects) : Prop where
  owns : Owns (UnifiedBuffer.fresh q n k size).holds w w'
  backed : ∀ p, q = p ∨ V.host p → Backed V w' p (.fresh p n k size)
  mapping : w' ⟨.mapping, k⟩ = some (.mapping k size q)
  address : q ≠ 0 ∧ ¬ V.host q ∧ ∀ m size, w ⟨.mapping, m⟩ ≠ some (.mapping m size q)

/-- A buffer that could not be made leaves nothing behind. -/
theorem ensures_createBuffer {size : Nat} : (createBuffer size).Ensures V.handler (fun r w' =>
    (r = none ∧ w' = w) ∨ ∃ buffer memory q, r = some (buffer, memory, q) ∧ Brought V w size buffer memory q w') w := by
  unfold createBuffer
  apply ensures_create (owns_zero.mpr rfl)
  · trivial
  · exact fun _ => Or.inl ⟨rfl, rfl⟩
  intro buffer w₁ made owns
  have here : w₁ ⟨.buffer, buffer⟩ = some (.buffer ⟨size, .storage, false, false⟩) := made.here
  apply ensures_allocateFor owns here
  · intro _
    apply ensures_destroy made.nonzero owns
    exact fun w' left => Or.inl ⟨rfl, owns_zero.mp left⟩
  intro memory w₂ made' owns
  obtain ⟨allowed, visible⟩ := findMemoryType_spec made'.fits.2.2.1
  have suits := Driver.suits_memoryFor (b := ⟨size, .storage, false, false⟩) made'.fits.2.2.1 (by simp)
  apply ensures_bindAndMap owns (by simp [held_pos made.nonzero]) (made'.kept _ _ here) made' suits
    (flags_of_subset visible (by decide))
  · intro _ owns
    apply ensures_destroy made'.nonzero owns
    intro w' owns
    apply ensures_destroy made.nonzero owns
    exact fun w' left => Or.inl ⟨rfl, owns_zero.mp left⟩
  intro q w₃ ready owns
  obtain ⟨nonzero, outside, other⟩ := ready.address
  refine Or.inr ⟨buffer, memory, q, rfl, ?_, ?_, ready.mapping, nonzero, outside, ?_⟩
  · simpa [UnifiedBuffer.holds, UnifiedBuffer.fresh, held_pos ready.memory, add_comm] using owns
  · intro p where'
    have here' := ready.kept ⟨.memory, memory⟩ _ (by simp) made'.here
    exact ⟨rfl, rfl, ⟨made.nonzero, made'.nonzero⟩, ready.bound, ⟨_, here', suits, visible⟩, q, ready.mapping, where'⟩
  · exact fun m size found => other m size (made'.kept _ _ (made.kept _ _ found))

theorem holds_insert' : ({ m with buffers := m.buffers.insert p b } : MemoryManager).holds +
    ((m.buffers.lookup p).toList.map UnifiedBuffer.holds).sum = m.holds + b.holds := by
  have kept := ((perm_kerase m.buffers.entries p).map UnifiedBuffer.holds).sum_eq
  simp only [List.map_append, List.sum_append] at kept
  have found : m.buffers.lookup p = m.buffers.entries.dlookup p := rfl
  simp only [MemoryManager.holds, MemoryManager.all, AList.entries_insert, List.map_cons, List.sum_cons, kept, found]
  abel

theorem holds_erase : ({ m with buffers := m.buffers.erase p } : MemoryManager).holds +
    ((m.buffers.lookup p).toList.map UnifiedBuffer.holds).sum = m.holds := by
  have kept := ((perm_kerase m.buffers.entries p).map UnifiedBuffer.holds).sum_eq
  simp only [List.map_append, List.sum_append] at kept
  have found : m.buffers.lookup p = m.buffers.entries.dlookup p := rfl
  have left : (m.buffers.erase p).entries = m.buffers.entries.kerase p := rfl
  simp only [MemoryManager.holds, MemoryManager.all, left, kept, found]
  abel

/-- What a buffer holds the manager holds. -/
theorem mem_holds (found : m.buffers.lookup p = some b) {i : Handle} (here : i ∈ b.holds) : i ∈ m.holds := by
  rw [← holds_erase (p := p), found]
  simp [here]

theorem Backed.mem (h : Backed V w p b) : ⟨.mapping, b.memory⟩ ∈ b.holds ∧ ⟨.buffer, b.buffer⟩ ∈ b.holds ∧
    ⟨.memory, b.memory⟩ ∈ b.holds := by
  simp [UnifiedBuffer.holds, h.isMapped, held_pos h.nonzero.1, held_pos h.nonzero.2]

theorem Backed.kept (h : Backed V w p b) (same : ∀ i ∈ b.holds, w' i = w i) : Backed V w' p b := by
  obtain ⟨mapping, buffer, memory⟩ := h.mem
  obtain ⟨info, found, suits, visible⟩ := h.memory
  obtain ⟨q, mapped, where'⟩ := h.mapping
  exact ⟨h.hostPtr, h.isMapped, h.nonzero, h.buffer.same (same _ buffer), ⟨info, (same _ memory).trans found, suits, visible⟩,
    q, (same _ mapping).trans mapped, where'⟩

theorem Managed.start (owns : Owns (held .commandPool m.commandPool) base w) (empty : m.buffers = ∅)
    (first : ∀ p, M.buffers p = none) : Managed V base m M w := by
  refine ⟨?_, ?_, ?_, ?_⟩
  · simpa [MemoryManager.holds, MemoryManager.all, empty] using owns
  · simp [empty]
  · intro p
    rw [empty, AList.lookup_empty, first]
    exact .none
  · intro p b found
    rw [first] at found
    cases found

theorem Managed.alive (h : Managed V base m M w) (found : m.buffers.lookup p = some b) : ∀ i ∈ b.holds, w i ≠ none :=
  fun i here => h.owns.live i (mem_holds found here)

theorem store_numbered {size q : Nat} (numbered : Numbered M) : Numbered (M.store p size q) := by
  intro r B known
  simp only [Elementwise.MemoryManager.store] at known ⊢
  by_cases same : r = p
  · subst same
    rw [Function.update_self] at known
    cases known
    exact Nat.lt_succ_self _
  · rw [Function.update_of_ne same] at known
    exact Nat.lt_succ_of_lt (numbered r B known)

/-- A new buffer takes no one's place. -/
theorem Managed.store {size n k q : Nat} (h : Managed V base m M w) (absent : m.buffers.lookup p = none)
    (new : Brought V w size n k q w') (where' : q = p ∨ V.host p) :
    Managed V base { m with buffers := m.buffers.insert p (.fresh p n k size) } (M.store p size q) w' := by
  have old : ∀ r b, m.buffers.lookup r = some b → ∀ i ∈ b.holds, w' i = w i :=
    fun r b found i here => new.owns.same (h.alive found i here)
  refine ⟨?_, ?_, ?_, store_numbered h.numbered⟩
  · have both := owns_add.mpr ⟨w, h.owns, new.owns⟩
    have whole := holds_insert' (m := m) (p := p) (b := .fresh p n k size)
    rw [absent, Option.toList_none, List.map_nil, List.sum_nil, add_zero] at whole
    rw [whole]
    exact both
  · intro r b found
    by_cases same : r = p
    · subst same
      rw [AList.lookup_insert] at found
      cases found
      exact new.backed r where'
    · rw [AList.lookup_insert_ne same] at found
      exact (h.backed r b found).kept (old r b found)
  · intro r
    by_cases same : r = p
    · subst same
      rw [AList.lookup_insert]
      simp only [Elementwise.MemoryManager.store, Function.update_self]
      refine .some ⟨rfl, rfl, ?_⟩
      rw [Function.update_self]
      exact new.mapping
    · rw [AList.lookup_insert_ne same]
      simp only [Elementwise.MemoryManager.store, Function.update_of_ne same]
      have agreed := h.agree r
      generalize known : m.buffers.lookup r = o at agreed ⊢
      generalize known' : M.buffers r = o' at agreed ⊢
      cases agreed with
      | none => exact .none
      | some matching =>
        obtain ⟨size', blocks, mapped⟩ := matching
        refine .some ⟨size', blocks, ?_⟩
        rw [Function.update_of_ne (h.numbered r _ known').ne, old r _ known _ (h.backed r _ known).mem.1]
        exact mapped

theorem Managed.absent (h : Managed V base m M w) : m.buffers.lookup p = none ↔ M.buffers p = none := by
  have agreed := h.agree p
  generalize m.buffers.lookup p = o at agreed ⊢
  generalize M.buffers p = o' at agreed ⊢
  cases agreed <;> simp

theorem Managed.mapBlocks {f : List Elementwise.DirtyBlock → List Elementwise.DirtyBlock} (h : Managed V base m M w)
    (found : m.buffers.lookup p = some b) :
    Managed V base { m with buffers := m.buffers.insert p { b with blocks := f b.blocks } } (M.mapBlocks p f) w := by
  refine ⟨?_, ?_, ?_, ?_⟩
  · have whole := holds_insert' (m := m) (p := p) (b := { b with blocks := f b.blocks })
    rw [found, Option.toList_some, List.map_singleton, List.sum_singleton] at whole
    rw [add_right_cancel whole]
    exact h.owns
  · intro r b' found'
    by_cases same : r = p
    · subst same
      rw [AList.lookup_insert] at found'
      cases found'
      exact { h.backed r b found with }
    · rw [AList.lookup_insert_ne same] at found'
      exact h.backed r b' found'
  · intro r
    have agreed := h.agree r
    by_cases same : r = p
    · subst same
      rw [AList.lookup_insert]
      simp only [Elementwise.MemoryManager.mapBlocks, Function.update_self]
      rw [found] at agreed
      generalize M.buffers r = o' at agreed ⊢
      cases agreed with
      | some matching =>
        obtain ⟨size', blocks, mapped⟩ := matching
        exact .some ⟨size', congrArg f blocks, mapped⟩
    · rw [AList.lookup_insert_ne same]
      simp only [Elementwise.MemoryManager.mapBlocks, Function.update_of_ne same]
      exact agreed
  · intro r B known
    simp only [Elementwise.MemoryManager.mapBlocks] at known ⊢
    by_cases same : r = p
    · subst same
      rw [Function.update_self] at known
      obtain ⟨B', known', rfl⟩ := Option.map_eq_some_iff.mp known
      exact h.numbered r B' known'
    · rw [Function.update_of_ne same] at known
      exact h.numbered r B known

theorem Managed.mapBlocks_absent {f : List Elementwise.DirtyBlock → List Elementwise.DirtyBlock} (h : Managed V base m M w)
    (absent : m.buffers.lookup p = none) : M.mapBlocks p f = M := by
  have absent := h.absent.mp absent
  have same : Function.update M.buffers p none = M.buffers := by rw [← absent, Function.update_eq_self]
  simp only [Elementwise.MemoryManager.mapBlocks, absent, Option.map_none, same]

/-- The objects of one buffer go, and the others are as they were. -/
theorem Managed.erase {mid : Objects} (h : Managed V base m M w) (found : m.buffers.lookup p = some b)
    (left : Owns ({ m with buffers := m.buffers.erase p } : MemoryManager).holds base mid) (gone : Owns b.holds mid w) :
    Managed V base { m with buffers := m.buffers.erase p } (M.deallocate p) mid := by
  have kept : ∀ r b', (m.buffers.erase p).lookup r = some b' → Backed V w r b' → ∀ i ∈ b'.holds, mid i = w i := by
    intro r b' found' _ i here
    exact (gone.same (left.live i (mem_holds (m := { m with buffers := m.buffers.erase p }) found' here))).symm
  have known : (M.buffers p).isNone = false := by
    have known : M.buffers p ≠ none := mt h.absent.mpr (by simp [found])
    exact Option.isNone_eq_false_iff.mpr (Option.isSome_iff_ne_none.mpr known)
  have freed : M.deallocate p = { M with buffers := Function.update M.buffers p none } := by
    simp [Elementwise.MemoryManager.deallocate, known]
  rw [freed]
  refine ⟨left, ?_, ?_, ?_⟩
  · intro r b' found'
    have other : r ≠ p := by
      rintro rfl
      rw [AList.lookup_erase] at found'
      cases found'
    have backed := h.backed r b' (by rwa [AList.lookup_erase_ne other] at found')
    exact backed.kept (kept r b' found' backed)
  · intro r
    by_cases same : r = p
    · subst same
      rw [AList.lookup_erase]
      simp only [Function.update_self]
      exact .none
    · have agreed := h.agree r
      have kept := kept r
      rw [AList.lookup_erase_ne same] at kept ⊢
      simp only [Function.update_of_ne same]
      generalize known : m.buffers.lookup r = o at agreed kept ⊢
      generalize M.buffers r = o' at agreed ⊢
      cases agreed with
      | none => exact .none
      | some matching =>
        obtain ⟨size', blocks, mapped⟩ := matching
        have backed := h.backed r _ known
        exact .some ⟨size', blocks, (kept _ rfl backed _ backed.mem.1).trans mapped⟩
  · intro r B known
    dsimp only at known ⊢
    by_cases same : r = p
    · subst same
      rw [Function.update_self] at known
      cases known
    · rw [Function.update_of_ne same] at known
      exact h.numbered r B known

theorem ensures_unmap {α : Type} {Q : α → Objects → Prop} {k : Unit → Calls α} (mapped : b.isMapped = true) (nonzero : b.memory ≠ 0)
    (owns : Owns (b.holds + hs) base w)
    (rest : ∀ w', Owns (held .buffer b.buffer + (held .memory b.memory + hs)) base w' → (k ()).Ensures V.handler Q w') :
    (b.unmap >>= k).Ensures V.handler Q w := by
  unfold UnifiedBuffer.unmap
  rw [if_pos mapped]
  have split : b.holds + hs = held .mapping b.memory + (held .buffer b.buffer + (held .memory b.memory + hs)) := by
    have mapping : held .mapping b.memory = _ := held_pos nonzero
    rw [UnifiedBuffer.holds, if_pos mapped, mapping]
    simp only [add_assoc]
  rw [split] at owns
  exact ensures_destroy nonzero owns rest

theorem ensures_deallocate (h : Managed V base m M w) : (m.deallocate p).Ensures V.handler (fun m' w' =>
    Managed V base m' (M.deallocate p) w') w := by
  unfold MemoryManager.deallocate
  cases found : m.buffers.lookup p with
  | none =>
    have unknown : M.deallocate p = M := by simp [Elementwise.MemoryManager.deallocate, h.absent.mp found]
    rw [unknown]
    exact h
  | some b =>
    have backed := h.backed p b found
    have owns := h.owns
    rw [← holds_erase (p := p), found, Option.toList_some, List.map_singleton, List.sum_singleton] at owns
    obtain ⟨mid, left, gone⟩ := owns_add.mp owns
    have gone' := gone
    rw [← add_zero b.holds] at gone'
    apply ensures_unmap backed.isMapped backed.nonzero.2 gone'
    intro w₁ owns
    apply ensures_destroy backed.nonzero.1 owns
    intro w₂ owns
    apply ensures_destroy backed.nonzero.2 owns
    intro w₃ owns
    obtain rfl := owns_zero.mp owns
    exact h.erase found left gone

/-- An address that the driver gives is none that is in use. -/
theorem Brought.unused {size n k q : Nat} (new : Brought V w size n k q w') (h : Managed V base m M w) :
    m.buffers.lookup q = none := by
  cases found : m.buffers.lookup q with
  | none => rfl
  | some b =>
    obtain ⟨q', mapped, rfl | outside⟩ := (h.backed q b found).mapping
    · exact absurd mapped (new.address.2.2 _ _)
    · exact absurd outside new.address.2.1

theorem ensures_allocate {size : Nat} (h : Managed V base m M w) : (m.allocate size).Ensures V.handler (fun r w' =>
    ∃ created, Managed V base r.2 (M.allocate size created) w') w := by
  unfold MemoryManager.allocate
  apply ensures_createBuffer.bind
  rintro _ w' (⟨rfl, rfl⟩ | ⟨n, k, q, rfl, new⟩)
  · exact ⟨none, h⟩
  · exact ⟨some q, h.store (new.unused h) new (Or.inl rfl)⟩

theorem ensures_registerExternalBuffer {size : Nat} (outside : V.host p) (h : Managed V base m M w) :
    (m.registerExternalBuffer p size).Ensures V.handler (fun r w' =>
      ∃ created, Managed V base r.2 (M.registerExternalBuffer p size created) w') w := by
  unfold MemoryManager.registerExternalBuffer Elementwise.MemoryManager.registerExternalBuffer
  by_cases null : p = 0 ∨ size = 0
  · simp only [if_pos null]
    exact ⟨none, h⟩
  simp only [if_neg null]
  cases found : m.buffers.lookup p with
  | some b =>
    have known : (M.buffers p).isSome := Option.isSome_iff_ne_none.mpr (mt h.absent.mpr (by simp [found]))
    simp only [known, Option.isSome_some, if_true]
    exact ⟨none, h⟩
  | none =>
    simp only [h.absent.mp found, Option.isSome_none, Bool.false_eq_true, if_false]
    apply ensures_createBuffer.bind
    rintro _ w' (⟨rfl, rfl⟩ | ⟨n, k, q, rfl, new⟩)
    · exact ⟨none, h⟩
    · refine ⟨some q, ?_⟩
      have stored := h.store found new (Or.inr outside)
      exact ⟨stored.owns, stored.backed, stored.agree, stored.numbered⟩

theorem ensures_sync {toDevice : Bool} (h : Managed V base m M w) : (m.sync p toDevice).Ensures V.handler (fun _ w' => w' = w) w := by
  unfold MemoryManager.sync
  cases found : m.buffers.lookup p with
  | none => exact rfl
  | some b =>
    obtain ⟨q, mapped, -⟩ := (h.backed p b found).mapping
    have alive : w ⟨.mapping, b.memory⟩ ≠ none := by simp [mapped]
    cases toDevice
    · exact ensures_query (k := pure) alive fun _ _ => rfl
    · exact ensures_query (k := pure) alive fun _ _ => rfl

theorem ensures_syncBeforeKernel (h : Managed V base m M w) : (m.syncBeforeKernel p).Ensures V.handler (fun m' w' =>
    Managed V base m' (M.syncBeforeKernel p) w') w := by
  unfold MemoryManager.syncBeforeKernel Elementwise.MemoryManager.syncBeforeKernel
  cases found : m.buffers.lookup p with
  | none =>
    rw [h.mapBlocks_absent found]
    exact h
  | some b =>
    obtain ⟨q, mapped, -⟩ := (h.backed p b found).mapping
    have flushed := h.mapBlocks (f := Elementwise.transferDirtyBlocks) found
    dsimp only
    unfold UnifiedBuffer.transferDirtyBlocks
    split
    · apply ensures_query
      · simp [Driver.rules, mapped]
      · exact fun _ _ => flushed
    · next clean =>
      have same : Elementwise.transferDirtyBlocks b.blocks = b.blocks := by
        rw [Elementwise.transferDirtyBlocks, if_neg clean]
      rw [same] at flushed
      exact flushed

theorem syncAfterKernel_managed (h : Managed V base m M w) : Managed V base (m.syncAfterKernel p) (M.syncAfterKernel p) w := by
  unfold MemoryManager.syncAfterKernel Elementwise.MemoryManager.syncAfterKernel
  cases found : m.buffers.lookup p with
  | none =>
    rw [h.mapBlocks_absent found]
    exact h
  | some b => exact h.mapBlocks found

theorem ensures_perform {c : ManagerCall} (allowed : c.Allowed V) (h : Managed V base m M w) :
    (c.perform m).Ensures V.handler (fun m' w' => ∃ created, Managed V base m' (c.follow M created) w') w := by
  cases c with
  | allocate size => exact (ensures_allocate h).bind fun _ _ managed => managed
  | deallocate p => exact (ensures_deallocate h).mono fun _ _ managed => ⟨none, managed⟩
  | registerExternalBuffer p size => exact (ensures_registerExternalBuffer allowed h).bind fun _ _ managed => managed
  | sync p toDevice =>
    apply (ensures_sync h).bind
    rintro _ _ rfl
    exact ⟨none, h⟩
  | syncBeforeKernel p => exact (ensures_syncBeforeKernel h).mono fun _ _ managed => ⟨none, managed⟩
  | syncAfterKernel p => exact ⟨none, syncAfterKernel_managed h⟩

theorem Managed.calls {calls : List ManagerCall} (allowed : ∀ c ∈ calls, c.Allowed V) (h : Managed V base m M w) :
    (calls.foldlM ManagerCall.perform m).Ensures V.handler (fun m' w' => ∃ created : List (Option Nat),
      created.length = calls.length ∧ Managed V base m' (followAll M (calls.zip created)) w') w := by
  induction calls generalizing m M w with
  | nil => exact ⟨[], rfl, h⟩
  | cons c calls ih =>
    apply (ensures_perform (allowed c List.mem_cons_self) h).bind
    intro m' w' ⟨o, managed⟩
    apply (ih (fun c later => allowed c (List.mem_cons_of_mem _ later)) managed).mono
    intro m'' w'' ⟨created, counted, managed⟩
    exact ⟨o :: created, congrArg (· + 1) counted, managed⟩

theorem ensures_destroyBuffers {order : List UnifiedBuffer}
    (good : ∀ b ∈ order, b.isMapped = true ∧ b.memory ≠ 0) (owns : Owns ((order.map UnifiedBuffer.holds).sum + hs) base w) :
    (MemoryManager.destroyBuffers order).Ensures V.handler (fun _ w' => Owns hs base w') w := by
  induction order generalizing w with
  | nil =>
    rw [List.map_nil, List.sum_nil, zero_add] at owns
    exact owns
  | cons b order ih =>
    obtain ⟨mapped, nonzero⟩ := good b List.mem_cons_self
    rw [List.map_cons, List.sum_cons, add_assoc] at owns
    unfold MemoryManager.destroyBuffers UnifiedBuffer.destroyBuffer
    rw [if_pos nonzero, Prog.bind_assoc]
    apply ensures_unmap mapped nonzero owns
    intro w₁ owns
    rw [Prog.bind_assoc]
    apply ensures_destroyHeld owns
    intro w₂ owns
    apply ensures_destroy nonzero owns
    exact fun w₃ owns => ih (fun b later => good b (List.mem_cons_of_mem _ later)) owns

theorem Managed.destruct {order : List UnifiedBuffer} (h : Managed V base m M w) (perm : order.Perm m.all) :
    (m.destruct order).Ensures V.handler (fun _ w' => w' = base) w := by
  have good : ∀ b ∈ order, b.isMapped = true ∧ b.memory ≠ 0 := by
    intro b here
    obtain ⟨⟨p, b'⟩, entry, rfl⟩ := List.mem_map.mp (perm.mem_iff.mp here)
    have backed := h.backed p b' (AList.mem_lookup_iff.mpr entry)
    exact ⟨backed.isMapped, backed.nonzero.2⟩
  have owns := h.owns
  rw [MemoryManager.holds, ← (perm.map UnifiedBuffer.holds).sum_eq] at owns
  unfold MemoryManager.destruct
  apply (ensures_destroyBuffers good owns).bind
  intro _ w₁ owns
  have owned : Owns (heldBy [(.commandPool, m.commandPool)] + 0) base w₁ := by simpa using owns
  exact (ensures_destroyFields owned).mono fun _ w₂ left => owns_zero.mp left

end

/-- Whatever is allocated, registered, freed and synchronised, and whatever fails, the map is that of
the launches' manager, and each of its buffers is bound to mapped memory that suits it. -/
theorem manager_follows_launches {V : Driver} {β : Type} (base : Objects) (calls : List ManagerCall)
    (allowed : ∀ c ∈ calls, c.Allowed V) (M : Elementwise.MemoryManager β) (first : ∀ p, M.buffers p = none) :
    (newMemoryManager >>= fun m => calls.foldlM ManagerCall.perform m).Ensures V.handler (fun m w =>
      (∃ created : List (Option Nat), created.length = calls.length ∧ Agree w m (followAll M (calls.zip created))) ∧
      (∀ p b, m.buffers.lookup p = some b → Backed V w p b) ∧ Owns m.holds base w) base := by
  apply ensures_newMemoryManager.bind
  intro m w ⟨empty, owns⟩
  apply ((Managed.start owns empty first).calls allowed).mono
  intro m' w' ⟨created, counted, managed⟩
  exact ⟨⟨created, counted, managed.agree⟩, managed.backed, managed.owns⟩

/-- The manager destroys each object once and leaves none behind. -/
theorem manager_objects_destroyed {V : Driver} (base : Objects) (calls : List ManagerCall)
    (allowed : ∀ c ∈ calls, c.Allowed V) {order : MemoryManager → List UnifiedBuffer} (perm : ∀ m, (order m).Perm m.all) :
    (managerLifetime calls order).Ensures V.handler (fun _ w => w = base) base := by
  unfold managerLifetime
  apply ensures_newMemoryManager.bind
  intro m w ⟨empty, owns⟩
  have start : Managed V base m (⟨fun _ => none, 0, fun _ => 0, fun _ => ()⟩ : Elementwise.MemoryManager Unit) w :=
    .start owns empty fun _ => rfl
  apply (start.calls allowed).bind
  intro m' w' ⟨created, counted, managed⟩
  exact managed.destruct (perm m')

/-- Two allocations, one of them freed, and a registered pointer. -/
def managerCalls : List ManagerCall :=
  [.allocate 4096, .registerExternalBuffer 8192 64, .syncBeforeKernel 8192, .allocate 64, .syncAfterKernel 8192, .deallocate 4096]

theorem managerCalls_allowed : ∀ c ∈ managerCalls, c.Allowed integratedDriver := by
  simp [managerCalls, ManagerCall.Allowed, integratedDriver]

theorem manager_follows_launches_registered :
    ∃ m w, (newMemoryManager >>= fun m => managerCalls.foldlM ManagerCall.perform m).Run integratedDriver.handler.step
      (fun _ => none) m w ∧
      (∃ created : List (Option Nat), created.length = managerCalls.length ∧
        Agree w m (followAll (⟨fun _ => none, 0, fun _ => 0, fun _ => 0⟩ : Elementwise.MemoryManager Nat) (managerCalls.zip created))) ∧
      (∀ p b, m.buffers.lookup p = some b → Backed integratedDriver w p b) ∧ Owns m.holds (fun _ => none) w :=
  exists_run_from integratedDriver_room
    (manager_follows_launches (fun _ => none) managerCalls managerCalls_allowed ⟨fun _ => none, 0, fun _ => 0, fun _ => 0⟩ fun _ => rfl)

theorem manager_objects_destroyed_registered :
    ∃ r w, (managerLifetime managerCalls MemoryManager.all).Run integratedDriver.handler.step (fun _ => none) r w ∧
      w = fun _ => none :=
  exists_run_from integratedDriver_room (manager_objects_destroyed (fun _ => none) managerCalls managerCalls_allowed fun _ => .refl _)

end Parallax.Vulkan
