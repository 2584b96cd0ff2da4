import ParallaxRuntime.Vulkan.Arena
import ParallaxRuntime.Vulkan.Manager
import ParallaxRuntime.Effects.Interrupts

/-!
# The globals of the runtime

`get_global_backend`, `get_global_memory_manager` and `get_global_arena`. Under interposition of the heap
every allocation on the way may call them again. Nothing is then begun a second time: the backend is given
out as it stands, half-built, and the manager and the arena only when they are ready.
-/

namespace Parallax.Vulkan
open Effects

structure Globals where
  backend : Option VulkanBackend := none
  memoryManager : Option MemoryManager := none
  arena : Option UnifiedArena := none
  initialized : Bool := false
  initializing : Bool := false
  arenaInitializing : Bool := false

/-- The driver's calls, `operator new` and `operator delete`, and what the heap pool says of itself. -/
inductive RuntimeOp where
  | device (o : ObjectOp Handle CreateInfo Nat Query)
  | root (o : ObjectOp RootHandle RootInfo Empty Enumerate)
  | allocate
  | release
  | pool
  | read
  | write (f : Globals → Globals)

abbrev runtime : Sig where
  Op := RuntimeOp
  Res
    | .device o => (objects Handle CreateInfo Nat Query Answer).Res o
    | .root o => rootCalls.Res o
    | .pool => Nat × Nat
    | .read => Globals
    | _ => Unit

structure World where
  globals : Globals := {}
  roots : Roots := fun _ => none
  objects : Objects := fun _ => none

/-- What the process finds: the physical devices, the driver of the one that is chosen, the pool once it is
there, and the environment. -/
structure Machine where
  platform : Platform
  driver : Driver
  pool : Nat × Nat
  env : Environment
  proc : Bool

/-- Objects are made on a device that is there, and are gone before it goes. -/
def Machine.handler (M : Machine) : Handler runtime World where
  pre
    | .device o, t => M.driver.handler.pre o t.objects ∧ ∃ n, t.roots ⟨.vkDevice, n⟩ ≠ none
    | .root o, t => M.platform.handler.pre o t.roots ∧ ∀ n, o = .drop ⟨.vkDevice, n⟩ → t.objects = fun _ => none
    | _, _ => True
  step
    | .device o, t, x, t' => M.driver.handler.step o t.objects x t'.objects ∧ t'.roots = t.roots ∧ t'.globals = t.globals
    | .root o, t, x, t' => M.platform.handler.step o t.roots x t'.roots ∧ t'.objects = t.objects ∧ t'.globals = t.globals
    | .allocate, t, _, t' => t' = t
    | .release, t, _, t' => t' = t
    | .pool, t, x, t' => (x = (0, 0) ∨ x = M.pool) ∧ t' = t
    | .read, t, x, t' => x = t.globals ∧ t' = t
    | .write f, t, _, t' => t' = { t with globals := f t.globals }

/-- Finitely many objects are alive, and none of them is null. -/
def World.Small (t : World) : Prop := Few (fun i => i.number ≠ 0) t.objects ∧ Few (fun i => i.number ≠ 0) t.roots

theorem Machine.progress {M : Machine} (room : {p | ¬ M.driver.host p}.Infinite) (o : RuntimeOp) (t : World) (small : t.Small)
    (pre : M.handler.pre o t) : ∃ x t', M.handler.step o t x t' ∧ t'.Small := by
  cases o with
  | device o =>
    obtain ⟨x, w, step, few⟩ := (Driver.roomy room).progress o t.objects small.1 pre.1
    exact ⟨x, { t with objects := w }, ⟨step, rfl, rfl⟩, few, small.2⟩
  | root o =>
    obtain ⟨x, ρ, step, few⟩ := Platform.roomy.progress o t.roots small.2 pre.1
    exact ⟨x, { t with roots := ρ }, ⟨step, rfl, rfl⟩, small.1, few⟩
  | allocate => exact ⟨(), t, rfl, small⟩
  | release => exact ⟨(), t, rfl, small⟩
  | pool => exact ⟨M.pool, t, ⟨Or.inr rfl, rfl⟩, small⟩
  | read => exact ⟨t.globals, t, ⟨rfl, rfl⟩, small⟩
  | write f => exact ⟨(), _, rfl, small⟩

/-- Where the heap may be asked for memory. -/
def RuntimeOp.Opens : RuntimeOp → Prop
  | .device _ | .root _ | .allocate | .release => True
  | _ => False

abbrev Accessor := Prog runtime

namespace Runtime

def call (o : RuntimeOp) : Accessor (runtime.Res o) := Prog.op (S := runtime) o

def onDevice : Sig.Hom (objects Handle CreateInfo Nat Query Answer) runtime := ⟨.device, fun _ => id⟩

def onRoots : Sig.Hom rootCalls runtime := ⟨.root, fun _ => id⟩

/-- `ensure_initialized` -/
def ensureInitialized : Accessor Bool := do
  let g ← call .read
  if g.initialized then pure true
  else if g.initializing then pure false
  else
    call (.write fun g => { g with initializing := true })
    call .allocate
    call (.write fun g => { g with backend := some {} })
    let r ← VulkanBackend.initializeBackend.embed onRoots
    if r.1 then
      call (.write fun g => { g with backend := some r.2 })
      call .allocate
      let m ← newMemoryManager.embed onDevice
      call (.write fun g => { g with memoryManager := some m, initialized := true, initializing := false })
      pure true
    else
      call (.write fun g => { g with backend := none })
      r.2.cleanup.embed onRoots
      call .release
      call (.write fun g => { g with initializing := false })
      pure false

def getGlobalBackend : Accessor (Option VulkanBackend) := do
  let _ ← ensureInitialized
  let g ← call .read
  pure g.backend

def getGlobalMemoryManager : Accessor (Option MemoryManager) := do
  let _ ← ensureInitialized
  let g ← call .read
  pure g.memoryManager

def adoptPool (M : Machine) (caps : Capabilities) : Accessor (Bool × UnifiedArena) :=
  if M.env.forceLegacy then pure (false, {})
  else do
    let pool ← call .pool
    (UnifiedArena.initializeFromPool {} caps M.proc pool.1 pool.2).embed onDevice

/-- The pool first, unless `PARALLAX_FORCE_LEGACY_ARENA` is set, and an arena of its own else. -/
def buildArena (M : Machine) : Accessor (Bool × UnifiedArena) := do
  let g ← call .read
  let caps := g.backend.elim {} VulkanBackend.capabilities
  let r ← adoptPool M caps
  if r.1 then pure r else (r.2.initializeArena caps M.env kDefaultCapacity).embed onDevice

/-- `get_global_arena` -/
def getGlobalArena (M : Machine) : Accessor (Option UnifiedArena) := do
  let g ← call .read
  if g.arena.isSome then pure g.arena
  else if g.arenaInitializing then pure none
  else
    let ready ← ensureInitialized
    if ready then
      call (.write fun g => { g with arenaInitializing := true })
      call .allocate
      let r ← buildArena M
      if r.1 then
        call (.write fun g => { g with arena := some r.2, arenaInitializing := false })
        let g ← call .read
        pure g.arena
      else
        call (.write fun g => { g with arenaInitializing := false })
        let _ ← r.2.destroyArena.embed onDevice
        call .release
        pure none
    else pure none

/-- The destructors of the three globals, the last one first. -/
def exit (order : MemoryManager → List UnifiedBuffer) : Accessor Unit := do
  let g ← call .read
  let _ ← g.arena.elim (pure {}) fun a => a.destroyArena.embed onDevice
  g.memoryManager.elim (pure ()) fun m => (m.destruct (order m)).embed onDevice
  g.backend.elim (pure ()) fun b => b.cleanup.embed onRoots

end Runtime

inductive Access where
  | backend
  | memoryManager
  | arena

inductive Answered where
  | backend (b : Option VulkanBackend)
  | memoryManager (m : Option MemoryManager)
  | arena (a : Option UnifiedArena)

namespace Runtime

def access (M : Machine) : Access → Accessor Answered
  | .backend => do
    let b ← getGlobalBackend
    pure (.backend b)
  | .memoryManager => do
    let m ← getGlobalMemoryManager
    pure (.memoryManager m)
  | .arena => do
    let a ← getGlobalArena M
    pure (.arena a)

def session (M : Machine) (requests : List Access) : Accessor (List Answered) :=
  requests.foldlM (fun answers q => do
    let a ← access M q
    pure (a :: answers)) []

/-- What may run again inside any of the others. -/
def entries (M : Machine) : List (Accessor Unit) :=
  [.backend, .memoryManager, .arena].map fun q => do
    let _ ← access M q
    pure ()

/-- An answer that is not null is what the global still is. -/
def Current (g : Globals) : Answered → Prop
  | .backend b => ∀ x, b = some x → g.backend = some x
  | .memoryManager m => ∀ x, m = some x → g.memoryManager = some x
  | .arena a => ∀ x, a = some x → g.arena = some x

/-- Something is under way. The accessors begin nothing then and answer with what the globals are. -/
def Guarded (g : Globals) : Prop :=
  g.arena = none ∧ (g.initialized = false ∧ g.initializing = true ∨ g.initialized = true ∧ g.arenaInitializing = true)

/-- There is a device with a memory manager. -/
structure Up (M : Machine) (b : VulkanBackend) (m : MemoryManager) (t : World) : Prop where
  initialized : t.globals.initialized = true
  backend : t.globals.backend = some b
  memoryManager : t.globals.memoryManager = some m
  chosen : b.Chosen M.platform
  roots : Owns b.holds (fun _ => none) t.roots
  buffers : m.buffers = ∅
  objects : Owns (held .commandPool m.commandPool + t.globals.arena.elim 0 UnifiedArena.holds) (fun _ => none) t.objects

/-- A pool-backed arena is the pool. -/
def Adopted (M : Machine) (a : UnifiedArena) : Prop :=
  a.poolBacked = true → M.env.forceLegacy = false ∧ a.hostBase = M.pool.1 ∧ a.capacity = M.pool.2

/-- Nothing is under way: there is nothing yet, or there is all of it. -/
structure Idle (M : Machine) (t : World) : Prop where
  initializing : t.globals.initializing = false
  arenaInitializing : t.globals.arenaInitializing = false
  state : t = {} ∨ ∃ b m, Up M b m t ∧
    ∀ a, t.globals.arena = some a → UnifiedArena.Ready M.driver b.capabilities a t.objects ∧ Adopted M a

/-- What was there stays. -/
structure Later (g g' : Globals) : Prop where
  arena : ∀ a, g.arena = some a → g'.arena = some a
  backend : g.initialized = true → g'.initialized = true ∧ g'.backend = g.backend ∧ g'.memoryManager = g.memoryManager

/-- Where the accessors may be called again, and what they do then. -/
def Stable (M : Machine) (t : World) : Prop := Guarded t.globals ∨ Idle M t

def Moves (M : Machine) (s t : World) : Prop := (Guarded s.globals → t = s) ∧ (Idle M s → Idle M t) ∧ Later s.globals t.globals

abbrev reentrant (M : Machine) : Handler runtime World := M.handler.relying RuntimeOp.Opens (Stable M) (Moves M)

section
variable {M : Machine} {I : World → Prop} {J : World → World → Prop} {α : Type} {Q : α → World → Prop} {s t : World}

theorem Later.refl {g : Globals} : Later g g := ⟨fun _ same => same, fun up => ⟨up, rfl, rfl⟩⟩

theorem Later.trans {g g' g'' : Globals} (h : Later g g') (h' : Later g' g'') : Later g g'' := by
  refine ⟨fun a found => h'.arena a (h.arena a found), fun up => ?_⟩
  obtain ⟨up', backend, manager⟩ := h.backend up
  obtain ⟨up'', backend', manager'⟩ := h'.backend up'
  exact ⟨up'', backend'.trans backend, manager'.trans manager⟩

theorem Moves.refl : Moves M s s := ⟨fun _ => rfl, id, .refl⟩

theorem Moves.trans {u : World} (h : Moves M s t) (h' : Moves M t u) : Moves M s u := by
  refine ⟨fun guarded => ?_, fun idle => h'.2.1 (h.2.1 idle), h.2.2.trans h'.2.2⟩
  obtain rfl := h.1 guarded
  exact h'.1 guarded

theorem Idle.not_guarded (idle : Idle M s) : ¬ Guarded s.globals := by
  rintro ⟨-, ⟨-, busy⟩ | ⟨-, busy⟩⟩
  · cases idle.initializing.symm.trans busy
  · cases idle.arenaInitializing.symm.trans busy

/-- Nothing moves while the globals are `g`. -/
structure Quiet (I : World → Prop) (J : World → World → Prop) (g : Globals) : Prop where
  good : ∀ t, t.globals = g → I t
  still : ∀ t, t.globals = g → ∀ u, J t u → u = t

theorem Guarded.quiet {g : Globals} (guarded : Guarded g) : Quiet (Stable M) (Moves M) g := by
  constructor
  · rintro t rfl
    exact Or.inl guarded
  · rintro t rfl u moved
    exact moved.1 guarded

theorem ensures_read {k : Globals → Accessor α} (rest : (k t.globals).Ensures (M.handler.relying RuntimeOp.Opens I J) Q t) :
    (call .read >>= k).Ensures (M.handler.relying RuntimeOp.Opens I J) Q t := by
  apply ensures_relying False.elim False.elim trivial
  rintro g _ ⟨rfl, rfl⟩
  exact rest

theorem ensures_write {f : Globals → Globals} {k : Unit → Accessor α}
    (rest : (k ()).Ensures (M.handler.relying RuntimeOp.Opens I J) Q { t with globals := f t.globals }) :
    (call (.write f) >>= k).Ensures (M.handler.relying RuntimeOp.Opens I J) Q t := by
  apply ensures_relying False.elim False.elim trivial
  rintro _ _ rfl
  exact rest

theorem ensures_operatorNew {k : Unit → Accessor α} (quiet : Quiet I J t.globals)
    (rest : (k ()).Ensures (M.handler.relying RuntimeOp.Opens I J) Q t) :
    (call .allocate >>= k).Ensures (M.handler.relying RuntimeOp.Opens I J) Q t := by
  apply ensures_relying (fun _ => quiet.good t rfl) (fun _ u _ moved => quiet.still t rfl u moved) trivial
  rintro _ _ rfl
  exact rest

theorem ensures_operatorDelete {k : Unit → Accessor α} (quiet : Quiet I J t.globals)
    (rest : (k ()).Ensures (M.handler.relying RuntimeOp.Opens I J) Q t) :
    (call .release >>= k).Ensures (M.handler.relying RuntimeOp.Opens I J) Q t := by
  apply ensures_relying (fun _ => quiet.good t rfl) (fun _ u _ moved => quiet.still t rfl u moved) trivial
  rintro _ _ rfl
  exact rest

theorem ensures_onDevice {p : Calls α} {Q : α → Objects → Prop} (quiet : Quiet I J t.globals)
    (alive : ∃ n, t.roots ⟨.vkDevice, n⟩ ≠ none) (h : p.Ensures M.driver.handler Q t.objects) :
    (p.embed onDevice).Ensures (M.handler.relying RuntimeOp.Opens I J)
      (fun r t' => ∃ w, Q r w ∧ t' = { t with objects := w }) t := by
  apply h.quiet (h := onDevice) (f := fun w => (⟨t.globals, t.roots, w⟩ : World))
  · exact fun w => quiet.good _ rfl
  · exact fun w u => quiet.still ⟨t.globals, t.roots, w⟩ rfl u
  · exact fun o w pre => ⟨pre, alive⟩
  · intro o w x ⟨g, ρ, w'⟩ ⟨step, roots, globals⟩
    obtain rfl : ρ = t.roots := roots
    obtain rfl : g = t.globals := globals
    exact ⟨w', step, rfl⟩

/-- The device goes only when none of its objects is left. -/
theorem ensures_onRoots {p : Prog rootCalls α} {Q : α → Roots → Prop} (quiet : Quiet I J t.globals)
    (empty : t.objects = fun _ => none) (h : p.Ensures M.platform.handler Q t.roots) :
    (p.embed onRoots).Ensures (M.handler.relying RuntimeOp.Opens I J)
      (fun r t' => ∃ ρ, Q r ρ ∧ t' = { t with roots := ρ }) t := by
  apply h.quiet (h := onRoots) (f := fun ρ => (⟨t.globals, ρ, t.objects⟩ : World))
  · exact fun ρ => quiet.good _ rfl
  · exact fun ρ u => quiet.still ⟨t.globals, ρ, t.objects⟩ rfl u
  · exact fun o ρ pre => ⟨pre, fun _ _ => empty⟩
  · intro o ρ x ⟨g, ρ', w⟩ ⟨step, objects, globals⟩
    obtain rfl : w = t.objects := objects
    obtain rfl : g = t.globals := globals
    exact ⟨ρ', step, rfl⟩

theorem ensures_ensureInitialized_guarded (guarded : Guarded s.globals) :
    ensureInitialized.Ensures (reentrant M) (fun ok t => t = s ∧ ok = s.globals.initialized) s := by
  unfold ensureInitialized
  apply ensures_read
  obtain ⟨-, ⟨fresh, busy⟩ | ⟨up, -⟩⟩ := guarded
  · rw [if_neg (by simp [fresh]), if_pos busy]
    exact ⟨rfl, fresh.symm⟩
  · rw [if_pos up]
    exact ⟨rfl, up.symm⟩

theorem ensures_access_guarded {q : Access} (guarded : Guarded s.globals) :
    (access M q).Ensures (reentrant M) (fun _ t => t = s) s := by
  cases q with
  | backend =>
    apply Prog.Ensures.bind (R := fun _ t => t = s)
    · apply (ensures_ensureInitialized_guarded guarded).bind
      rintro _ _ ⟨rfl, -⟩
      exact ensures_read rfl
    · exact fun _ _ same => same
  | memoryManager =>
    apply Prog.Ensures.bind (R := fun _ t => t = s)
    · apply (ensures_ensureInitialized_guarded guarded).bind
      rintro _ _ ⟨rfl, -⟩
      exact ensures_read rfl
    · exact fun _ _ same => same
  | arena =>
    apply Prog.Ensures.bind (R := fun _ t => t = s)
    · unfold getGlobalArena
      apply ensures_read
      rw [if_neg (by simp [guarded.1])]
      apply Prog.ensures_ite
      · exact fun _ => rfl
      intro unbusy
      apply (ensures_ensureInitialized_guarded guarded).bind
      rintro ok _ ⟨rfl, rfl⟩
      obtain ⟨-, ⟨fresh, -⟩ | ⟨-, busy⟩⟩ := guarded
      · rw [if_neg (by simp [fresh])]
        exact rfl
      · exact absurd busy unbusy
    · exact fun _ _ same => same

theorem Up.alive {b : VulkanBackend} {ρ : Roots} (chosen : b.Chosen M.platform) (owns : Owns b.holds (fun _ => none) ρ) :
    ∃ n, ρ ⟨.vkDevice, n⟩ ≠ none := by
  refine ⟨b.device, owns.live _ ?_⟩
  rw [VulkanBackend.holds, VulkanBackend.heldRoot_pos chosen.device]
  simp

theorem ensures_ensureInitialized (idle : Idle M s) : ensureInitialized.Ensures (reentrant M) (fun ok t =>
    Idle M t ∧ Later s.globals t.globals ∧ t.globals.initialized = ok ∧ t.globals.arena = s.globals.arena) s := by
  unfold ensureInitialized
  apply ensures_read
  obtain rfl | ⟨b, m, up, arenas⟩ := idle.state
  swap
  · rw [if_pos up.initialized]
    exact ⟨idle, .refl, up.initialized, rfl⟩
  rw [if_neg (by simp), if_neg (by simp)]
  apply ensures_write
  apply ensures_operatorNew (Guarded.quiet ⟨rfl, Or.inl ⟨rfl, rfl⟩⟩)
  apply ensures_write
  apply (ensures_onRoots (Guarded.quiet ⟨rfl, Or.inl ⟨rfl, rfl⟩⟩) rfl VulkanBackend.ensures_initializeBackend).bind
  rintro r _ ⟨ρ, ⟨owns, chosen⟩, rfl⟩
  apply Prog.ensures_ite
  · intro done
    apply ensures_write
    apply ensures_operatorNew (Guarded.quiet ⟨rfl, Or.inl ⟨rfl, rfl⟩⟩)
    apply (ensures_onDevice (Guarded.quiet ⟨rfl, Or.inl ⟨rfl, rfl⟩⟩) (Up.alive (chosen done) owns) ensures_newMemoryManager).bind
    rintro m _ ⟨w, ⟨empty, pool⟩, rfl⟩
    apply ensures_write
    refine ⟨⟨rfl, rfl, Or.inr ⟨r.2, m, ⟨rfl, rfl, rfl, chosen done, owns, empty, ?_⟩, ?_⟩⟩, ⟨?_, ?_⟩, rfl, rfl⟩
    · simpa using pool
    · simp
    · simp
    · simp
  · intro failed
    apply ensures_write
    apply (ensures_onRoots (Guarded.quiet ⟨rfl, Or.inl ⟨rfl, rfl⟩⟩) rfl (VulkanBackend.ensures_cleanup owns fun _ => rfl)).bind
    rintro _ _ ⟨ρ', rfl, rfl⟩
    apply ensures_operatorDelete (Guarded.quiet ⟨rfl, Or.inl ⟨rfl, rfl⟩⟩)
    apply ensures_write
    exact ⟨⟨rfl, rfl, Or.inl rfl⟩, ⟨by simp, by simp⟩, rfl, rfl⟩

/-- The heap pool can be imported whole, if there is one. -/
def Machine.Whole (M : Machine) : Prop :=
  M.pool.1 ≠ 0 → ∀ address, (M.driver.requirements ⟨M.pool.2, .storage, address, true⟩).1 ≤ M.pool.2

theorem ensures_adoptPool {caps : Capabilities} (whole : Machine.Whole M) (guarded : Guarded t.globals)
    (alive : ∃ n, t.roots ⟨.vkDevice, n⟩ ≠ none) : (adoptPool M caps).Ensures (reentrant M) (fun r t' =>
      ∃ w, UnifiedArena.Attempted M.driver caps (Adopted M) t.objects r w ∧ t' = { t with objects := w }) t := by
  unfold adoptPool
  apply Prog.ensures_ite
  · exact fun _ => ⟨t.objects, Or.inr ⟨rfl, rfl, rfl⟩, rfl⟩
  intro unforced
  apply ensures_relying False.elim False.elim trivial
  rintro pool _ ⟨answer, rfl⟩
  have importable : pool.1 ≠ 0 → ∀ address, (M.driver.requirements ⟨pool.2, .storage, address, true⟩).1 ≤ pool.2 := by
    rcases answer with rfl | rfl
    · exact fun some' => absurd rfl some'
    · exact whole
  apply (ensures_onDevice guarded.quiet alive (UnifiedArena.ensures_initializeFromPool importable)).mono
  rintro r _ ⟨w, attempted, rfl⟩
  refine ⟨w, attempted.mono ?_, rfl⟩
  intro ⟨_, base, size⟩ ready
  rcases answer with rfl | rfl
  · exact absurd base ready.hostBase
  · exact fun _ => ⟨by simpa using unforced, base, size⟩

theorem ensures_buildArena {b : VulkanBackend} (pools : ¬ M.driver.fails .commandPool) (whole : Machine.Whole M)
    (guarded : Guarded t.globals) (known : t.globals.backend = some b) (alive : ∃ n, t.roots ⟨.vkDevice, n⟩ ≠ none) :
    (buildArena M).Ensures (reentrant M) (fun r t' =>
      ∃ w, UnifiedArena.Attempted M.driver b.capabilities (Adopted M) t.objects r w ∧ t' = { t with objects := w }) t := by
  unfold buildArena
  apply ensures_read
  rw [known]
  apply (ensures_adoptPool whole guarded alive).bind
  rintro r _ ⟨w, attempted, rfl⟩
  apply Prog.ensures_ite
  · exact fun _ => ⟨w, attempted, rfl⟩
  intro failed
  obtain ⟨done, _⟩ | ⟨_, empty, rfl⟩ := attempted
  · exact absurd done failed
  rw [empty]
  apply (ensures_onDevice guarded.quiet alive (UnifiedArena.ensures_initializeArena pools)).mono
  rintro r _ ⟨w, attempted, rfl⟩
  exact ⟨w, attempted.mono fun unpooled _ pooled => absurd (unpooled.symm.trans pooled) (by simp), rfl⟩

theorem ensures_getGlobalArena (pools : ¬ M.driver.fails .commandPool) (whole : Machine.Whole M) (idle : Idle M s) :
    (getGlobalArena M).Ensures (reentrant M) (fun a t =>
      Idle M t ∧ Later s.globals t.globals ∧ ∀ x, a = some x → t.globals.arena = some x) s := by
  unfold getGlobalArena
  apply ensures_read
  apply Prog.ensures_ite
  · exact fun _ => ⟨idle, .refl, fun _ same => same⟩
  intro absent
  rw [if_neg (by simp [idle.arenaInitializing])]
  apply (ensures_ensureInitialized idle).bind
  rintro ok t ⟨idle', later, rfl, same⟩
  apply Prog.ensures_ite
  swap
  · exact fun _ => ⟨idle', later, by simp⟩
  intro up
  obtain rfl | ⟨b, m, up, arenas⟩ := idle'.state
  · cases up
  have none' : t.globals.arena = none := by
    rw [same]
    simpa using absent
  have alive := Up.alive up.chosen up.roots
  apply ensures_write
  have guarded : Guarded { t.globals with arenaInitializing := true } := ⟨none', Or.inr ⟨up.initialized, rfl⟩⟩
  apply ensures_operatorNew guarded.quiet
  apply (ensures_buildArena (t := { t with globals := { t.globals with arenaInitializing := true } }) pools whole guarded
    up.backend alive).bind
  rintro r _ ⟨w, attempted, rfl⟩
  obtain ⟨done, adopted, ready, owns⟩ | ⟨failed, empty, rfl⟩ := attempted
  · rw [if_pos done]
    apply ensures_write
    apply ensures_read
    have both := up.objects
    rw [none', Option.elim_none, add_zero] at both
    refine ⟨⟨idle'.initializing, rfl, Or.inr ⟨b, m, ⟨up.initialized, up.backend, up.memoryManager, up.chosen, up.roots,
      up.buffers, owns_add.mpr ⟨_, both, owns⟩⟩, ?_⟩⟩, later.trans ⟨?_, ?_⟩, fun _ same => same⟩
    · rintro a ⟨⟩
      exact ⟨ready, adopted⟩
    · intro a found
      rw [none'] at found
      cases found
    · exact fun _ => ⟨up.initialized, rfl, rfl⟩
  · rw [if_neg (by simp [failed])]
    apply ensures_write
    have nothing : r.2.destroyArena = pure {} := by
      rw [empty]
      rfl
    have back : ∀ g : Globals, g.arenaInitializing = false → { g with arenaInitializing := false } = g := by
      rintro ⟨_, _, _, _, _, _⟩ rfl
      rfl
    rw [nothing, back _ idle'.arenaInitializing]
    -- The temporary arena is deleted when the flag is down again, so another may be built right here.
    refine ⟨⟨fun _ => Or.inr idle', fun _ _ => trivial⟩, ?_⟩
    rintro _ _ ⟨u, rfl | ⟨_, _, _, moved, more⟩, rfl⟩
    · exact ⟨idle', later, by simp⟩
    · exact ⟨moved idle', later.trans more, by simp⟩

theorem ensures_access {q : Access} (pools : ¬ M.driver.fails .commandPool) (whole : Machine.Whole M) (idle : Idle M s) :
    (access M q).Ensures (reentrant M) (fun a t => Idle M t ∧ Later s.globals t.globals ∧ Current t.globals a) s := by
  cases q with
  | backend =>
    apply Prog.Ensures.bind (R := fun b t => Idle M t ∧ Later s.globals t.globals ∧ Current t.globals (.backend b))
    · apply (ensures_ensureInitialized idle).bind
      rintro _ t ⟨idle', later, -⟩
      exact ensures_read ⟨idle', later, fun _ same => same⟩
    · exact fun _ _ same => same
  | memoryManager =>
    apply Prog.Ensures.bind (R := fun m t => Idle M t ∧ Later s.globals t.globals ∧ Current t.globals (.memoryManager m))
    · apply (ensures_ensureInitialized idle).bind
      rintro _ t ⟨idle', later, -⟩
      exact ensures_read ⟨idle', later, fun _ same => same⟩
    · exact fun _ _ same => same
  | arena => exact (ensures_getGlobalArena pools whole idle).bind fun _ _ same => same

/-- Whatever calls the accessors again, before or after, keeps what was there. -/
theorem ensures_entry (pools : ¬ M.driver.fails .commandPool) (whole : Machine.Whole M) :
    ∀ p ∈ entries M, ∀ s, Stable M s → p.Ensures (reentrant M) (fun _ t => Stable M t ∧ Moves M s t) s := by
  intro p entry s stable
  obtain ⟨q, -, rfl⟩ := List.mem_map.mp entry
  obtain guarded | idle := stable
  · apply (ensures_access_guarded guarded).bind
    rintro _ _ rfl
    exact ⟨Or.inl guarded, .refl⟩
  · apply (ensures_access pools whole idle).bind
    rintro _ t ⟨idle', later, -⟩
    exact ⟨Or.inr idle', fun guarded => absurd guarded idle.not_guarded, fun _ => idle', later⟩

theorem Current.later {a : Answered} (idle : Idle M s) (h : Current s.globals a) (later : Later s.globals t.globals) :
    Current t.globals a := by
  have up : s.globals.initialized = true ∨ s.globals.backend = none ∧ s.globals.memoryManager = none := by
    obtain rfl | ⟨b, m, up, -⟩ := idle.state
    · exact Or.inr ⟨rfl, rfl⟩
    · exact Or.inl up.initialized
  cases a with
  | arena a => exact fun x found => later.arena x (h x found)
  | backend b =>
    intro x found
    obtain up | ⟨absent, -⟩ := up
    · rw [(later.backend up).2.1]
      exact h x found
    · exact absurd (absent.symm.trans (h x found)) (by simp)
  | memoryManager m =>
    intro x found
    obtain up | ⟨-, absent⟩ := up
    · rw [(later.backend up).2.2]
      exact h x found
    · exact absurd (absent.symm.trans (h x found)) (by simp)

theorem ensures_session (pools : ¬ M.driver.fails .commandPool) (whole : Machine.Whole M) (requests : List Access)
    (answers : List Answered) (idle : Idle M s) (current : ∀ a ∈ answers, Current s.globals a) :
    (requests.foldlM (fun answers q => do
      let a ← access M q
      pure (a :: answers)) answers : Accessor (List Answered)).Ensures (reentrant M) (fun answers t =>
        Idle M t ∧ ∀ a ∈ answers, Current t.globals a) s := by
  induction requests generalizing answers s with
  | nil => exact ⟨idle, current⟩
  | cons q requests ih =>
    rw [List.foldlM_cons, Prog.bind_assoc]
    apply (ensures_access pools whole idle).bind
    intro a t ⟨idle', later, new⟩
    apply ih _ idle'
    intro a' here
    rcases List.mem_cons.mp here with rfl | here
    · exact new
    · exact (current a' here).later idle later

/-- At the end nothing calls the accessors again. -/
theorem ensures_exit {order : MemoryManager → List UnifiedBuffer} (perm : ∀ m, (order m).Perm m.all) (idle : Idle M s) :
    (exit order).Ensures M.handler (fun _ t => t.objects = (fun _ => none) ∧ t.roots = fun _ => none) s := by
  have quiet : ∀ g, Quiet (fun _ => True) (fun s t => t = s) g := fun g => ⟨fun _ _ => trivial, fun _ _ _ same => same⟩
  apply Prog.Ensures.alone (I := fun _ => True) (J := fun s t => t = s)
  unfold exit
  apply ensures_read
  obtain rfl | ⟨b, m, up, -⟩ := idle.state
  · exact ⟨rfl, rfl⟩
  have alive := Up.alive up.chosen up.roots
  apply Prog.Ensures.bind (R := fun _ t => t.roots = s.roots ∧ Owns (held .commandPool m.commandPool) (fun _ => none) t.objects)
  · have owns := up.objects
    cases found : s.globals.arena with
    | none =>
      rw [found, Option.elim_none, add_zero] at owns
      exact ⟨rfl, owns⟩
    | some a =>
      rw [found, Option.elim_some, add_comm] at owns
      apply (ensures_onDevice (quiet _) alive (UnifiedArena.ensures_destroyArena owns)).mono
      rintro _ _ ⟨w, ⟨-, left⟩, rfl⟩
      exact ⟨rfl, left⟩
  intro _ t ⟨roots, owns⟩
  rw [up.memoryManager, up.backend]
  rw [← roots] at alive
  have managed : Managed M.driver (fun _ => none) m (⟨fun _ => none, 0, fun _ => 0, fun _ => ()⟩ : Elementwise.MemoryManager Unit)
    t.objects := .start owns up.buffers fun _ => rfl
  apply (ensures_onDevice (quiet _) alive (managed.destruct (perm m))).bind
  rintro _ _ ⟨w, rfl, rfl⟩
  have held : Owns b.holds (fun _ => none) t.roots := by
    rw [roots]
    exact up.roots
  apply (ensures_onRoots (t := { t with objects := fun _ => none }) (quiet _) rfl
    (VulkanBackend.ensures_cleanup held fun _ => rfl)).mono
  rintro _ _ ⟨ρ, rfl, rfl⟩
  exact ⟨rfl, rfl⟩

end

/-- However deep the accessors are called inside each other, there is at most one device, one manager and one
arena, which stay; and when the process ends nothing of them is left. -/
theorem globals_published_once {M : Machine} (pools : ¬ M.driver.fails .commandPool) (whole : Machine.Whole M)
    (requests : List Access) (depth : Nat) {order : MemoryManager → List UnifiedBuffer} (perm : ∀ m, (order m).Perm m.all) :
    (session M requests).Ensures (M.handler.interrupted RuntimeOp.Opens (entries M) depth) (fun answers t =>
      Idle M t ∧ (∀ a ∈ answers, Current t.globals a) ∧
      (exit order).Ensures M.handler (fun _ t' => t'.objects = (fun _ => none) ∧ t'.roots = fun _ => none) t) {} := by
  have plain := ensures_session pools whole requests [] (⟨rfl, rfl, Or.inl rfl⟩ : Idle M {}) (by simp)
  apply (plain.interrupted (fun _ => .refl) (fun _ _ _ => .trans) (ensures_entry pools whole) depth).mono
  intro answers t ⟨idle, current⟩
  exact ⟨idle, current, ensures_exit perm idle⟩

/-- One integrated device that can import the heap. -/
def integratedMachine : Machine where
  platform := ⟨[⟨[3], [.bufferDeviceAddress], [externalMemoryHost], 4096⟩], fun _ => False⟩
  driver := integratedDriver
  pool := (2 ^ 31, 2 ^ 20)
  env := ⟨0, false, false⟩
  proc := true

theorem globals_published_once_twice : ∃ answers t t', (session integratedMachine [.arena, .backend, .arena]).Run
      (integratedMachine.handler.interrupted RuntimeOp.Opens (entries integratedMachine) 2).step {} answers t ∧
    Idle integratedMachine t ∧ (∀ a ∈ answers, Current t.globals a) ∧
    (exit MemoryManager.all).Run integratedMachine.handler.step t () t' ∧
    t'.objects = (fun _ => none) ∧ t'.roots = fun _ => none := by
  have safe := @globals_published_once integratedMachine id (fun _ _ => le_rfl) [.arena, .backend, .arena] 2
    MemoryManager.all fun _ => .refl _
  have progress := Machine.progress (M := integratedMachine) integratedDriver_room
  obtain ⟨answers, t, run, small⟩ := safe.exists_run_within (I := World.Small) ⟨⟨by simp, by simp⟩, by simp, by simp⟩
    (Handler.interrupted_progress progress 2)
  obtain ⟨idle, current, leaves⟩ := safe.run run
  obtain ⟨_, t', exited, -⟩ := leaves.exists_run_within small progress
  exact ⟨answers, t, t', run, idle, current, exited, leaves.run exited⟩

end Runtime

end Parallax.Vulkan
