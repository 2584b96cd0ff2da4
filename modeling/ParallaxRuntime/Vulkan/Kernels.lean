import ParallaxRuntime.Vulkan.Device
import Mathlib.Data.List.AList
import Mathlib.Algebra.BigOperators.Group.Multiset.Basic
import Mathlib.Order.Preorder.Finite
import Mathlib.Tactic.Abel

/-!
# The objects of the kernel launcher

The constructor, `load_kernel`, the uniform buffers that every launch adds, and the destructor.
-/

namespace Parallax.Vulkan
open Effects

/-- `vkDestroy` on each handle that is not null, in order. -/
def destroyFields : List (Kind × Nat) → Calls Unit
  | [] => pure ()
  | f :: fields => do
    destroyHeld f.1 f.2
    destroyFields fields

def heldBy (fields : List (Kind × Nat)) : Multiset Handle := (fields.map fun f => held f.1 f.2).sum

structure PipelineData where
  pipeline : Nat
  layout : Nat
  descriptorSetLayout : Nat
  shaderModule : Nat
deriving DecidableEq

def PipelineData.fields (d : PipelineData) : List (Kind × Nat) :=
  [(.pipeline, d.pipeline), (.pipelineLayout, d.layout), (.descriptorSetLayout, d.descriptorSetLayout),
    (.shaderModule, d.shaderModule)]

structure KernelLauncher where
  pipelines : AList fun _ : String => PipelineData := ∅
  descriptorPool : Nat := 0
  commandPool : Nat := 0
  commandBuffer : Nat := 0
  fence : Nat := 0
  transientBuffers : List (Nat × Nat) := []

def newKernelLauncher : Calls KernelLauncher := do
  let descriptorPool ← create (.descriptorPool 6144 2048 1024)
  let commandPool ← create .commandPool
  let commandBuffer ← query (.allocateCommandBuffers (commandPool.getD 0))
  let fence ← create (.fence true)
  pure { descriptorPool := descriptorPool.getD 0, commandPool := commandPool.getD 0
         commandBuffer := commandBuffer.getD 0, fence := fence.getD 0 }

/-- Two arrays, the captures block, and a third array for the compaction. -/
def bindings : List DescriptorType := [.storageBuffer, .storageBuffer, .uniformBuffer, .storageBuffer]

namespace KernelLauncher

def loadKernel (l : KernelLauncher) (name : String) (code size : Nat) : Calls (Bool × KernelLauncher) := do
  match ← create (.shaderModule code size) with
  | none => pure (false, l)
  | some shaderModule =>
    match ← create (.descriptorSetLayout bindings) with
    | none =>
      destroy .shaderModule shaderModule
      pure (false, l)
    | some setLayout =>
      match ← create (.pipelineLayout setLayout 24) with
      | none =>
        destroy .descriptorSetLayout setLayout
        destroy .shaderModule shaderModule
        pure (false, l)
      | some layout =>
        match ← create (.pipeline shaderModule layout) with
        | none =>
          destroy .pipelineLayout layout
          destroy .descriptorSetLayout setLayout
          destroy .shaderModule shaderModule
          pure (false, l)
        | some pipeline =>
          pure (true, { l with pipelines := l.pipelines.insert name ⟨pipeline, layout, setLayout, shaderModule⟩ })

/-- The uniform buffer of one launch or dispatch. Only captures are written to it. -/
def addTransient (l : KernelLauncher) (captureSize : Nat) (captures : Bool) : Calls KernelLauncher := do
  let buffer ← create (.buffer ⟨max captureSize 64, .uniform, false, false⟩)
  let memory ← allocateFor (buffer.getD 0) (hostVisible ||| hostCoherent) false
  let _ ← bindBufferMemory (buffer.getD 0) (memory.getD 0)
  if captures then
    let _ ← mapMemory (memory.getD 0) captureSize
    destroy .mapping (memory.getD 0)
    pure { l with transientBuffers := l.transientBuffers ++ [(buffer.getD 0, memory.getD 0)] }
  else
    pure { l with transientBuffers := l.transientBuffers ++ [(buffer.getD 0, memory.getD 0)] }

def transientFields (l : KernelLauncher) : List (Kind × Nat) :=
  l.transientBuffers.flatMap fun t => [(.buffer, t.1), (.memory, t.2)]

/-- On a device that is still there. -/
def retireTransientBuffers (l : KernelLauncher) : Calls KernelLauncher :=
  if l.transientBuffers.isEmpty then pure l
  else do
    query .deviceWaitIdle
    destroyFields l.transientFields
    pure { l with transientBuffers := [] }

def ownFields (l : KernelLauncher) : List (Kind × Nat) :=
  [(.fence, l.fence), (.commandPool, l.commandPool), (.descriptorPool, l.descriptorPool)]

/-- `~KernelLauncher`, which meets the pipelines in the order of the hash table. -/
def destruct (l : KernelLauncher) (order : List PipelineData) : Calls Unit := do
  let l ← l.retireTransientBuffers
  destroyFields (order.flatMap PipelineData.fields)
  destroyFields l.ownFields

def loaded (l : KernelLauncher) : List PipelineData := l.pipelines.entries.map Sigma.snd

def holds (l : KernelLauncher) : Multiset Handle :=
  heldBy l.transientFields + (heldBy (l.loaded.flatMap PipelineData.fields) + heldBy l.ownFields)

end KernelLauncher

/-- What a client makes the launcher do; a launch shows here by its uniform buffers only. -/
inductive LauncherCall where
  | loadKernel (name : String) (code size : Nat)
  | launch (captureSize : Nat) (captures : Bool)

def LauncherCall.run (l : KernelLauncher) : LauncherCall → Calls KernelLauncher
  | .loadKernel name code size => do
    let r ← l.loadKernel name code size
    pure r.2
  | .launch captureSize captures => l.addTransient captureSize captures

def LauncherCall.name : LauncherCall → Option String
  | .loadKernel name _ _ => some name
  | .launch _ _ => none

/-- A launcher from its constructor to its destructor. -/
def lifetime (calls : List LauncherCall) (order : KernelLauncher → List PipelineData) : Calls Unit := do
  let l ← newKernelLauncher
  let l ← calls.foldlM LauncherCall.run l
  l.destruct (order l)

/-- The pipeline was built from these SPIR-V words, for the four bindings and 24 bytes of push constants. -/
structure BuiltFrom (w : Objects) (d : PipelineData) (code size : Nat) : Prop where
  shaderModule : w ⟨.shaderModule, d.shaderModule⟩ = some (.shaderModule code size)
  setLayout : w ⟨.descriptorSetLayout, d.descriptorSetLayout⟩ = some (.descriptorSetLayout bindings)
  layout : w ⟨.pipelineLayout, d.layout⟩ = some (.pipelineLayout d.descriptorSetLayout 24)
  pipeline : w ⟨.pipeline, d.pipeline⟩ = some (.pipeline d.shaderModule d.layout)

section
variable {V : Driver} {α : Type} {Q : α → Objects → Prop} {hs : Multiset Handle} {base w : Objects}

@[simp] theorem heldBy_nil : heldBy [] = 0 := rfl

@[simp] theorem heldBy_cons {f : Kind × Nat} {fields : List (Kind × Nat)} :
    heldBy (f :: fields) = held f.1 f.2 + heldBy fields := by simp [heldBy]

@[simp] theorem heldBy_append {fields fields' : List (Kind × Nat)} :
    heldBy (fields ++ fields') = heldBy fields + heldBy fields' := by simp [heldBy]

theorem heldBy_perm {fields fields' : List (Kind × Nat)} (perm : fields.Perm fields') : heldBy fields = heldBy fields' :=
  (perm.map _).sum_eq

theorem ensures_destroyFields {fields : List (Kind × Nat)} (owns : Owns (heldBy fields + hs) base w) :
    (destroyFields fields).Ensures V.handler (fun _ w' => Owns hs base w') w := by
  induction fields generalizing w with
  | nil =>
    rw [heldBy_nil, zero_add] at owns
    exact owns
  | cons f fields ih =>
    rw [heldBy_cons, add_assoc] at owns
    apply ensures_destroyHeld owns
    exact fun w' owns' => ih owns'

/-- A kernel that could not be loaded leaves nothing behind. -/
theorem ensures_loadKernel {l : KernelLauncher} {name : String} {code size : Nat} :
    (l.loadKernel name code size).Ensures V.handler (fun r w' =>
      (r = (false, l) ∧ w' = w) ∨
      ∃ d, r = (true, { l with pipelines := l.pipelines.insert name d }) ∧ Owns (heldBy d.fields) w w' ∧
        BuiltFrom w' d code size) w := by
  unfold KernelLauncher.loadKernel
  apply ensures_create (owns_zero.mpr rfl)
  · trivial
  · intro _
    exact Or.inl ⟨rfl, rfl⟩
  intro shaderModule w₁ made owns
  apply ensures_create owns
  · trivial
  · intro _
    apply ensures_destroy made.nonzero owns
    intro w' none
    exact Or.inl ⟨rfl, owns_zero.mp none⟩
  intro setLayout w₂ made' owns
  have here : w₂ ⟨.descriptorSetLayout, setLayout⟩ = _ := made'.here
  apply ensures_create owns
  · simp [Driver.rules, here]
  · intro _
    apply ensures_destroy made'.nonzero owns
    intro w' owns
    apply ensures_destroy made.nonzero owns
    intro w' none
    exact Or.inl ⟨rfl, owns_zero.mp none⟩
  intro layout w₃ made'' owns
  have here' : w₃ ⟨.pipelineLayout, layout⟩ = _ := made''.here
  have module' : w₃ ⟨.shaderModule, shaderModule⟩ = some (.shaderModule code size) :=
    made''.kept _ _ (made'.kept _ _ made.here)
  apply ensures_create owns
  · simp [Driver.rules, here', module']
  · intro _
    apply ensures_destroy made''.nonzero owns
    intro w' owns
    apply ensures_destroy made'.nonzero owns
    intro w' owns
    apply ensures_destroy made.nonzero owns
    intro w' none
    exact Or.inl ⟨rfl, owns_zero.mp none⟩
  intro pipeline w₄ last owns
  refine Or.inr ⟨⟨pipeline, layout, setLayout, shaderModule⟩, rfl, ?_, ?_⟩
  · simpa [PipelineData.fields] using owns
  · exact ⟨last.kept _ _ module', last.kept _ _ (made''.kept _ _ here), last.kept _ _ here', last.here⟩

/-- What the launcher uses whether or not it could be made: its command pool, whose failure it prints
before it goes on, and the uniform buffers with their memory and its mapping, whose results it never looks at. -/
structure Driver.Dependable (V : Driver) : Prop where
  commandPool : ¬ V.fails .commandPool
  uniform : ∀ b : BufferInfo, b.usage = .uniform → ¬ V.fails (.buffer b)
  memory : ∀ b : BufferInfo, b.usage = .uniform →
    ¬ V.rules.fails (.memory (V.memoryFor b (hostVisible ||| hostCoherent) false))
  mapping : ∀ m size p, ¬ V.fails (.mapping m size p)

theorem ensures_addTransient (ok : V.Dependable) {l : KernelLauncher} {captureSize : Nat} {captures : Bool} :
    (l.addTransient captureSize captures).Ensures V.handler (fun l' w' =>
      ∃ b m, l' = { l with transientBuffers := l.transientBuffers ++ [(b, m)] } ∧
        Owns (held .buffer b + held .memory m) w w') w := by
  unfold KernelLauncher.addTransient
  apply ensures_create (owns_zero.mpr rfl)
  · trivial
  · rintro (fails | missing)
    · exact absurd fails (ok.uniform _ rfl)
    · exact missing.elim
  intro b w₁ made owns
  have here : w₁ ⟨.buffer, b⟩ = _ := made.here
  apply ensures_allocateFor owns here
  · intro fails
    exact absurd fails (ok.memory _ rfl)
  intro m w₂ made' owns
  obtain ⟨allowed, visible⟩ := findMemoryType_spec made'.fits.2.2.1
  have owned : Owns (held .buffer b + held .memory m) w w₂ := by simpa [add_comm] using owns
  have here' : w₂ ⟨.memory, m⟩ = _ := made'.here
  apply ensures_bind owned (by simp [held_pos made.nonzero]) (made'.kept _ _ here) here'
    (Driver.suits_memoryFor made'.fits.2.2.1 (by simp))
  intro _ w₃ _ others owned
  split
  · apply ensures_mapMemory owned
    · exact fun p => made'.mappable others (flags_of_subset visible (by decide))
    · rintro ⟨p, fails | missing⟩
      · exact absurd fails (ok.mapping _ _ p)
      · exact missing.elim
    intro p w₄ _ mapped owns
    apply ensures_destroy mapped.nonzero owns
    exact fun w' owns => ⟨b, m, rfl, owns⟩
  · exact ⟨b, m, rfl, owned⟩

theorem ensures_newKernelLauncher (ok : V.Dependable) : newKernelLauncher.Ensures V.handler (fun l w' =>
    l.pipelines = ∅ ∧ Owns l.holds w w') w := by
  unfold newKernelLauncher
  apply ensures_create_getD (owns_zero.mpr rfl)
  · trivial
  intro pool w' _ owns
  apply ensures_create owns
  · trivial
  · rintro (fails | missing)
    · exact absurd fails ok.commandPool
    · exact missing.elim
  intro n w₂ made owns
  have here : w₂ ⟨.commandPool, n⟩ = _ := made.here
  apply ensures_query
  · simp [Driver.rules, here]
  intro _ _
  apply ensures_create_getD owns
  · trivial
  intro fence w'' _ owns
  refine ⟨rfl, ?_⟩
  simpa [KernelLauncher.holds, KernelLauncher.transientFields, KernelLauncher.loaded, KernelLauncher.ownFields] using owns

theorem ensures_retire {l : KernelLauncher} (owns : Owns (heldBy l.transientFields + hs) base w) :
    l.retireTransientBuffers.Ensures V.handler (fun l' w' => l' = { l with transientBuffers := [] } ∧ Owns hs base w') w := by
  unfold KernelLauncher.retireTransientBuffers
  split
  · next empty =>
    have none : l.transientBuffers = [] := List.isEmpty_iff.mp empty
    rw [KernelLauncher.transientFields, none, List.flatMap_nil, heldBy_nil, zero_add] at owns
    exact ⟨by rw [← none], owns⟩
  · apply ensures_query
    · trivial
    intro _ _
    apply (ensures_destroyFields owns).bind
    exact fun _ w' owns => ⟨rfl, owns⟩

theorem ensures_destruct {l : KernelLauncher} {order : List PipelineData} (perm : order.Perm l.loaded)
    (owns : Owns (l.holds + hs) base w) : (l.destruct order).Ensures V.handler (fun _ w' => Owns hs base w') w := by
  have split : l.holds + hs = heldBy l.transientFields + (heldBy (order.flatMap PipelineData.fields) +
      (heldBy l.ownFields + hs)) := by
    rw [KernelLauncher.holds, heldBy_perm (perm.flatMap_right PipelineData.fields)]
    simp only [add_assoc]
  rw [split] at owns
  unfold KernelLauncher.destruct
  apply (ensures_retire owns).bind
  rintro _ w' ⟨rfl, owns⟩
  apply (ensures_destroyFields owns).bind
  intro _ w' owns
  exact ensures_destroyFields owns

/-! ### Whole lifetimes -/

/-- The pipelines in `lost` were replaced under their names, one for each time that a name came again. -/
structure Keeps (base : Objects) (names : List String) (lost : List PipelineData) (l : KernelLauncher) (w : Objects) : Prop where
  owns : Owns (l.holds + heldBy (lost.flatMap PipelineData.fields)) base w
  named : ∀ name ∈ l.pipelines, name ∈ names
  few : lost.length + names.toFinset.card ≤ names.length

theorem perm_kerase {κ β : Type} [DecidableEq κ] (entries : List (Σ _ : κ, β)) (key : κ) :
    (entries.map Sigma.snd).Perm ((entries.dlookup key).toList ++ (entries.kerase key).map Sigma.snd) := by
  induction entries with
  | nil => simp
  | cons e entries ih =>
    obtain ⟨other, d⟩ := e
    by_cases same : key = other
    · subst same
      simp
    · rw [List.dlookup_cons_ne _ _ same, List.kerase_cons_ne same, List.map_cons, List.map_cons]
      exact (ih.cons d).trans List.perm_middle.symm

/-- Storing under a name that is in use drops the pipeline of before, not its objects. -/
theorem holds_insert (l : KernelLauncher) (name : String) (d : PipelineData) :
    ({ l with pipelines := l.pipelines.insert name d } : KernelLauncher).holds +
        heldBy ((l.pipelines.lookup name).toList.flatMap PipelineData.fields) =
      l.holds + heldBy d.fields := by
  have kept := perm_kerase l.pipelines.entries name
  have : heldBy (l.loaded.flatMap PipelineData.fields) =
      heldBy ((l.pipelines.lookup name).toList.flatMap PipelineData.fields) +
        heldBy (((l.pipelines.entries.kerase name).map Sigma.snd).flatMap PipelineData.fields) := by
    rw [KernelLauncher.loaded, heldBy_perm (kept.flatMap_right PipelineData.fields), List.flatMap_append, heldBy_append]
    rfl
  have whole : l.holds = heldBy l.transientFields + (heldBy ((l.pipelines.lookup name).toList.flatMap PipelineData.fields) +
      heldBy (((l.pipelines.entries.kerase name).map Sigma.snd).flatMap PipelineData.fields) + heldBy l.ownFields) := by
    rw [KernelLauncher.holds, this]
  rw [whole]
  simp only [KernelLauncher.holds, KernelLauncher.loaded, AList.entries_insert, List.map_cons, List.flatMap_cons,
    heldBy_append, KernelLauncher.transientFields, KernelLauncher.ownFields]
  abel

theorem Keeps.loadKernel {names : List String} {lost : List PipelineData} {l : KernelLauncher} {name : String} {code size : Nat}
    (h : Keeps base names lost l w) : (l.loadKernel name code size).Ensures V.handler (fun r w' =>
      ∃ lost', Keeps base (name :: names) lost' r.2 w') w := by
  have few := h.few
  have wider : (name :: names).toFinset.card ≤ names.toFinset.card + 1 := by
    rw [List.toFinset_cons]
    exact Finset.card_insert_le name names.toFinset
  apply ensures_loadKernel.mono
  rintro _ w' (⟨rfl, rfl⟩ | ⟨d, rfl, owns, -⟩)
  · refine ⟨lost, h.owns, fun other here => List.mem_cons_of_mem _ (h.named other here), ?_⟩
    rw [List.length_cons]
    omega
  · refine ⟨(l.pipelines.lookup name).toList ++ lost, ?_, ?_, ?_⟩
    · have both := owns_add.mpr ⟨w, h.owns, owns⟩
      rw [List.flatMap_append, heldBy_append, ← add_assoc, holds_insert, add_right_comm]
      exact both
    · intro other here
      rcases (AList.mem_insert l.pipelines).mp here with rfl | here
      · exact List.mem_cons_self
      · exact List.mem_cons_of_mem _ (h.named other here)
    · rw [List.length_append, List.length_cons]
      by_cases again : name ∈ names
      · have same : (name :: names).toFinset = names.toFinset := by simp [again]
        have := Option.length_toList_le (o := l.pipelines.lookup name)
        rw [same]
        omega
      · have none : l.pipelines.lookup name = none := AList.lookup_eq_none.mpr fun here => again (h.named name here)
        simp only [none, Option.toList_none, List.length_nil]
        omega

theorem holds_addTransient {l : KernelLauncher} {b m : Nat} :
    ({ l with transientBuffers := l.transientBuffers ++ [(b, m)] } : KernelLauncher).holds =
      l.holds + (held .buffer b + held .memory m) := by
  simp only [KernelLauncher.holds, KernelLauncher.transientFields, KernelLauncher.loaded, KernelLauncher.ownFields,
    List.flatMap_append, List.flatMap_cons, List.flatMap_nil, List.append_nil, heldBy_append, heldBy_cons, heldBy_nil]
  abel

theorem Keeps.run (ok : V.Dependable) {names : List String} {lost : List PipelineData} {l : KernelLauncher}
    {c : LauncherCall} (h : Keeps base names lost l w) : (LauncherCall.run l c).Ensures V.handler (fun l' w' =>
      ∃ lost', Keeps base (c.name.toList ++ names) lost' l' w') w := by
  cases c with
  | loadKernel name code size =>
    apply (h.loadKernel).bind
    intro r w' ⟨lost', kept⟩
    exact ⟨lost', kept⟩
  | launch captureSize captures =>
    apply (ensures_addTransient ok).mono
    rintro _ w' ⟨b, m, rfl, owns⟩
    refine ⟨lost, ?_, h.named, h.few⟩
    have both := owns_add.mpr ⟨w, h.owns, owns⟩
    rw [holds_addTransient, add_right_comm]
    exact both

theorem Keeps.runs (ok : V.Dependable) {calls : List LauncherCall} {names : List String} {lost : List PipelineData}
    {l : KernelLauncher} (h : Keeps base names lost l w) : (calls.foldlM LauncherCall.run l).Ensures V.handler (fun l' w' =>
      ∃ lost', Keeps base ((calls.filterMap LauncherCall.name).reverse ++ names) lost' l' w') w := by
  induction calls generalizing names lost l w with
  | nil => exact ⟨lost, h⟩
  | cons c calls ih =>
    apply (h.run ok (c := c)).bind
    intro l' w' ⟨lost', kept⟩
    apply (ih kept).mono
    intro l'' w'' ⟨lost'', kept⟩
    refine ⟨lost'', ?_⟩
    cases same : c.name with
    | none => simpa [same] using kept
    | some name => simpa [same] using kept

/-- Whatever is loaded and launched and whatever fails, the launcher destroys each object once and leaves
no object behind, but for one pipeline for each time that a name was loaded again. -/
theorem lifetime_objects_destroyed (ok : V.Dependable) (calls : List LauncherCall) {order : KernelLauncher → List PipelineData}
    (perm : ∀ l, (order l).Perm l.loaded) (base : Objects) : (lifetime calls order).Ensures V.handler (fun _ w' =>
      ∃ lost : List PipelineData, Owns (heldBy (lost.flatMap PipelineData.fields)) base w' ∧
        lost.length + (calls.filterMap LauncherCall.name).toFinset.card ≤ (calls.filterMap LauncherCall.name).length) base := by
  unfold lifetime
  apply (ensures_newKernelLauncher ok).bind
  intro l w ⟨empty, owns⟩
  have first : Keeps base [] [] l w := by
    refine ⟨by simpa using owns, ?_, by simp⟩
    intro name here
    rw [empty] at here
    exact absurd here (AList.notMem_empty name)
  apply (first.runs ok).bind
  intro l' w' ⟨lost, kept⟩
  apply (ensures_destruct (perm l') kept.owns).mono
  intro _ w'' left
  refine ⟨lost, left, ?_⟩
  simpa using kept.few

end

/-- A driver with one memory type that everything can use, as on integrated devices. -/
def integratedDriver : Driver where
  types := [deviceLocal ||| hostVisible ||| hostCoherent]
  few := by decide
  requirements b := (b.size, 1)
  hostTypes _ := some 1
  host p := p < 2 ^ 32
  fails _ := False

theorem integratedDriver_dependable : integratedDriver.Dependable := by
  refine ⟨id, fun _ _ => id, ?_, fun _ _ _ => id⟩
  rintro b - (fails | missing)
  · exact fails
  · have found : (integratedDriver.memoryFor b (hostVisible ||| hostCoherent) false).type < integratedDriver.types.length := by
      simp only [Driver.memoryFor, integratedDriver]
      decide
    exact absurd found (Nat.not_lt.mpr missing)

theorem integratedDriver_room : {p | ¬ integratedDriver.host p}.Infinite := by
  apply Set.infinite_of_forall_exists_gt
  intro a
  refine ⟨a + 2 ^ 32, Nat.not_lt.mpr (Nat.le_add_left ..), ?_⟩
  omega

example : ∃ r w', (KernelLauncher.loadKernel {} "kernel_0" 4096 64).Run integratedDriver.handler.step (fun _ => none) r w' ∧
    r.1 = true :=
  ⟨_, _, ⟨some ⟨.shaderModule, 1⟩, _, ⟨⟨rfl, by decide, trivial⟩, rfl, rfl⟩,
    some ⟨.descriptorSetLayout, 1⟩, _, ⟨⟨rfl, by decide, trivial⟩, by simp, rfl⟩,
    some ⟨.pipelineLayout, 1⟩, _, ⟨⟨rfl, by decide, trivial⟩, by simp, rfl⟩,
    some ⟨.pipeline, 1⟩, _, ⟨⟨rfl, by decide, trivial⟩, by simp, rfl⟩, rfl, rfl⟩, rfl⟩

/-- A kernel is loaded twice under one name. -/
theorem lifetime_objects_destroyed_twice :
    ∃ r w', (lifetime [.loadKernel "kernel_0" 4096 64, .launch 0 false, .loadKernel "kernel_0" 8192 64]
      KernelLauncher.loaded).Run integratedDriver.handler.step (fun _ => none) r w' ∧
        ∃ lost : List PipelineData, Owns (heldBy (lost.flatMap PipelineData.fields)) (fun _ => none) w' ∧ lost.length + 1 ≤ 2 :=
  exists_run_from integratedDriver_room (lifetime_objects_destroyed integratedDriver_dependable
    [.loadKernel "kernel_0" 4096 64, .launch 0 false, .loadKernel "kernel_0" 8192 64] (fun _ => .refl _) (fun _ => none))

end Parallax.Vulkan
