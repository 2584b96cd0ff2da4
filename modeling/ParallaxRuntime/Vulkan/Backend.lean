import ParallaxRuntime.Vulkan.Device
import Mathlib.Data.List.Basic

/-!
# The instance and the device

`VulkanBackend::initialize` and `cleanup`: the first physical device with a compute queue, what it
can do, and a logical device with no features but those.
-/

namespace Parallax.Vulkan
open Effects

inductive Feature where
  | shaderInt64
  | shaderFloat64
  | shaderInt16
  | bufferDeviceAddress
  | shaderInt8
  | shaderFloat16
  | storageBuffer8BitAccess
  | storageBuffer16BitAccess
  | variablePointersStorageBuffer
  | variablePointers
deriving DecidableEq

/-- `DeviceCapabilities` -/
structure Capabilities where
  shaderInt64 : Bool := false
  shaderFloat64 : Bool := false
  bufferDeviceAddress : Bool := false
  shaderInt16 : Bool := false
  shaderInt8 : Bool := false
  shaderFloat16 : Bool := false
  storageBuffer16bit : Bool := false
  storageBuffer8bit : Bool := false
  externalMemoryHost : Bool := false
  minImportedHostPointerAlignment : Nat := 4096
deriving DecidableEq

/-- What a physical device reports of itself. -/
structure PhysicalDevice where
  families : List (BitVec 32)
  features : List Feature
  extensions : List String
  minImportedHostPointerAlignment : Nat

def externalMemoryHost : String := "VK_EXT_external_memory_host"

namespace PhysicalDevice

/-- `find_queue_families`: the first family with `VK_QUEUE_COMPUTE_BIT`. -/
def computeFamily (d : PhysicalDevice) : Option Nat := d.families.findIdx? fun flags => flags.getLsbD 1

def detectCapabilities (d : PhysicalDevice) : Capabilities where
  shaderInt64 := d.features.contains .shaderInt64
  shaderFloat64 := d.features.contains .shaderFloat64
  shaderInt16 := d.features.contains .shaderInt16
  bufferDeviceAddress := d.features.contains .bufferDeviceAddress
  shaderInt8 := d.features.contains .shaderInt8
  shaderFloat16 := d.features.contains .shaderFloat16
  storageBuffer16bit := d.features.contains .storageBuffer16BitAccess
  storageBuffer8bit := d.features.contains .storageBuffer8BitAccess
  externalMemoryHost := d.extensions.contains externalMemoryHost
  minImportedHostPointerAlignment :=
    if d.extensions.contains externalMemoryHost ∧ d.minImportedHostPointerAlignment ≠ 0 then d.minImportedHostPointerAlignment
    else 4096

end PhysicalDevice

/-- The features that `create_logical_device` asks for; variable pointers whether they are there or not. -/
def Capabilities.enabled (caps : Capabilities) : List Feature :=
  [.variablePointersStorageBuffer, .variablePointers] ++
    (if caps.shaderInt8 then [.shaderInt8] else []) ++ (if caps.shaderFloat16 then [.shaderFloat16] else []) ++
    (if caps.storageBuffer8bit then [.storageBuffer8BitAccess] else []) ++
    (if caps.storageBuffer16bit then [.storageBuffer16BitAccess] else []) ++
    (if caps.bufferDeviceAddress then [.bufferDeviceAddress] else []) ++
    (if caps.shaderInt64 then [.shaderInt64] else []) ++ (if caps.shaderFloat64 then [.shaderFloat64] else []) ++
    (if caps.shaderInt16 then [.shaderInt16] else [])

def Capabilities.extensions (caps : Capabilities) : List String := if caps.externalMemoryHost then [Vulkan.externalMemoryHost] else []

inductive RootKind where
  | vkInstance
  | vkDevice
deriving DecidableEq

structure RootHandle where
  kind : RootKind
  number : Nat
deriving DecidableEq

inductive RootInfo where
  | vkInstance
  | vkDevice (parent : Nat) (physical : PhysicalDevice) (family : Nat) (features : List Feature) (extensions : List String)

@[simp] def RootInfo.kind : RootInfo → RootKind
  | .vkInstance => .vkInstance
  | .vkDevice _ _ _ _ _ => .vkDevice

/-- `vkEnumeratePhysicalDevices` -/
structure Enumerate where
  parent : Nat

abbrev Roots := Store RootHandle RootInfo

/-- The physical devices there are, and what may not be made. -/
structure Platform where
  devices : List PhysicalDevice
  fails : RootInfo → Prop

/-- A device asks for nothing that is not there. Variable pointers are asked for in any case. -/
def Platform.rules (P : Platform) : Rules RootHandle RootInfo Empty Enumerate (fun _ => List PhysicalDevice) where
  needs
    | .vkInstance, _ => True
    | .vkDevice i d family features extensions, w => w ⟨.vkInstance, i⟩ ≠ none ∧ d ∈ P.devices ∧
      (∃ flags, d.families[family]? = some flags ∧ flags.getLsbD 1 = true) ∧
      (∀ f ∈ features, f ∈ d.features ∨ f = .variablePointersStorageBuffer ∨ f = .variablePointers) ∧
      ∀ e ∈ extensions, e ∈ d.extensions
  changes _ _ _ := True
  frees i w := i.kind = .vkInstance → ∀ n, w ⟨.vkDevice, n⟩ = none
  allows q w := w ⟨.vkInstance, q.parent⟩ ≠ none
  fits info _ i := i.kind = info.kind ∧ i.number ≠ 0
  fails info := P.fails info
  becomes := Empty.elim
  tells _ _ a := a = P.devices

theorem Platform.roomy {P : Platform} : P.rules.Roomy fun i => i.number ≠ 0 := by
  constructor
  · intro info w few _
    obtain ⟨n, unused⟩ := ((few.finite.image RootHandle.number).insert 0).exists_notMem
    rw [Set.mem_insert_iff, not_or] at unused
    refine Or.inr ⟨⟨info.kind, n⟩, unused.1, ⟨rfl, unused.1⟩, ?_⟩
    by_contra alive
    exact unused.2 ⟨_, alive, rfl⟩
  · exact fun _ _ _ _ => ⟨P.devices, rfl⟩

abbrev rootCalls : Sig := objects RootHandle RootInfo Empty Enumerate fun _ => List PhysicalDevice

abbrev Platform.handler (P : Platform) : Handler rootCalls Roots := P.rules.handler

def createRoot (info : RootInfo) : Prog rootCalls (Option Nat) := do
  let i ← Prog.op (S := rootCalls) (.make info)
  pure (i.map RootHandle.number)

def destroyRoot (kind : RootKind) (n : Nat) : Prog rootCalls Unit := Prog.op (S := rootCalls) (.drop ⟨kind, n⟩)

def enumeratePhysicalDevices (parent : Nat) : Prog rootCalls (List PhysicalDevice) := Prog.op (S := rootCalls) (.ask ⟨parent⟩)

structure VulkanBackend where
  vkInstance : Nat := 0
  physicalDevice : Option PhysicalDevice := none
  computeFamily : Option Nat := none
  capabilities : Capabilities := {}
  device : Nat := 0

namespace VulkanBackend

/-- `select_physical_device`: the first that has a compute family, with the family. -/
def selectPhysicalDevice (devices : List PhysicalDevice) : Option (PhysicalDevice × Nat) :=
  devices.findSome? fun d => d.computeFamily.map fun family => (d, family)

/-- `initialize`, without the validation layer. -/
def initializeBackend : Prog rootCalls (Bool × VulkanBackend) := do
  match ← createRoot .vkInstance with
  | none => pure (false, {})
  | some n =>
    let devices ← enumeratePhysicalDevices n
    match selectPhysicalDevice devices with
    | none => pure (false, { vkInstance := n })
    | some (d, family) =>
      let caps := d.detectCapabilities
      match ← createRoot (.vkDevice n d family caps.enabled caps.extensions) with
      | none => pure (false, { vkInstance := n, physicalDevice := d, computeFamily := family, capabilities := caps })
      | some m => pure (true, { vkInstance := n, physicalDevice := d, computeFamily := family, capabilities := caps, device := m })

def destroyRootHeld (kind : RootKind) (n : Nat) : Prog rootCalls Unit := if n ≠ 0 then destroyRoot kind n else pure ()

/-- `cleanup` -/
def cleanup (b : VulkanBackend) : Prog rootCalls Unit := do
  destroyRootHeld .vkDevice b.device
  destroyRootHeld .vkInstance b.vkInstance

def heldRoot (kind : RootKind) (n : Nat) : Multiset RootHandle := if n = 0 then 0 else {⟨kind, n⟩}

def holds (b : VulkanBackend) : Multiset RootHandle := heldRoot .vkDevice b.device + heldRoot .vkInstance b.vkInstance

/-- The backend of the first physical device that computes. -/
structure Chosen (P : Platform) (b : VulkanBackend) : Prop where
  instance' : b.vkInstance ≠ 0
  device : b.device ≠ 0
  first : ∃ d family, selectPhysicalDevice P.devices = some (d, family) ∧ b.physicalDevice = some d ∧
    b.computeFamily = some family ∧ b.capabilities = d.detectCapabilities

section
variable {P : Platform} {base w : Roots} {hs : Multiset RootHandle} {b : VulkanBackend}

theorem selectPhysicalDevice_spec {devices : List PhysicalDevice} {d : PhysicalDevice} {family : Nat}
    (found : selectPhysicalDevice devices = some (d, family)) : d ∈ devices ∧ d.computeFamily = some family := by
  obtain ⟨d', here, same⟩ := List.exists_of_findSome?_eq_some found
  obtain ⟨family', computes, rfl, rfl⟩ : ∃ family', d'.computeFamily = some family' ∧ d' = d ∧ family' = family := by
    simpa using same
  exact ⟨here, computes⟩

theorem computeFamily_spec {d : PhysicalDevice} {family : Nat} (found : d.computeFamily = some family) :
    ∃ flags, d.families[family]? = some flags ∧ flags.getLsbD 1 = true := by
  obtain ⟨inside, computes, _⟩ := List.findIdx?_eq_some_iff_getElem.mp found
  exact ⟨_, List.getElem?_eq_getElem inside, computes⟩

/-- Nothing else is asked for that the device does not have. -/
theorem enabled_reported {d : PhysicalDevice} : ∀ f ∈ d.detectCapabilities.enabled,
    f ∈ d.features ∨ f = .variablePointersStorageBuffer ∨ f = .variablePointers := by
  intro f asked
  simp only [Capabilities.enabled, PhysicalDevice.detectCapabilities, List.mem_append, List.mem_ite_nil_right,
    List.contains_iff_mem, List.mem_cons, List.not_mem_nil, or_false] at asked
  rcases asked with (((((((always | ⟨has, rfl⟩) | ⟨has, rfl⟩) | ⟨has, rfl⟩) | ⟨has, rfl⟩) | ⟨has, rfl⟩) | ⟨has, rfl⟩) | ⟨has, rfl⟩) | ⟨has, rfl⟩
  · exact Or.inr always
  all_goals exact Or.inl has

theorem extensions_reported {d : PhysicalDevice} : ∀ e ∈ d.detectCapabilities.extensions, e ∈ d.extensions := by
  intro e asked
  unfold Capabilities.extensions at asked
  split at asked
  · next has =>
    obtain rfl := List.mem_singleton.mp asked
    simpa [PhysicalDevice.detectCapabilities] using has
  · cases asked

@[simp] theorem heldRoot_zero {kind : RootKind} : heldRoot kind 0 = 0 := rfl

theorem heldRoot_pos {kind : RootKind} {n : Nat} (h : n ≠ 0) : heldRoot kind n = {⟨kind, n⟩} := if_neg h

theorem ensures_createRoot {α : Type} {Q : α → Roots → Prop} {info : RootInfo} {k : Option Nat → Prog rootCalls α}
    (owns : Owns hs base w) (needs : P.rules.needs info w) (no : (k none).Ensures P.handler Q w)
    (yes : ∀ n w', n ≠ 0 → (∀ i x, w i = some x → w' i = some x) → w' ⟨info.kind, n⟩ = some info →
      Owns (heldRoot info.kind n + hs) base w' → (k (some n)).Ensures P.handler Q w') :
    (createRoot info >>= k).Ensures P.handler Q w := by
  have made : (Prog.op (S := rootCalls) (.make info) >>= fun i => k (i.map RootHandle.number)).Ensures P.handler Q w := by
    apply ensures_make owns needs
    · exact fun _ => no
    · intro i fits new owned
      obtain ⟨kind, n⟩ := i
      obtain rfl : kind = info.kind := fits.1
      apply yes n _ fits.2 (fun _ _ => update_kept new) (Function.update_self ..)
      rw [heldRoot_pos fits.2]
      exact owned
  exact made

/-- A backend that failed keeps at most the instance. -/
theorem ensures_initializeBackend : initializeBackend.Ensures P.handler (fun r w' =>
    Owns r.2.holds base w' ∧ (r.1 = true → Chosen P r.2)) base := by
  unfold initializeBackend
  apply ensures_createRoot (owns_zero.mpr rfl)
  · trivial
  · exact ⟨owns_zero.mpr rfl, by simp⟩
  intro n w some' kept here owns
  have owned : Owns ({ vkInstance := n } : VulkanBackend).holds base w := by
    simpa [holds] using owns
  have alive : w ⟨.vkInstance, n⟩ ≠ none := by
    intro gone
    cases gone.symm.trans here
  apply ensures_ask
  · exact alive
  rintro devices rfl
  dsimp only
  split
  · exact ⟨owned, by simp⟩
  · next d family found =>
    obtain ⟨known, computes⟩ := selectPhysicalDevice_spec found
    apply ensures_createRoot owned
    · exact ⟨alive, known, computeFamily_spec computes, enabled_reported, extensions_reported⟩
    · exact ⟨owned, by simp⟩
    · intro m w' device _ _ owns
      refine ⟨?_, fun _ => ⟨some', device, d, family, found, rfl, rfl, rfl⟩⟩
      simpa [holds, add_comm] using owns

theorem ensures_destroyRootHeld {kind : RootKind} {n : Nat} (owns : Owns (heldRoot kind n + hs) base w)
    (frees : P.rules.frees ⟨kind, n⟩ w) :
    (destroyRootHeld kind n).Ensures P.handler (fun _ w' => Owns hs base w') w := by
  unfold destroyRootHeld
  split
  · next some' =>
    rw [heldRoot_pos some', Multiset.singleton_add] at owns
    exact ensures_drop (k := pure) owns frees id
  · next none' =>
    obtain rfl := not_not.mp none'
    rw [heldRoot_zero, Multiset.zero_add] at owns
    exact owns

/-- The instance goes after its device. -/
theorem ensures_cleanup (owns : Owns b.holds base w) (alone : ∀ n, base ⟨.vkDevice, n⟩ = none) :
    b.cleanup.Ensures P.handler (fun _ w' => w' = base) w := by
  unfold cleanup
  apply (ensures_destroyRootHeld owns ?_).bind
  · intro _ w₁ owns
    rw [← Multiset.add_zero (heldRoot .vkInstance b.vkInstance)] at owns
    refine (ensures_destroyRootHeld owns ?_).mono fun _ _ left => owns_zero.mp left
    intro _ n
    rw [owns.rest, alone]
    unfold heldRoot
    split <;> simp
  · intro other
    cases other

end

end VulkanBackend

end Parallax.Vulkan
