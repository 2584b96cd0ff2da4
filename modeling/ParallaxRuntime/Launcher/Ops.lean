import ParallaxRuntime.Effects.Prog
import ParallaxRuntime.Memory.Word

/-!
# What a launcher does to the outside

The launch functions are programs over the calls they make on the arena, on the
memory manager and on Vulkan. Host memory is read and written in cells of type `β`.
-/

namespace Parallax.Launcher
open Memory Effects

inductive BufferRef where
  | arena
  | external (handle : Nat)
deriving DecidableEq, Repr

/-- `VkDescriptorBufferInfo`; no range is `VK_WHOLE_SIZE`. -/
structure Binding where
  buffer : BufferRef
  offset : Nat
  range : Option Nat
deriving DecidableEq, Repr

/-- The push constants of the kernels. -/
inductive Push (β : Type) where
  | block (count hostBase devBase : Nat)
  | sort (count k j : Nat)
  | scatter (count numTrue : Nat)
  | exclusive (count : Nat) (init : List β)
  | argminmax (count : Nat) (wantMax wantLast : Bool)
  | find (count : Nat) (negate : Bool) (value : List β)
  | mismatch (count : Nat)

def Push.count {β : Type} : Push β → Nat
  | block count _ _ | sort count _ _ | scatter count _ | exclusive count _ | argminmax count _ _
  | find count _ _ | mismatch count => count

/-- The `k` and `j` of a sorting stage. -/
def Push.stage {β : Type} : Push β → Nat × Nat
  | sort _ k j => (k, j)
  | _ => (0, 0)

/-- One recorded and submitted dispatch: pipeline, descriptors, push constants, workgroups. -/
structure Dispatch (β : Type) where
  kernel : String
  binding0 : Binding
  binding1 : Binding
  binding3 : Option Binding := none
  push : Push β
  groups : Nat

def Dispatch.bindings {β : Type} (d : Dispatch β) : List Binding := d.binding0 :: d.binding1 :: d.binding3.toList

inductive Op (β : Type) where
  /-- The constructor and the destructor of `ArenaSyncScope`. -/
  | enter
  | leave
  | invalidateFromDevice
  | allocate (size align : Nat)
  | deallocate (p : Nat)
  | allocateDescriptorSet
  | sync
  | submit (d : Dispatch β)
  | read (p n : Nat)
  | write (p : Nat) (x : List β)
  | getBuffer (p : Nat)
  | registerExternalBuffer (p size : Nat)
  | syncBeforeKernel (p : Nat)
  | syncAfterKernel (p : Nat)

def Op.Res {β : Type} : Op β → Type
  | allocate _ _ | getBuffer _ => Nat
  | allocateDescriptorSet | submit _ => Bool
  | read _ n => Fin n → β
  | _ => Unit

abbrev ops (β : Type) : Sig := ⟨Op β, Op.Res⟩

abbrev Launch (β α : Type) := Prog (ops β) α

section
variable {β : Type}

def enter : Launch β Unit := Prog.op (S := ops β) Op.enter
def leave : Launch β Unit := Prog.op (S := ops β) Op.leave
def invalidateFromDevice : Launch β Unit := Prog.op (S := ops β) Op.invalidateFromDevice
def allocate (size align : Nat) : Launch β Nat := Prog.op (S := ops β) (Op.allocate size align)
def deallocate (p : Nat) : Launch β Unit := Prog.op (S := ops β) (Op.deallocate p)
def allocateDescriptorSet : Launch β Bool := Prog.op (S := ops β) Op.allocateDescriptorSet
def sync : Launch β Unit := Prog.op (S := ops β) Op.sync
def submit (d : Dispatch β) : Launch β Bool := Prog.op (S := ops β) (Op.submit d)
def read (p n : Nat) : Launch β (Fin n → β) := Prog.op (S := ops β) (Op.read p n)
def write (p : Nat) (x : List β) : Launch β Unit := Prog.op (S := ops β) (Op.write p x)
def getBuffer (p : Nat) : Launch β Nat := Prog.op (S := ops β) (Op.getBuffer p)
def registerExternalBuffer (p size : Nat) : Launch β Unit := Prog.op (S := ops β) (Op.registerExternalBuffer p size)
def syncBeforeKernel (p : Nat) : Launch β Unit := Prog.op (S := ops β) (Op.syncBeforeKernel p)
def syncAfterKernel (p : Nat) : Launch β Unit := Prog.op (S := ops β) (Op.syncAfterKernel p)

/-- What does not change while a launcher runs: the loaded pipelines and the arena's place. -/
structure Context where
  loaded : String → Bool
  arenaValid : Bool
  hostBase : Nat
  devBase : Nat
  capacity : Nat

namespace Context
variable (ctx : Context)

def contains (p : Nat) : Bool := ctx.arenaValid ∧ p ≠ 0 ∧ ctx.hostBase ≤ p ∧ p < ctx.hostBase + ctx.capacity

def offsetOf (p : Nat) : Nat := p - ctx.hostBase

/-- Arena pointers bind zero-copy, others through a registered buffer. -/
def resolve (p range : Nat) (upload : Bool) : Launch β (Option Binding) :=
  if ctx.contains p then pure (some ⟨.arena, ctx.offsetOf p, some range⟩)
  else do
    let known ← getBuffer p
    let registered : Launch β Nat := if known = 0 then do registerExternalBuffer p range; getBuffer p else pure known
    let reg ← registered
    let sent : Launch β Unit := if upload then syncBeforeKernel p else pure ()
    if reg = 0 then pure none
    else do
      sent
      pure (some ⟨.external reg, 0, none⟩)

/-- The results of a kernel go back to a buffer outside the arena. -/
def download (p : Nat) : Launch β Unit := if ctx.contains p = false then syncAfterKernel p else pure ()

/-- `make_push_block` -/
def makePushBlock (count : Nat) : Push β := .block (count % 2 ^ 32) ctx.hostBase ctx.devBase

end Context

/-- The body of `ArenaSyncScope`. -/
def withArenaSync {α : Type} (body : Launch β α) : Launch β α := do
  enter
  let r ← body
  leave
  pure r

/-- A fresh descriptor set, one dispatch, and the wait for it. -/
def dispatch (d : Dispatch β) : Launch β Bool := do
  let set ← allocateDescriptorSet
  if set = false then pure false
  else do
    sync
    let submitted ← submit d
    if submitted = false then pure false
    else do
      sync
      pure true

def dispatchReduceLevel (ctx : Context) (kernel : String) (src dst : Binding) (count groups : Nat) : Launch β Bool :=
  dispatch ⟨kernel, src, dst, none, ctx.makePushBlock count, groups⟩

def dispatchExclusiveShift (kernel : String) (input output : Binding) (count : Nat) (init : Option (List β))
    (initBytes groups : Nat) : Launch β Bool :=
  let value := match init with
    | some value => if initBytes ≠ 0 ∧ initBytes ≤ 8 then value.take initBytes else []
    | none => []
  dispatch ⟨kernel, input, output, none, .exclusive count value, groups⟩

def dispatchSortStage (kernel : String) (data : Binding) (count k j groups : Nat) : Launch β Bool :=
  dispatch ⟨kernel, data, data, none, .sort count k j, groups⟩

def dispatchScatter (kernel : String) (input output pos : Binding) (count groups numTrue : Nat) : Launch β Bool :=
  dispatch ⟨kernel, input, output, some pos, .scatter count numTrue, groups⟩

/-- `static_cast<uint32_t>((n + 255) / 256)` -/
def groupsOf (n : Nat) : Nat := wadd n 255 / 256 % 2 ^ 32

end

end Parallax.Launcher
