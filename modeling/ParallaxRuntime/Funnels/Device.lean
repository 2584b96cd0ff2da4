import Mathlib.Data.List.Destutter
import ParallaxRuntime.Elementwise.Launch
import ParallaxRuntime.Launcher.Primitives

/-!
# The device funnels

Every parallel algorithm of `parallax::` goes through a funnel. With its kernels registered a
funnel stages its data through the arena, unless the data is there already, and calls the C
functions; without them, or without scratch, it runs the sequential loop.
-/

namespace Parallax.Funnels
open Memory Effects Launcher

variable {β α γ ι : Type}

/-- What a funnel does: the calls that a primitive makes, its own scratch, its own reads and writes,
and the element-wise launches, which take no scratch. -/
inductive FunnelOp (β : Type) where
  | runtime (o : Op β)
  | arenaAlloc (size align : Nat)
  | arenaFree (p : Nat)
  | hostRead (p n : Nat)
  | hostWrite (p : Nat) (x : List β)
  | launch (c : Elementwise.Call β)

def FunnelOp.Res : FunnelOp β → Type
  | runtime o => o.Res
  | arenaAlloc _ _ => Nat
  | hostRead _ n => Fin n → β
  | _ => Unit

abbrev funnelOps (β : Type) : Sig := ⟨FunnelOp β, FunnelOp.Res⟩

abbrev Funnel (β α : Type) := Prog (funnelOps β) α

def runtimeOps (β : Type) : Sig.Hom (ops β) (funnelOps β) := ⟨.runtime, fun _ x => x⟩

/-- A call of the runtime. -/
def runtime (p : Launch β α) : Funnel β α := p.embed (runtimeOps β)

def hostRead (p n : Nat) : Funnel β (Fin n → β) := Prog.op (S := funnelOps β) (.hostRead p n)

def hostWrite (p : Nat) (x : List β) : Funnel β Unit := Prog.op (S := funnelOps β) (.hostWrite p x)

/-- Captures are absent for an empty functor. -/
def kernelLaunch (kernel : String) (buffer count es : Nat) (captures : Option (List β)) : Funnel β Unit :=
  Prog.op (S := funnelOps β) (.launch (captures.elim (.launch kernel buffer count es) fun captures =>
    .launchWithCaptures kernel buffer count captures es))

def kernelLaunchTransform (kernel : String) (input output count es outEs : Nat) (captures : Option (List β)) :
    Funnel β Unit :=
  Prog.op (S := funnelOps β) (.launch (.launchTransform kernel input output count es outEs (captures.getD [])))

def arenaAlloc (size align : Nat) : Funnel β Nat := Prog.op (S := funnelOps β) (.arenaAlloc size align)

def arenaFree (p : Nat) : Funnel β Unit := Prog.op (S := funnelOps β) (.arenaFree p)

def memcpy (dst src n : Nat) : Funnel β Unit := do
  let x ← hostRead src n
  hostWrite dst (List.ofFn x)

/-- A loop over `is`. -/
def foldEach (body : Nat → γ → Funnel β γ) : List Nat → γ → Funnel β γ
  | [], acc => pure acc
  | i :: is, acc => do
    let acc ← body i acc
    foldEach body is acc

def load (c : Codec β α) (p i : Nat) : Funnel β α := do
  let x ← hostRead (p + i * c.size) c.size
  pure (c.dec x)

def store (c : Codec β α) (p i : Nat) (x : α) : Funnel β Unit := hostWrite (p + i * c.size) (List.ofFn (c.enc x))

def loadAll (c : Codec β α) (p n : Nat) : Funnel β (List α) :=
  foldEach (fun i acc => do let x ← load c p i; pure (acc ++ [x])) (List.range n) []

def storeAll (c : Codec β α) (p : Nat) : (i : Nat) → List α → Funnel β Unit
  | _, [] => pure ()
  | i, x :: xs => do
    store c p i x
    storeAll c p (i + 1) xs

/-- `ab = alloc(size); if (ab) { …; free(ab); return; }` -/
def withScratch (size align : Nat) (body : Nat → Funnel β γ) (fallback : Funnel β γ) : Funnel β γ := do
  let ab ← arenaAlloc size align
  if ab ≠ 0 then do
    let r ← body ab
    arenaFree ab
    pure r
  else fallback

/-- `ai = alloc(…); ao = alloc(…); if (ai && ao) { …; free(ao); free(ai); return; }` -/
def withScratchPair (size align outSize outAlign : Nat) (body : Nat → Nat → Funnel β γ) (fallback : Funnel β γ) :
    Funnel β γ := do
  let ai ← arenaAlloc size align
  let ao ← arenaAlloc outSize outAlign
  if ai ≠ 0 ∧ ao ≠ 0 then do
    let r ← body ai ao
    arenaFree ao
    arenaFree ai
    pure r
  else fallback

/-! ### The C functions -/

section
variable (hv : HostValues β) (ctx : Context)

/-- What is stored at `result`, if anything. -/
def parallaxReduce [Zero β] (kernel : String) (data count es result : Nat) : Funnel β (Option (Fin es → β)) := do
  let r ← runtime (launchReduce ctx kernel data count es result)
  pure r.2

def parallaxScan (scanKernel addKernel : String) (data count es : Nat) : Funnel β Unit := do
  let _ ← runtime (launchScan ctx scanKernel addKernel data count es)
  pure ()

def parallaxExclusiveScan (scanKernel addKernel shiftKernel : String) (input output count es : Nat) (init : List β) :
    Funnel β Unit := do
  let _ ← runtime (launchExclusiveScan ctx scanKernel addKernel shiftKernel input output count es (some init))
  pure ()

/-- `none` when `fuel` rounds are not enough. -/
def parallaxSort (kernel : String) (data count es fuel : Nat) : Funnel β (Option Unit) := do
  let done ← runtime (launchSort ctx kernel data count es fuel)
  pure (done.map fun _ => ())

/-- The kernels of a compaction. -/
structure CompactKernels where
  flags : String
  scan : String
  add : String
  scatter : String

/-- `kf && ks && ka && kc` -/
def CompactKernels.lookup (kf ks ka kc : Option String) : Option CompactKernels := do
  let flags ← kf
  let scan ← ks
  let add ← ka
  let scatter ← kc
  pure ⟨flags, scan, add, scatter⟩

def parallaxCopyIf (k : CompactKernels) (input output count es : Nat) (isFloat : Bool) (outKept : Nat) : Funnel β Nat := do
  let r ← runtime (launchCompact hv ctx k.flags k.scan k.add k.scatter input output count es isFloat (some outKept))
  pure (if r.1 = false then 0 else r.2.getD 0)

end

/-! ### The funnels -/

section
variable (hv : HostValues β) (ctx : Context) (c : Codec β α) (align : Nat)

def deviceInvoke (k : Option String) (captures : Option (List β)) (f : α → α) (data n : Nat) : Funnel β Unit :=
  let fallback := foldEach (fun i _ => do let x ← load c data i; store c data i (f x)) (List.range n) ()
  let bytes := wmul n c.size
  k.elim fallback fun k =>
    if ctx.contains data then kernelLaunch k data n c.size captures
    else withScratch bytes align (fun ab => do
      memcpy ab data bytes
      kernelLaunch k ab n c.size captures
      memcpy data ab bytes) fallback

def deviceTransform (c' : Codec β γ) (align' : Nat) (k : Option String) (captures : Option (List β)) (f : α → γ)
    (input output n : Nat) : Funnel β Unit :=
  let fallback := foldEach (fun i _ => do let x ← load c input i; store c' output i (f x)) (List.range n) ()
  k.elim fallback fun k =>
    if ctx.contains input ∧ ctx.contains output then kernelLaunchTransform k input output n c.size c'.size captures
    else withScratchPair (wmul n c.size) align (wmul n c'.size) align' (fun ai ao => do
      memcpy ai input (wmul n c.size)
      kernelLaunchTransform k ai ao n c.size c'.size captures
      memcpy output ao (wmul n c'.size)) fallback

/-- `init + gpu` with `gpu` at `gpuAt`, zero unless it is stored to. -/
def deviceReduce [Zero β] [Zero α] [Add α] (k : Option String) (data n : Nat) (init : α) (gpuAt : Nat) : Funnel β α :=
  let fallback := foldEach (fun i acc => do let x ← load c data i; pure (acc + x)) (List.range n) init
  let reduced (k : String) (p : Nat) : Funnel β α := do
    let gpu ← parallaxReduce ctx k p n c.size gpuAt
    pure (init + gpu.elim 0 c.dec)
  let bytes := wmul n c.size
  k.elim fallback fun k =>
    if ctx.contains data then reduced k data
    else withScratch bytes align (fun ab => do
      memcpy ab data bytes
      reduced k ab) fallback

/-- `numeric_limits<T>::max()` pads up to the next power of two. -/
def deviceSort (le : α → α → Bool) (max : α) (k : Option String) (data n fuel : Nat) : Funnel β (Option Unit) :=
  let fallback : Funnel β (Option Unit) := do
    let xs ← loadAll c data n
    storeAll c data 0 (xs.mergeSort le)
    pure (some ())
  let m := Nat.nextPowerOfTwo n
  let bytes := wmul n c.size
  k.elim fallback fun k =>
    if m = n ∧ ctx.contains data then parallaxSort ctx k data n c.size fuel
    else withScratch (wmul m c.size) align (fun pad => do
      memcpy pad data bytes
      foldEach (fun i _ => store c pad i max) (List.range' n (m - n)) ()
      let done ← parallaxSort ctx k pad m c.size fuel
      memcpy data pad bytes
      pure done) fallback

def deviceScan [Zero α] [Add α] (ks ka : Option String) (input output n : Nat) : Funnel β Unit :=
  let fallback : Funnel β Unit := do
    let _ ← foldEach (fun i acc => do
      let x ← load c input i
      store c output i (acc + x)
      pure (acc + x)) (List.range n) 0
    pure ()
  let bytes := wmul n c.size
  ks.elim fallback fun ks => ka.elim fallback fun ka =>
    if ctx.contains input ∧ ctx.contains output then do
      if input ≠ output then memcpy output input bytes else pure ()
      parallaxScan ctx ks ka output n c.size
    else withScratch bytes align (fun ab => do
      memcpy ab input bytes
      parallaxScan ctx ks ka ab n c.size
      memcpy output ab bytes) fallback

def deviceExclusiveScan [Add α] (ks ka kh : Option String) (input output n : Nat) (init : α) : Funnel β Unit :=
  let fallback : Funnel β Unit := do
    let _ ← foldEach (fun i acc => do
      let x ← load c input i
      store c output i acc
      pure (acc + x)) (List.range n) init
    pure ()
  let bytes := wmul n c.size
  ks.elim fallback fun ks => ka.elim fallback fun ka => kh.elim fallback fun kh =>
    withScratchPair bytes align bytes align (fun as ao => do
      memcpy as input bytes
      parallaxExclusiveScan ctx ks ka kh as ao n c.size (List.ofFn (c.enc init))
      memcpy output ao bytes) fallback

/-- `empty` is `std::is_empty_v<F>`. -/
def deviceTransformReduce [Zero β] [Zero γ] [Add γ] (cu : Codec β γ) (alignU : Nat) (kx kr : Option String) (empty : Bool)
    (f : α → γ) (input n gpuAt : Nat) : Funnel β γ :=
  let fallback := foldEach (fun i acc => do let x ← load c input i; pure (acc + f x)) (List.range n) 0
  if empty = false then fallback
  else kx.elim fallback fun kx => kr.elim fallback fun kr =>
    withScratchPair (wmul n c.size) align (wmul n cu.size) alignU (fun ai ao => do
      memcpy ai input (wmul n c.size)
      kernelLaunchTransform kx ai ao n c.size cu.size none
      let gpu ← parallaxReduce ctx kr ao n cu.size gpuAt
      pure (gpu.elim 0 cu.dec)) fallback

/-- `ci` is the `int` of the predicate kernel; the result is a `long`. -/
def deviceCountIf [Zero β] [Zero ι] (ci : Codec β ι) (alignInt : Nat) (toLong : ι → Int) (kp kr : Option String)
    (empty : Bool) (pred : α → Bool) (input n gpuAt : Nat) : Funnel β Int :=
  let fallback := foldEach (fun i acc => do let x ← load c input i; pure (if pred x then acc + 1 else acc)) (List.range n) 0
  if empty = false then fallback
  else kp.elim fallback fun kp => kr.elim fallback fun kr =>
    withScratchPair (wmul n c.size) align (wmul n ci.size) alignInt (fun ai ao => do
      memcpy ai input (wmul n c.size)
      kernelLaunchTransform kp ai ao n c.size ci.size none
      let gpu ← parallaxReduce ctx kr ao n ci.size gpuAt
      pure (toLong (gpu.elim 0 ci.dec))) fallback

/-- The offloading branch of the compaction funnels; `copied kept` elements are copied back. -/
def stagedCompact (k : CompactKernels) (isFloat : Bool) (input output n keptAt : Nat) (copied : Nat → Nat)
    (fallback : Funnel β Nat) : Funnel β Nat :=
  let bytes := wmul n c.size
  withScratchPair bytes align bytes align (fun ai ao => do
    memcpy ai input bytes
    let kept ← parallaxCopyIf hv ctx k ai ao n c.size isFloat keptAt
    memcpy output ao (wmul (copied kept) c.size)
    pure kept) fallback

/-- The elements that pass, one after the other to the front of `output`. -/
def copyPassing (pred : α → Bool) (input output n : Nat) : Funnel β Nat :=
  foldEach (fun i k => do
    let x ← load c input i
    if pred x then do
      store c output k x
      pure (k + 1)
    else pure k) (List.range n) 0

def deviceCopyIf (kf ks ka kc : Option String) (empty isFloat : Bool) (pred : α → Bool) (input output n keptAt : Nat) :
    Funnel β Nat :=
  let fallback := copyPassing c pred input output n
  if empty = false then fallback
  else (CompactKernels.lookup kf ks ka kc).elim fallback fun k =>
    stagedCompact hv ctx c align k isFloat input output n keptAt id fallback

def deviceRemoveIf (kf ks ka kc : Option String) (empty isFloat : Bool) (pred : α → Bool) (data n keptAt : Nat) :
    Funnel β Nat :=
  let fallback := copyPassing c (fun x => !pred x) data data n
  if empty = false then fallback
  else (CompactKernels.lookup kf ks ka kc).elim fallback fun k =>
    stagedCompact hv ctx c align k isFloat data data n keptAt id fallback

/-- The scatter of a partition writes every element. -/
def devicePartition (kf ks ka kc : Option String) (empty isFloat : Bool) (pred : α → Bool) (data n keptAt : Nat) :
    Funnel β Nat :=
  let fallback : Funnel β Nat := do
    let xs ← loadAll c data n
    storeAll c data 0 (xs.filter pred ++ xs.filter fun x => !pred x)
    pure (xs.filter pred).length
  if empty = false then fallback
  else (CompactKernels.lookup kf ks ka kc).elim fallback fun k =>
    stagedCompact hv ctx c align k isFloat data data n keptAt (fun _ => n) fallback

def deviceUnique [DecidableEq α] (kf ks ka kc : Option String) (isFloat : Bool) (data n keptAt : Nat) : Funnel β Nat :=
  let fallback : Funnel β Nat := do
    let xs ← loadAll c data n
    storeAll c data 0 (xs.destutter (· ≠ ·))
    pure (xs.destutter (· ≠ ·)).length
  (CompactKernels.lookup kf ks ka kc).elim fallback fun k =>
    stagedCompact hv ctx c align k isFloat data data n keptAt id fallback

end

end Parallax.Funnels
