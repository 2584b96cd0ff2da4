import ParallaxRuntime.Launcher.Ops
import ParallaxRuntime.Memory.Codec

/-!
# The synchronous primitives

`launch_reduce`, `launch_scan`, `launch_exclusive_scan`, `launch_sort`, `launch_compact`,
`launch_argminmax`, `launch_find` and `launch_mismatch` of the kernel launcher. A failure
path keeps the scratch that the source does not free there.
-/

namespace Parallax.Launcher
open Memory Effects

/-- How the host reads numbers out of its memory. -/
structure HostValues (β : Type) where
  uint32 : (Fin 4 → β) → Nat
  /-- The bytes of a `size_t`. -/
  ofSize : Nat → List β
  /-- `static_cast<size_t>` of the float or signed integer of the given width. -/
  toSize : (isFloat : Bool) → (width : Nat) → (Fin width → β) → Nat
  Val : Type
  /-- `as_dbl` -/
  asDouble : (isFloat : Bool) → (width : Nat) → (Fin width → β) → Val
  zero : Val
  less : Val → Val → Bool
  equal : Val → Val → Bool

/-- Cells that hold a number each; the host reads the first cell. -/
def firstCell : HostValues Nat where
  uint32 := Codec.quad.dec
  ofSize n := [n]
  toSize _ width f := if h : 0 < width then f ⟨0, h⟩ else 0
  Val := Nat
  asDouble _ width f := if h : 0 < width then f ⟨0, h⟩ else 0
  zero := 0
  less a b := a < b
  equal a b := a = b

section
variable {β : Type}

theorem groupsOf_le (n : Nat) : groupsOf n ≤ (n + 255) / 256 :=
  (Nat.mod_le _ _).trans (Nat.div_le_div_right (Nat.mod_le _ _))

/-- The `while (n > 1)` loop of `launch_reduce`: the pointer to the reduced element. -/
def reduceLevels (ctx : Context) (kernel : String) (es : Nat) (scratch : Bool → Nat) (src n : Nat) (toggle : Bool) :
    Launch β (Option Nat) :=
  if n > 1 then do
    let groups := groupsOf n
    let dst := scratch toggle
    let bound ← ctx.resolve src (wmul n es) true
    bound.elim (pure none) fun srcBinding => do
      let ok ← dispatchReduceLevel ctx kernel srcBinding ⟨.arena, ctx.offsetOf dst, some (wmul groups es)⟩ n groups
      if ok then reduceLevels ctx kernel es scratch dst groups !toggle else pure none
  else pure (some src)
termination_by n
decreasing_by
  have := groupsOf_le n
  omega

/-- Answers with the return value and what is stored at `out_result`, if anything. -/
def launchReduce [Zero β] (ctx : Context) (kernel : String) (data count es outResult : Nat) :
    Launch β (Bool × Option (Fin es → β)) :=
  withArenaSync <|
    if ctx.loaded kernel = false then pure (false, none)
    else if count = 0 then do
      write outResult (List.replicate es 0)
      pure (true, some fun _ => 0)
    else if count = 1 then do
      let x ← read data es
      write outResult (List.ofFn x)
      pure (true, some x)
    else if ctx.arenaValid = false then pure (false, none)
    else do
      let firstGroups := wadd count 255 / 256
      let scratch0 ← allocate (wmul firstGroups es) 256
      let scratch1 ← allocate (wmul (wadd firstGroups 255 / 256 + 1) es) 256
      if scratch0 = 0 ∨ scratch1 = 0 then pure (false, none)
      else do
        let result ← reduceLevels ctx kernel es (fun toggle => if toggle then scratch1 else scratch0) data count false
        result.elim (pure (false, none)) fun src => do
          invalidateFromDevice
          let x ← read src es
          write outResult (List.ofFn x)
          deallocate scratch0
          deallocate scratch1
          pure (true, some x)

def launchScan (ctx : Context) (scanKernel addKernel : String) (data count es : Nat) : Launch β Bool :=
  withArenaSync <|
    if ctx.loaded scanKernel = false ∨ ctx.loaded addKernel = false then pure false
    else if count ≤ 1 then pure true
    else if ctx.arenaValid = false then pure false
    else do
      let numBlocks := groupsOf count
      let bound ← ctx.resolve data (wmul count es) true
      bound.elim (pure false) fun dataBinding => do
        let blocksums ← allocate (wmul numBlocks es) 256
        if blocksums = 0 then pure false
        else do
          let sums : Binding := ⟨.arena, ctx.offsetOf blocksums, some (wmul numBlocks es)⟩
          let ok ← dispatchReduceLevel ctx scanKernel dataBinding sums count numBlocks
          if ok = false then pure false
          else do
            let offsets : Launch β Bool :=
              if numBlocks > 1 then do
                let ok ← launchScan ctx scanKernel addKernel blocksums numBlocks es
                if ok = false then pure false
                else dispatchReduceLevel ctx addKernel dataBinding sums count numBlocks
              else pure true
            let ok ← offsets
            if ok = false then pure false
            else do
              ctx.download data
              deallocate blocksums
              pure true
termination_by count
decreasing_by
  have := groupsOf_le count
  omega

def launchExclusiveScan (ctx : Context) (scanKernel addKernel shiftKernel : String) (input output count es : Nat)
    (init : Option (List β)) : Launch β Bool :=
  withArenaSync <|
    if ctx.loaded shiftKernel = false then pure false
    else if count = 0 then pure true
    else if ctx.arenaValid = false then pure false
    else do
      let inclusive : Launch β Bool := if count > 1 then launchScan ctx scanKernel addKernel input count es else pure true
      let ok ← inclusive
      if ok = false then pure false
      else do
        let bound ← ctx.resolve input (wmul count es) true
        bound.elim (pure false) fun inBinding => do
          let bound ← ctx.resolve output (wmul count es) true
          bound.elim (pure false) fun outBinding => do
            let ok ← dispatchExclusiveShift shiftKernel inBinding outBinding (count % 2 ^ 32) init es (groupsOf count)
            if ok = false then pure false
            else do
              ctx.download output
              pure true

/-- `for (j = k >> 1; j > 0; j >>= 1)`: whether all stages were dispatched. -/
def sortInner (kernel : String) (data : Binding) (n k groups j : Nat) : Launch β Bool :=
  if j > 0 then do
    let ok ← dispatchSortStage kernel data n k j groups
    if ok then sortInner kernel data n k groups (j / 2) else pure false
  else pure true
termination_by j
decreasing_by omega

/-- `for (k = 2; k <= n; k <<= 1)` on 32-bit `k`, for at most `fuel` rounds. -/
def sortOuter (kernel : String) (data : Binding) (n groups : Nat) : (fuel k : Nat) → Launch β (Option Bool)
  | 0, _ => pure none
  | fuel + 1, k =>
    if k ≤ n then do
      let ok ← sortInner kernel data n k groups (k / 2)
      if ok then sortOuter kernel data n groups fuel (k * 2 % 2 ^ 32) else pure (some false)
    else pure (some true)

/-- Answers `none` when `fuel` rounds of the outer loop are not enough. -/
def launchSort (ctx : Context) (kernel : String) (data count es fuel : Nat) : Launch β (Option Bool) :=
  withArenaSync <|
    if ctx.loaded kernel = false then pure (some false)
    else if count ≤ 1 then pure (some true)
    else if count &&& (count - 1) ≠ 0 then pure (some false)
    else do
      let bound ← ctx.resolve data (wmul count es) true
      bound.elim (pure (some false)) fun dataBinding => do
        let n := count % 2 ^ 32
        let groups := (n + 255) % 2 ^ 32 / 256
        let done ← sortOuter kernel dataBinding n groups fuel 2
        if done = some true then do
          ctx.download data
          pure done
        else pure done

/-- `if (out_kept) *out_kept = kept` -/
def storeKept (hv : HostValues β) (outKept : Option Nat) (kept : Nat) : Launch β Unit :=
  match outKept with
  | some p => write p (hv.ofSize kept)
  | none => pure ()

/-- Answers with the return value and what `out_kept` is set to, if anything. -/
def launchCompact (hv : HostValues β) (ctx : Context) (flagsKernel scanKernel addKernel scatterKernel : String)
    (input output count es : Nat) (elemIsFloat : Bool) (outKept : Option Nat) : Launch β (Bool × Option Nat) :=
  withArenaSync <|
    if ctx.loaded flagsKernel = false ∨ ctx.loaded scatterKernel = false then pure (false, none)
    else do
      storeKept hv outKept 0
      if count = 0 then pure (true, some 0)
      else if ctx.arenaValid = false then pure (false, some 0)
      else do
        let bound ← ctx.resolve input (wmul count es) true
        bound.elim (pure (false, some 0)) fun inBinding => do
          let bound ← ctx.resolve output (wmul count es) false
          bound.elim (pure (false, some 0)) fun outBinding => do
            let positions ← allocate (wmul count es) 256
            if positions = 0 then pure (false, some 0)
            else do
              let pos : Binding := ⟨.arena, ctx.offsetOf positions, some (wmul count es)⟩
              let ok ← dispatchReduceLevel ctx flagsKernel inBinding pos count (groupsOf count)
              if ok = false then do deallocate positions; pure (false, some 0)
              else do
                let ok ← launchScan ctx scanKernel addKernel positions count es
                if ok = false then do deallocate positions; pure (false, some 0)
                else do
                  invalidateFromDevice
                  let width := if es ≥ 8 then 8 else 4
                  let last ← read (positions + wmul (count - 1) es) width
                  let kept := hv.toSize elemIsFloat width last
                  storeKept hv outKept kept
                  let ok ← dispatchScatter scatterKernel inBinding outBinding pos (count % 2 ^ 32) (groupsOf count)
                    (kept % 2 ^ 32)
                  if ok = false then do deallocate positions; pure (false, some kept)
                  else do
                    ctx.download output
                    deallocate positions
                    pure (true, some kept)

/-- The host loop over the winners of the blocks `b, …, groups - 1`. -/
def combineWinners (hv : HostValues β) (vals idxs count es : Nat) (isFloat wantMax wantLast : Bool) :
    (blocks : List Nat) → (bestIdx : Nat) → (bestVal : hv.Val) → Launch β Nat
  | [], bestIdx, _ => pure bestIdx
  | b :: blocks, bestIdx, bestVal => do
    let word ← read (idxs + b * 4) 4
    let cand := hv.uint32 word
    if cand ≥ count then combineWinners hv vals idxs count es isFloat wantMax wantLast blocks bestIdx bestVal
    else do
      let bytes ← read (vals + b * es) es
      let v := hv.asDouble isFloat es bytes
      let better := bestIdx = count ∨ (if wantMax then hv.less bestVal v else hv.less v bestVal) ∨
        (hv.equal v bestVal ∧ if wantLast then cand > bestIdx else cand < bestIdx)
      if better then combineWinners hv vals idxs count es isFloat wantMax wantLast blocks cand v
      else combineWinners hv vals idxs count es isFloat wantMax wantLast blocks bestIdx bestVal

def launchArgminmax (hv : HostValues β) (ctx : Context) (kernel : String) (data count es : Nat)
    (isFloat wantMax wantLast : Bool) : Launch β Nat :=
  withArenaSync <|
    if ctx.loaded kernel = false then pure count
    else if count = 0 then pure 0
    else if count = 1 then pure 0
    else if ctx.arenaValid = false then pure count
    else do
      let groups := groupsOf count
      let bound ← ctx.resolve data (wmul count es) true
      bound.elim (pure count) fun dataBinding => do
        let vals ← allocate (wmul groups es) 256
        let idxs ← allocate (wmul groups 4) 256
        if vals = 0 ∨ idxs = 0 then pure count
        else do
          let ok ← dispatch ⟨kernel, dataBinding, ⟨.arena, ctx.offsetOf vals, some (wmul groups es)⟩,
            some ⟨.arena, ctx.offsetOf idxs, some (wmul groups 4)⟩, .argminmax (count % 2 ^ 32) wantMax wantLast, groups⟩
          if ok = false then pure count
          else do
            invalidateFromDevice
            let best ← combineWinners hv vals idxs count es isFloat wantMax wantLast (List.range groups) count hv.zero
            deallocate vals
            deallocate idxs
            pure (if best = count then 0 else best)

/-- The least of the winners of the blocks. -/
def leastWinner (hv : HostValues β) (outi : Nat) : (blocks : List Nat) → (best : Nat) → Launch β Nat
  | [], best => pure best
  | b :: blocks, best => do
    let word ← read (outi + b * 4) 4
    leastWinner hv outi blocks (if hv.uint32 word < best then hv.uint32 word else best)

/-- What `launch_find` and `launch_mismatch` do once the buffers are bound. -/
def findFirst (hv : HostValues β) (ctx : Context) (kernel : String) (input : Binding) (other : Option Binding)
    (push : Push β) (count : Nat) : Launch β Nat := do
  let groups := groupsOf count
  let outi ← allocate (wmul groups 4) 256
  if outi = 0 then pure count
  else do
    let ok ← dispatch ⟨kernel, input, ⟨.arena, ctx.offsetOf outi, some (wmul groups 4)⟩, other, push, groups⟩
    if ok = false then pure count
    else do
      invalidateFromDevice
      let best ← leastWinner hv outi (List.range groups) count
      deallocate outi
      pure best

def launchFind (hv : HostValues β) (ctx : Context) (kernel : String) (data count es : Nat) (negate : Bool)
    (value : Option (List β)) : Launch β Nat :=
  withArenaSync <|
    if ctx.loaded kernel = false then pure count
    else if count = 0 then pure 0
    else if ctx.arenaValid = false then pure count
    else do
      let bound ← ctx.resolve data (wmul count es) true
      bound.elim (pure count) fun dataBinding =>
        let pushed := match value with
          | some value => if es ≤ 8 then value.take es else []
          | none => []
        findFirst hv ctx kernel dataBinding none (.find (count % 2 ^ 32) negate pushed) count

def launchMismatch (hv : HostValues β) (ctx : Context) (kernel : String) (a b count es : Nat) : Launch β Nat :=
  withArenaSync <|
    if ctx.loaded kernel = false then pure count
    else if count = 0 then pure 0
    else if ctx.arenaValid = false then pure count
    else do
      let bound ← ctx.resolve a (wmul count es) true
      bound.elim (pure count) fun aBinding => do
        let bound ← ctx.resolve b (wmul count es) true
        bound.elim (pure count) fun bBinding =>
          findFirst hv ctx kernel aBinding (some bBinding) (.mismatch (count % 2 ^ 32)) count

end

end Parallax.Launcher
