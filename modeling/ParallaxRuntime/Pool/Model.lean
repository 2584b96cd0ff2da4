import ParallaxRuntime.Memory.Word

/-!
# The heap pool

`heap_pool.cpp`: a boundary-tag, segregated-fit allocator over one reservation.
Block headers, footers, free-list links, back-pointers and user bytes live in
one byte memory. `size_t` and `uintptr_t` arithmetic wraps, `char*` arithmetic
does not. A null pointer is address 0. Every entry point holds the lock, so it
is one step here. A loop that does not end within its fuel gives `none`.
-/

namespace Parallax.Pool
open Memory

def ALIGN : Nat := 16
def HDR : Nat := 8
def FTR : Nat := 8
def MIN_BSIZE : Nat := 32
def ALLOC_BIT : Nat := 1
def NBINS : Nat := 44

def roundUp (x a : Nat) : Nat := wsub (wadd x a) 1 &&& wnot (a - 1)

/-- The static state of the pool together with the memory it manages. -/
structure State where
  mem : Mem
  base : Nat := 0
  reservation : Nat := 0
  high : Nat := 0
  initDone : Bool := false
  initFailed : Bool := false
  bins : Nat → Nat := fun _ => 0

/-! ### Block accessors -/

def hdr (m : Mem) (B : Nat) : Nat := load64 m B
def bsize (m : Mem) (B : Nat) : Nat := hdr m B &&& wnot ALLOC_BIT
def allocated (m : Mem) (B : Nat) : Bool := hdr m B &&& ALLOC_BIT != 0

def setBlock (m : Mem) (B bs : Nat) (alloc : Bool) : Mem :=
  let m := store64 m B (bs ||| if alloc then ALLOC_BIT else 0)
  store64 m (B + bs - FTR) bs

def flNext (m : Mem) (B : Nat) : Nat := load64 m (B + HDR)
def flPrev (m : Mem) (B : Nat) : Nat := load64 m (B + HDR + 8)
def setNext (m : Mem) (B v : Nat) : Mem := store64 m (B + HDR) v
def setPrev (m : Mem) (B v : Nat) : Mem := store64 m (B + HDR + 8) v

/-! ### Bins -/

def binIndex (bs : Nat) : Nat :=
  let idx := Nat.log2 bs - 4
  if idx ≥ NBINS then NBINS - 1 else idx

def setBin (bins : Nat → Nat) (i v : Nat) : Nat → Nat := fun j => if j = i then v else bins j

def binInsert (s : State) (B : Nat) : State :=
  let i := binIndex (bsize s.mem B)
  let head := s.bins i
  let m := setPrev s.mem B 0
  let m := setNext m B head
  let m := if head ≠ 0 then setPrev m head B else m
  { s with mem := m, bins := setBin s.bins i B }

def binRemove (s : State) (B : Nat) : State :=
  let p := flPrev s.mem B
  let n := flNext s.mem B
  let s :=
    if p ≠ 0 then { s with mem := setNext s.mem p n }
    else { s with bins := setBin s.bins (binIndex (bsize s.mem B)) n }
  if n ≠ 0 then { s with mem := setPrev s.mem n p } else s

/-- `mmap`'s answer and the MiB override read from the environment. -/
structure Env where
  mmap : Option Nat
  mib : Nat := 0

def ensureInitLocked (env : Env) (s : State) : Bool × State :=
  if s.initDone then (!s.initFailed, s)
  else
    let s := { s with initDone := true }
    let res := if env.mib > 0 then wshl env.mib 20 else 8 <<< 30
    let res := roundUp res 4096
    match env.mmap with
    | none => (false, { s with initFailed := true })
    | some p =>
      let s := { s with bins := fun _ => 0, mem := setBlock s.mem p res false }
      let s := binInsert s p
      (true, { s with reservation := res, base := p })

/-! ### Allocation and release of blocks -/

/-- The inner loop of `block_alloc`: the first block of the list at `B` that holds `need`
bytes, or 0 at the end of the list. -/
def findFit (m : Mem) (need : Nat) : Nat → Nat → Option Nat
  | 0, _ => none
  | fuel + 1, B =>
    if B = 0 then some 0
    else if bsize m B ≥ need then some B
    else findFit m need fuel (flNext m B)

/-- The outer loop, over the bins that are left. -/
def findBlock (s : State) (need fuel : Nat) : List Nat → Option Nat
  | [] => some 0
  | i :: rest =>
    match findFit s.mem need fuel (s.bins i) with
    | none => none
    | some 0 => findBlock s need fuel rest
    | some (B + 1) => some (B + 1)

/-- No list of blocks that tile the reservation is longer than this. -/
def State.fuel (s : State) : Nat := s.reservation / MIN_BSIZE + 1

/-- Take block `B` off its bin; split it, or use it whole. -/
def carveBlock (s : State) (B need : Nat) : State :=
  let bs := bsize s.mem B
  let s := binRemove s B
  if bs - need ≥ MIN_BSIZE then
    let s := { s with mem := setBlock s.mem B need true }
    let R := B + need
    let s := { s with mem := setBlock s.mem R (bs - need) false }
    binInsert s R
  else { s with mem := setBlock s.mem B bs true }

def raiseHigh (s : State) (B : Nat) : State :=
  let stop := B - s.base + bsize s.mem B
  if stop > s.high then { s with high := stop } else s

def takeBlock (s : State) (B need : Nat) : State := raiseHigh (carveBlock s B need) B

def blockAlloc (s : State) (need : Nat) : Option (Nat × State) :=
  match findBlock s need s.fuel (List.range' (binIndex need) (NBINS - binIndex need)) with
  | none => none
  | some 0 => some (0, s)
  | some (B + 1) => some (B + 1, takeBlock s (B + 1) need)

def blockFree (s : State) (B : Nat) : State :=
  let bs := bsize s.mem B
  let next := B + bs
  let (s, bs) :=
    if next < s.base + s.reservation ∧ !allocated s.mem next then
      let s := binRemove s next
      (s, bs + bsize s.mem next)
    else (s, bs)
  let (s, B, bs) :=
    if B > s.base then
      let prevBs := load64 s.mem (B - FTR)
      let prev := B - prevBs
      if prev ≥ s.base ∧ !allocated s.mem prev then
        let s := binRemove s prev
        (s, prev, bs + bsize s.mem prev)
      else (s, B, bs)
    else (s, B, bs)
  binInsert { s with mem := setBlock s.mem B bs false } B

/-! ### Entry points -/

/-- `while (a < align) a <<= 1;` -/
def alignLoop (align : Nat) : Nat → Nat → Option Nat
  | 0, a => if a < align then none else some a
  | fuel + 1, a => if a < align then alignLoop align fuel (wshl a 1) else some a

def normAlign (align : Nat) : Option Nat :=
  let align := if align < ALIGN then ALIGN else align
  if align &&& (align - 1) ≠ 0 then alignLoop align 64 ALIGN else some align

def needBsize (size align : Nat) : Nat :=
  let needPayload := wadd (wadd size align) 8
  let needBsize := roundUp (wadd (wadd HDR needPayload) FTR) ALIGN
  if needBsize < MIN_BSIZE then MIN_BSIZE else needBsize

/-- The user pointer in block `B`. -/
def userPtr (B align : Nat) : Nat :=
  let raw := wadd (B + HDR) 8
  wadd raw (align - 1) &&& wnot (align - 1)

/-- The user pointer, once its back-pointer to the header is stored. -/
def handOut (s : State) (B align : Nat) : Nat × State :=
  let p := userPtr B align
  (p, { s with mem := store64 s.mem (wsub p 8) B })

/-- The part of `px_pool_alloc` that follows initialisation. -/
def allocIn (s : State) (size align : Nat) : Option (Nat × State) :=
  (blockAlloc s (needBsize size align)).bind fun (B, s) =>
    if B = 0 then some (0, s) else some (handOut s B align)

def pxPoolAlloc (env : Env) (s : State) (size align : Nat) : Option (Nat × State) :=
  match normAlign align with
  | none => none
  | some align =>
    let size := if size = 0 then 1 else size
    match ensureInitLocked env s with
    | (false, s) => some (0, s)
    | (true, s) => allocIn s size align

/-- The block header that the word before `p` points back to. -/
def headerOf (m : Mem) (p : Nat) : Nat := load64 m (p - 8)

def pxPoolFree (s : State) (p : Nat) : State :=
  if p = 0 then s else blockFree s (headerOf s.mem p)

def pxPoolUsableSize (s : State) (p : Nat) : Nat :=
  if p = 0 then 0
  else
    let B := headerOf s.mem p
    wsub (B + bsize s.mem B - FTR) p

/-- `memcpy` between ranges that do not overlap. -/
def copyBytes (m : Mem) (dst src n : Nat) : Mem := fun x =>
  if dst ≤ x ∧ x < dst + n then m (src + (x - dst)) else m x

def pxPoolRealloc (env : Env) (s : State) (p newSize : Nat) : Option (Nat × State) :=
  if p = 0 then pxPoolAlloc env s newSize ALIGN
  else if newSize = 0 then some (0, pxPoolFree s p)
  else
    let old := pxPoolUsableSize s p
    if newSize ≤ old then some (p, s)
    else
      (pxPoolAlloc env s newSize ALIGN).bind fun (np, s) =>
        if np = 0 then some (0, s)
        else
          let s := { s with mem := copyBytes s.mem np p old }
          some (np, pxPoolFree s p)

def pxPoolContains (s : State) (p : Nat) : Bool := s.base ≠ 0 ∧ s.base ≤ p ∧ p < s.base + s.reservation

end Parallax.Pool
