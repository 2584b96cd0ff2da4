import ParallaxRuntime.Ownership.Ledger
import ParallaxRuntime.Pool.Isolation

/-!
# The capture shim

`heap_capture.cpp`: the program's `operator new` and `delete` and its malloc family. A
request goes to the pool and, when the pool has nothing to give, to libc. Whose pointer is
released is read off its address.
-/

namespace Parallax.Shim
open Memory Pool Ownership

inductive Heap where
  | pool
  | libc
deriving DecidableEq

inductive Failure where
  | badAlloc
  | einval
  | enomem
deriving DecidableEq

/-- What the caller gets, the pool afterwards and the calls made to the two heaps. A null
pointer is 0. -/
structure Reply where
  ptr : Nat
  pool : State
  calls : List (Call Heap)
  failure : Option Failure := none

/-! ### Allocation -/

section
variable (env : Env) (libc : Nat) (s : State)

/-- `libc` is the answer of `__libc_malloc`, should it be asked. -/
def poolOrLibc (n align : Nat) : Option Reply :=
  let n := if n = 0 then 1 else n
  (pxPoolAlloc env s n align).map fun r =>
    if r.1 ≠ 0 then ⟨r.1, r.2, [.alloc .pool r.1], none⟩
    else ⟨libc, r.2, [.alloc .pool 0, .alloc .libc libc], none⟩

def maxAlign : Nat := 16

/-- `operator new` and `operator new[]`, with an `std::align_val_t` and with `std::nothrow` or
without. -/
def operatorNew (n : Nat) (align : Option Nat) (nothrow : Bool) : Option Reply :=
  (poolOrLibc env libc s n (align.getD maxAlign)).map fun r =>
    if r.ptr = 0 ∧ !nothrow then { r with failure := some .badAlloc } else r

def malloc (n : Nat) : Option Reply := poolOrLibc env libc s n 16

/-- `memset` to zero. -/
def zeroBytes (m : Mem) (p n : Nat) : Mem := fun x => if p ≤ x ∧ x < p + n then 0 else m x

def calloc (nmemb size : Nat) : Option Reply :=
  let n := nmemb * size % 2 ^ 64
  if nmemb ≠ 0 ∧ n / nmemb ≠ size then some ⟨0, s, [], none⟩
  else
    (pxPoolAlloc env s (if n ≠ 0 then n else 1) 16).map fun r =>
      if r.1 = 0 then ⟨libc, r.2, [.alloc .pool 0, .alloc .libc libc], none⟩
      else ⟨r.1, { r.2 with mem := zeroBytes r.2.mem r.1 n }, [.alloc .pool r.1], none⟩

def alignedAlloc (align n : Nat) : Option Reply :=
  (pxPoolAlloc env s (if n ≠ 0 then n else 1) align).map fun r => ⟨r.1, r.2, [.alloc .pool r.1], none⟩

def memalign (align n : Nat) : Option Reply := alignedAlloc env s align n
def valloc (n : Nat) : Option Reply := alignedAlloc env s 4096 n
def pvalloc (n : Nat) : Option Reply := alignedAlloc env s 4096 n

/-- The pointer is the one stored in `*out`. -/
def posixMemalign (align n : Nat) : Option Reply :=
  if align < 8 ∨ align &&& (align - 1) ≠ 0 then some ⟨0, s, [], some .einval⟩
  else
    (pxPoolAlloc env s (if n ≠ 0 then n else 1) align).map fun r =>
      if r.1 = 0 then ⟨0, r.2, [.alloc .pool 0], some .enomem⟩ else ⟨r.1, r.2, [.alloc .pool r.1], none⟩

/-! ### Release -/

def routeFree (p : Nat) : Reply :=
  if p = 0 then ⟨0, s, [], none⟩
  else if pxPoolContains s p then ⟨0, pxPoolFree s p, [.free .pool p], none⟩
  else ⟨0, s, [.free .libc p], none⟩

/-- All variants of `operator delete` and `operator delete[]`: they ignore what comes after the
pointer. -/
def operatorDelete (p : Nat) : Reply := routeFree s p

def free (p : Nat) : Reply := routeFree s p

/-- `libc` is the answer of `__libc_malloc` or `__libc_realloc`. -/
def realloc (p n : Nat) : Option Reply :=
  if p = 0 then poolOrLibc env libc s n 16
  else if pxPoolContains s p then
    if n = 0 then some ⟨0, pxPoolFree s p, [.free .pool p], none⟩
    else (pxPoolRealloc env s p n).map fun r => ⟨r.1, r.2, [.realloc .pool p n r.1], none⟩
  else some ⟨libc, s, [.realloc .libc p n libc], none⟩

/-! ### Calls of the program -/

inductive Request where
  | new (n : Nat) (align : Option Nat) (nothrow : Bool)
  | malloc (n : Nat)
  | calloc (nmemb size : Nat)
  | alignedAlloc (align n : Nat)
  | memalign (align n : Nat)
  | valloc (n : Nat)
  | pvalloc (n : Nat)
  | posixMemalign (align n : Nat)
  | delete (p : Nat)
  | free (p : Nat)
  | realloc (p n : Nat)

def serve : Request → Option Reply
  | .new n align nothrow => operatorNew env libc s n align nothrow
  | .malloc n => Shim.malloc env libc s n
  | .calloc nmemb size => Shim.calloc env libc s nmemb size
  | .alignedAlloc align n => Shim.alignedAlloc env s align n
  | .memalign align n => Shim.memalign env s align n
  | .valloc n => Shim.valloc env s n
  | .pvalloc n => Shim.pvalloc env s n
  | .posixMemalign align n => Shim.posixMemalign env s align n
  | .delete p => some (operatorDelete s p)
  | .free p => some (Shim.free s p)
  | .realloc p n => Shim.realloc env libc s p n

end

/-- The live pointers of the program once `r` has answered the request. -/
def Request.after (live : List Nat) (r : Reply) : Request → List Nat
  | .delete p => live.erase p
  | .free p => live.erase p
  | .realloc p n => if p = 0 then granted live r.ptr else regranted live p n r.ptr
  | _ => granted live r.ptr

/-- The size and the alignment of a request are at most 2^62 together. -/
def Request.Bounded : Request → Prop
  | .new n align _ => n + align.getD maxAlign ≤ 2 ^ 62
  | .malloc n => n + 16 ≤ 2 ^ 62
  | .calloc nmemb size => nmemb * size < 2 ^ 64 → nmemb * size + 16 ≤ 2 ^ 62
  | .alignedAlloc align n => n + align ≤ 2 ^ 62
  | .memalign align n => n + align ≤ 2 ^ 62
  | .valloc n => n + 4096 ≤ 2 ^ 62
  | .pvalloc n => n + 4096 ≤ 2 ^ 62
  | .posixMemalign align n => n + align ≤ 2 ^ 62
  | .realloc _ n => n + 16 ≤ 2 ^ 62
  | .delete _ => True
  | .free _ => True

/-- What the program may release: null or a live pointer. -/
def Request.Allowed (live : List Nat) : Request → Prop
  | .delete p => p = 0 ∨ p ∈ live
  | .free p => p = 0 ∨ p ∈ live
  | .realloc p _ => p = 0 ∨ p ∈ live
  | _ => True

/-- `p` lies outside what `mmap` reserves for the pool, now or later. -/
def Outside (env : Env) (p : Nat) : Prop := ∀ base, env.mmap = some base → ¬ (base ≤ p ∧ p < base + env.reservation)

/-- The bytes of the pool that the program may write. -/
def WritableByte (s : State) (live : List Nat) (a : Nat) : Prop :=
  ∃ p ∈ live, pxPoolContains s p = true ∧ p ≤ a ∧ a < p + pxPoolUsableSize s p

/-- Runs of the shim, with the live pointers of the program and the calls made so far. Between
requests the program writes into its allocations, and libc hands it pointers that did not pass
through the shim. -/
inductive Run (env : Env) : State → List Nat → List (Call Heap) → Prop
  | start (m : Mem) (maps : ∀ base, env.mmap = some base → Mapped base env.reservation) : Run env { mem := m } [] []
  | foreign {s : State} {live : List Nat} {trace : List (Call Heap)} {p : Nat} (run : Run env s live trace)
      (outside : Outside env p) : Run env s (granted live p) (trace ++ [.alloc .libc p])
  | request {s : State} {live : List Nat} {trace : List (Call Heap)} {libc : Nat} {r : Reply} {req : Request}
      (run : Run env s live trace) (outside : Outside env libc) (bounded : req.Bounded) (allowed : req.Allowed live)
      (served : serve env libc s req = some r) : Run env r.pool (req.after live r) (trace ++ r.calls)
  | write {s : State} {live : List Nat} {trace : List (Call Heap)} {m : Mem} (run : Run env s live trace)
      (inside : ∀ a, ¬ WritableByte s live a → m a = s.mem a) : Run env { s with mem := m } live trace

end Parallax.Shim
