import ParallaxRuntime.Effects.Threads
import ParallaxRuntime.Launcher.Migration

/-!
# Pointers in kernels

A kernel that follows a pointer of the host computes the place in the arena's buffer from the two bases that were pushed.
-/

namespace Parallax.Launcher
open Memory Effects Arena

variable {β : Type}

/-- `gpu = dev_base + (host_ptr - host_base)` -/
def relocate (hostBase devBase hostPtr : Nat) : Nat := wadd devBase (wsub hostPtr hostBase)

/-- What an invocation does through pointers. -/
inductive Access (β : Type) where
  | load (p n : Nat)
  | store (p : Nat) (x : List β)

namespace Access

def start : Access β → Nat
  | load p _ | store p _ => p

def size : Access β → Nat
  | load _ n => n
  | store _ x => x.length

def relocate (hostBase devBase : Nat) : Access β → Access β
  | load p n => load (Launcher.relocate hostBase devBase p) n
  | store p x => store (Launcher.relocate hostBase devBase p) x

end Access

def accesses (β : Type) : Sig where
  Op := Access β
  Res
    | .load _ n => Fin n → β
    | .store _ _ => Unit

/-- Every pointer is relocated, with the bases of `pushed`. -/
def relocating : Push β → Sig.Hom (accesses β) (accesses β)
  | .block _ hostBase devBase =>
    { op := Access.relocate hostBase devBase
      res := fun
        | .load _ _, x => x
        | .store _ _, x => x }
  | _ => ⟨id, fun _ x => x⟩

section
variable (c : Legacy.Config)

/-- The invocations as if on the host, within the first `high` bytes of the arena. -/
def hostMachine (high : Nat) : Handler (accesses β) (Nat → β) where
  pre a _ := c.hostBase ≤ a.start ∧ a.start < c.hostBase + high ∧ a.start + a.size ≤ c.hostBase + high
  step
    | .load p n, m, x, m' => x = (fun k : Fin n => m (p + k)) ∧ m' = m
    | .store p x, m, _, m' => m' = put m p x

/-- The invocations on the device, within the buffer at `devBase`. A byte of the buffer has the name of the byte of the
arena that it is bound to. -/
def deviceMachine (devBase : Nat) : Handler (accesses β) (Nat → β) where
  pre a _ := devBase ≤ a.start ∧ a.start < devBase + c.capacity ∧ a.start + a.size ≤ devBase + c.capacity
  step
    | .load g n, m, x, m' => x = (fun k : Fin n => m (c.hostBase + (g - devBase) + k)) ∧ m' = m
    | .store g x, m, _, m' => m' = put m (c.hostBase + (g - devBase)) x

end

theorem relocate_add (hostBase devBase hostPtr n : Nat) :
    relocate hostBase devBase (wadd hostPtr n) = wadd (relocate hostBase devBase hostPtr) n := by
  simp only [relocate, wadd, wsub]
  omega

theorem relocate_inside {hostBase devBase capacity p : Nat} (fits : hostBase + capacity ≤ 2 ^ 64) (room : devBase + capacity ≤ 2 ^ 64)
    (low : hostBase ≤ p) (high : p < hostBase + capacity) : relocate hostBase devBase p = devBase + (p - hostBase) := by
  unfold relocate
  rw [wsub_of_le (by omega) low, wadd_of_lt (by omega)]

section
variable {c : Legacy.Config} {ctx : Context} {high n : Nat}

/-- The buffer mirrors the arena up to `high`; the rest of the host's memory is as it was. -/
def Mirrors (c : Legacy.Config) (high : Nat) (before s t : Nat → β) : Prop :=
  (∀ a, c.hostBase ≤ a ∧ a < c.hostBase + high → t a = s a) ∧ ∀ a, ¬ (c.hostBase ≤ a ∧ a < c.hostBase + high) → s a = before a

theorem relocated_pre (base : ctx.hostBase = c.hostBase) (fits : c.hostBase + c.capacity ≤ 2 ^ 64) (room : ctx.devBase + c.capacity ≤ 2 ^ 64)
    (within : high ≤ c.capacity) (a : Access β) (s t : Nat → β) (pre : (hostMachine c high).pre a s) :
    (deviceMachine c ctx.devBase).pre ((relocating (ctx.makePushBlock n)).op a) t := by
  obtain ⟨low, below, last⟩ := pre
  have there := relocate_inside fits room low (by omega)
  cases a <;>
  · simp only [relocating, Context.makePushBlock, base, deviceMachine, Access.relocate, Access.start, Access.size] at *
    omega

/-- A relocated call is the call itself on what the buffer holds. -/
theorem relocated_step (base : ctx.hostBase = c.hostBase) (fits : c.hostBase + c.capacity ≤ 2 ^ 64) (room : ctx.devBase + c.capacity ≤ 2 ^ 64)
    (within : high ≤ c.capacity) {a : Access β} {s t t' : Nat → β} (pre : (hostMachine c high).pre a s)
    {x : (accesses β).Res ((relocating (ctx.makePushBlock n)).op a)} :
    (deviceMachine c ctx.devBase).step ((relocating (ctx.makePushBlock n)).op a) t x t' ↔
      (hostMachine c high).step a t ((relocating (ctx.makePushBlock n)).res a x) t' := by
  obtain ⟨low, below, -⟩ := pre
  have place : c.hostBase + (relocate ctx.hostBase ctx.devBase a.start - ctx.devBase) = a.start := by
    rw [base, relocate_inside fits room low (by omega)]
    omega
  cases a with
  | load p n =>
    change (x = fun k : Fin n => t (c.hostBase + (relocate ctx.hostBase ctx.devBase p - ctx.devBase) + k)) ∧ t' = t ↔ _
    rw [show c.hostBase + (relocate ctx.hostBase ctx.devBase p - ctx.devBase) = p from place]
    exact Iff.rfl
  | store p y =>
    change t' = put t (c.hostBase + (relocate ctx.hostBase ctx.devBase p - ctx.devBase)) y ↔ _
    rw [show c.hostBase + (relocate ctx.hostBase ctx.devBase p - ctx.devBase) = p from place]
    exact Iff.rfl

namespace Mirrors
variable {before s s' t t' : Nat → β} {a : Access β} {y : (accesses β).Res a}

theorem load (h : Mirrors c high before s t) {p n : Nat} (pre : (hostMachine c high).pre (.load p n) s) :
    (fun k : Fin n => t (p + k)) = fun k : Fin n => s (p + k) := by
  obtain ⟨low, -, last⟩ := pre
  dsimp only [Access.start, Access.size] at low last
  funext k
  exact h.1 _ ⟨by omega, by omega⟩

theorem store (h : Mirrors c high before s t) {p : Nat} {x : List β} (pre : (hostMachine c high).pre (.store p x) s) :
    Mirrors c high before (put s p x) (put t p x) := by
  obtain ⟨low, -, last⟩ := pre
  dsimp only [Access.start, Access.size] at low last
  refine ⟨fun a used => put_congr x (h.1 a used), fun a unused => ?_⟩
  have outside : ¬ (p ≤ a ∧ a < p + x.length) := fun inside => unused ⟨by omega, by omega⟩
  rw [put_outside outside]
  exact h.2 a unused

theorem step (h : Mirrors c high before s t) (pre : (hostMachine c high).pre a s) (moved : (hostMachine c high).step a t y t') :
    ∃ s', (hostMachine c high).step a s y s' ∧ Mirrors c high before s' t' := by
  cases a with
  | load p n =>
    obtain ⟨rfl, rfl⟩ := moved
    exact ⟨s, ⟨h.load pre, rfl⟩, h⟩
  | store p x =>
    obtain rfl := moved
    exact ⟨put s p x, rfl, h.store pre⟩

theorem lower (h : Mirrors c high before s t) (pre : (hostMachine c high).pre a s) (moved : (hostMachine c high).step a s y s') :
    ∃ t', (hostMachine c high).step a t y t' ∧ Mirrors c high before s' t' := by
  cases a with
  | load p n =>
    obtain ⟨rfl, rfl⟩ := moved
    exact ⟨t, ⟨(h.load pre).symm, rfl⟩, h⟩
  | store p x =>
    obtain rfl := moved
    exact ⟨put t p x, rfl, h.store pre⟩

end Mirrors

/-! ### Kernels -/

variable {ι α : Type} [DecidableEq ι] {threads : ι → Prog (accesses β) α}

/-- The invocations as they run on the device. -/
def relocated (pushed : Push β) (threads : ι → Prog (accesses β) α) (i : ι) : Prog (accesses β) α := (threads i).embed (relocating pushed)

theorem relocating_answer {pushed : Push β} (a : Access β) (y : (accesses β).Res a) : ∃ x, (relocating pushed).res a x = y := by
  cases pushed <;> cases a <;> exact ⟨y, rfl⟩

variable {R : (Nat → β) → (Nat → β) → Prop} {s t : Nat → β}

/-- Where `R` says how the buffer holds what the host sees, the device does with the relocated invocations what the host
would do with the invocations. -/
theorem relocated_runs (base : ctx.hostBase = c.hostBase) (fits : c.hostBase + c.capacity ≤ 2 ^ 64)
    (room : ctx.devBase + c.capacity ≤ 2 ^ 64) (within : high ≤ c.capacity)
    (step : ∀ a s t y t', R s t → (hostMachine c high).pre a s → (hostMachine c high).step a t y t' →
      ∃ s', (hostMachine c high).step a s y s' ∧ R s' t')
    (lower : ∀ a s t y s', R s t → (hostMachine c high).pre a s → (hostMachine c high).step a s y s' →
      ∃ t', (hostMachine c high).step a t y t' ∧ R s' t')
    (safe : Prog.AllSafe (hostMachine c high) threads s) (rel : R s t) :
    Prog.AllSafe (deviceMachine c ctx.devBase) (relocated (ctx.makePushBlock n) threads) t ∧
    (∀ qs t', Prog.Interleaved (deviceMachine c ctx.devBase).step (relocated (ctx.makePushBlock n) threads) t qs t' →
      ∃ ps s', qs = relocated (ctx.makePushBlock n) ps ∧ Prog.Interleaved (hostMachine c high).step threads s ps s' ∧ R s' t') ∧
    ∀ ps s', Prog.Interleaved (hostMachine c high).step threads s ps s' →
      ∃ t', Prog.Interleaved (deviceMachine c ctx.devBase).step (relocated (ctx.makePushBlock n) threads) t
        (relocated (ctx.makePushBlock n) ps) t' ∧ R s' t' := by
  have moves : ∀ o s t x t', R s t → (hostMachine c high).pre o s →
      (deviceMachine c ctx.devBase).step ((relocating (ctx.makePushBlock n)).op o) t x t' →
      ∃ s', (hostMachine c high).step o s ((relocating (ctx.makePushBlock n)).res o x) s' ∧ R s' t' :=
    fun o s t x t' rel pre moved => step o s t _ t' rel pre ((relocated_step base fits room within pre).mp moved)
  refine ⟨?_, fun qs t' run => ?_, fun ps s' run => ?_⟩
  · exact safe.embed (fun o s t _ pre => relocated_pre base fits room within o s t pre) moves rel
  · obtain ⟨ps, s', run', rel', same, -⟩ := safe.simulate moves rel run
    exact ⟨ps, s', same, run', rel'⟩
  · apply safe.cosimulate _ rel run
    intro o s t y s' rel pre moved
    obtain ⟨t', moved', rel'⟩ := lower o s t y s' rel pre moved
    obtain ⟨x, rfl⟩ : ∃ x, (relocating (ctx.makePushBlock n)).res o x = y := relocating_answer o y
    exact ⟨x, t', rfl, (relocated_step base fits room within pre).mpr moved', rel'⟩

end

/-- How far kernels may reach: all of a unified arena, and of the other what the scopes copy. -/
def Staged.window (uma : Bool) (c : Legacy.Config) (t : Staged β) : Nat := if uma then c.capacity else t.alloc.highWater

/-- What the device finds in a scope; with unified memory nothing is copied. -/
def Staged.found (uma : Bool) (c : Legacy.Config) (t : Staged β) : Nat → β := if uma then t.host else (t.enter c).dev

/-- What the host sees after a scope in which the device leaves `d`. -/
def Staged.seen (uma : Bool) (c : Legacy.Config) (t : Staged β) (d : Nat → β) : Nat → β :=
  if uma then d else ({ t.enter c with dev := d }.leave c).host

section
variable {c : Legacy.Config} {ctx : Context} {count : Nat} {uma : Bool} {ι α : Type} [DecidableEq ι] {threads : ι → Prog (accesses β) α}
  {t : Staged β}

theorem Staged.window_le (inv : Legacy.Inv c t.alloc) : t.window uma c ≤ c.capacity := by
  unfold Staged.window
  split
  · exact le_rfl
  · exact inv.high_le

/-- What the host would have in its memory, and what the device has. -/
def Staged.Shows (uma : Bool) (c : Legacy.Config) (t : Staged β) (s d : Nat → β) : Prop :=
  if uma then d = s else Mirrors c t.alloc.highWater t.host s d

theorem Staged.shows_found (top : t.depth = 0) : t.Shows uma c t.host (t.found uma c) := by
  cases uma with
  | true => exact rfl
  | false =>
    have flushed : t.found false c = copyRange c t.alloc.highWater t.host t.dev := by
      simp [Staged.found, Staged.enter, Staged.flushToDevice, top]
    rw [flushed]
    exact ⟨fun a used => copyRange_inside used, fun _ _ => rfl⟩

theorem Staged.Shows.seen_eq (top : t.depth = 0) {s d : Nat → β} (h : t.Shows uma c s d) : t.seen uma c d = s := by
  cases uma with
  | true => exact h
  | false =>
    have back : t.seen false c d = copyRange c t.alloc.highWater d t.host := by
      simp [Staged.seen, Staged.leave, Staged.enter, Staged.flushToDevice, Staged.invalidateFromDevice, top]
    rw [back]
    funext a
    by_cases used : c.hostBase ≤ a ∧ a < c.hostBase + t.alloc.highWater
    · rw [copyRange_inside used, h.1 a used]
    · rw [h.2 a used]
      exact if_neg used

theorem Staged.Shows.step {a : Access β} {y : (accesses β).Res a} {s d d' : Nat → β} (h : t.Shows uma c s d)
    (pre : (hostMachine c (t.window uma c)).pre a s) (moved : (hostMachine c (t.window uma c)).step a d y d') :
    ∃ s', (hostMachine c (t.window uma c)).step a s y s' ∧ t.Shows uma c s' d' := by
  cases uma with
  | true =>
    obtain rfl : d = s := h
    exact ⟨d', moved, rfl⟩
  | false => exact Mirrors.step h pre moved

theorem Staged.Shows.lower {a : Access β} {y : (accesses β).Res a} {s d s' : Nat → β} (h : t.Shows uma c s d)
    (pre : (hostMachine c (t.window uma c)).pre a s) (moved : (hostMachine c (t.window uma c)).step a s y s') :
    ∃ d', (hostMachine c (t.window uma c)).step a d y d' ∧ t.Shows uma c s' d' := by
  cases uma with
  | true =>
    obtain rfl : d = s := h
    exact ⟨s', moved, rfl⟩
  | false => exact Mirrors.lower h pre moved

/-- With one memory or two, and however the invocations take turns, a kernel that relocates its pointers stays in the
arena's buffer, and leaves on the host what it would leave if it ran there on the pointers themselves. -/
theorem relocated_kernels_run_on_host (base : ctx.hostBase = c.hostBase) (fits : c.hostBase + c.capacity ≤ 2 ^ 64)
    (room : ctx.devBase + c.capacity ≤ 2 ^ 64) (inv : Legacy.Inv c t.alloc) (top : t.depth = 0)
    (safe : Prog.AllSafe (hostMachine c (t.window uma c)) threads t.host) :
    Prog.AllSafe (deviceMachine c ctx.devBase) (relocated (ctx.makePushBlock count) threads) (t.found uma c) ∧
    ∀ qs m, (∃ d, Prog.Interleaved (deviceMachine c ctx.devBase).step (relocated (ctx.makePushBlock count) threads) (t.found uma c) qs d ∧
        t.seen uma c d = m) ↔
      ∃ ps, qs = relocated (ctx.makePushBlock count) ps ∧ Prog.Interleaved (hostMachine c (t.window uma c)).step threads t.host ps m := by
  obtain ⟨safe', down, up⟩ := relocated_runs (R := t.Shows uma c) (n := count) base fits room (Staged.window_le inv)
    (fun _ _ _ _ _ rel pre moved => rel.step pre moved) (fun _ _ _ _ _ rel pre moved => rel.lower pre moved) safe
    (Staged.shows_found top)
  refine ⟨safe', fun qs m => ⟨fun ⟨d, run, back⟩ => ?_, fun ⟨ps, same, run⟩ => ?_⟩⟩
  · obtain ⟨ps, s', same, run', rel⟩ := down qs d run
    rw [rel.seen_eq top] at back
    exact ⟨ps, same, back ▸ run'⟩
  · obtain ⟨d, run', rel⟩ := up ps m run
    exact ⟨d, same ▸ run', rel.seen_eq top⟩

end

/-! ### `relocate.comp` -/

section
variable (f : (Fin 4 → β) → Fin 4 → β)

/-- One invocation; `f` is `v * 2.0 + 1.0` on the bytes of a float. -/
def relocateMain (hostPtr hostBase devBase count i : Nat) : Prog (accesses β) Unit :=
  if count ≤ i then pure ()
  else do
    let gpu := relocate hostBase devBase hostPtr
    let v ← Prog.op (S := accesses β) (.load (wadd gpu (wmul i 4)) 4)
    Prog.op (S := accesses β) (.store (wadd gpu (wmul i 4)) (List.ofFn (f v)))

/-- The same on the pointer itself. -/
def hostMain (hostPtr count i : Nat) : Prog (accesses β) Unit :=
  if count ≤ i then pure ()
  else do
    let v ← Prog.op (S := accesses β) (.load (wadd hostPtr (wmul i 4)) 4)
    Prog.op (S := accesses β) (.store (wadd hostPtr (wmul i 4)) (List.ofFn (f v)))

variable {f}

theorem relocateMain_eq {hostPtr count i n : Nat} {ctx : Context} :
    relocateMain f hostPtr ctx.hostBase ctx.devBase count i = (hostMain f hostPtr count i).embed (relocating (ctx.makePushBlock n)) := by
  unfold relocateMain hostMain
  split
  · rfl
  · dsimp only
    rw [← relocate_add]
    rfl

/-- The invocations of `groups` workgroups. -/
def relocateDispatch (f : (Fin 4 → β) → Fin 4 → β) (ctx : Context) (hostPtr count groups : Nat) (i : Fin (groups * 256)) :
    Prog (accesses β) Unit := relocateMain f hostPtr ctx.hostBase ctx.devBase count i

theorem relocateDispatch_eq {hostPtr count groups n : Nat} {ctx : Context} : relocateDispatch f ctx hostPtr count groups =
    relocated (ctx.makePushBlock n) fun i : Fin (groups * 256) => hostMain f hostPtr count i :=
  funext fun _ => relocateMain_eq

/-- The four bytes of an element. -/
def floatAt (m : Nat → β) (p i : Nat) : Fin 4 → β := fun k => m (p + i * 4 + k)

/-- How far an invocation has come, on an array that held `old`. -/
def Invoked (f : (Fin 4 → β) → Fin 4 → β) (p count : Nat) (old : Nat → β) (i : Nat) (q : Prog (accesses β) Unit) (m : Nat → β) : Prop :=
  (q = hostMain f p count i ∧ floatAt m p i = floatAt old p i) ∨
  (i < count ∧ q = .call (.store (p + i * 4) (List.ofFn (f (floatAt old p i)))) .ret ∧ floatAt m p i = floatAt old p i) ∨
  (q = .ret () ∧ (i < count → floatAt m p i = f (floatAt old p i)))

theorem floatAt_put_same {m : Nat → β} {p i : Nat} {x : Fin 4 → β} : floatAt (put m (p + i * 4) (List.ofFn x)) p i = x := by
  funext k
  unfold floatAt put
  rw [if_pos (by omega), Nat.add_sub_cancel_left, List.getElem?_ofFn]
  simp

theorem floatAt_put_other {m : Nat → β} {p i j : Nat} {x : Fin 4 → β} (ne : j ≠ i) :
    floatAt (put m (p + i * 4) (List.ofFn x)) p j = floatAt m p j := by
  funext k
  apply put_outside
  rw [List.length_ofFn]
  have := k.isLt
  omega

variable {c : Legacy.Config} {high p count i : Nat} {old m m' : Nat → β}

theorem hostMain_of_lt (fit : p + count * 4 ≤ 2 ^ 64) (lt : i < count) : hostMain f p count i =
    .call (.load (p + i * 4) 4) fun v => .call (.store (p + i * 4) (List.ofFn (f v))) .ret := by
  unfold hostMain
  rw [if_neg (by omega), wmul_of_lt (by omega), wadd_of_lt (by omega)]
  rfl

theorem Invoked.next (fit : p + count * 4 ≤ 2 ^ 64) {o : Access β} {k : (accesses β).Res o → Prog (accesses β) Unit}
    (h : Invoked f p count old i (.call o k) m) : i < count ∧ floatAt m p i = floatAt old p i ∧
      ((⟨o, k⟩ : Σ o, (accesses β).Res o → Prog (accesses β) Unit) =
          ⟨.load (p + i * 4) 4, fun v => .call (.store (p + i * 4) (List.ofFn (f v))) .ret⟩ ∨
        (⟨o, k⟩ : Σ o, (accesses β).Res o → Prog (accesses β) Unit) =
          ⟨.store (p + i * 4) (List.ofFn (f (floatAt old p i))), .ret⟩) := by
  rcases h with ⟨eq, same⟩ | ⟨lt, eq, same⟩ | ⟨eq, _⟩
  · by_cases lt : i < count
    · rw [hostMain_of_lt fit lt] at eq
      cases eq
      exact ⟨lt, same, Or.inl rfl⟩
    · rw [hostMain, if_pos (by omega)] at eq
      cases eq
  · cases eq
    exact ⟨lt, same, Or.inr rfl⟩
  · cases eq

theorem Invoked.moves (fit : p + count * 4 ≤ 2 ^ 64) {o : Access β} {k : (accesses β).Res o → Prog (accesses β) Unit}
    {x : (accesses β).Res o} (h : Invoked f p count old i (.call o k) m) (moved : (hostMachine c high).step o m x m') :
    Invoked f p count old i (k x) m' ∧ (∀ j ≠ i, floatAt m' p j = floatAt m p j) ∧
      ∀ a, ¬ (p ≤ a ∧ a < p + count * 4) → m' a = m a := by
  obtain ⟨lt, same, eq | eq⟩ := h.next fit
  · cases eq
    obtain ⟨rfl, rfl⟩ := moved
    refine ⟨Or.inr (Or.inl ⟨lt, ?_, same⟩), fun _ _ => rfl, fun _ _ => rfl⟩
    rw [← same]
    rfl
  · cases eq
    obtain rfl := moved
    refine ⟨Or.inr (Or.inr ⟨rfl, fun _ => floatAt_put_same⟩), fun j ne => floatAt_put_other ne, fun a outside => ?_⟩
    apply put_outside
    rw [List.length_ofFn]
    omega

/-- No invocation disturbs another's element. -/
theorem hostMain_undisturbed {total : Nat} (low : c.hostBase ≤ p) (fit : p + count * 4 ≤ c.hostBase + high) (room : c.hostBase + high ≤ 2 ^ 64) :
    Prog.Undisturbed (hostMachine c high) (fun m => ∀ a, ¬ (p ≤ a ∧ a < p + count * 4) → m a = old a)
      (fun i : Fin total => Invoked f p count old i) where
  pre h := by
    obtain ⟨lt, _, eq | eq⟩ := h.next (by omega)
    · cases eq
      simp only [hostMachine, Access.start, Access.size]
      omega
    · cases eq
      simp only [hostMachine, Access.start, Access.size, List.length_ofFn]
      omega
  own h moved := (h.moves (by omega) moved).1
  other h moved ne other := by
    have same := (h.moves (by omega) moved).2.1 _ (Fin.val_ne_of_ne ne)
    unfold Invoked at other ⊢
    rw [same]
    exact other
  keeps h moved all a outside := by rw [(h.moves (by omega) moved).2.2 a outside, all a outside]

theorem hostMachine_progress (o : Access β) (m : Nat → β) : ∃ x m', (hostMachine c high).step o m x m' := by
  cases o with
  | load p n => exact ⟨_, m, rfl, rfl⟩
  | store p x => exact ⟨(), _, rfl⟩

theorem deviceMachine_progress {devBase : Nat} (o : Access β) (m : Nat → β) : ∃ x m', (deviceMachine c devBase).step o m x m' := by
  cases o with
  | load g n => exact ⟨_, m, rfl, rfl⟩
  | store g x => exact ⟨(), _, rfl⟩

/-- `relocate.comp` over an array of the arena: its invocations can be run to their ends, and then each element is scaled
and nothing else has changed. -/
theorem relocate_scales {ctx : Context} {uma : Bool} {t : Staged β} {groups : Nat} (base : ctx.hostBase = c.hostBase)
    (fits : c.hostBase + c.capacity ≤ 2 ^ 64) (room : ctx.devBase + c.capacity ≤ 2 ^ 64) (inv : Legacy.Inv c t.alloc) (top : t.depth = 0)
    (enough : count ≤ groups * 256) (low : c.hostBase ≤ p) (fit : p + count * 4 ≤ c.hostBase + t.window uma c) :
    Prog.AllSafe (deviceMachine c ctx.devBase) (relocateDispatch f ctx p count groups) (t.found uma c) ∧
    (∃ qs d, Prog.Interleaved (deviceMachine c ctx.devBase).step (relocateDispatch f ctx p count groups) (t.found uma c) qs d ∧
      Prog.Finished qs) ∧
    ∀ qs d, Prog.Interleaved (deviceMachine c ctx.devBase).step (relocateDispatch f ctx p count groups) (t.found uma c) qs d →
      Prog.Finished qs → (∀ i < count, floatAt (t.seen uma c d) p i = f (floatAt t.host p i)) ∧
        ∀ a, ¬ (p ≤ a ∧ a < p + count * 4) → t.seen uma c d a = t.host a := by
  have window : t.window uma c ≤ c.capacity := Staged.window_le inv
  have apart : Prog.Undisturbed (hostMachine c (t.window uma c)) (fun m => ∀ a, ¬ (p ≤ a ∧ a < p + count * 4) → m a = t.host a)
    (fun i : Fin (groups * 256) => Invoked f p count t.host i) := hostMain_undisturbed low fit (by omega)
  have start : ∀ i : Fin (groups * 256), Invoked f p count t.host i (hostMain f p count i) t.host := fun i => Or.inl ⟨rfl, rfl⟩
  obtain ⟨safe, down, -⟩ := relocated_runs (R := t.Shows uma c) (n := count) base fits room window
    (fun _ _ _ _ _ rel pre moved => rel.step pre moved) (fun _ _ _ _ _ rel pre moved => rel.lower pre moved)
    (apart.allSafe start fun _ _ => rfl) (Staged.shows_found top)
  have finite : Finite (Fin (groups * 256)) := Finite.intro (Equiv.refl _)
  rw [relocateDispatch_eq (n := count)]
  refine ⟨safe, safe.exists_finished fun o m _ => deviceMachine_progress o m, fun qs d run done => ?_⟩
  obtain ⟨ps, s', rfl, run', rel⟩ := down qs d run
  obtain ⟨ended, frame⟩ := apart.interleaved run' start fun _ _ => rfl
  rw [rel.seen_eq top]
  refine ⟨fun i lt => ?_, frame⟩
  obtain ⟨a, stopped⟩ := done ⟨i, by omega⟩
  rcases ended ⟨i, by omega⟩ with ⟨eq, _⟩ | ⟨_, eq, _⟩ | ⟨_, scaled⟩
  · rw [relocated, eq, hostMain_of_lt (by omega) lt] at stopped
    cases stopped
  · rw [relocated, eq] at stopped
    cases stopped
  · exact scaled lt

end

/-- The arena with two blocks on a device with memory of its own, at another place; the cells of the first block hold
addresses in the second. -/
def twoMemories : Staged Nat where
  alloc := Legacy.twoBlocks
  host a := a + 4096
  dev _ := 0

def farContext : Context := ⟨fun _ => true, true, 4096, 2 ^ 40, 65536⟩

theorem relocate_scales_first :
    Prog.AllSafe (deviceMachine ⟨4096, 65536⟩ farContext.devBase) (relocateDispatch (fun v k => v k * 2 + 1) farContext 4096 500 2)
      (twoMemories.found false ⟨4096, 65536⟩) ∧
    (∃ qs d, Prog.Interleaved (deviceMachine ⟨4096, 65536⟩ farContext.devBase).step (relocateDispatch (fun v k => v k * 2 + 1) farContext 4096 500 2)
      (twoMemories.found false ⟨4096, 65536⟩) qs d ∧ Prog.Finished qs) ∧
    ∀ qs d, Prog.Interleaved (deviceMachine ⟨4096, 65536⟩ farContext.devBase).step (relocateDispatch (fun v k => v k * 2 + 1) farContext 4096 500 2)
      (twoMemories.found false ⟨4096, 65536⟩) qs d → Prog.Finished qs →
      (∀ i < 500, floatAt (twoMemories.seen false ⟨4096, 65536⟩ d) 4096 i = fun k => floatAt twoMemories.host 4096 i k * 2 + 1) ∧
        ∀ a, ¬ (4096 ≤ a ∧ a < 4096 + 500 * 4) → twoMemories.seen false ⟨4096, 65536⟩ d a = twoMemories.host a :=
  relocate_scales (c := ⟨4096, 65536⟩) (t := twoMemories) rfl (by decide) (by decide) Legacy.twoBlocks_inv rfl (by decide) (by decide) (by decide)

/-- An invocation follows the pointer in its cell. -/
def follow (i : Fin 4) : Prog (accesses Nat) Unit := do
  let v ← Prog.op (S := accesses Nat) (.load (4096 + i) 1)
  Prog.op (S := accesses Nat) (.store (v 0) [7])

def Following (i : Fin 4) (q : Prog (accesses Nat) Unit) (m : Nat → Nat) : Prop :=
  (∀ a, 4096 ≤ a → a < 4100 → m a = a + 4096) ∧
    (q = follow i ∨ (∃ p, 8192 ≤ p ∧ p < 8196 ∧ q = .call (.store p [7]) .ret) ∨ q = .ret ())

theorem follow_undisturbed : Prog.Undisturbed (hostMachine ⟨4096, 65536⟩ 8192) (fun _ => True) Following := by
  have next : ∀ {i o k m x m'}, Following i (.call o k) m → (hostMachine ⟨4096, 65536⟩ 8192).step o m x m' →
      (hostMachine ⟨4096, 65536⟩ 8192).pre o m ∧ Following i (k x) m' ∧ ∀ a, 4096 ≤ a → a < 4100 → m' a = a + 4096 := by
    intro i o k m x m' ⟨table, eq⟩ moved
    rcases eq with eq | ⟨p, low, high, eq⟩ | eq
    · cases eq
      obtain ⟨rfl, rfl⟩ := moved
      have := i.isLt
      refine ⟨?_, ⟨table, Or.inr (Or.inl ⟨m' (4096 + i + 0), ?_, ?_, rfl⟩)⟩, table⟩
      · simp only [hostMachine, Access.start, Access.size]
        omega
      · rw [table _ (by omega) (by omega)]
        omega
      · rw [table _ (by omega) (by omega)]
        omega
    · cases eq
      obtain rfl := moved
      have kept : ∀ a, 4096 ≤ a → a < 4100 → put m p [7] a = a + 4096 := by
        intro a ha ha'
        rw [put_outside (by simp only [List.length_singleton]; omega), table a ha ha']
      refine ⟨?_, ⟨kept, Or.inr (Or.inr rfl)⟩, kept⟩
      simp only [hostMachine, Access.start, Access.size, List.length_singleton]
      omega
    · cases eq
  refine ⟨fun {i o k m} h => ?_, fun h moved => (next h moved).2.1, fun h moved _ other => ⟨(next h moved).2.2, other.2⟩, fun _ _ _ => trivial⟩
  obtain ⟨x, m', moved⟩ : ∃ x m', (hostMachine ⟨4096, 65536⟩ 8192).step o m x m' := hostMachine_progress o m
  exact (next h moved).1

theorem follow_safe : Prog.AllSafe (hostMachine ⟨4096, 65536⟩ 8192) follow twoMemories.host :=
  follow_undisturbed.allSafe (fun _ => ⟨fun _ _ _ => rfl, Or.inl rfl⟩) trivial

theorem relocated_kernels_run_on_host_follow :
    Prog.AllSafe (deviceMachine ⟨4096, 65536⟩ farContext.devBase) (relocated (farContext.makePushBlock 4) follow) (twoMemories.found false ⟨4096, 65536⟩) ∧
    ∀ qs m, (∃ d, Prog.Interleaved (deviceMachine ⟨4096, 65536⟩ farContext.devBase).step (relocated (farContext.makePushBlock 4) follow)
        (twoMemories.found false ⟨4096, 65536⟩) qs d ∧ twoMemories.seen false ⟨4096, 65536⟩ d = m) ↔
      ∃ ps, qs = relocated (farContext.makePushBlock 4) ps ∧
        Prog.Interleaved (hostMachine ⟨4096, 65536⟩ 8192).step follow twoMemories.host ps m :=
  relocated_kernels_run_on_host (t := twoMemories) rfl (by decide) (by decide) Legacy.twoBlocks_inv rfl follow_safe

end Parallax.Launcher
