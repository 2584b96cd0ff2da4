import ParallaxRuntime.Launcher.Staging

/-!
# Sessions on unified and on staged memory

A session allocates, frees and writes arena blocks and calls the synchronous primitives.
-/

namespace Parallax.Launcher
open Memory Effects Arena

variable {β : Type}

inductive Action (β : Type) where
  | allocate (size align : Nat)
  | deallocate (p : Nat)
  | write (p : Nat) (x : List β)
  | reduce (kernel : String) (data count es outResult : Nat)
  | scan (scanKernel addKernel : String) (data count es : Nat)
  | exclusiveScan (scanKernel addKernel shiftKernel : String) (input output count es : Nat) (init : Option (List β))
  | sort (kernel : String) (data count es fuel : Nat)
  | compact (flagsKernel scanKernel addKernel scatterKernel : String) (input output count es : Nat)
    (elemIsFloat : Bool) (outKept : Option Nat)
  | argminmax (kernel : String) (data count es : Nat) (isFloat wantMax wantLast : Bool)
  | find (kernel : String) (data count es : Nat) (negate : Bool) (value : Option (List β))
  | mismatch (kernel : String) (a b count es : Nat)

namespace Action

def Res : Action β → Type
  | allocate _ _ => Nat
  | deallocate _ | write _ _ => Unit
  | reduce _ _ _ es _ => Bool × Option (Fin es → β)
  | scan _ _ _ _ _ | exclusiveScan _ _ _ _ _ _ _ _ => Bool
  | sort _ _ _ _ _ => Option Bool
  | compact _ _ _ _ _ _ _ _ _ _ => Bool × Option Nat
  | argminmax _ _ _ _ _ _ _ | find _ _ _ _ _ _ | mismatch _ _ _ _ _ => Nat

def prog [Zero β] (hv : HostValues β) (ctx : Context) : (a : Action β) → Launch β a.Res
  | allocate size align => Launcher.allocate size align
  | deallocate p => Launcher.deallocate p
  | write p x => Launcher.write p x
  | reduce kernel data count es outResult => launchReduce ctx kernel data count es outResult
  | scan scanKernel addKernel data count es => launchScan ctx scanKernel addKernel data count es
  | exclusiveScan scanKernel addKernel shiftKernel input output count es init =>
    launchExclusiveScan ctx scanKernel addKernel shiftKernel input output count es init
  | sort kernel data count es fuel => launchSort ctx kernel data count es fuel
  | compact flagsKernel scanKernel addKernel scatterKernel input output count es elemIsFloat outKept =>
    launchCompact hv ctx flagsKernel scanKernel addKernel scatterKernel input output count es elemIsFloat outKept
  | argminmax kernel data count es isFloat wantMax wantLast =>
    launchArgminmax hv ctx kernel data count es isFloat wantMax wantLast
  | find kernel data count es negate value => launchFind hv ctx kernel data count es negate value
  | mismatch kernel a b count es => launchMismatch hv ctx kernel a b count es

/-- The arrays are given by arena pointers. -/
def OnArena (ctx : Context) : Action β → Prop
  | reduce _ data _ _ _ | scan _ _ data _ _ | sort _ data _ _ _ | argminmax _ data _ _ _ _ _
  | find _ data _ _ _ _ => ctx.contains data = true
  | exclusiveScan _ _ _ input output _ _ _ | compact _ _ _ _ input output _ _ _ _ =>
    ctx.contains input = true ∧ ctx.contains output = true
  | mismatch _ a b _ _ => ctx.contains a = true ∧ ctx.contains b = true
  | _ => True

theorem order [Zero β] {hv : HostValues β} {ctx : Context} {a : Action β} (inside : a.OnArena ctx) :
    (a.prog hv ctx).Ensures (phases ctx) (fun _ g => g = ⟨0, true⟩) ⟨0, true⟩ := by
  cases a with
  | allocate size align => exact ⟨trivial, fun _ _ step => step.2⟩
  | deallocate p => exact ⟨trivial, fun _ _ same => same⟩
  | write p x => exact ⟨trivial, fun _ _ same => same⟩
  | reduce => exact launchReduce_order inside
  | scan => exact launchScan_order inside
  | exclusiveScan => exact launchExclusiveScan_order inside.1 inside.2
  | sort => exact launchSort_order inside
  | compact => exact launchCompact_order inside.1 inside.2
  | argminmax => exact launchArgminmax_order inside
  | find => exact launchFind_order inside
  | mismatch => exact launchMismatch_order inside.1 inside.2

end Action

/-- The arena of a session, and the kernels that are loaded. -/
structure Device (β : Type) where
  hv : HostValues β
  config : Legacy.Config
  kernels : String → DeviceKernel β
  loaded : String → Bool
  devBase : Nat
  base_pos : 0 < config.hostBase
  capacity_lt : config.capacity < 2 ^ 64

namespace Device
variable [Zero β] (D : Device β)

def context : Context := ⟨D.loaded, true, D.config.hostBase, D.devBase, D.config.capacity⟩

def Unified : List (Σ a : Action β, a.Res) → Unified β → Unified β → Prop :=
  Session (Action.prog D.hv D.context) (unifiedStep D.config D.kernels)

def Staged : List (Σ a : Action β, a.Res) → Staged β → Staged β → Prop :=
  Session (Action.prog D.hv D.context) (stagedStep D.config D.kernels)

/-- What a call may be expected to meet: arena pointers, only written cells read, only live
blocks written. -/
def Accepts (a : Action β) (s : Launcher.Unified β) : Prop :=
  a.OnArena D.context ∧ (a.prog D.hv D.context).Ensures (unified D.config D.kernels) (fun _ _ => True) s

def AcceptsAll (events : List (Σ a : Action β, a.Res)) (s : Launcher.Unified β) : Prop :=
  Along (Action.prog D.hv D.context) (unifiedStep D.config D.kernels) D.Accepts events s

/-- No allocation wraps around, and no launcher stores a result into the arena. -/
def Careful (a : Action β) (s : Launcher.Unified β) : Prop :=
  (∃ p x, a = .write p x) ∨ (a.prog D.hv D.context).Ensures (careful D.config D.kernels) (fun _ _ => True) s

def CarefulAll (events : List (Σ a : Action β, a.Res)) (s : Launcher.Unified β) : Prop :=
  Along (Action.prog D.hv D.context) (unifiedStep D.config D.kernels) D.Careful events s

/-- The host sees the same: in the written cells of live blocks, and outside the arena. -/
def Agree (s : Launcher.Unified β) (t : Launcher.Staged β) : Prop :=
  ∀ a, (s.init a ∨ a < D.config.hostBase ∨ D.config.hostBase + D.config.capacity ≤ a) → t.host a = s.mem a

/-- Sessions with the same answers lead to the same contents, on either memory. -/
def Refines (events : List (Σ a : Action β, a.Res)) (s : Launcher.Unified β) (t : Launcher.Staged β) : Prop :=
  (∀ t', D.Staged events t t' → ∃ s', D.Unified events s s' ∧ D.Agree s' t') ∧
  ∀ s', D.Unified events s s' → ∃ t', D.Staged events t t' ∧ D.Agree s' t'

end Device

/-! ### Each call keeps the two memories related -/

section
variable {D : Device β} {g g' : Phase} {s s' : Launcher.Unified β} {t t' : Launcher.Staged β} {o : Op β}

/-- The call has the same answers on both memories, and both follow the phases. -/
def Matches (D : Device β) (g : Phase) (s : Launcher.Unified β) (t : Launcher.Staged β) (o : Op β) : Prop :=
  (∀ x t', stagedStep D.config D.kernels o t x t' → ∃ g' s', phaseStep D.context o g x g' ∧
    unifiedStep D.config D.kernels o s x s' ∧ Related D.config g' s' t') ∧
  ∀ x s', unifiedStep D.config D.kernels o s x s' → ∃ g' t', phaseStep D.context o g x g' ∧
    stagedStep D.config D.kernels o t x t' ∧ Related D.config g' s' t'

theorem matches_of_update (phase : ∀ x, phaseStep D.context o g x g')
    (unifiedTo : ∀ x s'', unifiedStep D.config D.kernels o s x s'' ↔ s'' = s')
    (stagedTo : ∀ x t'', stagedStep D.config D.kernels o t x t'' ↔ t'' = t') (rel : Related D.config g' s' t') :
    Matches D g s t o := by
  refine ⟨fun x t'' step => ⟨g', s', phase x, (unifiedTo x s').mpr rfl, ?_⟩,
    fun x s'' step => ⟨g', t', phase x, (stagedTo x t').mpr rfl, ?_⟩⟩
  · rw [(stagedTo x t'').mp step]
    exact rel
  · rw [(unifiedTo x s'').mp step]
    exact rel

theorem matches_allocate {size align : Nat} (rel : Related D.config g s t) (safe : Legacy.NoWrap s.alloc size align) :
    Matches D g s t (.allocate size align) := by
  have inside : (Legacy.allocate D.config s.alloc size align).1 = 0 ∨
      D.context.contains (Legacy.allocate D.config s.alloc size align).1 = true :=
    contains_allocated rel.inv D.capacity_lt D.base_pos ⟨rfl, rfl, rfl⟩ safe
  have next := rel.allocate D.capacity_lt safe
  refine ⟨fun x t' step => ?_, fun x s' step => ?_⟩
  · obtain ⟨rfl, rfl⟩ := step
    refine ⟨g, _, ⟨?_, rfl⟩, ⟨?_, rfl⟩, next⟩
    · rw [rel.alloc]
      exact inside
    · rw [rel.alloc]
  · obtain ⟨rfl, rfl⟩ := step
    exact ⟨g, _, ⟨inside, rfl⟩, ⟨by rw [rel.alloc], rfl⟩, next⟩

theorem matches_read {p n : Nat} (rel : Related D.config g s t) (fresh : g.fresh = true) (init : ∀ k < n, s.init (p + k)) :
    Matches D g s t (.read p n) := by
  have same : (fun k : Fin n => t.host (p + k)) = fun k : Fin n => s.mem (p + k) :=
    funext fun k => rel.host fresh _ (init k k.2)
  refine ⟨fun x t' step => ?_, fun x s' step => ?_⟩
  · obtain ⟨rfl, rfl⟩ := step
    exact ⟨g, s, rfl, ⟨same, rfl⟩, rel⟩
  · obtain ⟨rfl, rfl⟩ := step
    exact ⟨g, t, rfl, ⟨same.symm, rfl⟩, rel⟩

theorem matches_submit {d : Dispatch β} (rel : Related D.config g s t) (deep : 0 < g.depth)
    (reads : ∀ a, (D.kernels d.kernel).reads d s.mem a → s.init a)
    (writes : ∀ w, (D.kernels d.kernel).run d s.mem w → ∀ a, (w a).isSome → LiveByte (blocks s.alloc) a) :
    Matches D g s t (.submit d) := by
  have same := (D.kernels d.kernel).run_congr fun a ha => rel.device deep a (reads a ha)
  have dirty : phaseStep D.context (.submit d) g true { g with fresh := false } := by simp [phaseStep]
  have clean : phaseStep D.context (.submit d) g false g := by simp [phaseStep]
  refine ⟨fun x t' step => ?_, fun x s' step => ?_⟩
  · rcases step with ⟨rfl, w, run, rfl⟩ | ⟨rfl, rfl⟩
    · have run' := (same w).mpr run
      exact ⟨_, s.wrote w, dirty, Or.inl ⟨rfl, w, run', rfl⟩, rel.wrote deep (writes w run')⟩
    · exact ⟨g, s, clean, Or.inr ⟨rfl, rfl⟩, rel⟩
  · rcases step with ⟨rfl, w, run, rfl⟩ | ⟨rfl, rfl⟩
    · exact ⟨_, _, dirty, Or.inl ⟨rfl, w, (same w).mp run, rfl⟩, rel.wrote deep (writes w run)⟩
    · exact ⟨g, t, clean, Or.inr ⟨rfl, rfl⟩, rel⟩

theorem matches_call (order : (phases D.context).pre o g)
    (use : (unified D.config D.kernels).pre o s ∧ (careful D.config D.kernels).pre o s) (rel : Related D.config g s t) :
    Matches D g s t o := by
  cases o with
  | enter => exact matches_of_update (fun _ => rfl) (fun _ _ => Iff.rfl) (fun _ _ => Iff.rfl) rel.enter
  | leave => exact matches_of_update (fun _ => rfl) (fun _ _ => Iff.rfl) (fun _ _ => Iff.rfl) (rel.leave order)
  | invalidateFromDevice =>
    exact matches_of_update (fun _ => rfl) (fun _ _ => Iff.rfl) (fun _ _ => Iff.rfl) (rel.invalidateFromDevice order)
  | allocate size align => exact matches_allocate rel use.2
  | deallocate p => exact matches_of_update (fun _ => rfl) (fun _ _ => Iff.rfl) (fun _ _ => Iff.rfl) (rel.free p)
  | allocateDescriptorSet => exact matches_of_update (fun _ => rfl) (fun _ _ => Iff.rfl) (fun _ _ => Iff.rfl) rel
  | sync => exact matches_of_update (fun _ => rfl) (fun _ _ => Iff.rfl) (fun _ _ => Iff.rfl) rel
  | submit d => exact matches_submit rel order use.1.1 use.1.2
  | read p n => exact matches_read rel order use.1
  | write p x => exact matches_of_update (fun _ => rfl) (fun _ _ => Iff.rfl) (fun _ _ => Iff.rfl) (rel.store (Or.inr use.2))
  | _ => exact order.elim

end

/-! ### Whole sessions -/

section
variable {D : Device β} {s : Launcher.Unified β} {t : Launcher.Staged β}

/-- Outside all scopes. -/
def Settled (D : Device β) (s : Launcher.Unified β) (t : Launcher.Staged β) : Prop := Related D.config ⟨0, true⟩ s t

theorem Settled.agree (h : Settled D s t) : D.Agree s t := fun a ha => ha.elim (h.host rfl a) (h.outside a)

/-- An empty arena whose staging buffer starts with what the one memory holds; the device
buffer holds anything. -/
theorem settled_init (m dev : Nat → β) : Settled D { mem := m } { host := m, dev := dev } where
  alloc := rfl
  depth := rfl
  inv := Legacy.inv_fresh D.config
  live _ no := no.elim
  outside _ _ := rfl
  host _ _ _ := rfl
  device no := absurd no (Nat.lt_irrefl 0)
  top _ := rfl

variable [Zero β]

theorem Settled.lift {a : Action β} {r : a.Res} {t' : Launcher.Staged β} (ok : D.Accepts a s ∧ D.Careful a s)
    (h : Settled D s t) (run : (a.prog D.hv D.context).Run (stagedStep D.config D.kernels) t r t') :
    ∃ s', (a.prog D.hv D.context).Run (unifiedStep D.config D.kernels) s r s' ∧ Settled D s' t' := by
  obtain ⟨⟨inside, use⟩, ⟨p, x, rfl⟩ | safe⟩ := ok
  · obtain ⟨_, t₁, rfl, rfl, rfl⟩ := run
    exact ⟨s.store p x, ⟨(), _, rfl, rfl, rfl⟩, Related.store h (Or.inl rfl)⟩
  · obtain ⟨g', s', rfl, run', rel⟩ := (Action.order inside).simulate (R := Related D.config)
      (fun o g s t x t' order use rel => (matches_call order use rel).1 x t') (use.both safe) h run
    exact ⟨s', run', rel⟩

theorem Settled.lower {a : Action β} {r : a.Res} {s' : Launcher.Unified β} (ok : D.Accepts a s ∧ D.Careful a s)
    (h : Settled D s t) (run : (a.prog D.hv D.context).Run (unifiedStep D.config D.kernels) s r s') :
    ∃ t', (a.prog D.hv D.context).Run (stagedStep D.config D.kernels) t r t' ∧ Settled D s' t' := by
  obtain ⟨⟨inside, use⟩, ⟨p, x, rfl⟩ | safe⟩ := ok
  · obtain ⟨_, s₁, rfl, rfl, rfl⟩ := run
    exact ⟨{ t with host := put t.host p x }, ⟨(), _, rfl, rfl, rfl⟩, Related.store h (Or.inl rfl)⟩
  · obtain ⟨g', t', rfl, run', rel⟩ := (Action.order inside).cosimulate (R := Related D.config)
      (fun o g s t x s' order use rel => (matches_call order use rel).2 x s') (use.both safe) h run
    exact ⟨t', run', rel⟩

/-- A session whose results go outside the arena and whose allocations do not wrap around
gives the same answers and contents on staged as on unified memory, after every call. -/
theorem Device.staging_refines (D : Device β) (events : List (Σ a : Action β, a.Res)) (m dev : Nat → β)
    (accepted : D.AcceptsAll events { mem := m }) (careful : D.CarefulAll events { mem := m }) :
    ∀ done, done <+: events → D.Refines done { mem := m } { host := m, dev := dev } := by
  intro done part
  have along := (Along.both accepted careful).initial part
  refine ⟨fun t' run => ?_, fun s' run => ?_⟩
  · obtain ⟨s', run', rel⟩ := Session.simulate (fun a s t r t' ok rel step => Settled.lift ok rel step) along
      (settled_init m dev) run
    exact ⟨s', run', rel.agree⟩
  · obtain ⟨t', run', rel⟩ := Session.cosimulate (fun a s t r s' ok rel step => Settled.lower ok rel step) along
      (settled_init m dev) run
    exact ⟨t', run', rel.agree⟩

end

/-! ### A small device -/

/-- A scan of one block: prefix sums in place, and the total at the second binding. -/
def blockScan (base : Nat) : DeviceKernel Nat where
  reads d _ a := base + d.binding0.offset ≤ a ∧ a < base + d.binding0.offset + d.push.count
  run d m w := w = fun a =>
    let p := base + d.binding0.offset
    if p ≤ a ∧ a < p + d.push.count then some ((List.range (a - p + 1)).map fun i => m (p + i)).sum
    else if a = base + d.binding1.offset then some ((List.range d.push.count).map fun i => m (p + i)).sum
    else none
  run_congr {d m m'} same w := by
    have terms : ∀ n ≤ d.push.count, ((List.range n).map fun i => m (base + d.binding0.offset + i)) =
        (List.range n).map fun i => m' (base + d.binding0.offset + i) := fun n hn =>
      List.map_congr_left fun i hi => by
        have := List.mem_range.mp hi
        exact (same _ ⟨by omega, by omega⟩).symm
    refine Eq.congr_right (funext fun a => ?_)
    dsimp only
    rw [terms _ (Nat.le_refl _)]
    split
    · rw [terms _ (by omega)]
    · rfl

def smallConfig : Legacy.Config := ⟨4096, 65536⟩

/-- 64 KiB at 4096, with a scan kernel. -/
def smallDevice : Device Nat where
  hv := firstCell
  config := smallConfig
  kernels _ := blockScan 4096
  loaded _ := true
  devBase := 0
  base_pos := by decide
  capacity_lt := by decide

/-- One element is reduced into another block of the arena. -/
def reduceIntoArena : List (Σ a : Action Nat, a.Res) :=
  [⟨.allocate 8 256, (4096 : Nat)⟩, ⟨.write 4096 [1], ()⟩, ⟨.allocate 8 256, (4352 : Nat)⟩, ⟨.write 4352 [5], ()⟩,
    ⟨.reduce "reduce" 4096 1 1 4352, (true, some fun _ => 1)⟩]

theorem reduceIntoArena_accepted : smallDevice.AcceptsAll reduceIntoArena { mem := fun _ => 0 } := by
  refine ⟨⟨trivial, trivial, fun _ _ _ => trivial⟩, fun s₁ run => ?_⟩
  obtain ⟨_, _, ⟨-, rfl⟩, -, rfl⟩ := run
  have first : ∀ k < 1, LiveByte (blocks (Legacy.allocate smallDevice.config {} 8 256).2) (4096 + k) := fun k hk =>
    ⟨(4096, 256), by decide, by dsimp only; omega, by dsimp only; omega⟩
  refine ⟨⟨trivial, Or.inl first, fun _ _ _ => trivial⟩, fun s₂ run => ?_⟩
  obtain ⟨_, _, rfl, -, rfl⟩ := run
  refine ⟨⟨trivial, trivial, fun _ _ _ => trivial⟩, fun s₃ run => ?_⟩
  obtain ⟨_, _, ⟨-, rfl⟩, -, rfl⟩ := run
  have second : ∀ k < 1, LiveByte (blocks (Legacy.allocate smallDevice.config
      (Legacy.allocate smallDevice.config {} 8 256).2 8 256).2) (4352 + k) := fun k hk =>
    ⟨(4352, 256), by decide, by dsimp only; omega, by dsimp only; omega⟩
  refine ⟨⟨trivial, Or.inl second, fun _ _ _ => trivial⟩, fun s₄ run => ?_⟩
  obtain ⟨_, _, rfl, -, rfl⟩ := run
  refine ⟨⟨(by decide : smallDevice.context.contains 4096 = true), trivial, fun _ s₅ same => ?_⟩, fun _ _ => trivial⟩
  obtain rfl := same
  refine ⟨fun k hk => Or.inl (Or.inr ⟨by omega, by simp; omega, first k hk⟩), fun _ s₆ same => ?_⟩
  obtain ⟨-, rfl⟩ := same
  exact ⟨Or.inl second, fun _ s₇ same => ⟨trivial, fun _ _ _ => trivial⟩⟩

theorem reduceIntoArena_diverges :
    smallDevice.AcceptsAll reduceIntoArena { mem := fun _ => 0 } ∧
    ¬ smallDevice.Refines reduceIntoArena { mem := fun _ => 0 } { host := fun _ => 0, dev := fun _ => 0 } := by
  refine ⟨reduceIntoArena_accepted, fun ⟨_, lower⟩ => ?_⟩
  have session : ∃ s', smallDevice.Unified reduceIntoArena { mem := fun _ => 0 } s' ∧ s'.init 4352 ∧ s'.mem 4352 = 1 := by
    refine ⟨_, ⟨_, ⟨_, _, ⟨rfl, rfl⟩, rfl, rfl⟩, _, ⟨(), _, rfl, rfl, rfl⟩, _, ⟨_, _, ⟨rfl, rfl⟩, rfl, rfl⟩, _,
      ⟨(), _, rfl, rfl, rfl⟩, _, ⟨(), _, rfl, _, _, ⟨rfl, rfl⟩, (), _, rfl, (), _, rfl, ?_, rfl⟩, rfl⟩, ?_, ?_⟩
    · refine Prod.ext rfl (congrArg some (funext fun k => ?_))
      obtain rfl : k = 0 := Subsingleton.elim _ _
      simp [Unified.store, put]
    · exact Or.inr ⟨Nat.le_refl _, by decide, (4352, 256), by decide, by decide, by decide⟩
    · rfl
  obtain ⟨s', run, init, value⟩ := session
  obtain ⟨t', run', agree⟩ := lower s' run
  have stale : t'.host 4352 = 5 := by
    obtain ⟨_, ⟨_, _, ⟨-, rfl⟩, -, rfl⟩, _, ⟨_, _, rfl, -, rfl⟩, _, ⟨_, _, ⟨-, rfl⟩, -, rfl⟩, _,
      ⟨_, _, rfl, -, rfl⟩, _, ⟨_, _, rfl, _, _, ⟨-, rfl⟩, _, _, rfl, _, _, rfl, -, rfl⟩, rfl⟩ := run'
    rfl
  have := agree 4352 (Or.inl init)
  omega

/-- Two elements are scanned in place. -/
def scanSession : List (Σ a : Action Nat, a.Res) :=
  [⟨.allocate 8 256, (4096 : Nat)⟩, ⟨.write 4096 [1, 2], ()⟩, ⟨.scan "scan" "scan_add" 4096 2 1, true⟩]

def oneLive : Legacy.State where
  bump := 256
  highWater := 256
  live := [(4096, ⟨0, 256⟩)]

theorem oneLive_eq : Legacy.allocate smallDevice.config {} 8 256 = (4096, oneLive) := by
  have aligned : Legacy.alignUp 0 256 = 0 ∧ Legacy.alignUp 8 256 = 256 := by decide
  simp [Legacy.allocate, Legacy.firstFit, Legacy.bumpAllocate, Legacy.kDefaultAlignment, Legacy.setLive, aligned, wadd,
    smallDevice, smallConfig, oneLive]

theorem scanSession_scan {s : Launcher.Unified Nat} (alloc : s.alloc = oneLive)
    (init : ∀ a, 4096 ≤ a → a < 4098 → s.init a) :
    (launchScan smallDevice.context "scan" "scan_add" 4096 2 1).Ensures
      ⟨fun o s => (unified smallDevice.config smallDevice.kernels).pre o s ∧
        (careful smallDevice.config smallDevice.kernels).pre o s, unifiedStep smallDevice.config smallDevice.kernels⟩
      (fun _ _ => True) s := by
  have room : Legacy.NoWrap oneLive 1 256 := Or.inr ⟨by decide, trivial, fun _ => ⟨by decide, by decide⟩⟩
  rw [launchScan]
  refine ⟨⟨trivial, trivial⟩, fun _ _ same => ?_⟩
  obtain rfl := same
  refine ⟨⟨trivial, by rw [← alloc] at room; exact room⟩, fun p s₁ same => ?_⟩
  obtain ⟨ptr, rfl⟩ := same
  have found : p = (4352 : Nat) := by
    rw [ptr, alloc]
    show (Legacy.allocate smallDevice.config oneLive (wmul (groupsOf 2) 1) 256).1 = 4352
    decide
  subst found
  refine ⟨⟨trivial, trivial⟩, fun (set : Bool) _ same => ?_⟩
  obtain rfl := same
  cases set with
  | false => exact ⟨⟨trivial, trivial⟩, fun _ _ _ => trivial⟩
  | true =>
    refine ⟨⟨trivial, trivial⟩, fun _ _ same => ?_⟩
    obtain rfl := same
    refine ⟨⟨⟨fun a ha => init a ha.1 ha.2, fun w run a wrote => ?_⟩, trivial⟩, fun (ok : Bool) s' _ => ?_⟩
    · have live : (4352, 256) ∈ blocks (Legacy.allocate smallDevice.config oneLive (wmul (groupsOf 2) 1) 256).2 ∧
          (4096, 256) ∈ blocks (Legacy.allocate smallDevice.config oneLive (wmul (groupsOf 2) 1) 256).2 := by decide
      show LiveByte (blocks (Legacy.allocate smallDevice.config _ (wmul (groupsOf 2) 1) 256).2) a
      rw [alloc]
      obtain rfl : w = _ := run
      dsimp only at wrote
      split at wrote
      · next inside =>
        have range : 4096 ≤ a ∧ a < 4098 := inside
        exact ⟨_, live.2, by dsimp only; omega, by dsimp only; omega⟩
      · split at wrote
        · next total =>
          have here : a = 4352 := total
          exact ⟨_, live.1, by dsimp only; omega, by dsimp only; omega⟩
        · cases wrote
    · cases ok with
      | false => exact ⟨⟨trivial, trivial⟩, fun _ _ _ => trivial⟩
      | true => exact ⟨⟨trivial, trivial⟩, fun _ _ _ => ⟨⟨trivial, trivial⟩, fun _ _ _ => ⟨⟨trivial, trivial⟩,
          fun _ _ _ => trivial⟩⟩⟩

theorem scanSession_run {s : Launcher.Unified Nat} (alloc : s.alloc = oneLive) (first : s.mem 4096 = 1)
    (second : s.mem 4097 = 2) :
    ∃ s', (launchScan smallDevice.context "scan" "scan_add" 4096 2 1).Run
      (unifiedStep smallDevice.config smallDevice.kernels) s true s' ∧ s'.mem 4096 = 1 ∧ s'.mem 4097 = 3 := by
  rw [launchScan]
  refine ⟨_, ⟨(), s, rfl, (4352 : Nat), _, ⟨?_, rfl⟩, true, _, rfl, (), _, rfl, true, _, Or.inl ⟨rfl, _, rfl, rfl⟩, (), _, rfl,
    (), _, rfl, (), _, rfl, rfl, rfl⟩, ?_, ?_⟩
  · rw [alloc]
    show 4352 = (Legacy.allocate smallDevice.config oneLive (wmul (groupsOf 2) 1) 256).1
    decide
  · show ([s.mem 4096].sum) = 1
    rw [first]
    rfl
  · show ([s.mem 4096, s.mem 4097].sum) = 3
    rw [first, second]
    rfl

/-- The session on both memories; on the one memory it can end with the prefix sums. -/
theorem staging_refines_scan :
    (∃ s', smallDevice.Unified scanSession { mem := fun _ => 0 } s' ∧ s'.mem 4096 = 1 ∧ s'.mem 4097 = 3) ∧
    ∀ done, done <+: scanSession →
      smallDevice.Refines done { mem := fun _ => 0 } { host := fun _ => 0, dev := fun _ => 7 } := by
  have live : ∀ k < 2, LiveByte (blocks oneLive) (4096 + k) := fun k hk =>
    ⟨(4096, 256), by decide, by dsimp only; omega, by dsimp only; omega⟩
  have alloc : (Legacy.allocate smallDevice.config {} 8 256).2 = oneLive := by rw [oneLive_eq]
  have calls : ∀ {s : Launcher.Unified Nat}, s.alloc = oneLive → (∀ a, 4096 ≤ a → a < 4098 → s.init a) →
      smallDevice.Accepts (.scan "scan" "scan_add" 4096 2 1) s ∧ smallDevice.Careful (.scan "scan" "scan_add" 4096 2 1) s := by
    intro s alloc init
    have both := scanSession_scan alloc init
    exact ⟨⟨(by decide : smallDevice.context.contains 4096 = true), both.of_pre fun _ _ h => h.1⟩,
      Or.inr (both.of_pre fun _ _ h => h.2)⟩
  have written : ∀ a, 4096 ≤ a → a < 4098 →
      False ∨ 4096 ≤ a ∧ a < 4096 + [1, 2].length ∧ LiveByte (blocks (Legacy.allocate smallDevice.config {} 8 256).2) a := by
    intro a low high
    refine Or.inr ⟨low, high, ?_⟩
    rw [alloc, show a = 4096 + (a - 4096) by omega]
    exact live _ (by omega)
  refine ⟨?_, smallDevice.staging_refines scanSession _ _ ?_ ?_⟩
  · obtain ⟨s', run, first, second⟩ := scanSession_run (s := Launcher.Unified.store
      { alloc := (Legacy.allocate smallDevice.config {} 8 256).2, mem := fun _ => 0 } 4096 [1, 2]) alloc rfl rfl
    refine ⟨s', ⟨_, ⟨(4096 : Nat), _, ⟨?_, rfl⟩, rfl, rfl⟩, _, ⟨(), _, rfl, rfl, rfl⟩, _, run, rfl⟩, first, second⟩
    rw [oneLive_eq]
  · refine ⟨⟨trivial, trivial, fun _ _ _ => trivial⟩, fun s₁ run => ?_⟩
    obtain ⟨_, _, ⟨-, rfl⟩, -, rfl⟩ := run
    refine ⟨⟨trivial, Or.inl ?_, fun _ _ _ => trivial⟩, fun s₂ run => ?_⟩
    · rw [alloc]
      exact live
    · obtain ⟨_, _, rfl, -, rfl⟩ := run
      exact ⟨(calls alloc written).1, fun _ _ => trivial⟩
  · have room : Legacy.NoWrap {} 8 256 := Or.inr ⟨by decide, trivial, fun _ => ⟨by decide, by decide⟩⟩
    refine ⟨Or.inr ⟨room, fun _ _ _ => trivial⟩, fun s₁ run => ?_⟩
    obtain ⟨_, _, ⟨-, rfl⟩, -, rfl⟩ := run
    refine ⟨Or.inl ⟨4096, [1, 2], rfl⟩, fun s₂ run => ?_⟩
    obtain ⟨_, _, rfl, -, rfl⟩ := run
    exact ⟨(calls alloc written).2, fun _ _ => trivial⟩

end Parallax.Launcher
