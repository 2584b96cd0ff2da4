import ParallaxRuntime.Effects.Trace
import ParallaxRuntime.Launcher.Staging

/-!
# Scopes of several threads

`g_arena_sync_depth` counts the scopes of all threads. Only the scope that finds it at 0 flushes, and only that scope
invalidates, if it is also the last to close.
-/

namespace Parallax.Launcher
open Memory Effects Arena

variable {β : Type}

/-- What wrote a cell last, and of a host write whether a flush came after it. -/
inductive LastWrite (β : Type) where
  | host (thread : Nat) (x : β) (flushed : Bool)
  | device (x : β)

def LastWrite.flush : LastWrite β → LastWrite β
  | host thread x _ => host thread x true
  | device x => device x

/-- The open scopes, the last opened first: the thread, and whether the scope's `arena` is set. -/
structure Threads (β : Type) where
  staged : Staged β
  scopes : List (Nat × Bool)
  last : Nat → Option (LastWrite β)

/-- The steps of the threads. A write is given cell by cell, a kernel's by the memory that it runs on. -/
inductive ThreadEvent (β : Type) where
  | hostWrite (thread : Nat) (w : Nat → Option β)
  | arena (alloc : Legacy.State)
  | enter (thread : Nat)
  | kernel (thread : Nat) (w : (Nat → β) → Nat → Option β)
  | leave (thread : Nat)

section
variable (c : Legacy.Config)

/-- `ArenaSyncScope()`, and whether `arena` is set. -/
def openScope (t : Staged β) : Staged β × Bool :=
  ({ (if t.depth = 0 then t.flushToDevice c else t) with depth := t.depth + 1 }, t.depth = 0)

/-- `~ArenaSyncScope()` -/
def closeScope (arena : Bool) (t : Staged β) : Staged β :=
  let t := { t with depth := t.depth - 1 }
  if t.depth = 0 ∧ arena then t.invalidateFromDevice c else t

/-- The part of the arena that the copies go over. -/
def InUse (alloc : Legacy.State) (a : Nat) : Prop := c.hostBase ≤ a ∧ a < c.hostBase + alloc.highWater

namespace Threads
variable (s : Threads β)

def Open (thread : Nat) : Prop := ∃ arena, (thread, arena) ∈ s.scopes

/-- A host write of the thread that no flush came after. -/
def Unflushed (thread : Nat) : Prop := ∃ a x, s.last a = some (.host thread x false)

/-- A thread in an operation runs the launcher's code, which writes nothing into the arena from the host. -/
def step (s : Threads β) : ThreadEvent β → Threads β → Prop
  | .hostWrite thread w, s' => ¬ s.Open thread ∧ (∀ a, (w a).isSome → InUse c s.staged.alloc a) ∧
    s' = { s with
      staged := { s.staged with host := overlay w s.staged.host }
      last := fun a => (w a).elim (s.last a) fun x => some (.host thread x false) }
  | .arena alloc, s' => s.staged.alloc.highWater ≤ alloc.highWater ∧ s' = { s with staged := { s.staged with alloc := alloc } }
  | .enter thread, s' => s' =
    { staged := (openScope c s.staged).1
      scopes := (thread, (openScope c s.staged).2) :: s.scopes
      last := if s.staged.depth = 0 then fun a => (s.last a).map LastWrite.flush else s.last }
  | .kernel thread w, s' => s.Open thread ∧ (∀ a, (w s.staged.dev a).isSome → InUse c s.staged.alloc a) ∧
    s' = { s with
      staged := { s.staged with dev := overlay (w s.staged.dev) s.staged.dev }
      last := fun a => (w s.staged.dev a).elim (s.last a) fun x => some (.device x) }
  | .leave thread, s' => ∃ arena, s.scopes.find? (·.1 = thread) = some (thread, arena) ∧
    s' = { s with staged := closeScope c arena s.staged, scopes := s.scopes.eraseP (·.1 = thread) }

end Threads

/-- A thread in an operation has its own writes on the device; with all scopes closed the host has the kernels' results,
and no write of the host is lost. -/
structure Migrated (s : Threads β) : Prop where
  sees : ∀ thread, s.Open thread → ∀ a x flushed, s.last a = some (.host thread x flushed) → s.staged.dev a = x
  results : s.staged.depth = 0 → ∀ a x, s.last a = some (.device x) → s.staged.host a = x
  kept : ∀ a thread x flushed, s.last a = some (.host thread x flushed) → s.staged.host a = x

/-- A scope that opens inside another's finds the writes of its thread flushed. The scope that closes last is the one that
opened first, and finds all writes flushed. -/
def ThreadEvent.Nested (s : Threads β) : ThreadEvent β → Prop
  | enter thread => s.staged.depth ≠ 0 → ¬ s.Unflushed thread
  | leave thread => s.staged.depth = 1 →
    s.scopes.find? (·.1 = thread) = some (thread, true) ∧ ∀ thread', ¬ s.Unflushed thread'
  | _ => True

/-- What the nested scopes keep. -/
structure Threads.Inv (s : Threads β) : Prop where
  depth : s.staged.depth = s.scopes.length
  inUse : ∀ a, (s.last a).isSome → InUse c s.staged.alloc a
  entered : ∀ thread, s.Open thread → ¬ s.Unflushed thread
  flushed : ∀ a thread x, s.last a = some (.host thread x true) → s.staged.dev a = x
  device : ∀ a x, s.last a = some (.device x) → s.staged.dev a = x
  results : s.staged.depth = 0 → ∀ a x, s.last a = some (.device x) → s.staged.host a = x
  kept : ∀ a thread x flushed, s.last a = some (.host thread x flushed) → s.staged.host a = x

/-- Nothing open and nothing written. -/
def Threads.idle (staged : Staged β) : Threads β := ⟨{ staged with depth := 0 }, [], fun _ => none⟩

end

/-! ### The scopes of one thread -/

section
variable {c : Legacy.Config} {t : Staged β}

theorem openScope_eq_enter : (openScope c t).1 = t.enter c := rfl

/-- Closed in the order of opening, a scope does what the nested scopes of one operation do. -/
theorem closeScope_eq_leave (deep : 0 < t.depth) : closeScope c (decide (t.depth = 1)) t = t.leave c := by
  unfold closeScope Staged.leave
  by_cases outer : t.depth = 1
  · simp [outer, Staged.invalidateFromDevice]
  · have inner : t.depth - 1 ≠ 0 := by omega
    simp [outer, inner]

end

section
variable {c : Legacy.Config} {s s' : Threads β} {e : ThreadEvent β} {thread : Nat}

theorem Threads.Inv.migrated (inv : s.Inv c) : Migrated s := by
  refine ⟨?_, inv.results, inv.kept⟩
  intro thread opened a x flushed here
  cases flushed with
  | true => exact inv.flushed a thread x here
  | false => exact absurd ⟨a, x, here⟩ (inv.entered thread opened)

theorem Threads.Inv.deep (inv : s.Inv c) (opened : s.Open thread) : s.staged.depth ≠ 0 := by
  obtain ⟨arena, here⟩ := opened
  rw [inv.depth]
  exact (List.length_pos_of_mem here).ne'

theorem written_iff {w : Option β} {last : Option (LastWrite β)} {by' : β → LastWrite β} {r : LastWrite β} :
    w.elim last (fun x => some (by' x)) = some r ↔ (∃ x, w = some x ∧ by' x = r) ∨ w = none ∧ last = some r := by
  cases w <;> simp

theorem overlay_some {w : Nat → Option β} {m : Nat → β} {a : Nat} {x : β} (written : w a = some x) : overlay w m a = x := by
  simp [overlay, written]

theorem overlay_none {w : Nat → Option β} {m : Nat → β} {a : Nat} (same : w a = none) : overlay w m a = m a := by
  simp [overlay, same]

theorem Threads.Inv.hostWrite (inv : s.Inv c) {w : Nat → Option β}
    (step : s.step c (.hostWrite thread w) s') : s'.Inv c := by
  obtain ⟨closed, inUse, rfl⟩ := step
  constructor
  case depth => exact inv.depth
  case inUse =>
    intro a here
    cases written : w a with
    | none => exact inv.inUse a (by simpa [written] using here)
    | some x => exact inUse a (by simp [written])
  case entered =>
    rintro other opened ⟨a, x, here⟩
    rcases written_iff.mp here with ⟨y, _, same⟩ | ⟨_, before⟩
    · cases same
      exact closed opened
    · exact inv.entered other opened ⟨a, x, before⟩
  case flushed =>
    intro a other x here
    rcases written_iff.mp here with ⟨y, _, same⟩ | ⟨_, before⟩
    · cases same
    · exact inv.flushed a other x before
  case device =>
    intro a x here
    rcases written_iff.mp here with ⟨y, _, same⟩ | ⟨_, before⟩
    · cases same
    · exact inv.device a x before
  case results =>
    intro top a x here
    rcases written_iff.mp here with ⟨y, _, same⟩ | ⟨other, before⟩
    · cases same
    · exact (overlay_none other).trans (inv.results top a x before)
  case kept =>
    intro a other x flushed here
    rcases written_iff.mp here with ⟨y, written, same⟩ | ⟨untouched, before⟩
    · cases same
      exact overlay_some written
    · exact (overlay_none untouched).trans (inv.kept a other x flushed before)

theorem Threads.Inv.kernel (inv : s.Inv c) {w : (Nat → β) → Nat → Option β}
    (step : s.step c (.kernel thread w) s') : s'.Inv c := by
  obtain ⟨opened, inUse, rfl⟩ := step
  constructor
  case depth => exact inv.depth
  case inUse =>
    intro a here
    cases written : w s.staged.dev a with
    | none => exact inv.inUse a (by simpa [written] using here)
    | some x => exact inUse a (by simp [written])
  case entered =>
    rintro other inside ⟨a, x, here⟩
    rcases written_iff.mp here with ⟨y, _, same⟩ | ⟨_, before⟩
    · cases same
    · exact inv.entered other inside ⟨a, x, before⟩
  case flushed =>
    intro a other x here
    rcases written_iff.mp here with ⟨y, _, same⟩ | ⟨untouched, before⟩
    · cases same
    · exact (overlay_none untouched).trans (inv.flushed a other x before)
  case device =>
    intro a x here
    rcases written_iff.mp here with ⟨y, written, same⟩ | ⟨untouched, before⟩
    · cases same
      exact overlay_some written
    · exact (overlay_none untouched).trans (inv.device a x before)
  case results => exact fun top => absurd top (inv.deep opened)
  case kept =>
    intro a other x flushed here
    rcases written_iff.mp here with ⟨y, _, same⟩ | ⟨_, before⟩
    · cases same
    · exact inv.kept a other x flushed before

/-- The outermost scope flushes everything that is in use. -/
theorem Threads.Inv.enter (inv : s.Inv c) (nested : ThreadEvent.Nested s (.enter thread))
    (step : s.step c (.enter thread) s') : s'.Inv c := by
  obtain rfl := step
  by_cases outer : s.staged.depth = 0
  · have copied : ∀ a, (s.last a).isSome → (openScope c s.staged).1.dev a = s.staged.host a := by
      intro a here
      have inside := inv.inUse a here
      simp only [openScope, outer, if_true, Staged.flushToDevice]
      exact copyRange_inside inside
    have host : (openScope c s.staged).1.host = s.staged.host := by simp [openScope, outer, Staged.flushToDevice]
    have alloc : (openScope c s.staged).1.alloc = s.staged.alloc := by simp [openScope, outer, Staged.flushToDevice]
    have depth : (openScope c s.staged).1.depth = s.staged.depth + 1 := rfl
    simp only [outer, if_true]
    constructor
    case depth =>
      simp only [depth, List.length_cons, inv.depth]
    case inUse =>
      intro a here
      rw [alloc]
      exact inv.inUse a (by simpa using here)
    case entered =>
      rintro other _ ⟨a, x, here⟩
      obtain ⟨l, _, same⟩ := Option.map_eq_some_iff.mp here
      cases l <;> cases same
    case flushed =>
      intro a other x here
      obtain ⟨l, before, same⟩ := Option.map_eq_some_iff.mp here
      cases l with
      | host _ y f =>
        cases same
        rw [copied a (by simp [before])]
        exact inv.kept a other x f before
      | device y => cases same
    case device =>
      intro a x here
      obtain ⟨l, before, same⟩ := Option.map_eq_some_iff.mp here
      cases l with
      | host _ y f => cases same
      | device y =>
        cases same
        rw [copied a (by simp [before])]
        exact inv.results outer a x before
    case results =>
      intro top
      rw [depth] at top
      cases top
    case kept =>
      intro a other x flushed here
      obtain ⟨l, before, same⟩ := Option.map_eq_some_iff.mp here
      cases l with
      | host _ y f =>
        cases same
        rw [host]
        exact inv.kept a other x f before
      | device y => cases same
  · have same : (openScope c s.staged).1 = { s.staged with depth := s.staged.depth + 1 } := by simp [openScope, outer]
    simp only [outer, if_false, same]
    refine ⟨?_, inv.inUse, ?_, inv.flushed, inv.device, fun top => (by cases top), inv.kept⟩
    · simp only [List.length_cons, inv.depth]
    · rintro other ⟨arena, here⟩
      rcases List.mem_cons.mp here with first | before
      · cases first
        exact nested outer
      · exact inv.entered other ⟨arena, before⟩

/-- The last scope to close takes the results back; any other does nothing. -/
theorem Threads.Inv.leave (inv : s.Inv c) (nested : ThreadEvent.Nested s (.leave thread))
    (step : s.step c (.leave thread) s') : s'.Inv c := by
  obtain ⟨arena, found, rfl⟩ := step
  have here : (thread, arena) ∈ s.scopes := List.mem_of_find?_eq_some found
  have fewer : (s.scopes.eraseP (·.1 = thread)).length = s.scopes.length - 1 :=
    List.length_eraseP_of_mem here (by simp)
  have still : ∀ other, (∃ arena, (other, arena) ∈ s.scopes.eraseP (·.1 = thread)) → s.Open other := by
    rintro other ⟨arena, rest⟩
    exact ⟨arena, List.mem_of_mem_eraseP rest⟩
  by_cases outer : s.staged.depth = 1
  · obtain ⟨first, all⟩ := nested outer
    rw [found] at first
    cases first
    have copied : ∀ a, (s.last a).isSome → (closeScope c true s.staged).host a = s.staged.dev a := by
      intro a here
      have inside := inv.inUse a here
      simp only [closeScope, outer, Staged.invalidateFromDevice]
      exact copyRange_inside inside
    have dev : (closeScope c true s.staged).dev = s.staged.dev := by simp [closeScope, outer, Staged.invalidateFromDevice]
    have alloc : (closeScope c true s.staged).alloc = s.staged.alloc := by
      simp [closeScope, outer, Staged.invalidateFromDevice]
    have depth : (closeScope c true s.staged).depth = 0 := by simp [closeScope, outer, Staged.invalidateFromDevice]
    constructor
    case depth =>
      have := inv.depth
      simp only [depth, fewer]
      omega
    case inUse =>
      intro a here
      rw [alloc]
      exact inv.inUse a here
    case entered => exact fun other inside => inv.entered other (still other inside)
    case flushed =>
      intro a other x here
      rw [dev]
      exact inv.flushed a other x here
    case device =>
      intro a x here
      rw [dev]
      exact inv.device a x here
    case results =>
      intro _ a x (here : s.last a = _)
      rw [copied a (by simp [here])]
      exact inv.device a x here
    case kept =>
      intro a other x flushed (here : s.last a = _)
      rw [copied a (by simp [here])]
      cases flushed with
      | true => exact inv.flushed a other x here
      | false => exact absurd ⟨a, x, here⟩ (all other)
  · have deep : s.staged.depth - 1 ≠ 0 := by
      have := inv.deep ⟨arena, here⟩
      omega
    have same : closeScope c arena s.staged = { s.staged with depth := s.staged.depth - 1 } := by
      simp [closeScope, deep]
    rw [same]
    refine ⟨?_, inv.inUse, fun other inside => inv.entered other (still other inside), inv.flushed, inv.device,
      fun top => absurd top deep, inv.kept⟩
    simp only [fewer, inv.depth]

theorem Threads.Inv.step (inv : s.Inv c) (nested : e.Nested s) (step : s.step c e s') : s'.Inv c := by
  cases e with
  | hostWrite => exact inv.hostWrite step
  | arena alloc =>
    obtain ⟨grown, rfl⟩ := step
    refine ⟨inv.depth, ?_, inv.entered, inv.flushed, inv.device, inv.results, inv.kept⟩
    intro a here
    obtain ⟨low, high⟩ := inv.inUse a here
    exact ⟨low, Nat.lt_of_lt_of_le high (Nat.add_le_add_left grown _)⟩
  | enter => exact inv.enter nested step
  | kernel => exact inv.kernel step
  | leave => exact inv.leave nested step

theorem Threads.idle_inv {staged : Staged β} : (Threads.idle staged).Inv c := by
  constructor <;> simp [Threads.idle, Unflushed]

/-- In a run of nested scopes every operation sees what its thread wrote and nothing is lost. -/
theorem migrated_of_nested {staged : Staged β} {steps : List (Threads β × ThreadEvent β)}
    (run : Trace (Threads.step c) (Threads.idle staged) steps s) (nested : ∀ t ∈ steps, t.2.Nested t.1) :
    Migrated s ∧ ∀ t ∈ steps, Migrated t.1 := by
  have keeps : ∀ t e t', (t, e) ∈ steps → t.Inv c → t.step c e t' → t'.Inv c :=
    fun t e t' here inv moved => inv.step (nested (t, e) here) moved
  constructor
  · exact (run.invariant Threads.idle_inv keeps).migrated
  · intro t here
    exact (run.along Threads.idle_inv keeps t here).migrated

/-! ### One thread alone -/

def ThreadEvent.Of (thread : Nat) : ThreadEvent β → Prop
  | hostWrite t _ | enter t | kernel t _ | leave t => t = thread
  | arena _ => True

/-- The outermost scope is the one at the end of the list, and what was written before it is flushed. -/
structure Threads.Alone (thread : Nat) (s : Threads β) : Prop where
  depth : s.staged.depth = s.scopes.length
  own : ∀ scope ∈ s.scopes, scope.1 = thread
  outermost : ∀ scope ∈ s.scopes.getLast?, scope.2 = true
  flushed : s.scopes ≠ [] → ∀ other, ¬ s.Unflushed other

theorem Threads.Alone.find (alone : s.Alone thread) : s.scopes.find? (·.1 = thread) = s.scopes.head? := by
  cases scopes : s.scopes with
  | nil => rfl
  | cons scope rest =>
    have own : scope.1 = thread := alone.own scope (by simp [scopes])
    simp [own]

theorem Threads.Alone.nested (alone : s.Alone thread) (own : e.Of thread) : e.Nested s := by
  cases e with
  | enter t =>
    intro inner
    apply alone.flushed
    intro none
    exact inner (by simp [alone.depth, none])
  | leave t =>
    obtain rfl : t = thread := own
    intro outer
    have one : s.scopes.length = 1 := alone.depth.symm.trans outer
    obtain ⟨scope, scopes⟩ := List.length_eq_one_iff.mp one
    have set : scope.2 = true := alone.outermost scope (by simp [scopes])
    have here : scope.1 = t := alone.own scope (by simp [scopes])
    refine ⟨?_, alone.flushed (by simp [scopes])⟩
    rw [alone.find, scopes, List.head?_cons, ← here, ← set]
  | _ => trivial

theorem Threads.Alone.step (alone : s.Alone thread) (own : e.Of thread) (step : s.step c e s') : s'.Alone thread := by
  cases e with
  | hostWrite t w =>
    obtain rfl : t = thread := own
    obtain ⟨closed, _, rfl⟩ := step
    have none : s.scopes = [] := by
      apply List.eq_nil_iff_forall_not_mem.mpr
      intro scope here
      exact closed ⟨scope.2, by rw [← alone.own scope here]; exact here⟩
    exact ⟨alone.depth, alone.own, alone.outermost, fun some => absurd none some⟩
  | arena alloc =>
    obtain ⟨_, rfl⟩ := step
    exact ⟨alone.depth, alone.own, alone.outermost, alone.flushed⟩
  | enter t =>
    obtain rfl : t = thread := own
    obtain rfl := step
    by_cases outer : s.staged.depth = 0
    · have none : s.scopes = [] := List.length_eq_zero_iff.mp (alone.depth.symm.trans outer)
      simp only [outer, if_true]
      refine ⟨by simp [openScope, none, outer], by simp [none], by simp [openScope, none, outer], ?_⟩
      rintro _ other ⟨a, x, here⟩
      obtain ⟨l, _, same⟩ := Option.map_eq_some_iff.mp here
      cases l <;> cases same
    · have some : s.scopes ≠ [] := fun none => outer (by simp [alone.depth, none])
      simp only [outer, if_false]
      refine ⟨by simp [openScope, alone.depth], ?_, ?_, fun _ => alone.flushed some⟩
      · intro scope here
        rcases List.mem_cons.mp here with rfl | before
        · rfl
        · exact alone.own scope before
      · obtain ⟨first, rest, scopes⟩ := List.exists_cons_of_ne_nil some
        rw [scopes, List.getLast?_cons_cons, ← scopes]
        exact alone.outermost
  | kernel t w =>
    obtain ⟨_, _, rfl⟩ := step
    refine ⟨alone.depth, alone.own, alone.outermost, ?_⟩
    rintro some other ⟨a, x, here⟩
    rcases written_iff.mp here with ⟨y, _, same⟩ | ⟨_, before⟩
    · cases same
    · exact alone.flushed some other ⟨a, x, before⟩
  | leave t =>
    obtain rfl : t = thread := own
    obtain ⟨arena, found, rfl⟩ := step
    rw [alone.find] at found
    obtain ⟨rest, scopes⟩ : ∃ rest, s.scopes = (t, arena) :: rest := by
      cases scopes : s.scopes with
      | nil => simp [scopes] at found
      | cons scope rest => exact ⟨rest, by simpa [scopes] using found⟩
    have erased : s.scopes.eraseP (·.1 = t) = rest := by simp [scopes]
    have depth : (closeScope c arena s.staged).depth = s.staged.depth - 1 := by
      unfold closeScope
      dsimp only
      split <;> rfl
    rw [erased]
    refine ⟨?_, ?_, ?_, fun _ => alone.flushed (by simp [scopes])⟩
    · simp [depth, alone.depth, scopes]
    · exact fun scope here => alone.own scope (by simp [scopes, here])
    · cases rest with
      | nil => simp
      | cons first rest =>
        have outermost := alone.outermost
        rw [scopes, List.getLast?_cons_cons] at outermost
        exact outermost

/-- Operations of one thread, nested or not, are in order. -/
theorem nested_of_alone {staged : Staged β} {steps : List (Threads β × ThreadEvent β)}
    (run : Trace (Threads.step c) (Threads.idle staged) steps s) (own : ∀ t ∈ steps, t.2.Of thread) :
    ∀ t ∈ steps, t.2.Nested t.1 := by
  have alone := run.along (I := Threads.Alone thread) (by constructor <;> simp [Threads.idle])
    fun t e t' here alone moved => alone.step (own (t, e) here) moved
  exact fun t here => (alone t here).nested (own t here)

end

/-! ### A cell and two threads -/

section
variable {c : Legacy.Config} {s : Threads β} (thread : Nat)

theorem hostWrite_step (w : Nat → Option β) (closed : ¬ s.Open thread)
    (inUse : ∀ a, (w a).isSome → InUse c s.staged.alloc a) :
    s.step c (.hostWrite thread w)
      { s with
        staged := { s.staged with host := overlay w s.staged.host }
        last := fun a => (w a).elim (s.last a) fun x => some (.host thread x false) } :=
  ⟨closed, inUse, rfl⟩

theorem enter_step : s.step c (.enter thread)
    { staged := (openScope c s.staged).1
      scopes := (thread, (openScope c s.staged).2) :: s.scopes
      last := if s.staged.depth = 0 then fun a => (s.last a).map LastWrite.flush else s.last } :=
  rfl

theorem kernel_step (w : (Nat → β) → Nat → Option β) (opened : s.Open thread)
    (inUse : ∀ a, (w s.staged.dev a).isSome → InUse c s.staged.alloc a) :
    s.step c (.kernel thread w)
      { s with
        staged := { s.staged with dev := overlay (w s.staged.dev) s.staged.dev }
        last := fun a => (w s.staged.dev a).elim (s.last a) fun x => some (.device x) } :=
  ⟨opened, inUse, rfl⟩

theorem leave_step (arena : Bool) (found : s.scopes.find? (·.1 = thread) = some (thread, arena)) :
    s.step c (.leave thread)
      { s with staged := closeScope c arena s.staged, scopes := s.scopes.eraseP (·.1 = thread) } :=
  ⟨arena, found, rfl⟩

end

def oneCell (x : Nat) : Nat → Option Nat := fun a => if a = 4096 then some x else none

def smallStaged : Staged Nat := ⟨{ highWater := 256 }, fun _ => 0, fun _ => 0, 0⟩

theorem oneCell_inUse {x a : Nat} (here : (oneCell x a).isSome) : InUse ⟨4096, 256⟩ { highWater := 256 } a := by
  have : a = 4096 := by
    by_contra other
    simp [oneCell, other] at here
  subst this
  exact ⟨Nat.le_refl _, by decide⟩

/-- One thread writes the cell and has a kernel change it. -/
theorem migrated_of_nested_alone : ∃ steps s, Trace (Threads.step ⟨4096, 256⟩) (Threads.idle smallStaged) steps s ∧
    s.last 4096 = some (.device 7) ∧ s.staged.depth = 0 ∧ Migrated s ∧ ∀ t ∈ steps, Migrated t.1 := by
  have written := (Trace.start : Trace (Threads.step ⟨4096, 256⟩) (Threads.idle smallStaged) _ _).next
    (hostWrite_step 0 (oneCell 5) (by simp [Threads.idle, Threads.Open]) fun _ => oneCell_inUse)
  have entered := written.next (enter_step 0)
  have ran := entered.next (kernel_step 0 (fun _ => oneCell 7) ⟨true, by decide⟩ fun _ => oneCell_inUse)
  have left := ran.next (leave_step 0 true rfl)
  have nested := @nested_of_alone _ _ _ 0 _ _ left (by simp [ThreadEvent.Of])
  exact ⟨_, _, left, rfl, rfl, migrated_of_nested left nested⟩

/-- The scope that opened first closes first, and nobody takes the results back. -/
theorem overlapping_scopes_lose_results : ¬ ∀ (steps : List (Threads Nat × ThreadEvent Nat)) (s : Threads Nat),
    Trace (Threads.step ⟨4096, 256⟩) (Threads.idle smallStaged) steps s → Migrated s := by
  intro migrated
  have first := (Trace.start : Trace (Threads.step ⟨4096, 256⟩) (Threads.idle smallStaged) _ _).next (enter_step 0)
  have second := first.next (enter_step 1)
  have closed := second.next (leave_step 0 true rfl)
  have ran := closed.next (kernel_step 1 (fun _ => oneCell 7) ⟨false, by decide⟩ fun _ => oneCell_inUse)
  have left := ran.next (leave_step 1 false rfl)
  have lost := (migrated _ _ left).results rfl 4096 7 rfl
  cases lost

end Parallax.Launcher
