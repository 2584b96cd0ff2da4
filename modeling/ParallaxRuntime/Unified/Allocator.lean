import ParallaxRuntime.Ownership.Ledger

/-!
# `parallax_umalloc` and `parallax_ufree`

`unified_allocator.cpp`: an allocation goes to the memory manager once the runtime is
initialised and to `std::malloc` before, while `initialize()` re-enters and after it failed.
A release goes to the manager whenever there is one, so a pointer of `std::malloc` that
outlives the initialisation is dropped as unknown.
-/

namespace Parallax.Unified
open Ownership

inductive Source where
  | manager
  | malloc
deriving DecidableEq

/-- `g_initialized`, `g_initializing` and `g_memory_manager`, whose keys in `buffers_` are listed. -/
structure Runtime where
  initialized : Bool := false
  initializing : Bool := false
  manager : Option (List Nat) := none

/-- `ensure_initialized` up to the call of `initialize()`, where it has something to do. -/
def enter (s : Runtime) : Option Runtime :=
  if s.initialized then none
  else if s.initializing then none
  else some { s with initializing := true }

/-- `ensure_initialized` once `initialize()` has answered. -/
def leave (s : Runtime) (ok : Bool) : Option Runtime :=
  if s.initializing then
    some (if !ok then { s with initializing := false }
      else { initialized := true, initializing := false, manager := some [] })
  else none

/-- `MemoryManager::allocate`; a null `answer` is a buffer that could not be created. -/
def allocate (buffers : List Nat) (answer : Nat) : List Nat := if answer = 0 then buffers else answer :: buffers

/-- `MemoryManager::deallocate`: an unknown pointer is reported and dropped. -/
def deallocate (buffers : List Nat) (p : Nat) : List Nat := if p ∈ buffers then buffers.erase p else buffers

/-- `parallax_umalloc` once `ensure_initialized` has returned. The allocator asked gives `answer`. -/
def umalloc (s : Runtime) (answer : Nat) : Runtime × List (Call Source) :=
  if s.initialized && s.manager.isSome then
    ({ s with manager := s.manager.map fun buffers => allocate buffers answer }, [.alloc .manager answer])
  else (s, [.alloc .malloc answer])

def ufree (s : Runtime) (p : Nat) : Runtime × List (Call Source) :=
  if s.manager.isSome then
    ({ s with manager := s.manager.map fun buffers => deallocate buffers p }, [.free .manager p])
  else (s, [.free .malloc p])

section
variable {s : Runtime} {buffers : List Nat} {p : Nat}

theorem umalloc_managed (ready : s.initialized = true) (found : s.manager = some buffers) :
    umalloc s p = ({ s with manager := some (allocate buffers p) }, [.alloc .manager p]) := by
  unfold umalloc
  rw [ready, found]
  rfl

theorem umalloc_unready (fresh : s.initialized = false) : umalloc s p = (s, [.alloc .malloc p]) := by
  unfold umalloc
  rw [fresh]
  rfl

theorem ufree_managed (found : s.manager = some buffers) :
    ufree s p = ({ s with manager := some (deallocate buffers p) }, [.free .manager p]) := by
  unfold ufree
  rw [found]
  rfl

theorem ufree_unmanaged (none : s.manager = none) : ufree s p = (s, [.free .malloc p]) := by
  unfold ufree
  rw [none]
  rfl

end

inductive Event where
  | enter
  | leave (ok : Bool)
  | umalloc (answer : Nat)
  | ufree (p : Nat)

/-- Runs of the runtime from a state with live pointers, with the calls they make. Allocations
and releases may come at any point, from inside `initialize()` too. No allocator answers
with a pointer in use, and the program frees what is live. -/
inductive Run : Runtime → List Nat → List Event → List (Call Source) → Prop
  | done (s : Runtime) (live : List Nat) : Run s live [] []
  | enter {s s' : Runtime} {live : List Nat} {events : List Event} {trace : List (Call Source)}
      (entered : enter s = some s') (rest : Run s' live events trace) : Run s live (.enter :: events) trace
  | leave {s s' : Runtime} {live : List Nat} {events : List Event} {trace : List (Call Source)} {ok : Bool}
      (left : leave s ok = some s') (rest : Run s' live events trace) : Run s live (.leave ok :: events) trace
  | umalloc {s : Runtime} {live : List Nat} {events : List Event} {trace : List (Call Source)} {p : Nat}
      (fresh : p ∉ live) (rest : Run (umalloc s p).1 (granted live p) events trace) :
      Run s live (.umalloc p :: events) ((umalloc s p).2 ++ trace)
  | ufree {s : Runtime} {live : List Nat} {events : List Event} {trace : List (Call Source)} {p : Nat}
      (hp : p ∈ live) (rest : Run (ufree s p).1 (live.erase p) events trace) :
      Run s live (.ufree p :: events) ((ufree s p).2 ++ trace)

/-- No pointer handed out before an initialisation succeeded is freed after it. `early` lists such
pointers, `ready` says whether it has. -/
def Timely (ready : Bool) (early : List Nat) : List Event → Prop
  | [] => True
  | .enter :: events => Timely ready early events
  | .leave ok :: events => Timely (ready || ok) early events
  | .umalloc p :: events => Timely ready (if ready then early else granted early p) events
  | .ufree p :: events => (ready = true → p ∉ early) ∧ Timely ready (early.erase p) events

/-- The ledger lists the program's pointers, the manager's being the keys of `buffers_`, and there
is a manager once the runtime is initialised. -/
structure Booked (s : Runtime) (L : Ledger Source) (live early : List Nat) : Prop where
  agree : (L.map Prod.snd).Perm live
  distinct : live.Nodup
  manager : s.manager.isSome = s.initialized
  idle : s.initialized = true → s.initializing = false
  known : (L.heldBy .manager).Perm (s.manager.getD [])
  early : (L.heldBy .malloc).Perm early

section
variable {s s' : Runtime} {L : Ledger Source} {live early : List Nat} {events : List Event}
  {trace : List (Call Source)} {p : Nat} {ok : Bool}

theorem Booked.unready (h : Booked s L live early) (fresh : s.initialized = false) : s.manager = none := by
  rw [← Option.not_isSome_iff_eq_none, h.manager, fresh]
  decide

theorem Booked.ready (h : Booked s L live early) (ready : s.initialized = true) :
    ∃ buffers, s.manager = some buffers ∧ (L.heldBy .manager).Perm buffers := by
  have known := h.known
  rw [← h.manager] at ready
  obtain ⟨buffers, found⟩ := Option.isSome_iff_exists.mp ready
  rw [found] at known
  exact ⟨buffers, found, known⟩

theorem Booked.enter (h : Booked s L live early) (entered : enter s = some s') :
    Booked s' L live early ∧ s'.initialized = s.initialized := by
  unfold Unified.enter at entered
  split at entered
  · cases entered
  · next fresh =>
    split at entered
    · cases entered
    · cases entered
      exact ⟨{ h with idle := fun ready => absurd ready fresh }, rfl⟩

theorem Booked.leave (h : Booked s L live early) (left : leave s ok = some s') :
    Booked s' L live early ∧ s'.initialized = (s.initialized || ok) := by
  unfold Unified.leave at left
  split at left
  · next busy =>
    have fresh : s.initialized = false := by
      by_contra ready
      rw [h.idle (by simpa using ready)] at busy
      cases busy
    cases ok with
    | false =>
      cases left
      exact ⟨{ h with idle := fun _ => rfl }, (Bool.or_false _).symm⟩
    | true =>
      have known := h.known
      rw [h.unready fresh] at known
      cases left
      exact ⟨{ h with manager := rfl, idle := fun _ => rfl, known := known }, (Bool.or_true _).symm⟩
  · cases left

theorem Booked.granted (fresh : p ∉ live) (h : live.Nodup) : (granted live p).Nodup := by
  unfold Ownership.granted
  split
  · exact h
  · exact List.nodup_cons.mpr ⟨fresh, h⟩

/-- An allocation settles, and the pointer is early until the runtime is initialised. -/
theorem Booked.umalloc (h : Booked s L live early) (fresh : p ∉ live) :
    ∃ L', L.settleAll (umalloc s p).2 = some L' ∧
      Booked (umalloc s p).1 L' (Ownership.granted live p) (if s.initialized then early else Ownership.granted early p) ∧
      (umalloc s p).1.initialized = s.initialized := by
  have distinct := Booked.granted fresh h.distinct
  cases ready : s.initialized with
  | true =>
    obtain ⟨buffers, found, known⟩ := h.ready ready
    have idle := h.idle ready
    rw [umalloc_managed ready found]
    refine ⟨_, Ledger.settleAll_singleton _, ⟨Ledger.map_granted h.agree, distinct, ready.symm, fun _ => idle, ?_, ?_⟩, ready⟩
    · unfold allocate
      rw [Option.getD_some]
      split
      · exact known
      · rw [Ledger.heldBy_cons_self]
        exact known.cons p
    · rw [if_pos rfl]
      split
      · exact h.early
      · rw [Ledger.heldBy_cons_other (by decide)]
        exact h.early
  | false =>
    rw [umalloc_unready ready]
    refine ⟨_, Ledger.settleAll_singleton _, ⟨Ledger.map_granted h.agree, distinct, h.manager, h.idle, ?_, ?_⟩, ready⟩
    · split
      · exact h.known
      · rw [Ledger.heldBy_cons_other (by decide)]
        exact h.known
    · unfold Ownership.granted
      rw [if_neg Bool.false_ne_true]
      split
      · exact h.early
      · rw [Ledger.heldBy_cons_self]
        exact h.early.cons p

/-- The owner of a live pointer is told by whether it is early. -/
theorem Booked.mem_early (h : Booked s L live early) (hp : p ∈ live) :
    (p ∈ early ∧ (Source.malloc, p) ∈ L ∧ (Source.manager, p) ∉ L) ∨
    (p ∉ early ∧ (Source.malloc, p) ∉ L ∧ (Source.manager, p) ∈ L) := by
  have unique := fun o o' => @Ledger.owner_unique _ L o o' p live h.agree h.distinct
  have early : p ∈ early ↔ (Source.malloc, p) ∈ L := h.early.mem_iff.symm.trans Ledger.mem_heldBy
  obtain ⟨⟨o, q⟩, held, rfl⟩ := List.mem_map.mp (h.agree.symm.subset hp)
  dsimp only at *
  cases o with
  | malloc => exact Or.inl ⟨early.mpr held, held, fun other => by cases unique _ _ held other⟩
  | manager =>
    have other : (Source.malloc, q) ∉ L := fun other => by cases unique _ _ held other
    exact Or.inr ⟨fun here => other (early.mp here), other, held⟩

/-- A release settles unless it comes late. -/
theorem Booked.ufree (h : Booked s L live early) (hp : p ∈ live) (timely : s.initialized = true → p ∉ early) :
    ∃ L', L.settleAll (ufree s p).2 = some L' ∧ Booked (ufree s p).1 L' (live.erase p) (early.erase p) ∧
      (ufree s p).1.initialized = s.initialized := by
  have distinct := h.distinct.erase p
  cases ready : s.initialized with
  | true =>
    obtain ⟨buffers, found, known⟩ := h.ready ready
    have idle := h.idle ready
    obtain ⟨here, -, -⟩ | ⟨late, -, held⟩ := h.mem_early hp
    · exact absurd here (timely ready)
    · have listed : p ∈ buffers := known.subset (Ledger.mem_heldBy.mpr held)
      rw [ufree_managed found]
      refine ⟨_, (Ledger.settleAll_singleton _).trans (Ledger.settle_free held),
        ⟨Ledger.map_erase held h.agree, distinct, ready.symm, fun _ => idle, ?_, ?_⟩, ready⟩
      · unfold deallocate
        rw [if_pos listed, Option.getD_some]
        exact (((Ledger.heldBy_erase held).symm.trans known).trans (List.perm_cons_erase listed)).cons_inv
      · rw [List.erase_of_not_mem late]
        exact (Ledger.heldBy_erase_other held (by decide)).symm.trans h.early
  | false =>
    have none := h.unready ready
    obtain ⟨here, held, -⟩ | ⟨-, -, held⟩ := h.mem_early hp
    · rw [ufree_unmanaged none]
      refine ⟨_, (Ledger.settleAll_singleton _).trans (Ledger.settle_free held),
        ⟨Ledger.map_erase held h.agree, distinct, h.manager, h.idle, ?_, ?_⟩, ready⟩
      · exact (Ledger.heldBy_erase_other held (by decide)).symm.trans h.known
      · exact (((Ledger.heldBy_erase held).symm.trans h.early).trans (List.perm_cons_erase here)).cons_inv
    · have known := h.known
      rw [none] at known
      cases known.subset (Ledger.mem_heldBy.mpr held)

theorem Booked.ufree_late (h : Booked s L live early) (hp : p ∈ live) (ready : s.initialized = true) (late : p ∈ early) :
    L.settleAll (Unified.ufree s p).2 = none := by
  obtain ⟨buffers, found, -⟩ := h.ready ready
  obtain ⟨-, -, other⟩ | ⟨no, -⟩ := h.mem_early hp
  · rw [ufree_managed found]
    exact (Ledger.settleAll_singleton _).trans (Ledger.settle_free_refused other)
  · exact absurd late no

/-- From a booked state the calls settle exactly if the releases are timely. -/
theorem Run.settles (run : Run s live events trace) :
    ∀ {L early}, Booked s L live early → ((L.settleAll trace).isSome = true ↔ Timely s.initialized early events) := by
  induction run with
  | done s live =>
    intro L early h
    simp [Timely]
  | enter entered rest ih =>
    intro L early h
    obtain ⟨h', same⟩ := h.enter entered
    rw [ih h', same]
    rfl
  | leave left rest ih =>
    intro L early h
    obtain ⟨h', same⟩ := h.leave left
    rw [ih h', same]
    rfl
  | umalloc fresh rest ih =>
    intro L early h
    obtain ⟨L', settled, h', same⟩ := h.umalloc fresh
    rw [Ledger.settleAll_append, settled, Option.bind_some, ih h', same]
    rfl
  | @ufree s live events trace p hp rest ih =>
    intro L early h
    unfold Timely
    by_cases timely : s.initialized = true → p ∉ early
    · obtain ⟨L', settled, h', same⟩ := h.ufree hp timely
      rw [Ledger.settleAll_append, settled, Option.bind_some, ih h', same]
      exact (and_iff_right timely).symm
    · have refused : L.settleAll (Unified.ufree s p).2 = none := by
        rw [Classical.not_imp, not_not] at timely
        exact h.ufree_late hp timely.1 timely.2
      rw [Ledger.settleAll_append, refused, Option.bind_none]
      exact ⟨fun no => (by cases no), fun both => absurd both.1 timely⟩

/-- In a run every pointer goes back to the allocator that produced it exactly if none that was
handed out before initialisation is freed after it. -/
theorem Run.settles_iff (run : Run {} [] events trace) : (replay trace).isSome = true ↔ Timely false [] events := by
  have fresh : Booked {} [] [] [] :=
    ⟨List.Perm.refl [], List.nodup_nil, rfl, fun no => (by cases no), List.Perm.refl [], List.Perm.refl []⟩
  exact run.settles fresh

end

theorem Run.settles_iff_retry : (replay [.alloc .malloc 4096, .free .malloc 4096, .alloc .manager 8192,
    .free .manager 8192] : Option (Ledger Source)).isSome = true := by
  have run : Run {} [] [.enter, .leave false, .umalloc 4096, .enter, .ufree 4096, .leave true, .umalloc 8192, .ufree 8192]
      [.alloc .malloc 4096, .free .malloc 4096, .alloc .manager 8192, .free .manager 8192] := by
    apply Run.enter rfl
    apply Run.leave rfl
    apply Run.umalloc (by decide)
    apply Run.enter rfl
    apply Run.ufree (by decide)
    apply Run.leave rfl
    apply Run.umalloc (by decide)
    apply Run.ufree (by decide)
    exact .done _ _
  refine (Run.settles_iff run).mpr ?_
  simp [Timely, granted]

/-- A pointer of `std::malloc`, handed out while `initialize()` re-entered and freed afterwards,
reaches the manager, which does not know it. -/
theorem stranded_reentrant_pointer : ∃ trace, Run {} [] [.enter, .umalloc 4096, .leave true, .ufree 4096] trace ∧
    trace = [.alloc .malloc 4096, .free .manager 4096] ∧ replay trace = none := by
  have run : Run {} [] [.enter, .umalloc 4096, .leave true, .ufree 4096]
      ([.alloc .malloc 4096] ++ ([.free .manager 4096] ++ [])) := by
    apply Run.enter rfl
    apply Run.umalloc (by decide)
    apply Run.leave rfl
    apply Run.ufree (by decide)
    exact .done _ _
  exact ⟨_, run, rfl, by decide⟩

end Parallax.Unified
