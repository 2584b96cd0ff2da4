import ParallaxRuntime.Elementwise.OwnSets

/-!
# What the calls of a run have asked for

Which buffer each pointer was given, for which pointers and bytes the bindings of each cached set were
last written, and when each address was last written to. All of it follows from the calls and from
what Vulkan answered.
-/

namespace Parallax.Elementwise
open Memory Launcher

/-- A buffer that a pointer was given: how many there were before, its size, and where it is mapped. -/
structure Registration where
  number : Nat
  size : Nat
  base : Nat

inductive Place where
  | arena
  | buffer (r : Registration)

/-- What a binding was written for, and the range it was given. -/
structure Slot where
  pointer : Nat
  place : Place
  range : Option Nat

/-- `touched` says how many buffers there were when an address was last written to. -/
structure History where
  made : Nat
  registered : Nat → Option Registration
  written : String × Nat → Option (Slot × Option Slot)
  touched : Nat → Nat

section
variable {β : Type}

/-- The key under which a call looks for a set. -/
def Call.key : Call β → Option (String × Nat)
  | .launch kernel buffer _ _ | .launchWithCaptures kernel buffer _ _ _ => some (kernel, buffer)
  | .launchTransform kernel _ output _ _ _ captures => if captures = [] then some (kernel, output) else none

end

namespace History

def write (h : History) (p n : Nat) : History :=
  { h with touched := fun a => if p ≤ a ∧ a < p + n then h.made else h.touched a }

def make (h : History) (p size base : Nat) : History :=
  { h with made := h.made + 1, registered := Function.update h.registered p (some ⟨h.made, size, base⟩) }

def free (h : History) (p : Nat) : History := { h with registered := Function.update h.registered p none }

/-- A buffer that is registered is written to before anything else is made. -/
def register (h : History) (p size : Nat) (created : Option Nat) : History :=
  if p = 0 ∨ size = 0 ∨ (h.registered p).isSome then h
  else created.elim h fun base => (h.write base size).make p size base

section
variable {β : Type} (ctx : Context) (o : Outcome) (h : History)

/-- A launch registers a pointer that it does not know. -/
def reach (p size : Nat) : History := if ctx.contains p then h else h.register p size (o.created p)

def place (p : Nat) : Option Place := if ctx.contains p then some .arena else (h.registered p).map .buffer

/-- The address at which a pointer's memory is for a kernel. -/
def address (p : Nat) : Nat := if ctx.contains p then p else (h.registered p).elim p Registration.base

/-- Both pointers of a call are looked up. -/
def reached (c : Call β) : History :=
  match c with
  | .launch _ buffer count es | .launchWithCaptures _ buffer count _ es => h.reach ctx o buffer (wmul count es)
  | .launchTransform _ input output count es outEs _ =>
    (h.reach ctx o input (wmul count es)).reach ctx o output (wmul count (outElemSize es outEs))

/-- What the call would write into a set of its own, with its pointers where they are then. -/
def fresh (c : Call β) : Option (Slot × Option Slot) :=
  match c with
  | .launch _ buffer count es =>
    ((h.reach ctx o buffer (wmul count es)).place ctx buffer).map fun l => (⟨buffer, l, some (wmul count es)⟩, none)
  | .launchWithCaptures _ buffer count _ es =>
    ((h.reach ctx o buffer (wmul count es)).place ctx buffer).map fun l => (⟨buffer, l, wholeIfZero (wmul count es)⟩, none)
  | .launchTransform _ input output count es outEs _ =>
    ((h.reach ctx o input (wmul count es)).place ctx input).bind fun l =>
      ((h.reached ctx o c).place ctx output).map fun l' =>
        (⟨input, l, wholeIfZero (wmul count es)⟩, some ⟨output, l', wholeIfZero (wmul count (outElemSize es outEs))⟩)

/-- The set that is cached for the call. -/
def found (c : Call β) : Option (Slot × Option Slot) := c.key.bind h.written

/-- What the set in use was written for. `launch` writes its binding whether or not it found the set. -/
def used (c : Call β) (slots : Slot × Option Slot) : Slot × Option Slot :=
  match c, h.found c with
  | _, none => slots
  | .launch _ _ _ _, some old => (slots.1, old.2)
  | _, some old => old

/-- Nothing stops the call from dispatching. -/
def Dispatches (c : Call β) : Prop :=
  ctx.loaded c.kernel = true ∧ (h.fresh ctx o c).isSome ∧ ((h.found c).isSome ∨ o.allocatesSet = true) ∧
    o.submits = true

def bind (key : Option (String × Nat)) (slots : Slot × Option Slot) : History :=
  key.elim h fun key => { h with written := Function.update h.written key (some slots) }

/-- After a call, whether or not it was submitted. -/
def call (c : Call β) : History :=
  if ctx.loaded c.kernel = true then
    if (h.found c).isSome ∨ o.allocatesSet = true then
      (h.fresh ctx o c).elim (h.reached ctx o c) fun slots => (h.reached ctx o c).bind c.key (h.used c slots)
    else h.reached ctx o c
  else h

end

end History

/-! ### The launcher and the history -/

section
variable {β : Type} (ctx : Context)

def Place.resolved : Place → Nat → BufferRef × Nat
  | .arena, p => (.arena, ctx.offsetOf p)
  | .buffer r, _ => (.external r.number, 0)

def Slot.binding (slot : Slot) : Binding :=
  ⟨(slot.place.resolved ctx slot.pointer).1, (slot.place.resolved ctx slot.pointer).2, slot.range⟩

/-- `r` is the buffer that `p` was given. -/
def History.Owns (h : History) (p : Nat) (r : Registration) : Prop :=
  r.number < h.made ∧ ∀ q r', h.registered q = some r' → r'.number = r.number → q = p ∧ r' = r

def History.Made (h : History) (slot : Slot) : Prop :=
  match slot.place with
  | .arena => ctx.contains slot.pointer = true
  | .buffer r => h.Owns slot.pointer r

/-- The manager's buffers are those of the history. -/
structure History.TracksBuffers (m : MemoryManager β) (h : History) : Prop where
  made : m.created = h.made
  buffers : ∀ p, (m.buffers p).map (fun b => (b.handle, b.size)) = (h.registered p).map fun r => (r.number, r.size)
  mapped : ∀ p r, h.registered p = some r → m.mapping r.number = r.base
  owned : ∀ p r, h.registered p = some r → h.Owns p r

/-- And the cached sets were written for what the history says. -/
structure History.Tracks (s : KernelLauncher β) (h : History) : Prop extends h.TracksBuffers s.manager where
  cached : ∀ key, (s.cache key).map (fun set => (set.binding0, set.binding1)) =
    (h.written key).map fun w => (some (w.1.binding ctx), w.2.map (Slot.binding ctx))
  valid : ∀ key w, h.written key = some w → h.Made ctx w.1 ∧ ∀ slot ∈ w.2, h.Made ctx slot

end

section
variable {β : Type} {ctx : Context} {o : Outcome} {m : MemoryManager β} {h h' : History} {p q n size base : Nat} {r : Registration}

namespace History

/-! ### One buffer more or less -/

/-- What was owned still is. -/
def Keeps (h h' : History) : Prop := ∀ {p r}, h.Owns p r → h'.Owns p r

theorem keeps_make : h.Keeps (h.make p size base) := by
  intro q r ⟨lt, unique⟩
  refine ⟨Nat.lt_succ_of_lt lt, fun q' r' registered number => ?_⟩
  simp only [make] at registered
  by_cases same : q' = p
  · subst same
    rw [Function.update_self, Option.some.injEq] at registered
    subst registered
    exact absurd number (Nat.ne_of_gt lt)
  · rw [Function.update_of_ne same] at registered
    exact unique q' r' registered number

theorem keeps_free : h.Keeps (h.free p) := by
  intro q r ⟨lt, unique⟩
  refine ⟨lt, fun q' r' registered number => ?_⟩
  simp only [free] at registered
  by_cases same : q' = p
  · subst same
    rw [Function.update_self] at registered
    cases registered
  · rw [Function.update_of_ne same] at registered
    exact unique q' r' registered number

theorem keeps_register {created : Option Nat} : h.Keeps (h.register p size created) := by
  intro q r owns
  unfold register
  split
  · exact owns
  · cases created with
    | none => exact owns
    | some base => exact keeps_make owns

theorem keeps_reach : h.Keeps (h.reach ctx o p size) := by
  intro q r owns
  unfold reach
  split
  · exact owns
  · exact keeps_register owns

theorem Made.mono {slot : Slot} (made : h.Made ctx slot) (keeps : h.Keeps h') : h'.Made ctx slot := by
  unfold Made at *
  split
  · next arena =>
    rw [arena] at made
    exact made
  · next r buffer =>
    rw [buffer] at made
    exact keeps made

theorem TracksBuffers.store (t : h.TracksBuffers m) (p size base : Nat) : (h.make p size base).TracksBuffers (m.store p size base) where
  made := congrArg (· + 1) t.made
  buffers q := by
    simp only [MemoryManager.store, make]
    by_cases same : q = p
    · subst same
      simp [t.made]
    · rw [Function.update_of_ne same, Function.update_of_ne same]
      exact t.buffers q
  mapped q r registered := by
    simp only [MemoryManager.store, make] at registered ⊢
    by_cases same : q = p
    · subst same
      rw [Function.update_self, Option.some.injEq] at registered
      subst registered
      rw [← t.made, Function.update_self]
    · rw [Function.update_of_ne same] at registered
      have lt := (t.owned q r registered).1
      rw [← t.made] at lt
      rw [Function.update_of_ne (Nat.ne_of_lt lt)]
      exact t.mapped q r registered
  owned q r registered := by
    by_cases same : q = p
    · subst same
      refine ⟨?_, fun q' r' registered' number => ?_⟩
      · simp only [make, Function.update_self, Option.some.injEq] at registered
        subst registered
        exact Nat.lt_succ_self _
      · simp only [make] at registered registered'
        rw [Function.update_self, Option.some.injEq] at registered
        subst registered
        by_cases same' : q' = q
        · subst same'
          rw [Function.update_self, Option.some.injEq] at registered'
          exact ⟨rfl, registered'.symm⟩
        · rw [Function.update_of_ne same'] at registered'
          exact absurd number (Nat.ne_of_lt (t.owned q' r' registered').1)
    · have old : h.registered q = some r := by simpa only [make, Function.update_of_ne same] using registered
      exact keeps_make (t.owned q r old)

theorem TracksBuffers.withMemory (t : h.TracksBuffers m) (memory : Nat → β) : h.TracksBuffers { m with memory := memory } :=
  ⟨t.made, t.buffers, t.mapped, t.owned⟩

theorem TracksBuffers.write (t : h.TracksBuffers m) (p n : Nat) : (h.write p n).TracksBuffers m :=
  ⟨t.made, t.buffers, t.mapped, t.owned⟩

theorem TracksBuffers.mapBlocks (t : h.TracksBuffers m) (p : Nat) (f : List DirtyBlock → List DirtyBlock) :
    h.TracksBuffers (m.mapBlocks p f) where
  made := t.made
  buffers q := by
    rw [← t.buffers q]
    simp only [MemoryManager.mapBlocks]
    by_cases same : q = p
    · subst same
      simp [Option.map_map, Function.comp_def]
    · rw [Function.update_of_ne same]
  mapped := t.mapped
  owned := t.owned

theorem TracksBuffers.isNone (t : h.TracksBuffers m) (p : Nat) : (m.buffers p).isNone = (h.registered p).isNone := by
  have same := t.buffers p
  cases known : m.buffers p with
  | none =>
    rw [known, Option.map_none] at same
    rw [Option.map_eq_none_iff.mp same.symm]
    rfl
  | some b =>
    cases registered : h.registered p with
    | none =>
      rw [known, registered] at same
      cases same
    | some r => rfl

theorem TracksBuffers.deallocate (t : h.TracksBuffers m) (p : Nat) : (h.free p).TracksBuffers (m.deallocate p) := by
  have gone : (m.deallocate p).buffers = Function.update m.buffers p none := by
    unfold MemoryManager.deallocate
    split
    · next unknown => rw [Function.update_eq_self_iff.mpr (Option.isNone_iff_eq_none.mp unknown).symm]
    · rfl
  have rest : (m.deallocate p).created = m.created ∧ (m.deallocate p).mapping = m.mapping := by
    unfold MemoryManager.deallocate
    split
    · exact ⟨rfl, rfl⟩
    · exact ⟨rfl, rfl⟩
  have old : ∀ q r, (h.free p).registered q = some r → h.registered q = some r := by
    intro q r registered
    simp only [free] at registered
    by_cases same : q = p
    · subst same
      rw [Function.update_self] at registered
      cases registered
    · rwa [Function.update_of_ne same] at registered
  refine ⟨rest.1.trans t.made, fun q => ?_, fun q r registered => ?_, fun q r registered => keeps_free (t.owned q r (old q r registered))⟩
  · rw [gone]
    simp only [free]
    by_cases same : q = p
    · subst same
      simp
    · rw [Function.update_of_ne same, Function.update_of_ne same]
      exact t.buffers q
  · rw [rest.2]
    exact t.mapped q r (old q r registered)

theorem TracksBuffers.register_cases (t : h.TracksBuffers m) (p size : Nat) (created : Option Nat) :
    (h.register p size created = h ∧ m.registerExternalBuffer p size created = m) ∨
    ∃ base ∈ created, h.register p size created = (h.write base size).make p size base ∧
      m.registerExternalBuffer p size created = { m.store p size base with memory := memcpy m.memory base p size } := by
  have known : (m.buffers p).isSome ↔ (h.registered p).isSome := by
    rw [Option.isSome_iff_ne_none, Option.isSome_iff_ne_none, ne_eq, ne_eq, ← Option.isNone_iff_eq_none, t.isNone,
      Option.isNone_iff_eq_none]
  unfold MemoryManager.registerExternalBuffer History.register
  by_cases nothing : p = 0 ∨ size = 0
  · rw [if_pos nothing, if_pos (nothing.imp_right Or.inl)]
    exact Or.inl ⟨rfl, rfl⟩
  · rw [if_neg nothing]
    by_cases there : (m.buffers p).isSome
    · rw [if_pos there, if_pos (Or.inr (Or.inr (known.mp there)))]
      exact Or.inl ⟨rfl, rfl⟩
    · rw [if_neg there, if_neg (by rw [← known, ← or_assoc]; exact not_or.mpr ⟨nothing, there⟩)]
      cases created with
      | none => exact Or.inl ⟨rfl, rfl⟩
      | some base => exact Or.inr ⟨base, rfl, rfl, rfl⟩

theorem TracksBuffers.register (t : h.TracksBuffers m) (p size : Nat) (created : Option Nat) :
    (h.register p size created).TracksBuffers (m.registerExternalBuffer p size created) := by
  obtain ⟨same, same'⟩ | ⟨base, -, same, same'⟩ := t.register_cases p size created
  · rw [same, same']
    exact t
  · rw [same, same']
    exact ((t.write base size).store p size base).withMemory _

variable (m h) in
/-- Looking a pointer up registers it if it is outside of the arena, and flushes. -/
theorem resolve_cases (ctx : Context) (o : Outcome) (p n : Nat) :
    (h.reach ctx o p n = h ∧ (Elementwise.resolve ctx o m p n).1 = m) ∨
    (h.reach ctx o p n = h.register p n (o.created p) ∧
      (Elementwise.resolve ctx o m p n).1 = (m.registerExternalBuffer p n (o.created p)).syncBeforeKernel p) := by
  unfold Elementwise.resolve reach
  split
  · exact Or.inl ⟨rfl, rfl⟩
  · refine Or.inr ⟨rfl, ?_⟩
    dsimp only
    split
    · rfl
    · next there =>
      have known : (m.buffers p).isSome := Option.isSome_iff_ne_none.mpr fun none => there (by rw [none]; rfl)
      unfold MemoryManager.registerExternalBuffer
      rw [if_pos known, ite_self]

theorem TracksBuffers.resolve (t : h.TracksBuffers m) (ctx : Context) (o : Outcome) (p n : Nat) :
    (h.reach ctx o p n).TracksBuffers (Elementwise.resolve ctx o m p n).1 := by
  obtain ⟨same, same'⟩ | ⟨same, same'⟩ := resolve_cases m h ctx o p n
  · rw [same, same']
    exact t
  · rw [same, same']
    exact (t.register p n _).mapBlocks p _

theorem TracksBuffers.resolved (t : h.TracksBuffers m) (ctx : Context) (o : Outcome) (p n : Nat) :
    (Elementwise.resolve ctx o m p n).2 = ((h.reach ctx o p n).place ctx p).map fun l => l.resolved ctx p := by
  have after := (t.resolve ctx o p n).buffers p
  unfold Elementwise.resolve place at *
  by_cases inside : ctx.contains p = true
  · rw [if_pos inside, if_pos inside]
    rfl
  · rw [if_neg inside] at after ⊢
    rw [if_neg inside]
    dsimp only at after ⊢
    simp only [MemoryManager.syncBeforeKernel, MemoryManager.mapBlocks, Function.update_self, Option.map_map,
      Function.comp_def] at after
    have handles := congrArg (Option.map fun b : Nat × Nat => (BufferRef.external b.1, 0)) after
    simpa only [Option.map_map, Function.comp_def, Place.resolved] using handles

/-! ### Calls -/

variable {s : KernelLauncher β} {kernel : String} {key : String × Nat}

theorem Tracks.mono (t : h.Tracks ctx s) {manager : MemoryManager β} (buffers : h'.TracksBuffers manager)
    (same : h'.written = h.written) (keeps : h.Keeps h') : h'.Tracks ctx { s with manager := manager } where
  toTracksBuffers := buffers
  cached key := by
    rw [same]
    exact t.cached key
  valid key w written := by
    rw [same] at written
    obtain ⟨first, second⟩ := t.valid key w written
    exact ⟨first.mono keeps, fun slot member => (second slot member).mono keeps⟩

theorem written_register {created : Option Nat} : (h.register p size created).written = h.written := by
  unfold register
  split
  · rfl
  · cases created with
    | none => rfl
    | some base => rfl

theorem written_reach : (h.reach ctx o p n).written = h.written := by
  unfold reach
  split
  · rfl
  · exact written_register

theorem Tracks.resolve (t : h.Tracks ctx s) (o : Outcome) (p n : Nat) :
    (h.reach ctx o p n).Tracks ctx { s with manager := (Elementwise.resolve ctx o s.manager p n).1 } :=
  t.mono (t.toTracksBuffers.resolve ctx o p n) written_reach keeps_reach

/-- Both slots of a set were made for the pointers they name. -/
def MadeFor (ctx : Context) (h : History) (slots : Slot × Option Slot) : Prop :=
  h.Made ctx slots.1 ∧ ∀ slot ∈ slots.2, h.Made ctx slot

theorem MadeFor.mono {slots : Slot × Option Slot} (made : h.MadeFor ctx slots) (keeps : h.Keeps h') : h'.MadeFor ctx slots :=
  ⟨made.1.mono keeps, fun slot member => (made.2 slot member).mono keeps⟩

theorem Tracks.bind (t : h.Tracks ctx s) {w : Slot × Option Slot} (made : h.MadeFor ctx w)
    {set : DescriptorSet β} {sets : Nat} (first : set.binding0 = some (w.1.binding ctx)) (second : set.binding1 = w.2.map (Slot.binding ctx)) :
    (h.bind (some key) w).Tracks ctx { s with cache := Function.update s.cache key (some set), sets := sets } where
  made := t.made
  buffers := t.buffers
  mapped := t.mapped
  owned := t.owned
  cached key' := by
    simp only [History.bind, Option.elim_some]
    by_cases same : key' = key
    · subst same
      simp [first, second]
    · rw [Function.update_of_ne same, Function.update_of_ne same]
      exact t.cached key'
  valid key' w' written := by
    simp only [History.bind, Option.elim_some] at written
    by_cases same : key' = key
    · subst same
      rw [Function.update_self, Option.some.injEq] at written
      subst written
      exact made
    · rw [Function.update_of_ne same] at written
      exact t.valid key' w' written

theorem Tracks.found (t : h.Tracks ctx s) {set : DescriptorSet β} (cached : s.cache key = some set) :
    ∃ w, h.written key = some w ∧ set.binding0 = some (w.1.binding ctx) ∧ set.binding1 = w.2.map (Slot.binding ctx) := by
  have same := t.cached key
  rw [cached, Option.map_some] at same
  obtain ⟨w, written, bindings⟩ := Option.map_eq_some_iff.mp same.symm
  obtain ⟨first, second⟩ := Prod.mk.inj bindings
  exact ⟨w, written, first.symm, second.symm⟩

theorem Tracks.absent (t : h.Tracks ctx s) (cached : s.cache key = none) : h.written key = none := by
  have same := t.cached key
  rw [cached, Option.map_none] at same
  exact Option.map_eq_none_iff.mp same.symm

/-- What a pointer has now was made for it. -/
theorem TracksBuffers.made_place (t : h.TracksBuffers m) {l : Place} (here : h.place ctx p = some l) {range : Option Nat} :
    h.Made ctx ⟨p, l, range⟩ := by
  unfold place at here
  split at here
  · next inside =>
    cases here
    exact inside
  · obtain ⟨r, registered, rfl⟩ := Option.map_eq_some_iff.mp here
    exact t.owned p r registered

theorem keeps_reached {c : Call β} : h.Keeps (h.reached ctx o c) := by
  intro q r owns
  cases c with
  | launch | launchWithCaptures => exact keeps_reach owns
  | launchTransform => exact keeps_reach (keeps_reach owns)

theorem TracksBuffers.madeFresh (t : h.TracksBuffers m) {c : Call β} {slots : Slot × Option Slot} (fresh : h.fresh ctx o c = some slots) :
    (h.reached ctx o c).MadeFor ctx slots := by
  cases c with
  | launch kernel buffer count es =>
    obtain ⟨l, here, rfl⟩ := Option.map_eq_some_iff.mp fresh
    exact ⟨(t.resolve ctx o buffer (wmul count es)).made_place here, by simp⟩
  | launchWithCaptures kernel buffer count captures es =>
    obtain ⟨l, here, rfl⟩ := Option.map_eq_some_iff.mp fresh
    exact ⟨(t.resolve ctx o buffer (wmul count es)).made_place here, by simp⟩
  | launchTransform kernel input output count es outEs captures =>
    have once := t.resolve ctx o input (wmul count es)
    have twice := once.resolve ctx o output (wmul count (outElemSize es outEs))
    obtain ⟨l, here, rest⟩ := Option.bind_eq_some_iff.mp fresh
    obtain ⟨l', here', rfl⟩ := Option.map_eq_some_iff.mp rest
    refine ⟨(once.made_place here).mono keeps_reach, fun slot member => ?_⟩
    obtain rfl := Option.some.inj member
    exact twice.made_place here'

theorem Tracks.madeUsed (t : h.Tracks ctx s) {c : Call β} {slots : Slot × Option Slot} (fresh : h.fresh ctx o c = some slots) :
    (h.reached ctx o c).MadeFor ctx (h.used c slots) := by
  have new := t.toTracksBuffers.madeFresh fresh
  unfold used
  cases found : h.found c with
  | none => exact new
  | some old =>
    have valid : (h.reached ctx o c).MadeFor ctx old := by
      obtain ⟨key, -, written⟩ := Option.bind_eq_some_iff.mp found
      exact MadeFor.mono (t.valid key old written) keeps_reached
    cases c with
    | launch => exact ⟨new.1, valid.2⟩
    | launchWithCaptures | launchTransform => exact valid

/-- A dispatch, if there is one, has the set that the history says, and leaves the launcher in step with it. -/
structure Follows (ctx : Context) (o : Outcome) (h : History) (c : Call β) (r : KernelLauncher β × Option (Executed β)) : Prop where
  tracks : (h.call ctx o c).Tracks ctx r.1
  dispatches : r.2.isSome ↔ h.Dispatches ctx o c
  set : ∀ e ∈ r.2, ∃ slots ∈ h.fresh ctx o c, e.set.binding0 = some ((h.used c slots).1.binding ctx) ∧
    e.set.binding1 = (h.used c slots).2.map (Slot.binding ctx)

section
variable {c : Call β} {slots old : Slot × Option Slot} {set : DescriptorSet β} {count : Nat}

theorem written_reached : (h.reached ctx o c).written = h.written := by
  cases c with
  | launch | launchWithCaptures => exact written_reach
  | launchTransform => exact written_reach.trans written_reach

theorem call_loaded (loaded : ctx.loaded c.kernel = true) :
    ∃ written, h.call ctx o c = { h.reached ctx o c with written := written } := by
  rw [call, if_pos loaded]
  split
  · cases h.fresh ctx o c with
    | none => exact ⟨_, rfl⟩
    | some slots =>
      rw [Option.elim_some]
      unfold bind
      cases c.key with
      | none => exact ⟨_, rfl⟩
      | some key => exact ⟨_, rfl⟩
  · exact ⟨_, rfl⟩

theorem call_unloaded (unloaded : ctx.loaded c.kernel = false) : h.call ctx o c = h := if_neg (by rw [unloaded]; decide)

theorem TracksBuffers.of_call (t : (h.call ctx o c).TracksBuffers m) (loaded : ctx.loaded c.kernel = true) :
    (h.reached ctx o c).TracksBuffers m := by
  obtain ⟨written, same⟩ := call_loaded (h := h) (o := o) loaded
  rw [same] at t
  exact ⟨t.made, t.buffers, t.mapped, t.owned⟩

theorem follows_unloaded (t : h.Tracks ctx s) (unloaded : ctx.loaded c.kernel = false) : Follows ctx o h c (s, none) where
  tracks := by
    rw [call_unloaded unloaded]
    exact t
  dispatches := by simp [Dispatches, unloaded]
  set := by simp

theorem follows_nowhere (t : (h.reached ctx o c).Tracks ctx s) (loaded : ctx.loaded c.kernel = true)
    (nowhere : h.fresh ctx o c = none) : Follows ctx o h c (s, none) where
  tracks := by
    rw [call, if_pos loaded]
    rw [nowhere, Option.elim_none, ite_self]
    exact t
  dispatches := by simp [Dispatches, nowhere]
  set := by simp

theorem follows_new {key : Option (String × Nat)} (known : c.key = key) (t : (h.reached ctx o c).Tracks ctx s) (loaded : ctx.loaded c.kernel = true)
    (fresh : h.fresh ctx o c = some slots) (absent : h.found c = none)
    (made : (h.reached ctx o c).MadeFor ctx slots) (first : set.binding0 = some (slots.1.binding ctx))
    (second : set.binding1 = slots.2.map (Slot.binding ctx)) :
    Follows ctx o h c (submitNew ctx o s key c.kernel set count) := by
  subst known
  have own : h.used c slots = slots := by
    unfold used
    rw [absent]
  refine ⟨?_, ?_, fun e executed => ⟨slots, fresh, ?_⟩⟩
  · rw [call, if_pos loaded]
    rw [absent, fresh, Option.elim_some, own]
    unfold submitNew
    cases allocates : o.allocatesSet with
    | false => exact t
    | true =>
      rw [if_neg (by decide), if_pos (Or.inr rfl), submit_fst]
      cases c.key with
      | none => exact ⟨t.toTracksBuffers, t.cached, t.valid⟩
      | some key => exact t.bind made first second
  · rw [submitNew_isSome]
    simp [Dispatches, loaded, fresh, absent]
  · obtain ⟨same, -⟩ := submitNew_executed (Prod.ext rfl executed)
    rw [same, own]
    exact ⟨first, second⟩

theorem follows_old (loaded : ctx.loaded c.kernel = true) (fresh : h.fresh ctx o c = some slots)
    (found : h.found c = some old) (t : ((h.reached ctx o c).bind c.key (h.used c slots)).Tracks ctx s)
    (first : set.binding0 = some ((h.used c slots).1.binding ctx))
    (second : set.binding1 = (h.used c slots).2.map (Slot.binding ctx)) :
    Follows ctx o h c (submit ctx o s c.kernel set count) := by
  refine ⟨?_, ?_, fun e executed => ⟨slots, fresh, ?_⟩⟩
  · rw [call, if_pos loaded, submit_fst]
    rw [found, fresh, Option.elim_some, if_pos (Or.inl Option.isSome_some)]
    exact t
  · rw [submit_isSome]
    simp [Dispatches, loaded, fresh, found]
  · obtain ⟨-, same⟩ := submit_executed (Prod.ext rfl executed)
    rw [same]
    exact ⟨first, second⟩

theorem bind_same (key : Option (String × Nat)) (there : key.bind h.written = some old) : h.bind key old = h := by
  unfold bind
  cases key with
  | none => rfl
  | some key =>
    rw [Option.elim_some, Function.update_eq_self_iff.mpr]
    exact there.symm

theorem launch_follows (t : h.Tracks ctx s) (kernel : String) (buffer count es : Nat) :
    Follows ctx o h (.launch kernel buffer count es) (launch ctx o s kernel buffer count es) := by
  let c : Call β := .launch kernel buffer count es
  have reached := t.resolve o buffer (wmul count es)
  have answer := t.resolved ctx o buffer (wmul count es)
  unfold launch
  split
  · next unloaded => exact follows_unloaded t unloaded
  · next loaded =>
    have loaded : ctx.loaded kernel = true := Bool.eq_true_of_not_eq_false loaded
    dsimp only
    rw [answer]
    cases here : (h.reach ctx o buffer (wmul count es)).place ctx buffer with
    | none => exact follows_nowhere reached loaded (by simp [fresh, here])
    | some l =>
      let slots : Slot × Option Slot := (⟨buffer, l, some (wmul count es)⟩, none)
      have fresh : h.fresh ctx o c = some slots := by simp [History.fresh, here, slots, c]
      rw [Option.map_some, Option.elim_some]
      cases cached : s.cache (kernel, buffer) with
      | none => exact follows_new rfl reached loaded fresh (t.absent cached) (t.madeFresh fresh) rfl rfl
      | some set =>
        obtain ⟨w, written, -, second⟩ := t.found cached
        have used : h.used c slots = (slots.1, w.2) := by
          unfold History.used
          rw [show h.found c = some w from written]
        refine follows_old loaded fresh written ?_ (by rw [used]; rfl) (by rw [used]; exact second)
        rw [used]
        have made : (h.reached ctx o c).MadeFor ctx (slots.1, w.2) := used ▸ t.madeUsed fresh
        exact reached.bind made rfl second

theorem launchWithCaptures_follows (t : h.Tracks ctx s) (kernel : String) (buffer count : Nat) (captures : List β) (es : Nat) :
    Follows ctx o h (.launchWithCaptures kernel buffer count captures es)
      (launchWithCaptures ctx o s kernel buffer count captures es) := by
  let c : Call β := .launchWithCaptures kernel buffer count captures es
  have reached := t.resolve o buffer (wmul count es)
  have answer := t.resolved ctx o buffer (wmul count es)
  unfold launchWithCaptures
  split
  · next unloaded => exact follows_unloaded t unloaded
  · next loaded =>
    have loaded : ctx.loaded kernel = true := Bool.eq_true_of_not_eq_false loaded
    dsimp only
    rw [answer]
    cases here : (h.reach ctx o buffer (wmul count es)).place ctx buffer with
    | none => exact follows_nowhere reached loaded (by simp [fresh, here])
    | some l =>
      let slots : Slot × Option Slot := (⟨buffer, l, wholeIfZero (wmul count es)⟩, none)
      have fresh : h.fresh ctx o c = some slots := by simp [History.fresh, here, slots, c]
      rw [Option.map_some, Option.elim_some]
      cases cached : s.cache (kernel, buffer) with
      | none => exact follows_new rfl reached loaded fresh (t.absent cached) (t.madeFresh fresh) rfl rfl
      | some set =>
        obtain ⟨w, written, first, second⟩ := t.found cached
        have used : h.used c slots = w := by
          unfold History.used
          rw [show h.found c = some w from written]
        refine follows_old loaded fresh written ?_ (by rw [used]; exact first) (by rw [used]; exact second)
        rw [used, bind_same _ (by rw [written_reached]; exact written)]
        exact reached

theorem launchTransform_follows (t : h.Tracks ctx s) (kernel : String) (input output count es outEs : Nat) (captures : List β) :
    Follows ctx o h (.launchTransform kernel input output count es outEs captures)
      (launchTransform ctx o s kernel input output count es outEs captures) := by
  let c : Call β := .launchTransform kernel input output count es outEs captures
  unfold launchTransform
  split
  · next unloaded => exact follows_unloaded t unloaded
  · next loaded =>
    have loaded : ctx.loaded kernel = true := Bool.eq_true_of_not_eq_false loaded
    dsimp only
    have once := t.resolve o input (wmul count es)
    have reached := once.resolve o output (wmul count (outElemSize es outEs))
    have answer := t.resolved ctx o input (wmul count es)
    have answer' := once.resolved ctx o output (wmul count (outElemSize es outEs))
    dsimp only at answer' reached
    rw [answer, answer']
    cases here : (h.reach ctx o input (wmul count es)).place ctx input with
    | none => exact follows_nowhere reached loaded (by simp [fresh, here])
    | some l =>
      cases here' : (h.reached ctx o c).place ctx output with
      | none =>
        have nowhere : h.fresh ctx o c = none := by simp [fresh, here, here', c]
        rw [show ((h.reach ctx o input (wmul count es)).reach ctx o output (wmul count (outElemSize es outEs))).place ctx output = none
          from here']
        exact follows_nowhere reached loaded nowhere
      | some l' =>
        let slots : Slot × Option Slot := (⟨input, l, wholeIfZero (wmul count es)⟩,
          some ⟨output, l', wholeIfZero (wmul count (outElemSize es outEs))⟩)
        have fresh : h.fresh ctx o c = some slots := by simp [History.fresh, here, here', slots, c]
        rw [show ((h.reach ctx o input (wmul count es)).reach ctx o output (wmul count (outElemSize es outEs))).place ctx output = some l'
          from here']
        simp only [Option.map_some, Option.elim_some]
        by_cases capturing : captures = []
        · have key : c.key = some (kernel, output) := if_pos capturing
          rw [if_neg (not_not.mpr capturing)]
          cases cached : s.cache (kernel, output) with
          | none =>
            have absent : h.found c = none := by
              rw [found, key]
              exact t.absent cached
            exact follows_new key reached loaded fresh absent (t.madeFresh fresh) rfl rfl
          | some set =>
            obtain ⟨w, written, first, second⟩ := t.found cached
            have there : h.found c = some w := by
              rw [found, key]
              exact written
            have used : h.used c slots = w := by
              unfold History.used
              rw [there]
            refine follows_old loaded fresh there ?_ (by rw [used]; exact first) (by rw [used]; exact second)
            rw [used, bind_same _ (by rw [written_reached]; exact there)]
            exact reached
        · have key : c.key = none := if_neg capturing
          have absent : h.found c = none := by
            rw [found, key]
            rfl
          rw [if_pos capturing]
          exact follows_new key reached loaded fresh absent (t.madeFresh fresh) rfl rfl

/-- Every call of the launcher leaves it in step with the history. -/
theorem perform_follows (t : h.Tracks ctx s) (c : Call β) : Follows ctx o h c (perform ctx o s c) := by
  cases c with
  | launch => exact launch_follows t ..
  | launchWithCaptures => exact launchWithCaptures_follows t ..
  | launchTransform => exact launchTransform_follows t ..

end

end History
end

end Parallax.Elementwise
