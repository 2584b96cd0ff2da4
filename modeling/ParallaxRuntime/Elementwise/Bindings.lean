import ParallaxRuntime.Elementwise.History

/-!
# Storage bindings of element-wise launches

Neither cache is told when a buffer goes away or is asked for with another size. A launch
that rewrites its bindings names its own buffers; one that reuses a cached set names those
of the call that wrote the set.
-/

namespace Parallax.Elementwise
open Memory Launcher

section
variable {β : Type} (ctx : Context)

/-- The buffer that `p` has, the offset of `p` in it, and its size. -/
def locate (m : MemoryManager β) (p : Nat) : Option (BufferRef × Nat × Nat) :=
  if ctx.contains p then some (.arena, ctx.offsetOf p, ctx.capacity)
  else (m.buffers p).map fun b => (.external b.handle, 0, b.size)

/-- The binding names the buffer that `p` has, with `bytes` for its range. -/
def Names (m : MemoryManager β) (p bytes : Nat) (b : Option Binding) : Prop :=
  ∃ l, locate ctx m p = some l ∧ b = some ⟨l.1, l.2.1, some bytes⟩

/-- The range lies in the buffer that `p` has. -/
def Within (m : MemoryManager β) (p bytes : Nat) : Prop := ∀ l, locate ctx m p = some l → l.2.1 + bytes ≤ l.2.2

/-- The storage bindings of a dispatch are those of its call, in the buffers as the call leaves them. -/
def OwnBindings (m : MemoryManager β) (set : DescriptorSet β) : Call β → Prop
  | .launch _ buffer count es | .launchWithCaptures _ buffer count _ es =>
    Names ctx m buffer (wmul count es) set.binding0 ∧ Within ctx m buffer (wmul count es)
  | .launchTransform _ input output count es outEs _ =>
    (Names ctx m input (wmul count es) set.binding0 ∧ Within ctx m input (wmul count es)) ∧
    Names ctx m output (wmul count (outElemSize es outEs)) set.binding1 ∧
    Within ctx m output (wmul count (outElemSize es outEs))

end

/-- What a program asks of the memory manager and of the launcher. -/
inductive Action (β : Type) where
  | allocate (size : Nat) (created : Option Nat)
  | deallocate (p : Nat)
  | registerExternalBuffer (p size : Nat) (created : Option Nat)
  | call (c : Call β) (o : Outcome)

section
variable {β : Type} (ctx : Context)

def step (s : KernelLauncher β) : Action β → KernelLauncher β × Option (Executed β)
  | .allocate size created => ({ s with manager := s.manager.allocate size created }, none)
  | .deallocate p => ({ s with manager := s.manager.deallocate p }, none)
  | .registerExternalBuffer p size created => ({ s with manager := s.manager.registerExternalBuffer p size created }, none)
  | .call c o => perform ctx o s c

/-- `P` holds of every step of the run. -/
def Along (P : KernelLauncher β → Action β → Prop) : KernelLauncher β → List (Action β) → Prop
  | _, [] => True
  | s, a :: actions => P s a ∧ Along P (step ctx s a).1 actions

/-- If the action dispatches, then with the storage bindings of its own call. -/
def DispatchesOwn (s : KernelLauncher β) (a : Action β) : Prop :=
  ∀ c o e, a = .call c o → (step ctx s a).2 = some e → OwnBindings ctx (step ctx s a).1.manager e.set c

end

/-- A launcher that has launched nothing, with no buffer registered. -/
def start {β : Type} (memory : Nat → β) : KernelLauncher β := ⟨⟨fun _ => none, 0, fun _ => 0, memory⟩, fun _ => none, 0⟩

/-! ### When the calls of a run get their own -/

/-- Bytes from `p` on end where its memory ends. -/
def Place.Room (ctx : Context) : Place → Nat → Nat → Prop
  | .arena, p, bytes => ctx.offsetOf p + bytes ≤ ctx.capacity
  | .buffer r, _, bytes => bytes ≤ r.size

instance {ctx : Context} {l : Place} {p bytes : Nat} : Decidable (l.Room ctx p bytes) :=
  match l with
  | .arena => inferInstanceAs (Decidable (_ ≤ _))
  | .buffer _ => inferInstanceAs (Decidable (_ ≤ _))

/-- The slot was written for this pointer, with the memory that it has now, and for as many bytes. -/
structure SlotFor (ctx : Context) (h : History) (array : Nat × Nat) (slot : Slot) : Prop where
  pointer : slot.pointer = array.1
  place : h.place ctx array.1 = some slot.place
  range : slot.range = some array.2
  room : slot.place.Room ctx array.1 array.2

/-- The slots of a set that a call uses, each with the array that the call has for it. -/
def SlotsMeet {β : Type} (P : Nat × Nat → Slot → Prop) (slots : Slot × Option Slot) (c : Call β) : Prop :=
  match c with
  | .launchTransform .. => P c.input slots.1 ∧ ∃ slot ∈ slots.2, P c.output slot
  | _ => P c.input slots.1

namespace History
variable {β : Type} (ctx : Context)

def empty : History := ⟨0, fun _ => none, fun _ => none, fun _ => 0⟩

def after (h : History) : Action β → History
  | .allocate size created => created.elim h fun p => h.make p size p
  | .deallocate p => h.free p
  | .registerExternalBuffer p size created => h.register p size created
  | .call c o => h.call ctx o c

def Along (P : History → Action β → Prop) : History → List (Action β) → Prop
  | _, [] => True
  | h, a :: actions => P h a ∧ Along P (h.after ctx a) actions

/-- If nothing stops the call, the set in use was written for its arrays. -/
def CallsFit (h : History) (a : Action β) : Prop :=
  ∀ c o, a = .call c o → h.Dispatches ctx o c → ∀ slots ∈ h.fresh ctx o c,
    SlotsMeet (SlotFor ctx (h.reached ctx o c)) (h.used c slots) c

end History

section
variable {β : Type} {ctx : Context} {o : Outcome} {m : MemoryManager β} {h : History} {p bytes : Nat} {slot : Slot} {l : Place}

theorem contains_low (inside : ctx.contains p = true) : ctx.hostBase ≤ p := (of_decide_eq_true inside).2.2.1

/-- A slot that was made resolves as a pointer does only if it was made for it, with the memory that it has. -/
theorem slot_unique (made : h.Made ctx slot) (here : h.place ctx p = some l)
    (same : slot.place.resolved ctx slot.pointer = l.resolved ctx p) : slot.pointer = p ∧ slot.place = l := by
  unfold History.place at here
  unfold History.Made at made
  split at here
  · next inside =>
    cases here
    cases place : slot.place with
    | arena =>
      rw [place] at made same
      have low := contains_low made
      have low' := contains_low inside
      have offsets : ctx.offsetOf slot.pointer = ctx.offsetOf p := congrArg Prod.snd same
      unfold Context.offsetOf at offsets
      exact ⟨by omega, rfl⟩
    | buffer r =>
      rw [place] at same
      cases congrArg Prod.fst same
  · obtain ⟨r, registered, rfl⟩ := Option.map_eq_some_iff.mp here
    cases place : slot.place with
    | arena =>
      rw [place] at same
      cases congrArg Prod.fst same
    | buffer r' =>
      rw [place] at made same
      have numbers : r'.number = r.number := BufferRef.external.inj (congrArg Prod.fst same)
      obtain ⟨pointer, rfl⟩ := made.2 p r registered numbers.symm
      exact ⟨pointer.symm, rfl⟩

theorem locate_eq (t : h.TracksBuffers m) (p : Nat) : locate ctx m p =
    (h.place ctx p).map fun l => ((l.resolved ctx p).1, (l.resolved ctx p).2, match l with | .arena => ctx.capacity | .buffer r => r.size) := by
  have buffers := t.buffers p
  unfold locate History.place
  split
  · rfl
  · have sizes := congrArg (Option.map fun b : Nat × Nat => (BufferRef.external b.1, 0, b.2)) buffers
    simpa only [Option.map_map, Function.comp_def, Place.resolved] using sizes

/-- A binding is that of the pointer, within its memory, exactly if its slot is the one for it. -/
theorem names_iff (t : h.TracksBuffers m) (made : h.Made ctx slot) :
    Names ctx m p bytes (some (slot.binding ctx)) ∧ Within ctx m p bytes ↔ SlotFor ctx h (p, bytes) slot := by
  unfold Names Within
  rw [locate_eq t]
  constructor
  · rintro ⟨⟨l', located, same⟩, within⟩
    obtain ⟨l, here, rfl⟩ := Option.map_eq_some_iff.mp located
    have bindings := Option.some.inj same
    have resolved : slot.place.resolved ctx slot.pointer = l.resolved ctx p :=
      Prod.ext (congrArg Binding.buffer bindings) (congrArg Binding.offset bindings)
    obtain ⟨pointer, place⟩ := slot_unique made here resolved
    refine ⟨pointer, by rw [place]; exact here, congrArg Binding.range bindings, ?_⟩
    have room := within _ located
    rw [place]
    cases l with
    | arena => exact room
    | buffer r => simpa [Place.resolved, Place.Room] using room
  · rintro ⟨pointer, place, range, room⟩
    dsimp only at pointer place range room
    rw [place]
    refine ⟨⟨_, rfl, ?_⟩, fun l' located => ?_⟩
    · unfold Slot.binding
      rw [pointer, range]
    · cases located
      cases at_ : slot.place with
      | arena =>
        rw [at_] at room
        exact room
      | buffer r =>
        rw [at_] at room
        simpa [Place.resolved, Place.Room] using room

theorem names_map_iff {slots : Option Slot} : Names ctx m p bytes (slots.map (Slot.binding ctx)) ↔
    ∃ slot ∈ slots, Names ctx m p bytes (some (slot.binding ctx)) := by
  cases slots with
  | none =>
    constructor
    · rintro ⟨l, -, same⟩
      cases same
    · rintro ⟨slot, member, -⟩
      cases member
  | some slot => simp

variable {s : KernelLauncher β}

theorem step_tracks (t : h.Tracks ctx s) (a : Action β) : (h.after ctx a).Tracks ctx (step ctx s a).1 := by
  cases a with
  | allocate size created =>
    cases created with
    | none => exact t
    | some p => exact t.mono (t.toTracksBuffers.store p size p) rfl History.keeps_make
  | deallocate p => exact t.mono (t.toTracksBuffers.deallocate p) rfl History.keeps_free
  | registerExternalBuffer p size created =>
    exact t.mono (t.toTracksBuffers.register p size created) History.written_register History.keeps_register
  | call c o => exact (History.perform_follows t c).tracks

/-- The bindings of a dispatch are its own exactly if its set was written for its arrays. -/
theorem own_iff {c : Call β} {e : Executed β} {slots : Slot × Option Slot} (t : h.TracksBuffers m)
    (made : h.MadeFor ctx slots) (first : e.set.binding0 = some (slots.1.binding ctx))
    (second : e.set.binding1 = slots.2.map (Slot.binding ctx)) : OwnBindings ctx m e.set c ↔ SlotsMeet (SlotFor ctx h) slots c := by
  cases c with
  | launch | launchWithCaptures =>
    simp only [OwnBindings, SlotsMeet, first]
    exact names_iff t made.1
  | launchTransform kernel input output count es outEs captures =>
    simp only [OwnBindings, SlotsMeet, first, second]
    rw [names_iff t made.1, names_map_iff]
    refine and_congr Iff.rfl ⟨?_, ?_⟩
    · rintro ⟨⟨slot, member, names⟩, within⟩
      exact ⟨slot, member, (names_iff t (made.2 slot member)).mp ⟨names, within⟩⟩
    · rintro ⟨slot, member, own⟩
      obtain ⟨names, within⟩ := (names_iff t (made.2 slot member)).mpr own
      exact ⟨⟨slot, member, names⟩, within⟩

theorem dispatchesOwn_iff (t : h.Tracks ctx s) (a : Action β) : DispatchesOwn ctx s a ↔ h.CallsFit ctx a := by
  unfold DispatchesOwn History.CallsFit
  constructor
  · rintro own c o rfl dispatches slots fresh
    have follows : History.Follows ctx o h c (perform ctx o s c) := History.perform_follows t c
    obtain ⟨e, executed⟩ := Option.isSome_iff_exists.mp (follows.dispatches.mpr dispatches)
    obtain ⟨slots', fresh', first, second⟩ := follows.set e executed
    obtain rfl := Option.some.inj (fresh.symm.trans fresh')
    have buffers := follows.tracks.toTracksBuffers.of_call dispatches.1
    exact (own_iff buffers (t.madeUsed fresh) first second).mp (own c o e rfl executed)
  · rintro fit c o e rfl executed
    have follows : History.Follows ctx o h c (perform ctx o s c) := History.perform_follows t c
    have dispatches := follows.dispatches.mp (by rw [show (perform ctx o s c).2 = some e from executed]; rfl)
    obtain ⟨slots, fresh, first, second⟩ := follows.set e executed
    have buffers := follows.tracks.toTracksBuffers.of_call dispatches.1
    exact (own_iff buffers (t.madeUsed fresh) first second).mpr (fit c o rfl dispatches slots fresh)

theorem along_own_iff (t : h.Tracks ctx s) (actions : List (Action β)) :
    Along ctx (DispatchesOwn ctx) s actions ↔ History.Along ctx (History.CallsFit ctx) h actions := by
  induction actions generalizing s h with
  | nil => exact Iff.rfl
  | cons a actions ih => exact and_congr (dispatchesOwn_iff t a) (ih (step_tracks t a))

theorem start_tracks (memory : Nat → β) : History.empty.Tracks ctx (start memory) where
  made := rfl
  buffers _ := rfl
  mapped _ _ no := by cases no
  owned _ _ no := by cases no
  cached _ := rfl
  valid _ _ no := by cases no

/-- In a run from the start, the dispatches have their own storage bindings exactly when each call's set was last
written for the pointers of the call, with the memory that they have, and for as many bytes as it asks for, which the
memory has room for. -/
theorem bindings_fresh_iff (memory : Nat → β) (actions : List (Action β)) :
    Along ctx (DispatchesOwn ctx) (start memory) actions ↔ History.Along ctx (History.CallsFit ctx) History.empty actions :=
  along_own_iff (start_tracks memory) actions

end

/-- Two transforms into one output from two inputs: the second reads the input of the first. -/
theorem stale_transform_input : ¬ ∀ (ctx : Context) (memory : Nat → Nat) (actions : List (Action Nat)),
    Along ctx (DispatchesOwn ctx) (start memory) actions := by
  intro own
  have run := own smallArena (fun _ => 0)
    [.call (.launchTransform "kernel_0" 4096 8192 16 4 4 []) ⟨fun _ => none, true, true⟩,
     .call (.launchTransform "kernel_0" 12288 8192 16 4 4 []) ⟨fun _ => none, true, true⟩]
  obtain ⟨⟨⟨l, located, same⟩, -⟩, -⟩ := run.2.1 _ _ _ rfl rfl
  have offset : l = (.arena, 8192, 65536) := (Option.some.inj located).symm
  subst offset
  cases same

end Parallax.Elementwise
