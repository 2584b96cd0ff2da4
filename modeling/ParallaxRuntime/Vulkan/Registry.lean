import ParallaxRuntime.Vulkan.Kernels
import ParallaxRuntime.Memory.Word

/-!
# The kernel registry

`parallax_kernel_load`, `parallax_kernel_register` and `parallax_kernel_lookup`: kernels are
registered by key before there is a device and built when they are first looked up. What a
lookup answers is determined by what was done before, and by the driver once for each registration.
-/

namespace Parallax.Vulkan
open Effects Memory

/-- A handle is the name of its kernel. -/
structure FunnelEntry where
  spirv : Nat
  words : Nat
  handle : Option String
  loaded : Bool

/-- `g_kernel_launcher`, `g_kernel_counter` and `funnel_registry()`. -/
structure Registry where
  launcher : Option KernelLauncher := none
  counter : Nat := 0
  funnels : String → Option FunnelEntry := fun _ => none

def kernelName (id : Nat) : String := "kernel_" ++ toString id

namespace Registry

/-- `ready`: there are a backend and a memory manager. -/
def ensureKernelLauncherInitialized (r : Registry) (ready : Bool) : Calls Registry :=
  if r.launcher.isSome then pure r
  else if !ready then pure r
  else do
    let l ← newKernelLauncher
    pure { r with launcher := some l }

/-- `parallax_kernel_load` -/
def kernelLoad (r : Registry) (ready : Bool) (spirv words : Nat) : Calls (Option String × Registry) := do
  let r ← r.ensureKernelLauncherInitialized ready
  match r.launcher with
  | none => pure (none, r)
  | some l =>
    let name := kernelName r.counter
    let loaded ← l.loadKernel name spirv (wmul words 4)
    pure (if loaded.1 then some name else none, { r with launcher := some loaded.2, counter := wadd r.counter 1 })

/-- `parallax_kernel_register` -/
def kernelRegister (r : Registry) (key : Option String) (spirv words : Nat) : Registry :=
  key.elim r fun key => { r with funnels := Function.update r.funnels key (some ⟨spirv, words, none, false⟩) }

/-- `parallax_kernel_lookup` -/
def kernelLookup (r : Registry) (ready : Bool) (key : Option String) : Calls (Option String × Registry) :=
  match key with
  | none => pure (none, r)
  | some key =>
    match r.funnels key with
    | none => pure (none, r)
    | some e =>
      if e.loaded then pure (e.handle, r)
      else do
        let (handle, r) ← r.kernelLoad ready e.spirv e.words
        pure (handle, { r with funnels := Function.update r.funnels key (some { e with handle := handle, loaded := true }) })

def pipelines (r : Registry) : AList fun _ : String => PipelineData := r.launcher.elim ∅ KernelLauncher.pipelines

def holds (r : Registry) : Multiset Handle := r.launcher.elim 0 KernelLauncher.holds

/-- What becomes of `g_kernel_launcher` when the process ends. -/
def exit (r : Registry) (order : KernelLauncher → List PipelineData) : Calls Unit :=
  r.launcher.elim (pure ()) fun l => l.destruct (order l)

end Registry

/-- A call of the runtime's interface. Launches show by their uniform buffers only. -/
inductive Request where
  | register (key : Option String) (spirv words : Nat)
  | lookup (ready : Bool) (key : Option String)
  | load (ready : Bool) (spirv words : Nat)
  | launch (captureSize : Nat) (captures : Bool)

def Request.perform (r : Registry) : Request → Calls (Option String × Registry)
  | .register key spirv words => pure (none, r.kernelRegister key spirv words)
  | .lookup ready key => r.kernelLookup ready key
  | .load ready spirv words => r.kernelLoad ready spirv words
  | .launch captureSize captures =>
    match r.launcher with
    | none => pure (none, r)
    | some l => do
      let l ← l.addTransient captureSize captures
      pure (none, { r with launcher := some l })

/-- Requests with their answers, the last one first. -/
abbrev History := List (Request × Option String)

def session (requests : List Request) (start : History × Registry) : Calls (History × Registry) :=
  requests.foldlM (fun s q => do
    let (a, r) ← q.perform s.2
    pure ((q, a) :: s.1, r)) start

/-- The words that are registered under a key. -/
def registered : History → String → Option (Nat × Nat)
  | [], _ => none
  | (.register (some k) spirv words, _) :: hist, key => if k = key then some (spirv, words) else registered hist key
  | _ :: hist, key => registered hist key

/-- The first answer for a key since it was last registered. -/
def answered : History → String → Option (Option String)
  | [], _ => none
  | (.register (some k) _ _, _) :: hist, key => if k = key then none else answered hist key
  | (.lookup _ (some k), a) :: hist, key =>
    if k = key ∧ (registered hist key).isSome then some ((answered hist key).getD a) else answered hist key
  | _ :: hist, key => answered hist key

/-- The kernel's name is a new one, and its pipeline is alive, built from the words at `spirv`. -/
def NewKernel (w : Objects) (pipelines : AList fun _ : String => PipelineData) (hist : History) (spirv words : Nat)
    (name : String) : Prop :=
  (∀ e ∈ hist, e.2 ≠ some name) ∧ ∃ d, pipelines.lookup name = some d ∧ BuiltFrom w d spirv (wmul words 4)

/-- The answers that the requests before each request allow. -/
def Consistent (w : Objects) (pipelines : AList fun _ : String => PipelineData) : History → Prop
  | [] => True
  | (.register _ _ _, a) :: hist => a = none ∧ Consistent w pipelines hist
  | (.launch _ _, a) :: hist => a = none ∧ Consistent w pipelines hist
  | (.load _ spirv words, a) :: hist =>
    (∀ name, a = some name → NewKernel w pipelines hist spirv words name) ∧ Consistent w pipelines hist
  | (.lookup _ none, a) :: hist => a = none ∧ Consistent w pipelines hist
  | (.lookup _ (some key), a) :: hist =>
    (match registered hist key with
      | none => a = none
      | some (spirv, words) =>
        match answered hist key with
        | some before => a = before
        | none => ∀ name, a = some name → NewKernel w pipelines hist spirv words name) ∧
    Consistent w pipelines hist

/-- What the registry keeps for a key is what the history says of it. -/
def funnelOf (hist : History) (key : String) : Option FunnelEntry :=
  (registered hist key).map fun words => ⟨words.1, words.2, (answered hist key).getD none, (answered hist key).isSome⟩

/-- Pipelines and objects that were there are still there. -/
structure Extends (r : Registry) (w : Objects) (r' : Registry) (w' : Objects) : Prop where
  pipelines : ∀ name d, r.pipelines.lookup name = some d → r'.pipelines.lookup name = some d
  objects : ∀ i info, w i = some info → w' i = some info

structure Sound (base : Objects) (hist : History) (r : Registry) (w : Objects) : Prop where
  owns : Owns r.holds base w
  funnels : r.funnels = funnelOf hist
  counted : r.counter ≤ hist.length
  named : ∀ name ∈ r.pipelines, ∃ id < r.counter, name = kernelName id
  told : ∀ e ∈ hist, ∀ name, e.2 = some name → ∃ id < r.counter, name = kernelName id
  consistent : Consistent w r.pipelines hist

section
variable {V : Driver} {base w w' : Objects} {r r' : Registry} {hist : History} {name : String} {d : PipelineData}
  {code size : Nat}

theorem kernelName_injective : Function.Injective kernelName := by
  intro a b same
  have digits : a.repr = b.repr := String.append_right_inj "kernel_" |>.mp same
  have read := congrArg (fun s => Nat.ofDigitChars 10 s.toList 0) digits
  simpa only [Nat.toList_repr, Nat.ofDigitChars_ten_toDigits] using read

theorem BuiltFrom.kept (h : BuiltFrom w d code size) (objects : ∀ i info, w i = some info → w' i = some info) :
    BuiltFrom w' d code size :=
  ⟨objects _ _ h.shaderModule, objects _ _ h.setLayout, objects _ _ h.layout, objects _ _ h.pipeline⟩

theorem NewKernel.kept {spirv words : Nat} (h : NewKernel w r.pipelines hist spirv words name) (ext : Extends r w r' w') :
    NewKernel w' r'.pipelines hist spirv words name := by
  obtain ⟨new, d, found, built⟩ := h
  exact ⟨new, d, ext.pipelines name d found, built.kept ext.objects⟩

theorem Consistent.kept (h : Consistent w r.pipelines hist) (ext : Extends r w r' w') : Consistent w' r'.pipelines hist := by
  induction hist with
  | nil => trivial
  | cons e hist ih =>
    obtain ⟨q, a⟩ := e
    cases q with
    | register key spirv words => exact ⟨h.1, ih h.2⟩
    | launch captureSize captures => exact ⟨h.1, ih h.2⟩
    | load ready spirv words => exact ⟨fun name given => (h.1 name given).kept ext, ih h.2⟩
    | lookup ready key =>
      cases key with
      | none => exact ⟨h.1, ih h.2⟩
      | some key =>
        refine ⟨?_, ih h.2⟩
        have here := h.1
        cases reg : registered hist key with
        | none => simpa [reg] using here
        | some words =>
          cases ans : answered hist key with
          | some before => simpa [reg, ans] using here
          | none =>
            simp only [reg, ans] at here ⊢
            exact fun name given => (here name given).kept ext

theorem Extends.refl : Extends r w r w := ⟨fun _ _ found => found, fun _ _ found => found⟩

/-- What a step that makes kernels does to the registry; the funnels are as they were. -/
structure Grows (base : Objects) (r : Registry) (w : Objects) (r' : Registry) (w' : Objects) : Prop where
  owns : Owns r'.holds base w'
  funnels : r'.funnels = r.funnels
  counted : r.counter ≤ r'.counter ∧ r'.counter ≤ r.counter + 1
  named : ∀ name ∈ r'.pipelines, ∃ id < r'.counter, name = kernelName id
  extends' : Extends r w r' w'

theorem Sound.grows (h : Sound base hist r w) : Grows base r w r w :=
  ⟨h.owns, rfl, ⟨le_rfl, by omega⟩, h.named, .refl⟩

theorem ensures_kernelLauncherInitialized (ok : V.Dependable) {ready : Bool} (h : Sound base hist r w) :
    (r.ensureKernelLauncherInitialized ready).Ensures V.handler (fun r' w' =>
      Grows base r w r' w' ∧ r'.counter = r.counter ∧ r'.pipelines = r.pipelines) w := by
  unfold Registry.ensureKernelLauncherInitialized
  apply Prog.ensures_ite
  · intro _
    exact ⟨h.grows, rfl, rfl⟩
  intro absent
  have absent : r.launcher = none := by simpa using absent
  apply Prog.ensures_ite
  · intro _
    exact ⟨h.grows, rfl, rfl⟩
  intro _
  apply (ensures_newKernelLauncher ok).bind
  intro l w' ⟨empty, owns⟩
  have same : ({ r with launcher := some l } : Registry).pipelines = r.pipelines := by
    simp only [Registry.pipelines, absent, Option.elim_some, Option.elim_none, empty]
  have before : Owns 0 base w := by
    have := h.owns
    rwa [Registry.holds, absent] at this
  refine ⟨⟨?_, rfl, ⟨le_rfl, Nat.le_succ _⟩, ?_, ?_, ?_⟩, rfl, same⟩
  · rw [owns_zero.mp before] at owns
    exact owns
  · rw [same]
    exact h.named
  · rw [same]
    exact fun _ _ found => found
  · exact fun i info found => owns.kept found

theorem ensures_kernelLoad (ok : V.Dependable) {ready : Bool} {spirv words : Nat} (h : Sound base hist r w)
    (room : hist.length < 2 ^ 64 - 1) : (r.kernelLoad ready spirv words).Ensures V.handler (fun out w' =>
      Grows base r w out.2 w' ∧ ∀ name, out.1 = some name →
        (∃ id < out.2.counter, name = kernelName id) ∧ NewKernel w' out.2.pipelines hist spirv words name) w := by
  have counted := h.counted
  unfold Registry.kernelLoad
  apply (ensures_kernelLauncherInitialized ok h).bind
  intro r₁ w₁ ⟨grown, same, pipes⟩
  cases found : r₁.launcher with
  | none => exact ⟨grown, by simp⟩
  | some l =>
    have next : wadd r₁.counter 1 = r.counter + 1 := by rw [same, wadd_of_lt (by omega)]
    have own : r₁.pipelines = l.pipelines := by rw [Registry.pipelines, found, Option.elim_some]
    have unused : l.pipelines.lookup (kernelName r₁.counter) = none := by
      rw [AList.lookup_eq_none, ← own, pipes, same]
      intro here
      obtain ⟨id, below, names⟩ := h.named _ here
      have := kernelName_injective names
      omega
    have owned : Owns l.holds base w₁ := by
      have := grown.owns
      rwa [Registry.holds, found, Option.elim_some] at this
    have objects := grown.extends'.objects
    have kept : ∀ name d, r.pipelines.lookup name = some d → l.pipelines.lookup name = some d := by
      rw [← own]
      exact grown.extends'.pipelines
    have known : ∀ name ∈ l.pipelines, ∃ id < r.counter, name = kernelName id := by
      rw [← own, pipes]
      exact h.named
    dsimp only
    apply ensures_loadKernel.bind
    rintro loaded w' (⟨rfl, rfl⟩ | ⟨d, rfl, owns, built⟩)
    · refine ⟨⟨owned, grown.funnels, ?_, ?_, kept, objects⟩, by simp⟩
      · dsimp only
        omega
      · intro name here
        obtain ⟨id, below, names⟩ := known name here
        exact ⟨id, by dsimp only; omega, names⟩
    · refine ⟨⟨?_, grown.funnels, ?_, ?_, ?_, ?_⟩, ?_⟩
      · have both := owns_add.mpr ⟨w₁, owned, owns⟩
        have whole := holds_insert l (kernelName r₁.counter) d
        rw [unused, Option.toList_none, List.flatMap_nil, heldBy_nil, add_zero] at whole
        rw [← whole] at both
        exact both
      · dsimp only
        omega
      · intro name here
        rcases (AList.mem_insert l.pipelines).mp here with rfl | here
        · exact ⟨r₁.counter, by dsimp only; omega, rfl⟩
        · obtain ⟨id, below, names⟩ := known name here
          exact ⟨id, by dsimp only; omega, names⟩
      · intro name d' found
        have found := kept name d' found
        have other : name ≠ kernelName r₁.counter := by
          rintro rfl
          rw [unused] at found
          cases found
        exact (AList.lookup_insert_ne other).trans found
      · exact fun i info found => owns.kept (objects i info found)
      · rintro name ⟨⟩
        refine ⟨⟨r₁.counter, by dsimp only; omega, rfl⟩, ?_, d, AList.lookup_insert l.pipelines, built⟩
        intro e here given
        obtain ⟨id, below, names⟩ := h.told e here _ given
        have := kernelName_injective names
        omega

/-- An answer that stands for a key was given once. -/
theorem answered_mem {key : String} {a : Option String} (h : answered hist key = some a) : ∃ e ∈ hist, e.2 = a := by
  induction hist with
  | nil => cases h
  | cons e hist ih =>
    have later : answered hist key = some a → ∃ e' ∈ e :: hist, e'.2 = a := by
      intro h
      obtain ⟨e', here, given⟩ := ih h
      exact ⟨e', List.mem_cons_of_mem _ here, given⟩
    obtain ⟨q, b⟩ := e
    cases q with
    | register k spirv words =>
      cases k with
      | none => exact later h
      | some k =>
        simp only [answered] at h
        split at h
        · cases h
        · exact later h
    | lookup ready k =>
      cases k with
      | none => exact later h
      | some k =>
        simp only [answered] at h
        split at h
        · cases before : answered hist key with
          | none =>
            simp only [before, Option.getD_none, Option.some.injEq] at h
            exact ⟨_, List.mem_cons_self, h⟩
          | some b =>
            simp only [before, Option.getD_some] at h
            exact later (before.trans h)
        · exact later h
    | load ready spirv words => exact later h
    | launch captureSize captures => exact later h

theorem Sound.next {q : Request} {a : Option String} (h : Sound base hist r w) (grown : Grows base r w r' w')
    {funnels : String → Option FunnelEntry} (same : funnels = funnelOf ((q, a) :: hist))
    (told : ∀ name, a = some name → ∃ id < r'.counter, name = kernelName id)
    (consistent : Consistent w' r'.pipelines hist → Consistent w' r'.pipelines ((q, a) :: hist)) :
    Sound base ((q, a) :: hist) { r' with funnels := funnels } w' := by
  have counted := h.counted
  have grown' := grown.counted
  constructor
  · exact grown.owns
  · exact same
  · rw [List.length_cons]
    dsimp only
    omega
  · exact grown.named
  · intro e here name given
    rcases List.mem_cons.mp here with rfl | here
    · exact told name given
    · obtain ⟨id, below, names⟩ := h.told e here name given
      exact ⟨id, by dsimp only; omega, names⟩
  · exact consistent (h.consistent.kept grown.extends')

theorem Sound.register (h : Sound base hist r w) {key : Option String} {spirv words : Nat} :
    Sound base ((.register key spirv words, none) :: hist) (r.kernelRegister key spirv words) w := by
  cases key with
  | none => exact h.next h.grows h.funnels (by simp) fun c => ⟨rfl, c⟩
  | some key =>
    apply h.next h.grows
    · funext other
      by_cases same : key = other
      · subst same
        simp [funnelOf, registered, answered]
      · rw [Function.update_of_ne (Ne.symm same), h.funnels]
        simp [funnelOf, registered, answered, same]
    · simp
    · exact fun c => ⟨rfl, c⟩

theorem Sound.lookup (ok : V.Dependable) (h : Sound base hist r w) (room : hist.length < 2 ^ 64 - 1) {ready : Bool}
    {key : Option String} : (r.kernelLookup ready key).Ensures V.handler (fun out w' =>
      Sound base ((.lookup ready key, out.1) :: hist) out.2 w') w := by
  cases key with
  | none => exact h.next h.grows h.funnels (by simp) fun c => ⟨rfl, c⟩
  | some key =>
    have entry : r.funnels key = funnelOf hist key := by rw [h.funnels]
    unfold Registry.kernelLookup
    cases reg : registered hist key with
    | none =>
      have absent : r.funnels key = none := by rw [entry, funnelOf, reg, Option.map_none]
      simp only [absent]
      apply h.next h.grows
      · funext other
        by_cases same : key = other
        · subst same
          simp [h.funnels, funnelOf, registered, reg]
        · simp [h.funnels, funnelOf, registered, answered, same]
      · simp
      · intro c
        exact ⟨by simp [reg], c⟩
    | some words =>
      obtain ⟨spirv, words⟩ := words
      cases ans : answered hist key with
      | some before =>
        have found : r.funnels key = some ⟨spirv, words, before, true⟩ := by
          rw [entry, funnelOf, reg, ans]
          rfl
        simp only [found, if_true]
        apply h.next h.grows
        · funext other
          by_cases same : key = other
          · subst same
            simp [h.funnels, funnelOf, registered, answered, reg, ans]
          · simp [h.funnels, funnelOf, registered, answered, same]
        · intro name given
          obtain ⟨e, here, told⟩ := answered_mem ans
          exact h.told e here name (told.trans given)
        · intro c
          refine ⟨?_, c⟩
          simp only [reg, ans]
      | none =>
        have found : r.funnels key = some ⟨spirv, words, none, false⟩ := by
          rw [entry, funnelOf, reg, ans]
          rfl
        simp only [found, Bool.false_eq_true, if_false]
        apply (ensures_kernelLoad ok h room).bind
        intro ⟨a, r'⟩ w' ⟨grown, new⟩
        apply h.next grown
        · funext other
          by_cases same : key = other
          · subst same
            simp [funnelOf, registered, answered, reg, ans]
          · rw [Function.update_of_ne (Ne.symm same), grown.funnels, h.funnels]
            simp [funnelOf, registered, answered, same]
        · exact fun name given => (new name given).1
        · intro c
          refine ⟨?_, c⟩
          simp only [reg, ans]
          exact fun name given => (new name given).2

theorem Sound.load (ok : V.Dependable) (h : Sound base hist r w) (room : hist.length < 2 ^ 64 - 1) {ready : Bool}
    {spirv words : Nat} : (r.kernelLoad ready spirv words).Ensures V.handler (fun out w' =>
      Sound base ((.load ready spirv words, out.1) :: hist) out.2 w') w := by
  apply (ensures_kernelLoad ok h room).mono
  intro ⟨a, r'⟩ w' ⟨grown, new⟩
  apply h.next grown
  · rw [grown.funnels]
    exact h.funnels
  · exact fun name given => (new name given).1
  · exact fun c => ⟨fun name given => (new name given).2, c⟩

theorem Sound.launch (ok : V.Dependable) (h : Sound base hist r w) {captureSize : Nat} {captures : Bool} :
    (Request.perform r (.launch captureSize captures)).Ensures V.handler (fun out w' =>
      Sound base ((.launch captureSize captures, out.1) :: hist) out.2 w') w := by
  unfold Request.perform
  cases found : r.launcher with
  | none =>
    dsimp only
    exact h.next h.grows h.funnels (by simp) fun c => ⟨rfl, c⟩
  | some l =>
    dsimp only
    apply (ensures_addTransient ok).bind
    rintro _ w' ⟨b, m, rfl, owns⟩
    have held : r.holds = l.holds := by rw [Registry.holds, found, Option.elim_some]
    have same : r.pipelines = l.pipelines := by rw [Registry.pipelines, found, Option.elim_some]
    have grown : Grows base r w { r with launcher := some { l with transientBuffers := l.transientBuffers ++ [(b, m)] } } w' := by
      refine ⟨?_, rfl, ⟨le_rfl, Nat.le_succ _⟩, ?_, ?_, ?_⟩
      · have both := owns_add.mpr ⟨w, h.owns, owns⟩
        rw [held, ← holds_addTransient] at both
        exact both
      · exact same ▸ h.named
      · exact fun _ _ known => same ▸ known
      · exact fun i info known => owns.kept known
    exact h.next grown h.funnels (by simp) fun c => ⟨rfl, c⟩

theorem Sound.perform (ok : V.Dependable) (h : Sound base hist r w) (room : hist.length < 2 ^ 64 - 1) {q : Request} :
    (q.perform r).Ensures V.handler (fun out w' => Sound base ((q, out.1) :: hist) out.2 w') w := by
  cases q with
  | register key spirv words => exact h.register
  | lookup ready key => exact h.lookup ok room
  | load ready spirv words => exact h.load ok room
  | launch captureSize captures => exact h.launch ok

theorem Sound.session (ok : V.Dependable) {requests : List Request} (h : Sound base hist r w)
    (room : hist.length + requests.length < 2 ^ 64) : (session requests (hist, r)).Ensures V.handler (fun out w' =>
      out.1.map Prod.fst = requests.reverse ++ hist.map Prod.fst ∧ Sound base out.1 out.2 w') w := by
  induction requests generalizing hist r w with
  | nil => exact ⟨rfl, h⟩
  | cons q requests ih =>
    rw [List.length_cons] at room
    unfold Vulkan.session
    rw [List.foldlM_cons, Prog.bind_assoc]
    apply (h.perform ok (by omega)).bind
    intro out w' h'
    apply (ih h' (by rw [List.length_cons]; omega)).mono
    intro out' w'' ⟨made, h''⟩
    refine ⟨?_, h''⟩
    simpa using made

theorem sound_start : Sound base [] {} base := by
  refine ⟨owns_zero.mpr rfl, rfl, le_rfl, ?_, ?_, trivial⟩
  · intro name here
    exact absurd here (AList.notMem_empty name)
  · intro e here
    cases here

/-- A lookup answers as the first one did since its key was registered. That one, like every load, makes a
new kernel out of the words that were registered, or none; and the kernels stay. -/
theorem answers_follow_history (ok : V.Dependable) (requests : List Request) (few : requests.length < 2 ^ 64)
    (base : Objects) : (session requests ([], {})).Ensures V.handler (fun out w =>
      out.1.map Prod.fst = requests.reverse ∧ Consistent w out.2.pipelines out.1) base := by
  apply (sound_start.session ok (by simpa using few)).mono
  intro out w ⟨made, h⟩
  exact ⟨by simpa using made, h.consistent⟩

end

/-- The process from its first request to the end of `g_kernel_launcher`, with the history. -/
def process (requests : List Request) (order : KernelLauncher → List PipelineData) : Calls History := do
  let s ← session requests ([], {})
  s.2.exit order
  pure s.1

/-- All that the kernels took of the device is given back, once. -/
theorem process_objects_destroyed {V : Driver} (ok : V.Dependable) (requests : List Request) (few : requests.length < 2 ^ 64)
    {order : KernelLauncher → List PipelineData} (perm : ∀ l, (order l).Perm l.loaded) (base : Objects) :
    (process requests order).Ensures V.handler (fun hist w => hist.map Prod.fst = requests.reverse ∧ w = base) base := by
  unfold process
  apply (sound_start.session ok (by simpa using few)).bind
  intro ⟨hist, r⟩ w ⟨made, h⟩
  have made : hist.map Prod.fst = requests.reverse := by simpa using made
  have owns := h.owns
  unfold Registry.exit
  cases found : r.launcher with
  | none =>
    rw [Registry.holds, found, Option.elim_none] at owns
    exact ⟨made, owns_zero.mp owns⟩
  | some l =>
    rw [Registry.holds, found, Option.elim_some, ← add_zero l.holds] at owns
    apply (ensures_destruct (perm l) owns).bind
    intro _ w' left
    exact ⟨made, owns_zero.mp left⟩

/-- One kernel, looked up before there is a device, then registered again and looked up. -/
def lateDevice : List Request :=
  [.register (some "f") 4096 16, .lookup false (some "f"), .lookup true (some "f"), .register (some "f") 4096 16,
    .lookup true (some "f"), .launch 0 false]

theorem answers_follow_history_late :
    ∃ out w, (session lateDevice ([], {})).Run integratedDriver.handler.step (fun _ => none) out w ∧
      out.1.map Prod.fst = lateDevice.reverse ∧ Consistent w out.2.pipelines out.1 :=
  exists_run_from integratedDriver_room (answers_follow_history integratedDriver_dependable lateDevice (by decide) (fun _ => none))

theorem process_objects_destroyed_late :
    ∃ hist w, (process lateDevice KernelLauncher.loaded).Run integratedDriver.handler.step (fun _ => none) hist w ∧
      hist.map Prod.fst = lateDevice.reverse ∧ w = fun _ => none :=
  exists_run_from integratedDriver_room
    (process_objects_destroyed integratedDriver_dependable lateDevice (by decide) (fun _ => .refl _) (fun _ => none))

end Parallax.Vulkan
