import ParallaxRuntime.Launcher.Machine
import ParallaxRuntime.Launcher.Session

/-!
# What a primitive leaves alone

A kernel writes only what is bound. Whatever else it does and whatever fails, no primitive changes
a caller's memory but in the arrays that it is called with and where the host stores its result, and
no block is freed under its owner.
-/

namespace Parallax.Launcher
open Memory Effects Arena

variable {β α γ : Type}

/-- A kernel that runs on anything and writes only what is bound. -/
structure Confined (k : Shader β) : Prop where
  pre : ∀ d, k.pre d
  frame : ∀ {base d m m'}, k.run base d m m' → ∀ a, (∀ b ∈ d.bindings, ¬ b.Reaches base a) → m' a = m a

section
variable {A : ArenaModel β}

/-- Between `s₀` and `s` only `D` changed of what was the callers', and the blocks `own` were handed out. -/
structure Guard (A : ArenaModel β) (s₀ : A.State) (D : Nat → Prop) (own : List (Nat × Nat)) (s : A.State) : Prop where
  kept : Kept A D s₀ s
  live : ∀ b ∈ own, b ∈ A.live s
  fresh : ∀ b ∈ own, ∀ b₀ ∈ A.live s₀, b₀.1 ≠ b.1
  apart : ∀ b ∈ own, ∀ a, b.1 ≤ a → a < b.1 + b.2 → ¬ A.Usable (A.live s₀) a

/-- An array of the caller's that may change, or a part of a block of one's own. -/
def Room (A : ArenaModel β) (s₀ : A.State) (D : Nat → Prop) (own : List (Nat × Nat)) (p n : Nat) : Prop :=
  (InBlock (A.live s₀) p n ∧ ∀ a, p ≤ a → a < p + n → D a) ∨ InBlock own p n

variable {s₀ s s' : A.State} {D : Nat → Prop} {own own' : List (Nat × Nat)} {p n k : Nat}

theorem Guard.start (valid : A.Valid s₀) : Guard A s₀ D [] s₀ :=
  ⟨.refl valid, fun _ absent => absurd absent List.not_mem_nil, fun _ absent => absurd absent List.not_mem_nil,
    fun _ absent => absurd absent List.not_mem_nil⟩

theorem Guard.mono (h : Guard A s₀ D own s) (sub : own' ⊆ own) : Guard A s₀ D own' s :=
  ⟨h.kept, fun b hb => h.live b (sub hb), fun b hb => h.fresh b (sub hb), fun b hb => h.apart b (sub hb)⟩

theorem Room.sub (h : Room A s₀ D own p n) {q : Nat} (low : p ≤ q) (high : q + k ≤ p + n) : Room A s₀ D own q k := by
  rcases h with ⟨block, allowed⟩ | block
  · exact Or.inl ⟨block.sub low high, fun a ha hb => allowed a (by omega) (by omega)⟩
  · exact Or.inr (block.sub low high)

theorem Room.more (h : Room A s₀ D own p n) (sub : own ⊆ own') : Room A s₀ D own' p n := by
  rcases h with caller | ⟨b, hb, range⟩
  · exact Or.inl caller
  · exact Or.inr ⟨b, sub hb, range⟩

theorem Room.head (fits : k ≤ n) : Room A s₀ D ((p, n) :: own) p k := Or.inr (.head fits)

theorem Guard.inBlock (h : Guard A s₀ D own s) (room : Room A s₀ D own p n) : InBlock (A.live s) p n := by
  rcases room with ⟨block, _⟩ | ⟨b, hb, range⟩
  · exact h.kept.inBlock block
  · exact ⟨b, h.live b hb, range⟩

/-- What lies in the array and was a caller's at the start may change. -/
theorem Guard.allowed (h : Guard A s₀ D own s) (room : Room A s₀ D own p n) {a : Nat} (low : p ≤ a) (high : a < p + n)
    (old : A.Usable (A.live s₀) a) : D a := by
  rcases room with ⟨_, allowed⟩ | ⟨b, hb, start, stop⟩
  · exact allowed a low high
  · exact absurd old (h.apart b hb a (by omega) (by omega))

theorem Guard.allocated (h : Guard A s₀ D own s) (valid : A.Valid s') (live : A.live s' = (p, n) :: A.live s)
    (mem : ∀ a, A.Usable (A.live s) a → A.mem s' a = A.mem s a) :
    Guard A s₀ D ((p, n) :: own) s' ∧ ∀ b ∈ own, b.1 ≠ p := by
  have names := A.head_fresh valid live
  have new : ∀ a, p ≤ a → a < p + n → ¬ A.Usable (A.live s) a := fun a low high => A.head_not_usable valid live ⟨low, high⟩
  refine ⟨⟨h.kept.trans (Kept.of_cons (D := fun _ => False) valid live mem) fun _ _ no => no.elim, ?_, ?_, ?_⟩,
    fun b hb => names b (h.live b hb)⟩
  · intro b hb
    rw [live]
    rcases List.mem_cons.mp hb with rfl | hb
    · exact List.mem_cons_self
    · exact List.mem_cons_of_mem _ (h.live b hb)
  · intro b hb b₀ hb₀
    rcases List.mem_cons.mp hb with rfl | hb
    · exact names b₀ (h.kept.live b₀ hb₀)
    · exact h.fresh b hb b₀ hb₀
  · intro b hb a low high old
    rcases List.mem_cons.mp hb with rfl | hb
    · exact new a low high (h.kept.usable old)
    · exact h.apart b hb a low high old

theorem Guard.freed (h : Guard A s₀ D own s) (own_p : ∃ n, (p, n) ∈ own) (valid : A.Valid s')
    (live : A.live s' = released (A.live s) p) (mem : ∀ a, A.Usable (A.live s') a → A.mem s' a = A.mem s a) :
    Guard A s₀ D (released own p) s' := by
  obtain ⟨n, own_p⟩ := own_p
  have old : ∀ b ∈ A.live s₀, b ∈ A.live s' := by
    intro b hb
    rw [live]
    exact mem_released.mpr ⟨h.kept.live b hb, h.fresh _ own_p b hb⟩
  refine ⟨⟨valid, old, fun a ha out => ?_⟩, fun b hb => ?_, fun b hb => h.fresh b (mem_released.mp hb).1,
    fun b hb => h.apart b (mem_released.mp hb).1⟩
  · have still : A.Usable (A.live s') a := by
      intro inside
      obtain ⟨b, hb, range⟩ := ha inside
      exact ⟨b, old b hb, range⟩
    rw [mem a still]
    exact h.kept.frame a ha out
  · rw [live]
    exact mem_released.mpr ⟨h.live b (mem_released.mp hb).1, (mem_released.mp hb).2⟩

theorem Guard.wrote (h : Guard A s₀ D own s) (valid : A.Valid s') (live : A.live s' = A.live s)
    (frame : ∀ a, A.Usable (A.live s₀) a → ¬ D a → A.mem s' a = A.mem s a) : Guard A s₀ D own s' where
  kept := ⟨valid, fun b hb => live ▸ h.kept.live b hb, fun a ha out => (frame a ha out).trans (h.kept.frame a ha out)⟩
  live b hb := live ▸ h.live b hb
  fresh := h.fresh
  apart := h.apart

end

/-! ### Programs under guard -/

section
variable {A : ArenaModel β} {shaders : String → Shader β} {mayFail : Prop} {s₀ : A.State} {D : Nat → Prop}
  {own own' : List (Nat × Nat)} {loaded : String → Bool} {devBase p n : Nat}

/-- The program starts with the scratch `own` and ends with at least `own'`. -/
def Guards (A : ArenaModel β) (shaders : String → Shader β) (mayFail : Prop) (s₀ : A.State) (D : Nat → Prop)
    (own own' : List (Nat × Nat)) (p : Launch β α) : Prop :=
  ∀ s, Guard A s₀ D own s → p.Ensures (machine A shaders mayFail fun _ _ => True) (fun _ s' => Guard A s₀ D own' s') s

theorem guards_pure {a : α} (sub : own' ⊆ own) : Guards A shaders mayFail s₀ D own own' (pure a : Launch β α) :=
  fun _ guard => guard.mono sub

theorem Guards.bind {q : Launch β γ} {f : γ → Launch β α} (h : Guards A shaders mayFail s₀ D own own q)
    (rest : ∀ a, Guards A shaders mayFail s₀ D own own' (f a)) : Guards A shaders mayFail s₀ D own own' (q >>= f) :=
  fun s guard => (h s guard).bind fun a s' => rest a s'

theorem guards_ite {c : Prop} [Decidable c] {q r : Launch β α} (hq : c → Guards A shaders mayFail s₀ D own own' q)
    (hr : ¬ c → Guards A shaders mayFail s₀ D own own' r) : Guards A shaders mayFail s₀ D own own' (if c then q else r) :=
  fun s guard => Prog.ensures_ite (fun h => hq h s guard) fun h => hr h s guard

theorem guards_scope {body : Launch β α} (h : Guards A shaders mayFail s₀ D own own' body) :
    Guards A shaders mayFail s₀ D own own' (withArenaSync body) := fun s guard => ensures_withArenaSync (h s guard)

theorem guards_invalidate {f : Unit → Launch β α} (h : Guards A shaders mayFail s₀ D own own' (f ())) :
    Guards A shaders mayFail s₀ D own own' (invalidateFromDevice >>= f) := fun s guard => ensures_invalidate (h s guard)

/-- Memory of a caller's that the host may store to. -/
def Storable (A : ArenaModel β) (s₀ : A.State) (D : Nat → Prop) (a : Nat) : Prop := A.Usable (A.live s₀) a ∧ D a

theorem guards_write {q : Nat} {x : List β} {f : Unit → Launch β α} (own_x : ∀ a, q ≤ a → a < q + x.length → Storable A s₀ D a)
    (h : Guards A shaders mayFail s₀ D own own' (f ())) : Guards A shaders mayFail s₀ D own own' (write q x >>= f) := by
  intro s guard
  apply ensures_write guard.kept.valid fun a low high => guard.kept.usable (own_x a low high).1
  intro s' valid live mem
  apply h
  apply guard.wrote valid live
  intro a _ out
  rw [mem]
  exact put_outside fun range => out (own_x a range.1 range.2).2

theorem guards_storeKept {hv : HostValues β} {out : Option Nat} {kept : Nat} {f : Unit → Launch β α}
    (own_out : ∀ a, hv.KeptAt out a → Storable A s₀ D a) (h : Guards A shaders mayFail s₀ D own own' (f ())) :
    Guards A shaders mayFail s₀ D own own' (storeKept hv out kept >>= f) := by
  intro s guard
  apply ensures_storeKept guard.kept.valid fun a ha => guard.kept.usable (own_out a ha).1
  intro s' valid live mem
  apply h
  apply guard.wrote valid live
  intro a _ out
  rw [mem]
  exact HostValues.stored_outside fun ha => out (own_out a ha).2

theorem guards_read {f : (Fin n → β) → Launch β α} (room : Room A s₀ D own p n)
    (h : ∀ x, Guards A shaders mayFail s₀ D own own' (f x)) : Guards A shaders mayFail s₀ D own own' (read p n >>= f) :=
  fun s guard => ensures_read guard.kept.valid (guard.inBlock room) (h _ s guard)

theorem guards_resolve {range : Nat} {upload : Bool} {f : Option Binding → Launch β α} (room : Room A s₀ D own p n)
    (pos : 0 < n) (h : Guards A shaders mayFail s₀ D own own' (f (some ⟨.arena, p - A.base, some range⟩))) :
    Guards A shaders mayFail s₀ D own own' ((contextOf A loaded devBase).resolve p range upload >>= f) :=
  fun s guard => ensures_resolve guard.kept.valid (guard.inBlock room) pos (h s guard)

theorem guards_download {f : Unit → Launch β α} (room : Room A s₀ D own p n) (pos : 0 < n)
    (h : Guards A shaders mayFail s₀ D own own' (f ())) :
    Guards A shaders mayFail s₀ D own own' ((contextOf A loaded devBase).download p >>= f) :=
  fun s guard => ensures_download guard.kept.valid (guard.inBlock room) pos (h s guard)

theorem guards_allocate {size : Nat} {f : Nat → Launch β α} (small : size ≤ 2 ^ 62)
    (null : Guards A shaders mayFail s₀ D own own' (f 0))
    (ok : ∀ p n, p ≠ 0 → size ≤ n → (∀ b ∈ own, b.1 ≠ p) → Guards A shaders mayFail s₀ D ((p, n) :: own) own' (f p)) :
    Guards A shaders mayFail s₀ D own own' (allocate size 256 >>= f) := by
  intro s guard
  apply ensures_allocate guard.kept.valid small
  · intro _ s' valid live mem
    apply null
    exact guard.wrote valid live fun a ha _ => mem a (guard.kept.usable ha)
  · intro p n s' nonnull fits valid live mem
    obtain ⟨guard', names⟩ := guard.allocated valid live mem
    exact ok p n nonnull fits names s' guard'

theorem guards_deallocate {f : Unit → Launch β α} (scratch : ∃ n, (p, n) ∈ own)
    (h : Guards A shaders mayFail s₀ D (released own p) own' (f ())) :
    Guards A shaders mayFail s₀ D own own' (deallocate p >>= f) := by
  intro s guard
  obtain ⟨n, mem⟩ := scratch
  apply ensures_deallocate guard.kept.valid (guard.live _ mem)
  intro s' valid live same
  exact h s' (guard.freed ⟨n, mem⟩ valid live same)

/-- A binding of an array. -/
def Bound (A : ArenaModel β) (s₀ : A.State) (D : Nat → Prop) (own : List (Nat × Nat)) (b : Binding) : Prop :=
  ∃ p n, Room A s₀ D own p n ∧ b = ⟨.arena, p - A.base, some n⟩

theorem guards_dispatch {d : Dispatch β} (confined : ∀ k, Confined (shaders k)) (bound : ∀ b ∈ d.bindings, Bound A s₀ D own b) :
    Guards A shaders mayFail s₀ D own own (dispatch d) := by
  intro s guard
  have valid := guard.kept.valid
  have place : ∀ p n, Room A s₀ D own p n → A.base + (p - A.base) = p := by
    intro p n room
    have := (guard.inBlock room).bounds valid
    omega
  have reached : ∀ b ∈ d.bindings, ∀ a, b.Reaches A.base a → LiveByte (A.live s) a ∧ (A.Usable (A.live s₀) a → D a) := by
    intro b hb a ⟨r, range, low, high⟩
    obtain ⟨p, n, room, rfl⟩ := bound b hb
    obtain rfl := Option.some.inj range
    dsimp only at low high
    rw [place p n room] at low high
    exact ⟨(guard.inBlock room).liveByte low high, guard.allowed room low high⟩
  apply ensures_dispatch
  · refine ⟨valid, (confined d.kernel).pre d, fun b hb => ?_, trivial⟩
    obtain ⟨p, n, room, rfl⟩ := bound b hb
    refine ⟨rfl, n, rfl, ?_⟩
    dsimp only
    rw [place p n room]
    exact guard.inBlock room
  · intro m run a dead
    exact (confined d.kernel).frame run a fun b hb reaches => dead (reached b hb a reaches).1
  · exact fun _ => guard
  · intro s' valid' live run
    apply guard.wrote valid' live
    intro a ha out
    exact (confined d.kernel).frame run a fun b hb reaches => out ((reached b hb a reaches).2 ha)

end

/-! ### The primitives -/

section
variable {A : ArenaModel β} {shaders : String → Shader β} {mayFail : Prop} {s₀ s : A.State} {D : Nat → Prop}
  {own : List (Nat × Nat)} {loaded : String → Bool} {devBase count es data : Nat}

theorem groups_bytes (count : Nat) (some : 0 < count) (small : count * es ≤ 2 ^ 62) :
    groupsOf count * es ≤ count * es ∧ wmul (groupsOf count) es = groupsOf count * es := by
  have fewer := groupsOf_le count
  have le : groupsOf count * es ≤ count * es := Nat.mul_le_mul_right es (by omega)
  exact ⟨le, wmul_of_lt (by omega)⟩

theorem guards_reduceLevels (confined : ∀ k, Confined (shaders k)) {kernel : String} {scratch cap : Bool → Nat} (pos : 0 < es)
    (rooms : ∀ t, Room A s₀ D own (scratch t) (cap t * es)) (n src : Nat) (toggle : Bool) (whole : Room A s₀ D own src (n * es))
    (one : Room A s₀ D own src es) (small : n * es ≤ 2 ^ 62) (some : ∀ t, 0 < cap t)
    (fits : (n + 255) / 256 ≤ cap toggle ∧ ((n + 255) / 256 + 255) / 256 ≤ cap !toggle) (guard : Guard A s₀ D own s) :
    (reduceLevels (contextOf A loaded devBase) kernel es scratch src n toggle).Ensures (machine A shaders mayFail fun _ _ => True)
      (fun r s' => Guard A s₀ D own s' ∧ ∀ p, r = Option.some p → Room A s₀ D own p es) s := by
  induction n using Nat.strong_induction_on generalizing src toggle s with
  | _ n ih =>
    rw [reduceLevels]
    apply Prog.ensures_ite
    · intro more
      obtain ⟨fewer, bytes⟩ := groups_bytes n (by omega) small
      have groups := groupsOf_le n
      dsimp only
      rw [bytes, wmul_of_lt (a := n) (by omega)]
      apply ensures_resolve guard.kept.valid (guard.inBlock whole) (Nat.mul_pos (by omega) pos)
      have next : Room A s₀ D own (scratch toggle) (groupsOf n * es) :=
        (rooms toggle).sub le_rfl (Nat.add_le_add_left (Nat.mul_le_mul_right es (by omega)) _)
      have first : Room A s₀ D own (scratch toggle) es :=
        (rooms toggle).sub le_rfl (Nat.add_le_add_left (Nat.le_mul_of_pos_left es (some toggle)) _)
      apply (guards_dispatch confined _ s guard).bind
      · intro ok s₁ guard₁
        apply Prog.ensures_ite
        · intro _
          apply ih _ (by omega) _ _ next first (by omega) _ guard₁
          rw [Bool.not_not]
          omega
        · exact fun _ => ⟨guard₁, fun p no => by cases no⟩
      · intro b hb
        rcases List.mem_cons.mp hb with rfl | hb
        · exact ⟨src, n * es, whole, rfl⟩
        · obtain rfl := List.mem_singleton.mp hb
          exact ⟨scratch toggle, groupsOf n * es, next, rfl⟩
    · intro _
      refine ⟨guard, fun p here => ?_⟩
      obtain rfl := Option.some.inj here
      exact one

theorem guards_launchReduce [Zero β] (confined : ∀ k, Confined (shaders k)) {kernel : String} {out : Nat} (pos : 0 < es)
    (whole : Room A s₀ D own data (count * es)) (result : ∀ a, out ≤ a → a < out + es → Storable A s₀ D a) (small : count * es ≤ 2 ^ 62) :
    Guards A shaders mayFail s₀ D own own (launchReduce (contextOf A loaded devBase) kernel data count es out) := by
  have all : own ⊆ own := List.Subset.refl _
  have stored : ∀ x : Fin es → β, ∀ a, out ≤ a → a < out + (List.ofFn x).length → Storable A s₀ D a := by
    intro x a low high
    rw [List.length_ofFn] at high
    exact result a low high
  have cleared : ∀ a, out ≤ a → a < out + (List.replicate es (0 : β)).length → Storable A s₀ D a := by
    intro a low high
    rw [List.length_replicate] at high
    exact result a low high
  unfold launchReduce
  apply guards_scope
  apply guards_ite fun _ => guards_pure all
  intro _
  refine guards_ite (fun _ => guards_write cleared (guards_pure all)) fun nonempty => ?_
  have one : Room A s₀ D own data es :=
    whole.sub le_rfl (Nat.add_le_add_left (Nat.le_mul_of_pos_left es (Nat.pos_of_ne_zero nonempty)) _)
  refine guards_ite (fun _ => guards_read one fun x => guards_write (stored x) (guards_pure all)) fun many => ?_
  apply guards_ite fun _ => guards_pure all
  intro _
  have count_le : count ≤ count * es := Nat.le_mul_of_pos_right count pos
  have first : (count + 255) / 256 * es ≤ count * es := Nat.mul_le_mul_right es (by omega)
  have second : (((count + 255) / 256 + 255) / 256 + 1) * es ≤ count * es := Nat.mul_le_mul_right es (by omega)
  dsimp only
  rw [wadd_of_lt (by omega), wadd_of_lt (by omega), wmul_of_lt (by omega), wmul_of_lt (by omega)]
  apply guards_allocate (by omega)
  · apply guards_allocate (by omega) (guards_ite (fun _ => guards_pure all) fun no => absurd (Or.inl rfl) no)
    exact fun p n _ _ _ => guards_ite (fun _ => guards_pure (List.subset_cons_self _ _)) fun no => absurd (Or.inl rfl) no
  intro p₀ n₀ _ fits₀ names₀
  apply guards_allocate (by omega) (guards_ite (fun _ => guards_pure (List.subset_cons_self _ _)) fun no => absurd (Or.inr rfl) no)
  intro p₁ n₁ _ fits₁ names₁
  have grown : own ⊆ (p₁, n₁) :: (p₀, n₀) :: own := fun b hb => List.mem_cons_of_mem _ (List.mem_cons_of_mem _ hb)
  apply guards_ite fun _ => guards_pure grown
  intro _ s guard
  have rooms : ∀ t : Bool, Room A s₀ D ((p₁, n₁) :: (p₀, n₀) :: own) (if t then p₁ else p₀)
      ((if t then ((count + 255) / 256 + 255) / 256 + 1 else (count + 255) / 256) * es) := by
    intro t
    cases t with
    | false => exact (Room.head fits₀).more (List.subset_cons_self _ _)
    | true => exact Room.head fits₁
  have some : ∀ t : Bool, 0 < if t then ((count + 255) / 256 + 255) / 256 + 1 else (count + 255) / 256 := by
    intro t
    cases t with
    | false => exact Nat.div_pos (by omega) (by decide)
    | true => exact Nat.succ_pos _
  apply (guards_reduceLevels confined pos rooms count data false (whole.more grown) (one.more grown) small some
    ⟨le_rfl, Nat.le_succ _⟩ guard).bind
  intro r s₁ ⟨guard₁, inside⟩
  cases r with
  | none => exact guard₁.mono grown
  | some src =>
    have ne : p₁ ≠ p₀ := fun same => names₁ (p₀, n₀) List.mem_cons_self same.symm
    refine guards_invalidate (guards_read (inside src rfl) fun x => guards_write (stored x) ?_) s₁ guard₁
    apply guards_deallocate ⟨n₀, List.mem_cons_of_mem _ List.mem_cons_self⟩
    apply guards_deallocate ⟨n₁, mem_released.mpr ⟨List.mem_cons_self, ne⟩⟩
    apply guards_pure
    intro b hb
    exact mem_released.mpr ⟨mem_released.mpr ⟨grown hb, names₀ b hb⟩, names₁ b (List.mem_cons_of_mem _ hb)⟩

/-- The scratch on top goes, the scratch before it stays. -/
theorem guards_freed {p n : Nat} {r : α} (names : ∀ b ∈ own, b.1 ≠ p) :
    Guards A shaders mayFail s₀ D ((p, n) :: own) own (deallocate p >>= fun _ => (pure r : Launch β α)) := by
  apply guards_deallocate ⟨n, List.mem_cons_self⟩
  apply guards_pure
  intro b hb
  exact mem_released.mpr ⟨List.mem_cons_of_mem _ hb, names b hb⟩

theorem guards_launchScan (confined : ∀ k, Confined (shaders k)) {scanKernel addKernel : String} (pos : 0 < es) (data count : Nat)
    (own : List (Nat × Nat)) (whole : Room A s₀ D own data (count * es)) (small : count * es ≤ 2 ^ 62) :
    Guards A shaders mayFail s₀ D own own (launchScan (contextOf A loaded devBase) scanKernel addKernel data count es) := by
  induction count using Nat.strong_induction_on generalizing data own with
  | _ count ih =>
    have all : own ⊆ own := List.Subset.refl _
    rw [launchScan]
    apply guards_scope
    apply guards_ite fun _ => guards_pure all
    intro _
    apply guards_ite fun _ => guards_pure all
    intro many
    apply guards_ite fun _ => guards_pure all
    intro _
    obtain ⟨fewer, bytes⟩ := groups_bytes count (by omega) small
    have groups := groupsOf_le count
    dsimp only
    rw [bytes, wmul_of_lt (a := count) (by omega)]
    apply guards_resolve whole (Nat.mul_pos (by omega) pos)
    apply guards_allocate (by omega) (guards_ite (fun _ => guards_pure all) fun no => absurd rfl no)
    intro p n nonnull fits names
    have grown : own ⊆ (p, n) :: own := List.subset_cons_self _ _
    have sums : Room A s₀ D ((p, n) :: own) p (groupsOf count * es) := Room.head fits
    have pass : ∀ kernel, Guards A shaders mayFail s₀ D ((p, n) :: own) ((p, n) :: own)
        (dispatchReduceLevel (contextOf A loaded devBase) kernel ⟨.arena, data - A.base, Option.some (count * es)⟩
          ⟨.arena, (contextOf A loaded devBase).offsetOf p, Option.some (groupsOf count * es)⟩ count (groupsOf count)) := by
      intro kernel
      apply guards_dispatch confined
      intro b hb
      rcases List.mem_cons.mp hb with rfl | hb
      · exact ⟨data, count * es, whole.more grown, rfl⟩
      · obtain rfl := List.mem_singleton.mp hb
        exact ⟨p, groupsOf count * es, sums, rfl⟩
    apply guards_ite fun _ => guards_pure grown
    intro _
    apply (pass scanKernel).bind
    intro ok
    apply guards_ite fun _ => guards_pure grown
    intro _
    refine Guards.bind (guards_ite (fun _ => ?_) fun _ => guards_pure (List.Subset.refl _)) fun ok =>
      guards_ite (fun _ => guards_pure grown) fun _ => ?_
    · apply (ih (groupsOf count) (by omega) p ((p, n) :: own) sums (by omega)).bind
      intro ok
      exact guards_ite (fun _ => guards_pure (List.Subset.refl _)) fun _ => pass addKernel
    · exact guards_download (whole.more grown) (Nat.mul_pos (by omega) pos) (guards_freed names)

theorem guards_launchExclusiveScan (confined : ∀ k, Confined (shaders k)) {scanKernel addKernel shiftKernel : String}
    {input output : Nat} {init : Option (List β)} (pos : 0 < es) (hi : Room A s₀ D own input (count * es))
    (ho : Room A s₀ D own output (count * es)) (small : count * es ≤ 2 ^ 62) :
    Guards A shaders mayFail s₀ D own own
      (launchExclusiveScan (contextOf A loaded devBase) scanKernel addKernel shiftKernel input output count es init) := by
  have all : own ⊆ own := List.Subset.refl _
  unfold launchExclusiveScan
  apply guards_scope
  apply guards_ite fun _ => guards_pure all
  intro _
  apply guards_ite fun _ => guards_pure all
  intro nonempty
  apply guards_ite fun _ => guards_pure all
  intro _
  have bytes : 0 < count * es := Nat.mul_pos (by omega) pos
  dsimp only
  rw [wmul_of_lt (by omega)]
  refine Guards.bind (guards_ite (fun _ => guards_launchScan confined pos input count own hi small) fun _ =>
    guards_pure all) fun ok => guards_ite (fun _ => guards_pure all) fun _ => ?_
  apply guards_resolve hi bytes
  apply guards_resolve ho bytes
  have shift : Guards A shaders mayFail s₀ D own own (dispatchExclusiveShift shiftKernel ⟨.arena, input - A.base, Option.some (count * es)⟩
      ⟨.arena, output - A.base, Option.some (count * es)⟩ (count % 2 ^ 32) init es (groupsOf count)) := by
    apply guards_dispatch confined
    intro b hb
    rcases List.mem_cons.mp hb with rfl | hb
    · exact ⟨input, count * es, hi, rfl⟩
    · obtain rfl := List.mem_singleton.mp hb
      exact ⟨output, count * es, ho, rfl⟩
  apply shift.bind
  intro ok
  exact guards_ite (fun _ => guards_pure all) fun _ => guards_download ho bytes (guards_pure all)

theorem guards_sortInner (confined : ∀ k, Confined (shaders k)) {kernel : String} {data : Binding} {n k groups : Nat}
    (bound : Bound A s₀ D own data) (j : Nat) :
    Guards A shaders mayFail s₀ D own own (sortInner kernel data n k groups j) := by
  have all : own ⊆ own := List.Subset.refl _
  induction j using Nat.strong_induction_on with
  | _ j ih =>
    rw [sortInner]
    refine guards_ite (fun more => Guards.bind (guards_dispatch confined ?_) fun ok => ?_) fun _ => guards_pure all
    · intro b hb
      rcases List.mem_cons.mp hb with rfl | hb
      · exact bound
      · obtain rfl := List.mem_singleton.mp hb
        exact bound
    · exact guards_ite (fun _ => ih (j / 2) (by omega)) fun _ => guards_pure all

theorem guards_sortOuter (confined : ∀ k, Confined (shaders k)) {kernel : String} {data : Binding} {n groups : Nat}
    (bound : Bound A s₀ D own data) (fuel k : Nat) :
    Guards A shaders mayFail s₀ D own own (sortOuter kernel data n groups fuel k) := by
  have all : own ⊆ own := List.Subset.refl _
  induction fuel generalizing k with
  | zero => exact guards_pure all
  | succ fuel ih =>
    rw [sortOuter]
    refine guards_ite (fun _ => Guards.bind (guards_sortInner confined bound (k / 2)) fun ok => ?_) fun _ => guards_pure all
    exact guards_ite (fun _ => ih _) fun _ => guards_pure all

theorem guards_launchSort (confined : ∀ k, Confined (shaders k)) {kernel : String} {fuel : Nat} (pos : 0 < es)
    (whole : Room A s₀ D own data (count * es)) (small : count * es ≤ 2 ^ 62) :
    Guards A shaders mayFail s₀ D own own (launchSort (contextOf A loaded devBase) kernel data count es fuel) := by
  have all : own ⊆ own := List.Subset.refl _
  unfold launchSort
  apply guards_scope
  apply guards_ite fun _ => guards_pure all
  intro _
  apply guards_ite fun _ => guards_pure all
  intro many
  apply guards_ite fun _ => guards_pure all
  intro _
  have bytes : 0 < count * es := Nat.mul_pos (by omega) pos
  rw [wmul_of_lt (by omega)]
  apply guards_resolve whole bytes
  apply (guards_sortOuter confined ⟨data, count * es, whole, rfl⟩ fuel 2).bind
  intro done
  exact guards_ite (fun _ => guards_download whole bytes (guards_pure all)) fun _ => guards_pure all

/-- Elements narrower than four bytes are left out: their positions are read past the end. -/
theorem guards_launchCompact (confined : ∀ k, Confined (shaders k)) {hv : HostValues β}
    {flagsKernel scanKernel addKernel scatterKernel : String} {input output : Nat} {isFloat : Bool} {outKept : Option Nat}
    (wide : 4 ≤ es) (hi : Room A s₀ D own input (count * es)) (ho : Room A s₀ D own output (count * es))
    (result : ∀ a, hv.KeptAt outKept a → Storable A s₀ D a) (small : count * es ≤ 2 ^ 62) :
    Guards A shaders mayFail s₀ D own own (launchCompact hv (contextOf A loaded devBase) flagsKernel scanKernel addKernel
      scatterKernel input output count es isFloat outKept) := by
  have all : own ⊆ own := List.Subset.refl _
  unfold launchCompact
  apply guards_scope
  apply guards_ite fun _ => guards_pure all
  intro _
  apply guards_storeKept result
  apply guards_ite fun _ => guards_pure all
  intro nonempty
  apply guards_ite fun _ => guards_pure all
  intro _
  have bytes : 0 < count * es := Nat.mul_pos (by omega) (by omega)
  have last : (count - 1) * es + es = count * es := by
    rw [← Nat.succ_mul, Nat.succ_eq_add_one, Nat.sub_add_cancel (by omega)]
  dsimp only
  rw [wmul_of_lt (a := count) (by omega), wmul_of_lt (a := count - 1) (by omega)]
  apply guards_resolve hi bytes
  apply guards_resolve ho bytes
  apply guards_allocate (by omega) (guards_ite (fun _ => guards_pure all) fun no => absurd rfl no)
  intro p n nonnull fits names
  have grown : own ⊆ (p, n) :: own := List.subset_cons_self _ _
  have positions : Room A s₀ D ((p, n) :: own) p (count * es) := Room.head fits
  apply guards_ite fun _ => guards_pure grown
  intro _
  have flags : Guards A shaders mayFail s₀ D ((p, n) :: own) ((p, n) :: own) (dispatchReduceLevel (contextOf A loaded devBase)
      flagsKernel ⟨.arena, input - A.base, Option.some (count * es)⟩
      ⟨.arena, (contextOf A loaded devBase).offsetOf p, Option.some (count * es)⟩ count (groupsOf count)) := by
    apply guards_dispatch confined
    intro b hb
    rcases List.mem_cons.mp hb with rfl | hb
    · exact ⟨input, count * es, hi.more grown, rfl⟩
    · obtain rfl := List.mem_singleton.mp hb
      exact ⟨p, count * es, positions, rfl⟩
  apply flags.bind
  intro ok
  apply guards_ite fun _ => guards_freed names
  intro _
  apply (guards_launchScan confined (by omega) p count ((p, n) :: own) positions small).bind
  intro ok
  apply guards_ite fun _ => guards_freed names
  intro _
  apply guards_invalidate
  have width : (if es ≥ 8 then 8 else 4) ≤ es := by split <;> omega
  apply guards_read (positions.sub (Nat.le_add_right p _) (by omega))
  intro word
  apply guards_storeKept result
  have scatter : ∀ kept, Guards A shaders mayFail s₀ D ((p, n) :: own) ((p, n) :: own) (dispatchScatter scatterKernel
      ⟨.arena, input - A.base, Option.some (count * es)⟩ ⟨.arena, output - A.base, Option.some (count * es)⟩
      ⟨.arena, (contextOf A loaded devBase).offsetOf p, Option.some (count * es)⟩ (count % 2 ^ 32) (groupsOf count) kept) := by
    intro kept
    apply guards_dispatch confined
    intro b hb
    rcases List.mem_cons.mp hb with rfl | hb
    · exact ⟨input, count * es, hi.more grown, rfl⟩
    · rcases List.mem_cons.mp hb with rfl | hb
      · exact ⟨output, count * es, ho.more grown, rfl⟩
      · obtain rfl := List.mem_singleton.mp hb
        exact ⟨p, count * es, positions, rfl⟩
  apply (scatter _).bind
  intro ok
  exact guards_ite (fun _ => guards_freed names) fun _ => guards_download (ho.more grown) bytes (guards_freed names)

theorem guards_combineWinners {hv : HostValues β} {vals idxs groups : Nat} {isFloat wantMax wantLast : Bool}
    (values : Room A s₀ D own vals (groups * es)) (indices : Room A s₀ D own idxs (groups * 4)) (blocks : List Nat)
    (within : ∀ b ∈ blocks, b < groups) (best : Nat) (val : hv.Val) :
    Guards A shaders mayFail s₀ D own own (combineWinners hv vals idxs count es isFloat wantMax wantLast blocks best val) := by
  induction blocks generalizing best val with
  | nil => exact guards_pure (List.Subset.refl _)
  | cons b blocks ih =>
    have rest := ih fun b' hb' => within b' (List.mem_cons_of_mem b hb')
    have hb := within b List.mem_cons_self
    have bytes : b * es + es ≤ groups * es := by
      calc b * es + es = (b + 1) * es := (Nat.succ_mul b es).symm
        _ ≤ groups * es := Nat.mul_le_mul_right es hb
    rw [combineWinners]
    apply guards_read (indices.sub (by omega) (by omega))
    intro word
    apply guards_ite fun _ => rest _ _
    intro _
    apply guards_read (values.sub (by omega) (by omega))
    intro x
    exact guards_ite (fun _ => rest _ _) fun _ => rest _ _

theorem guards_leastWinner {hv : HostValues β} {outi groups : Nat} (indices : Room A s₀ D own outi (groups * 4)) (blocks : List Nat)
    (within : ∀ b ∈ blocks, b < groups) (best : Nat) :
    Guards A shaders mayFail s₀ D own own (leastWinner hv outi blocks best) := by
  induction blocks generalizing best with
  | nil => exact guards_pure (List.Subset.refl _)
  | cons b blocks ih =>
    have hb := within b List.mem_cons_self
    rw [leastWinner]
    apply guards_read (indices.sub (by omega) (by omega))
    intro word
    exact ih (fun b' hb' => within b' (List.mem_cons_of_mem b hb')) _

theorem groupsOf_lt (n : Nat) : groupsOf n < 2 ^ 32 := Nat.mod_lt _ (by decide)

theorem guards_launchArgminmax (confined : ∀ k, Confined (shaders k)) {hv : HostValues β} {kernel : String}
    {isFloat wantMax wantLast : Bool} (pos : 0 < es) (whole : Room A s₀ D own data (count * es)) (small : count * es ≤ 2 ^ 62) :
    Guards A shaders mayFail s₀ D own own
      (launchArgminmax hv (contextOf A loaded devBase) kernel data count es isFloat wantMax wantLast) := by
  have all : own ⊆ own := List.Subset.refl _
  unfold launchArgminmax
  apply guards_scope
  apply guards_ite fun _ => guards_pure all
  intro _
  apply guards_ite fun _ => guards_pure all
  intro nonempty
  apply guards_ite fun _ => guards_pure all
  intro _
  apply guards_ite fun _ => guards_pure all
  intro _
  obtain ⟨fewer, bytes⟩ := groups_bytes count (by omega) small
  have groups := groupsOf_lt count
  dsimp only
  rw [bytes, wmul_of_lt (a := count) (by omega), wmul_of_lt (a := groupsOf count) (by omega)]
  apply guards_resolve whole (Nat.mul_pos (by omega) pos)
  apply guards_allocate (by omega)
  · apply guards_allocate (by omega) (guards_ite (fun _ => guards_pure all) fun no => absurd (Or.inl rfl) no)
    exact fun p n _ _ _ => guards_ite (fun _ => guards_pure (List.subset_cons_self _ _)) fun no => absurd (Or.inl rfl) no
  intro vals n₀ _ fits₀ names₀
  apply guards_allocate (by omega) (guards_ite (fun _ => guards_pure (List.subset_cons_self _ _)) fun no => absurd (Or.inr rfl) no)
  intro idxs n₁ _ fits₁ names₁
  have grown : own ⊆ (idxs, n₁) :: (vals, n₀) :: own := fun b hb => List.mem_cons_of_mem _ (List.mem_cons_of_mem _ hb)
  have values : Room A s₀ D ((idxs, n₁) :: (vals, n₀) :: own) vals (groupsOf count * es) :=
    (Room.head fits₀).more (List.subset_cons_self _ _)
  have indices : Room A s₀ D ((idxs, n₁) :: (vals, n₀) :: own) idxs (groupsOf count * 4) := Room.head fits₁
  apply guards_ite fun _ => guards_pure grown
  intro _
  refine Guards.bind (guards_dispatch confined fun b hb => ?_) fun ok => guards_ite (fun _ => guards_pure grown) fun _ => ?_
  · rcases List.mem_cons.mp hb with rfl | hb
    · exact ⟨data, count * es, whole.more grown, rfl⟩
    · rcases List.mem_cons.mp hb with rfl | hb
      · exact ⟨vals, groupsOf count * es, values, rfl⟩
      · obtain rfl := List.mem_singleton.mp hb
        exact ⟨idxs, groupsOf count * 4, indices, rfl⟩
  apply guards_invalidate
  apply (guards_combineWinners values indices _ (fun b hb => List.mem_range.mp hb) _ _).bind
  intro best
  have ne : idxs ≠ vals := fun same => names₁ (vals, n₀) List.mem_cons_self same.symm
  apply guards_deallocate ⟨n₀, List.mem_cons_of_mem _ List.mem_cons_self⟩
  apply guards_deallocate ⟨n₁, mem_released.mpr ⟨List.mem_cons_self, ne⟩⟩
  apply guards_pure
  intro b hb
  exact mem_released.mpr ⟨mem_released.mpr ⟨grown hb, names₀ b hb⟩, names₁ b (List.mem_cons_of_mem _ hb)⟩

theorem guards_findFirst (confined : ∀ k, Confined (shaders k)) {hv : HostValues β} {kernel : String} {input : Binding}
    {other : Option Binding} {push : Push β} (bound : ∀ b ∈ input :: other.toList, Bound A s₀ D own b) :
    Guards A shaders mayFail s₀ D own own
      (findFirst hv (contextOf A loaded devBase) kernel input other push count) := by
  have all : own ⊆ own := List.Subset.refl _
  have groups := groupsOf_lt count
  unfold findFirst
  dsimp only
  rw [wmul_of_lt (by omega)]
  apply guards_allocate (by omega) (guards_ite (fun _ => guards_pure all) fun no => absurd rfl no)
  intro outi n nonnull fits names
  have grown : own ⊆ (outi, n) :: own := List.subset_cons_self _ _
  have indices : Room A s₀ D ((outi, n) :: own) outi (groupsOf count * 4) := Room.head fits
  have arrays : ∀ b ∈ input :: other.toList, Bound A s₀ D ((outi, n) :: own) b := by
    intro b hb
    obtain ⟨p, k, room, same⟩ := bound b hb
    exact ⟨p, k, room.more grown, same⟩
  apply guards_ite fun _ => guards_pure grown
  intro _
  refine Guards.bind (guards_dispatch confined fun b hb => ?_) fun ok => guards_ite (fun _ => guards_pure grown) fun _ => ?_
  · rcases List.mem_cons.mp hb with rfl | hb
    · exact arrays _ List.mem_cons_self
    · rcases List.mem_cons.mp hb with rfl | hb
      · exact ⟨outi, groupsOf count * 4, indices, rfl⟩
      · exact arrays b (List.mem_cons_of_mem _ hb)
  apply guards_invalidate
  apply (guards_leastWinner indices _ (fun b hb => List.mem_range.mp hb) _).bind
  intro best
  exact guards_freed names

theorem guards_launchFind (confined : ∀ k, Confined (shaders k)) {hv : HostValues β} {kernel : String} {negate : Bool}
    {value : Option (List β)} (pos : 0 < es) (whole : Room A s₀ D own data (count * es)) (small : count * es ≤ 2 ^ 62) :
    Guards A shaders mayFail s₀ D own own (launchFind hv (contextOf A loaded devBase) kernel data count es negate value) := by
  have all : own ⊆ own := List.Subset.refl _
  unfold launchFind
  apply guards_scope
  apply guards_ite fun _ => guards_pure all
  intro _
  apply guards_ite fun _ => guards_pure all
  intro nonempty
  apply guards_ite fun _ => guards_pure all
  intro _
  rw [wmul_of_lt (by omega)]
  apply guards_resolve whole (Nat.mul_pos (by omega) pos)
  apply guards_findFirst confined
  intro b hb
  obtain rfl := List.mem_singleton.mp hb
  exact ⟨data, count * es, whole, rfl⟩

theorem guards_launchMismatch (confined : ∀ k, Confined (shaders k)) {hv : HostValues β} {kernel : String} {a b : Nat} (pos : 0 < es)
    (ha : Room A s₀ D own a (count * es)) (hb : Room A s₀ D own b (count * es)) (small : count * es ≤ 2 ^ 62) :
    Guards A shaders mayFail s₀ D own own (launchMismatch hv (contextOf A loaded devBase) kernel a b count es) := by
  have all : own ⊆ own := List.Subset.refl _
  unfold launchMismatch
  apply guards_scope
  apply guards_ite fun _ => guards_pure all
  intro _
  apply guards_ite fun _ => guards_pure all
  intro nonempty
  apply guards_ite fun _ => guards_pure all
  intro _
  have bytes : 0 < count * es := Nat.mul_pos (by omega) pos
  rw [wmul_of_lt (by omega)]
  apply guards_resolve ha bytes
  apply guards_resolve hb bytes
  apply guards_findFirst confined
  intro d hd
  rcases List.mem_cons.mp hd with rfl | hd
  · exact ⟨a, count * es, ha, rfl⟩
  · obtain rfl := List.mem_singleton.mp hd
    exact ⟨b, count * es, hb, rfl⟩

end

/-! ### Calls one after the other -/

namespace Action

/-- The arrays of a primitive, by address and size. -/
def ranges : Action β → List (Nat × Nat)
  | reduce _ data count es _ | scan _ _ data count es | sort _ data count es _ | argminmax _ data count es _ _ _
  | find _ data count es _ _ => [(data, count * es)]
  | exclusiveScan _ _ _ input output count es _ | compact _ _ _ _ input output count es _ _ =>
    [(input, count * es), (output, count * es)]
  | mismatch _ a b count es => [(a, count * es), (b, count * es)]
  | _ => []

/-- A primitive on elements of a size, for `launch_compact` one that can hold a position. -/
def Elements : Action β → Prop
  | reduce _ _ _ es _ | scan _ _ _ _ es | sort _ _ _ es _ | argminmax _ _ _ es _ _ _ | find _ _ _ es _ _
  | exclusiveScan _ _ _ _ _ _ es _ | mismatch _ _ _ _ es => 0 < es
  | compact _ _ _ _ _ _ _ es _ _ => 4 ≤ es
  | _ => False

/-- Where the host stores the result. -/
def Stores (hv : HostValues β) : Action β → Nat → Prop
  | reduce _ _ _ es outResult, a => outResult ≤ a ∧ a < outResult + es
  | compact _ _ _ _ _ _ _ _ _ outKept, a => hv.KeptAt outKept a
  | _, _ => False

def Touches (hv : HostValues β) (c : Action β) (a : Nat) : Prop := (∃ r ∈ c.ranges, r.1 ≤ a ∧ a < r.1 + r.2) ∨ c.Stores hv a

/-- One call after the other, whatever they answer. -/
def inTurn [Zero β] (hv : HostValues β) (ctx : Context) : List (Action β) → Launch β Unit
  | [] => pure ()
  | c :: calls => do
    let _ ← c.prog hv ctx
    inTurn hv ctx calls

end Action

section
variable [Zero β] {A : ArenaModel β} {shaders : String → Shader β} {mayFail : Prop} {s₀ s : A.State} {D : Nat → Prop}
  {hv : HostValues β} {loaded : String → Bool} {devBase : Nat}

theorem Action.guards (confined : ∀ k, Confined (shaders k)) (c : Action β) (valid : A.Valid s₀) (elements : c.Elements)
    (arrays : ∀ r ∈ c.ranges, InBlock (A.live s₀) r.1 r.2) (stores : ∀ a, c.Stores hv a → A.Usable (A.live s₀) a)
    (allowed : ∀ a, c.Touches hv a → D a) :
    Guards A shaders mayFail s₀ D [] [] (c.prog hv (contextOf A loaded devBase)) := by
  have room : ∀ r ∈ c.ranges, Room A s₀ D [] r.1 r.2 ∧ r.2 ≤ 2 ^ 62 := by
    intro r hr
    have bounds := (arrays r hr).bounds valid
    exact ⟨Or.inl ⟨arrays r hr, fun a low high => allowed a (Or.inl ⟨r, hr, low, high⟩)⟩, bounds.2.2.2⟩
  have first : ∀ {r L}, c.ranges = r :: L → Room A s₀ D [] r.1 r.2 ∧ r.2 ≤ 2 ^ 62 := fun split =>
    room _ (split ▸ List.mem_cons_self)
  have second : ∀ {r r' L}, c.ranges = r :: r' :: L → Room A s₀ D [] r'.1 r'.2 := fun split =>
    (room _ (split ▸ List.mem_cons_of_mem _ List.mem_cons_self)).1
  have result : ∀ a, c.Stores hv a → Storable A s₀ D a := fun a ha => ⟨stores a ha, allowed a (Or.inr ha)⟩
  cases c with
  | allocate | deallocate | write => exact elements.elim
  | reduce => exact guards_launchReduce confined elements (first rfl).1 (fun a low high => result a ⟨low, high⟩) (first rfl).2
  | scan => exact guards_launchScan confined elements _ _ _ (first rfl).1 (first rfl).2
  | exclusiveScan => exact guards_launchExclusiveScan confined elements (first rfl).1 (second rfl) (first rfl).2
  | sort => exact guards_launchSort confined elements (first rfl).1 (first rfl).2
  | compact => exact guards_launchCompact confined elements (first rfl).1 (second rfl) result (first rfl).2
  | argminmax => exact guards_launchArgminmax confined elements (first rfl).1 (first rfl).2
  | find => exact guards_launchFind confined elements (first rfl).1 (first rfl).2
  | mismatch => exact guards_launchMismatch confined elements (first rfl).1 (second rfl) (first rfl).2

/-- In any sequence of calls, and whatever fails in them, every call is made where it may be, the live blocks
stay live, and of the callers' memory only the arrays and the results of the calls change. -/
theorem primitives_isolated (confined : ∀ k, Confined (shaders k)) (calls : List (Action β)) (valid : A.Valid s)
    (elements : ∀ c ∈ calls, c.Elements) (arrays : ∀ c ∈ calls, ∀ r ∈ c.ranges, InBlock (A.live s) r.1 r.2)
    (stores : ∀ c ∈ calls, ∀ a, c.Stores hv a → A.Usable (A.live s) a) :
    (Action.inTurn hv (contextOf A loaded devBase) calls).Ensures (machine A shaders mayFail fun _ _ => True)
      (fun _ s' => Kept A (fun a => ∃ c ∈ calls, c.Touches hv a) s s') s := by
  have guarded : ∀ rest ⊆ calls, Guards A shaders mayFail s (fun a => ∃ c ∈ calls, c.Touches hv a) [] []
      (Action.inTurn hv (contextOf A loaded devBase) rest) := by
    intro rest part
    induction rest with
    | nil => exact guards_pure (List.Subset.refl _)
    | cons c rest ih =>
      have here := part List.mem_cons_self
      apply (c.guards confined valid (elements c here) (arrays c here) (stores c here) fun a touched => ⟨c, here, touched⟩).bind
      intro _
      exact ih fun d hd => part (List.mem_cons_of_mem c hd)
  apply (guarded calls (List.Subset.refl _) s (.start valid)).mono
  exact fun _ _ guard => guard.kept

end

/-- A kernel that may write anything where it is bound. -/
def anyWrites : Shader β where
  pre _ := True
  run base d m m' := ∀ a, (∀ b ∈ d.bindings, ¬ b.Reaches base a) → m' a = m a

theorem anyWrites_confined : Confined (anyWrites (β := β)) := ⟨fun _ => trivial, fun run => run⟩

/-- Calls over the first block of two; the sum goes to the second, the number of kept elements below the arena. -/
def firstBlockCalls : List (Action Nat) :=
  [.scan "scan" "add" 4096 1000 4, .compact "flags" "scan" "add" "scatter" 4096 6144 500 4 false (some 64),
    .reduce "reduce" 4096 1000 4 8192, .mismatch "mismatch" 4096 6144 500 4, .sort "sort" 4096 1024 4 31]

theorem primitives_isolated_first :
    (Action.inTurn firstCell (contextOf Legacy.smallArena (fun _ => true) 0) firstBlockCalls).Ensures
      (machine Legacy.smallArena (fun _ => anyWrites) True fun _ _ => True)
      (fun _ s' => Kept Legacy.smallArena (fun a => ∃ c ∈ firstBlockCalls, c.Touches firstCell a) (Legacy.twoBlocks, fun _ => 5) s')
      (Legacy.twoBlocks, fun _ => 5) := by
  apply primitives_isolated
  · exact fun _ => anyWrites_confined
  · exact Legacy.twoBlocks_valid _
  · simp [firstBlockCalls, Action.Elements]
  · have within : ∀ c ∈ firstBlockCalls, ∀ r ∈ c.ranges, 4096 ≤ r.1 ∧ r.1 + r.2 ≤ 8192 := by decide
    intro c hc r hr
    obtain ⟨low, high⟩ := within c hc r hr
    exact (Legacy.twoBlocks_first le_rfl).sub low high
  · intro c hc a stored
    simp only [firstBlockCalls, List.mem_cons, List.not_mem_nil, or_false] at hc
    rcases hc with rfl | rfl | rfl | rfl | rfl
    · exact stored.elim
    · obtain ⟨p, n, same, -, high⟩ := stored
      obtain rfl := Option.some.inj same
      have below : a < 65 := high
      intro inside
      have low : 4096 ≤ a := inside.1
      omega
    · exact ((Legacy.twoBlocks_second (by decide)).liveByte stored.1 stored.2).usable
    · exact stored.elim
    · exact stored.elim

end Parallax.Launcher
