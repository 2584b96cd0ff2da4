import ParallaxRuntime.Effects.Barriers
import ParallaxRuntime.Launcher.Invocations

/-!
# Lanes, access by access

The lanes of a workgroup share an array and wait for each other at barriers. Where the phases between the barriers keep
apart, a dispatch ends as if the workgroups had run one after the other.
-/

namespace Parallax.Launcher
open Memory Effects Kernel

/-- A byte of the device's memory, or a cell of the array that a workgroup shares. -/
inductive Place where
  | global (a : Nat)
  | shared (wg i : Nat)

def Place.Content (β M : Type) : Place → Type
  | global _ => β
  | shared _ _ => M

abbrev Contents (β M : Type) := ∀ k : Place, k.Content β M

inductive LaneOp (β M : Type) where
  | load (p n : Nat)
  | store (p : Nat) (x : List β)
  | get (wg i : Nat)
  | set (wg i : Nat) (x : M)
  | barrier

def laneOps (β M : Type) : Sig where
  Op := LaneOp β M
  Res
    | .load _ n => Fin n → β
    | .get _ _ => M
    | _ => Unit

variable {β M : Type}

namespace Contents

def global (m : Contents β M) : Nat → β := fun a => m (.global a)

def shared (m : Contents β M) (wg i : Nat) : M := m (.shared wg i)

def setGlobal (m : Contents β M) (g : Nat → β) : Contents β M
  | .global a => g a
  | .shared wg i => m (.shared wg i)

def setShared (m : Contents β M) (wg i : Nat) (x : M) : Contents β M
  | .global a => m (.global a)
  | .shared wg' i' => if wg' = wg ∧ i' = i then x else m (.shared wg' i')

/-- The shared array of the workgroup holds `x`. -/
def sharing (m : Contents β M) (wg : Nat) (x : Nat → M) : Contents β M
  | .global a => m (.global a)
  | .shared wg' i => if wg' = wg ∧ i < 256 then x i else m (.shared wg' i)

variable {m : Contents β M} {wg i : Nat} {x : Nat → M}

theorem sharing_shared (lt : i < 256) : (m.sharing wg x).shared wg i = x i := if_pos ⟨rfl, lt⟩

theorem setGlobal_shared {g : Nat → β} : (m.setGlobal g).shared wg i = m.shared wg i := rfl

theorem setShared_shared {z : M} : (m.setShared wg i z).shared wg i = z := if_pos ⟨rfl, rfl⟩

end Contents

def laneCells (β M : Type) : Cells (laneOps β M) Place (Place.Content β M) where
  act
    | .load p n, m => (fun k : Fin n => m (.global (p + k)), m)
    | .store p x, m => ((), Contents.setGlobal m (put (Contents.global m) p x))
    | .get wg i, m => (m (.shared wg i), m)
    | .set wg i x, m => ((), Contents.setShared m wg i x)
    | .barrier, m => ((), m)
  reads
    | .load p n, .global a => p ≤ a ∧ a < p + n
    | .get wg i, .shared wg' i' => wg' = wg ∧ i' = i
    | _, _ => False
  writes
    | .store p x, .global a => p ≤ a ∧ a < p + x.length
    | .set wg i _, .shared wg' i' => wg' = wg ∧ i' = i
    | _, _ => False
  waits
    | .barrier => true
    | _ => false
  frame {o m k} out := by
    cases o with
    | load p n => rfl
    | store p x =>
      cases k with
      | global a => exact put_outside out
      | shared wg i => rfl
    | get wg i => rfl
    | set wg i x =>
      cases k with
      | global a => rfl
      | shared wg' i' => exact if_neg out
    | barrier => rfl
  answer {o m m'} same := by
    cases o with
    | load p n =>
      funext k
      exact same (.global _) ⟨by omega, by omega⟩
    | get wg i => exact same (.shared wg i) ⟨rfl, rfl⟩
    | store p x => rfl
    | set wg i x => rfl
    | barrier => rfl
  effect {o m m' k} same wrote := by
    cases o with
    | store p x =>
      cases k with
      | global a => exact put_inside wrote
      | shared wg i => exact wrote.elim
    | set wg i x =>
      cases k with
      | global a => exact wrote.elim
      | shared wg' i' => exact (if_pos wrote).trans (if_pos wrote).symm
    | load p n => exact wrote.elim
    | get wg i => exact wrote.elim
    | barrier => exact wrote.elim
  silent {o k} waits := by
    cases o with
    | barrier => exact ⟨id, id⟩
    | load p n => cases waits
    | store p x => cases waits
    | get wg i => cases waits
    | set wg i x => cases waits

def globalLoad (c : Codec β M) (p i : Nat) : Prog (laneOps β M) M := do
  let x ← Prog.op (S := laneOps β M) (.load (p + i * c.size) c.size)
  pure (c.dec x)

def globalStore (c : Codec β M) (p i : Nat) (x : M) : Prog (laneOps β M) Unit :=
  Prog.op (S := laneOps β M) (.store (p + i * c.size) (List.ofFn (c.enc x)))

def sharedGet (wg i : Nat) : Prog (laneOps β M) M := Prog.op (S := laneOps β M) (.get wg i)
def sharedSet (wg i : Nat) (x : M) : Prog (laneOps β M) Unit := Prog.op (S := laneOps β M) (.set wg i x)
def barrier : Prog (laneOps β M) Unit := Prog.op (S := laneOps β M) .barrier

section
variable {γ : Type} {c : Codec β M} {p i wg : Nat} {x : M} {m : Contents β M} {f : M → Prog (laneOps β M) γ} {D W : Place → Prop}
  {Q : γ → Contents β M → Prop} {Q' : Unit → Contents β M → Prop}

theorem ensures_globalLoad (read : ∀ a, Cell c p i a → D (.global a))
    (rest : (f (c.get m.global p i)).Ensures ((laneCells β M).within D W) Q m) :
    (globalLoad c p i >>= f).Ensures ((laneCells β M).within D W) Q m := by
  refine ⟨fun _ => ⟨fun k inside => ?_, fun _ => False.elim⟩, ?_⟩
  · cases k with
    | global a => exact read a inside
    | shared wg i => exact inside.elim
  · rintro _ _ ⟨-, rfl, rfl⟩
    exact rest

theorem ensures_globalStore (write : ∀ a, Cell c p i a → W (.global a)) (last : Q' () (m.setGlobal (c.put m.global p i x))) :
    (globalStore c p i x).Ensures ((laneCells β M).within D W) Q' m := by
  refine ⟨fun _ => ⟨fun _ => False.elim, fun k inside => ?_⟩, ?_⟩
  · cases k with
    | global a =>
      have here : p + i * c.size ≤ a ∧ a < p + i * c.size + (List.ofFn (c.enc x)).length := inside
      rw [List.length_ofFn] at here
      exact write a here
    | shared wg i => exact inside.elim
  · rintro _ _ ⟨-, rfl, rfl⟩
    rw [← put_ofFn] at last
    exact last

theorem ensures_sharedGet (read : D (.shared wg i)) (rest : (f (m (.shared wg i))).Ensures ((laneCells β M).within D W) Q m) :
    (sharedGet wg i >>= f).Ensures ((laneCells β M).within D W) Q m := by
  refine ⟨fun _ => ⟨fun k here => ?_, fun _ => False.elim⟩, ?_⟩
  · cases k with
    | global a => exact here.elim
    | shared wg' i' =>
      obtain ⟨rfl, rfl⟩ := here
      exact read
  · rintro _ _ ⟨-, rfl, rfl⟩
    exact rest

theorem ensures_sharedSet (write : W (.shared wg i)) (last : Q' () (m.setShared wg i x)) :
    (sharedSet wg i x).Ensures ((laneCells β M).within D W) Q' m := by
  refine ⟨fun _ => ⟨fun _ => False.elim, fun k here => ?_⟩, ?_⟩
  · cases k with
    | global a => exact here.elim
    | shared wg' i' =>
      obtain ⟨rfl, rfl⟩ := here
      exact write
  · rintro _ _ ⟨-, rfl, rfl⟩
    exact last

end

/-! ### The load at the start -/

section
variable [AddCommMonoid M]

/-- A lane loads its element into its cell, or 0 past the end. -/
def loadLane (c : Codec β M) (indata count wg tid : Nat) : Prog (laneOps β M) Unit := do
  let gid := wg * 256 + tid
  let x ← if gid < count then globalLoad c indata gid else pure 0
  sharedSet wg tid x

variable {c : Codec β M} {indata count wg : Nat} {m : Contents β M}

/-- The lane's own cell and element. -/
def loadReads (c : Codec β M) (indata count wg tid : Nat) : Place → Prop
  | .global a => wg * 256 + tid < count ∧ Cell c indata (wg * 256 + tid) a
  | .shared wg' i => wg' = wg ∧ i = tid

def loadWrites (wg tid : Nat) : Place → Prop
  | .global _ => False
  | .shared wg' i => wg' = wg ∧ i = tid

/-- What the lanes of the workgroup load. -/
def loaded (c : Codec β M) (indata count wg : Nat) (m : Nat → β) (tid : Nat) : M :=
  if wg * 256 + tid < count then c.get m indata (wg * 256 + tid) else 0

theorem after_loadLane {tid : Nat} :
    (laneCells β M).after (loadLane c indata count wg tid) m = m.setShared wg tid (loaded c indata count wg m.global tid) := by
  unfold loadLane loaded
  dsimp only
  split
  · rfl
  · rfl

theorem loadLane_rest {tid : Nat} : (laneCells β M).rest (loadLane c indata count wg tid) m = .ret () := by
  unfold loadLane
  dsimp only
  split
  · rfl
  · rfl

theorem loadLane_raceFree : (laneCells β M).RaceFree (fun t : Fin 256 => loadReads c indata count wg t) (fun t : Fin 256 => loadWrites wg t)
    (fun t : Fin 256 => loadLane c indata count wg t) m where
  own t k wrote := by
    cases k with
    | global a => exact wrote.elim
    | shared wg' i => exact wrote
  apart t t' k ne wrote read := by
    cases k with
    | global a => exact wrote
    | shared wg' i => exact ne (Fin.ext (wrote.2.symm.trans read.2))
  within t := by
    unfold loadLane
    dsimp only
    split
    · next lt =>
      apply ensures_globalLoad fun a inside => ⟨lt, inside⟩
      exact ensures_sharedSet ⟨rfl, rfl⟩ trivial
    · exact ensures_sharedSet ⟨rfl, rfl⟩ trivial

theorem loadLane_merged : Merged (fun t : Fin 256 => loadWrites wg t)
    (fun t : Fin 256 => (laneCells β M).after (loadLane c indata count wg t)) m (m.sharing wg (loaded c indata count wg m.global)) := by
  constructor
  · intro t k wrote
    cases k with
    | global a => exact wrote.elim
    | shared wg' i =>
      obtain ⟨rfl, rfl⟩ := wrote
      have value : Contents.shared ((laneCells β M).after (loadLane c indata count wg' t) m) wg' t = loaded c indata count wg' m.global t := by
        rw [after_loadLane, Contents.setShared_shared]
      exact (Contents.sharing_shared t.isLt).trans value.symm
  · intro k none
    cases k with
    | global a => rfl
    | shared wg' i => exact if_neg fun inside => none ⟨i, inside.2⟩ ⟨inside.1, rfl⟩

end

/-! ### Dispatches of workgroups -/

section
variable {n : Nat} {m : Contents β M} {D W : Fin n → Place → Prop} {lanes : Fin n → Fin 256 → Prog (laneOps β M) Unit}

/-- The lanes of all workgroups take turns at every access, and those of a workgroup pass a barrier together. -/
abbrev LanesTurn (lanes : Fin n → Fin 256 → Prog (laneOps β M) Unit) (m : Contents β M) (lanes' : Fin n → Fin 256 → Prog (laneOps β M) Unit)
    (m' : Contents β M) : Prop :=
  Turns (fun _ => (laneCells β M).Grouped) lanes m lanes' m'

/-- A lane is about to write what another one is about to use. -/
def Race (lanes : Fin n → Fin 256 → Prog (laneOps β M) Unit) : Prop :=
  (laneCells β M).Conflict fun p : Fin n × Fin 256 => lanes p.1 p.2

/-- The lanes can all be run to their ends. -/
def CanEnd (lanes : Fin n → Fin 256 → Prog (laneOps β M) Unit) (m : Contents β M) : Prop :=
  ∃ lanes' m', LanesTurn lanes m lanes' m' ∧ ∀ g, Prog.Finished (lanes' g)

/-- They can end with this memory of the device. -/
def LanesEnd (lanes : Fin n → Fin 256 → Prog (laneOps β M) Unit) (m : Contents β M) (out : Nat → β) : Prop :=
  ∃ lanes' m', LanesTurn lanes m lanes' m' ∧ (∀ g, Prog.Finished (lanes' g)) ∧ Contents.global m' = out

theorem lanesEnd_iff {ends : Fin n → Contents β M} {f : Nat → (Nat → β) → Nat → β} {out : Nat → β}
    (own : ∀ g k, W g k → D g k) (apart : ∀ g g' k, g ≠ g' → W g k → ¬ D g' k)
    (phased : ∀ g, (laneCells β M).Phased (D g) (W g) (lanes g) m (ends g)) (same : ∀ g, (ends g).global = f g m.global)
    (contained : ∀ g : Fin n, Contained (fun a => D g (.global a)) (fun a => W g (.global a)) (f g) m.global) :
    LanesEnd lanes m out ↔ InAnyOrder n f m.global out := by
  have merged : ∀ lanes' m', LanesTurn lanes m lanes' m' → (∀ g, Prog.Finished (lanes' g)) →
      Merged (fun g a => W g (.global a)) (fun g : Fin n => f g) m.global (Contents.global m') := by
    intro lanes' m' run ended
    obtain ⟨writes, frame⟩ := Cells.Phased.groups apart own phased run ended
    exact ⟨fun g a wrote => (writes g (.global a) wrote).trans (congrFun (same g) a), fun a none => frame (.global a) none⟩
  have order : ∀ {out}, InAnyOrder n f m.global out → Merged (fun g a => W g (.global a)) (fun g : Fin n => f g) m.global out :=
    inAnyOrder_merged (fun g a => own g (.global a)) (fun g g' a => apart g g' (.global a)) contained
  constructor
  · rintro ⟨lanes', m', run, ended, rfl⟩
    obtain ⟨out, whole⟩ := InAnyOrder.exists_run n f m.global
    rwa [← (order whole).unique (merged lanes' m' run ended)] at whole
  · intro whole
    obtain ⟨lanes', m', run, ended⟩ := Cells.Phased.exists_groups apart phased (.refl lanes m)
    exact ⟨lanes', m', run, ended, (order whole).unique (merged lanes' m' run ended)⟩

end

/-- A memory of ones, with shared arrays of zeros. -/
def ones : Contents Nat Nat
  | .global _ => (1 : Nat)
  | .shared _ _ => (0 : Nat)

end Parallax.Launcher
