import Mathlib.Data.List.Perm.Basic
import Mathlib.Data.List.Nodup
import Mathlib.Data.Nat.Bitwise

/-!
# Ledgers of owned pointers

Several allocators serve one program. The ledger lists the pointers that each of them has
handed out and not taken back. A trace of allocator calls is settled call by call, and a
release of a pointer that its allocator does not hold is refused.
-/

namespace Ownership

/-- A call to the allocator `o`. A null pointer is 0. -/
inductive Call (ω : Type) where
  | alloc (o : ω) (p : Nat)
  | free (o : ω) (p : Nat)
  | realloc (o : ω) (p n q : Nat)
deriving DecidableEq

abbrev Ledger (ω : Type) := List (ω × Nat)

section
variable {ω : Type} [DecidableEq ω]

/-- Resizing to nothing releases the pointer; a null answer to any other size keeps it. -/
def Ledger.settle (L : Ledger ω) : Call ω → Option (Ledger ω)
  | .alloc o p => some (if p = 0 then L else (o, p) :: L)
  | .free o p => if (o, p) ∈ L then some (L.erase (o, p)) else none
  | .realloc o p n q =>
    if (o, p) ∈ L then
      some (if q = 0 then (if n = 0 then L.erase (o, p) else L) else (o, q) :: L.erase (o, p))
    else none

def Ledger.settleAll (L : Ledger ω) (trace : List (Call ω)) : Option (Ledger ω) := trace.foldlM Ledger.settle L

/-- The ledger of a run, if every release in it went to the allocator that held the pointer. -/
def replay (trace : List (Call ω)) : Option (Ledger ω) := Ledger.settleAll [] trace

/-- The pointers that `o` holds. -/
def Ledger.heldBy (L : Ledger ω) (o : ω) : List Nat := L.filterMap fun e => if e.1 = o then some e.2 else none

/-- The program's live pointers once it is given `p`. -/
def granted (live : List Nat) (p : Nat) : List Nat := if p = 0 then live else p :: live

/-- The program's live pointers once `p` is resized to `n` bytes at `q`. -/
def regranted (live : List Nat) (p n q : Nat) : List Nat :=
  if q = 0 then (if n = 0 then live.erase p else live) else q :: live.erase p

variable {L : Ledger ω} {o o' : ω} {p q n : Nat} {live : List Nat}

theorem Ledger.settleAll_append (trace calls : List (Call ω)) :
    L.settleAll (trace ++ calls) = (L.settleAll trace).bind fun L' => L'.settleAll calls := by
  unfold Ledger.settleAll
  rw [List.foldlM_append]
  rfl

theorem replay_append {trace calls : List (Call ω)} (settled : replay trace = some L) :
    replay (trace ++ calls) = L.settleAll calls := by
  unfold replay at *
  rw [Ledger.settleAll_append, settled, Option.bind_some]

@[simp] theorem Ledger.settleAll_nil : L.settleAll [] = some L := rfl

@[simp] theorem Ledger.settleAll_singleton (c : Call ω) : L.settleAll [c] = L.settle c := by
  unfold Ledger.settleAll
  rw [List.foldlM_cons]
  cases L.settle c <;> rfl

theorem Ledger.settle_free (held : (o, p) ∈ L) : L.settle (.free o p) = some (L.erase (o, p)) := if_pos held

theorem Ledger.settle_free_refused (other : (o, p) ∉ L) : L.settle (.free o p) = none := if_neg other

theorem Ledger.settle_realloc (held : (o, p) ∈ L) : L.settle (.realloc o p n q) =
    some (if q = 0 then (if n = 0 then L.erase (o, p) else L) else (o, q) :: L.erase (o, p)) := if_pos held

@[simp] theorem Ledger.heldBy_nil : Ledger.heldBy ([] : Ledger ω) o = [] := rfl

@[simp] theorem Ledger.heldBy_cons_self : Ledger.heldBy ((o, p) :: L) o = p :: L.heldBy o := by
  unfold Ledger.heldBy
  rw [List.filterMap_cons, if_pos rfl]

theorem Ledger.heldBy_cons_other (other : o' ≠ o) : Ledger.heldBy ((o', p) :: L) o = L.heldBy o := by
  unfold Ledger.heldBy
  rw [List.filterMap_cons, if_neg other]

theorem Ledger.mem_heldBy : p ∈ L.heldBy o ↔ (o, p) ∈ L := by
  unfold Ledger.heldBy
  rw [List.mem_filterMap]
  constructor
  · rintro ⟨⟨o', p'⟩, mem, found⟩
    split at found
    · next same =>
      cases found
      cases same
      exact mem
    · cases found
  · intro mem
    exact ⟨(o, p), mem, if_pos rfl⟩

theorem Ledger.heldBy_erase (held : (o, p) ∈ L) : (L.heldBy o).Perm (p :: Ledger.heldBy (L.erase (o, p)) o) := by
  have := (List.perm_cons_erase held).filterMap fun e => if e.1 = o then some e.2 else none
  rw [List.filterMap_cons, if_pos rfl] at this
  exact this

theorem Ledger.heldBy_erase_other (held : (o', p) ∈ L) (other : o' ≠ o) :
    (L.heldBy o).Perm (Ledger.heldBy (L.erase (o', p)) o) := by
  have := (List.perm_cons_erase held).filterMap fun e => if e.1 = o then some e.2 else none
  rw [List.filterMap_cons, if_neg other] at this
  exact this

omit [DecidableEq ω] in
/-- A pointer that the program holds once has one owner. -/
theorem Ledger.owner_unique (agree : (L.map Prod.snd).Perm live) (distinct : live.Nodup) (held : (o, p) ∈ L)
    (held' : (o', p) ∈ L) : o = o' := by
  have same : (o, p) = (o', p) := List.inj_on_of_nodup_map (agree.nodup_iff.mpr distinct) held held' rfl
  exact congrArg Prod.fst same

theorem Ledger.map_erase (held : (o, p) ∈ L) (agree : (L.map Prod.snd).Perm live) :
    ((L.erase (o, p)).map Prod.snd).Perm (live.erase p) := by
  have mem : p ∈ live := agree.subset (List.mem_map_of_mem held)
  have split := (List.perm_cons_erase held).map Prod.snd
  rw [List.map_cons] at split
  exact (split.symm.trans (agree.trans (List.perm_cons_erase mem))).cons_inv

omit [DecidableEq ω] in
theorem Ledger.map_granted (agree : (L.map Prod.snd).Perm live) :
    ((if p = 0 then L else (o, p) :: L).map Prod.snd).Perm (granted live p) := by
  unfold granted
  split
  · exact agree
  · exact agree.cons p

theorem Ledger.map_regranted (held : (o, p) ∈ L) (agree : (L.map Prod.snd).Perm live) :
    ((if q = 0 then (if n = 0 then L.erase (o, p) else L) else (o, q) :: L.erase (o, p)).map Prod.snd).Perm
      (regranted live p n q) := by
  have erased := L.map_erase held agree
  unfold regranted
  split
  · split
    · exact erased
    · exact agree
  · exact erased.cons q

end

end Ownership
