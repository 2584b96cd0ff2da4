import Mathlib.Data.List.Forall2
import ParallaxRuntime.Arena.Basic

/-!
# Blocks as large as they were asked for

An arena rounds sizes up. A caller owns the bytes that it asked for, so what it may access are blocks of the requested
sizes at the same pointers.
-/

namespace Parallax.Arena

/-- A requested block and the arena's block for it. -/
def Covered (r b : Nat × Nat) : Prop := r.1 = b.1 ∧ r.2 ≤ b.2

section
variable {R B : List (Nat × Nat)}

theorem exists_of_forall₂ {α γ : Type} {P : α → γ → Prop} {xs : List α} {ys : List γ} (h : List.Forall₂ P xs ys) :
    ∀ x ∈ xs, ∃ y ∈ ys, P x y := by
  induction h with
  | nil => simp
  | @cons x y xs ys hxy rest ih =>
    intro z hz
    rcases List.mem_cons.mp hz with rfl | hz
    · exact ⟨y, List.mem_cons_self, hxy⟩
    · obtain ⟨w, hw, hzw⟩ := ih z hz
      exact ⟨w, List.mem_cons_of_mem y hw, hzw⟩

theorem covered_liveByte (h : List.Forall₂ Covered R B) {a : Nat} (live : LiveByte R a) : LiveByte B a := by
  obtain ⟨r, hr, low, high⟩ := live
  obtain ⟨b, hb, same, fits⟩ := exists_of_forall₂ h r hr
  exact ⟨b, hb, by omega, by omega⟩

theorem covered_usable (h : List.Forall₂ Covered R B) {base capacity a : Nat} (usable : Usable base capacity R a) :
    Usable base capacity B a := fun inside => covered_liveByte h (usable inside)

theorem covered_released (h : List.Forall₂ Covered R B) (p : Nat) : List.Forall₂ Covered (released R p) (released B p) := by
  induction h with
  | nil => exact .nil
  | @cons r b R B hrb rest ih =>
    have same := hrb.1
    unfold released at ih ⊢
    by_cases gone : b.1 = p
    · rw [List.filter_cons_of_neg (by simp [same, gone]), List.filter_cons_of_neg (by simp [gone])]
      exact ih
    · rw [List.filter_cons_of_pos (by simpa [same] using gone), List.filter_cons_of_pos (by simpa using gone)]
      exact .cons hrb ih

theorem covered_disjoint (h : List.Forall₂ Covered R B) (pairs : B.Pairwise fun b b' => Apart b b' ∧ b.1 ≠ b'.1) :
    R.Pairwise fun b b' => Apart b b' ∧ b.1 ≠ b'.1 := by
  induction h with
  | nil => exact .nil
  | @cons r b R B hrb rest ih =>
    obtain ⟨head, tail⟩ := List.pairwise_cons.mp pairs
    refine List.pairwise_cons.mpr ⟨?_, ih tail⟩
    intro r' hr'
    obtain ⟨b', hb', same, fits⟩ := exists_of_forall₂ rest r' hr'
    obtain ⟨apart, ne⟩ := head b' hb'
    have := hrb.1
    have := hrb.2
    unfold Apart at *
    omega

end

/-- The arena, with live blocks of the requested sizes. -/
def ArenaModel.requested {β : Type} (A : ArenaModel β) : ArenaModel β where
  State := A.State × List (Nat × Nat)
  base := A.base
  capacity := A.capacity
  mem s := A.mem s.1
  setMem s m := (A.setMem s.1 m, s.2)
  live s := s.2
  Valid s := A.Valid s.1 ∧ List.Forall₂ Covered s.2 (A.live s.1)
  Allocates s size align p s' := A.Allocates s.1 size align p s'.1 ∧ s'.2 = if p = 0 then s.2 else (p, size) :: s.2
  Frees s p s' := A.Frees s.1 p s'.1 ∧ s'.2 = released s.2 p
  inside := by
    rintro s ⟨valid, covered⟩ r hr
    obtain ⟨b, hb, same, fits⟩ := exists_of_forall₂ covered r hr
    have := A.inside valid b hb
    omega
  disjoint := by
    rintro s ⟨valid, covered⟩
    exact covered_disjoint covered (A.disjoint valid)
  small := A.small
  allocates := by
    rintro s size ⟨valid, -⟩ fits
    obtain ⟨p, s', step⟩ := A.allocates valid fits
    exact ⟨p, (s', _), step, rfl⟩
  allocate_spec := by
    rintro s size p s' ⟨valid, covered⟩ fits ⟨step, asked⟩
    obtain ⟨valid', same, result⟩ := A.allocate_spec valid fits step
    rcases result with ⟨null, live⟩ | ⟨nonnull, n, room, live⟩
    · rw [if_pos null] at asked
      rw [asked, live]
      exact ⟨⟨valid', covered⟩, fun a ha => same a (covered_usable covered ha), Or.inl ⟨null, rfl⟩⟩
    · rw [if_neg nonnull] at asked
      rw [asked, live]
      exact ⟨⟨valid', .cons ⟨rfl, room⟩ covered⟩, fun a ha => same a (covered_usable covered ha),
        Or.inr ⟨nonnull, size, Nat.le_refl size, rfl⟩⟩
  frees := by
    rintro s r ⟨valid, covered⟩ hr
    obtain ⟨b, hb, same, -⟩ := exists_of_forall₂ covered r hr
    obtain ⟨s', step⟩ := A.frees valid hb
    exact ⟨(s', _), same ▸ step, rfl⟩
  free_spec := by
    rintro s r s' ⟨valid, covered⟩ hr ⟨step, asked⟩
    obtain ⟨b, hb, same, -⟩ := exists_of_forall₂ covered r hr
    rw [same] at step asked
    obtain ⟨valid', live, kept⟩ := A.free_spec valid hb step
    have covered' := covered_released covered b.1
    rw [← live, ← asked] at covered'
    refine ⟨⟨valid', covered'⟩, same ▸ asked, ?_⟩
    intro a ha
    exact kept a (covered_usable covered' ha)
  write_spec := by
    rintro s m ⟨valid, covered⟩ outside
    obtain ⟨valid', live, mem⟩ := A.write_spec valid fun a dead => outside a fun ha => dead (covered_usable covered ha)
    exact ⟨⟨valid', live ▸ covered⟩, rfl, mem⟩

end Parallax.Arena
