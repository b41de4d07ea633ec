/-
  Logic/Largest.lean --- taking the largest until they are enough.

  WHAT THIS FILE IS FOR.  Elements are taken from a list one by one until those taken are enough.
  The shortest beginning that is enough is taken.  Where the list has the heaviest elements in
  front, no choice of as many elements weighs more than its beginning, so that no smaller choice
  is enough, where being enough depends on the number and the weight only.
-/
import Mathlib.Algebra.Order.Monoid.Defs
import Mathlib.Algebra.BigOperators.Group.List.Basic
import Mathlib.Data.List.Perm.Subperm

set_option autoImplicit false

namespace Runar.Logic

section Taking

variable {α : Type} {enough : List α → Bool} {taken rest : List α}

/-- Take elements until those taken are enough; all of them where they never are. -/
def takeUntil (enough : List α → Bool) (taken : List α) : List α → List α
  | [] => taken
  | a :: rest =>
      if enough (taken ++ [a]) then taken ++ [a] else takeUntil enough (taken ++ [a]) rest

/-- A beginning of the rest is taken. -/
theorem takeUntil_prefix (enough : List α → Bool) (taken rest : List α) :
    ∃ k ≤ rest.length, takeUntil enough taken rest = taken ++ rest.take k := by
  induction rest generalizing taken with
  | nil => exact ⟨0, Nat.le_refl _, (List.append_nil taken).symm⟩
  | cons a rest ih =>
    rw [takeUntil]
    split
    · exact ⟨1, Nat.succ_le_succ (Nat.zero_le _), rfl⟩
    · obtain ⟨k, hk, heq⟩ := ih (taken ++ [a])
      refine ⟨k + 1, Nat.succ_le_succ hk, ?_⟩
      rw [heq, List.take_succ_cons, List.append_assoc, List.singleton_append]

theorem takeUntil_ne_nil (h : taken ++ rest ≠ []) : takeUntil enough taken rest ≠ [] := by
  induction rest generalizing taken with
  | nil => rwa [List.append_nil] at h
  | cons a rest ih =>
    rw [takeUntil]
    split
    · exact List.concat_ne_nil a taken
    · exact ih (by rw [List.append_assoc]; exact h)

/-- Where some beginning is enough, what is taken is enough and no longer. -/
theorem takeUntil_enough (enough : List α → Bool) (taken : List α) {k : Nat} (hpos : 0 < k)
    (hk : k ≤ rest.length) (h : enough (taken ++ rest.take k) = true) :
    enough (takeUntil enough taken rest) = true ∧
      (takeUntil enough taken rest).length ≤ taken.length + k := by
  induction rest generalizing taken k with
  | nil => exact absurd hpos (Nat.not_lt.mpr hk)
  | cons a rest ih =>
    rw [takeUntil]
    split
    · next hone =>
      refine ⟨hone, ?_⟩
      rw [List.length_append, List.length_singleton]
      omega
    · next hone =>
      obtain ⟨k, rfl⟩ := Nat.exists_eq_succ_of_ne_zero (Nat.ne_of_gt hpos)
      rw [List.take_succ_cons, ← List.singleton_append, ← List.append_assoc] at h
      have hk' : 0 < k := by
        refine Nat.pos_of_ne_zero fun hzero => hone ?_
        rwa [hzero, List.take_zero, List.append_nil] at h
      obtain ⟨henough, hlength⟩ := ih (taken ++ [a]) hk' (Nat.le_of_succ_le_succ hk) h
      rw [List.length_append, List.length_singleton] at hlength
      exact ⟨henough, by omega⟩

end Taking

section Weights

variable {α M : Type} [AddCommMonoid M] [LinearOrder M] [IsOrderedAddMonoid M] {w : α → M}

theorem sum_sublist_le {s l : List α} (hl : l.Pairwise fun a b => w b ≤ w a) (hs : s.Sublist l) :
    (s.map w).sum ≤ ((l.take s.length).map w).sum := by
  induction l generalizing s with
  | nil =>
    rw [List.sublist_nil.mp hs]
    exact le_refl _
  | cons a l ih =>
    obtain ⟨ha, hl⟩ := List.pairwise_cons.mp hl
    cases s with
    | nil => exact le_refl _
    | cons b s =>
      -- the first of the choice is no heavier than the first of all
      have hfirst : w b ≤ w a ∧ s.Sublist l := by
        cases hs with
        | cons _ hs => exact ⟨ha b (hs.subset List.mem_cons_self), List.sublist_of_cons_sublist hs⟩
        | cons_cons _ hs => exact ⟨le_refl _, hs⟩
      rw [List.length_cons, List.take_succ_cons, List.map_cons, List.map_cons, List.sum_cons,
        List.sum_cons]
      exact add_le_add hfirst.1 (ih hl hfirst.2)

/-- No choice weighs more than the beginning of its length. -/
theorem sum_subperm_le {s l : List α} (hl : l.Pairwise fun a b => w b ≤ w a) (hs : s.Subperm l) :
    (s.map w).sum ≤ ((l.take s.length).map w).sum := by
  obtain ⟨s', hperm, hsub⟩ := hs
  rw [← (hperm.map w).sum_eq, ← hperm.length_eq]
  exact sum_sublist_le hl hsub

end Weights

end Runar.Logic
