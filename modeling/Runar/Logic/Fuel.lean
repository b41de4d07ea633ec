/-
  Logic/Fuel.lean --- computations with fuel that come to a result.

  WHAT THIS FILE IS FOR.  A recursion that the checker cannot see through gets a number of rounds
  and has no result when they are used up.  It yields a result when it has that one for every
  number of rounds from some number on.  This file has how such computations compose.
-/
import Mathlib.Order.Basic

set_option autoImplicit false

namespace Runar.Logic

variable {α β : Type}

/-- From some number of rounds on the computation has the result. -/
def Yields (f : Nat → Option α) (x : α) : Prop := ∃ enough, ∀ n, enough ≤ n → f n = some x

namespace Yields

variable {f g : Nat → Option α} {x y : α}

theorem of_eq (h : ∀ n, f n = some x) : Yields f x := ⟨0, fun n _ => h n⟩

theorem congr (h : ∀ n, g n = f n) (hf : Yields f x) : Yields g x := by
  obtain ⟨enough, hyields⟩ := hf
  exact ⟨enough, fun n hn => (h n).trans (hyields n hn)⟩

/-- A round more does no harm. -/
theorem succ (h : Yields (fun n => f (n + 1)) x) : Yields f x := by
  obtain ⟨enough, hyields⟩ := h
  refine ⟨enough + 1, fun n hn => ?_⟩
  obtain ⟨n, rfl⟩ := Nat.exists_eq_add_of_lt (Nat.lt_of_lt_of_le (Nat.succ_pos enough) hn)
  rw [Nat.zero_add] at hn ⊢
  exact hyields n (Nat.le_of_succ_le_succ hn)

/-- One computation after another. -/
theorem bind {k : Nat → α → Option β} {z : β} (hf : Yields f x)
    (hk : Yields (fun n => k n x) z) : Yields (fun n => (f n).bind (k n)) z := by
  obtain ⟨enough, hyields⟩ := hf
  obtain ⟨enough', hyields'⟩ := hk
  refine ⟨max enough enough', fun n hn => ?_⟩
  show (f n).bind (k n) = some z
  rw [hyields n (Nat.le_trans (Nat.le_max_left _ _) hn), Option.bind_some]
  exact hyields' n (Nat.le_trans (Nat.le_max_right _ _) hn)

/-- There is one result at most. -/
theorem unique (hx : Yields f x) (hy : Yields f y) : x = y := by
  obtain ⟨enough, hyields⟩ := hx
  obtain ⟨enough', hyields'⟩ := hy
  have h := hyields (max enough enough') (Nat.le_max_left _ _)
  rw [hyields' _ (Nat.le_max_right _ _)] at h
  exact (Option.some.inj h).symm

end Yields

/-- The same for a loop whose rounds are counted apart from those of what it calls. -/
def Settles (f : Nat → Nat → Option α) (x : α) : Prop :=
  ∃ enough, ∀ m n, enough ≤ m → enough ≤ n → f m n = some x

theorem Yields.settles {f : Nat → Option α} {x : α} (h : Yields f x) :
    Settles (fun m _ => f m) x := by
  obtain ⟨enough, hyields⟩ := h
  exact ⟨enough, fun m _ hm _ => hyields m hm⟩

namespace Settles

variable {f g : Nat → Nat → Option α} {x : α}

theorem of_eq (h : ∀ m n, f m n = some x) : Settles f x := ⟨0, fun m n _ _ => h m n⟩

theorem congr (h : ∀ m n, g m n = f m n) (hf : Settles f x) : Settles g x := by
  obtain ⟨enough, hsettles⟩ := hf
  exact ⟨enough, fun m n hm hn => (h m n).trans (hsettles m n hm hn)⟩

theorem yields (h : Settles f x) : Yields (fun n => f n n) x := by
  obtain ⟨enough, hsettles⟩ := h
  exact ⟨enough, fun n hn => hsettles n n hn hn⟩

/-- One round of the loop. -/
theorem round (h : Settles (fun m n => f m (n + 1)) x) : Settles f x := by
  obtain ⟨enough, hsettles⟩ := h
  refine ⟨enough + 1, fun m n hm hn => ?_⟩
  obtain ⟨n, rfl⟩ := Nat.exists_eq_succ_of_ne_zero (Nat.ne_of_gt (Nat.lt_of_lt_of_le
    (Nat.succ_pos enough) hn))
  exact hsettles m n (Nat.le_of_succ_le hm) (Nat.le_of_succ_le_succ hn)

theorem bind {k : Nat → Nat → α → Option β} {z : β} (hf : Settles f x)
    (hk : Settles (fun m n => k m n x) z) : Settles (fun m n => (f m n).bind (k m n)) z := by
  obtain ⟨enough, hsettles⟩ := hf
  obtain ⟨enough', hsettles'⟩ := hk
  refine ⟨max enough enough', fun m n hm hn => ?_⟩
  show (f m n).bind (k m n) = some z
  rw [hsettles m n (Nat.le_trans (Nat.le_max_left _ _) hm)
    (Nat.le_trans (Nat.le_max_left _ _) hn), Option.bind_some]
  exact hsettles' m n (Nat.le_trans (Nat.le_max_right _ _) hm)
    (Nat.le_trans (Nat.le_max_right _ _) hn)

end Settles

end Runar.Logic
