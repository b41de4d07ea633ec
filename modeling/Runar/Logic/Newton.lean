/-
  Logic/Newton.lean --- Newton's iteration for the square root, on whole numbers.

  WHAT THIS FILE IS FOR.  The mean of a guess and its quotient is a better guess,
  and rounded down it comes down to the root and no further.  A loop with a test
  stops there; an unrolled loop goes on, so it also matters what a round does to the
  root itself.

  AT THE ROOT.  The root is a fixed point, but for a number that is one below a
  square: there the iteration goes up by one and down again for ever.
-/
import Mathlib.Logic.Function.Iterate
import Mathlib.Algebra.Group.Even
import Mathlib.Data.Nat.Sqrt
import Mathlib.Algebra.Group.Nat.Even
import Mathlib.Tactic.Linarith
import Mathlib.Tactic.Ring

set_option autoImplicit false

namespace Runar.Newton

/-- A round: the mean of the guess and its quotient. -/
def next (n x : Nat) : Nat := (x + n / x) / 2

/-! ## One round -/

/-- No round goes below the root. -/
theorem sqrt_le_next (n : Nat) {x : Nat} (hx : 0 < x) : n.sqrt ≤ next n x := by
  have hroot : n.sqrt * n.sqrt ≤ n := n.sqrt_le
  have hquot : 2 * n.sqrt - x ≤ n / x := by
    rw [Nat.le_div_iff_mul_le hx]
    refine le_trans ?_ hroot
    rcases Nat.le_total (2 * n.sqrt) x with h | h
    · rw [Nat.sub_eq_zero_of_le h, Nat.zero_mul]
      exact Nat.zero_le _
    · obtain ⟨y, hy⟩ := Nat.exists_eq_add_of_le h
      rw [hy, Nat.add_sub_cancel_left]
      -- the product of two numbers is at most the square of their mean
      nlinarith [sq_nonneg ((x : Int) - y), hy]
  unfold next
  omega

/-- Above the root the quotient is at most the root. -/
theorem div_le_sqrt {n x : Nat} (h : n.sqrt < x) : n / x ≤ n.sqrt := by
  have hlt : n < x * (n.sqrt + 1) :=
    (n.lt_succ_sqrt).trans_le (Nat.mul_le_mul_right _ h)
  exact Nat.le_of_lt_succ (Nat.div_lt_of_lt_mul hlt)

/-- Above the root a round goes down. -/
theorem next_lt {n x : Nat} (h : n.sqrt < x) : next n x < x := by
  have hquot := div_le_sqrt h
  unfold next
  omega

/-- A round at the root stays there, or goes up by one where the next number is a
square. -/
theorem next_sqrt {n : Nat} (hn : 0 < n) :
    next n n.sqrt = if IsSquare (n + 1) then n.sqrt + 1 else n.sqrt := by
  have hroot : n.sqrt * n.sqrt ≤ n := n.sqrt_le
  have hpos : 0 < n.sqrt := Nat.sqrt_pos.mpr hn
  have hlt : n < (n.sqrt + 1) * (n.sqrt + 1) := n.lt_succ_sqrt
  have hlow : n.sqrt ≤ n / n.sqrt := (Nat.le_div_iff_mul_le hpos).mpr hroot
  by_cases hsquare : IsSquare (n + 1)
  · have hend : n + 1 = (n.sqrt + 1) * (n.sqrt + 1) := by
      obtain ⟨s, hs⟩ := hsquare
      have hle : n.sqrt + 1 ≤ s := by
        by_contra hlts
        have hsle : s ≤ n.sqrt := by omega
        have := Nat.mul_le_mul hsle hsle
        omega
      have := Nat.mul_le_mul hle hle
      omega
    have hquot : n / n.sqrt = n.sqrt + 2 := by
      refine Nat.div_eq_of_lt_le ?_ ?_
      · nlinarith
      · nlinarith
    rw [if_pos hsquare, next, hquot]
    omega
  · have hne : n + 1 ≠ (n.sqrt + 1) * (n.sqrt + 1) := fun h => hsquare ⟨_, h⟩
    have hquot : n / n.sqrt ≤ n.sqrt + 1 := by
      refine Nat.le_of_lt_succ ((Nat.div_lt_iff_lt_mul hpos).mpr ?_)
      have hsum : (n.sqrt + 1) * (n.sqrt + 1) = (n.sqrt + 1).succ * n.sqrt + 1 := by
        rw [Nat.succ_eq_add_one]
        ring
      omega
    rw [if_neg hsquare, next]
    omega

/-- And the round after that comes back. -/
theorem next_sqrt_succ (n : Nat) : next n (n.sqrt + 1) = n.sqrt :=
  Nat.le_antisymm (Nat.le_of_lt_succ (next_lt (Nat.lt_succ_self _)))
    (sqrt_le_next n (Nat.succ_pos _))

/-! ## The rounds to the root -/

/-- The number of rounds from a guess down to the root. -/
def roundsFrom (n x : Nat) : Nat := if _h : n.sqrt < x then roundsFrom n (next n x) + 1 else 0
termination_by x
decreasing_by exact next_lt _h

theorem roundsFrom_above {n x : Nat} (h : n.sqrt < x) :
    roundsFrom n x = roundsFrom n (next n x) + 1 := by
  rw [roundsFrom, dif_pos h]

@[simp] theorem roundsFrom_sqrt (n : Nat) : roundsFrom n n.sqrt = 0 := by
  rw [roundsFrom, dif_neg (lt_irrefl _)]

/-- The number of rounds when the number itself is the first guess. -/
def rounds (n : Nat) : Nat := roundsFrom n n

/-- After some rounds the guess is the root, exactly where the rounds suffice and,
if the root is no fixed point, an even number of them is left. -/
theorem iterate_next_iff {n : Nat} (hn : 0 < n) (k : Nat) {x : Nat} (hx : n.sqrt ≤ x) :
    (next n)^[k] x = n.sqrt ↔
      roundsFrom n x ≤ k ∧ (IsSquare (n + 1) → Even (k - roundsFrom n x)) := by
  induction k generalizing x with
  | zero =>
    rcases hx.eq_or_lt with rfl | hlt
    · simp
    · rw [roundsFrom_above hlt]
      refine ⟨fun h => absurd h.symm hlt.ne, fun h => absurd h.1 (by omega)⟩
  | succ k ih =>
    rw [Function.iterate_succ_apply]
    rcases hx.eq_or_lt with rfl | hlt
    · rw [next_sqrt hn, roundsFrom_sqrt]
      by_cases hsquare : IsSquare (n + 1)
      · -- up by one: the way back takes the first of the rounds left
        rw [if_pos hsquare, ih (Nat.le_succ _), roundsFrom_above (Nat.lt_succ_self _),
          next_sqrt_succ, roundsFrom_sqrt]
        simp only [hsquare, forall_const, Nat.even_iff]
        omega
      · rw [if_neg hsquare, ih le_rfl, roundsFrom_sqrt]
        simp [hsquare]
    · rw [ih (sqrt_le_next n (Nat.zero_lt_of_lt hlt)), roundsFrom_above hlt,
        Nat.add_le_add_iff_right, Nat.add_sub_add_right]

theorem iterate_next_pos {n : Nat} (hn : 0 < n) (k : Nat) : 0 < (next n)^[k] n := by
  induction k with
  | zero => exact hn
  | succ k ih =>
    rw [Function.iterate_succ_apply']
    exact (Nat.sqrt_pos.mpr hn).trans_le (sqrt_le_next n ih)

/-! ## How many rounds there are -/

/-- A round more than halves the way to the root. -/
theorem roundsFrom_le {n : Nat} (k : Nat) {x : Nat} (hx : n.sqrt ≤ x) (h : x < n.sqrt + 2 ^ k) :
    roundsFrom n x ≤ k := by
  induction k generalizing x with
  | zero =>
    rw [show x = n.sqrt by omega, roundsFrom_sqrt]
  | succ k ih =>
    rcases hx.eq_or_lt with rfl | hlt
    · simp
    · have hquot := div_le_sqrt hlt
      rw [roundsFrom_above hlt, Nat.add_le_add_iff_right]
      refine ih (sqrt_le_next n (Nat.zero_lt_of_lt hlt)) ?_
      rw [Nat.pow_succ] at h
      unfold next
      omega

/-- A round does not more than halve the guess. -/
theorem lt_of_roundsFrom_le {n : Nat} (k : Nat) {x : Nat} (hx : n.sqrt ≤ x)
    (h : roundsFrom n x ≤ k) : x < (n.sqrt + 1) * 2 ^ k := by
  induction k generalizing x with
  | zero =>
    rcases hx.eq_or_lt with rfl | hlt
    · omega
    · rw [roundsFrom_above hlt] at h
      omega
  | succ k ih =>
    rcases hx.eq_or_lt with rfl | hlt
    · have hpow : 0 < 2 ^ (k + 1) := Nat.two_pow_pos _
      nlinarith
    · rw [roundsFrom_above hlt, Nat.add_le_add_iff_right] at h
      have hbound := ih (sqrt_le_next n (Nat.zero_lt_of_lt hlt)) h
      have hhalf : x / 2 ≤ next n x := Nat.div_le_div_right (Nat.le_add_right x _)
      rw [Nat.pow_succ, ← Nat.mul_assoc]
      omega

/-- Few rounds suffice for small numbers. -/
theorem rounds_le {n k : Nat} (h : n < 2 ^ k) : rounds n ≤ k :=
  roundsFrom_le k n.sqrt_le_self (Nat.lt_add_left _ h)

/-- No fixed number of rounds suffices for large numbers. -/
theorem lt_rounds {n k : Nat} (h : (2 ^ k + 1) * (2 ^ k + 1) ≤ n) : k < rounds n := by
  by_contra hle
  have hlt := lt_of_roundsFrom_le k n.sqrt_le_self (Nat.le_of_not_lt hle)
  have hroot : 2 ^ k + 1 ≤ n.sqrt := Nat.le_sqrt.mpr h
  have hsq : n.sqrt * n.sqrt ≤ n := n.sqrt_le
  nlinarith

end Runar.Newton
